import Mathlib.Data.List.Nodup

/-!
# Notes and pending differences

Two general patterns of incremental synchronisation.

* `Noted`: a snapshot of some data is kept up to date by notes of what has changed and of what has
  been removed since it was taken.  `Noted.put`, `Noted.erase` and `Noted.touch` say how notes follow
  a change, `Noted.settle` that folding them into the snapshot gives the current data.
* `Covers`: differences that wait to be sent lead from what the receiver holds to the snapshot.
  `Covers.start` is the state after everything has been received, `Covers.advance` says when
  differences that are replaced or added to still cover what was not received.

`foldl_local` describes a loop over different keys whose body only works at its own key.
-/

namespace Qbutt

variable {κ ν δ : Type}

/-! ### Loops over keys -/

/-- A loop over items with different keys, whose body reads and writes a state at the key of its
item only, leaves at each key what the body makes of the state before the loop. -/
theorem foldl_local {σ ε β : Type} (key : ε → κ) (look : κ → σ → β) (g : σ → ε → σ)
    (hother : ∀ s e x, x ≠ key e → look x (g s e) = look x s)
    (hsame : ∀ s s' e, look (key e) s = look (key e) s' →
      look (key e) (g s e) = look (key e) (g s' e))
    {es : List ε} (hnodup : (es.map key).Nodup) (s : σ) :
    (∀ e ∈ es, look (key e) (es.foldl g s) = look (key e) (g s e)) ∧
      ∀ x, x ∉ es.map key → look x (es.foldl g s) = look x s := by
  induction es generalizing s with
  | nil => exact ⟨fun e he => (List.not_mem_nil he).elim, fun _ _ => rfl⟩
  | cons a es ih =>
    obtain ⟨hnot, hnodup⟩ := List.nodup_cons.mp hnodup
    obtain ⟨hin, hout⟩ := ih hnodup (g s a)
    constructor
    · intro e he
      rcases List.mem_cons.mp he with rfl | he
      · exact hout _ hnot
      · have hne : key e ≠ key a := fun heq => hnot (heq ▸ List.mem_map_of_mem he)
        exact (hin e he).trans (hsame _ _ _ (hother s a _ hne))
    · intro x hx
      rw [List.map_cons, List.mem_cons, not_or] at hx
      exact (hout x hx.2).trans (hother s a x hx.1)

/-- `foldl_local` for a loop over the keys themselves. -/
theorem foldl_keys {σ β : Type} (look : κ → σ → β) (g : σ → κ → σ)
    (hother : ∀ s k x, x ≠ k → look x (g s k) = look x s)
    (hsame : ∀ s s' k, look k s = look k s' → look k (g s k) = look k (g s' k))
    {ks : List κ} (hnodup : ks.Nodup) (s : σ) :
    (∀ k ∈ ks, look k (ks.foldl g s) = look k (g s k)) ∧
      ∀ x, x ∉ ks → look x (ks.foldl g s) = look x s := by
  have h := foldl_local id look g hother hsame (by simpa using hnodup) s
  simpa using h

/-! ### Notes -/

/-- Every difference between the current data and a snapshot is noted: as changed what is there
now, as removed what is not. -/
structure Noted (current snapshot : κ → Option ν) (changed removed : List κ) : Prop where
  changed_present : ∀ k ∈ changed, (current k).isSome
  removed_absent : ∀ k ∈ removed, current k = none
  same : ∀ k, k ∉ changed → k ∉ removed → snapshot k = current k

namespace Noted

variable {current current' snapshot snapshot' : κ → Option ν}
  {changed changed' removed removed' : List κ}

theorem disjoint (h : Noted current snapshot changed removed) : changed.Disjoint removed := by
  intro k hchanged hremoved
  have hpresent := h.changed_present k hchanged
  rw [h.removed_absent k hremoved] at hpresent
  cases hpresent

theorem not_removed (h : Noted current snapshot changed removed) {k : κ}
    (hk : (current k).isSome) : k ∉ removed := by
  intro hremoved
  rw [h.removed_absent k hremoved] at hk
  cases hk

theorem put (h : Noted current snapshot changed removed) (k : κ)
    (hk : (current' k).isSome) (hcurrent : ∀ x, x ≠ k → current' x = current x)
    (hchanged : ∀ x, x ∈ changed' ↔ x = k ∨ x ∈ changed)
    (hremoved : ∀ x, x ∈ removed' ↔ x ≠ k ∧ x ∈ removed) :
    Noted current' snapshot changed' removed' where
  changed_present x hx := by
    by_cases hxk : x = k
    · exact hxk ▸ hk
    · rw [hcurrent x hxk]
      exact h.changed_present x (((hchanged x).mp hx).resolve_left hxk)
  removed_absent x hx := by
    obtain ⟨hxk, hx⟩ := (hremoved x).mp hx
    rw [hcurrent x hxk, h.removed_absent x hx]
  same x hnot hnot' := by
    rw [hchanged, not_or] at hnot
    rw [hremoved, not_and] at hnot'
    rw [hcurrent x hnot.1, h.same x hnot.2 (hnot' hnot.1)]

theorem erase (h : Noted current snapshot changed removed) (k : κ)
    (hk : current' k = none) (hcurrent : ∀ x, x ≠ k → current' x = current x)
    (hchanged : ∀ x, x ∈ changed' ↔ x ≠ k ∧ x ∈ changed)
    (hremoved : ∀ x, x ∈ removed' ↔ x = k ∨ x ∈ removed) :
    Noted current' snapshot changed' removed' where
  changed_present x hx := by
    obtain ⟨hxk, hx⟩ := (hchanged x).mp hx
    rw [hcurrent x hxk]
    exact h.changed_present x hx
  removed_absent x hx := by
    by_cases hxk : x = k
    · rw [hxk, hk]
    · rw [hcurrent x hxk]
      exact h.removed_absent x (((hremoved x).mp hx).resolve_left hxk)
  same x hnot hnot' := by
    rw [hremoved, not_or] at hnot'
    rw [hchanged, not_and] at hnot
    rw [hcurrent x hnot'.1, h.same x (hnot hnot'.1) hnot'.2]

/-- A change of an item that is there already is noted. -/
theorem touch (h : Noted current snapshot changed removed) (k : κ)
    (hk : (current k).isSome) (hk' : (current' k).isSome)
    (hcurrent : ∀ x, x ≠ k → current' x = current x)
    (hchanged : ∀ x, x ∈ changed' ↔ x = k ∨ x ∈ changed) :
    Noted current' snapshot changed' removed := by
  refine h.put k hk' hcurrent hchanged fun x => ⟨fun hx => ⟨?_, hx⟩, And.right⟩
  rintro rfl
  exact h.not_removed hk hx

/-- Nothing is noted where nothing differs. -/
theorem refl (current : κ → Option ν) : Noted current current [] [] where
  changed_present k hk := (List.not_mem_nil hk).elim
  removed_absent k hk := (List.not_mem_nil hk).elim
  same _ _ _ := rfl

theorem settle (h : Noted current snapshot changed removed)
    (hremoved : ∀ k ∈ removed, snapshot' k = none)
    (hchanged : ∀ k ∈ changed, snapshot' k = current k)
    (hother : ∀ k, k ∉ changed → k ∉ removed → snapshot' k = snapshot k) :
    snapshot' = current := by
  funext k
  by_cases hrem : k ∈ removed
  · rw [hremoved k hrem, h.removed_absent k hrem]
  by_cases hch : k ∈ changed
  · exact hchanged k hch
  · rw [hother k hch hrem, h.same k hch hrem]

end Noted

/-! ### Pending differences -/

/-- What a receiver makes of an item: it drops it first if it is listed as removed, and then merges
the difference, if there is one. -/
def received (merge : Option ν → δ → ν) (held : Option ν) (removed : Prop) [Decidable removed]
    (item : Option δ) : Option ν :=
  let kept := if removed then none else held
  match item with
  | some difference => some (merge kept difference)
  | none => kept

/-- The differences that wait to be sent lead from what the receiver holds to the snapshot. -/
def Covers [DecidableEq κ] (merge : Option ν → δ → ν) (held : κ → Option ν) (removed : List κ)
    (items : κ → Option δ) (snapshot : κ → Option ν) : Prop :=
  ∀ k, received merge (held k) (k ∈ removed) (items k) = snapshot k

namespace Covers

variable [DecidableEq κ] {merge : Option ν → δ → ν} {held snapshot snapshot' : κ → Option ν}
  {removed removed' changes removals : List κ} {items items' : κ → Option δ}

/-- Nothing waits for a receiver that holds the snapshot. -/
theorem start (merge : Option ν → δ → ν) (snapshot : κ → Option ν) :
    Covers merge snapshot [] (fun _ => none) snapshot := by
  intro k
  simp [received]

/-- Where neither the snapshot nor what waits changes, nothing is lost; a removal waits instead of
a difference; and a new difference may replace the waiting one if it leads from what the receiver
keeps to the new snapshot. -/
theorem advance (changes removals : List κ) (h : Covers merge held removed items snapshot)
    (hremovals : ∀ k ∈ removals, k ∈ removed' ∧ items' k = none ∧ snapshot' k = none)
    (hchanges : ∀ k ∈ changes, k ∉ removals →
      received merge (held k) (k ∈ removed') (items' k) = snapshot' k)
    (hother : ∀ k, k ∉ changes → k ∉ removals →
      (k ∈ removed' ↔ k ∈ removed) ∧ items' k = items k ∧ snapshot' k = snapshot k) :
    Covers merge held removed' items' snapshot' := by
  intro k
  by_cases hrem : k ∈ removals
  · obtain ⟨hk, hitem, hsnap⟩ := hremovals k hrem
    simp [received, hk, hitem, hsnap]
  by_cases hch : k ∈ changes
  · exact hchanges k hch hrem
  · obtain ⟨hk, hitem, hsnap⟩ := hother k hch hrem
    rw [hsnap, ← h k, hitem]
    simp only [received, hk]

end Covers

end Qbutt
