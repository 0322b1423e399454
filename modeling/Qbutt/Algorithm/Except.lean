import Mathlib.Data.List.Forall2

/-!
# Computations that fail

What is known of the parts when a composed computation in `Except` succeeds, and that a list of
successful computations yields the list of their results.
-/

namespace Qbutt

variable {ε ε' α β : Type} {b b' : β} {as : List α} {f : β → α → Except ε β}

theorem bind_eq_ok {x : Except ε α} {f : α → Except ε β} :
    (x >>= f) = .ok b ↔ ∃ a, x = .ok a ∧ f a = .ok b := by
  cases x with
  | error e => simp [bind, Except.bind]
  | ok a => simp [bind, Except.bind]

theorem mapError_eq_ok {x : Except ε α} {f : ε → ε'} {a : α} :
    x.mapError f = .ok a ↔ x = .ok a := by
  cases x with
  | error e => simp [Except.mapError]
  | ok b => simp [Except.mapError]

theorem forall₂_of_mapM {f : α → Except ε β} {bs : List β} (h : as.mapM f = .ok bs) :
    List.Forall₂ (fun a b => f a = .ok b) as bs := by
  induction as generalizing bs with
  | nil =>
    obtain rfl : [] = bs := by simpa [pure, Except.pure] using h
    exact .nil
  | cons a as ih =>
    rw [List.mapM_cons] at h
    obtain ⟨b, hb, h⟩ := bind_eq_ok.mp h
    obtain ⟨bs', hbs', h⟩ := bind_eq_ok.mp h
    obtain rfl : b :: bs' = bs := by simpa [pure, Except.pure] using h
    exact .cons hb (ih hbs')

/-- Every element on the right has its partner on the left. -/
theorem exists_left_of_forall₂ {R : α → β → Prop} {bs : List β} (h : List.Forall₂ R as bs)
    (hb : b ∈ bs) : ∃ a ∈ as, R a b := by
  induction h with
  | nil => cases hb
  | cons hab _ ih =>
    rcases List.mem_cons.mp hb with rfl | hb
    · exact ⟨_, List.mem_cons_self, hab⟩
    · obtain ⟨a, ha, hab⟩ := ih hb
      exact ⟨a, List.mem_cons_of_mem _ ha, hab⟩

theorem forM_eq_ok {f : α → Except ε Unit} : as.forM f = .ok () ↔ ∀ a ∈ as, f a = .ok () := by
  induction as with
  | nil => simp [pure, Except.pure]
  | cons a as ih =>
    show (f a >>= fun _ => as.forM f) = .ok () ↔ _
    rw [bind_eq_ok, List.forall_mem_cons, ← ih]
    constructor
    · rintro ⟨⟨⟩, ha, has⟩
      exact ⟨ha, has⟩
    · rintro ⟨ha, has⟩
      exact ⟨(), ha, has⟩

/-- A loop with an accumulator keeps what every round keeps. -/
theorem foldlM_ok_induction (J : List α → β → Prop) (h : as.foldlM f b = .ok b') (hstart : J [] b)
    (hstep : ∀ done a b b', a ∈ as → J done b → f b a = .ok b' → J (done ++ [a]) b') : J as b' := by
  suffices hgen : ∀ (rest done : List α) b, (∀ a ∈ rest, a ∈ as) → J done b →
      rest.foldlM f b = .ok b' → J (done ++ rest) b' from
    hgen as [] b (fun _ ha => ha) hstart h
  intro rest
  induction rest with
  | nil =>
    intro done b _ hJ h
    obtain rfl : b = b' := by simpa [pure, Except.pure] using h
    simpa using hJ
  | cons a rest ih =>
    intro done b hsub hJ h
    rw [List.foldlM_cons] at h
    obtain ⟨b₁, hb₁, h⟩ := bind_eq_ok.mp h
    have hnext := hstep done a b b₁ (hsub a List.mem_cons_self) hJ hb₁
    have hrest := ih (done ++ [a]) b₁ (fun c hc => hsub c (List.mem_cons_of_mem a hc)) hnext h
    rwa [List.append_assoc, List.singleton_append] at hrest

/-- A loop succeeds with the same result where every round that succeeds does. -/
theorem foldlM_ok_mono {g : β → α → Except ε β} (h : as.foldlM f b = .ok b')
    (hfg : ∀ a ∈ as, ∀ b b', f b a = .ok b' → g b a = .ok b') : as.foldlM g b = .ok b' := by
  induction as generalizing b with
  | nil => exact h
  | cons a as ih =>
    rw [List.foldlM_cons] at h ⊢
    obtain ⟨b₁, hb₁, h⟩ := bind_eq_ok.mp h
    rw [hfg a List.mem_cons_self b b₁ hb₁]
    exact ih h fun c hc => hfg c (List.mem_cons_of_mem a hc)

theorem foldlM_append_ok {as' : List α} {b'' : β} (h : as.foldlM f b = .ok b')
    (h' : as'.foldlM f b' = .ok b'') : (as ++ as').foldlM f b = .ok b'' := by
  rw [List.foldlM_append, h]
  exact h'

end Qbutt
