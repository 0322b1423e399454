import Qbutt.Browser.Actor

/-!
# The books of the broker

What the broker's state says about requests (`Books`), and when that is in order (`Books.Sound`): each
request that was taken from the queue is pending, has one result, or is in hand; and a result that is
no error was heard on the connection that the command was sent to.  One lemma for each entry in the
books says that it keeps them in order.
-/

namespace Qbutt.Browser

open List

variable {ν ρ : Type}

/-- The part of the state that is about requests. -/
structure Books (ρ : Type) where
  pending : Table ℕ Pending
  nextRequest : ℕ
  submitted : ℕ
  incoming : List Request
  gone : List ℕ
  taken : List Request
  sent : List Sent
  heard : List Heard
  answers : List (ℕ × Except BrowserError (Outcome ρ))

def State.books (s : State ν ρ) : Books ρ where
  pending := s.pending
  nextRequest := s.nextRequest
  submitted := s.submitted
  incoming := s.incoming
  gone := s.gone
  taken := s.taken
  sent := s.sent
  heard := s.heard
  answers := s.answers

/-- A command was sent to a connection, and a response with its number was heard on that connection
while it was registered. -/
def Books.Answered (b : Books ρ) (caller : ℕ) (outcome : Outcome ρ) : Prop :=
  ∃ sent ∈ b.sent, sent.request.caller = caller ∧ outcome.identity = sent.connection ∧
    ∃ heard ∈ b.heard, heard.connection = sent.connection ∧ heard.id = sent.id ∧
      heard.registered = true

/-- The callers that have a result or whose request is in hand. -/
def Books.owed (b : Books ρ) (hands : List Request) : List ℕ :=
  b.answers.map Prod.fst ++ hands.map Request.caller

structure Books.Sound (hands : List Request) (b : Books ρ) : Prop where
  callers : ((b.taken ++ b.incoming).map Request.caller).Nodup
  submitted : ∀ r ∈ b.taken ++ b.incoming, r.caller < b.submitted
  owedOnce : (b.owed hands).Nodup
  owedTaken : ∀ caller ∈ b.owed hands, ∃ r ∈ b.taken, r.caller = caller
  handsTaken : ∀ r ∈ hands, r ∈ b.taken
  settled : ∀ r ∈ b.taken, r.caller ∈ b.gone ∨ r.caller ∈ b.owed hands ∨
    ∃ id p, b.pending.lookup id = some p ∧ p.request.caller = r.caller
  pendingOpen : ∀ id p, b.pending.lookup id = some p → p.request.caller ∉ b.owed hands
  pendingTaken : ∀ id p, b.pending.lookup id = some p → p.request ∈ b.taken
  pendingOnce : ∀ id p id' p', b.pending.lookup id = some p → b.pending.lookup id' = some p' →
    p.request.caller = p'.request.caller → id = id'
  pendingSent : ∀ id p, b.pending.lookup id = some p →
    ∃ sent ∈ b.sent, sent.id = id ∧ sent.connection = p.connection ∧ sent.request = p.request
  pendingFew : b.pending.size ≤ 16
  sentOnce : (b.sent.map Sent.id).Nodup
  sentRange : ∀ sent ∈ b.sent, 1 ≤ sent.id ∧ sent.id ≤ b.nextRequest
  range : b.nextRequest ≤ maxId
  sentChosen : ∀ sent ∈ b.sent, ∀ connection, sent.request.connection = some connection →
    sent.connection = connection
  answered : ∀ caller outcome, (caller, .ok outcome) ∈ b.answers → b.Answered caller outcome

namespace Books.Sound

variable {hands : List Request} {b : Books ρ}

theorem drop (h : b.Sound hands) {id : ℕ} {p : Pending} (hp : b.pending.lookup id = some p) :
    Books.Sound (p.request :: hands) { b with pending := b.pending.erase id } := by
  have hopen := h.pendingOpen id p hp
  have howed : ∀ caller, caller ∈ b.owed (p.request :: hands) ↔
      caller = p.request.caller ∨ caller ∈ b.owed hands := by
    intro caller
    simp only [Books.owed, map_cons, mem_append, mem_cons]
    tauto
  have herase : ∀ id' p', (b.pending.erase id).lookup id' = some p' →
      id' ≠ id ∧ b.pending.lookup id' = some p' := by
    intro id' p' hlookup
    rw [Table.lookup_erase_eq] at hlookup
    split_ifs at hlookup with heq
    exact ⟨heq, hlookup⟩
  exact
    { h with
      owedOnce := by
        have hperm : (b.owed (p.request :: hands)).Perm (p.request.caller :: b.owed hands) :=
          perm_middle
        exact hperm.nodup_iff.mpr (nodup_cons.mpr ⟨hopen, h.owedOnce⟩)
      owedTaken := fun caller hcaller => by
        rcases (howed caller).mp hcaller with rfl | hcaller
        · exact ⟨p.request, h.pendingTaken id p hp, rfl⟩
        · exact h.owedTaken caller hcaller
      handsTaken := fun r hr => by
        rcases mem_cons.mp hr with rfl | hr
        · exact h.pendingTaken id p hp
        · exact h.handsTaken r hr
      settled := fun r hr => by
        rcases h.settled r hr with hgone | hcaller | ⟨id', p', hp', heq⟩
        · exact .inl hgone
        · exact .inr (.inl ((howed _).mpr (.inr hcaller)))
        · by_cases hid : id' = id
          · subst hid
            rw [hp] at hp'
            cases hp'
            exact .inr (.inl ((howed _).mpr (.inl heq.symm)))
          · refine .inr (.inr ⟨id', p', ?_, heq⟩)
            rw [Table.lookup_erase_eq, if_neg hid, hp']
      pendingOpen := fun id' p' hp' hcaller => by
        obtain ⟨hne, hp'⟩ := herase id' p' hp'
        rcases (howed _).mp hcaller with hcaller | hcaller
        · exact hne (h.pendingOnce id' p' id p hp' hp hcaller)
        · exact h.pendingOpen id' p' hp' hcaller
      pendingTaken := fun id' p' hp' => h.pendingTaken id' p' (herase id' p' hp').2
      pendingOnce := fun id₁ p₁ id₂ p₂ h₁ h₂ =>
        h.pendingOnce id₁ p₁ id₂ p₂ (herase id₁ p₁ h₁).2 (herase id₂ p₂ h₂).2
      pendingSent := fun id' p' hp' => h.pendingSent id' p' (herase id' p' hp').2
      pendingFew := (Table.size_erase_le b.pending id).trans h.pendingFew }

variable {r : Request}

theorem answer (h : b.Sound (r :: hands)) {result : Except BrowserError (Outcome ρ)}
    (hok : ∀ outcome, result = .ok outcome → b.Answered r.caller outcome) :
    Books.Sound hands { b with answers := b.answers ++ [(r.caller, result)] } := by
  have howed : Books.owed { b with answers := b.answers ++ [(r.caller, result)] } hands =
      b.owed (r :: hands) := by
    simp [Books.owed]
  exact
    { h with
      owedOnce := howed ▸ h.owedOnce
      owedTaken := howed ▸ h.owedTaken
      handsTaken := fun r' hr' => h.handsTaken r' (mem_cons_of_mem r hr')
      settled := howed ▸ h.settled
      pendingOpen := howed ▸ h.pendingOpen
      answered := fun caller outcome hmem => by
        rcases mem_append.mp hmem with hmem | hmem
        · exact h.answered caller outcome hmem
        · cases mem_singleton.mp hmem
          exact hok outcome rfl }

theorem abandon (h : b.Sound (r :: hands)) (hgone : r.caller ∈ b.gone) : b.Sound hands := by
  have hsub : (b.owed hands).Sublist (b.owed (r :: hands)) :=
    List.Sublist.append (List.Sublist.refl _) (sublist_cons_self _ _)
  exact
    { h with
      owedOnce := h.owedOnce.sublist hsub
      owedTaken := fun caller hcaller => h.owedTaken caller (hsub.subset hcaller)
      handsTaken := fun r' hr' => h.handsTaken r' (mem_cons_of_mem r hr')
      settled := fun r' hr' => by
        rcases h.settled r' hr' with hgone' | hcaller | hpending
        · exact .inl hgone'
        · rcases mem_append.mp hcaller with hcaller | hcaller
          · exact .inr (.inl (mem_append_left _ hcaller))
          · rcases mem_cons.mp hcaller with hcaller | hcaller
            · exact .inl (hcaller ▸ hgone)
            · exact .inr (.inl (mem_append_right _ hcaller))
        · exact .inr (.inr hpending)
      pendingOpen := fun id p hp hcaller => h.pendingOpen id p hp (hsub.subset hcaller) }

theorem hear (h : b.Sound hands) (heard : Heard) :
    Books.Sound hands { b with heard := b.heard ++ [heard] } :=
  { h with
    answered := fun caller outcome hmem => by
      obtain ⟨sent, hsent, hcaller, hidentity, heard', hheard, hrest⟩ :=
        h.answered caller outcome hmem
      exact ⟨sent, hsent, hcaller, hidentity, heard', mem_append_left _ hheard, hrest⟩ }

/-- A caller goes away. -/
theorem leave (h : b.Sound hands) (caller : ℕ) :
    Books.Sound hands { b with gone := caller :: b.gone } :=
  { h with
    settled := fun r hr => (h.settled r hr).imp_left (mem_cons_of_mem caller) }

theorem submit (h : b.Sound hands) (hr : r.caller = b.submitted) :
    Books.Sound hands
      { b with incoming := b.incoming ++ [r], submitted := b.submitted + 1 } :=
  { h with
    callers := by
      have hfresh : r.caller ∉ (b.taken ++ b.incoming).map Request.caller := by
        intro hmem
        obtain ⟨r', hr', heq⟩ := mem_map.mp hmem
        have hlt := h.submitted r' hr'
        omega
      rw [← append_assoc, map_append, nodup_append]
      refine ⟨h.callers, nodup_singleton _, fun caller hcaller caller' hcaller' heq => ?_⟩
      obtain rfl := mem_singleton.mp hcaller'
      exact hfresh (heq ▸ hcaller)
    submitted := fun r' hr' => by
      rw [← append_assoc] at hr'
      rcases mem_append.mp hr' with hr' | hr'
      · exact (h.submitted r' hr').trans (Nat.lt_succ_self _)
      · obtain rfl := mem_singleton.mp hr'
        exact hr ▸ Nat.lt_succ_self _ }

/-- A request is taken from the queue. -/
theorem take (h : b.Sound hands) {rest : List Request} (hincoming : b.incoming = r :: rest) :
    Books.Sound (r :: hands) { b with incoming := rest, taken := b.taken ++ [r] } := by
  have hlists : (b.taken ++ [r]) ++ rest = b.taken ++ b.incoming := by
    rw [hincoming, append_assoc]
    rfl
  have hfresh : ∀ r' ∈ b.taken, r'.caller ≠ r.caller := by
    intro r' hr' heq
    have hnodup := h.callers
    rw [hincoming, map_append, nodup_append] at hnodup
    exact hnodup.2.2 r'.caller (mem_map_of_mem hr') r.caller
      (mem_map_of_mem mem_cons_self) heq
  have hnotOwed : r.caller ∉ b.owed hands := by
    intro hcaller
    obtain ⟨r', hr', heq⟩ := h.owedTaken _ hcaller
    exact hfresh r' hr' heq
  have howed : ∀ caller,
      caller ∈ Books.owed { b with incoming := rest, taken := b.taken ++ [r] } (r :: hands) ↔
        caller = r.caller ∨ caller ∈ b.owed hands := by
    intro caller
    simp only [Books.owed, map_cons, mem_append, mem_cons]
    tauto
  exact
    { h with
      callers := by
        rw [hlists]
        exact h.callers
      submitted := by
        rw [hlists]
        exact h.submitted
      owedOnce := by
        have hperm : (b.owed (r :: hands)).Perm (r.caller :: b.owed hands) := perm_middle
        exact hperm.nodup_iff.mpr (nodup_cons.mpr ⟨hnotOwed, h.owedOnce⟩)
      owedTaken := fun caller hcaller => by
        rcases (howed caller).mp hcaller with rfl | hcaller
        · exact ⟨r, mem_append_right _ mem_cons_self, rfl⟩
        · obtain ⟨r', hr', heq⟩ := h.owedTaken caller hcaller
          exact ⟨r', mem_append_left _ hr', heq⟩
      handsTaken := fun r' hr' => by
        rcases mem_cons.mp hr' with rfl | hr'
        · exact mem_append_right _ mem_cons_self
        · exact mem_append_left _ (h.handsTaken r' hr')
      settled := fun r' hr' => by
        rcases mem_append.mp hr' with hr' | hr'
        · rcases h.settled r' hr' with hgone | hcaller | hpending
          · exact .inl hgone
          · exact .inr (.inl ((howed _).mpr (.inr hcaller)))
          · exact .inr (.inr hpending)
        · obtain rfl := mem_singleton.mp hr'
          exact .inr (.inl ((howed _).mpr (.inl rfl)))
      pendingOpen := fun id p hp hcaller => by
        rcases (howed _).mp hcaller with heq | hcaller
        · exact hfresh p.request (h.pendingTaken id p hp) heq
        · exact h.pendingOpen id p hp hcaller
      pendingTaken := fun id p hp => mem_append_left _ (h.pendingTaken id p hp) }

theorem send (h : b.Sound (r :: hands)) {connection : ℕ} {metadata : BrowserConnection}
    (hid : b.nextRequest < maxId) (hfew : b.pending.size < 16)
    (hchosen : ∀ chosen, r.connection = some chosen → connection = chosen) :
    Books.Sound hands
      { b with
        nextRequest := b.nextRequest + 1
        sent := b.sent ++ [{ connection := connection, id := b.nextRequest + 1, request := r }]
        pending := b.pending.insert (b.nextRequest + 1)
          { connection := connection, metadata := metadata, request := r } } := by
  have hinHand : r.caller ∈ b.owed (r :: hands) := by
    simp [Books.owed]
  have hsub : (b.owed hands).Sublist (b.owed (r :: hands)) :=
    List.Sublist.append (List.Sublist.refl _) (sublist_cons_self _ _)
  have hpendingId : ∀ id p, b.pending.lookup id = some p → id ≤ b.nextRequest := by
    intro id p hp
    obtain ⟨sent, hsent, rfl, -⟩ := h.pendingSent id p hp
    exact (h.sentRange sent hsent).2
  have hfresh : b.pending.lookup (b.nextRequest + 1) = none := by
    cases hlookup : b.pending.lookup (b.nextRequest + 1) with
    | none => rfl
    | some p => exact absurd (hpendingId _ p hlookup) (by omega)
  have hinsert : ∀ id p, (b.pending.insert (b.nextRequest + 1)
      { connection := connection, metadata := metadata, request := r }).lookup id = some p →
      (id = b.nextRequest + 1 ∧ p = ⟨connection, metadata, r⟩) ∨ b.pending.lookup id = some p := by
    intro id p hp
    rw [Table.lookup_insert_eq] at hp
    split_ifs at hp with heq
    · cases hp
      exact .inl ⟨heq, rfl⟩
    · exact .inr hp
  exact
    { h with
      owedOnce := h.owedOnce.sublist hsub
      owedTaken := fun caller hcaller => h.owedTaken caller (hsub.subset hcaller)
      handsTaken := fun r' hr' => h.handsTaken r' (mem_cons_of_mem r hr')
      settled := fun r' hr' => by
        rcases h.settled r' hr' with hgone | hcaller | ⟨id, p, hp, heq⟩
        · exact .inl hgone
        · rcases mem_append.mp hcaller with hcaller | hcaller
          · exact .inr (.inl (mem_append_left _ hcaller))
          · rcases mem_cons.mp hcaller with hcaller | hcaller
            · exact .inr (.inr ⟨_, _, AList.lookup_insert _, hcaller.symm⟩)
            · exact .inr (.inl (mem_append_right _ hcaller))
        · refine .inr (.inr ⟨id, p, ?_, heq⟩)
          have hne : id ≠ b.nextRequest + 1 := by
            have := hpendingId id p hp
            omega
          rw [Table.lookup_insert_eq, if_neg hne, hp]
      pendingOpen := fun id p hp hcaller => by
        rcases hinsert id p hp with ⟨-, rfl⟩ | hp
        · -- the request was in hand once
          have honce := h.owedOnce
          have hperm : (b.owed (r :: hands)).Perm (r.caller :: b.owed hands) := perm_middle
          exact (nodup_cons.mp (hperm.nodup_iff.mp honce)).1 hcaller
        · exact h.pendingOpen id p hp (hsub.subset hcaller)
      pendingTaken := fun id p hp => by
        rcases hinsert id p hp with ⟨-, rfl⟩ | hp
        · exact h.handsTaken r mem_cons_self
        · exact h.pendingTaken id p hp
      pendingOnce := fun id p id' p' hp hp' heq => by
        rcases hinsert id p hp with ⟨hid, rfl⟩ | hp <;>
          rcases hinsert id' p' hp' with ⟨hid', rfl⟩ | hp'
        · rw [hid, hid']
        · exact absurd (heq ▸ hinHand) (h.pendingOpen id' p' hp')
        · exact absurd (heq ▸ hinHand) (h.pendingOpen id p hp)
        · exact h.pendingOnce id p id' p' hp hp' heq
      pendingSent := fun id p hp => by
        rcases hinsert id p hp with ⟨hid, rfl⟩ | hp
        · exact ⟨_, mem_append_right _ mem_cons_self, hid.symm, rfl, rfl⟩
        · obtain ⟨sent, hsent, hrest⟩ := h.pendingSent id p hp
          exact ⟨sent, mem_append_left _ hsent, hrest⟩
      pendingFew := by
        rw [Table.size_insert_of_fresh hfresh]
        exact hfew
      sentOnce := by
        rw [map_append, nodup_append]
        refine ⟨h.sentOnce, nodup_singleton _, fun id hid id' hid' heq => ?_⟩
        obtain ⟨sent, hsent, rfl⟩ := mem_map.mp hid
        obtain rfl := mem_singleton.mp hid'
        have hle := (h.sentRange sent hsent).2
        rw [heq] at hle
        exact absurd hle (Nat.not_succ_le_self _)
      sentRange := fun sent hsent => by
        rcases mem_append.mp hsent with hsent | hsent
        · obtain ⟨hlow, hhigh⟩ := h.sentRange sent hsent
          exact ⟨hlow, hhigh.trans (Nat.le_succ _)⟩
        · obtain rfl := mem_singleton.mp hsent
          exact ⟨Nat.succ_pos _, le_refl _⟩
      range := hid
      sentChosen := fun sent hsent chosen hchoice => by
        rcases mem_append.mp hsent with hsent | hsent
        · exact h.sentChosen sent hsent chosen hchoice
        · obtain rfl := mem_singleton.mp hsent
          exact hchosen chosen hchoice
      answered := fun caller outcome hmem => by
        obtain ⟨sent, hsent, hrest⟩ := h.answered caller outcome hmem
        exact ⟨sent, mem_append_left _ hsent, hrest⟩ }

end Books.Sound

end Qbutt.Browser
