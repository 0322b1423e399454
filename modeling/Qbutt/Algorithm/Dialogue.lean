import Mathlib.Data.List.Forall2
import Mathlib.Data.List.TakeDrop
import Mathlib.Data.Int.Notation

/-!
# Dialogues

A party that sends a request in each of its states and reads the answer, which leads it to the next
state or ends the dialogue.  What the other side does is a list of exchanges; a run gives the
requests with the states they are sent in (`Sent`) and the result, if the exchanges lead to one.

* `invariant`: what holds at the start and is kept by every answer holds wherever a request is sent.
* `pairwise_of_tail`: what the answer to a request says about all later requests.
* `length_le` and `ends`: a measure that every answer decreases bounds the requests, and a dialogue
  with enough answers ends.
* `lockstep`: two parties that read answers the same way send their requests in the same states, as
  long as both of them go on.
-/

namespace Qbutt

open List

/-- A party of a dialogue. -/
structure Dialogue (σ ρ α ω : Type) where
  /-- the request of a state, at a time, or the result that ends the dialogue -/
  request : σ → ℤ → Except ω ρ
  /-- the state an answer leads to, or the result that ends the dialogue -/
  answer : σ → α → ℤ → σ ⊕ ω

/-- What the other side does: when it is asked, and what it answers and when. -/
structure Exchange (α : Type) where
  sentAt : ℤ
  answer : Option α := none
  receivedAt : ℤ := sentAt

structure Sent (σ ρ α : Type) where
  state : σ
  request : ρ
  answer : Option α

namespace Dialogue

variable {σ ρ α ω : Type} {d d' : Dialogue σ ρ α ω} {I : σ → Prop} {visible : σ → Bool}

/-- The requests of a dialogue and its result; `none` is a dialogue that has not ended. -/
def run (d : Dialogue σ ρ α ω) : List (Exchange α) → σ → List (Sent σ ρ α) × Option ω
  | [], _ => ([], none)
  | exchange :: exchanges, s =>
    match d.request s exchange.sentAt with
    | .error result => ([], some result)
    | .ok request =>
      let sent : Sent σ ρ α := ⟨s, request, exchange.answer⟩
      match exchange.answer with
      | none => ([sent], none)
      | some answer =>
        match d.answer s answer exchange.receivedAt with
        | .inr result => ([sent], some result)
        | .inl s' => (sent :: (d.run exchanges s').1, (d.run exchanges s').2)

/-- The states in which a request is asked for, and when. -/
def visits (d : Dialogue σ ρ α ω) : List (Exchange α) → σ → List (σ × ℤ)
  | [], _ => []
  | exchange :: exchanges, s =>
    (s, exchange.sentAt) ::
      match d.request s exchange.sentAt, exchange.answer with
      | .ok _, some answer =>
        match d.answer s answer exchange.receivedAt with
        | .inr _ => []
        | .inl s' => d.visits exchanges s'
      | _, _ => []

/-- The requests that a dialogue may send from a state. -/
inductive Trace (d : Dialogue σ ρ α ω) : σ → List (Sent σ ρ α) → Prop where
  | nil {s : σ} : Trace d s []
  | last {s : σ} {request : ρ} {t : ℤ} (answer : Option α) (h : d.request s t = .ok request) :
      Trace d s [⟨s, request, answer⟩]
  | next {s s' : σ} {request : ρ} {answer : α} {t t' : ℤ} {trace : List (Sent σ ρ α)}
      (h : d.request s t = .ok request) (hs : d.answer s answer t' = .inl s')
      (htrace : Trace d s' trace) : Trace d s (⟨s, request, some answer⟩ :: trace)

theorem trace_run (exchanges : List (Exchange α)) (s : σ) : d.Trace s (d.run exchanges s).1 := by
  induction exchanges generalizing s with
  | nil => exact .nil
  | cons exchange exchanges ih =>
    unfold run
    cases hrequest : d.request s exchange.sentAt with
    | error result => exact .nil
    | ok request =>
      cases hanswer : exchange.answer with
      | none => exact .last none hrequest
      | some answer =>
        simp only
        cases hnext : d.answer s answer exchange.receivedAt with
        | inr result => exact .last _ hrequest
        | inl s' => exact .next hrequest hnext (ih s')

namespace Trace

variable {s : σ} {trace : List (Sent σ ρ α)}

/-- Every request is the request of its state, and what answers keep holds in that state. -/
theorem invariant (h : d.Trace s trace) (hstep : ∀ s a t s', I s → d.answer s a t = .inl s' → I s')
    (hs : I s) : ∀ sent ∈ trace, I sent.state ∧ ∃ t, d.request sent.state t = .ok sent.request := by
  induction h with
  | nil => exact fun sent hsent => absurd hsent not_mem_nil
  | last answer h =>
    intro sent hsent
    obtain rfl := mem_singleton.mp hsent
    exact ⟨hs, _, h⟩
  | next h hnext _ ih =>
    intro sent hsent
    rcases mem_cons.mp hsent with rfl | hsent
    · exact ⟨hs, _, h⟩
    · exact ih (hstep _ _ _ _ hs hnext) sent hsent

/-- Each request is related to all later ones if its answer leads to a state that says so. -/
theorem pairwise_of_tail {R : Sent σ ρ α → Sent σ ρ α → Prop} (h : d.Trace s trace)
    (hstep : ∀ s request answer t t' s' trace, d.request s t = .ok request →
      d.answer s answer t' = .inl s' → d.Trace s' trace →
        ∀ sent ∈ trace, R ⟨s, request, some answer⟩ sent) : trace.Pairwise R := by
  induction h with
  | nil => exact .nil
  | last answer h => exact pairwise_singleton R _
  | next h hnext htrace ih => exact .cons (hstep _ _ _ _ _ _ _ h hnext htrace) ih

theorem length_le {m : σ → ℕ} (h : d.Trace s trace)
    (hstep : ∀ s a t s', I s → d.answer s a t = .inl s' → I s' ∧ m s' < m s) (hs : I s) :
    trace.length ≤ m s + 1 := by
  induction h with
  | nil => exact Nat.zero_le _
  | last answer h => simp
  | next h hnext _ ih =>
    obtain ⟨hs', hlt⟩ := hstep _ _ _ _ hs hnext
    have hle := ih hs'
    rw [length_cons]
    omega

end Trace

theorem ends {m : σ → ℕ} (hstep : ∀ s a t s', I s → d.answer s a t = .inl s' → I s' ∧ m s' < m s)
    {exchanges : List (Exchange α)} (hanswered : ∀ exchange ∈ exchanges, exchange.answer.isSome)
    {s : σ} (hs : I s) (hlength : m s < exchanges.length) : (d.run exchanges s).2.isSome := by
  induction exchanges generalizing s with
  | nil => exact absurd hlength (Nat.not_lt_zero _)
  | cons exchange exchanges ih =>
    obtain ⟨answer, hanswer⟩ := Option.isSome_iff_exists.mp (hanswered exchange mem_cons_self)
    unfold run
    cases d.request s exchange.sentAt with
    | error result => rfl
    | ok request =>
      rw [hanswer]
      simp only
      cases hnext : d.answer s answer exchange.receivedAt with
      | inr result => rfl
      | inl s' =>
        obtain ⟨hs', hlt⟩ := hstep _ _ _ _ hs hnext
        refine ih (fun exchange h => hanswered exchange (mem_cons_of_mem _ h)) hs' ?_
        rw [length_cons] at hlength
        omega

/-! ### Two parties -/

/-- One list goes on where the other one ends. -/
def OnePrefix {β : Type} (l l' : List β) : Prop := l <+: l' ∨ l' <+: l

theorem OnePrefix.nil_left {β : Type} (l : List β) : OnePrefix [] l := Or.inl nil_prefix

theorem OnePrefix.nil_right {β : Type} (l : List β) : OnePrefix l [] := Or.inr nil_prefix

theorem OnePrefix.cons {β : Type} {l l' : List β} (b : β) (h : OnePrefix l l') :
    OnePrefix (b :: l) (b :: l') :=
  h.imp (prefix_cons_inj b).mpr (prefix_cons_inj b).mpr

/-- What an observer sees of a run: the requests sent in some states. -/
def seen (visible : σ → Bool) (trace : List (Sent σ ρ α)) : List ρ :=
  (trace.filter fun sent => visible sent.state).map Sent.request

theorem seen_cons (sent : Sent σ ρ α) (trace : List (Sent σ ρ α)) :
    seen visible (sent :: trace) =
      if visible sent.state then sent.request :: seen visible trace else seen visible trace := by
  unfold seen
  rw [filter_cons]
  split_ifs <;> rfl

/-- Two parties that read answers the same way, and that agree on the requests of the visible
states, show an observer the same requests, up to the point where one of them ends. -/
theorem lockstep (hanswer : d.answer = d'.answer)
    (hrequest : ∀ s t, visible s = true → d.request s t = d'.request s t)
    (exchanges : List (Exchange α)) (s : σ) :
    OnePrefix (seen visible (d.run exchanges s).1) (seen visible (d'.run exchanges s).1) := by
  induction exchanges generalizing s with
  | nil => exact Or.inl (prefix_refl _)
  | cons exchange exchanges ih =>
    -- both parties are in the state `s`; only a hidden request may differ
    have hsame : visible s = true →
        d.request s exchange.sentAt = d'.request s exchange.sentAt := hrequest s exchange.sentAt
    unfold run
    cases hd : d.request s exchange.sentAt with
    | error result => exact OnePrefix.nil_left _
    | ok request =>
      cases hd' : d'.request s exchange.sentAt with
      | error result => exact OnePrefix.nil_right _
      | ok request' =>
        have heq : visible s = true → request = request' := by
          intro hvisible
          have h := hsame hvisible
          rw [hd, hd'] at h
          exact Except.ok.inj h
        have hcons : ∀ {l l' : List (Sent σ ρ α)}, OnePrefix (seen visible l) (seen visible l') →
            OnePrefix (seen visible (⟨s, request, exchange.answer⟩ :: l))
              (seen visible (⟨s, request', exchange.answer⟩ :: l')) := by
          intro l l' h
          rw [seen_cons, seen_cons]
          split_ifs with hvisible
          · simp only [heq hvisible]
            exact h.cons _
          · exact h
        cases hans : exchange.answer with
        | none =>
          rw [hans] at hcons
          exact hcons (Or.inl (prefix_refl _))
        | some answer =>
          rw [hans] at hcons
          simp only
          rw [← hanswer]
          cases d.answer s answer exchange.receivedAt with
          | inr result => exact hcons (Or.inl (prefix_refl _))
          | inl s' => exact hcons (ih s')

/-- Two such parties show an observer the same requests if in the states of the run one of them has
a request exactly when the other one has. -/
theorem lockstep_eq (hanswer : d.answer = d'.answer)
    (hrequest : ∀ s t, visible s = true → d.request s t = d'.request s t)
    (exchanges : List (Exchange α)) (s : σ) (hboth : ∀ v ∈ d.visits exchanges s,
      (d.request v.1 v.2).isOk = (d'.request v.1 v.2).isOk) :
    seen visible (d.run exchanges s).1 = seen visible (d'.run exchanges s).1 := by
  induction exchanges generalizing s with
  | nil => rfl
  | cons exchange exchanges ih =>
    unfold visits at hboth
    have hhead := hboth (s, exchange.sentAt) mem_cons_self
    have htail := fun v hv => hboth v (mem_cons_of_mem _ hv)
    unfold run
    cases hd : d.request s exchange.sentAt with
    | error result =>
      cases hd' : d'.request s exchange.sentAt with
      | error result' => rfl
      | ok request' =>
        rw [hd, hd'] at hhead
        cases hhead
    | ok request =>
      rw [hd] at hhead htail
      cases hd' : d'.request s exchange.sentAt with
      | error result' =>
        rw [hd'] at hhead
        cases hhead
      | ok request' =>
        have heq : visible s = true → request = request' := by
          intro hvisible
          have h := hrequest s exchange.sentAt hvisible
          rw [hd, hd'] at h
          exact Except.ok.inj h
        have hcons : ∀ {l l' : List (Sent σ ρ α)}, seen visible l = seen visible l' →
            seen visible (⟨s, request, exchange.answer⟩ :: l) =
              seen visible (⟨s, request', exchange.answer⟩ :: l') := by
          intro l l' h
          rw [seen_cons, seen_cons]
          split_ifs with hvisible
          · rw [heq hvisible, h]
          · exact h
        cases hans : exchange.answer with
        | none =>
          rw [hans] at hcons
          exact hcons rfl
        | some answer =>
          rw [hans] at hcons htail
          simp only at htail ⊢
          rw [← hanswer]
          cases hnext : d.answer s answer exchange.receivedAt with
          | inr result => exact hcons rfl
          | inl s' =>
            rw [hnext] at htail
            exact hcons (ih s' htail)

end Dialogue

end Qbutt
