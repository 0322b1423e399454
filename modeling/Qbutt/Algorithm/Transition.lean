import Mathlib.Logic.Relation

/-!
# Labelled transition systems

A system is a set of initial states and a partial step function, whose labels are everything the
scheduler, the environment and the users choose.  Statements about runs take an `allowed` predicate:
a condition on a state and the label taken there that the run respects (`fun _ _ => True` for all
runs).

* `Reachable.invariant`: what holds initially and is kept by every allowed step holds in every
  reachable state.
* `Steps.preserves`: what every allowed step keeps, a whole run keeps.
-/

namespace Qbutt

/-- A labelled transition system with a step function. -/
structure System (σ α : Type) where
  initial : σ → Prop
  step : σ → α → Option σ

namespace System

variable {σ α : Type} {S : System σ α} {allowed : σ → α → Prop} {s t : σ}

/-- The states a run of allowed steps reaches. -/
inductive Reachable (S : System σ α) (allowed : σ → α → Prop) : σ → Prop where
  | start {s : σ} (h : S.initial s) : Reachable S allowed s
  | next {s s' : σ} {a : α} (h : Reachable S allowed s) (ha : allowed s a)
      (hs : S.step s a = some s') : Reachable S allowed s'

/-- A run of allowed steps from one state to another. -/
inductive Steps (S : System σ α) (allowed : σ → α → Prop) (s : σ) : σ → Prop where
  | refl : Steps S allowed s s
  | tail {t t' : σ} {a : α} (h : Steps S allowed s t) (ha : allowed t a)
      (hs : S.step t a = some t') : Steps S allowed s t'

theorem Reachable.invariant {I : σ → Prop} (h0 : ∀ s, S.initial s → I s)
    (hstep : ∀ s a s', I s → allowed s a → S.step s a = some s' → I s') {s : σ}
    (h : S.Reachable allowed s) : I s := by
  induction h with
  | start h => exact h0 _ h
  | next _ ha hs ih => exact hstep _ _ _ ih ha hs

theorem Steps.preserves {P : σ → Prop}
    (hstep : ∀ s a s', P s → allowed s a → S.step s a = some s' → P s') {s t : σ}
    (h : S.Steps allowed s t) (hP : P s) : P t := by
  induction h with
  | refl => exact hP
  | tail _ ha hs ih => exact hstep _ _ _ ih ha hs

theorem Steps.trans {u : σ} (h : S.Steps allowed s t) (h' : S.Steps allowed t u) :
    S.Steps allowed s u :=
  h'.preserves (fun _ _ _ ih ha hs => ih.tail ha hs) h

theorem Steps.single {a : α} (ha : allowed s a) (hs : S.step s a = some t) : S.Steps allowed s t :=
  Steps.refl.tail ha hs

def runAll (S : System σ α) (s : σ) : List α → Option σ
  | [] => some s
  | a :: as => (S.step s a).bind fun s' => runAll S s' as

/-- All labels of a run are allowed where they are taken. -/
def AllowedAll (S : System σ α) (allowed : σ → α → Prop) (s : σ) : List α → Prop
  | [] => True
  | a :: as => allowed s a ∧
    match S.step s a with
    | some s' => AllowedAll S allowed s' as
    | none => True

theorem allowedAll_of_forall {as : List α} (hall : ∀ a ∈ as, ∀ s, allowed s a) (s : σ) :
    S.AllowedAll allowed s as := by
  induction as generalizing s with
  | nil => trivial
  | cons a as ih =>
    refine ⟨hall a List.mem_cons_self s, ?_⟩
    cases S.step s a with
    | none => trivial
    | some s' => exact ih (fun b hb => hall b (List.mem_cons_of_mem a hb)) s'

instance AllowedAll.decidable [∀ s a, Decidable (allowed s a)] (s : σ) :
    (as : List α) → Decidable (S.AllowedAll allowed s as)
  | [] => isTrue trivial
  | a :: as =>
    match h : S.step s a with
    | none => decidable_of_iff (allowed s a) (by simp [AllowedAll, h])
    | some s' =>
      have := AllowedAll.decidable s' as
      decidable_of_iff (allowed s a ∧ S.AllowedAll allowed s' as) (by simp [AllowedAll, h])

theorem AllowedAll.mono {allowed' : σ → α → Prop} (hle : ∀ s a, allowed s a → allowed' s a)
    {as : List α} (h : S.AllowedAll allowed s as) : S.AllowedAll allowed' s as := by
  induction as generalizing s with
  | nil => trivial
  | cons a as ih =>
    refine ⟨hle s a h.1, ?_⟩
    have htail := h.2
    cases hs : S.step s a with
    | none => trivial
    | some s' =>
      rw [hs] at htail
      exact ih htail

theorem reachable_of_runAll {s' : σ} (as : List α) (hs : S.Reachable allowed s)
    (hall : S.AllowedAll allowed s as) (hrun : S.runAll s as = some s') :
    S.Reachable allowed s' := by
  induction as generalizing s with
  | nil =>
    obtain rfl : s = s' := by simpa [runAll] using hrun
    exact hs
  | cons a as ih =>
    obtain ⟨t, ht, hrun⟩ := Option.bind_eq_some_iff.mp hrun
    obtain ⟨ha, hall⟩ := hall
    rw [ht] at hall
    exact ih (hs.next ha ht) hall hrun

end System

end Qbutt
