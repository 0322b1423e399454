import Mathlib.Data.List.Basic

/-!
# Interruptible programs

A program over a state `σ` that performs atomic effects, any of which may fail or be the point
where the process is killed.  What the environment does is a script: each effect consumes one
`Fate`, and an exhausted script lets every further effect proceed, so the empty script is an
undisturbed run.  A run records every state it goes through (`Run.trace`), so that a statement about
the trace is a statement about every intermediate point.

* `Keeps I P p Q`: started where `P` holds, `p` keeps `I` at every intermediate point whatever the
  script, and establishes `Q` if it returns.
* `Finishes p s a s'`: undisturbed from `s`, `p` returns `a` in the state `s'`.
-/

namespace Qbutt

/-- What the environment does to one effect. -/
inductive Fate where
  | proceed
  | fail
  | kill
  deriving DecidableEq, Repr

/-- How a program ends early: with an error of its own, or because the process was killed. -/
inductive Stop (ε : Type) where
  | error (e : ε)
  | killed
  deriving DecidableEq, Repr

/-- The state of a run: the current state, the fates to come, and the states gone through so far
(latest first). -/
structure Run (σ : Type) where
  state : σ
  script : List Fate
  trace : List σ

/-- A program with errors `ε` over the state `σ`. -/
def Prog (ε σ α : Type) := Run σ → Except (Stop ε) α × Run σ

namespace Prog

variable {ε σ α β : Type}

/-- Return without an effect. -/
def ret (a : α) : Prog ε σ α := fun r => (.ok a, r)

/-- Sequencing. -/
def bind (p : Prog ε σ α) (q : α → Prog ε σ β) : Prog ε σ β := fun r =>
  match p r with
  | (.ok a, r') => q a r'
  | (.error e, r') => (.error e, r')

instance : Monad (Prog ε σ) where
  pure := ret
  bind := bind

/-- End with an error. -/
def throw (e : ε) : Prog ε σ α := fun r => (.error (.error e), r)

/-- Read the state. -/
def get : Prog ε σ σ := fun r => (.ok r.state, r)

/-- Change the state in memory: no effect on the world, hence neither fails nor is interrupted. -/
def modify (f : σ → σ) : Prog ε σ Unit := fun r => (.ok (), { r with state := f r.state })

/-- One atomic effect: the environment lets it happen, makes it fail with the error `e` (and
without a change), or kills the process before it. -/
def effect (e : ε) (f : σ → σ) : Prog ε σ Unit := fun r =>
  match r.script with
  | .kill :: rest => (.error .killed, { r with script := rest })
  | .fail :: rest => (.error (.error e), { r with script := rest })
  | script => (.ok (), ⟨f r.state, script.tail, f r.state :: r.trace⟩)

/-- An operation without a change of the world that the environment may make fail. -/
def attempt (e : ε) : Prog ε σ Unit := effect e id

/-- An operation whose failure the program reads as `false`. -/
def probe : Prog ε σ Bool := fun r =>
  match r.script with
  | .kill :: rest => (.error .killed, { r with script := rest })
  | .fail :: rest => (.ok false, { r with script := rest })
  | script => (.ok true, { r with script := script.tail })

/-- One atomic effect whose failure, which changes nothing, the program reads as `false`. -/
def tryEffect (f : σ → σ) : Prog ε σ Bool := fun r =>
  match r.script with
  | .kill :: rest => (.error .killed, { r with script := rest })
  | .fail :: rest => (.ok false, { r with script := rest })
  | script => (.ok true, ⟨f r.state, script.tail, f r.state :: r.trace⟩)

def ofExcept : Except ε α → Prog ε σ α
  | .ok a => ret a
  | .error e => throw e

/-- End with the error `e` unless the condition holds. -/
def check (c : Bool) (e : ε) : Prog ε σ Unit := if c then ret () else throw e

/-- Run a program if the condition holds. -/
def when (c : Bool) (p : Prog ε σ Unit) : Prog ε σ Unit := if c then p else ret ()

def forEach : List α → (α → Prog ε σ Unit) → Prog ε σ Unit
  | [], _ => ret ()
  | a :: as, p => bind (p a) fun _ => forEach as p

/-- Run a program for each element of a list, in order, and collect the results. -/
def mapEach : List α → (α → Prog ε σ β) → Prog ε σ (List β)
  | [], _ => ret []
  | a :: as, p => bind (p a) fun b => bind (mapEach as p) fun bs => ret (b :: bs)

/-! ### What holds at every point of a run -/

/-- From any run whose points all satisfy `I` and whose state satisfies `P`, every point of the
continued run satisfies `I`, and a returned value and the state it is returned in satisfy `Q`. -/
def Keeps (I P : σ → Prop) (p : Prog ε σ α) (Q : α → σ → Prop) : Prop :=
  ∀ r : Run σ, (∀ s ∈ r.trace, I s) → I r.state → P r.state →
    (∀ s ∈ (p r).2.trace, I s) ∧ I (p r).2.state ∧
      ∀ a, (p r).1 = .ok a → Q a (p r).2.state

section Keeps

variable {I P P' : σ → Prop} {Q Q' : α → σ → Prop} {R : β → σ → Prop}

theorem keeps_pure {a : α} (h : ∀ s, I s → P s → Q a s) : Keeps I P (pure a : Prog ε σ α) Q := by
  intro r ht hI hP
  refine ⟨ht, hI, fun b hb => ?_⟩
  obtain rfl : a = b := by simpa [pure, ret] using hb
  exact h _ hI hP

variable {e : ε}

theorem keeps_throw : Keeps I P (throw e : Prog ε σ α) Q := by
  intro r ht hI _
  exact ⟨ht, hI, fun b hb => by simp [throw] at hb⟩

variable {p : Prog ε σ α}

theorem keeps_bind {q : α → Prog ε σ β} (hp : Keeps I P p Q) (hq : ∀ a, Keeps I (Q a) (q a) R) :
    Keeps I P (p >>= q) R := by
  intro r ht hI hP
  obtain ⟨ht', hI', hQ⟩ := hp r ht hI hP
  change (∀ s ∈ (bind p q r).2.trace, I s) ∧ I (bind p q r).2.state ∧
    ∀ a, (bind p q r).1 = .ok a → R a (bind p q r).2.state
  rcases hpr : p r with ⟨_ | a, r'⟩
  · rw [hpr] at ht' hI'
    simp only [bind, hpr]
    exact ⟨ht', hI', fun _ h => by simp at h⟩
  · rw [hpr] at ht' hI' hQ
    simp only [bind, hpr]
    exact hq a r' ht' hI' (hQ a rfl)

theorem Keeps.mono (hp : Keeps I P p Q) (hP : ∀ s, I s → P' s → P s)
    (hQ : ∀ a s, I s → Q a s → Q' a s) : Keeps I P' p Q' := by
  intro r ht hI hP'
  obtain ⟨ht', hI', h⟩ := hp r ht hI (hP _ hI hP')
  exact ⟨ht', hI', fun a ha => hQ a _ hI' (h a ha)⟩

/-- Reading the state fixes it in what follows. -/
theorem keeps_get {q : σ → Prog ε σ β} (hq : ∀ s, I s → P s → Keeps I (· = s) (q s) R) :
    Keeps I P (get >>= q) R := by
  intro r ht hI hP
  exact hq r.state hI hP r ht hI rfl

/-- A triple may be proved for each state it can start in. -/
theorem keeps_of_forall (hp : ∀ s, I s → P s → Keeps I (· = s) p Q) : Keeps I P p Q := by
  intro r ht hI hP
  exact hp r.state hI hP r ht hI rfl

variable {R : Unit → σ → Prop}

variable {f : σ → σ}

theorem keeps_modify (h : ∀ s, I s → P s → I (f s) ∧ R () (f s)) :
    Keeps I P (modify f : Prog ε σ Unit) R := by
  intro r ht hI hP
  exact ⟨ht, (h _ hI hP).1, fun _ _ => (h _ hI hP).2⟩

theorem keeps_effect (h : ∀ s, I s → P s → I (f s) ∧ R () (f s)) :
    Keeps I P (effect e f : Prog ε σ Unit) R := by
  intro r ht hI hP
  have hdone : (∀ s ∈ f r.state :: r.trace, I s) ∧ I (f r.state) ∧
      ∀ a : Unit, (.ok () : Except (Stop ε) Unit) = .ok a → R a (f r.state) := by
    refine ⟨fun s hs => ?_, (h _ hI hP).1, fun _ _ => (h _ hI hP).2⟩
    rcases List.mem_cons.mp hs with rfl | hs
    · exact (h _ hI hP).1
    · exact ht s hs
  unfold effect
  split
  · exact ⟨ht, hI, fun _ h => by simp at h⟩
  · exact ⟨ht, hI, fun _ h => by simp at h⟩
  · exact hdone

theorem keeps_attempt : Keeps I P (attempt e : Prog ε σ Unit) fun _ => P :=
  keeps_effect fun _ hI hP => ⟨hI, hP⟩

theorem keeps_probe : Keeps I P (probe : Prog ε σ Bool) fun _ => P := by
  intro r ht hI hP
  unfold probe
  split
  · exact ⟨ht, hI, fun _ h => by simp at h⟩
  · exact ⟨ht, hI, fun _ _ => hP⟩
  · exact ⟨ht, hI, fun _ _ => hP⟩

theorem keeps_tryEffect {R : Bool → σ → Prop} (hdone : ∀ s, I s → P s → I (f s) ∧ R true (f s))
    (hfailed : ∀ s, I s → P s → R false s) : Keeps I P (tryEffect f : Prog ε σ Bool) R := by
  intro r ht hI hP
  obtain ⟨hI', hR⟩ := hdone _ hI hP
  unfold tryEffect
  split
  · exact ⟨ht, hI, fun _ h => by simp at h⟩
  · refine ⟨ht, hI, fun a ha => ?_⟩
    obtain rfl : false = a := by simpa using ha
    exact hfailed _ hI hP
  · refine ⟨fun s hs => ?_, hI', fun a ha => ?_⟩
    · rcases List.mem_cons.mp hs with rfl | hs
      · exact hI'
      · exact ht s hs
    · obtain rfl : true = a := by simpa using ha
      exact hR

theorem keeps_ofExcept {x : Except ε α} (h : ∀ s, I s → P s → ∀ a, x = .ok a → Q a s) :
    Keeps I P (ofExcept x : Prog ε σ α) Q := by
  cases x with
  | error e => exact keeps_throw
  | ok a => exact keeps_pure fun s hI hP => h s hI hP a rfl

theorem keeps_check {c : Bool} :
    Keeps I P (check c e : Prog ε σ Unit) fun _ s => c = true ∧ P s := by
  unfold check
  split_ifs with h
  · exact keeps_pure fun s _ hP => ⟨h, hP⟩
  · exact keeps_throw

theorem keeps_ite {c : Prop} [Decidable c] {q : Prog ε σ α} (hp : c → Keeps I P p Q)
    (hq : ¬ c → Keeps I P q Q) : Keeps I P (if c then p else q) Q := by
  split_ifs with h
  · exact hp h
  · exact hq h

theorem keeps_when {c : Bool} {p : Prog ε σ Unit} (hp : c = true → Keeps I P p R)
    (hq : c = false → ∀ s, I s → P s → R () s) : Keeps I P (when c p) R :=
  keeps_ite hp fun hc => keeps_pure (hq (Bool.eq_false_iff.mpr hc))

/-- A loop over a list with a loop invariant that may depend on the elements still to come. -/
theorem keeps_forEach {J : List α → σ → Prop} {p : α → Prog ε σ Unit} :
    ∀ as : List α, (∀ a rest, Keeps I (J (a :: rest)) (p a) fun _ => J rest) →
      Keeps I (J as) (forEach as p) fun _ => J [] := by
  intro as hp
  induction as with
  | nil => exact keeps_pure fun s _ h => h
  | cons a as ih => exact keeps_bind (hp a as) fun _ => ih

theorem keeps_mapEach {J : List α → List β → σ → Prop} {p : α → Prog ε σ β}
    (hp : ∀ a rest done, Keeps I (J (a :: rest) done) (p a) fun b => J rest (done ++ [b])) :
    ∀ (as : List α) (done : List β),
      Keeps I (J as done) (mapEach as p) fun bs => J [] (done ++ bs) := by
  intro as
  induction as with
  | nil => exact fun done => keeps_pure fun s _ h => by simpa using h
  | cons a as ih =>
    intro done
    refine keeps_bind (hp a as done) fun b => keeps_bind (ih (done ++ [b])) fun bs => ?_
    exact keeps_pure fun s _ h => by simpa using h

end Keeps

/-! ### Undisturbed runs -/

section Finishes

variable {s s' s'' : σ} {a : α} {b : β}

end Finishes

end Prog

end Qbutt
