import Mathlib.Tactic.SplitIfs

/-!
# Actions

Programs that read and change a state and return a value, and the triples that say what they establish.

* `Spec P m Q`: started where `P` holds, `m` returns a value and ends in a state with `Q`.
* `Frame f m`: `m` does not change the part `f` of the state.
-/

namespace Qbutt

/-- A program over a state. -/
def Action (σ α : Type) := σ → α × σ

namespace Action

variable {σ α β γ : Type}

instance : Monad (Action σ) where
  pure a := fun s => (a, s)
  bind m k := fun s => k (m s).1 (m s).2

/-- Read the state. -/
def get : Action σ σ := fun s => (s, s)

/-- Change the state. -/
def modify (f : σ → σ) : Action σ Unit := fun s => ((), f s)

/-- Run an action and drop its value. -/
def forget (m : Action σ α) : Action σ Unit := fun s => ((), (m s).2)

/-- Run an action if a condition holds. -/
def when (c : Bool) (m : Action σ Unit) : Action σ Unit := if c then m else pure ()

/-! ### Triples -/

/-- Started where `P` holds, the action ends where `Q` holds of its value and the state. -/
def Spec (P : σ → Prop) (m : Action σ α) (Q : α → σ → Prop) : Prop :=
  ∀ s, P s → Q (m s).1 (m s).2

variable {m : Action σ α}

variable {k : α → Action σ β}

section Spec

variable {P P' : σ → Prop} {Q Q' : α → σ → Prop} {R : β → σ → Prop}

theorem spec_pure {a : α} (h : ∀ s, P s → Q a s) : Spec P (pure a : Action σ α) Q := h

theorem spec_bind (hm : Spec P m Q) (hk : ∀ a, Spec (Q a) (k a) R) : Spec P (m >>= k) R :=
  fun s hs => hk (m s).1 (m s).2 (hm s hs)

theorem Spec.mono (h : Spec P m Q) (hP : ∀ s, P' s → P s) (hQ : ∀ a s, Q a s → Q' a s) :
    Spec P' m Q' :=
  fun s hs => hQ _ _ (h s (hP s hs))

/-- Reading the state fixes it in what follows. -/
theorem spec_get {k : σ → Action σ β} (hk : ∀ s, P s → Spec (· = s) (k s) R) :
    Spec P (get >>= k) R :=
  fun s hs => hk s hs s rfl

/-- Reading the state leaves what holds of it. -/
theorem spec_read {k : σ → Action σ β} (hk : ∀ s, Spec P (k s) R) : Spec P (get >>= k) R :=
  fun s hs => hk s s hs

/-- A triple used at a state that it can start in. -/
theorem Spec.at (h : Spec P m Q) {s : σ} (hs : P s) : Spec (· = s) m Q :=
  h.mono (fun _ ht => ht ▸ hs) fun _ _ hQ => hQ

/-- A triple may be proved for each state it can start in. -/
theorem spec_of_forall (h : ∀ s, P s → Spec (· = s) m Q) : Spec P m Q :=
  fun s hs => h s hs s rfl

variable {R : Unit → σ → Prop}

theorem spec_modify {f : σ → σ} (h : ∀ s, P s → R () (f s)) : Spec P (modify f) R := h

theorem spec_forget {I : σ → Prop} (h : Spec P m fun _ => I) : Spec P (forget m) fun _ => I := h

theorem spec_ite {c : Prop} [Decidable c] {m' : Action σ α} (hm : c → Spec P m Q)
    (hm' : ¬ c → Spec P m' Q) : Spec P (if c then m else m') Q := by
  split_ifs with h
  · exact hm h
  · exact hm' h

theorem spec_when {c : Bool} {m : Action σ Unit} (hm : c = true → Spec P m R)
    (hc : c = false → ∀ s, P s → R () s) : Spec P (when c m) R :=
  spec_ite hm fun h => hc (Bool.eq_false_iff.mpr h)

end Spec

/-! ### Frames -/

/-- The action does not change a part of the state. -/
def Frame (f : σ → γ) (m : Action σ α) : Prop := ∀ s, f (m s).2 = f s

section Frame

variable {f : σ → γ}

theorem frame_pure (a : α) : Frame f (pure a : Action σ α) := fun _ => rfl

theorem frame_get : Frame f (get : Action σ σ) := fun _ => rfl

theorem frame_bind (hm : Frame f m) (hk : ∀ a, Frame f (k a)) : Frame f (m >>= k) :=
  fun s => (hk (m s).1 (m s).2).trans (hm s)

theorem frame_modify {g : σ → σ} (h : ∀ s, f (g s) = f s) : Frame f (modify g) := h

theorem frame_forget (h : Frame f m) : Frame f (forget m) := h

theorem frame_ite {c : Prop} [Decidable c] {m' : Action σ α} (hm : Frame f m) (hm' : Frame f m') :
    Frame f (if c then m else m') := by
  split_ifs
  · exact hm
  · exact hm'

theorem frame_when {c : Bool} {m : Action σ Unit} (h : Frame f m) : Frame f (when c m) :=
  frame_ite h (frame_pure ())

/-- What only depends on a part of the state is kept by an action that does not change this part. -/
theorem Frame.spec (h : Frame f m) (I : γ → Prop) :
    Spec (fun s => I (f s)) m fun _ s => I (f s) := by
  intro s hs
  show I (f (m s).2)
  rw [h s]
  exact hs

end Frame

end Action

end Qbutt
