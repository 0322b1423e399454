import Mathlib.Data.Finite.Sigma

/-!
# Recursive procedures that may not terminate

A `Procedure` is a program that leaves notes and calls itself.  `eval` runs one that is given by its
body to a depth of calls, and says which notes were left and, if the depth was enough, what the result
is.

* `Runs` is the evaluation without a depth, `Calls` says which calls a program makes and `Emits` which
  notes it leaves by itself.
* `finishes_iff`: a program terminates if no chain of calls from it goes on forever; and if there are
  finitely many arguments, if no call that is reached leads to itself (`acc_iff_acyclic`).
* `mem_notes_iff`: the notes of a run are those which the program or a call that is reached leaves.
-/

namespace Qbutt

open List

/-! ### Chains -/

theorem not_acc_of_self {σ : Type} {r : σ → σ → Prop} {s : σ} (h : r s s) : ¬ Acc r s := by
  intro hacc
  induction hacc with
  | intro s _ ih => exact ih s h h

/-- In a finite type a chain goes on forever only where something leads to itself. -/
theorem acc_iff_acyclic {σ : Type} [Finite σ] {r : σ → σ → Prop} {s : σ} :
    Acc (fun b a => r a b) s ↔
      ¬ ∃ q, Relation.ReflTransGen r s q ∧ Relation.TransGen r q q := by
  constructor
  · rintro hacc ⟨q, hreach, hcycle⟩
    have hq : Acc (fun b a => r a b) q := by
      clear hcycle
      induction hreach with
      | refl => exact hacc
      | tail _ hstep ih => exact ih.inv hstep
    exact not_acc_of_self (Relation.transGen_swap.mpr hcycle) (acc_transGen_iff.mpr hq)
  · intro hacyclic
    let reached := {q // Relation.ReflTransGen r s q}
    let above : reached → reached → Prop := fun b a => Relation.TransGen r a.1 b.1
    have htrans : IsTrans reached above := ⟨fun _ _ _ h h' => h'.trans h⟩
    have hirrefl : Std.Irrefl above := ⟨fun a h => hacyclic ⟨a.1, a.2, h⟩⟩
    have hfinite : Finite reached := Subtype.finite
    have hwf : WellFounded above := Finite.wellFounded_of_trans_of_irrefl above
    have hall : ∀ q : reached, Acc (fun b a => r a b) q.1 := by
      intro q
      induction q using hwf.induction with
      | h q ih =>
        refine .intro q.1 fun b hb => ?_
        exact ih ⟨b, q.2.tail hb⟩ (.single hb)
    exact hall ⟨s, .refl⟩

/-- A program that leaves notes and calls a procedure with arguments in `σ` and results in `β`. -/
inductive Procedure (σ β ν α : Type) where
  | done (a : α)
  | note (x : ν) (rest : Procedure σ β ν α)
  | call (s : σ) (k : β → Procedure σ β ν α)

namespace Procedure

variable {σ β ν α γ : Type}

def bind : Procedure σ β ν α → (α → Procedure σ β ν γ) → Procedure σ β ν γ
  | done a, f => f a
  | note x rest, f => note x (rest.bind f)
  | call s k, f => call s fun b => (k b).bind f

instance : Monad (Procedure σ β ν) where
  pure := done
  bind := bind

/-- A program with the calls run by `rec`: its notes, and its result if every call has one. -/
def runWith (recur : σ → List ν × Option β) : Procedure σ β ν α → List ν × Option α
  | done a => ([], some a)
  | note x rest =>
    let (notes, result) := rest.runWith recur
    (x :: notes, result)
  | call s k =>
    match recur s with
    | (notes, none) => (notes, none)
    | (notes, some b) =>
      let (notes', result) := (k b).runWith recur
      (notes ++ notes', result)

def eval (body : σ → Procedure σ β ν β) : ℕ → σ → List ν × Option β
  | 0, _ => ([], none)
  | n + 1, s => (body s).runWith (eval body n)

/-! ### Evaluation without a depth -/

variable {body : σ → Procedure σ β ν β}

/-- The program ends with a result. -/
inductive Runs (body : σ → Procedure σ β ν β) : {α : Type} → Procedure σ β ν α → α → Prop where
  | done {α : Type} (a : α) : Runs body (done a) a
  | note {α : Type} {x : ν} {rest : Procedure σ β ν α} {a : α} (h : Runs body rest a) :
      Runs body (note x rest) a
  | call {α : Type} {s : σ} {k : β → Procedure σ β ν α} {b : β} {a : α} (h : Runs body (body s) b)
      (hk : Runs body (k b) a) : Runs body (call s k) a

/-- The program calls the procedure with this argument. -/
inductive Calls (body : σ → Procedure σ β ν β) : Procedure σ β ν α → σ → Prop where
  | here {s : σ} {k : β → Procedure σ β ν α} : Calls body (call s k) s
  | note {x : ν} {rest : Procedure σ β ν α} {s : σ} (h : Calls body rest s) :
      Calls body (note x rest) s
  | later {s s' : σ} {k : β → Procedure σ β ν α} {b : β} (h : Runs body (body s) b)
      (hk : Calls body (k b) s') : Calls body (call s k) s'

/-- The program leaves the note by itself. -/
inductive Emits (body : σ → Procedure σ β ν β) : Procedure σ β ν α → ν → Prop where
  | here {x : ν} {rest : Procedure σ β ν α} : Emits body (note x rest) x
  | note {x y : ν} {rest : Procedure σ β ν α} (h : Emits body rest y) : Emits body (note x rest) y
  | later {s : σ} {k : β → Procedure σ β ν α} {b : β} {x : ν} (h : Runs body (body s) b)
      (hk : Emits body (k b) x) : Emits body (call s k) x

/-- A call that another call makes. -/
def Visits (body : σ → Procedure σ β ν β) (s s' : σ) : Prop := Calls body (body s) s'

section Steps

variable {t : Procedure σ β ν α} {f : α → Procedure σ β ν γ} {a a' : α} {c : γ} {s s' : σ}
  {x y : ν} {k : β → Procedure σ β ν α}

@[simp]
theorem runs_pure : Runs body (pure a) a' ↔ a' = a := by
  constructor
  · rintro ⟨⟩
    rfl
  · rintro rfl
    exact .done a'

@[simp]
theorem runs_note : Runs body (note x t) a ↔ Runs body t a := by
  constructor
  · rintro (_ | h)
    exact h
  · exact .note

theorem runs_call : Runs body (call s k) a ↔ ∃ b, Runs body (body s) b ∧ Runs body (k b) a := by
  constructor
  · rintro (_ | _ | ⟨h, hk⟩)
    exact ⟨_, h, hk⟩
  · rintro ⟨b, h, hk⟩
    exact .call h hk

theorem runs_bind : Runs body (t >>= f) c ↔ ∃ a, Runs body t a ∧ Runs body (f a) c := by
  show Runs body (t.bind f) c ↔ _
  induction t with
  | done a =>
    rw [bind]
    constructor
    · exact fun h => ⟨a, .done a, h⟩
    · rintro ⟨_, ⟨⟩, h⟩
      exact h
  | note x t ih => rw [bind, runs_note, ih]; simp only [runs_note]
  | call s k ih =>
    rw [bind, runs_call]
    simp only [ih, runs_call]
    constructor
    · rintro ⟨b, h, a, hk, hf⟩
      exact ⟨a, ⟨b, h, hk⟩, hf⟩
    · rintro ⟨a, ⟨b, h, hk⟩, hf⟩
      exact ⟨b, h, a, hk, hf⟩

@[simp]
theorem not_calls_pure : ¬ Calls body (pure a : Procedure σ β ν α) s := by
  rintro ⟨⟩

@[simp]
theorem calls_note : Calls body (note x t) s ↔ Calls body t s := by
  constructor
  · rintro (_ | h)
    exact h
  · exact .note

theorem calls_call :
    Calls body (call s k) s' ↔ s' = s ∨ ∃ b, Runs body (body s) b ∧ Calls body (k b) s' := by
  constructor
  · rintro (_ | _ | ⟨h, hk⟩)
    · exact .inl rfl
    · exact .inr ⟨_, h, hk⟩
  · rintro (rfl | ⟨b, h, hk⟩)
    · exact .here
    · exact .later h hk

theorem calls_bind :
    Calls body (t >>= f) s ↔ Calls body t s ∨ ∃ a, Runs body t a ∧ Calls body (f a) s := by
  show Calls body (t.bind f) s ↔ _
  induction t with
  | done a =>
    rw [bind]
    constructor
    · exact fun h => .inr ⟨a, .done a, h⟩
    · rintro (⟨⟨⟩⟩ | ⟨_, ⟨⟩, h⟩)
      exact h
  | note x t ih => rw [bind, calls_note, ih]; simp only [calls_note, runs_note]
  | call s₀ k ih =>
    rw [bind, calls_call]
    simp only [ih, runs_call, calls_call]
    constructor
    · rintro (h | ⟨b, h, hk | ⟨a, hk, hf⟩⟩)
      · exact .inl (.inl h)
      · exact .inl (.inr ⟨b, h, hk⟩)
      · exact .inr ⟨a, ⟨b, h, hk⟩, hf⟩
    · rintro ((h | ⟨b, h, hk⟩) | ⟨a, ⟨b, h, hk⟩, hf⟩)
      · exact .inl h
      · exact .inr ⟨b, h, .inl hk⟩
      · exact .inr ⟨b, h, .inr ⟨a, hk, hf⟩⟩

@[simp]
theorem not_emits_pure : ¬ Emits body (pure a : Procedure σ β ν α) x := by
  rintro ⟨⟩

@[simp]
theorem emits_note : Emits body (note x t) y ↔ y = x ∨ Emits body t y := by
  constructor
  · rintro (_ | h)
    · exact .inl rfl
    · exact .inr h
  · rintro (rfl | h)
    · exact .here
    · exact .note h

theorem emits_call :
    Emits body (call s k) x ↔ ∃ b, Runs body (body s) b ∧ Emits body (k b) x := by
  constructor
  · rintro (_ | _ | ⟨h, hk⟩)
    exact ⟨_, h, hk⟩
  · rintro ⟨b, h, hk⟩
    exact .later h hk

theorem emits_bind :
    Emits body (t >>= f) x ↔ Emits body t x ∨ ∃ a, Runs body t a ∧ Emits body (f a) x := by
  show Emits body (t.bind f) x ↔ _
  induction t with
  | done a =>
    rw [bind]
    constructor
    · exact fun h => .inr ⟨a, .done a, h⟩
    · rintro (⟨⟨⟩⟩ | ⟨_, ⟨⟩, h⟩)
      exact h
  | note y t ih =>
    rw [bind, emits_note, ih]
    simp only [emits_note, runs_note, or_assoc]
  | call s₀ k ih =>
    rw [bind, emits_call]
    simp only [ih, runs_call, emits_call]
    constructor
    · rintro ⟨b, h, hk | ⟨a, hk, hf⟩⟩
      · exact .inl ⟨b, h, hk⟩
      · exact .inr ⟨a, ⟨b, h, hk⟩, hf⟩
    · rintro (⟨b, h, hk⟩ | ⟨a, ⟨b, h, hk⟩, hf⟩)
      · exact ⟨b, h, .inl hk⟩
      · exact ⟨b, h, .inr ⟨a, hk, hf⟩⟩

end Steps

/-! ### Programs without calls -/

/-- A program run without any calls. -/
def alone (t : Procedure σ β ν α) : List ν × Option α := t.runWith fun _ => ([], none)

/-- The program ends without a call, with these notes and this result. -/
def Straight (t : Procedure σ β ν α) (notes : List ν) (a : α) : Prop := t.alone = (notes, some a)

theorem straight_pure (a : α) : Straight (pure a : Procedure σ β ν α) [] a := rfl

variable {t : Procedure σ β ν α} {notes : List ν} {a : α}

theorem Straight.note (h : Straight t notes a) (x : ν) : Straight (.note x t) (x :: notes) a := by
  rw [Straight, alone, runWith]
  exact congrArg (fun r => (x :: r.1, r.2)) h

variable {f : α → Procedure σ β ν γ}

theorem Straight.bind {notes' : List ν} {c : γ} (h : Straight t notes a)
    (h' : Straight (f a) notes' c) : Straight (t >>= f) (notes ++ notes') c := by
  induction t generalizing notes with
  | done a' =>
    obtain ⟨rfl, ha⟩ := Prod.mk.inj h
    cases ha
    exact h'
  | note x t ih =>
    obtain ⟨rfl, ha⟩ := Prod.mk.inj h
    exact (ih (Prod.ext rfl ha)).note x
  | call s k ih => cases (Prod.mk.inj h).2

theorem Straight.map (h : Straight t notes a) (f : α → γ) :
    Straight (t >>= fun a => pure (f a)) notes (f a) := by
  have hbind : Straight (t >>= fun a => pure (f a)) (notes ++ []) (f a) := h.bind (straight_pure _)
  rwa [append_nil] at hbind

theorem Straight.runs_iff {a' : α} (h : Straight t notes a) : Runs body t a' ↔ a' = a := by
  induction t generalizing notes with
  | done a₀ =>
    cases (Prod.mk.inj h).2
    exact runs_pure
  | note x t ih => exact runs_note.trans (ih (Prod.ext rfl (Prod.mk.inj h).2))
  | call s k ih => cases (Prod.mk.inj h).2

theorem Straight.not_calls (h : Straight t notes a) {s : σ} : ¬ Calls body t s := by
  induction t generalizing notes with
  | done a₀ => exact not_calls_pure
  | note x t ih => exact fun hs => ih (Prod.ext rfl (Prod.mk.inj h).2) (calls_note.mp hs)
  | call s k ih => cases (Prod.mk.inj h).2

variable {x : ν}

theorem Straight.emits_iff (h : Straight t notes a) : Emits body t x ↔ x ∈ notes := by
  induction t generalizing notes with
  | done a₀ =>
    obtain rfl := (Prod.mk.inj h).1
    exact iff_of_false not_emits_pure not_mem_nil
  | note y t ih =>
    obtain ⟨rfl, ha⟩ := Prod.mk.inj h
    exact emits_note.trans ((or_congr_right (ih (Prod.ext rfl ha))).trans mem_cons.symm)
  | call s k ih => cases (Prod.mk.inj h).2

theorem Straight.emits_bind_iff (h : Straight t notes a) :
    Emits body (t >>= f) x ↔ x ∈ notes ∨ Emits body (f a) x := by
  rw [emits_bind, h.emits_iff]
  refine or_congr_right ⟨?_, fun hf => ⟨a, h.runs_iff.mpr rfl, hf⟩⟩
  rintro ⟨a', ha', hf⟩
  rwa [h.runs_iff.mp ha'] at hf

theorem Straight.calls_bind_iff (h : Straight t notes a) {s : σ} :
    Calls body (t >>= f) s ↔ Calls body (f a) s := by
  rw [calls_bind, or_iff_right h.not_calls]
  refine ⟨?_, fun hf => ⟨a, h.runs_iff.mpr rfl, hf⟩⟩
  rintro ⟨a', ha', hf⟩
  rwa [h.runs_iff.mp ha'] at hf

/-! ### Runs and evaluation -/

variable {n : ℕ}

theorem runs_of_runWith
    (hrec : ∀ {s : σ} {b : β}, (eval body n s).2 = some b → Runs body (body s) b)
    (h : (t.runWith (eval body n)).2 = some a) : Runs body t a := by
  induction t with
  | done a' =>
    obtain rfl := Option.some.inj h
    exact .done a'
  | note x rest ih => exact .note (ih h)
  | call s k ih =>
    rw [runWith] at h
    split at h
    · cases h
    · next notes b heval => exact .call (hrec (by rw [heval])) (ih b h)

theorem runs_of_eval {s : σ} {b : β} (h : (eval body n s).2 = some b) : Runs body (body s) b := by
  induction n generalizing s b with
  | zero => cases h
  | succ n ih => exact runs_of_runWith ih h

theorem Runs.unique {a' : α} (h : Runs body t a) (h' : Runs body t a') : a = a' := by
  induction h with
  | done a =>
    cases h'
    rfl
  | note h ih =>
    cases h' with
    | note h' => exact ih h'
  | call h hk ih ihk =>
    cases h' with
    | call h' hk' =>
      obtain rfl := ih h'
      exact ihk hk'

/-! ### More depth -/

/-- One run goes further than another: it has its notes, and its result if there is one. -/
structure Extends (r r' : List ν × Option α) : Prop where
  notes : r.1 <+: r'.1
  result : ∀ a, r.2 = some a → r'= r

theorem Extends.refl (r : List ν × Option α) : Extends r r :=
  ⟨prefix_refl _, fun _ _ => rfl⟩

theorem runWith_extends {recur recur' : σ → List ν × Option β}
    (h : ∀ s, Extends (recur s) (recur' s)) (t : Procedure σ β ν α) :
    Extends (t.runWith recur) (t.runWith recur') := by
  induction t with
  | done a => exact .refl _
  | note x rest ih =>
    refine ⟨(prefix_cons_inj x).mpr ih.notes, fun a ha => ?_⟩
    rw [runWith, runWith, ih.result a ha]
  | call s k ih =>
    rw [runWith, runWith]
    split
    · next notes hnone =>
      refine ⟨?_, ?_⟩
      · have hnotes : notes <+: (recur' s).1 := by
          have hprefix := (h s).notes
          rwa [hnone] at hprefix
        split
        · next notes' hnone' => rwa [hnone'] at hnotes
        · next notes' b hsome =>
          rw [hsome] at hnotes
          exact hnotes.trans (prefix_append _ _)
      · rintro a ⟨⟩
    · next notes b hsome =>
      have hsame : recur' s = recur s := (h s).result b (by rw [hsome])
      rw [hsame, hsome]
      refine ⟨prefix_append_right_inj _ |>.mpr (ih b).notes, fun a ha => ?_⟩
      show (_, _) = (_, _)
      rw [(ih b).result a ha]

variable (body) in
theorem eval_extends {m : ℕ} (h : n ≤ m) (s : σ) : Extends (eval body n s) (eval body m s) := by
  induction n generalizing m s with
  | zero =>
    refine ⟨ nil_prefix, ?_⟩
    rintro a ⟨⟩
  | succ n ih =>
    cases m with
    | zero => omega
    | succ m => exact runWith_extends (fun s => ih (by omega) s) (body s)

variable (body) in
theorem runWith_eval_extends {m : ℕ} (h : n ≤ m) (t : Procedure σ β ν α) :
    Extends (t.runWith (eval body n)) (t.runWith (eval body m)) :=
  runWith_extends (fun s => eval_extends body h s) t

theorem Runs.exists_runWith (h : Runs body t a) : ∃ n, (t.runWith (eval body n)).2 = some a := by
  induction h with
  | done a => exact ⟨0, rfl⟩
  | note h ih => exact ih
  | @call α s k b a h hk ih ihk =>
    obtain ⟨n, hn⟩ := ih
    obtain ⟨m, hm⟩ := ihk
    refine ⟨max (n + 1) m, ?_⟩
    have hcall : (eval body (max (n + 1) m) s).2 = some b := by
      have hext := eval_extends body (le_max_left (n + 1) m) s
      rw [hext.result b hn]
      exact hn
    have hrest := (runWith_eval_extends body (le_max_right (n + 1) m) (k b)).result a hm
    rw [runWith]
    split
    · next notes hnone =>
      rw [hnone] at hcall
      cases hcall
    · next notes b' hsome =>
      rw [hsome] at hcall
      cases hcall
      rw [hrest]
      exact hm

theorem exists_runWith_iff : (∃ n, (t.runWith (eval body n)).2 = some a) ↔ Runs body t a := by
  constructor
  · rintro ⟨n, hn⟩
    exact runs_of_runWith runs_of_eval hn
  · exact Runs.exists_runWith

/-! ### Termination -/

/-- The program ends if it is run with enough depth. -/
def Finishes (body : σ → Procedure σ β ν β) (t : Procedure σ β ν α) : Prop :=
  ∃ n, (t.runWith (eval body n)).2.isSome = true

theorem finishes_iff_runs : Finishes body t ↔ ∃ a, Runs body t a := by
  constructor
  · rintro ⟨n, hn⟩
    obtain ⟨a, ha⟩ := Option.isSome_iff_exists.mp hn
    exact ⟨a, exists_runWith_iff.mp ⟨n, ha⟩⟩
  · rintro ⟨a, ha⟩
    obtain ⟨n, hn⟩ := ha.exists_runWith
    exact ⟨n, by rw [hn, Option.isSome_some]⟩

/-- Every call of a program that ends has ended. -/
theorem Calls.exists_runs {s : σ} (hcalls : Calls body t s) (h : Runs body t a) :
    ∃ b, Runs body (body s) b := by
  induction hcalls with
  | here =>
    cases h with
    | call h hk => exact ⟨_, h⟩
  | note _ ih =>
    cases h with
    | note h => exact ih h
  | later hfirst _ ih =>
    cases h with
    | call h hk =>
      obtain rfl := hfirst.unique h
      exact ih hk

/-- A program ends if all of its calls do. -/
theorem exists_runs (h : ∀ s, Calls body t s → ∃ b, Runs body (body s) b) : ∃ a, Runs body t a := by
  induction t with
  | done a => exact ⟨a, .done a⟩
  | note x rest ih =>
    obtain ⟨a, ha⟩ := ih fun s hs => h s (.note hs)
    exact ⟨a, .note ha⟩
  | call s k ih =>
    obtain ⟨b, hb⟩ := h s .here
    obtain ⟨a, ha⟩ := ih b fun s' hs' => h s' (.later hb hs')
    exact ⟨a, .call hb ha⟩

/-- Every call of a program that ends at some depth ends one deeper. -/
theorem Calls.exists_eval {s : σ} (hcalls : Calls body t s)
    (h : (t.runWith (eval body n)).2 = some a) : ∃ b, (eval body n s).2 = some b := by
  induction hcalls with
  | @here s k =>
    rw [runWith] at h
    split at h
    · cases h
    · next notes b hsome => exact ⟨b, by rw [hsome]⟩
  | note _ ih => exact ih h
  | @later s s' k b hfirst _ ih =>
    rw [runWith] at h
    split at h
    · cases h
    · next notes b' hsome =>
      obtain rfl := hfirst.unique (runs_of_eval (by rw [hsome]))
      exact ih h

theorem acc_of_eval {s : σ} {b : β} (h : (eval body n s).2 = some b) :
    Acc (fun s' s => Visits body s s') s := by
  induction n generalizing s b with
  | zero => cases h
  | succ n ih =>
    refine .intro s fun s' hs' => ?_
    obtain ⟨b', hb'⟩ := Calls.exists_eval hs' h
    exact ih hb'

/-- A call ends if no chain of calls from it goes on forever. -/
theorem exists_runs_iff_acc {s : σ} :
    (∃ b, Runs body (body s) b) ↔ Acc (fun s' s => Visits body s s') s := by
  constructor
  · rintro ⟨b, hb⟩
    obtain ⟨n, hn⟩ := hb.exists_runWith
    exact acc_of_eval (n := n + 1) hn
  · intro h
    induction h with
    | intro s _ ih => exact exists_runs ih

/-- A program ends if and only if no chain of calls from it goes on forever. -/
theorem finishes_iff :
    Finishes body t ↔ ∀ s, Calls body t s → Acc (fun s' s => Visits body s s') s := by
  rw [finishes_iff_runs]
  constructor
  · rintro ⟨a, ha⟩ s hs
    exact exists_runs_iff_acc.mp (hs.exists_runs ha)
  · intro h
    exact exists_runs fun s hs => exists_runs_iff_acc.mpr (h s hs)

def callsWith (recur : σ → List ν × Option β) : Procedure σ β ν α → List σ
  | done _ => []
  | note _ rest => rest.callsWith recur
  | call s k =>
    s :: match (recur s).2 with
      | none => []
      | some b => (k b).callsWith recur

theorem calls_of_mem {s : σ} (h : s ∈ t.callsWith (eval body n)) : Calls body t s := by
  induction t with
  | done a => cases h
  | note x rest ih => exact .note (ih h)
  | call s' k ih =>
    rw [callsWith] at h
    rcases mem_cons.mp h with rfl | h
    · exact .here
    · split at h
      · cases h
      · next b hb => exact .later (runs_of_eval hb) (ih b h)

/-! ### Notes -/

theorem emits_or_calls (h : x ∈ (t.runWith (eval body n)).1) :
    Emits body t x ∨ ∃ s, Calls body t s ∧ x ∈ (eval body n s).1 := by
  induction t with
  | done a => cases h
  | note y rest ih =>
    rcases mem_cons.mp h with rfl | h
    · exact .inl .here
    · rcases ih h with h | ⟨s, hs, h⟩
      · exact .inl (.note h)
      · exact .inr ⟨s, .note hs, h⟩
  | call s k ih =>
    rw [runWith] at h
    split at h
    · next notes hnone => exact .inr ⟨s, .here, by rwa [hnone]⟩
    · next notes b hsome =>
      have hruns : Runs body (body s) b := runs_of_eval (by rw [hsome])
      rcases mem_append.mp h with h | h
      · exact .inr ⟨s, .here, by rwa [hsome]⟩
      · rcases ih b h with h | ⟨s', hs', h⟩
        · exact .inl (.later hruns h)
        · exact .inr ⟨s', .later hruns hs', h⟩

/-- What holds behind a call that ends, holds with enough depth. -/
theorem exists_mem_runWith_call {s : σ} {k : β → Procedure σ β ν α} {b : β}
    (h : Runs body (body s) b) (hk : ∃ n, x ∈ ((k b).runWith (eval body n)).1) :
    ∃ n, x ∈ ((call s k).runWith (eval body n)).1 := by
  obtain ⟨m, hm⟩ := h.exists_runWith
  obtain ⟨n, hn⟩ := hk
  have hcall : (eval body (max (m + 1) n) s).2 = some b := by
    have hext := eval_extends body (le_max_left (m + 1) n) s
    rw [hext.result b hm]
    exact hm
  refine ⟨max (m + 1) n, ?_⟩
  rw [runWith]
  split
  · next notes hnone =>
    rw [hnone] at hcall
    cases hcall
  · next notes b' hsome =>
    rw [hsome] at hcall
    obtain rfl := Option.some.inj hcall
    exact mem_append_right _
      ((runWith_eval_extends body (le_max_right (m + 1) n) (k b')).notes.subset hn)

theorem Emits.exists_mem (h : Emits body t x) : ∃ n, x ∈ (t.runWith (eval body n)).1 := by
  induction h with
  | here => exact ⟨0, mem_cons_self⟩
  | note _ ih =>
    obtain ⟨n, hn⟩ := ih
    exact ⟨n, mem_cons_of_mem _ hn⟩
  | later hfirst _ ih => exact exists_mem_runWith_call hfirst ih

theorem Calls.exists_mem {s : σ} (hcalls : Calls body t s) (h : ∃ n, x ∈ (eval body n s).1) :
    ∃ n, x ∈ (t.runWith (eval body n)).1 := by
  induction hcalls with
  | @here s k =>
    obtain ⟨n, hn⟩ := h
    refine ⟨n, ?_⟩
    rw [runWith]
    split
    · next notes hnone => rwa [hnone] at hn
    · next notes b hsome =>
      rw [hsome] at hn
      exact mem_append_left _ hn
  | note _ ih =>
    obtain ⟨n, hn⟩ := ih h
    exact ⟨n, mem_cons_of_mem _ hn⟩
  | later hfirst _ ih => exact exists_mem_runWith_call hfirst (ih h)

/-- The notes of a call are those of the calls that it leads to. -/
theorem mem_eval_iff {s : σ} :
    (∃ n, x ∈ (eval body n s).1) ↔
      ∃ q, Relation.ReflTransGen (Visits body) s q ∧ Emits body (body q) x := by
  constructor
  · rintro ⟨n, hn⟩
    induction n generalizing s with
    | zero => cases hn
    | succ n ih =>
      rcases emits_or_calls hn with h | ⟨s', hs', h⟩
      · exact ⟨s, .refl, h⟩
      · obtain ⟨q, hq, hx⟩ := ih h
        exact ⟨q, .head hs' hq, hx⟩
  · rintro ⟨q, hq, hx⟩
    induction hq using Relation.ReflTransGen.head_induction_on with
    | refl =>
      obtain ⟨n, hn⟩ := hx.exists_mem
      exact ⟨n + 1, hn⟩
    | head hvisits _ ih =>
      obtain ⟨n, hn⟩ := Calls.exists_mem hvisits ih
      exact ⟨n + 1, hn⟩

/-- The notes of the runs of a program are those that it leaves by itself and those of the calls that
it leads to. -/
theorem mem_notes_iff :
    (∃ n, x ∈ (t.runWith (eval body n)).1) ↔
      Emits body t x ∨ ∃ s, Calls body t s ∧
        ∃ q, Relation.ReflTransGen (Visits body) s q ∧ Emits body (body q) x := by
  constructor
  · rintro ⟨n, hn⟩
    rcases emits_or_calls hn with h | ⟨s, hs, h⟩
    · exact .inl h
    · exact .inr ⟨s, hs, mem_eval_iff.mp ⟨n, h⟩⟩
  · rintro (h | ⟨s, hs, h⟩)
    · exact h.exists_mem
    · exact hs.exists_mem (mem_eval_iff.mpr h)

end Procedure

end Qbutt
