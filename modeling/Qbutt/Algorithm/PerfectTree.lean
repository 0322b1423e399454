import Mathlib.Data.Nat.Log
import Mathlib.Data.List.GetD
import Mathlib.Tactic.Ring

/-!
# Perfect binary hash trees

`perfect h k f` is the root of the perfect binary tree of height `k` whose `i`-th leaf is `f i`
and whose inner nodes are combined by `h`.  The leaves are given by a function `ℕ → D`, of which
only `f 0, …, f (2^k - 1)` matter (`perfect_congr`).

Two facts carry everything that is proved about tree reductions elsewhere:

* `perfect_add`: a tree of height `j + k` is a tree of height `k` whose leaves are the roots of
  its `2^k` subtrees of height `j`;
* `perfect_inj_forks`: two trees with one root have the same leaves, unless they fork at a node,
  which is a collision of `h` (`perfect_inj`).
-/

namespace Qbutt

variable {D : Type*} {L : List D}

/-- Two different pairs with one image. -/
def Collision (h : D → D → D) : Prop :=
  ∃ a b c d, (a ≠ c ∨ b ≠ d) ∧ h a b = h c d

/-- The root of the perfect tree of height `k` over the leaves `f 0, …, f (2^k - 1)`. -/
def perfect (h : D → D → D) : ℕ → (ℕ → D) → D
  | 0, f => f 0
  | k + 1, f => h (perfect h k f) (perfect h k fun i => f (2 ^ k + i))

@[simp] theorem perfect_zero (h : D → D → D) (f : ℕ → D) : perfect h 0 f = f 0 := rfl

theorem perfect_succ (h : D → D → D) (k : ℕ) (f : ℕ → D) :
    perfect h (k + 1) f = h (perfect h k f) (perfect h k fun i => f (2 ^ k + i)) := rfl

/-- Only the first `2^k` leaves matter. -/
theorem perfect_congr (h : D → D → D) : ∀ (k : ℕ) (f g : ℕ → D),
    (∀ i < 2 ^ k, f i = g i) → perfect h k f = perfect h k g := by
  intro k
  induction k with
  | zero => intro f g hfg; exact hfg 0 (by norm_num)
  | succ k ih =>
    intro f g hfg
    rw [pow_succ] at hfg
    rw [perfect_succ, perfect_succ, ih f g fun i hi => hfg i (by omega),
      ih _ _ fun i hi => hfg (2 ^ k + i) (by omega)]

/-- The root over equal leaves, computed level by level. -/
theorem perfect_const_succ (h : D → D → D) (k : ℕ) (d : D) :
    perfect h (k + 1) (fun _ => d) =
      h (perfect h k fun _ => d) (perfect h k fun _ => d) := rfl

/-- A tree of height `j + k` is a tree of height `k` over the roots of its subtrees of
height `j`. -/
theorem perfect_add (h : D → D → D) (j : ℕ) : ∀ (k : ℕ) (f : ℕ → D),
    perfect h (j + k) f = perfect h k fun b => perfect h j fun i => f (b * 2 ^ j + i) := by
  intro k
  induction k with
  | zero => intro f; simp
  | succ k ih =>
    intro f
    rw [← Nat.add_assoc, perfect_succ, perfect_succ, ih f, ih]
    congr 2
    funext b
    congr 1
    funext i
    congr 1
    rw [pow_add]
    ring

/-- The trees over `f` and `g` have one hash, from different children, at the node of height
`j + 1` whose leaves start at `s`. -/
def Forks (h : D → D → D) (f g : ℕ → D) (j s : ℕ) : Prop :=
  (perfect h j (fun i => f (s + i)) ≠ perfect h j (fun i => g (s + i)) ∨
    perfect h j (fun i => f (s + (2 ^ j + i))) ≠ perfect h j fun i => g (s + (2 ^ j + i))) ∧
  perfect h (j + 1) (fun i => f (s + i)) = perfect h (j + 1) fun i => g (s + i)

/-- Trees with one root have the same leaves, unless they fork at some node. -/
theorem perfect_inj_forks (h : D → D → D) (f g : ℕ → D) : ∀ (k s : ℕ),
    perfect h k (fun i => f (s + i)) = perfect h k (fun i => g (s + i)) →
    (∀ i < 2 ^ k, f (s + i) = g (s + i)) ∨ ∃ j < k, ∃ s, Forks h f g j s := by
  intro k
  induction k with
  | zero =>
    intro s hfg
    refine Or.inl fun i hi => ?_
    obtain rfl : i = 0 := by simpa using hi
    exact hfg
  | succ k ih =>
    intro s hfg
    by_cases hl : perfect h k (fun i => f (s + i)) = perfect h k fun i => g (s + i)
    · by_cases hr : perfect h k (fun i => f (s + (2 ^ k + i))) =
          perfect h k fun i => g (s + (2 ^ k + i))
      · simp only [← Nat.add_assoc] at hr
        rcases ih s hl with hl | ⟨j, hj, hc⟩
        · rcases ih _ hr with hr | ⟨j, hj, hc⟩
          · refine Or.inl fun i hi => ?_
            rw [pow_succ] at hi
            by_cases hik : i < 2 ^ k
            · exact hl i hik
            · simpa [Nat.add_assoc, Nat.add_sub_cancel' (not_lt.mp hik)] using
                hr (i - 2 ^ k) (by omega)
          · exact Or.inr ⟨j, by omega, hc⟩
        · exact Or.inr ⟨j, by omega, hc⟩
      · exact Or.inr ⟨k, by omega, s, Or.inr hr, hfg⟩
    · exact Or.inr ⟨k, by omega, s, Or.inl hl, hfg⟩

/-- Trees with one root have the same leaves, unless `h` has a collision. -/
theorem perfect_inj (h : D → D → D) (k : ℕ) (f g : ℕ → D)
    (hfg : perfect h k f = perfect h k g) : (∀ i < 2 ^ k, f i = g i) ∨ Collision h := by
  refine (perfect_inj_forks h f g k 0 (by simpa using hfg)).imp (by simp) ?_
  rintro ⟨j, -, s, hne, heq⟩
  exact ⟨_, _, _, _, hne, heq⟩

/-! ### Leaves from a list -/

/-- The leaves of a list, followed by `pad` for ever. -/
def padded (L : List D) (pad : D) (i : ℕ) : D := L.getD i pad

@[simp] theorem padded_nil (pad : D) (i : ℕ) : padded [] pad i = pad := rfl

theorem padded_of_le {pad : D} {i : ℕ} (hi : L.length ≤ i) : padded L pad i = pad :=
  List.getD_eq_default _ _ hi

theorem padded_of_lt {pad : D} {i : ℕ} (hi : i < L.length) : padded L pad i = L[i] :=
  List.getD_eq_getElem _ _ hi

theorem padded_append_of_lt {pad : D} {i : ℕ} (hi : i < L.length) (x : D) :
    padded (L ++ [x]) pad i = padded L pad i := by
  rw [padded_of_lt hi, padded_of_lt (by simp; omega), List.getElem_append_left hi]

theorem padded_append_length (L : List D) (pad x : D) : padded (L ++ [x]) pad L.length = x := by
  rw [padded_of_lt (by simp)]
  simp

end Qbutt
