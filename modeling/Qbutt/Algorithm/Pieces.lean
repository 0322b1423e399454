import Mathlib.Algebra.GroupWithZero.Nat
import Mathlib.Data.List.Basic

/-!
# Cutting a list into pieces

A list is cut from its head: the first piece has as many elements as `size` says of the list, at least
one, and what is left is cut in the same way.  The pieces put together again are the list, and what
`size` guarantees of the head of every list holds of every piece.
-/

namespace Qbutt

variable {α : Type*}

def firstPiece (size : List α → ℕ) (xs : List α) : List α := xs.take (max 1 (size xs))

def piecesWithin (size : List α → ℕ) : ℕ → List α → List (List α)
  | 0, _ => []
  | _, [] => []
  | fuel + 1, x :: xs =>
    firstPiece size (x :: xs) ::
      piecesWithin size fuel ((x :: xs).drop (max 1 (size (x :: xs))))

/-- The pieces of a list; no more than it has elements are needed. -/
def pieces (size : List α → ℕ) (xs : List α) : List (List α) := piecesWithin size xs.length xs

theorem flatten_piecesWithin (size : List α → ℕ) (fuel : ℕ) (xs : List α)
    (hfuel : xs.length ≤ fuel) : (piecesWithin size fuel xs).flatten = xs := by
  induction fuel generalizing xs with
  | zero =>
    rw [List.eq_nil_of_length_eq_zero (Nat.le_zero.mp hfuel)]
    rfl
  | succ fuel ih =>
    cases xs with
    | nil => rfl
    | cons x xs =>
      have hrest : ((x :: xs).drop (max 1 (size (x :: xs)))).length ≤ fuel := by
        rw [List.length_drop, List.length_cons]
        rw [List.length_cons] at hfuel
        omega
      show firstPiece size (x :: xs) ++ (piecesWithin size fuel _).flatten = x :: xs
      rw [ih _ hrest, firstPiece, List.take_append_drop]

theorem flatten_pieces (size : List α → ℕ) (xs : List α) : (pieces size xs).flatten = xs :=
  flatten_piecesWithin size xs.length xs (Nat.le_refl _)

theorem forall_mem_piecesWithin {size : List α → ℕ} {p : List α → Prop}
    (hp : ∀ xs, xs ≠ [] → p (firstPiece size xs)) (fuel : ℕ) (xs : List α) :
    ∀ piece ∈ piecesWithin size fuel xs, p piece := by
  induction fuel generalizing xs with
  | zero => exact fun _ hpiece => absurd hpiece List.not_mem_nil
  | succ fuel ih =>
    cases xs with
    | nil => exact fun _ hpiece => absurd hpiece List.not_mem_nil
    | cons x xs =>
      intro piece hpiece
      rcases List.mem_cons.mp hpiece with rfl | hpiece
      · exact hp _ (List.cons_ne_nil x xs)
      · exact ih _ piece hpiece

theorem forall_mem_pieces {size : List α → ℕ} {p : List α → Prop}
    (hp : ∀ xs, xs ≠ [] → p (firstPiece size xs)) (xs : List α) :
    ∀ piece ∈ pieces size xs, p piece :=
  forall_mem_piecesWithin hp xs.length xs

/-! ### Pieces of bounded weight -/

/-- How many elements are taken before the sum of their weights passes the limit; the first one is
taken in any case. -/
def countWithin (weight : α → ℕ) (limit : ℕ) : ℕ → Bool → List α → ℕ
  | _, _, [] => 0
  | sum, first, x :: xs =>
    if !first && sum + weight x > limit then 0
    else countWithin weight limit (sum + weight x) false xs + 1

theorem sum_take_countWithin (weight : α → ℕ) (limit sum : ℕ) (xs : List α) (hsum : sum ≤ limit) :
    sum + ((xs.take (countWithin weight limit sum false xs)).map weight).sum ≤ limit := by
  induction xs generalizing sum with
  | nil => simpa [countWithin] using hsum
  | cons x xs ih =>
    rw [countWithin]
    split_ifs with h
    · simpa using hsum
    · have hnext : sum + weight x ≤ limit := by simpa using h
      have := ih (sum + weight x) hnext
      rw [List.take_succ_cons, List.map_cons, List.sum_cons]
      omega

theorem countWithin_of_limit_lt (weight : α → ℕ) {limit sum : ℕ} (xs : List α) (hsum : limit < sum) :
    countWithin weight limit sum false xs = 0 := by
  cases xs with
  | nil => rfl
  | cons x xs =>
    rw [countWithin, if_pos]
    simp only [Bool.not_false, Bool.true_and, decide_eq_true_eq]
    omega

theorem firstPiece_countWithin (weight : α → ℕ) (limit : ℕ) (xs : List α)
    (h : limit < ((firstPiece (countWithin weight limit 0 true) xs).map weight).sum) :
    (firstPiece (countWithin weight limit 0 true) xs).length = 1 := by
  cases xs with
  | nil => simp [firstPiece] at h
  | cons x xs =>
    have hcount : countWithin weight limit 0 true (x :: xs) =
        countWithin weight limit (weight x) false xs + 1 := by simp [countWithin]
    have hmax : max 1 (countWithin weight limit 0 true (x :: xs)) =
        countWithin weight limit (weight x) false xs + 1 := by omega
    rw [firstPiece, hmax, List.take_succ_cons] at h ⊢
    by_cases hx : limit < weight x
    · rw [countWithin_of_limit_lt weight xs hx]
      rfl
    · have := sum_take_countWithin weight limit (weight x) xs (Nat.not_lt.mp hx)
      rw [List.map_cons, List.sum_cons] at h
      omega

end Qbutt
