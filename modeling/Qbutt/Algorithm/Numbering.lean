import Mathlib.Data.List.Count
import Mathlib.Data.List.Nodup

/-!
# Numbering elements with equal keys

The elements of a list are numbered by how many elements with the same key come before them.  The pairs
of a key and a number are distinct (`nodup_numberBy`), and the elements with one key are numbered in
order, whatever stands between them (`filter_numberBy`).
-/

namespace Qbutt

variable {α κ : Type*} [DecidableEq κ] (key : α → κ)

/-- The elements of a list with their numbers, which start at `c`. -/
def numberBy (c : κ → ℕ) : List α → List (α × ℕ)
  | [] => []
  | x :: xs => (x, c (key x)) :: numberBy (Function.update c (key x) (c (key x) + 1)) xs

variable (c : κ → ℕ)

theorem filter_numberBy (k : κ) (xs : List α) :
    (numberBy key c xs).filter (fun p => key p.1 = k) =
      (xs.filter fun x => key x = k).zipIdx (c k) := by
  induction xs generalizing c with
  | nil => rfl
  | cons x xs ih =>
    rw [numberBy, List.filter_cons, List.filter_cons, ih]
    by_cases hk : key x = k
    · rw [if_pos (by simpa using hk), if_pos (by simpa using hk), hk, Function.update_self,
        List.zipIdx_cons]
    · rw [if_neg (by simpa using hk), if_neg (by simpa using hk), Function.update_of_ne (Ne.symm hk)]

theorem le_of_mem_numberBy {x : α} {n : ℕ} {xs : List α} (h : (x, n) ∈ numberBy key c xs) :
    c (key x) ≤ n := by
  have hmem : (x, n) ∈ (numberBy key c xs).filter (fun p => key p.1 = key x) :=
    List.mem_filter.mpr ⟨h, by simp⟩
  rw [filter_numberBy] at hmem
  exact List.le_snd_of_mem_zipIdx hmem

theorem nodup_numberBy (xs : List α) :
    ((numberBy key c xs).map fun p => (key p.1, p.2)).Nodup := by
  induction xs generalizing c with
  | nil => exact List.nodup_nil
  | cons x xs ih =>
    refine List.nodup_cons.mpr ⟨fun hmem => ?_, ih _⟩
    obtain ⟨⟨y, n⟩, hy, heq⟩ := List.mem_map.mp hmem
    obtain ⟨hkey, hnumber⟩ := Prod.ext_iff.mp heq
    have hle := le_of_mem_numberBy key _ hy
    simp only at hkey hnumber
    rw [hkey, Function.update_self] at hle
    omega

end Qbutt
