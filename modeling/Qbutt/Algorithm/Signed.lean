import Mathlib.Algebra.Order.Ring.Int
import Mathlib.Tactic.Ring

/-!
# Signed arithmetic that must not overflow

Programs over `ℤ` in which every result has to fit a signed 64-bit integer.  They end with a value,
with an error of their own, or with an operation that is out of range and so has no meaning.
-/

namespace Qbutt

theorem ok_bind {ε α β : Type} (a : α) (f : α → Except ε β) : (Except.ok a >>= f) = f a := rfl

theorem error_bind {ε α β : Type} (e : ε) (f : α → Except ε β) :
    ((Except.error e : Except ε α) >>= f) = .error e := rfl

/-- Why a program ends without a value. -/
inductive Abort (ε : Type) where
  | overflow
  | failed (error : ε)
  deriving DecidableEq

namespace Signed

variable {ε α : Type}

def maximum : ℤ := 2 ^ 63 - 1

def minimum : ℤ := -2 ^ 63

/-- The result of an operation. -/
def ranged (x : ℤ) : Except (Abort ε) ℤ :=
  if minimum ≤ x ∧ x ≤ maximum then .ok x else .error .overflow

def add (x y : ℤ) : Except (Abort ε) ℤ := ranged (x + y)

def sub (x y : ℤ) : Except (Abort ε) ℤ := ranged (x - y)

def mul (x y : ℤ) : Except (Abort ε) ℤ := ranged (x * y)

/-- `((x + unit - 1) / unit) * unit`; the quotient of a nonnegative number by a positive one. -/
def alignUp (x unit : ℤ) : Except (Abort ε) ℤ := do
  let sum ← add x unit
  let sum ← sub sum 1
  mul (sum / unit) unit

variable {x y unit : ℤ}

theorem ranged_eq (h0 : 0 ≤ x) (h : x ≤ maximum) : (ranged x : Except (Abort ε) ℤ) = .ok x := by
  have hmin : minimum ≤ x := by
    unfold minimum
    omega
  rw [ranged, if_pos ⟨hmin, h⟩]

theorem add_eq (h0 : 0 ≤ x + y) (h : x + y ≤ maximum) :
    (add x y : Except (Abort ε) ℤ) = .ok (x + y) := ranged_eq h0 h

theorem sub_eq (h0 : 0 ≤ x - y) (h : x - y ≤ maximum) :
    (sub x y : Except (Abort ε) ℤ) = .ok (x - y) := ranged_eq h0 h

theorem mul_eq (h0 : 0 ≤ x * y) (h : x * y ≤ maximum) :
    (mul x y : Except (Abort ε) ℤ) = .ok (x * y) := ranged_eq h0 h

theorem add_overflow (h : maximum < x + y) : (add x y : Except (Abort ε) ℤ) = .error .overflow := by
  rw [add, ranged, if_neg fun hin => absurd hin.2 (not_le.mpr h)]

/-! ### Rounding up -/

/-- The least multiple of a unit that is not below a number. -/
def roundUp (unit x : ℤ) : ℤ := (x + unit - 1) / unit * unit

theorem roundUp_le (hunit : 0 < unit) (x : ℤ) : roundUp unit x ≤ x + unit - 1 :=
  Int.ediv_mul_le _ hunit.ne'

theorem le_roundUp (hunit : 0 < unit) (x : ℤ) : x ≤ roundUp unit x := by
  have hlt := Int.lt_ediv_add_one_mul_self (x + unit - 1) hunit
  rw [add_mul, one_mul] at hlt
  unfold roundUp
  omega

theorem alignUp_eq (hunit : 0 < unit) (h0 : 0 ≤ x) (h : x + unit ≤ maximum) :
    (alignUp x unit : Except (Abort ε) ℤ) = .ok (roundUp unit x) := by
  have hle := roundUp_le hunit x
  have hge := le_roundUp hunit x
  have hround : (x + unit - 1) / unit * unit = roundUp unit x := rfl
  rw [alignUp, add_eq (by omega) h, ok_bind, sub_eq (by omega) (by omega), ok_bind,
    mul_eq (by omega) (by omega), hround]

theorem alignUp_overflow (h : maximum < x + unit) :
    (alignUp x unit : Except (Abort ε) ℤ) = .error .overflow := by
  rw [alignUp, add_overflow h]
  rfl

end Signed

end Qbutt
