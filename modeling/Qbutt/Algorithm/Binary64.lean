import Mathlib.Data.Int.Log
import Mathlib.Data.Rat.Floor

/-!
# Double precision numbers

A finite `double` is a rational number that rounding to 53 binary digits leaves as it is
(`Binary64`).  `Binary64.round` rounds to nearest, ties to even, with the smallest exponent of the
format; the largest exponent is not bounded, so what overflows to an infinity is a number here.
Integers below `2^53` are not changed by rounding (`Binary64.round_intCast`).
-/

namespace Qbutt

/-- The nearest integer; of two nearest ones the even one. -/
def roundEven (q : ℚ) : ℤ :=
  if q - ⌊q⌋ < 1 / 2 then ⌊q⌋
  else if 1 / 2 < q - ⌊q⌋ then ⌊q⌋ + 1
  else if ⌊q⌋ % 2 = 0 then ⌊q⌋
  else ⌊q⌋ + 1

/-- The integer part of a number, as a conversion to an integer type takes it. -/
def truncate (q : ℚ) : ℤ := if 0 ≤ q then ⌊q⌋ else ⌈q⌉

@[simp] theorem roundEven_intCast (n : ℤ) : roundEven n = n := by
  simp [roundEven]

@[simp] theorem truncate_intCast (n : ℤ) : truncate n = n := by
  simp [truncate]

namespace Binary64

/-- The exponent of the last binary digit that a double has room for. -/
def lastDigit (q : ℚ) : ℤ := max (-1074) (Int.log 2 |q| - 52)

def round (q : ℚ) : ℚ := roundEven (q / 2 ^ lastDigit q) * 2 ^ lastDigit q

end Binary64

/-- A finite double. -/
structure Binary64 where
  value : ℚ
  rounded : Binary64.round value = value

namespace Binary64

theorem ext {x y : Binary64} (h : x.value = y.value) : x = y := by
  cases x
  cases y
  cases h
  rfl

variable {n : ℤ}

theorem round_of_multiple {q : ℚ} (h : q / 2 ^ lastDigit q = n) : round q = q := by
  have hpos : (0 : ℚ) < 2 ^ lastDigit q := zpow_pos (by norm_num) _
  have hq : (n : ℚ) * 2 ^ lastDigit q = q := by
    rw [← h, div_mul_cancel₀ q hpos.ne']
  rw [round, h, roundEven_intCast, hq]

theorem lastDigit_intCast_le (h : |n| < 2 ^ 53) : lastDigit n ≤ 0 := by
  have hcast : |(n : ℚ)| < 2 ^ (53 : ℤ) := by
    exact_mod_cast h
  have hlog : Int.log 2 |(n : ℚ)| ≤ 52 := by
    rcases eq_or_ne n 0 with rfl | hn
    · simp [Int.log]
    · have hpos : 0 < |(n : ℚ)| := abs_pos.mpr (Int.cast_ne_zero.mpr hn)
      have hlt := (Int.lt_zpow_iff_log_lt (b := 2) (by norm_num) hpos).mp
        (by exact_mod_cast hcast : |(n : ℚ)| < ((2 : ℕ) : ℚ) ^ (53 : ℤ))
      omega
  simp only [lastDigit]
  omega

theorem round_intCast (h : |n| < 2 ^ 53) : round n = n := by
  obtain ⟨k, hk⟩ : ∃ k : ℕ, lastDigit n = -k :=
    ⟨(lastDigit n).natAbs, by have := lastDigit_intCast_le h; omega⟩
  have hquotient : (n : ℚ) / 2 ^ lastDigit n = ((n * 2 ^ k : ℤ) : ℚ) := by
    rw [hk, zpow_neg, zpow_natCast, div_inv_eq_mul]
    push_cast
    rfl
  exact round_of_multiple hquotient

/-- A number of at most 53 binary digits is a double. -/
theorem round_mul_zpow {m e : ℤ} (hm : |m| ≤ 2 ^ 53) (he : -1074 ≤ e) :
    round (m * 2 ^ e) = m * 2 ^ e := by
  rcases eq_or_ne m 0 with rfl | hne
  · simp [round, roundEven]
  have hpow : (0 : ℚ) < 2 ^ e := zpow_pos (by norm_num) e
  have habs : |(m : ℚ) * 2 ^ e| = |(m : ℚ)| * 2 ^ e := by
    rw [abs_mul, abs_of_pos hpow]
  have hpos : 0 < |(m : ℚ) * 2 ^ e| := by
    rw [habs]
    exact mul_pos (abs_pos.mpr (Int.cast_ne_zero.mpr hne)) hpow
  rcases lt_or_eq_of_le hm with hlt | heq
  · -- the last digit of the number is not to the left of the last digit of `m`
    have hlast : lastDigit (m * 2 ^ e) ≤ e := by
      have hbound : |(m : ℚ) * 2 ^ e| < ((2 : ℕ) : ℚ) ^ (53 + e) := by
        rw [habs, Nat.cast_ofNat, zpow_add₀ (by norm_num)]
        have hcast : |(m : ℚ)| < 2 ^ (53 : ℤ) := by
          exact_mod_cast hlt
        exact mul_lt_mul_of_pos_right hcast hpow
      have hlog := (Int.lt_zpow_iff_log_lt (b := 2) (by norm_num) hpos).mp hbound
      simp only [lastDigit]
      omega
    obtain ⟨k, hk⟩ : ∃ k : ℕ, e = lastDigit (m * 2 ^ e) + k :=
      ⟨(e - lastDigit (m * 2 ^ e)).toNat, by omega⟩
    have hquotient : (m : ℚ) * 2 ^ e / 2 ^ lastDigit (m * 2 ^ e) = ((m * 2 ^ k : ℤ) : ℚ) := by
      have hdigit : (2 : ℚ) ^ lastDigit (m * 2 ^ e) ≠ 0 := (zpow_pos (by norm_num) _).ne'
      rw [div_eq_iff hdigit]
      push_cast
      rw [mul_assoc, ← zpow_natCast, ← zpow_add₀ (by norm_num), add_comm (k : ℤ), ← hk]
    exact round_of_multiple hquotient
  · -- a carry out of the first digit leaves a power of two
    have hvalue : |(m : ℚ) * 2 ^ e| = ((2 : ℕ) : ℚ) ^ (53 + e) := by
      have hcast : |(m : ℚ)| = 2 ^ (53 : ℤ) := by
        exact_mod_cast heq
      rw [habs, hcast, Nat.cast_ofNat, ← zpow_add₀ (by norm_num)]
    have hlast : lastDigit (m * 2 ^ e) = e + 1 := by
      simp only [lastDigit]
      rw [hvalue, Int.log_zpow (by norm_num)]
      omega
    obtain ⟨h, hhalf⟩ : ∃ h : ℤ, m = 2 * h := by
      rcases abs_eq (by norm_num : (0 : ℤ) ≤ 2 ^ 53) |>.mp heq with h | h
      · exact ⟨2 ^ 52, by omega⟩
      · exact ⟨-2 ^ 52, by omega⟩
    have hquotient : (m : ℚ) * 2 ^ e / 2 ^ lastDigit (m * 2 ^ e) = (h : ℚ) := by
      have hdigit : (2 : ℚ) ^ (e + 1) ≠ 0 := (zpow_pos (by norm_num) _).ne'
      rw [hlast, div_eq_iff hdigit, hhalf, zpow_add₀ (by norm_num), zpow_one]
      push_cast
      ring
    exact round_of_multiple hquotient

theorem abs_roundEven_le {q : ℚ} (h : |q| < n) : |roundEven q| ≤ n := by
  obtain ⟨hlow, hhigh⟩ := abs_lt.mp h
  have hfloor : ⌊q⌋ < n := Int.floor_lt.mpr hhigh
  have hceil : -n ≤ ⌊q⌋ := Int.le_floor.mpr (by push_cast; exact hlow.le)
  rw [abs_le]
  unfold roundEven
  split_ifs <;> omega

/-- What rounding gives is a double. -/
theorem round_round (q : ℚ) : round (round q) = round q := by
  have hbound : |q / 2 ^ lastDigit q| < ((2 ^ 53 : ℤ) : ℚ) := by
    have hpow : (0 : ℚ) < 2 ^ lastDigit q := zpow_pos (by norm_num) _
    rw [abs_div, abs_of_pos hpow, div_lt_iff₀ hpow]
    have hlog : Int.log 2 |q| + 1 ≤ 53 + lastDigit q := by
      simp only [lastDigit]
      omega
    calc |q| < ((2 : ℕ) : ℚ) ^ (Int.log 2 |q| + 1) := Int.lt_zpow_succ_log_self (by norm_num) |q|
      _ ≤ ((2 : ℕ) : ℚ) ^ (53 + lastDigit q) := zpow_le_zpow_right₀ (by norm_num) hlog
      _ = ((2 ^ 53 : ℤ) : ℚ) * 2 ^ lastDigit q := by
        rw [Nat.cast_ofNat, zpow_add₀ (by norm_num)]
        norm_num
  exact round_mul_zpow (abs_roundEven_le hbound) (le_max_left _ _)

/-- The double nearest to a number. -/
def ofRat (q : ℚ) : Binary64 := ⟨round q, round_round q⟩

end Binary64

-- The nearest double to 2.03, times a thousand, is below 2030.
example : truncate (Binary64.round ((Binary64.ofRat (203 / 100)).value * 1000)) = 2029 := by
  decide +kernel

end Qbutt
