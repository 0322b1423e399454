import Mathlib.Algebra.Group.Int.Defs
import Mathlib.Algebra.Group.Nat.Defs
import Mathlib.Data.Int.Order.Basic
import Mathlib.Data.List.Induction
import Mathlib.Data.Nat.Init

/-!
# Bencoding

Canonical bencoded values (`IsValue`): numbers are written in decimal without leading zeros, and the
keys of a dictionary are strictly increasing.

* `decimal_digitsValue`, `digitsValue_decimal`: decimal digits without leading zeros are numbers.
-/

namespace Qbutt.Bencode

open List

abbrev Bytes := List UInt8

/-! ### Numbers -/

def isDigit (b : UInt8) : Bool := 48 ≤ b && b ≤ 57

def digitsValue (digits : Bytes) : ℕ := digits.foldl (fun value b => 10 * value + (b.toNat - 48)) 0

def digit (n : ℕ) : UInt8 := UInt8.ofNat (48 + n % 10)

/-- The decimal digits of a number. -/
def decimal (n : ℕ) : Bytes := if n < 10 then [digit n] else decimal (n / 10) ++ [digit n]

/-- Digits that a number is written with: at least one, and the first is a zero only if there is no
other. -/
structure Canonical (digits : Bytes) : Prop where
  ne_nil : digits ≠ []
  all_digits : ∀ b ∈ digits, isDigit b
  no_zero : digits.head? = some 48 → digits.length = 1

theorem digitsValue_append (digits : Bytes) (b : UInt8) :
    digitsValue (digits ++ [b]) = 10 * digitsValue digits + (b.toNat - 48) := by
  unfold digitsValue
  rw [foldl_append]
  rfl

theorem digit_toNat (n : ℕ) : (digit n).toNat = 48 + n % 10 := by
  have hlt : n % 10 < 10 := Nat.mod_lt n (by omega)
  unfold digit
  rw [UInt8.toNat_ofNat']
  omega

theorem isDigit_digit (n : ℕ) : isDigit (digit n) = true := by
  have hvalue := digit_toNat n
  have hlt : n % 10 < 10 := Nat.mod_lt n (by omega)
  unfold isDigit
  rw [Bool.and_eq_true, decide_eq_true_eq, decide_eq_true_eq, UInt8.le_iff_toNat_le,
    UInt8.le_iff_toNat_le, hvalue]
  constructor
  · show 48 ≤ 48 + n % 10
    omega
  · show 48 + n % 10 ≤ 57
    omega

theorem isDigit_toNat {b : UInt8} (h : isDigit b = true) : 48 ≤ b.toNat ∧ b.toNat ≤ 57 := by
  unfold isDigit at h
  rw [Bool.and_eq_true, decide_eq_true_eq, decide_eq_true_eq, UInt8.le_iff_toNat_le,
    UInt8.le_iff_toNat_le] at h
  exact h

theorem digit_of_toNat {b : UInt8} (h : isDigit b = true) {n : ℕ} (hn : n % 10 = b.toNat - 48) :
    digit n = b := by
  obtain ⟨hlow, hhigh⟩ := isDigit_toNat h
  refine UInt8.toNat_inj.mp ?_
  rw [digit_toNat]
  omega

theorem digitsValue_decimal (n : ℕ) : digitsValue (decimal n) = n := by
  induction n using Nat.strong_induction_on with
  | _ n ih =>
  rw [decimal]
  split_ifs with hn
  · show 10 * 0 + ((digit n).toNat - 48) = n
    rw [digit_toNat]
    omega
  · rw [digitsValue_append, ih (n / 10) (by omega), digit_toNat]
    omega

theorem decimal_ne_nil (n : ℕ) : decimal n ≠ [] := by
  rw [decimal]
  split_ifs
  · exact cons_ne_nil _ _
  · exact append_ne_nil_of_right_ne_nil _ (cons_ne_nil _ _)

theorem canonical_decimal (n : ℕ) : Canonical (decimal n) := by
  induction n using Nat.strong_induction_on with
  | _ n ih =>
  rw [decimal]
  split_ifs with hn
  · exact ⟨cons_ne_nil _ _, fun b hb => mem_singleton.mp hb ▸ isDigit_digit n, fun _ => rfl⟩
  · obtain ⟨hne, hdigits, hzero⟩ := ih (n / 10) (by omega)
    refine ⟨append_ne_nil_of_left_ne_nil hne _, fun b hb => ?_, fun hhead => ?_⟩
    · rcases mem_append.mp hb with hb | hb
      · exact hdigits b hb
      · exact mem_singleton.mp hb ▸ isDigit_digit n
    · -- the number in front is not zero, so it does not begin with one
      obtain ⟨c, front, hfront⟩ := exists_cons_of_ne_nil hne
      have hhead : (decimal (n / 10)).head? = some 48 := by
        rw [hfront] at hhead ⊢
        exact hhead
      have hlength := hzero hhead
      obtain ⟨b, hb⟩ := length_eq_one_iff.mp hlength
      have hvalue := digitsValue_decimal (n / 10)
      rw [hb] at hhead hvalue
      obtain rfl : b = 48 := Option.some.inj hhead
      have hvalue' : 0 = n / 10 := hvalue
      omega

variable {digits v : Bytes}

/-- Digits that do not begin with a zero are a positive number. -/
theorem digitsValue_pos (hne : digits ≠ []) (hdigits : ∀ b ∈ digits, isDigit b)
    (hhead : digits.head? ≠ some 48) : 0 < digitsValue digits := by
  induction digits using List.reverseRecOn with
  | nil => exact absurd rfl hne
  | append_singleton front b ih =>
    rw [digitsValue_append]
    cases front with
    | nil =>
      have hb := isDigit_toNat (hdigits b (by simp))
      have hb48 : b.toNat ≠ 48 := by
        intro heq
        exact hhead (congrArg some (UInt8.toNat_inj.mp heq))
      omega
    | cons c front =>
      have hpos := ih (cons_ne_nil c front)
        (fun d hd => hdigits d (mem_append_left _ hd)) hhead
      omega

theorem decimal_digitsValue (h : Canonical digits) : decimal (digitsValue digits) = digits := by
  induction digits using List.reverseRecOn with
  | nil => exact absurd rfl h.ne_nil
  | append_singleton front b ih =>
    have hb := h.all_digits b (by simp)
    obtain ⟨hlow, hhigh⟩ := isDigit_toNat hb
    rw [digitsValue_append, decimal]
    cases front with
    | nil =>
      have hzero : digitsValue [] = 0 := rfl
      rw [hzero, if_pos (by omega)]
      exact congrArg (fun d => [d]) (digit_of_toNat hb (by omega))
    | cons c front =>
      have hfront : ∀ d ∈ c :: front, isDigit d := fun d hd => h.all_digits d (mem_append_left _ hd)
      have hhead : (c :: front).head? ≠ some 48 := by
        intro hhead
        have hlength := h.no_zero hhead
        simp at hlength
      have hpos := digitsValue_pos (cons_ne_nil c front) hfront hhead
      have hcanonical : Canonical (c :: front) :=
        ⟨cons_ne_nil c front, hfront, fun hzero => absurd hzero hhead⟩
      rw [if_neg (by omega),
        show (10 * digitsValue (c :: front) + (b.toNat - 48)) / 10 = digitsValue (c :: front) by omega,
        ih hcanonical, digit_of_toNat hb (by omega)]

/-! ### Values -/

def encodeString (s : Bytes) : Bytes := decimal s.length ++ 58 :: s

def signed (n : ℤ) : Bytes := if n < 0 then 45 :: decimal n.natAbs else decimal n.natAbs

def encodeInteger (n : ℤ) : Bytes := 105 :: (signed n ++ [101])

def encodeEntry (entry : Bytes × Bytes) : Bytes := encodeString entry.1 ++ entry.2

def encodeList (values : List Bytes) : Bytes := 108 :: (values.flatten ++ [101])

def encodeDictionary (entries : List (Bytes × Bytes)) : Bytes :=
  100 :: (entries.flatMap encodeEntry ++ [101])

/-- The keys of a dictionary are strictly increasing. -/
def Increasing (entries : List (Bytes × Bytes)) : Prop := (entries.map Prod.fst).Pairwise (· < ·)

/-- Bytes that are one canonical value, with values inside each other on at most the given number of
levels. -/
inductive IsValue : ℕ → Bytes → Prop where
  | integer {levels : ℕ} {n : ℤ} (hlow : -2 ^ 63 ≤ n) (hhigh : n < 2 ^ 63) :
      IsValue (levels + 1) (encodeInteger n)
  | string {levels : ℕ} {s : Bytes} : IsValue (levels + 1) (encodeString s)
  | list {levels : ℕ} {values : List Bytes} (h : ∀ v ∈ values, IsValue levels v) :
      IsValue (levels + 1) (encodeList values)
  | dictionary {levels : ℕ} {entries : List (Bytes × Bytes)} (hkeys : Increasing entries)
      (h : ∀ entry ∈ entries, IsValue levels entry.2) :
      IsValue (levels + 1) (encodeDictionary entries)

theorem IsValue.mono {m n : ℕ} (h : IsValue m v) (hle : m ≤ n) : IsValue n v := by
  induction h generalizing n with
  | integer hlow hhigh =>
    obtain ⟨n, rfl⟩ := Nat.exists_eq_add_of_lt hle
    exact .integer hlow hhigh
  | string =>
    obtain ⟨n, rfl⟩ := Nat.exists_eq_add_of_lt hle
    exact .string
  | list _ ih =>
    obtain ⟨n, rfl⟩ := Nat.exists_eq_add_of_lt hle
    exact .list fun v hv => ih v hv (by omega)
  | dictionary hkeys _ ih =>
    obtain ⟨n, rfl⟩ := Nat.exists_eq_add_of_lt hle
    exact .dictionary hkeys fun entry hentry => ih entry hentry (by omega)

/-- What begins a canonical value tells which one it is. -/
theorem IsValue.head {levels : ℕ} (h : IsValue levels v) : ∃ b rest, v = b :: rest ∧ b ≠ 101 := by
  cases h with
  | integer => exact ⟨105, _, rfl, by decide⟩
  | @string levels s =>
    obtain ⟨b, rest, hdecimal⟩ := exists_cons_of_ne_nil (decimal_ne_nil s.length)
    refine ⟨b, rest ++ 58 :: s, by rw [encodeString, hdecimal]; rfl, ?_⟩
    rintro rfl
    have hdigit := (canonical_decimal s.length).all_digits 101 (by rw [hdecimal]; exact mem_cons_self)
    exact absurd hdigit (by decide)
  | list => exact ⟨108, _, rfl, by decide⟩
  | dictionary => exact ⟨100, _, rfl, by decide⟩

end Qbutt.Bencode
