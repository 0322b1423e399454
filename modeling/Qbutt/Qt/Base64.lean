import Mathlib.Data.List.Basic
import Mathlib.Tactic.NormNum

/-!
# Base64

`QByteArray::toBase64` and `QByteArray::fromBase64` with their default options: the decoder skips
every character that is not a digit, the padding among them, and drops the bits that are left over.
What was encoded is decoded (`fromBase64_toBase64`).
-/

namespace Qbutt

/-- `QByteArray`. -/
abbrev Bytes := List UInt8

namespace Base64

/-- The digits. -/
def alphabet : List Char :=
  "ABCDEFGHIJKLMNOPQRSTUVWXYZabcdefghijklmnopqrstuvwxyz0123456789+/".toList

/-- The digit with the given value. -/
def char (n : ℕ) : Char := alphabet.getD n '='

def digit (c : Char) : Option ℕ := alphabet.idxOf? c

/-- Encode groups of three bytes; a last group that is shorter is padded. -/
def encode : Bytes → List Char
  | [] => []
  | [a] => [char (a.toNat / 4), char (a.toNat % 4 * 16), '=', '=']
  | [a, b] =>
    [char (a.toNat / 4), char (a.toNat % 4 * 16 + b.toNat / 16), char (b.toNat % 16 * 4), '=']
  | a :: b :: c :: rest =>
    char (a.toNat / 4) :: char (a.toNat % 4 * 16 + b.toNat / 16) ::
      char (b.toNat % 16 * 4 + c.toNat / 64) :: char (c.toNat % 64) :: encode rest

def decode (buffer bits : ℕ) : List Char → Bytes
  | [] => []
  | c :: cs =>
    match digit c with
    | none => decode buffer bits cs
    | some d =>
      if 8 ≤ bits + 6 then
        UInt8.ofNat ((buffer * 64 + d) / 2 ^ (bits + 6 - 8)) ::
          decode ((buffer * 64 + d) % 2 ^ (bits + 6 - 8)) (bits + 6 - 8) cs
      else decode (buffer * 64 + d) (bits + 6) cs

theorem digit_char {n : ℕ} (h : n < 64) : digit (char n) = some n := by
  have hall : ∀ n < 64, digit (char n) = some n := by decide +kernel
  exact hall n h

theorem digit_padding : digit '=' = none := by decide

theorem decode_digit {buffer bits d : ℕ} (hd : d < 64) (cs : List Char) :
    decode buffer bits (char d :: cs) =
      if 8 ≤ bits + 6 then
        UInt8.ofNat ((buffer * 64 + d) / 2 ^ (bits + 6 - 8)) ::
          decode ((buffer * 64 + d) % 2 ^ (bits + 6 - 8)) (bits + 6 - 8) cs
      else decode (buffer * 64 + d) (bits + 6) cs := by
  rw [decode, digit_char hd]

theorem ofNat_eq {n : ℕ} {a : UInt8} (h : n = a.toNat) : UInt8.ofNat n = a := by
  rw [h, UInt8.ofNat_toNat]

/-- The decoder reads a first digit into the empty buffer, and every further one completes a byte. -/
theorem decode_encode (bytes : Bytes) : decode 0 0 (encode bytes) = bytes := by
  induction bytes using encode.induct with
  | case1 => rfl
  | case2 a =>
    have ha : a.toNat < 256 := a.toNat_lt
    rw [encode, decode_digit (by omega), if_neg (by omega), decode_digit (by omega),
      if_pos (by omega)]
    simp only [decode, digit_padding]
    refine congrArg (· :: []) (ofNat_eq ?_)
    norm_num
    omega
  | case3 a b =>
    have ha : a.toNat < 256 := a.toNat_lt
    have hb : b.toNat < 256 := b.toNat_lt
    rw [encode, decode_digit (by omega), if_neg (by omega), decode_digit (by omega),
      if_pos (by omega), decode_digit (by omega), if_pos (by omega)]
    simp only [decode, digit_padding]
    refine congrArg₂ List.cons (ofNat_eq ?_) (congrArg (· :: []) (ofNat_eq ?_))
    · norm_num
      omega
    · norm_num
      omega
  | case4 a b c rest ih =>
    have ha : a.toNat < 256 := a.toNat_lt
    have hb : b.toNat < 256 := b.toNat_lt
    have hc : c.toNat < 256 := c.toNat_lt
    rw [encode, decode_digit (by omega), if_neg (by omega), decode_digit (by omega),
      if_pos (by omega), decode_digit (by omega), if_pos (by omega), decode_digit (by omega),
      if_pos (by omega)]
    refine congrArg₂ List.cons (ofNat_eq ?_) (congrArg₂ List.cons (ofNat_eq ?_)
      (congrArg₂ List.cons (ofNat_eq ?_) ?_))
    · norm_num
      omega
    · norm_num
      omega
    · norm_num
      omega
    · convert ih using 2
      norm_num
      exact Nat.mod_one _

end Base64

/-- `toBase64`, as a text. -/
def toBase64 (bytes : Bytes) : String := String.ofList (Base64.encode bytes)

def fromBase64 (text : String) : Bytes := Base64.decode 0 0 text.toList

theorem fromBase64_toBase64 (bytes : Bytes) : fromBase64 (toBase64 bytes) = bytes := by
  unfold fromBase64 toBase64
  rw [String.toList_ofList]
  exact Base64.decode_encode bytes

end Qbutt
