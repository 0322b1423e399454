import Mathlib.Algebra.Order.BigOperators.Group.List
import Mathlib.Algebra.Order.Ring.Nat

/-!
# Lengths of texts

A text has a length in bytes of UTF-8, which the length in units of UTF-16 never exceeds
(`utf16Length_le_utf8Length`), and is cut at byte indices that are character boundaries.
-/

namespace Qbutt.Rust

/-- `len`. -/
def utf8Length (text : List Char) : ℕ := (text.map Char.utf8Size).sum

/-- `len_utf16`. -/
def utf16Size (c : Char) : ℕ := if c.toNat < 0x10000 then 1 else 2

def utf16Length (text : List Char) : ℕ := (text.map utf16Size).sum

/-- `&text[..index]`; there is no slice up to a place within a character. -/
def sliceTo : List Char → ℕ → Option (List Char)
  | _, 0 => some []
  | [], _ + 1 => none
  | c :: cs, index + 1 =>
    if c.utf8Size ≤ index + 1 then (sliceTo cs (index + 1 - c.utf8Size)).map (c :: ·) else none

/-- The two sides of a byte index, under the same condition. -/
def splitAtByte : List Char → ℕ → Option (List Char × List Char)
  | text, 0 => some ([], text)
  | [], _ + 1 => none
  | c :: cs, index + 1 =>
    if c.utf8Size ≤ index + 1 then
      (splitAtByte cs (index + 1 - c.utf8Size)).map fun (before, after) => (c :: before, after)
    else none

@[simp] theorem utf8Length_nil : utf8Length [] = 0 := rfl

@[simp] theorem utf8Length_cons (c : Char) (text : List Char) :
    utf8Length (c :: text) = c.utf8Size + utf8Length text := List.sum_cons

@[simp] theorem utf8Length_append (text rest : List Char) :
    utf8Length (text ++ rest) = utf8Length text + utf8Length rest := by
  rw [utf8Length, List.map_append, List.sum_append]
  rfl

theorem utf16Size_le_utf8Size (c : Char) : utf16Size c ≤ c.utf8Size := by
  have hpos := c.utf8Size_pos
  unfold utf16Size
  split_ifs with h
  · exact hpos
  · by_contra hshort
    have hone : c.utf8Size = 1 := by omega
    have hle : c.val.toNat ≤ 127 := Char.utf8Size_eq_one_iff.mp hone
    have hbig : 0x10000 ≤ c.val.toNat := Nat.le_of_not_lt h
    omega

theorem utf16Length_le_utf8Length (text : List Char) : utf16Length text ≤ utf8Length text :=
  List.sum_le_sum fun c _ => utf16Size_le_utf8Size c

theorem splitAtByte_append (text rest : List Char) :
    splitAtByte (text ++ rest) (utf8Length text) = some (text, rest) := by
  induction text with
  | nil =>
    rw [utf8Length_nil, List.nil_append]
    cases rest <;> rfl
  | cons c text ih =>
    have hpos := c.utf8Size_pos
    obtain ⟨index, hindex⟩ : ∃ index, utf8Length (c :: text) = index + 1 :=
      ⟨utf8Length (c :: text) - 1, by rw [utf8Length_cons]; omega⟩
    have hrest : index + 1 - c.utf8Size = utf8Length text := by
      rw [← hindex, utf8Length_cons]
      omega
    rw [utf8Length_cons] at hindex
    rw [utf8Length_cons, hindex, List.cons_append, splitAtByte, if_pos (by omega), hrest, ih]
    rfl

theorem sliceTo_eq (text : List Char) (index : ℕ) :
    sliceTo text index = (splitAtByte text index).map Prod.fst := by
  fun_induction splitAtByte text index <;> simp_all [sliceTo, Function.comp_def]

theorem sliceTo_append (text rest : List Char) :
    sliceTo (text ++ rest) (utf8Length text) = some text := by
  rw [sliceTo_eq, splitAtByte_append]
  rfl

theorem splitAtByte_eq_some {text before after : List Char} {index : ℕ}
    (h : splitAtByte text index = some (before, after)) :
    text = before ++ after ∧ utf8Length before = index := by
  induction text generalizing index before with
  | nil =>
    cases index with
    | zero =>
      cases h
      exact ⟨rfl, rfl⟩
    | succ index => cases h
  | cons c cs ih =>
    cases index with
    | zero =>
      cases h
      exact ⟨rfl, rfl⟩
    | succ index =>
      rw [splitAtByte] at h
      split_ifs at h with hsize
      obtain ⟨⟨front, rest⟩, hsplit, hpair⟩ := Option.map_eq_some_iff.mp h
      cases hpair
      obtain ⟨rfl, hlength⟩ := ih hsplit
      refine ⟨rfl, ?_⟩
      rw [utf8Length_cons, hlength]
      omega

end Qbutt.Rust
