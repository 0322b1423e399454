import Mathlib.Data.List.DropRight
import Mathlib.Data.List.Lex
import Mathlib.Data.List.Sort
import Qbutt.Qt.Base64

/-!
# Byte arrays

What the sources use of `QByteArray` and `QByteArrayView`: search, trimming, Latin-1, and the split
of `Utils::ByteArray::splitToViews`.
-/

namespace Qbutt

open List

namespace QByteArray

def ofText (text : String) : Bytes := text.toList.map fun c => UInt8.ofNat c.toNat

def indexOf {α : Type} [DecidableEq α] (pattern : List α) : List α → Option ℕ
  | [] => if pattern = [] then some 0 else none
  | a :: data =>
    if pattern.isPrefixOf (a :: data) then some 0 else (indexOf pattern data).map (· + 1)

def isSpace (b : UInt8) : Bool := b == 32 || (9 ≤ b && b ≤ 13)

def trimmed (data : Bytes) : Bytes := (data.dropWhile isSpace).rdropWhile isSpace

def fromLatin1 (data : Bytes) : String := String.ofList (data.map fun b => Char.ofNat b.toNat)

def toLatin1 (text : String) : Bytes :=
  text.toList.map fun c => if c.toNat < 256 then UInt8.ofNat c.toNat else 63

def unquote {α : Type} [DecidableEq α] (quote : α) (data : List α) : List α :=
  if data.length < 2 then data
  else if data.head? = some quote ∧ data.getLast? = some quote then
    (data.drop 1).take (data.length - 2)
  else data

/-- The loop of `splitToViews` from a position on. -/
def splitFrom (sep : Bytes) (keepEmpty : Bool) : ℕ → Bytes → List Bytes
  | 0, _ => []
  | fuel + 1, data =>
    if data.isEmpty then if keepEmpty then [[]] else []
    else
      match indexOf sep data with
      | none => [data]
      | some i =>
        let parts := splitFrom sep keepEmpty fuel (data.drop (i + sep.length))
        if i = 0 && !keepEmpty then parts else data.take i :: parts

def splitToViews (data sep : Bytes) (keepEmpty : Bool := false) : List Bytes :=
  splitFrom sep keepEmpty (data.length + 1) data

variable {α : Type} {pattern data : List α} {i n : ℕ}

theorem indexOf_le [DecidableEq α] (h : indexOf pattern data = some i) :
    i + pattern.length ≤ data.length := by
  induction data generalizing i with
  | nil =>
    unfold indexOf at h
    split_ifs at h with hpattern
    cases h
    rw [hpattern]
    rfl
  | cons a data ih =>
    unfold indexOf at h
    split_ifs at h with hfits
    · cases h
      have hle := ( isPrefixOf_iff_prefix.mp hfits).length_le
      omega
    · obtain ⟨j, hj, rfl⟩ := Option.map_eq_some_iff.mp h
      have hle := ih hj
      rw [length_cons]
      omega

/-- What comes behind a pattern does not move its first occurrence. -/
theorem indexOf_append [DecidableEq α] (h : indexOf pattern data = some i) (rest : List α) :
    indexOf pattern (data ++ rest) = some i := by
  induction data generalizing i with
  | nil =>
    unfold indexOf at h
    split_ifs at h with hpattern
    cases h
    rw [hpattern, nil_append]
    cases rest <;> rfl
  | cons a data ih =>
    rw [cons_append]
    unfold indexOf at h ⊢
    split_ifs at h with hfits
    · cases h
      have hfits' : pattern.isPrefixOf (a :: (data ++ rest)) = true := by
        rw [ isPrefixOf_iff_prefix] at hfits ⊢
        exact hfits.trans (prefix_append (a :: data) rest)
      rw [if_pos hfits']
    · obtain ⟨j, hj, rfl⟩ := Option.map_eq_some_iff.mp h
      have hle := indexOf_le hj
      have hfits' : ¬ pattern.isPrefixOf (a :: (data ++ rest)) = true := by
        intro hp
        apply hfits
        rw [ isPrefixOf_iff_prefix] at hp ⊢
        refine prefix_of_prefix_length_le hp (prefix_append (a :: data) rest) ?_
        rw [length_cons]
        omega
      rw [if_neg hfits', ih hj]
      rfl

/-- The part of the data that ends with the first occurrence of a pattern is needed to find it. -/
theorem indexOf_take [DecidableEq α] (h : indexOf pattern data = some i)
    (hn : n < i + pattern.length) : indexOf pattern (data.take n) = none := by
  cases htake : indexOf pattern (data.take n) with
  | none => rfl
  | some j =>
    have hle := indexOf_le htake
    have happend := indexOf_append htake (data.drop n)
    rw [take_append_drop, h] at happend
    cases happend
    rw [length_take] at hle
    omega

/-- And it is enough. -/
theorem indexOf_take_of_le [DecidableEq α] (h : indexOf pattern data = some i)
    (hn : i + pattern.length ≤ n) : indexOf pattern (data.take n) = some i := by
  induction data generalizing i n with
  | nil =>
    rw [take_nil]
    exact h
  | cons a data ih =>
    unfold indexOf at h
    split_ifs at h with hfits
    · cases h
      have htake : pattern.isPrefixOf ((a :: data).take n) = true := by
        rw [ isPrefixOf_iff_prefix] at hfits ⊢
        exact prefix_take_iff.mpr ⟨hfits, by omega⟩
      cases hlist : (a :: data).take n with
      | nil =>
        rw [hlist, isPrefixOf_iff_prefix, prefix_nil] at htake
        rw [htake]
        rfl
      | cons b rest =>
        rw [hlist] at htake
        unfold indexOf
        rw [if_pos htake]
    · obtain ⟨j, hj, rfl⟩ := Option.map_eq_some_iff.mp h
      obtain ⟨k, rfl⟩ : ∃ k, n = k + 1 := ⟨n - 1, by omega⟩
      have hfits' : ¬ pattern.isPrefixOf (a :: data.take k) = true := by
        intro hp
        apply hfits
        rw [ isPrefixOf_iff_prefix] at hp ⊢
        exact hp.trans ( take_prefix (k + 1) (a :: data))
      rw [take_succ_cons]
      unfold indexOf
      rw [if_neg hfits', ih hj (by omega)]
      rfl

end QByteArray

end Qbutt

/-!
## Data streams

What `QDataStream` writes for the types that the sources stream: integers in big endian order, flags,
texts in UTF-16 and byte arrays behind their length in bytes, and maps behind their size.  A null
text or byte array is marked by the length `0xffffffff`.
-/

namespace Qbutt

/-- The code units of a text (`QString::utf16`). -/
def utf16 (text : String) : List ℕ :=
  text.toList.flatMap fun c =>
    if c.toNat < 0x10000 then [c.toNat]
    else [0xd800 + (c.toNat - 0x10000) / 0x400, 0xdc00 + (c.toNat - 0x10000) % 0x400]

namespace DataStream

def unsigned : ℕ → ℕ → Bytes
  | 0, _ => []
  | n + 1, value => unsigned n (value / 256) ++ [UInt8.ofNat (value % 256)]

def quint32 (value : ℕ) : Bytes := unsigned 4 value

/-- `qint64`, for sizes. -/
def qint64 (value : ℕ) : Bytes := unsigned 8 value

def bool (value : Bool) : Bytes := [if value then 1 else 0]

/-- `QString`. -/
def string (text : String) : Bytes :=
  quint32 (2 * (utf16 text).length) ++ (utf16 text).flatMap (unsigned 2)

/-- A null `QString`, or a null `QByteArray`. -/
def null : Bytes := quint32 0xffffffff

/-- `QByteArray`. -/
def byteArray (bytes : Bytes) : Bytes := quint32 bytes.length ++ bytes

/-- `QMap` with texts as keys, from its entries in any order; the keys are ordered by their code
units. -/
def map (entries : List (String × Bytes)) : Bytes :=
  let sorted := entries.insertionSort fun left right => utf16 left.1 ≤ utf16 right.1
  quint32 sorted.length ++ sorted.flatMap fun entry => string entry.1 ++ entry.2

theorem length_unsigned (n value : ℕ) : (unsigned n value).length = n := by
  induction n generalizing value with
  | zero => rfl
  | succ n ih => rw [unsigned, List.length_append, ih, List.length_singleton]

theorem string_ne_nil (text : String) : string text ≠ [] := by
  intro h
  have hlength := congrArg List.length h
  rw [string, List.length_append, quint32, length_unsigned] at hlength
  simp at hlength

end DataStream

end Qbutt
