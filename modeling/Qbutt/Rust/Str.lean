import Mathlib.Algebra.Group.Nat.Defs
import Mathlib.Data.List.DropRight
import Mathlib.Data.List.Infix

/-!
# Texts of Rust

What the Rust sources use of `str` and `char`: the length in bytes, the two classes of characters that
the validators test, and the search for a text in another one.
-/

namespace Qbutt.Rust

/-- `str::len`. -/
def byteLength (text : String) : ℕ := text.utf8ByteSize

def isControl (c : Char) : Bool := c.toNat < 0x20 || (0x7f ≤ c.toNat && c.toNat < 0xa0)

def isWhitespace (c : Char) : Bool :=
  (0x9 ≤ c.toNat && c.toNat ≤ 0xd) || (0x2000 ≤ c.toNat && c.toNat ≤ 0x200a) ||
    [0x20, 0x85, 0xa0, 0x1680, 0x2028, 0x2029, 0x202f, 0x205f, 0x3000].contains c.toNat

/-- Whether nothing is left of a text by `str::trim`. -/
def isBlank (text : String) : Bool := text.toList.all isWhitespace

/-- `str::contains`, for a text. -/
def contains (text pattern : String) : Bool := decide (pattern.toList <:+: text.toList)

end Qbutt.Rust

/-!
## Searching and cutting texts

The operations of `str` that look for patterns, on the characters of a text.  Where Rust names a place in
a text by its byte index, the two sides of that place are given instead.
-/

namespace Qbutt.Rust

/-- What the standard library reads from the tables of Unicode. -/
structure Unicode where
  isAlphanumeric : Char → Bool
  toLowercase : Char → List Char
  textToLowercase : List Char → List Char

/-- The two sides of each occurrence in `match_indices`; occurrences do not overlap. -/
def matchesFrom (pattern : List Char) :
    ℕ → List Char → List Char → List (List Char × List Char)
  | _, _, [] => []
  | 0, before, c :: cs =>
    if pattern.isPrefixOf (c :: cs) then
      (before.reverse, (c :: cs).drop pattern.length) ::
        matchesFrom pattern (pattern.length - 1) (c :: before) cs
    else matchesFrom pattern 0 (c :: before) cs
  | skip + 1, before, c :: cs => matchesFrom pattern skip (c :: before) cs

def matchIndices (text pattern : List Char) : List (List Char × List Char) :=
  matchesFrom pattern 0 [] text

def matchChars (found : Char → Bool) : List Char → List (List Char × Char × List Char)
  | [] => []
  | c :: cs =>
    let rest := (matchChars found cs).map fun (before, m, after) => (c :: before, m, after)
    if found c then ([], c, cs) :: rest else rest

def splitOnce (text pattern : List Char) : Option (List Char × List Char) :=
  (matchIndices text pattern).head?

def rsplitOnce (text : List Char) (c : Char) : Option (List Char × List Char) :=
  (matchIndices text [c]).getLast?

/-- `split`, for a text; `rest` is what is left after the last occurrence. -/
def splitText (text pattern : List Char) : List (List Char) :=
  go (text.length + 1) text
where
  go : ℕ → List Char → List (List Char)
    | 0, rest => [rest]
    | fuel + 1, rest =>
      match splitOnce rest pattern with
      | some (before, after) => before :: go fuel after
      | none => [rest]

/-- `split`, for a set of characters, without the empty pieces. -/
def splitWords (separator : Char → Bool) (text : List Char) : List (List Char) :=
  (text.splitOnP separator).filter fun word => !word.isEmpty

def splitWhitespace (text : List Char) : List (List Char) := splitWords isWhitespace text

def trimStart (text : List Char) : List Char := text.dropWhile isWhitespace

def trimEnd (text : List Char) : List Char := text.rdropWhile isWhitespace

def trim (text : List Char) : List Char := trimEnd (trimStart text)

def trimStartMatches (text : List Char) (cs : List Char) : List Char :=
  text.dropWhile fun c => cs.contains c

def trimEndMatches (text : List Char) (cs : List Char) : List Char :=
  text.rdropWhile fun c => cs.contains c

def stripPrefix (text pattern : List Char) : Option (List Char) :=
  if pattern.isPrefixOf text then some (text.drop pattern.length) else none

def stripSuffix (text pattern : List Char) : Option (List Char) :=
  if pattern.isSuffixOf text then some (text.take (text.length - pattern.length)) else none

def isAsciiDigit (c : Char) : Bool := '0' ≤ c && c ≤ '9'

def isAsciiUppercase (c : Char) : Bool := 'A' ≤ c && c ≤ 'Z'

def isAsciiAlphanumeric (c : Char) : Bool :=
  isAsciiDigit c || isAsciiUppercase c || ('a' ≤ c && c ≤ 'z')

def asciiLower (c : Char) : Char := if isAsciiUppercase c then Char.ofNat (c.toNat + 32) else c

def toAsciiLowercase (text : List Char) : List Char := text.map asciiLower

def eqIgnoreAsciiCase (text : List Char) (other : String) : Bool :=
  toAsciiLowercase text = toAsciiLowercase other.toList

def digitsValue (digits : List Char) : ℕ :=
  digits.foldl (fun value c => 10 * value + (c.toNat - '0'.toNat)) 0

/-- `parse`, for unsigned integers below a limit; a plus sign may come first. -/
def parseUnsigned (limit : ℕ) (text : List Char) : Option ℕ :=
  let digits := match text with
    | '+' :: digits => digits
    | digits => digits
  if !digits.isEmpty && digits.all isAsciiDigit && digitsValue digits < limit then
    some (digitsValue digits)
  else none

def parseU16 (text : List Char) : Option ℕ := parseUnsigned (2 ^ 16) text

def parseU32 (text : List Char) : Option ℕ := parseUnsigned (2 ^ 32) text

/-- `parse::<u64>` and, on the supported systems, `parse::<usize>`. -/
def parseU64 (text : List Char) : Option ℕ := parseUnsigned (2 ^ 64) text

def parseI64 (text : List Char) : Option ℤ :=
  match text with
  | '-' :: digits =>
    if !digits.isEmpty && digits.all isAsciiDigit && digitsValue digits ≤ 2 ^ 63 then
      some (-(digitsValue digits : ℤ))
    else none
  | text => (parseUnsigned (2 ^ 63) text).map Int.ofNat

def windows2 {α : Type} (as : List α) : List (α × α) := as.zip as.tail

end Qbutt.Rust

/-!
## The first occurrence

`splitOnce` gives the two sides of the first occurrence of a pattern (`splitOnce_cons`,
`splitOnce_eq_some`, `splitOnce_char`).
-/

namespace Qbutt.Rust

variable {text pattern before after : List Char} {c : Char}

theorem head?_matchesFrom (pattern text before : List Char) :
    (matchesFrom pattern 0 before text).head? =
      (splitOnce text pattern).map fun (front, after) => (before.reverse ++ front, after) := by
  suffices h : ∀ before before' : List Char,
      (matchesFrom pattern 0 (before' ++ before) text).head? =
        (matchesFrom pattern 0 before' text).head?.map
          fun (front, after) => (before.reverse ++ front, after) from h before []
  intro before before'
  induction text generalizing before' with
  | nil => rfl
  | cons c cs ih =>
    rw [matchesFrom, matchesFrom]
    split_ifs
    · rw [List.head?_cons, List.head?_cons, Option.map_some, List.reverse_append]
    · exact ih (c :: before')

/-- An occurrence at the start, or the first one after it. -/
theorem splitOnce_cons : splitOnce (c :: text) pattern =
    if pattern.isPrefixOf (c :: text) then some ([], (c :: text).drop pattern.length)
    else (splitOnce text pattern).map fun (before, after) => (c :: before, after) := by
  unfold splitOnce matchIndices
  rw [matchesFrom]
  split_ifs
  · rfl
  · exact head?_matchesFrom pattern text [c]

theorem splitOnce_nil : splitOnce [] pattern = none := rfl

theorem splitOnce_eq_some (h : splitOnce text pattern = some (before, after)) :
    text = before ++ (pattern ++ after) := by
  induction text generalizing before with
  | nil => cases h
  | cons c text ih =>
    rw [splitOnce_cons] at h
    split_ifs at h with hstart
    · cases h
      obtain ⟨rest, hrest⟩ := List.isPrefixOf_iff_prefix.mp hstart
      rw [← hrest, List.drop_left]
      rfl
    · obtain ⟨⟨front, rest⟩, hsplit, hpair⟩ := Option.map_eq_some_iff.mp h
      cases hpair
      rw [ih hsplit]
      rfl

/-- What comes before the first occurrence of a character does not have it. -/
theorem splitOnce_char : splitOnce text [c] = some (before, after) ↔
    text = before ++ c :: after ∧ c ∉ before := by
  induction text generalizing before with
  | nil =>
    rw [splitOnce_nil]
    exact ⟨nofun, fun h => absurd h.1 (by simp)⟩
  | cons d text ih =>
    rw [splitOnce_cons]
    by_cases hd : d = c
    · subst hd
      have hprefix : [d].isPrefixOf (d :: text) = true := by simp
      rw [if_pos hprefix]
      constructor
      · intro h
        cases h
        exact ⟨rfl, List.not_mem_nil⟩
      · rintro ⟨htext, hnot⟩
        cases before with
        | nil => rw [(List.cons.inj htext).2]; rfl
        | cons e before =>
          exact absurd (by rw [(List.cons.inj htext).1]; exact List.mem_cons_self) hnot
    · have hprefix : ¬ [c].isPrefixOf (d :: text) = true := by
        have hne : c ≠ d := fun heq => hd heq.symm
        simp [hne]
      rw [if_neg hprefix]
      constructor
      · intro h
        obtain ⟨⟨front, rest⟩, hsplit, hpair⟩ := Option.map_eq_some_iff.mp h
        cases hpair
        obtain ⟨rfl, hnot⟩ := ih.mp hsplit
        exact ⟨rfl, fun hmem => (List.mem_cons.mp hmem).elim (fun heq => hd heq.symm) hnot⟩
      · rintro ⟨htext, hnot⟩
        cases before with
        | nil => exact absurd (List.cons.inj htext).1 hd
        | cons e before =>
          cases htext
          rw [ih.mpr ⟨rfl, fun hmem => hnot (List.mem_cons_of_mem d hmem)⟩]
          rfl

/-- A text without the first character of the pattern has no occurrence that begins in it. -/
theorem splitOnce_append (h : c ∉ text) (rest : List Char) :
    splitOnce (text ++ rest) (c :: pattern) =
      (splitOnce rest (c :: pattern)).map fun (before, after) => (text ++ before, after) := by
  induction text with
  | nil =>
    rw [List.nil_append]
    cases splitOnce rest (c :: pattern) <;> rfl
  | cons d text ih =>
    have hd : ¬ (c :: pattern).isPrefixOf (d :: (text ++ rest)) = true := by
      have hne : c ≠ d := fun heq => h (heq ▸ List.mem_cons_self)
      simp [hne]
    rw [List.cons_append, splitOnce_cons, if_neg hd,
      ih fun hmem => h (List.mem_cons_of_mem d hmem), Option.map_map]
    rfl

end Qbutt.Rust
