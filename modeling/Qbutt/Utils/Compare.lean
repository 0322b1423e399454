import Mathlib.Data.List.TakeWhile
import Qbutt.Algorithm.Comparison

/-!
# Natural comparison of strings

`naturalCompare` goes through two strings side by side: equal characters are passed, numbers are
compared as a whole, and the first other difference is left to the collation of single characters.
Its sign is the lexicographic order of the tokens of the strings (`sign_naturalCompare`), as long as
the collation never takes two characters for equal and has all digits on one side of every other
character.  Collations that do not are no order on strings either (`naturalCompare_order_iff`).
-/

namespace Qbutt.Compare

open List

/-- A code unit of a string. -/
abbrev QChar := UInt16

/-- A string, as its code units. -/
abbrev QString := List QChar

inductive CaseSensitivity where
  | CaseInsensitive
  | CaseSensitive
deriving DecidableEq, Repr

/-- What is used of the character tables: the decimal digits, and the case folding of a character,
which leaves digits alone. -/
structure Characters where
  isDigit : QChar → Bool
  toCaseFolded : QChar → QChar
  isDigit_zero : isDigit 48 = true
  isDigit_toCaseFolded : ∀ c, isDigit (toCaseFolded c) = isDigit c
  toCaseFolded_of_isDigit : ∀ c, isDigit c = true → toCaseFolded c = c

/-- `localeAwareCompare` on single characters: a total preorder. -/
structure Collation where
  localeAwareCompare : QChar → QChar → ℤ
  antisymm : ∀ a b, (localeAwareCompare b a).sign = -(localeAwareCompare a b).sign
  trans : ∀ a b c, localeAwareCompare a b ≤ 0 → localeAwareCompare b c ≤ 0 →
    localeAwareCompare a c ≤ 0

variable (C : Characters) (K : Collation) (caseSensitivity : CaseSensitivity)

/-- The character that is compared in place of `c`. -/
def folded (c : QChar) : QChar :=
  if caseSensitivity = .CaseSensitive then c else C.toCaseFolded c

/-- `numberView`: the digits from `pos` on, and the position behind them. -/
def numberView (str : QString) (pos : ℕ) : QString × ℕ :=
  let view := (str.drop pos).takeWhile C.isDigit
  (view, pos + view.length)

/-- The loop over two numbers of the same length. -/
def compareDigits : QString → QString → Option ℤ
  | numL :: numViewL, numR :: numViewR =>
    if numL ≠ numR then some (numL.toNat - numR.toNat) else compareDigits numViewL numViewR
  | _, _ => none

/-- The loop of `naturalCompare`.  There is no result if it indexes outside one of the strings, or
if the passes do not suffice. -/
def naturalCompareFrom (left right : QString) : ℕ → ℕ → ℕ → Option ℤ
  | 0, _, _ => none
  | fuel + 1, posL, posR =>
    if posL = left.length ∨ posR = right.length then some (left.length - right.length)
    else do
      let leftChar := folded C caseSensitivity (← left[posL]?)
      let rightChar := folded C caseSensitivity (← right[posR]?)
      if leftChar = rightChar ∧ C.isDigit leftChar = false then
        naturalCompareFrom left right fuel (posL + 1) (posR + 1)
      else if C.isDigit leftChar ∧ C.isDigit rightChar then
        let (numViewL, posL) := numberView C left posL
        let (numViewR, posR) := numberView C right posR
        if numViewL.length ≠ numViewR.length then some (numViewL.length - numViewR.length)
        else
          match compareDigits numViewL numViewR with
          | some value => some value
          | none => naturalCompareFrom left right fuel posL posR
      else some (K.localeAwareCompare leftChar rightChar)

/-- Every pass moves on by a character at least. -/
def naturalCompare (left right : QString) : Option ℤ :=
  naturalCompareFrom C K caseSensitivity left right (left.length + 1) 0 0

/-! ### What the loop does -/

variable {C K caseSensitivity}

variable (C caseSensitivity) in
theorem isDigit_folded (c : QChar) : C.isDigit (folded C caseSensitivity c) = C.isDigit c := by
  unfold folded
  split_ifs
  · rfl
  · exact C.isDigit_toCaseFolded c

variable {c d : QChar}

theorem folded_of_isDigit (hc : C.isDigit c = true) : folded C caseSensitivity c = c := by
  unfold folded
  split_ifs
  · rfl
  · exact C.toCaseFolded_of_isDigit c hc

variable {str rest left right : QString}

variable {pos : ℕ}

theorem length_drop_of_cons (h : str.drop pos = c :: rest) :
    str.length = pos + rest.length + 1 := by
  have hlength := congrArg List.length h
  rw [length_drop, length_cons] at hlength
  omega

theorem numberView_of_drop (h : str.drop pos = rest) :
    numberView C str pos =
      (rest.takeWhile C.isDigit, pos + (rest.takeWhile C.isDigit).length) := by
  rw [numberView, h]

theorem drop_number (h : str.drop pos = rest) :
    str.drop (pos + (rest.takeWhile C.isDigit).length) = rest.dropWhile C.isDigit := by
  rw [← drop_drop, h]
  calc rest.drop (rest.takeWhile C.isDigit).length
      = (rest.takeWhile C.isDigit ++ rest.dropWhile C.isDigit).drop
          (rest.takeWhile C.isDigit).length := by rw [takeWhile_append_dropWhile]
    _ = rest.dropWhile C.isDigit := drop_left

theorem length_takeWhile_le (h : str.drop pos = c :: rest) :
    pos + ((c :: rest).takeWhile C.isDigit).length ≤ str.length := by
  have hle := ( takeWhile_prefix C.isDigit (l := c :: rest)).length_le
  have hlength := length_drop_of_cons h
  rw [length_cons] at hle
  omega

/-- A pass that starts inside both strings. -/
theorem naturalCompareFrom_cons {l r : QString} {posL posR : ℕ} (fuel : ℕ)
    (hl : left.drop posL = c :: l) (hr : right.drop posR = d :: r) :
    naturalCompareFrom C K caseSensitivity left right (fuel + 1) posL posR =
      if folded C caseSensitivity c = folded C caseSensitivity d ∧ C.isDigit c = false then
        naturalCompareFrom C K caseSensitivity left right fuel (posL + 1) (posR + 1)
      else if C.isDigit c ∧ C.isDigit d then
        let numViewL := (c :: l).takeWhile C.isDigit
        let numViewR := (d :: r).takeWhile C.isDigit
        if numViewL.length ≠ numViewR.length then some (numViewL.length - numViewR.length)
        else
          match compareDigits numViewL numViewR with
          | some value => some value
          | none => naturalCompareFrom C K caseSensitivity left right fuel
              (posL + numViewL.length) (posR + numViewR.length)
      else some (K.localeAwareCompare (folded C caseSensitivity c) (folded C caseSensitivity d)) := by
  have hltL := length_drop_of_cons hl
  have hltR := length_drop_of_cons hr
  have hgetL : left[posL]? = some c := by
    rw [← Nat.add_zero posL, ← List.getElem?_drop, hl]
    rfl
  have hgetR : right[posR]? = some d := by
    rw [← Nat.add_zero posR, ← List.getElem?_drop, hr]
    rfl
  rw [naturalCompareFrom, if_neg (by omega), hgetL, hgetR]
  simp only [Option.bind_eq_bind, Option.bind_some, isDigit_folded, numberView_of_drop hl,
    numberView_of_drop hr]

theorem compareDigits_swap (numViewL numViewR : QString) :
    compareDigits numViewR numViewL = (compareDigits numViewL numViewR).map fun value => -value := by
  induction numViewL generalizing numViewR with
  | nil => cases numViewR <;> rfl
  | cons numL numViewL ih =>
    cases numViewR with
    | nil => rfl
    | cons numR numViewR =>
      rw [compareDigits, compareDigits]
      by_cases heq : numL = numR
      · rw [if_neg (not_not_intro heq.symm), if_neg (not_not_intro heq), ih]
      · rw [if_pos (Ne.symm heq), if_pos heq, Option.map_some, Int.neg_sub]

theorem passed_comm :
    (folded C caseSensitivity c = folded C caseSensitivity d ∧ C.isDigit c = false) ↔
      folded C caseSensitivity d = folded C caseSensitivity c ∧ C.isDigit d = false := by
  constructor
  · rintro ⟨heq, hdigit⟩
    exact ⟨heq.symm, by rw [← isDigit_folded, ← heq, isDigit_folded, hdigit]⟩
  · rintro ⟨heq, hdigit⟩
    exact ⟨heq.symm, by rw [← isDigit_folded, ← heq, isDigit_folded, hdigit]⟩

/-- The loop ends without indexing outside the strings, and the other way round it finds the
opposite sign. -/
theorem naturalCompareFrom_swap (left right : QString) (fuel fuel' pos : ℕ)
    (hfuel : left.length < fuel + pos) (hfuel' : right.length < fuel' + pos)
    (hl : pos ≤ left.length) (hr : pos ≤ right.length) :
    ∃ v w, naturalCompareFrom C K caseSensitivity left right fuel pos pos = some v ∧
      naturalCompareFrom C K caseSensitivity right left fuel' pos pos = some w ∧
      w.sign = -v.sign := by
  induction fuel generalizing fuel' pos with
  | zero => omega
  | succ fuel ih =>
    obtain _ | fuel' := fuel'
    · omega
    by_cases hend : pos = left.length ∨ pos = right.length
    · refine ⟨_, _, by rw [naturalCompareFrom, if_pos hend],
        by rw [naturalCompareFrom, if_pos hend.symm], ?_⟩
      rw [← Int.sign_neg, Int.neg_sub]
    · obtain ⟨c, l, hcl⟩ := exists_cons_of_length_pos (l := left.drop pos)
        (by rw [length_drop]; omega)
      obtain ⟨d, r, hdr⟩ := exists_cons_of_length_pos (l := right.drop pos)
        (by rw [length_drop]; omega)
      rw [naturalCompareFrom_cons fuel hcl hdr, naturalCompareFrom_cons fuel' hdr hcl]
      by_cases hpass : folded C caseSensitivity c = folded C caseSensitivity d ∧ C.isDigit c = false
      · rw [if_pos hpass, if_pos (passed_comm.mp hpass)]
        exact ih fuel' (pos + 1) (by omega) (by omega) (by omega) (by omega)
      rw [if_neg hpass, if_neg fun h => hpass (passed_comm.mpr h)]
      by_cases hdigits : C.isDigit c ∧ C.isDigit d
      · rw [if_pos hdigits, if_pos hdigits.symm]
        dsimp only
        have hposL := length_takeWhile_le (C := C) hcl
        have hposR := length_takeWhile_le (C := C) hdr
        have hpositive : 0 < ((c :: l).takeWhile C.isDigit).length := by
          rw [takeWhile_cons_of_pos hdigits.1]
          exact Nat.succ_pos _
        generalize (c :: l).takeWhile C.isDigit = numViewL at hposL hpositive ⊢
        generalize (d :: r).takeWhile C.isDigit = numViewR at hposR ⊢
        by_cases hlength : numViewL.length = numViewR.length
        · rw [if_neg (not_not_intro hlength), if_neg (not_not_intro hlength.symm),
            compareDigits_swap numViewL numViewR]
          cases compareDigits numViewL numViewR with
          | some value => exact ⟨_, _, rfl, rfl, Int.sign_neg value⟩
          | none =>
            rw [← hlength]
            exact ih fuel' _ (by omega) (by omega) (by omega) (by omega)
        · rw [if_pos hlength, if_pos (Ne.symm hlength)]
          exact ⟨_, _, rfl, rfl, by rw [← Int.sign_neg, Int.neg_sub]⟩
      · rw [if_neg hdigits, if_neg fun h => hdigits h.symm]
        exact ⟨_, _, rfl, rfl, K.antisymm _ _⟩

/-! ### Tokens -/

open Std

/-- A token: a number, with `0` for its place among the characters, or another character. -/
structure Token where
  lead : QChar
  digits : QString

def tokens (C : Characters) (caseSensitivity : CaseSensitivity) : QString → List Token
  | [] => []
  | c :: str =>
    if C.isDigit c then
      ⟨48, c :: str.takeWhile C.isDigit⟩ :: tokens C caseSensitivity (str.dropWhile C.isDigit)
    else ⟨folded C caseSensitivity c, []⟩ :: tokens C caseSensitivity str
  termination_by str => str.length
  decreasing_by
    · exact Nat.lt_succ_of_le (length_dropWhile_le ..)
    · exact Nat.lt_succ_self _

def Collation.order (K : Collation) (a b : QChar) : Ordering := compare (K.localeAwareCompare a b) 0

def compareNumber (numL numR : QString) : Ordering :=
  (compare numL.length numR.length).then (numL.compareLex (compareOn UInt16.toNat) numR)

/-- Tokens are in the order of their characters, and numbers in the order of their values. -/
def Collation.compareToken (K : Collation) (a b : Token) : Ordering :=
  (K.order a.lead b.lead).then (compareNumber a.digits b.digits)

theorem isLE_order {a b : QChar} : (K.order a b).isLE ↔ K.localeAwareCompare a b ≤ 0 :=
  Int.isLE_compare

theorem compare_zero_congr {v w : ℤ} (h : w.sign = v.sign) : compare v 0 = compare w 0 := by
  rcases Int.lt_trichotomy v 0 with hv | rfl | hv
  · have hw : w < 0 := Int.sign_eq_neg_one_iff_neg.mp (h.trans (Int.sign_eq_neg_one_of_neg hv))
    rw [Int.compare_eq_lt.mpr hv, Int.compare_eq_lt.mpr hw]
  · rw [Int.sign_eq_zero_iff_zero.mp h]
  · have hw : 0 < w := Int.sign_eq_one_iff_pos.mp (h.trans (Int.sign_eq_one_of_pos hv))
    rw [Int.compare_eq_gt.mpr hv, Int.compare_eq_gt.mpr hw]

theorem compare_zero_swap {v w : ℤ} (h : w.sign = -v.sign) : compare v 0 = (compare w 0).swap := by
  rw [← Int.sign_neg] at h
  rw [← compare_zero_congr h]
  rcases Int.lt_trichotomy v 0 with hv | rfl | hv
  · rw [Int.compare_eq_lt.mpr hv, Int.compare_eq_gt.mpr (show 0 < -v by omega)]
    rfl
  · rfl
  · rw [Int.compare_eq_gt.mpr hv, Int.compare_eq_lt.mpr (show -v < 0 by omega)]
    rfl

theorem order_swap (a b : QChar) : K.order a b = (K.order b a).swap :=
  compare_zero_swap (K.antisymm a b)

instance : TransCmp K.order where
  eq_swap := order_swap _ _
  isLE_trans hab hbc := isLE_order.mpr (K.trans _ _ _ (isLE_order.mp hab) (isLE_order.mp hbc))

instance : TransCmp compareNumber := by
  have : TransCmp (compareOn UInt16.toNat) := transCmp_on compare UInt16.toNat
  have : TransCmp fun a b : QString => compare a.length b.length := transCmp_on compare List.length
  exact inferInstanceAs (TransCmp (compareLex (fun a b : QString => compare a.length b.length)
    (List.compareLex (compareOn UInt16.toNat))))

instance : TransCmp K.compareToken := by
  have : TransCmp fun a b : Token => K.order a.lead b.lead := transCmp_on K.order Token.lead
  have : TransCmp fun a b : Token => compareNumber a.digits b.digits := transCmp_on compareNumber Token.digits
  exact inferInstanceAs (TransCmp (compareLex (fun a b : Token => K.order a.lead b.lead)
    fun a b : Token => compareNumber a.digits b.digits))

/-! ### The order of the tokens -/

/-- The collation takes no two characters for equal, and it has all digits on one side of every
other character. -/
structure Separates (C : Characters) (K : Collation) (caseSensitivity : CaseSensitivity) :
    Prop where
  distinct : ∀ c d, ¬ (C.isDigit c ∧ C.isDigit d) →
    K.localeAwareCompare (folded C caseSensitivity c) (folded C caseSensitivity d) = 0 →
    folded C caseSensitivity c = folded C caseSensitivity d
  numbers : ∀ c d e, C.isDigit c = false → C.isDigit d = true → C.isDigit e = true →
    (K.localeAwareCompare (folded C caseSensitivity c) d).sign =
      (K.localeAwareCompare (folded C caseSensitivity c) e).sign

theorem compareDigits_order {numViewL numViewR : QString}
    (hlength : numViewL.length = numViewR.length) :
    match compareDigits numViewL numViewR with
    | some value => compare value 0 = compareNumber numViewL numViewR ∧ value ≠ 0
    | none => numViewL = numViewR := by
  have hnumber : compareNumber numViewL numViewR =
      numViewL.compareLex (compareOn UInt16.toNat) numViewR := by
    rw [compareNumber, hlength, Nat.compare_eq_eq.mpr rfl]
    rfl
  rw [hnumber]
  clear hnumber
  induction numViewL generalizing numViewR with
  | nil =>
    rw [length_nil] at hlength
    rw [eq_nil_of_length_eq_zero hlength.symm]
    rfl
  | cons numL numViewL ih =>
    cases numViewR with
    | nil => exact absurd hlength (Nat.succ_ne_zero _)
    | cons numR numViewR =>
      have htail := ih (Nat.succ.inj hlength)
      rw [compareDigits, List.compareLex_cons_cons]
      by_cases heq : numL = numR
      · subst heq
        have hself : compareOn UInt16.toNat numL numL = .eq := Nat.compare_eq_eq.mpr rfl
        rw [if_neg (not_not_intro rfl), hself, Ordering.eq_then]
        cases hrest : compareDigits numViewL numViewR with
        | some value =>
          rw [hrest] at htail
          exact htail
        | none =>
          rw [hrest] at htail
          exact congrArg (numL :: ·) htail
      · have hne : numL.toNat ≠ numR.toNat := fun h => heq (UInt16.toNat_inj.mp h)
        rw [if_pos heq]
        refine ⟨?_, by omega⟩
        rcases Nat.lt_or_gt_of_ne hne with h | h
        · have hlt : compareOn UInt16.toNat numL numR = .lt := Nat.compare_eq_lt.mpr h
          rw [hlt, Int.compare_eq_lt.mpr (by omega)]
          rfl
        · have hgt : compareOn UInt16.toNat numL numR = .gt := Nat.compare_eq_gt.mpr h
          rw [hgt, Int.compare_eq_gt.mpr (by omega)]
          rfl

theorem tokens_of_isDigit (str : QString) (hc : C.isDigit c = true) :
    tokens C caseSensitivity (c :: str) =
      ⟨48, (c :: str).takeWhile C.isDigit⟩ ::
        tokens C caseSensitivity ((c :: str).dropWhile C.isDigit) := by
  rw [tokens, if_pos hc, takeWhile_cons_of_pos hc, dropWhile_cons_of_pos hc]

theorem tokens_of_not_isDigit (str : QString) (hc : C.isDigit c = false) :
    tokens C caseSensitivity (c :: str) =
      ⟨folded C caseSensitivity c, []⟩ :: tokens C caseSensitivity str := by
  rw [tokens, if_neg (by rw [hc]; exact Bool.false_ne_true)]

variable (C caseSensitivity) in
theorem tokens_ne_nil (hstr : 0 < str.length) : ∃ t ts, tokens C caseSensitivity str = t :: ts := by
  obtain ⟨c, rest, rfl⟩ := exists_cons_of_length_pos hstr
  cases hc : C.isDigit c with
  | true => exact ⟨_, _, tokens_of_isDigit rest hc⟩
  | false => exact ⟨_, _, tokens_of_not_isDigit rest hc⟩

/-- Where one of the strings ends, the longer one comes after the other. -/
theorem compare_length_tokens (hl : pos ≤ left.length) (hr : pos ≤ right.length)
    (hend : pos = left.length ∨ pos = right.length) :
    compare ((left.length : ℤ) - right.length) 0 =
      (tokens C caseSensitivity (left.drop pos)).compareLex K.compareToken
        (tokens C caseSensitivity (right.drop pos)) := by
  rcases Nat.lt_trichotomy left.length right.length with h | h | h
  · rw [Int.compare_eq_lt.mpr (by omega), drop_eq_nil_of_le (by omega), tokens]
    obtain ⟨t, ts, htokens⟩ := tokens_ne_nil C caseSensitivity
      (show 0 < (right.drop pos).length by rw [length_drop]; omega)
    rw [htokens, List.compareLex_nil_cons]
  · rw [drop_eq_nil_of_le (by omega), drop_eq_nil_of_le (by omega), tokens, List.compareLex_nil_nil]
    exact Int.compare_eq_eq.mpr (by omega)
  · rw [Int.compare_eq_gt.mpr (by omega), drop_eq_nil_of_le (show right.length ≤ pos by omega),
      tokens]
    obtain ⟨t, ts, htokens⟩ := tokens_ne_nil C caseSensitivity
      (show 0 < (left.drop pos).length by rw [length_drop]; omega)
    rw [htokens, List.compareLex_cons_nil]

/-- A character and the digits of a number are in the order of the character and `0`. -/
theorem Separates.order_digit (hsep : Separates C K caseSensitivity) (hc : C.isDigit c = false)
    (hd : C.isDigit d = true) :
    K.order (folded C caseSensitivity c) d = K.order (folded C caseSensitivity c) 48 :=
  compare_zero_congr (hsep.numbers c 48 d hc C.isDigit_zero hd)

theorem Separates.order_ne_eq (hsep : Separates C K caseSensitivity)
    (hdigits : ¬ (C.isDigit c ∧ C.isDigit d))
    (hne : folded C caseSensitivity c ≠ folded C caseSensitivity d) :
    K.order (folded C caseSensitivity c) (folded C caseSensitivity d) ≠ .eq :=
  fun h => hne (hsep.distinct c d hdigits (Int.compare_eq_eq.mp h))

theorem compare_sub_zero (m n : ℕ) : compare ((m : ℤ) - n) 0 = compare m n := by
  rcases Nat.lt_trichotomy m n with h | rfl | h
  · rw [Int.compare_eq_lt.mpr (by omega), Nat.compare_eq_lt.mpr h]
  · rw [Int.compare_eq_eq.mpr (by omega), Nat.compare_eq_eq.mpr rfl]
  · rw [Int.compare_eq_gt.mpr (by omega), Nat.compare_eq_gt.mpr h]

theorem compareLex_of_lead {t u : Token} (ts us : List Token) (h : K.order t.lead u.lead ≠ .eq) :
    (t :: ts).compareLex K.compareToken (u :: us) = K.order t.lead u.lead := by
  rw [List.compareLex_cons_cons, Collation.compareToken, then_of_ne_eq h, then_of_ne_eq h]

theorem compareLex_of_lead_eq {t u : Token} (ts us : List Token) (h : t.lead = u.lead) :
    (t :: ts).compareLex K.compareToken (u :: us) =
      (compareNumber t.digits u.digits).then (ts.compareLex K.compareToken us) := by
  have hself := cmp_self K.order u.lead
  rw [List.compareLex_cons_cons, Collation.compareToken, h, hself, Ordering.eq_then]

/-- Two numbers are in the order of their values, and the strings behind equal ones decide. -/
theorem compareLex_numbers (l r : QString) (hc : C.isDigit c = true) (hd : C.isDigit d = true) :
    (tokens C caseSensitivity (c :: l)).compareLex K.compareToken
        (tokens C caseSensitivity (d :: r)) =
      (compareNumber ((c :: l).takeWhile C.isDigit) ((d :: r).takeWhile C.isDigit)).then
        ((tokens C caseSensitivity ((c :: l).dropWhile C.isDigit)).compareLex K.compareToken
          (tokens C caseSensitivity ((d :: r).dropWhile C.isDigit))) := by
  rw [tokens_of_isDigit l hc, tokens_of_isDigit r hd]
  exact compareLex_of_lead_eq _ _ rfl

/-- Where the characters differ and are no digits both, their order decides. -/
theorem Separates.compare_chars (hsep : Separates C K caseSensitivity) (l r : QString)
    (hpass : ¬ (folded C caseSensitivity c = folded C caseSensitivity d ∧ C.isDigit c = false))
    (hdigits : ¬ (C.isDigit c ∧ C.isDigit d)) :
    K.order (folded C caseSensitivity c) (folded C caseSensitivity d) =
      (tokens C caseSensitivity (c :: l)).compareLex K.compareToken
        (tokens C caseSensitivity (d :: r)) := by
  have hne : folded C caseSensitivity c ≠ folded C caseSensitivity d := by
    intro heq
    have hsame : C.isDigit c = C.isDigit d := by
      rw [← isDigit_folded C caseSensitivity, heq, isDigit_folded]
    rw [← hsame, and_self, Bool.not_eq_true] at hdigits
    exact hpass ⟨heq, hdigits⟩
  have horder := hsep.order_ne_eq hdigits hne
  cases hc : C.isDigit c with
  | false =>
    rw [tokens_of_not_isDigit l hc]
    cases hd : C.isDigit d with
    | false => rw [tokens_of_not_isDigit r hd, compareLex_of_lead _ _ horder]
    | true =>
      rw [folded_of_isDigit hd, hsep.order_digit hc hd] at horder
      rw [tokens_of_isDigit r hd, compareLex_of_lead _ _ horder, folded_of_isDigit hd,
        hsep.order_digit hc hd]
  | true =>
    cases hd : C.isDigit d with
    | true => exact absurd ⟨hc, hd⟩ hdigits
    | false =>
      have hzero : K.order (folded C caseSensitivity c) (folded C caseSensitivity d) =
          K.order 48 (folded C caseSensitivity d) := by
        rw [folded_of_isDigit hc, order_swap c, hsep.order_digit hd hc, ← order_swap]
      rw [hzero] at horder ⊢
      rw [tokens_of_isDigit l hc, tokens_of_not_isDigit r hd, compareLex_of_lead _ _ horder]

theorem naturalCompareFrom_tokens (hsep : Separates C K caseSensitivity) (left right : QString)
    (fuel pos : ℕ) (hfuel : left.length < fuel + pos) (hl : pos ≤ left.length)
    (hr : pos ≤ right.length) :
    ∃ v, naturalCompareFrom C K caseSensitivity left right fuel pos pos = some v ∧
      compare v 0 = (tokens C caseSensitivity (left.drop pos)).compareLex K.compareToken
        (tokens C caseSensitivity (right.drop pos)) := by
  induction fuel generalizing pos with
  | zero => omega
  | succ fuel ih =>
    by_cases hend : pos = left.length ∨ pos = right.length
    · exact ⟨_, by rw [naturalCompareFrom, if_pos hend], compare_length_tokens hl hr hend⟩
    · obtain ⟨c, l, hcl⟩ := exists_cons_of_length_pos (l := left.drop pos)
        (by rw [length_drop]; omega)
      obtain ⟨d, r, hdr⟩ := exists_cons_of_length_pos (l := right.drop pos)
        (by rw [length_drop]; omega)
      rw [naturalCompareFrom_cons fuel hcl hdr, hcl, hdr]
      by_cases hpass : folded C caseSensitivity c = folded C caseSensitivity d ∧ C.isDigit c = false
      · rw [if_pos hpass]
        obtain ⟨v, hv, horder⟩ := ih (pos + 1) (by omega) (by omega) (by omega)
        refine ⟨v, hv, ?_⟩
        rw [← drop_drop, hcl, ← drop_drop, hdr] at horder
        rw [tokens_of_not_isDigit l hpass.2, tokens_of_not_isDigit r (passed_comm.mp hpass).2,
          compareLex_of_lead_eq _ _ hpass.1]
        exact horder
      rw [if_neg hpass]
      by_cases hdigits : C.isDigit c ∧ C.isDigit d
      · rw [if_pos hdigits, compareLex_numbers l r hdigits.1 hdigits.2]
        dsimp only
        by_cases hlength : ((c :: l).takeWhile C.isDigit).length =
            ((d :: r).takeWhile C.isDigit).length
        · rw [if_neg (not_not_intro hlength)]
          have hspec := compareDigits_order hlength
          cases hcompare : compareDigits ((c :: l).takeWhile C.isDigit)
              ((d :: r).takeWhile C.isDigit) with
          | some value =>
            rw [hcompare] at hspec
            refine ⟨value, rfl, ?_⟩
            have hne : compare value 0 ≠ .eq := fun h => hspec.2 (Int.compare_eq_eq.mp h)
            rw [← hspec.1, then_of_ne_eq hne]
          | none =>
            rw [hcompare] at hspec
            have hself : compareNumber ((d :: r).takeWhile C.isDigit)
              ((d :: r).takeWhile C.isDigit) = .eq := ReflCmp.compare_self
            have hposL := length_takeWhile_le (C := C) hcl
            have hposR := length_takeWhile_le (C := C) hdr
            have hpositive : 0 < ((c :: l).takeWhile C.isDigit).length := by
              rw [takeWhile_cons_of_pos hdigits.1]
              exact Nat.succ_pos _
            obtain ⟨v, hv, horder⟩ := ih (pos + ((c :: l).takeWhile C.isDigit).length) (by omega)
              hposL (by omega)
            refine ⟨v, by rw [← hlength]; exact hv, ?_⟩
            rw [drop_number hcl] at horder
            rw [hlength, drop_number hdr] at horder
            rw [hspec, hself, Ordering.eq_then]
            exact horder
        · rw [if_pos hlength]
          refine ⟨_, rfl, ?_⟩
          have hne : compare ((c :: l).takeWhile C.isDigit).length
              ((d :: r).takeWhile C.isDigit).length ≠ .eq :=
            fun h => hlength (Nat.compare_eq_eq.mp h)
          rw [compareNumber, then_of_ne_eq hne, then_of_ne_eq hne]
          exact compare_sub_zero _ _
      · rw [if_neg hdigits]
        exact ⟨_, rfl, hsep.compare_chars l r hpass hdigits⟩

/-! ### Orders of strings -/

/-- A comparison that can be sorted by: it gives a result for every two strings, the opposite one
the other way round, and its `less` and its `equal` are transitive. -/
structure IsOrder (compare : QString → QString → Option ℤ) : Prop where
  total : ∀ a b, ∃ v, compare a b = some v
  antisymm : ∀ a b v w, compare a b = some v → compare b a = some w → w.sign = -v.sign
  lt_trans : ∀ a b c u v w, compare a b = some u → compare b c = some v → compare a c = some w →
    u < 0 → v < 0 → w < 0
  eq_trans : ∀ a b c, compare a b = some 0 → compare b c = some 0 → compare a c = some 0

variable (C K caseSensitivity) in
theorem naturalCompare_swap (left right : QString) :
    ∃ v w, naturalCompare C K caseSensitivity left right = some v ∧
      naturalCompare C K caseSensitivity right left = some w ∧ w.sign = -v.sign :=
  naturalCompareFrom_swap left right _ _ 0 (Nat.lt_succ_self _) (Nat.lt_succ_self _)
    (Nat.zero_le _) (Nat.zero_le _)

theorem naturalCompare_tokens (hsep : Separates C K caseSensitivity) {v : ℤ}
    (hv : naturalCompare C K caseSensitivity left right = some v) :
    compare v 0 = (tokens C caseSensitivity left).compareLex K.compareToken
      (tokens C caseSensitivity right) := by
  obtain ⟨w, hw, horder⟩ := naturalCompareFrom_tokens hsep left right (left.length + 1) 0
    (Nat.lt_succ_self _) (Nat.zero_le _) (Nat.zero_le _)
  rw [Option.some.inj (hv.symm.trans hw)]
  exact horder

/-- Strings of one character are in the order of the collation, if they are no digits both. -/
theorem naturalCompare_single (l r : QString)
    (hne : folded C caseSensitivity c ≠ folded C caseSensitivity d)
    (hdigits : ¬ (C.isDigit c ∧ C.isDigit d)) :
    naturalCompare C K caseSensitivity (c :: l) (d :: r) =
      some (K.localeAwareCompare (folded C caseSensitivity c) (folded C caseSensitivity d)) := by
  rw [naturalCompare, naturalCompareFrom_cons _ drop_zero drop_zero,
    if_neg fun h => hne h.1, if_neg hdigits]

theorem naturalCompare_numbers {e : QChar} (hd : C.isDigit d = true) (he : C.isDigit e = true) :
    naturalCompare C K caseSensitivity [d, d] [e] = some 1 := by
  rw [naturalCompare, naturalCompareFrom_cons _ drop_zero drop_zero,
    if_neg fun h => by rw [hd] at h; exact Bool.noConfusion h.2, if_pos ⟨hd, he⟩,
    takeWhile_cons_of_pos hd, takeWhile_cons_of_pos hd, takeWhile_cons_of_pos he]
  rfl

theorem naturalCompare_twice (d : QChar) :
    naturalCompare C K caseSensitivity [d] [d, d] = some (-1) := by
  rw [naturalCompare, naturalCompareFrom_cons _ drop_zero drop_zero]
  cases hd : C.isDigit d with
  | true =>
    rw [if_neg fun h => Bool.noConfusion h.2, if_pos ⟨rfl, rfl⟩, takeWhile_cons_of_pos hd,
      takeWhile_cons_of_pos hd, takeWhile_cons_of_pos hd]
    rfl
  | false =>
    rw [if_pos ⟨rfl, rfl⟩]
    rfl

theorem localeAwareCompare_neg_iff (a b : QChar) :
    K.localeAwareCompare a b < 0 ↔ 0 < K.localeAwareCompare b a := by
  rw [← Int.sign_eq_neg_one_iff_neg, ← Int.sign_eq_one_iff_pos, K.antisymm a b]
  omega

theorem IsOrder.distinct (horder : IsOrder (naturalCompare C K caseSensitivity)) (c d : QChar)
    (hdigits : ¬ (C.isDigit c ∧ C.isDigit d))
    (hzero : K.localeAwareCompare (folded C caseSensitivity c) (folded C caseSensitivity d) = 0) :
    folded C caseSensitivity c = folded C caseSensitivity d := by
  by_contra hne
  -- `c` would be equal to `d` and to `dd`, which come one after the other
  have hback : K.localeAwareCompare (folded C caseSensitivity d) (folded C caseSensitivity c) = 0 := by
    have hsign := K.antisymm (folded C caseSensitivity c) (folded C caseSensitivity d)
    rw [hzero] at hsign
    exact Int.sign_eq_zero_iff_zero.mp hsign
  have hleft := naturalCompare_single (K := K) [] [] (Ne.symm hne) fun h => hdigits h.symm
  have hright := naturalCompare_single (K := K) [] [d] hne hdigits
  rw [hback] at hleft
  rw [hzero] at hright
  have htwo := horder.eq_trans _ _ _ hleft hright
  rw [naturalCompare_twice] at htwo
  exact absurd (Option.some.inj htwo) (by decide)

theorem IsOrder.not_between (horder : IsOrder (naturalCompare C K caseSensitivity)) {e : QChar}
    (hc : C.isDigit c = false) (hd : C.isDigit d = true) (he : C.isDigit e = true)
    (hafter : 0 < K.localeAwareCompare (folded C caseSensitivity c) d) :
    ¬ K.localeAwareCompare (folded C caseSensitivity c) e < 0 := by
  intro hbefore
  have hne : ∀ {x : QChar}, C.isDigit x = true →
      folded C caseSensitivity c ≠ folded C caseSensitivity x := by
    intro x hx heq
    rw [← isDigit_folded C caseSensitivity, heq, isDigit_folded, hx] at hc
    exact Bool.noConfusion hc
  have hnot : ∀ {x : QChar}, ¬ (C.isDigit c ∧ C.isDigit x) := by
    rintro x ⟨h, -⟩
    rw [hc] at h
    exact Bool.noConfusion h
  -- `dd` comes before `c` and `c` before `e`, but `e` before `dd`
  have hleft := naturalCompare_single (K := K) [d] [] (hne hd).symm fun h => hnot h.symm
  have hright := naturalCompare_single (K := K) [] [] (hne he) hnot
  rw [folded_of_isDigit hd] at hleft
  rw [folded_of_isDigit he] at hright
  have hlt := horder.lt_trans _ _ _ _ _ _ hleft hright (naturalCompare_numbers hd he)
    ((localeAwareCompare_neg_iff _ _).mpr hafter) hbefore
  exact absurd hlt (by decide)

/-- The natural comparison can be sorted by if and only if the collation takes no two characters for
equal and has all digits on one side of every other character. -/
theorem naturalCompare_order_iff :
    IsOrder (naturalCompare C K caseSensitivity) ↔ Separates C K caseSensitivity := by
  constructor
  · intro horder
    refine ⟨horder.distinct, fun c d e hc hd he => ?_⟩
    have hne : ∀ {x : QChar}, C.isDigit x = true →
        K.localeAwareCompare (folded C caseSensitivity c) x ≠ 0 := by
      intro x hx hzero
      have heq := horder.distinct c x (fun h => by rw [hc] at h; exact Bool.noConfusion h.1)
        (by rw [folded_of_isDigit hx]; exact hzero)
      rw [← isDigit_folded C caseSensitivity, heq, isDigit_folded, hx] at hc
      exact Bool.noConfusion hc
    rcases Int.lt_or_gt_of_ne (hne hd) with h | h
    · have hge := mt (horder.not_between hc he hd) (not_not_intro h)
      have hlt : K.localeAwareCompare (folded C caseSensitivity c) e < 0 :=
        Int.lt_iff_le_and_ne.mpr ⟨Int.not_lt.mp hge, hne he⟩
      rw [Int.sign_eq_neg_one_of_neg h, Int.sign_eq_neg_one_of_neg hlt]
    · have hgt : 0 < K.localeAwareCompare (folded C caseSensitivity c) e :=
        Int.lt_iff_le_and_ne.mpr
          ⟨Int.not_lt.mp (horder.not_between hc hd he h), (hne he).symm⟩
      rw [Int.sign_eq_one_of_pos h, Int.sign_eq_one_of_pos hgt]
  · intro hsep
    refine ⟨fun a b => ?_, fun a b v w hv hw => ?_, fun a b c u v w hu hv hw hlt hlt' => ?_,
      fun a b c hu hv => ?_⟩
    · obtain ⟨v, -, hv, -, -⟩ := naturalCompare_swap C K caseSensitivity a b
      exact ⟨v, hv⟩
    · obtain ⟨v', w', hv', hw', hsign⟩ := naturalCompare_swap C K caseSensitivity a b
      rw [Option.some.inj (hv.symm.trans hv'), Option.some.inj (hw.symm.trans hw')]
      exact hsign
    · rw [← Int.compare_eq_lt, naturalCompare_tokens hsep hu] at hlt
      rw [← Int.compare_eq_lt, naturalCompare_tokens hsep hv] at hlt'
      rw [← Int.compare_eq_lt, naturalCompare_tokens hsep hw]
      exact TransCmp.lt_trans hlt hlt'
    · obtain ⟨w, -, hw, -, -⟩ := naturalCompare_swap C K caseSensitivity a c
      have hab := naturalCompare_tokens hsep hu
      have hbc := naturalCompare_tokens hsep hv
      have hac := naturalCompare_tokens hsep hw
      rw [hw, ← Int.compare_eq_eq.mp (hac.trans (TransCmp.eq_trans hab.symm hbc.symm))]

/-! ### Two collations -/

def codeUnits : Collation where
  localeAwareCompare a b := a.toNat - b.toNat
  antisymm a b := by rw [← Int.sign_neg, Int.neg_sub]
  trans a b c hab hbc := by omega

def arabicCharacters : Characters where
  isDigit c := (48 ≤ c && c ≤ 57) || (0x660 ≤ c && c ≤ 0x669)
  toCaseFolded c := if 65 ≤ c ∧ c ≤ 90 then c + 32 else c
  isDigit_zero := rfl
  isDigit_toCaseFolded c := by
    split_ifs with h
    · have hlower : 97 ≤ c + 32 ∧ c + 32 ≤ 122 := by
        simp only [UInt16.le_iff_toNat_le, UInt16.toNat_add, UInt16.toNat_ofNat] at h ⊢
        omega
      simp only [UInt16.le_iff_toNat_le, UInt16.toNat_ofNat] at h hlower
      rw [Bool.eq_iff_iff]
      simp only [UInt16.le_iff_toNat_le, UInt16.toNat_ofNat, Bool.or_eq_true, Bool.and_eq_true,
        decide_eq_true_eq]
      omega
    · rfl
  toCaseFolded_of_isDigit c hc := by
    rw [if_neg]
    intro h
    simp only [UInt16.le_iff_toNat_le, UInt16.toNat_ofNat, Bool.or_eq_true, Bool.and_eq_true,
      decide_eq_true_eq] at h hc
    omega

/-- By code units the letters are between the digits of ASCII and those of Arabic: `11` comes before
`a`, `a` before `٣`, and `٣` before `11`. -/
theorem codeUnits_no_order :
    naturalCompare arabicCharacters codeUnits .CaseSensitive [49, 49] [97] = some (-48) ∧
      naturalCompare arabicCharacters codeUnits .CaseSensitive [97] [0x663] = some (-1538) ∧
      naturalCompare arabicCharacters codeUnits .CaseSensitive [49, 49] [0x663] = some 1 ∧
      ¬ IsOrder (naturalCompare arabicCharacters codeUnits .CaseSensitive) := by
  refine ⟨rfl, rfl, rfl, fun horder => ?_⟩
  exact absurd (horder.lt_trans [49, 49] [97] [0x663] (-48) (-1538) 1 rfl rfl rfl (by decide)
    (by decide)) (by decide)

end Qbutt.Compare
