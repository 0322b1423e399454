import Mathlib.Data.List.Induction
import Mathlib.Data.List.Nodup
import Mathlib.Tactic.Ring
import Qbutt.Algorithm.Comparison
import Qbutt.Algorithm.Split
import Qbutt.Update.Releases

/-!
# Precedence of versions, and the release that is offered

`compareVersion` is the precedence of semantic versions (`compareVersion_eq_precedence`), although it
compares numbers as texts.  `readReleases` keeps the highest version it recognizes
(`foldl_consider_spec`).  The pattern of a version lets a line feed pass at the end, so two texts may be
the same version; apart from that the order of the releases makes no difference
(`readReleases_precise_iff`).
-/

namespace Qbutt.ReleaseUpdater

open Std List

/-! ### Semantic versions -/

/-- An identifier of a prerelease. -/
inductive Identifier where
  | number (value : ℕ)
  | text (text : List Char)
deriving DecidableEq

def Identifier.order : Identifier → Identifier → Ordering
  | number m, number n => compare m n
  | number _, text _ => .lt
  | text _, number _ => .gt
  | text s, text t => compareText s t

/-- A version without a prerelease comes after those with one. -/
def prereleaseOrder : List Identifier → List Identifier → Ordering
  | [], [] => .eq
  | [], _ :: _ => .gt
  | _ :: _, [] => .lt
  | i :: is, j :: js => (i :: is).compareLex Identifier.order (j :: js)

structure SemVer where
  core : List ℕ
  prerelease : List Identifier
deriving DecidableEq

/-- The precedence of two semantic versions. -/
def precedence (a b : SemVer) : Ordering :=
  (a.core.compareLex compare b.core).then (prereleaseOrder a.prerelease b.prerelease)

instance compareOn_trans : TransCmp (compareOn Char.toNat) where
  eq_swap := cmp_swap (compare (α := ℕ)) _ _
  isLE_trans := cmp_isLE_trans (compare (α := ℕ))

instance compareOn_lawful : LawfulEqCmp (compareOn Char.toNat) where
  compare_self := Nat.compare_eq_eq.mpr rfl
  eq_of_compare h := Char.toNat_inj.mp (Nat.compare_eq_eq.mp h)

instance : TransCmp compareText := inferInstanceAs (TransCmp (List.compareLex (compareOn Char.toNat)))

instance : LawfulEqCmp compareText :=
  inferInstanceAs (LawfulEqCmp (List.compareLex (compareOn Char.toNat)))

theorem order_swap (a b : Identifier) : a.order b = (b.order a).swap := by
  cases a with
  | number m =>
    cases b with
    | number n => exact cmp_swap compare m n
    | text t => rfl
  | text s =>
    cases b with
    | number n => rfl
    | text t => exact cmp_swap compareText s t

theorem isLE_order_trans {a b c : Identifier} (hab : (a.order b).isLE) (hbc : (b.order c).isLE) :
    (a.order c).isLE := by
  cases a with
  | number m =>
    cases c with
    | text u => rfl
    | number k =>
      cases b with
      | number n => exact cmp_isLE_trans (compare (α := ℕ)) hab hbc
      | text t => cases hbc
  | text s =>
    cases b with
    | number n => cases hab
    | text t =>
      cases c with
      | number k => cases hbc
      | text u => exact cmp_isLE_trans compareText hab hbc

instance : TransCmp Identifier.order where
  eq_swap := order_swap _ _
  isLE_trans := isLE_order_trans

instance : LawfulEqCmp Identifier.order where
  compare_self {a} := by
    cases a
    · exact Nat.compare_eq_eq.mpr rfl
    · exact cmp_self compareText _
  eq_of_compare {a b} h := by
    cases a <;> cases b
    · exact congrArg _ (Nat.compare_eq_eq.mp h)
    · cases h
    · cases h
    · exact congrArg _ ((cmp_eq_iff compareText).mp h)

theorem prereleaseOrder_swap (as bs : List Identifier) :
    prereleaseOrder as bs = (prereleaseOrder bs as).swap := by
  cases as with
  | nil => cases bs <;> rfl
  | cons a as =>
    cases bs with
    | nil => rfl
    | cons b bs => exact cmp_swap (List.compareLex Identifier.order) (a :: as) (b :: bs)

theorem isLE_prereleaseOrder_trans {as bs cs : List Identifier}
    (hab : (prereleaseOrder as bs).isLE) (hbc : (prereleaseOrder bs cs).isLE) :
    (prereleaseOrder as cs).isLE := by
  cases cs with
  | nil => cases as <;> rfl
  | cons c cs =>
    cases bs with
    | nil => cases hbc
    | cons b bs =>
      cases as with
      | nil => cases hab
      | cons a as => exact cmp_isLE_trans (List.compareLex Identifier.order) hab hbc

instance : TransCmp prereleaseOrder where
  eq_swap := prereleaseOrder_swap _ _
  isLE_trans := isLE_prereleaseOrder_trans

instance : LawfulEqCmp prereleaseOrder where
  compare_self {as} := by
    cases as with
    | nil => rfl
    | cons a as => exact cmp_self (List.compareLex Identifier.order) (a :: as)
  eq_of_compare {as bs} h := by
    cases as with
    | nil => cases bs with
      | nil => rfl
      | cons b bs => cases h
    | cons a as => cases bs with
      | nil => cases h
      | cons b bs => exact (cmp_eq_iff (List.compareLex Identifier.order)).mp h

instance : TransCmp precedence := by
  haveI : TransCmp fun a b : SemVer => a.core.compareLex compare b.core :=
    transCmp_on (List.compareLex compare) SemVer.core
  haveI : TransCmp fun a b : SemVer => prereleaseOrder a.prerelease b.prerelease :=
    transCmp_on prereleaseOrder SemVer.prerelease
  exact inferInstanceAs (TransCmp (compareLex
    (fun a b : SemVer => a.core.compareLex compare b.core)
    fun a b : SemVer => prereleaseOrder a.prerelease b.prerelease))

instance : LawfulEqCmp precedence where
  compare_self {a} := by
    rw [precedence, cmp_self (List.compareLex compare), cmp_self prereleaseOrder]
    rfl
  eq_of_compare {a b} h := by
    rw [precedence, Ordering.then_eq_eq, cmp_eq_iff (List.compareLex compare),
      cmp_eq_iff prereleaseOrder] at h
    cases a
    cases b
    cases h.1
    cases h.2
    rfl

/-! ### Numbers -/

def digitValue (c : Char) : ℕ := c.toNat - 48

def value : List Char → ℕ
  | [] => 0
  | c :: digits => digitValue c * 10 ^ digits.length + value digits

theorem isDigit_iff {c : Char} : isDigit c = true ↔ 48 ≤ c.toNat ∧ c.toNat ≤ 57 := by
  unfold isDigit
  rw [Bool.and_eq_true, decide_eq_true_eq, decide_eq_true_eq]
  exact Iff.rfl

variable {a b text digits qbuttVersion : List Char}

theorem numeric_cons {c : Char} :
    numeric (c :: digits) = true ↔ isDigit c = true ∧ numeric digits = true := by
  rw [numeric, all_cons, Bool.and_eq_true]
  rfl

theorem value_lt (h : numeric digits = true) : value digits < 10 ^ digits.length := by
  induction digits with
  | nil => exact Nat.one_pos
  | cons c digits ih =>
    obtain ⟨hc, hdigits⟩ := numeric_cons.mp h
    have hrest := ih hdigits
    have hdigit : digitValue c + 1 ≤ 10 := by
      have := isDigit_iff.mp hc
      unfold digitValue
      omega
    rw [value, length_cons, pow_succ]
    calc digitValue c * 10 ^ digits.length + value digits
        < (digitValue c + 1) * 10 ^ digits.length := by rw [Nat.succ_mul]; omega
      _ ≤ 10 ^ digits.length * 10 := by rw [Nat.mul_comm]; exact Nat.mul_le_mul_left _ hdigit

/-- Digits that do not begin with a zero. -/
theorem le_value {c : Char} (hc : isDigit c = true) (hne : c ≠ '0') :
    10 ^ digits.length ≤ value (c :: digits) := by
  have hpos : 1 ≤ digitValue c := by
    have hbounds := isDigit_iff.mp hc
    have hzero : c.toNat ≠ 48 := fun h => hne (Char.toNat_inj.mp h)
    unfold digitValue
    omega
  calc 10 ^ digits.length = 1 * 10 ^ digits.length := (Nat.one_mul _).symm
    _ ≤ digitValue c * 10 ^ digits.length := Nat.mul_le_mul_right _ hpos
    _ ≤ value (c :: digits) := Nat.le_add_right _ _

theorem mul_add_lt {m n power u v : ℕ} (h : m < n) (hu : u < power) :
    m * power + u < n * power + v :=
  calc m * power + u < (m + 1) * power := by rw [Nat.succ_mul]; omega
    _ ≤ n * power := Nat.mul_le_mul_right _ h
    _ ≤ n * power + v := Nat.le_add_right _ _

theorem compare_add_left (m u v : ℕ) : compare (m + u) (m + v) = compare u v := by
  rcases Nat.lt_trichotomy u v with h | rfl | h
  · rw [Nat.compare_eq_lt.mpr h, Nat.compare_eq_lt.mpr (Nat.add_lt_add_left h m)]
  · rw [Nat.compare_eq_eq.mpr rfl, Nat.compare_eq_eq.mpr rfl]
  · rw [Nat.compare_eq_gt.mpr h, Nat.compare_eq_gt.mpr (Nat.add_lt_add_left h m)]

theorem compare_value_of_length (ha : numeric a = true) (hb : numeric b = true)
    (hlength : a.length = b.length) : compare (value a) (value b) = compareText a b := by
  induction a generalizing b with
  | nil =>
    rw [eq_nil_of_length_eq_zero hlength.symm]
    rfl
  | cons c a ih =>
    cases b with
    | nil => exact absurd hlength (Nat.succ_ne_zero _)
    | cons d b =>
      obtain ⟨hc, ha⟩ := numeric_cons.mp ha
      obtain ⟨hd, hb⟩ := numeric_cons.mp hb
      have hlength : a.length = b.length := Nat.succ.inj hlength
      have hrest := ih ha hb hlength
      have hlta := value_lt ha
      have hltb := value_lt hb
      have hcbounds := isDigit_iff.mp hc
      have hdbounds := isDigit_iff.mp hd
      rw [compareText, List.compareLex_cons_cons]
      change _ = (compare c.toNat d.toNat).then (compareText a b)
      rw [← hrest, value, value, hlength]
      rw [hlength] at hlta
      rcases Nat.lt_trichotomy c.toNat d.toNat with h | h | h
      · have hdigit : digitValue c < digitValue d := by unfold digitValue; omega
        rw [Nat.compare_eq_lt.mpr h, Nat.compare_eq_lt.mpr (mul_add_lt hdigit hlta)]
        rfl
      · have hdigit : digitValue c = digitValue d := by unfold digitValue; omega
        rw [Nat.compare_eq_eq.mpr h, hdigit, compare_add_left]
        rfl
      · have hdigit : digitValue d < digitValue c := by unfold digitValue; omega
        rw [Nat.compare_eq_gt.mpr h, Nat.compare_eq_gt.mpr (mul_add_lt hdigit hltb)]
        rfl

theorem isNumber_iff {s : List Char} :
    isNumber s = true ↔ s ≠ [] ∧ numeric s = true ∧ (s.head? ≠ some '0' ∨ s = ['0']) := by
  rw [isNumber, Bool.and_eq_true, Bool.and_eq_true, Bool.or_eq_true, decide_eq_true_eq,
    decide_eq_true_eq, decide_eq_true_eq, and_assoc]

/-- A longer number is greater. -/
theorem value_lt_of_length (ha : numeric a = true) (hb : isNumber b = true) (hne : a ≠ [])
    (hlength : a.length < b.length) : value a < value b := by
  obtain ⟨-, hnumeric, hhead⟩ := isNumber_iff.mp hb
  cases b with
  | nil => exact absurd hlength (Nat.not_lt_zero _)
  | cons d b =>
    have hpos : 0 < a.length := length_pos_of_ne_nil hne
    have hd : d ≠ '0' := by
      rintro rfl
      rcases hhead with h | h
      · exact h rfl
      · rw [h, length_singleton] at hlength
        omega
    calc value a < 10 ^ a.length := value_lt ha
      _ ≤ 10 ^ b.length := Nat.pow_le_pow_right (by decide) (Nat.le_of_lt_succ hlength)
      _ ≤ value (d :: b) := le_value (numeric_cons.mp hnumeric).1 hd

/-- The length and then the text of numbers give the order of their values. -/
theorem compareIdentifier_number (ha : isNumber a = true) (hb : isNumber b = true) :
    compareIdentifier a b = compare (value a) (value b) := by
  obtain ⟨hane, hanumeric, -⟩ := isNumber_iff.mp ha
  obtain ⟨hbne, hbnumeric, -⟩ := isNumber_iff.mp hb
  rw [compareIdentifier, hanumeric, hbnumeric, if_neg (not_not_intro rfl)]
  by_cases hlength : a.length = b.length
  · rw [if_neg fun h => h.2 hlength, compare_value_of_length hanumeric hbnumeric hlength]
  · rw [if_pos ⟨rfl, hlength⟩]
    rcases Nat.lt_or_gt_of_ne hlength with h | h
    · rw [if_pos h, Nat.compare_eq_lt.mpr (value_lt_of_length hanumeric hb hane h)]
    · rw [if_neg (Nat.not_lt_of_gt h), Nat.compare_eq_gt.mpr (value_lt_of_length hbnumeric ha hbne h)]

theorem value_injective (ha : isNumber a = true) (hb : isNumber b = true) (h : value a = value b) :
    a = b := by
  obtain ⟨hane, hanumeric, -⟩ := isNumber_iff.mp ha
  obtain ⟨hbne, hbnumeric, -⟩ := isNumber_iff.mp hb
  rcases Nat.lt_trichotomy a.length b.length with hlength | hlength | hlength
  · exact absurd h (Nat.ne_of_lt (value_lt_of_length hanumeric hb hane hlength))
  · have hcompare := compare_value_of_length hanumeric hbnumeric hlength
    rw [Nat.compare_eq_eq.mpr h] at hcompare
    exact (cmp_eq_iff compareText).mp hcompare.symm
  · exact absurd h.symm (Nat.ne_of_lt (value_lt_of_length hbnumeric ha hbne hlength))

/-! ### The meaning of a version -/

/-- An identifier of a prerelease that a version may have. -/
def IsIdentifier (s : List Char) : Prop := s ≠ [] ∧ (numeric s = true → isNumber s = true)

def identifier (s : List Char) : Identifier := if numeric s then .number (value s) else .text s

def meaning (v : Version) : SemVer := ⟨v.core.map value, v.prerelease.map identifier⟩

/-- What the pattern and the check of leading zeros leave of a version. -/
structure Accepted (v : Version) : Prop where
  length_core : v.core.length = 3
  number : ∀ s ∈ v.core, isNumber s = true
  identifier : ∀ s ∈ v.prerelease, IsIdentifier s

theorem compareIdentifier_eq_order (ha : IsIdentifier a) (hb : IsIdentifier b) :
    compareIdentifier a b = (identifier a).order (identifier b) := by
  unfold identifier
  cases hanumeric : numeric a with
  | true =>
    cases hbnumeric : numeric b with
    | true => exact compareIdentifier_number (ha.2 hanumeric) (hb.2 hbnumeric)
    | false =>
      rw [compareIdentifier, hanumeric, hbnumeric]
      rfl
  | false =>
    cases hbnumeric : numeric b with
    | true =>
      rw [compareIdentifier, hanumeric, hbnumeric]
      rfl
    | false =>
      rw [compareIdentifier, hanumeric, hbnumeric]
      rfl

theorem identifier_injective (ha : IsIdentifier a) (hb : IsIdentifier b)
    (h : identifier a = identifier b) : a = b := by
  unfold identifier at h
  split_ifs at h with hanumeric hbnumeric hbnumeric
  · exact value_injective (ha.2 hanumeric) (hb.2 hbnumeric) (Identifier.number.inj h)
  · exact Identifier.text.inj h

/-- The first difference of two lists, and then their lengths, are their lexicographic order. -/
theorem compareParts_then {β : Type} {cmp : β → β → Ordering} {f : List Char → β}
    {P : List Char → Prop} (hcmp : ∀ a b, P a → P b → compareIdentifier a b = cmp (f a) (f b))
    {as bs : List (List Char)} (has : ∀ a ∈ as, P a) (hbs : ∀ b ∈ bs, P b) :
    (compareParts as bs).then (compare as.length bs.length) =
      (as.map f).compareLex cmp (bs.map f) := by
  induction as generalizing bs with
  | nil =>
    cases bs with
    | nil => rfl
    | cons b bs =>
      rw [map_nil, map_cons, List.compareLex_nil_cons, compareParts, Ordering.eq_then]
      exact Nat.compare_eq_lt.mpr (Nat.succ_pos _)
      all_goals exact nofun
  | cons a as ih =>
    cases bs with
    | nil =>
      rw [map_nil, map_cons, List.compareLex_cons_nil, compareParts, Ordering.eq_then]
      exact Nat.compare_eq_gt.mpr (Nat.succ_pos _)
      all_goals exact nofun
    | cons b bs =>
      have hrest : (compareParts as bs).then (compare as.length bs.length) =
          (as.map f).compareLex cmp (bs.map f) :=
        ih (fun x hx => has x (mem_cons_of_mem a hx))
          fun x hx => hbs x (mem_cons_of_mem b hx)
      have hlength : compare (a :: as).length (b :: bs).length = compare as.length bs.length := by
        rw [length_cons, length_cons, Nat.add_comm, Nat.add_comm bs.length]
        exact compare_add_left 1 _ _
      rw [map_cons, map_cons, List.compareLex_cons_cons, compareParts, if_ne_eq_then,
        hcmp a b (has a mem_cons_self) (hbs b mem_cons_self), Ordering.then_assoc, hlength, hrest]

variable {v w current version : Version}

theorem compareVersion_eq_precedence (hv : Accepted v) (hw : Accepted w) :
    compareVersion v w = precedence (meaning v) (meaning w) := by
  have hcore : compareParts v.core w.core =
      (v.core.map value).compareLex compare (w.core.map value) := by
    rw [← compareParts_then (fun _ _ => compareIdentifier_number) hv.number hw.number,
      hv.length_core, hw.length_core]
    cases compareParts v.core w.core <;> rfl
  rw [compareVersion, precedence, if_ne_eq_then, hcore]
  congr 1
  change _ = prereleaseOrder (v.prerelease.map identifier) (w.prerelease.map identifier)
  cases hvp : v.prerelease with
  | nil => cases w.prerelease <;> rfl
  | cons i is =>
    cases hwp : w.prerelease with
    | nil => rfl
    | cons j js =>
      have hempty : (i :: is).isEmpty = (j :: js).isEmpty := rfl
      rw [if_neg (not_not_intro hempty), if_ne_eq_then]
      exact compareParts_then (fun _ _ => compareIdentifier_eq_order)
        (fun x hx => hv.identifier x (hvp ▸ hx)) fun x hx => hw.identifier x (hwp ▸ hx)

theorem map_injective_on {β : Type} {f : List Char → β} {P : List Char → Prop}
    (hf : ∀ a b, P a → P b → f a = f b → a = b) {as bs : List (List Char)} (has : ∀ a ∈ as, P a)
    (hbs : ∀ b ∈ bs, P b) (h : as.map f = bs.map f) : as = bs := by
  induction as generalizing bs with
  | nil => exact (map_eq_nil_iff.mp h.symm).symm
  | cons a as ih =>
    cases bs with
    | nil => cases h
    | cons b bs =>
      obtain ⟨hhead, htail⟩ := List.cons.inj h
      rw [hf a b (has a mem_cons_self) (hbs b mem_cons_self) hhead,
        ih (fun x hx => has x (mem_cons_of_mem a hx))
          (fun x hx => hbs x (mem_cons_of_mem b hx)) htail]

theorem meaning_injective (hv : Accepted v) (hw : Accepted w) (h : meaning v = meaning w) :
    v = w := by
  have hcore : v.core = w.core := map_injective_on (fun _ _ => value_injective) hv.number hw.number
    (congrArg SemVer.core h)
  have hprerelease : v.prerelease = w.prerelease := map_injective_on
    (fun _ _ => identifier_injective) hv.identifier hw.identifier (congrArg SemVer.prerelease h)
  cases v
  cases w
  cases hcore
  cases hprerelease
  rfl

theorem compareVersion_eq_eq (hv : Accepted v) (hw : Accepted w) :
    compareVersion v w = .eq ↔ v = w := by
  rw [compareVersion_eq_precedence hv hw, cmp_eq_iff precedence]
  constructor
  · exact meaning_injective hv hw
  · intro h
    rw [h]

theorem compareVersion_swap (hv : Accepted v) (hw : Accepted w) :
    compareVersion v w = (compareVersion w v).swap := by
  rw [compareVersion_eq_precedence hv hw, compareVersion_eq_precedence hw hv]
  exact cmp_swap precedence _ _

theorem compareVersion_trans {u : Version} (hu : Accepted u) (hv : Accepted v) (hw : Accepted w)
    (huv : compareVersion u v = .lt) (hvw : compareVersion v w = .lt) :
    compareVersion u w = .lt := by
  rw [compareVersion_eq_precedence hu hv] at huv
  rw [compareVersion_eq_precedence hv hw] at hvw
  rw [compareVersion_eq_precedence hu hw]
  exact TransCmp.lt_trans huv hvw

/-! ### Texts of versions -/

def hasLeadingZero (part : List Char) : Bool :=
  1 < part.length && part.head? = some '0' && numeric part

theorem parseVersion_eq_some (h : parseVersion text = some v) :
    ∃ captured, pattern text = some (v.core, captured) ∧
      v.prerelease = (if captured = [] then [] else captured.splitOn '.') ∧
      v.prerelease.any hasLeadingZero = false := by
  unfold parseVersion at h
  cases hpattern : pattern text with
  | none => rw [hpattern] at h; cases h
  | some groups =>
    obtain ⟨core, captured⟩ := groups
    rw [hpattern] at h
    dsimp only at h
    generalize hprerelease : (if captured = [] then [] else captured.splitOn '.') = prerelease at h
    split_ifs at h with hlength hzero
    cases h
    exact ⟨captured, rfl, hprerelease.symm, Bool.eq_false_iff.mpr hzero⟩

theorem pattern_eq_some {captured : List Char} {core : List (List Char)}
    (h : pattern text = some (core, captured)) :
    core = ((body text).takeWhile (· ≠ '-')).splitOn '.' ∧ core.length = 3 ∧
      core.all isNumber = true ∧
      ((body text).dropWhile (· ≠ '-') = [] ∧ captured = [] ∨
        captured ≠ [] ∧ (body text).dropWhile (· ≠ '-') = '-' :: captured ∧
          ∀ part ∈ captured.splitOn '.', part ≠ [] ∧ part.all isIdentifierChar = true) := by
  unfold pattern at h
  dsimp only at h
  split_ifs at h with hnumbers
  cases hrest : (body text).dropWhile (· ≠ '-') with
  | nil =>
    rw [hrest] at h
    cases h
    exact ⟨rfl, hnumbers.1, hnumbers.2, .inl ⟨rfl, rfl⟩⟩
  | cons c tail =>
    rw [hrest] at h
    dsimp only at h
    split_ifs at h with hparts
    cases h
    have hc : c = '-' := by
      have hhead := List.head?_dropWhile_not (· ≠ '-') (body text)
      rw [hrest, List.head?_cons] at hhead
      simpa using hhead
    have hall : ∀ part ∈ captured.splitOn '.', part ≠ [] ∧ part.all isIdentifierChar = true := by
      intro part hpart
      have hpart := all_eq_true.mp hparts part hpart
      rw [Bool.and_eq_true, decide_eq_true_eq] at hpart
      exact hpart
    refine ⟨rfl, hnumbers.1, hnumbers.2, .inr ⟨?_, by rw [hc], hall⟩⟩
    rintro rfl
    exact (hall [] (by rw [splitOn_nil]; exact mem_singleton_self [])).1 rfl

theorem accepted_of_parseVersion (h : parseVersion text = some v) : Accepted v := by
  obtain ⟨captured, hpattern, hprerelease, hzero⟩ := parseVersion_eq_some h
  obtain ⟨-, hlength, hnumber, hcaptured⟩ := pattern_eq_some hpattern
  refine ⟨hlength, all_eq_true.mp hnumber, fun part hpart => ?_⟩
  have hne : part ≠ [] := by
    rw [hprerelease] at hpart
    rcases hcaptured with ⟨-, rfl⟩ | ⟨hcaptured, -, hparts⟩
    · rw [if_pos rfl] at hpart
      cases hpart
    · rw [if_neg hcaptured] at hpart
      exact (hparts part hpart).1
  refine ⟨hne, fun hnumeric => isNumber_iff.mpr ⟨hne, hnumeric, ?_⟩⟩
  have hnot : hasLeadingZero part = false := by
    by_contra h
    exact Bool.eq_false_iff.mp hzero (any_eq_true.mpr ⟨part, hpart, Bool.eq_true_of_not_eq_false h⟩)
  by_cases hhead : part.head? = some '0'
  · refine .inr ?_
    rw [hasLeadingZero, hhead, hnumeric] at hnot
    have hone : part.length ≤ 1 := by simpa using hnot
    cases part with
    | nil => exact absurd rfl hne
    | cons c rest =>
      rw [length_cons] at hone
      rw [eq_nil_of_length_eq_zero (show rest.length = 0 by omega), Option.some.inj hhead]
  · exact .inl hhead

/-- Where the numbers end: at the end of the text, or at a hyphen and the prerelease. -/
def tail (prerelease : List (List Char)) : List Char :=
  if prerelease = [] then [] else '-' :: ['.'].intercalate prerelease

theorem body_of_parseVersion (h : parseVersion text = some v) :
    body text = ['.'].intercalate v.core ++ tail v.prerelease := by
  obtain ⟨captured, hpattern, hprerelease, -⟩ := parseVersion_eq_some h
  obtain ⟨hcore, -, -, hcaptured⟩ := pattern_eq_some hpattern
  have htail : (body text).dropWhile (· ≠ '-') = tail v.prerelease := by
    rcases hcaptured with ⟨hrest, rfl⟩ | ⟨hne, hrest, -⟩
    · rw [hrest, hprerelease]
      rfl
    · rw [hrest, hprerelease, if_neg hne, tail, if_neg (splitOn_ne_nil _ _), intercalate_splitOn]
  rw [hcore, intercalate_splitOn, ← htail, takeWhile_append_dropWhile]

/-- Two texts are the same version if and only if they differ at most in a line feed at the end. -/
theorem eq_iff_body (ha : parseVersion a = some v) (hb : parseVersion b = some w) :
    v = w ↔ body a = body b := by
  constructor
  · rintro rfl
    rw [body_of_parseVersion ha, body_of_parseVersion hb]
  · intro h
    obtain ⟨captured, hpattern, hprerelease, -⟩ := parseVersion_eq_some ha
    obtain ⟨captured', hpattern', hprerelease', -⟩ := parseVersion_eq_some hb
    have hsame : pattern a = pattern b := by rw [pattern, pattern, h]
    rw [hpattern, hpattern'] at hsame
    obtain ⟨hcore, rfl⟩ := Prod.mk.inj (Option.some.inj hsame)
    cases v
    cases w
    cases hcore
    cases hprerelease.trans hprerelease'.symm
    rfl

theorem not_mem_splitOn_parts {P : Char → Prop} {c : Char} (hdot : c ≠ '.')
    (hparts : ∀ part ∈ text.splitOn '.', ∀ x ∈ part, P x) (hc : ¬ P c) : c ∉ text := by
  intro hmem
  rw [← show ['.'].intercalate (text.splitOn '.') = text from intercalate_splitOn _] at hmem
  rcases mem_of_mem_intercalate hmem with hmem | ⟨part, hpart, hmem⟩
  · exact hdot (mem_singleton.mp hmem)
  · exact hc (hparts part hpart c hmem)

/-- The pattern lets no line feed pass but the last one. -/
theorem newline_not_mem_body (h : parseVersion text = some v) : '\n' ∉ body text := by
  obtain ⟨captured, hpattern, -, -⟩ := parseVersion_eq_some h
  obtain ⟨hcore, -, hnumber, hcaptured⟩ := pattern_eq_some hpattern
  rw [← takeWhile_append_dropWhile (p := (· ≠ '-')) (l := body text), mem_append, not_or]
  constructor
  · refine not_mem_splitOn_parts (P := fun c => isDigit c = true) (by decide) ?_ (by decide)
    intro part hpart x hx
    rw [← hcore] at hpart
    exact all_eq_true.mp (isNumber_iff.mp (all_eq_true.mp hnumber part hpart)).2.1 x hx
  · rcases hcaptured with ⟨hrest, -⟩ | ⟨-, hrest, hparts⟩
    · rw [hrest]
      exact not_mem_nil
    · rw [hrest, mem_cons, not_or]
      refine ⟨by decide, not_mem_splitOn_parts (P := fun c => isIdentifierChar c = true)
        (by decide) ?_ (by decide)⟩
      intro part hpart x hx
      exact all_eq_true.mp (hparts part hpart).2 x hx

theorem body_concat (text : List Char) : body (text ++ ['\n']) = text := by
  rw [body, List.getLast?_concat, if_pos rfl, dropLast_concat]

/-- Texts of the same version differ in a line feed at most. -/
theorem eq_or_of_body (h : body a = body b) : a = b ∨ a = b ++ ['\n'] ∨ b = a ++ ['\n'] := by
  unfold body at h
  split_ifs at h with ha hb hb
  · obtain ⟨a', rfl⟩ := List.getLast?_eq_some_iff.mp ha
    obtain ⟨b', rfl⟩ := List.getLast?_eq_some_iff.mp hb
    rw [dropLast_concat, dropLast_concat] at h
    exact .inl (by rw [h])
  · obtain ⟨a', rfl⟩ := List.getLast?_eq_some_iff.mp ha
    rw [dropLast_concat] at h
    exact .inr (.inl (by rw [h]))
  · obtain ⟨b', rfl⟩ := List.getLast?_eq_some_iff.mp hb
    rw [dropLast_concat] at h
    exact .inr (.inr (by rw [h]))
  · exact .inl h

/-- A text is accepted with a line feed behind it as well. -/
def Twins (texts : List (List Char)) : Prop := ∃ text ∈ texts, text ++ ['\n'] ∈ texts

/-! ### The release that is selected -/

/-- The release is looked at: it is no draft, it has a version and its own page, and it is no
prerelease if the current version is none. -/
structure Eligible (current : Version) (release : JsonObject) (version : Version) : Prop where
  not_draft : release.get "draft" = .bool false
  parsed : ∃ text, tagName release = String.ofList ('v' :: text) ∧ parseVersion text = some version
  page : (release.get "html_url").toStr = RELEASE_ROOT ++ "tag/" ++ tagName release
  not_prerelease : current.prerelease = [] →
    version.prerelease = [] ∧ release.get "prerelease" ≠ .bool true

theorem toBoolOr_true_eq_false {json : Json} : toBoolOr true json = false ↔ json = .bool false := by
  cases json <;> simp [toBoolOr]

theorem toBoolOr_false_eq_true {json : Json} : toBoolOr false json = true ↔ json = .bool true := by
  cases json <;> simp [toBoolOr]

theorem versionText_eq_some {tag : String} :
    versionText tag = some text ↔ tag = String.ofList ('v' :: text) := by
  unfold versionText
  constructor
  · intro h
    split at h
    · rename_i rest hlist
      cases h
      rw [← hlist, String.ofList_toList]
    · cases h
  · rintro rfl
    simp only [String.toList_ofList]

theorem recognize_eq_some {release : JsonObject} :
    recognize current release = some version ↔ Eligible current release version := by
  unfold recognize
  constructor
  · intro h
    by_cases hdraft : toBoolOr true (release.get "draft") = true
    · rw [if_pos hdraft] at h
      cases h
    rw [if_neg hdraft] at h
    cases hparse : (versionText (tagName release)).bind parseVersion with
    | none => rw [hparse] at h; cases h
    | some version' =>
      rw [hparse] at h
      dsimp only at h
      split_ifs at h with hpage hprerelease
      cases h
      obtain ⟨text, htext, hparsed⟩ := Option.bind_eq_some_iff.mp hparse
      refine ⟨toBoolOr_true_eq_false.mp (Bool.eq_false_iff.mpr hdraft),
        ⟨text, versionText_eq_some.mp htext, hparsed⟩, not_not.mp hpage, fun hcurrent => ?_⟩
      rw [hcurrent, isEmpty_nil, not_and_or, not_or, not_not, toBoolOr_false_eq_true,
        List.isEmpty_iff] at hprerelease
      exact hprerelease.resolve_left (not_not_intro rfl)
  · rintro ⟨hdraft, ⟨text, htag, hparsed⟩, hpage, hprerelease⟩
    rw [if_neg (Bool.eq_false_iff.mp (toBoolOr_true_eq_false.mpr hdraft)),
      versionText_eq_some.mpr htag, Option.bind_some, hparsed]
    dsimp only
    rw [if_neg (not_not_intro hpage), if_neg]
    rintro ⟨hcurrent, hprerelease'⟩
    obtain ⟨hversion, hflag⟩ := hprerelease (List.isEmpty_iff.mp hcurrent)
    rcases hprerelease' with h | h
    · exact h (List.isEmpty_iff.mpr hversion)
    · exact hflag (toBoolOr_false_eq_true.mp h)

theorem Eligible.accepted {release : JsonObject} (h : Eligible current release version) :
    Accepted version := by
  obtain ⟨text, -, hparsed⟩ := h.parsed
  exact accepted_of_parseVersion hparsed

/-- A release that is looked at has fields. -/
theorem Eligible.ne_nil {release : JsonObject} (h : Eligible current release version) :
    release ≠ [] := by
  rintro rfl
  have hdraft := h.not_draft
  cases hdraft

/-- What the loop knows of the releases it has looked at. -/
structure Selects (current : Version) (values : List Json) (s : Selection) : Prop where
  recognized : s.recognized = true ↔ ∃ value ∈ values, ∃ v, Eligible current value.toObject v
  accepted : Accepted s.highest
  best : s.selected = [] ∧ s.highest = current ∨
    ∃ value ∈ values, s.selected = value.toObject ∧
      Eligible current value.toObject s.highest ∧ compareVersion current s.highest = .lt
  upper : ∀ value ∈ values, ∀ v, Eligible current value.toObject v →
    (compareVersion v s.highest).isLE

theorem isLE_compareVersion_trans {u : Version} (hu : Accepted u) (hv : Accepted v)
    (hw : Accepted w) (huv : (compareVersion u v).isLE) (hvw : (compareVersion v w).isLE) :
    (compareVersion u w).isLE := by
  rw [compareVersion_eq_precedence hu hv] at huv
  rw [compareVersion_eq_precedence hv hw] at hvw
  rw [compareVersion_eq_precedence hu hw]
  exact cmp_isLE_trans precedence huv hvw

theorem compareVersion_gt_iff (hv : Accepted v) (hw : Accepted w) :
    compareVersion v w = .gt ↔ compareVersion w v = .lt := by
  rw [compareVersion_swap hv hw]
  cases compareVersion w v <;> decide

variable {values : List Json}

theorem exists_mem_concat {value : Json} {P : Json → Prop} :
    (∃ x ∈ values ++ [value], P x) ↔ (∃ x ∈ values, P x) ∨ P value := by
  simp only [mem_append, mem_singleton, or_and_right, exists_or, exists_eq_left]

theorem forall_mem_concat {value : Json} {P : Json → Prop} :
    (∀ x ∈ values ++ [value], P x) ↔ (∀ x ∈ values, P x) ∧ P value := by
  simp only [mem_append, mem_singleton, or_imp, forall_and, forall_eq]

theorem Selects.step (hcurrent : Accepted current) {s : Selection} (h : Selects current values s)
    (value : Json) : Selects current (values ++ [value]) (consider current s value) := by
  unfold consider
  dsimp only
  cases hrecognize : recognize current value.toObject with
  | none =>
    have hnot : ∀ v, ¬ Eligible current value.toObject v := by
      intro v hv
      rw [recognize_eq_some.mpr hv] at hrecognize
      cases hrecognize
    refine ⟨?_, h.accepted, ?_, ?_⟩
    · rw [exists_mem_concat, or_iff_left fun ⟨v, hv⟩ => hnot v hv]
      exact h.recognized
    · rcases h.best with hnone | hbest
      · exact .inl hnone
      · exact .inr (exists_mem_concat.mpr (.inl hbest))
    · rw [forall_mem_concat]
      exact ⟨h.upper, fun v hv => absurd hv (hnot v)⟩
  | some version =>
    have heligible := recognize_eq_some.mp hrecognize
    have hsame : ∀ v, Eligible current value.toObject v → v = version := by
      intro v hv
      rw [recognize_eq_some.mpr hv] at hrecognize
      exact Option.some.inj hrecognize
    have hrecognized : ∃ x ∈ values ++ [value], ∃ v, Eligible current x.toObject v :=
      exists_mem_concat.mpr (.inr ⟨version, heligible⟩)
    dsimp only
    split_ifs with hgt
    · -- the new version is above the highest one so far, and so above all others
      have hlt := (compareVersion_gt_iff heligible.accepted h.accepted).mp hgt
      refine ⟨iff_of_true rfl hrecognized, heligible.accepted, .inr ?_, ?_⟩
      · refine exists_mem_concat.mpr (.inr ⟨rfl, heligible, ?_⟩)
        rcases h.best with ⟨-, hhighest⟩ | ⟨-, -, -, -, hbelow⟩
        · rw [← hhighest]
          exact hlt
        · exact compareVersion_trans hcurrent h.accepted heligible.accepted hbelow hlt
      · refine forall_mem_concat.mpr ⟨fun x hx v hv => ?_, fun v hv => ?_⟩
        · exact isLE_compareVersion_trans hv.accepted h.accepted heligible.accepted
            (h.upper x hx v hv) (by rw [hlt]; rfl)
        · rw [hsame v hv, (compareVersion_eq_eq heligible.accepted heligible.accepted).mpr rfl]
          rfl
    · refine ⟨iff_of_true rfl hrecognized, h.accepted, ?_, ?_⟩
      · rcases h.best with hnone | hbest
        · exact .inl hnone
        · exact .inr (exists_mem_concat.mpr (.inl hbest))
      · refine forall_mem_concat.mpr ⟨h.upper, fun v hv => ?_⟩
        rw [hsame v hv, Ordering.isLE_iff_ne_gt]
        exact hgt

theorem selects_foldl (hcurrent : Accepted current) (values : List Json) :
    Selects current values (values.foldl (consider current) ⟨[], current, false⟩) := by
  induction values using List.reverseRecOn with
  | nil =>
    refine ⟨⟨nofun, ?_⟩, hcurrent, .inl ⟨rfl, rfl⟩, forall_mem_nil _⟩
    rintro ⟨value, hmem, -⟩
    cases hmem
  | append_singleton values value ih =>
    rw [foldl_append]
    exact ih.step hcurrent value

/-- The outcome for a list of releases: the highest version that may be offered, if it is above the
current one. -/
def Highest (current : Version) (values : List Json) : Outcome → Prop
  | .invalidMetadata => values = []
  | .noReleases => values ≠ [] ∧ ∀ value ∈ values, ∀ v, ¬ Eligible current value.toObject v
  | .upToDate => (∃ value ∈ values, ∃ v, Eligible current value.toObject v) ∧
      ∀ value ∈ values, ∀ v, Eligible current value.toObject v → (compareVersion v current).isLE
  | .selected release => ∃ value ∈ values, ∃ version, release = value.toObject ∧
      Eligible current release version ∧ compareVersion current version = .lt ∧
      ∀ other ∈ values, ∀ v, Eligible current other.toObject v → (compareVersion v version).isLE

theorem readReleases_highest (hcurrent : parseVersion qbuttVersion = some current)
    (hlength : values.length ≤ 100) :
    Highest current values (readReleases qbuttVersion (.array values)) := by
  have haccepted := accepted_of_parseVersion hcurrent
  have harray : (Json.array values).toArray = values := rfl
  unfold readReleases
  rw [hcurrent, harray]
  dsimp only
  by_cases hempty : values = []
  · rw [if_pos (.inr (.inl hempty))]
    exact hempty
  rw [if_neg (by
    rintro (h | h | h)
    · exact Bool.noConfusion h
    · exact hempty h
    · exact absurd hlength (Nat.not_le_of_gt h))]
  have hselects := selects_foldl haccepted values
  generalize values.foldl (consider current) ⟨[], current, false⟩ = s at hselects
  split_ifs with hrecognized hselected
  · refine ⟨hempty, fun value hvalue v hv => ?_⟩
    have htrue := hselects.recognized.mpr ⟨value, hvalue, v, hv⟩
    rw [hrecognized] at htrue
    cases htrue
  · rcases hselects.best with ⟨-, hhighest⟩ | ⟨value, -, hvalue, heligible, -⟩
    · refine ⟨hselects.recognized.mp (Bool.eq_true_of_not_eq_false hrecognized), ?_⟩
      have hupper := hselects.upper
      rw [hhighest] at hupper
      exact hupper
    · exact absurd (hvalue.symm.trans (List.isEmpty_iff.mp hselected)) heligible.ne_nil
  · rcases hselects.best with ⟨hnone, -⟩ | ⟨value, hmem, hvalue, heligible, hlt⟩
    · exact absurd (List.isEmpty_iff.mpr hnone) hselected
    · refine ⟨value, hmem, s.highest, hvalue, ?_, hlt, hselects.upper⟩
      rw [hvalue]
      exact heligible

/-! ### The order of the releases -/

/-- The accepted texts among the current version and the tags of the releases. -/
def texts (qbuttVersion : List Char) (values : List Json) : List (List Char) :=
  (qbuttVersion :: values.filterMap fun value => versionText (tagName value.toObject)).filter
    fun text => (parseVersion text).isSome

/-- Versions are totally ordered by precedence, equal only if their texts are, and the outcome is the
highest release in whatever order the releases come. -/
structure Precise (qbuttVersion : List Char) (current : Version) (values : List Json) : Prop where
  semver : ∀ a b v w, parseVersion a = some v → parseVersion b = some w →
    compareVersion v w = precedence (meaning v) (meaning w)
  swap : ∀ a b v w, parseVersion a = some v → parseVersion b = some w →
    compareVersion v w = (compareVersion w v).swap
  trans : ∀ a b c u v w, parseVersion a = some u → parseVersion b = some v →
    parseVersion c = some w → compareVersion u v = .lt → compareVersion v w = .lt →
    compareVersion u w = .lt
  equal : ∀ a ∈ texts qbuttVersion values, ∀ b ∈ texts qbuttVersion values, ∀ v w,
    parseVersion a = some v → parseVersion b = some w → (compareVersion v w = .eq ↔ a = b)
  highest : Highest current values (readReleases qbuttVersion (.array values))
  same : ∀ values' : List Json, values'.Perm values →
    readReleases qbuttVersion (.array values') = readReleases qbuttVersion (.array values)

theorem Highest.congr {values' : List Json} (hmem : ∀ value, value ∈ values ↔ value ∈ values')
    {outcome : Outcome} (h : Highest current values outcome) : Highest current values' outcome := by
  have hnil : values = [] ↔ values' = [] := by
    simp only [eq_nil_iff_forall_not_mem, hmem]
  cases outcome with
  | invalidMetadata => exact hnil.mp h
  | noReleases => exact ⟨fun h' => h.1 (hnil.mpr h'), fun value hvalue => h.2 value ((hmem value).mpr hvalue)⟩
  | upToDate =>
    obtain ⟨⟨value, hvalue, heligible⟩, hupper⟩ := h
    exact ⟨⟨value, (hmem value).mp hvalue, heligible⟩,
      fun other hother => hupper other ((hmem other).mpr hother)⟩
  | selected release =>
    obtain ⟨value, hvalue, version, hrelease, heligible, hlt, hupper⟩ := h
    exact ⟨value, (hmem value).mp hvalue, version, hrelease, heligible, hlt,
      fun other hother => hupper other ((hmem other).mpr hother)⟩

def Outcome.looked : Outcome → Bool
  | invalidMetadata | noReleases => false
  | upToDate | selected _ => true

theorem Highest.looked_iff {o : Outcome} (h : Highest current values o) :
    o.looked = true ↔ ∃ value ∈ values, ∃ v, Eligible current value.toObject v := by
  cases o with
  | invalidMetadata =>
    refine ⟨nofun, ?_⟩
    rintro ⟨value, hvalue, -⟩
    rw [show values = [] from h] at hvalue
    cases hvalue
  | noReleases =>
    refine ⟨nofun, ?_⟩
    rintro ⟨value, hvalue, v, hv⟩
    exact absurd hv (h.2 value hvalue v)
  | upToDate => exact ⟨fun _ => h.1, fun _ => rfl⟩
  | selected release =>
    obtain ⟨value, hvalue, version, rfl, heligible, -⟩ := h
    exact ⟨fun _ => ⟨value, hvalue, version, heligible⟩, fun _ => rfl⟩

theorem compareVersion_antisymm (hv : Accepted v) (hw : Accepted w)
    (hvw : (compareVersion v w).isLE) (hwv : (compareVersion w v).isLE) : v = w := by
  rw [← compareVersion_eq_eq hv hw]
  rw [compareVersion_swap hw hv] at hwv
  cases hcompare : compareVersion v w with
  | lt => rw [hcompare] at hwv; cases hwv
  | eq => rfl
  | gt => rw [hcompare] at hvw; cases hvw

theorem not_isLE_of_lt (hv : Accepted v) (hw : Accepted w) (hlt : compareVersion v w = .lt) :
    ¬ (compareVersion w v).isLE := by
  rw [compareVersion_swap hw hv, hlt]
  exact Bool.false_ne_true

/-- If no two releases that are looked at have the same version, there is one outcome. -/
theorem Highest.unique (hcurrent : Accepted current)
    (hdistinct : ∀ x ∈ values, ∀ y ∈ values, ∀ v, Eligible current x.toObject v →
      Eligible current y.toObject v → x.toObject = y.toObject) {o o' : Outcome}
    (h : Highest current values o) (h' : Highest current values o') : o = o' := by
  have hlooked : o.looked = o'.looked := Bool.eq_iff_iff.mpr (h.looked_iff.trans h'.looked_iff.symm)
  cases o with
  | invalidMetadata =>
    cases o' with
    | invalidMetadata => rfl
    | noReleases => exact absurd h h'.1
    | upToDate | selected => cases hlooked
  | noReleases =>
    cases o' with
    | invalidMetadata => exact absurd h' h.1
    | noReleases => rfl
    | upToDate | selected => cases hlooked
  | upToDate =>
    cases o' with
    | invalidMetadata | noReleases => cases hlooked
    | upToDate => rfl
    | selected release =>
      obtain ⟨value, hvalue, version, rfl, heligible, hlt, -⟩ := h'
      exact absurd (h.2 value hvalue version heligible)
        (not_isLE_of_lt hcurrent heligible.accepted hlt)
  | selected release =>
    obtain ⟨value, hvalue, version, rfl, heligible, hlt, hupper⟩ := h
    cases o' with
    | invalidMetadata | noReleases => cases hlooked
    | upToDate =>
      exact absurd (h'.2 value hvalue version heligible)
        (not_isLE_of_lt hcurrent heligible.accepted hlt)
    | selected release' =>
      obtain ⟨value', hvalue', version', rfl, heligible', -, hupper'⟩ := h'
      have hversion := compareVersion_antisymm heligible.accepted heligible'.accepted
        (hupper' value hvalue version heligible) (hupper value' hvalue' version' heligible')
      rw [← hversion] at heligible'
      rw [hdistinct value hvalue value' hvalue' version heligible heligible']

theorem mem_texts (hv : parseVersion text = some v) : text ∈ texts qbuttVersion values ↔
      text = qbuttVersion ∨ ∃ value ∈ values, tagName value.toObject = String.ofList ('v' :: text) := by
  have hsome : (parseVersion text).isSome = true := by rw [hv]; rfl
  rw [texts, mem_filter, and_iff_left hsome, mem_cons, mem_filterMap]
  refine or_congr_right (exists_congr fun value => and_congr_right fun _ => ?_)
  exact versionText_eq_some

theorem texts_unique (htwins : ¬ Twins (texts qbuttVersion values))
    (ha : a ∈ texts qbuttVersion values) (hb : b ∈ texts qbuttVersion values)
    (h : body a = body b) : a = b := by
  rcases eq_or_of_body h with rfl | rfl | rfl
  · rfl
  · exact absurd ⟨b, hb, ha⟩ htwins
  · exact absurd ⟨a, ha, hb⟩ htwins

/-- The updater does what it should if and only if no accepted text among the current version and the
tags is there with a line feed behind it as well. -/
theorem readReleases_precise_iff (qbuttVersion : List Char) (current : Version)
    (hcurrent : parseVersion qbuttVersion = some current) (values : List Json)
    (hlength : values.length ≤ 100)
    (htags : (values.map fun value => tagName value.toObject).Nodup) :
    Precise qbuttVersion current values ↔ ¬ Twins (texts qbuttVersion values) := by
  have haccepted := accepted_of_parseVersion hcurrent
  constructor
  · rintro hprecise ⟨text, htext, htwin⟩
    obtain ⟨v, hv⟩ := Option.isSome_iff_exists.mp (mem_filter.mp htext).2
    obtain ⟨w, hw⟩ := Option.isSome_iff_exists.mp (mem_filter.mp htwin).2
    have hbody : body text = body (text ++ ['\n']) := by
      have hnot := newline_not_mem_body hw
      rw [body_concat] at hnot ⊢
      exact if_neg fun hlast => hnot (mem_of_getLast? hlast)
    have hsame : compareVersion v w = .eq :=
      (compareVersion_eq_eq (accepted_of_parseVersion hv) (accepted_of_parseVersion hw)).mpr
        ((eq_iff_body hv hw).mpr hbody)
    have heq := (hprecise.equal text htext _ htwin v w hv hw).mp hsame
    exact absurd (congrArg List.length heq) (by rw [length_append]; exact Nat.succ_ne_self _ ∘ Eq.symm)
  · intro htwins
    have hdistinct : ∀ x ∈ values, ∀ y ∈ values, ∀ v, Eligible current x.toObject v →
        Eligible current y.toObject v → x.toObject = y.toObject := by
      intro x hx y hy v hxv hyv
      obtain ⟨a, hatag, ha⟩ := hxv.parsed
      obtain ⟨b, hbtag, hb⟩ := hyv.parsed
      have hab : a = b := texts_unique htwins ((mem_texts ha).mpr (.inr ⟨x, hx, hatag⟩))
        ((mem_texts hb).mpr (.inr ⟨y, hy, hbtag⟩)) ((eq_iff_body ha hb).mp rfl)
      rw [inj_on_of_nodup_map htags hx hy (hatag.trans (by rw [hab, hbtag]))]
    refine ⟨?_, ?_, ?_, ?_, readReleases_highest hcurrent hlength, ?_⟩
    · exact fun a b v w hv hw => compareVersion_eq_precedence (accepted_of_parseVersion hv)
        (accepted_of_parseVersion hw)
    · exact fun a b v w hv hw => compareVersion_swap (accepted_of_parseVersion hv)
        (accepted_of_parseVersion hw)
    · exact fun a b c u v w hu hv hw => compareVersion_trans (accepted_of_parseVersion hu)
        (accepted_of_parseVersion hv) (accepted_of_parseVersion hw)
    · intro a ha b hb v w hv hw
      rw [compareVersion_eq_eq (accepted_of_parseVersion hv) (accepted_of_parseVersion hw),
        eq_iff_body hv hw]
      exact ⟨texts_unique htwins ha hb, congrArg body⟩
    · intro values' hperm
      have hhighest : Highest current values' (readReleases qbuttVersion (.array values')) :=
        readReleases_highest hcurrent (by rw [hperm.length_eq]; exact hlength)
      exact Highest.unique haccepted hdistinct (hhighest.congr fun value => hperm.mem_iff)
        (readReleases_highest hcurrent hlength)

/-! ### Two lists of releases -/

def release (tag : String) : Json :=
  .object [("draft", .bool false), ("html_url", .string (RELEASE_ROOT ++ "tag/" ++ tag)),
    ("prerelease", .bool false), ("tag_name", .string tag)]

def oneTwoThree : Version := ⟨[['1'], ['2'], ['3']], []⟩

theorem readReleases_precise_iff_two :
    (parseVersion "1.2.3".toList = some oneTwoThree ∧
      ([release "v1.10.0", release "v1.9.0"].map fun value => tagName value.toObject).Nodup) ∧
    (Precise "1.2.3".toList oneTwoThree [release "v1.10.0", release "v1.9.0"] ↔
      ¬ Twins (texts "1.2.3".toList [release "v1.10.0", release "v1.9.0"])) :=
  ⟨⟨by decide, by decide⟩, readReleases_precise_iff "1.2.3".toList oneTwoThree (by decide)
    [release "v1.10.0", release "v1.9.0"] (by decide) (by decide)⟩

/-- The tags `v1.2.4` and `v1.2.4` with a line feed: their versions are equal and their texts are not,
and the release that comes first is the one that is selected. -/
theorem line_feed_selects_first :
    parseVersion "1.2.4".toList = parseVersion "1.2.4\n".toList ∧
      (∃ a, readReleases "1.2.3".toList (.array [release "v1.2.4", release "v1.2.4\n"]) =
        .selected a ∧ tagName a = "v1.2.4") ∧
      ∃ a, readReleases "1.2.3".toList (.array [release "v1.2.4\n", release "v1.2.4"]) =
        .selected a ∧ tagName a = "v1.2.4\n" :=
  ⟨by decide, ⟨_, rfl, rfl⟩, _, rfl, rfl⟩

end Qbutt.ReleaseUpdater
