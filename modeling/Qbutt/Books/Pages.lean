import Mathlib.Data.List.Sort
import Mathlib.Data.List.DropRight
import Mathlib.Tactic.Linarith
import Qbutt.Algorithm.Comparison
import Qbutt.Algorithm.Except

/-!
# The pages of a comic archive

`naturalOrder` goes through two names byte by byte and compares runs of digits as numbers.  It is
the order of the keys of the names (`naturalOrder_key`), so that pages can be sorted by it, and the
order of the entries of an archive matters only among names that are equal to it (`pages_sorted`).
-/

namespace Qbutt.Books

open Std List

inductive Error where
  | invalidLocalBook (message : String)
  | invalidReference
  | responseTooLarge
  deriving DecidableEq

/-- A name of an archive, as its bytes. -/
abbrev Name := List UInt8

def isAsciiDigit (byte : UInt8) : Bool := 48 ≤ byte && byte ≤ 57

def toAsciiLowercase (byte : UInt8) : UInt8 := if 65 ≤ byte && byte ≤ 90 then byte + 32 else byte

def stripZeros (digits : Name) : Name := digits.dropWhile (· == 48)

def naturalOrder : Name → Name → Ordering
  | l :: left, r :: right =>
    if isAsciiDigit l ∧ isAsciiDigit r then
      let leftEnd := ((l :: left).takeWhile isAsciiDigit).length
      let rightEnd := ((r :: right).takeWhile isAsciiDigit).length
      let leftNumber := stripZeros ((l :: left).take leftEnd)
      let rightNumber := stripZeros ((r :: right).take rightEnd)
      let order := (compare leftNumber.length rightNumber.length).then
        (leftNumber.compareLex (compareOn UInt8.toNat) rightNumber)
      if order ≠ .eq then order
      else naturalOrder ((l :: left).drop leftEnd) ((r :: right).drop rightEnd)
    else
      let order := compare (toAsciiLowercase l).toNat (toAsciiLowercase r).toNat
      if order ≠ .eq then order else naturalOrder left right
  | left, right => compare left.length right.length
  termination_by left => left.length
  decreasing_by
    · rename_i h _
      rw [takeWhile_cons_of_pos h.1, length_drop, length_cons, length_cons]
      omega
    · exact Nat.lt_succ_self _

/-- An entry of an archive; there may be no name in a known encoding. -/
structure ZipEntry where
  name : Option Name
  isDir : Bool
  size : ℕ

def maxPageBytes : ℕ := 24 * 1024 * 1024

def ascii (text : String) : Name := text.toList.map fun c => UInt8.ofNat c.toNat

def imageMediaTypeForName (name : Name) : Option String :=
  if 46 ∈ name then
    let extension := (name.reverse.takeWhile (· != 46)).reverse.map toAsciiLowercase
    if extension = ascii "png" then some "image/png"
    else if extension = ascii "jpg" ∨ extension = ascii "jpeg" then some "image/jpeg"
    else if extension = ascii "webp" then some "image/webp"
    else if extension = ascii "gif" then some "image/gif"
    else if extension = ascii "bmp" then some "image/bmp"
    else none
  else none

def pushPage (pagePaths : List Name) : Option ZipEntry → Except Error (List Name)
  | none => .error (.invalidLocalBook "The comic archive is invalid")
  | some entry =>
    match entry.name with
    | none => .error (.invalidLocalBook "The comic archive has an invalid filename")
    | some name =>
      if (imageMediaTypeForName name).isSome && !entry.isDir then
        if maxPageBytes < entry.size then .error .responseTooLarge else .ok (pagePaths ++ [name])
      else .ok pagePaths

/-- `inspect_pages`, for an archive that `check_zip` accepts; `sort_by` is stable. -/
def inspectPages (entries : List (Option ZipEntry)) : Except Error (List Name) := do
  let pagePaths ← entries.foldlM pushPage []
  let pagePaths := pagePaths.mergeSort fun left right => (naturalOrder left right).isLE
  if pagePaths.isEmpty then .error (.invalidLocalBook "The comic has no readable pages")
  else .ok pagePaths

/-! ### Keys -/

/-- What names are compared by: letters as lower ones, and for a number a zero digit, how many
digits it has without leading zeros, and these digits. -/
def key : Name → List ℕ
  | [] => []
  | c :: name =>
    if isAsciiDigit c then
      let number := stripZeros ((c :: name).takeWhile isAsciiDigit)
      48 :: number.length :: (number.map UInt8.toNat ++ key (name.dropWhile isAsciiDigit))
    else (toAsciiLowercase c).toNat :: key name
  termination_by name => name.length
  decreasing_by
    · exact Nat.lt_succ_of_le (length_dropWhile_le ..)
    · exact Nat.lt_succ_self _

variable {c : UInt8} {run run' name : Name} {entries : List (Option ZipEntry)}

theorem isAsciiDigit_iff : isAsciiDigit c = true ↔ 48 ≤ c.toNat ∧ c.toNat ≤ 57 := by
  simp only [isAsciiDigit, Bool.and_eq_true, decide_eq_true_eq, UInt8.le_iff_toNat_le]
  exact Iff.rfl

theorem toAsciiLowercase_digit (hc : isAsciiDigit c = true) : toAsciiLowercase c = c := by
  rw [isAsciiDigit_iff] at hc
  rw [toAsciiLowercase, if_neg]
  simp only [Bool.and_eq_true, decide_eq_true_eq, UInt8.le_iff_toNat_le, UInt8.toNat_ofNat]
  omega

theorem toNat_toAsciiLowercase (hc : isAsciiDigit c = false) :
    (toAsciiLowercase c).toNat < 48 ∨ 57 < (toAsciiLowercase c).toNat := by
  rw [← Bool.not_eq_true, isAsciiDigit_iff] at hc
  unfold toAsciiLowercase
  split_ifs with h
  · simp only [Bool.and_eq_true, decide_eq_true_eq, UInt8.le_iff_toNat_le, UInt8.toNat_ofNat] at h
    simp only [UInt8.toNat_add, UInt8.toNat_ofNat]
    omega
  · omega

theorem key_digit (name : Name) (hc : isAsciiDigit c = true) :
    key (c :: name) = 48 :: (stripZeros ((c :: name).takeWhile isAsciiDigit)).length ::
      ((stripZeros ((c :: name).takeWhile isAsciiDigit)).map UInt8.toNat ++
        key ((c :: name).dropWhile isAsciiDigit)) := by
  rw [key, if_pos hc, dropWhile_cons_of_pos hc]

theorem key_other (name : Name) (hc : isAsciiDigit c = false) :
    key (c :: name) = (toAsciiLowercase c).toNat :: key name := by
  rw [key, if_neg (by rw [hc]; exact Bool.false_ne_true)]

theorem compare_append {as bs : List ℕ} (as' bs' : List ℕ) (hlength : as.length = bs.length) :
    compare (as ++ as') (bs ++ bs') = (compare as bs).then (compare as' bs') := by
  induction as generalizing bs with
  | nil =>
    rw [eq_nil_of_length_eq_zero hlength.symm]
    rfl
  | cons a as ih =>
    cases bs with
    | nil => exact absurd hlength (Nat.succ_ne_zero _)
    | cons b bs =>
      rw [cons_append, cons_append, List.compare_cons_cons, List.compare_cons_cons,
        ih (Nat.succ.inj hlength), Ordering.then_assoc]

theorem compareLex_map (ds es : Name) :
    ds.compareLex (compareOn UInt8.toNat) es =
      compare (ds.map UInt8.toNat) (es.map UInt8.toNat) := by
  induction ds generalizing es with
  | nil => cases es <;> rfl
  | cons d ds ih =>
    cases es with
    | nil => rfl
    | cons e es =>
      rw [List.compareLex_cons_cons, map_cons, map_cons, List.compare_cons_cons, ih]
      rfl

theorem key_ne_nil (c : UInt8) (name : Name) : ∃ k ks, key (c :: name) = k :: ks := by
  cases hc : isAsciiDigit c with
  | true => exact ⟨_, _, key_digit name hc⟩
  | false => exact ⟨_, _, key_other name hc⟩

/-- Numbers are in the order of their keys, and what is behind equal ones decides. -/
theorem compare_numbers (left right : Name) (leftNumber rightNumber : Name) :
    compare (48 :: leftNumber.length :: (leftNumber.map UInt8.toNat ++ key left))
        (48 :: rightNumber.length :: (rightNumber.map UInt8.toNat ++ key right)) =
      ((compare leftNumber.length rightNumber.length).then
        (leftNumber.compareLex (compareOn UInt8.toNat) rightNumber)).then
          (compare (key left) (key right)) := by
  rw [List.compare_cons_cons, List.compare_cons_cons, cmp_self compare 48, Ordering.eq_then,
    Ordering.then_assoc]
  by_cases hlength : leftNumber.length = rightNumber.length
  · rw [compare_append _ _ (by rw [length_map, length_map, hlength]), compareLex_map]
  · have hne : compare leftNumber.length rightNumber.length ≠ .eq :=
      fun h => hlength (Nat.compare_eq_eq.mp h)
    rw [then_of_ne_eq hne, then_of_ne_eq hne]

theorem compare_digit_other {d : UInt8} (left right : Name) (hc : isAsciiDigit c = true)
    (hd : isAsciiDigit d = false) :
    compare (key (c :: left)) (key (d :: right)) =
        compare (toAsciiLowercase c).toNat (toAsciiLowercase d).toNat ∧
      compare (toAsciiLowercase c).toNat (toAsciiLowercase d).toNat ≠ .eq := by
  have hother := toNat_toAsciiLowercase hd
  rw [key_digit left hc, key_other right hd, toAsciiLowercase_digit hc, List.compare_cons_cons]
  rw [isAsciiDigit_iff] at hc
  rcases hother with h | h
  · rw [Nat.compare_eq_gt.mpr h, Nat.compare_eq_gt.mpr (by omega)]
    exact ⟨rfl, by decide⟩
  · rw [Nat.compare_eq_lt.mpr (by omega), Nat.compare_eq_lt.mpr (by omega)]
    exact ⟨rfl, by decide⟩

/-- Bytes that are no digits both: their order decides, or they are the same and no digits. -/
theorem compare_bytes {d : UInt8} (left right : Name)
    (hdigits : ¬ (isAsciiDigit c = true ∧ isAsciiDigit d = true)) :
    compare (key (c :: left)) (key (d :: right)) =
      (compare (toAsciiLowercase c).toNat (toAsciiLowercase d).toNat).then
        (compare (key left) (key right)) := by
  cases hc : isAsciiDigit c with
  | true =>
    have hd : isAsciiDigit d = false := Bool.eq_false_iff.mpr fun h => hdigits ⟨hc, h⟩
    obtain ⟨heq, hne⟩ := compare_digit_other left right hc hd
    rw [heq, then_of_ne_eq hne]
  | false =>
    cases hd : isAsciiDigit d with
    | true =>
      obtain ⟨heq, hne⟩ := compare_digit_other right left hd hc
      rw [cmp_swap compare (key (c :: left)), heq, ← cmp_swap, then_of_ne_eq]
      rwa [cmp_swap compare, ne_eq, Ordering.swap_eq_eq]
    | false => rw [key_other left hc, key_other right hd, List.compare_cons_cons]

theorem take_digits (name : Name) :
    name.take (name.takeWhile isAsciiDigit).length = name.takeWhile isAsciiDigit :=
  prefix_iff_eq_take.mp ( takeWhile_prefix _) |>.symm

theorem drop_digits (name : Name) :
    name.drop (name.takeWhile isAsciiDigit).length = name.dropWhile isAsciiDigit := by
  conv_lhs => arg 2; rw [← takeWhile_append_dropWhile (p := isAsciiDigit) (l := name)]
  exact drop_left

theorem naturalOrder_key (left right : Name) :
    naturalOrder left right = compare (key left) (key right) := by
  induction hn : left.length using Nat.strong_induction_on generalizing left right with
  | _ n ih =>
  subst hn
  match left, right with
  | [], [] => simp [naturalOrder, key]
  | [], d :: right =>
    obtain ⟨k, ks, hkey⟩ := key_ne_nil d right
    rw [naturalOrder, hkey, key]
    · rfl
    · rintro _ _ _ _ h
      cases h
  | c :: left, [] =>
    obtain ⟨k, ks, hkey⟩ := key_ne_nil c left
    rw [naturalOrder, hkey, key]
    · rfl
    · rintro _ _ _ _ _ h
      cases h
  | c :: left, d :: right =>
    rw [naturalOrder]
    by_cases hdigits : isAsciiDigit c = true ∧ isAsciiDigit d = true
    · have hshorter : ((c :: left).dropWhile isAsciiDigit).length < (c :: left).length := by
        rw [dropWhile_cons_of_pos hdigits.1]
        exact Nat.lt_succ_of_le (length_dropWhile_le ..)
      rw [if_pos hdigits, if_ne_eq_then, take_digits, take_digits, drop_digits, drop_digits,
        ih _ hshorter _ _ rfl, key_digit left hdigits.1, key_digit right hdigits.2, compare_numbers]
    · rw [if_neg hdigits, if_ne_eq_then, compare_bytes left right hdigits,
        ih _ (Nat.lt_succ_self _) _ _ rfl]

/-! ### Equal names -/

/-- The name with lower letters and numbers without leading zeros, a run of zeros being replaced by
`zero`. -/
def simplified (zero : Name) : Name → Name
  | [] => []
  | c :: name =>
    if isAsciiDigit c then
      let number := stripZeros ((c :: name).takeWhile isAsciiDigit)
      (if number = [] then zero else number) ++ simplified zero (name.dropWhile isAsciiDigit)
    else toAsciiLowercase c :: simplified zero name
  termination_by name => name.length
  decreasing_by
    · exact Nat.lt_succ_of_le (length_dropWhile_le ..)
    · exact Nat.lt_succ_self _

def NoDigit (name : Name) : Prop := ∀ c ∈ name.head?, isAsciiDigit c = false

theorem noDigit_dropWhile (name : Name) : NoDigit (name.dropWhile isAsciiDigit) := by
  intro c hc
  cases hrest : name.dropWhile isAsciiDigit with
  | nil =>
    rw [hrest] at hc
    cases hc
  | cons d rest =>
    rw [hrest, List.head?_cons, Option.mem_some_iff] at hc
    subst hc
    have hhead := head_dropWhile_not isAsciiDigit (l := name)
      (by rw [hrest]; exact cons_ne_nil _ _)
    simpa only [hrest, head_cons] using hhead

theorem NoDigit.takeWhile (h : NoDigit name) : name.takeWhile isAsciiDigit = [] := by
  cases name with
  | nil => rfl
  | cons c name => rw [takeWhile_cons_of_neg (by rw [h c rfl]; exact Bool.false_ne_true)]

theorem NoDigit.dropWhile (h : NoDigit name) : name.dropWhile isAsciiDigit = name := by
  cases name with
  | nil => rfl
  | cons c name => rw [dropWhile_cons_of_neg (by rw [h c rfl]; exact Bool.false_ne_true)]

/-- The key of a number, and of what is behind it. -/
theorem key_run {rest : Name} (hne : run ≠ []) (hrun : ∀ c ∈ run, isAsciiDigit c = true)
    (hrest : NoDigit rest) :
    key (run ++ rest) =
      48 :: (stripZeros run).length :: ((stripZeros run).map UInt8.toNat ++ key rest) := by
  obtain ⟨c, run', rfl⟩ := exists_cons_of_ne_nil hne
  have htake : (c :: (run' ++ rest)).takeWhile isAsciiDigit = c :: run' := by
    rw [← cons_append, takeWhile_append_of_pos hrun, hrest.takeWhile, append_nil]
  have hdrop : (c :: (run' ++ rest)).dropWhile isAsciiDigit = rest := by
    rw [← cons_append, dropWhile_append_of_pos hrun, hrest.dropWhile]
  rw [cons_append, key_digit _ (hrun c mem_cons_self), htake, hdrop]

theorem NoDigit.simplified (h : NoDigit name) (zero : Name) : NoDigit (simplified zero name) := by
  cases name with
  | nil =>
    rw [Books.simplified]
    exact h
  | cons c name =>
    have hc := h c rfl
    rw [Books.simplified, if_neg (by rw [hc]; exact Bool.false_ne_true)]
    intro d hd
    rw [List.head?_cons, Option.mem_some_iff] at hd
    subst hd
    rw [← Bool.not_eq_true, isAsciiDigit_iff]
    have hother := toNat_toAsciiLowercase hc
    omega

theorem mem_stripZeros {digits : Name} (hc : c ∈ stripZeros digits) : c ∈ digits :=
  (dropWhile_suffix _).subset hc

theorem stripZeros_idem (digits : Name) : stripZeros (stripZeros digits) = stripZeros digits :=
  dropWhile_idempotent _ _

theorem toAsciiLowercase_idem (c : UInt8) :
    toAsciiLowercase (toAsciiLowercase c) = toAsciiLowercase c := by
  unfold toAsciiLowercase
  split_ifs with h h' <;> try rfl
  simp only [Bool.and_eq_true, decide_eq_true_eq, UInt8.le_iff_toNat_le, UInt8.toNat_add,
    UInt8.toNat_ofNat] at h h'
  omega

theorem key_simplified (name : Name) : key (simplified [48] name) = key name := by
  induction hn : name.length using Nat.strong_induction_on generalizing name with
  | _ n ih =>
  subst hn
  match name with
  | [] => rw [simplified]
  | c :: name =>
    cases hc : isAsciiDigit c with
    | false =>
      have hother : isAsciiDigit (toAsciiLowercase c) = false := by
        have h := toNat_toAsciiLowercase hc
        rw [← Bool.not_eq_true, isAsciiDigit_iff]
        omega
      rw [simplified, if_neg (by rw [hc]; exact Bool.false_ne_true), key_other name hc,
        key_other _ hother, toAsciiLowercase_idem, ih _ (Nat.lt_succ_self _) _ rfl]
    | true =>
      have hrun : ∀ d ∈ stripZeros ((c :: name).takeWhile isAsciiDigit), isAsciiDigit d = true :=
        fun d hd => mem_takeWhile_imp (mem_stripZeros hd)
      have hshorter : (name.dropWhile isAsciiDigit).length < (c :: name).length :=
        Nat.lt_succ_of_le (length_dropWhile_le ..)
      have hstrip := stripZeros_idem ((c :: name).takeWhile isAsciiDigit)
      have hrest := (noDigit_dropWhile name).simplified [48]
      rw [simplified, if_pos hc, key_digit name hc, dropWhile_cons_of_pos hc]
      dsimp only
      generalize stripZeros ((c :: name).takeWhile isAsciiDigit) = number at hrun hstrip ⊢
      split_ifs with hnumber
      · subst hnumber
        rw [key_run (cons_ne_nil _ _) (by simp [isAsciiDigit]) hrest, ih _ hshorter _ rfl]
        rfl
      · rw [key_run hnumber hrun hrest, hstrip, ih _ hshorter _ rfl]

theorem map_toNat_inj {ds es : Name} (h : ds.map UInt8.toNat = es.map UInt8.toNat) : ds = es :=
  map_injective_iff.mpr (fun _ _ => UInt8.toNat_inj.mp) h

theorem simplified_of_key {left right : Name} (zero : Name) (h : key left = key right) :
    simplified zero left = simplified zero right := by
  induction hn : left.length using Nat.strong_induction_on generalizing left right with
  | _ n ih =>
  subst hn
  match left, right with
  | [], [] => rfl
  | [], d :: right =>
    obtain ⟨k, ks, hkey⟩ := key_ne_nil d right
    rw [hkey, key] at h
    cases h
  | c :: left, [] =>
    obtain ⟨k, ks, hkey⟩ := key_ne_nil c left
    rw [hkey, key] at h
    cases h
  | c :: left, d :: right =>
    cases hc : isAsciiDigit c with
    | true =>
      cases hd : isAsciiDigit d with
      | true =>
        rw [key_digit left hc, key_digit right hd] at h
        obtain ⟨hlength, h⟩ := List.cons.inj (List.cons.inj h).2
        obtain ⟨hnumber, hrest⟩ := append_inj h
          (by rw [length_map, length_map, hlength])
        rw [dropWhile_cons_of_pos hc, dropWhile_cons_of_pos hd] at hrest
        rw [simplified, simplified, if_pos hc, if_pos hd, map_toNat_inj hnumber,
          ih _ (Nat.lt_succ_of_le (length_dropWhile_le ..)) hrest rfl]
      | false =>
        have hother := toNat_toAsciiLowercase hd
        rw [key_digit left hc, key_other right hd] at h
        have := (List.cons.inj h).1
        omega
    | false =>
      have hother := toNat_toAsciiLowercase hc
      cases hd : isAsciiDigit d with
      | true =>
        rw [key_other left hc, key_digit right hd] at h
        have := (List.cons.inj h).1
        omega
      | false =>
        rw [key_other left hc, key_other right hd] at h
        obtain ⟨hlower, h⟩ := List.cons.inj h
        rw [simplified, simplified, if_neg (by rw [hc]; exact Bool.false_ne_true),
          if_neg (by rw [hd]; exact Bool.false_ne_true), UInt8.toNat_inj.mp hlower,
          ih _ (Nat.lt_succ_self _) h rfl]

theorem naturalOrder_eq_iff (left right : Name) :
    naturalOrder left right = .eq ↔ simplified [48] left = simplified [48] right := by
  rw [naturalOrder_key, cmp_eq_iff compare]
  constructor
  · exact simplified_of_key [48]
  · intro h
    rw [← key_simplified left, h, key_simplified]

/-! ### Numbers -/

def value : Name → ℕ
  | [] => 0
  | c :: digits => (c.toNat - 48) * 10 ^ digits.length + value digits

def Digits (run : Name) : Prop := ∀ c ∈ run, isAsciiDigit c = true

theorem value_lt (hrun : Digits run) : value run < 10 ^ run.length := by
  induction run with
  | nil => exact Nat.one_pos
  | cons c run ih =>
    obtain ⟨hc, hrun⟩ := forall_mem_cons.mp hrun
    rw [isAsciiDigit_iff] at hc
    have hle : (c.toNat - 48) * 10 ^ run.length ≤ 9 * 10 ^ run.length :=
      Nat.mul_le_mul_right _ (by omega)
    have hrest := ih hrun
    rw [value, length_cons, pow_succ]
    omega

theorem compareLex_value (hrun : Digits run) (hrun' : Digits run')
    (hlength : run.length = run'.length) :
    run.compareLex (compareOn UInt8.toNat) run' = compare (value run) (value run') := by
  induction run generalizing run' with
  | nil =>
    rw [eq_nil_of_length_eq_zero hlength.symm]
    rfl
  | cons c run ih =>
    cases run' with
    | nil => exact absurd hlength (Nat.succ_ne_zero _)
    | cons d run' =>
      obtain ⟨hc, hrun⟩ := forall_mem_cons.mp hrun
      obtain ⟨hd, hrun'⟩ := forall_mem_cons.mp hrun'
      have hlength := Nat.succ.inj hlength
      rw [isAsciiDigit_iff] at hc hd
      have hlt := value_lt hrun
      have hlt' := value_lt hrun'
      rw [List.compareLex_cons_cons, ih hrun hrun' hlength, value, value]
      rw [hlength] at hlt ⊢
      rcases Nat.lt_trichotomy c.toNat d.toNat with h | h | h
      · have hmul : (c.toNat - 48 + 1) * 10 ^ run'.length ≤ (d.toNat - 48) * 10 ^ run'.length :=
          Nat.mul_le_mul_right _ (by omega)
        rw [Nat.add_mul, Nat.one_mul] at hmul
        have hfirst : compareOn UInt8.toNat c d = .lt := Nat.compare_eq_lt.mpr h
        rw [hfirst]
        exact (Nat.compare_eq_lt.mpr (by omega)).symm
      · have hfirst : compareOn UInt8.toNat c d = .eq := Nat.compare_eq_eq.mpr h
        rw [hfirst, h, Ordering.eq_then]
        simp only [Nat.compare_eq_ite_lt, Nat.add_lt_add_iff_left]
      · have hmul : (d.toNat - 48 + 1) * 10 ^ run'.length ≤ (c.toNat - 48) * 10 ^ run'.length :=
          Nat.mul_le_mul_right _ (by omega)
        rw [Nat.add_mul, Nat.one_mul] at hmul
        have hfirst : compareOn UInt8.toNat c d = .gt := Nat.compare_eq_gt.mpr h
        rw [hfirst]
        exact (Nat.compare_eq_gt.mpr (by omega)).symm

theorem value_stripZeros (run : Name) : value (stripZeros run) = value run := by
  induction run with
  | nil => rfl
  | cons c run ih =>
    by_cases hc : c = 48
    · subst hc
      rw [stripZeros, dropWhile_cons_of_pos rfl, value]
      exact ih.trans (by simp)
    · rw [stripZeros, dropWhile_cons_of_neg (by simpa using hc)]

/-- A number without leading zeros is at least the power of ten of its first digit. -/
theorem pow_le_value (hrun : Digits run) (hne : stripZeros run ≠ []) :
    10 ^ ((stripZeros run).length - 1) ≤ value (stripZeros run) := by
  have hhead := head_dropWhile_not (· == (48 : UInt8)) (l := run) hne
  have hdigits : Digits (stripZeros run) := fun c hc => hrun c (mem_stripZeros hc)
  change ((stripZeros run).head hne == 48) = false at hhead
  generalize stripZeros run = number at *
  cases number with
  | nil => exact absurd rfl hne
  | cons c number =>
    have hc := isAsciiDigit_iff.mp (hdigits c mem_cons_self)
    rw [head_cons, beq_eq_false_iff_ne, ne_eq, ← UInt8.toNat_inj] at hhead
    change ¬ c.toNat = 48 at hhead
    have hmul : 1 * 10 ^ number.length ≤ (c.toNat - 48) * 10 ^ number.length :=
      Nat.mul_le_mul_right _ (by omega)
    rw [value, length_cons, Nat.add_sub_cancel]
    omega

theorem value_lt_of_length (hrun : Digits run) (hrun' : Digits run')
    (hlength : (stripZeros run).length < (stripZeros run').length) : value run < value run' := by
  have hne : stripZeros run' ≠ [] := ne_nil_of_length_pos (by omega)
  rw [← value_stripZeros run, ← value_stripZeros run']
  calc value (stripZeros run)
      < 10 ^ (stripZeros run).length := value_lt fun c hc => hrun c (mem_stripZeros hc)
    _ ≤ 10 ^ ((stripZeros run').length - 1) := Nat.pow_le_pow_right (by omega) (by omega)
    _ ≤ value (stripZeros run') := pow_le_value hrun' hne

/-- Numbers are in the order of their values. -/
theorem compare_value (hrun : Digits run) (hrun' : Digits run') :
    (compare (stripZeros run).length (stripZeros run').length).then
        ((stripZeros run).compareLex (compareOn UInt8.toNat) (stripZeros run')) =
      compare (value run) (value run') := by
  rcases Nat.lt_trichotomy (stripZeros run).length (stripZeros run').length with h | h | h
  · rw [Nat.compare_eq_lt.mpr h, Nat.compare_eq_lt.mpr (value_lt_of_length hrun hrun' h)]
    rfl
  · rw [Nat.compare_eq_eq.mpr h, Ordering.eq_then, compareLex_value _ _ h, value_stripZeros,
      value_stripZeros]
    · exact fun c hc => hrun c (mem_stripZeros hc)
    · exact fun c hc => hrun' c (mem_stripZeros hc)
  · rw [Nat.compare_eq_gt.mpr h, Nat.compare_eq_gt.mpr (value_lt_of_length hrun' hrun h)]
    rfl

/-- A number does not go on behind the name. -/
theorem key_append {before rest : Name}
    (hend : NoDigit rest ∨ ∀ c ∈ before.getLast?, isAsciiDigit c = false) :
    key (before ++ rest) = key before ++ key rest := by
  induction hn : before.length using Nat.strong_induction_on generalizing before with
  | _ n ih =>
  subst hn
  match before with
  | [] => rw [key]; rfl
  | c :: before =>
    cases hc : isAsciiDigit c with
    | false =>
      rw [cons_append, key_other _ hc, key_other _ hc, cons_append, ih _ (Nat.lt_succ_self _) _ rfl]
      refine hend.imp_right fun h d hd => h d ?_
      rw [List.getLast?_cons, hd]
      rfl
    | true =>
      have hne : (c :: before).takeWhile isAsciiDigit ≠ [] := by
        rw [takeWhile_cons_of_pos hc]
        exact cons_ne_nil _ _
      have hrun : Digits ((c :: before).takeWhile isAsciiDigit) :=
        fun d hd => mem_takeWhile_imp hd
      have hmore := noDigit_dropWhile (c :: before)
      have hshorter : ((c :: before).dropWhile isAsciiDigit).length < (c :: before).length := by
        rw [dropWhile_cons_of_pos hc]
        exact Nat.lt_succ_of_le (length_dropWhile_le ..)
      rw [← takeWhile_append_dropWhile (p := isAsciiDigit) (l := c :: before)] at hend ⊢
      generalize (c :: before).takeWhile isAsciiDigit = run at *
      generalize (c :: before).dropWhile isAsciiDigit = more at *
      have hmore' : NoDigit (more ++ rest) := by
        intro d hd
        cases more with
        | cons m more => exact hmore d hd
        | nil =>
          rcases hend with h | h
          · exact h d hd
          · rw [append_nil, List.getLast?_eq_some_getLast hne] at h
            have hlast := h _ rfl
            rw [hrun _ (getLast_mem hne)] at hlast
            cases hlast
      rw [append_assoc, key_run hne hrun hmore', key_run hne hrun hmore, ih _ hshorter _ rfl]
      · simp only [cons_append, append_assoc]
      · refine hend.imp_right fun h d hd => h d ?_
        rw [List.getLast?_append, hd]
        rfl

theorem naturalOrder_run {before after : Name}
    (hbefore : ∀ c ∈ before.getLast?, isAsciiDigit c = false) (hafter : NoDigit after)
    (hne : run ≠ []) (hne' : run' ≠ []) (hrun : Digits run) (hrun' : Digits run') :
    naturalOrder (before ++ (run ++ after)) (before ++ (run' ++ after)) =
      compare (value run) (value run') := by
  rw [naturalOrder_key, key_append (.inr hbefore), key_append (.inr hbefore),
    compare_append _ _ rfl, cmp_self compare, Ordering.eq_then, key_run hne hrun hafter,
    key_run hne' hrun' hafter, compare_numbers, compare_value hrun hrun', cmp_self compare,
    Ordering.then_eq]

/-! ### Pages -/

def page (entry : Option ZipEntry) : Option Name := do
  let entry ← entry
  let name ← entry.name
  if (imageMediaTypeForName name).isSome && !entry.isDir then some name else none

def Readable (entry : Option ZipEntry) : Prop := ∃ pagePaths, pushPage [] entry = .ok pagePaths

theorem pushPage_eq_ok {pagePaths pagePaths' : List Name} {entry : Option ZipEntry} :
    pushPage pagePaths entry = .ok pagePaths' ↔
      Readable entry ∧ pagePaths' = pagePaths ++ (page entry).toList := by
  unfold Readable page pushPage
  cases entry with
  | none => simp
  | some entry =>
    cases hname : entry.name with
    | none => simp [hname]
    | some name =>
      simp only [hname, Option.bind_eq_bind, Option.bind_some]
      split_ifs <;> simp [eq_comm]

theorem foldlM_pushPage {start pagePaths : List Name} :
    entries.foldlM pushPage start = .ok pagePaths ↔
      (∀ entry ∈ entries, Readable entry) ∧ pagePaths = start ++ entries.filterMap page := by
  induction entries generalizing start with
  | nil => simp [pure, Except.pure, eq_comm]
  | cons entry entries ih =>
    rw [foldlM_cons, bind_eq_ok, forall_mem_cons]
    constructor
    · rintro ⟨pagePaths₁, hpush, h⟩
      obtain ⟨hentry, rfl⟩ := pushPage_eq_ok.mp hpush
      obtain ⟨hentries, rfl⟩ := ih.mp h
      refine ⟨⟨hentry, hentries⟩, ?_⟩
      rw [append_assoc]
      cases hpage : page entry <;> simp [hpage]
    · rintro ⟨⟨hentry, hentries⟩, rfl⟩
      refine ⟨_, pushPage_eq_ok.mpr ⟨hentry, rfl⟩, ih.mpr ⟨hentries, ?_⟩⟩
      rw [append_assoc]
      cases hpage : page entry <;> simp [hpage]

theorem inspectPages_eq_ok {pagePaths : List Name} :
    inspectPages entries = .ok pagePaths ↔
      (∀ entry ∈ entries, Readable entry) ∧ entries.filterMap page ≠ [] ∧
        pagePaths = (entries.filterMap page).mergeSort
          fun left right => (naturalOrder left right).isLE := by
  unfold inspectPages
  rw [bind_eq_ok]
  constructor
  · rintro ⟨names, hnames, h⟩
    obtain ⟨hreadable, rfl⟩ := foldlM_pushPage.mp hnames
    rw [nil_append] at h
    dsimp only at h
    split_ifs at h with hempty
    cases h
    refine ⟨hreadable, fun hnil => hempty ?_, rfl⟩
    rw [hnil, mergeSort_nil]
    rfl
  · rintro ⟨hreadable, hne, rfl⟩
    refine ⟨_, foldlM_pushPage.mpr ⟨hreadable, rfl⟩, ?_⟩
    rw [nil_append]
    refine if_neg ?_
    rw [List.isEmpty_iff, ← length_eq_zero_iff, length_mergeSort, length_eq_zero_iff]
    exact hne

instance : TransCmp naturalOrder := by
  have h : naturalOrder = fun left right => compare (key left) (key right) := by
    funext left right
    exact naturalOrder_key left right
  rw [h]
  exact transCmp_on compare key

theorem sorted_perm {names names' : List Name} (hperm : names.Perm names') :
    List.Forall₂ (fun left right => naturalOrder left right = .eq)
      (names.mergeSort fun left right => (naturalOrder left right).isLE)
      (names'.mergeSort fun left right => (naturalOrder left right).isLE) := by
  have hsorted : ∀ l : List Name, ((l.mergeSort fun left right => (naturalOrder left right).isLE).map
      key).Pairwise fun a b => (compare a b).isLE := by
    intro l
    rw [pairwise_map]
    have htotal : ∀ left right : Name,
        ((naturalOrder left right).isLE || (naturalOrder right left).isLE) = true := by
      intro left right
      rw [cmp_swap naturalOrder right]
      cases naturalOrder left right <;> rfl
    have h : (l.mergeSort fun left right => (naturalOrder left right).isLE).Pairwise
        fun left right => (naturalOrder left right).isLE := by
      refine pairwise_mergeSort ?_ htotal l
      exact fun _ _ _ => cmp_isLE_trans naturalOrder
    refine h.imp fun hle => ?_
    rwa [naturalOrder_key] at hle
  have heq := List.Perm.eq_of_pairwise (fun a b _ _ hab hba => ?_) (hsorted names) (hsorted names')
    (((mergeSort_perm names _).trans (hperm.trans (mergeSort_perm names' _).symm)).map key)
  · rw [← forall₂_eq_eq_eq, forall₂_map_left_iff, forall₂_map_right_iff] at heq
    refine heq.imp fun left right h => ?_
    rw [naturalOrder_key, h, cmp_self compare]
  · exact (cmp_eq_iff compare).mp (OrientedCmp.isLE_antisymm hab hba)

/-- The natural order is a total preorder; it takes for equal the names that are the same with lower
letters and without leading zeros, zero itself being left as a number; it is the order of the values
of numbers that stand in the same place; and the pages of an archive are the same up to equal names
in whatever order its entries are. -/
theorem pages_sorted :
    (∀ left right, naturalOrder left right = (naturalOrder right left).swap) ∧
      (∀ a b c, (naturalOrder a b).isLE → (naturalOrder b c).isLE → (naturalOrder a c).isLE) ∧
      (∀ left right,
        naturalOrder left right = .eq ↔ simplified [48] left = simplified [48] right) ∧
      (∀ before run run' after : Name, (∀ c ∈ before.getLast?, isAsciiDigit c = false) →
        (∀ c ∈ after.head?, isAsciiDigit c = false) → run ≠ [] → run' ≠ [] → Digits run →
        Digits run' → naturalOrder (before ++ (run ++ after)) (before ++ (run' ++ after)) =
          compare (value run) (value run')) ∧
      ∀ entries entries' pagePaths, entries.Perm entries' → inspectPages entries = .ok pagePaths →
        ∃ pagePaths', inspectPages entries' = .ok pagePaths' ∧
          List.Forall₂ (fun left right => naturalOrder left right = .eq) pagePaths pagePaths' := by
  refine ⟨cmp_swap naturalOrder, fun _ _ _ => cmp_isLE_trans naturalOrder, naturalOrder_eq_iff,
    fun _ _ _ _ hbefore hafter hne hne' => naturalOrder_run hbefore hafter hne hne', ?_⟩
  intro entries entries' pagePaths hperm h
  obtain ⟨hreadable, hne, rfl⟩ := inspectPages_eq_ok.mp h
  have hpages := hperm.filterMap page
  refine ⟨_, inspectPages_eq_ok.mpr ⟨?_, ?_, rfl⟩, sorted_perm hpages⟩
  · exact fun entry hentry => hreadable entry (hperm.mem_iff.mpr hentry)
  · exact fun hnil => hne (perm_nil.mp (hnil ▸ hpages))

/-- `9` and `010` in one place. -/
theorem pages_sorted_page_ten :
    naturalOrder (ascii "p" ++ (ascii "9" ++ ascii ".png"))
      (ascii "p" ++ (ascii "010" ++ ascii ".png")) = .lt :=
  pages_sorted.2.2.2.1 (ascii "p") (ascii "9") (ascii "010") (ascii ".png")
    (by simp [ascii, isAsciiDigit]) (by simp [ascii, isAsciiDigit]) (by simp [ascii])
    (by simp [ascii]) (by simp [Digits, ascii, isAsciiDigit])
    (by simp [Digits, ascii, isAsciiDigit])

/-- `a0b` comes before `ab`, though nothing is left of its zero. -/
theorem zero_not_dropped :
    ¬ ∀ left right, naturalOrder left right = .eq ↔ simplified [] left = simplified [] right := by
  intro h
  have hsame : simplified [] [97, 48, 98] = simplified [] [97, 98] := by
    simp [simplified, isAsciiDigit, toAsciiLowercase, stripZeros]
  have heq := (h [97, 48, 98] [97, 98]).mpr hsame
  simp [naturalOrder, isAsciiDigit, toAsciiLowercase] at heq

end Qbutt.Books
