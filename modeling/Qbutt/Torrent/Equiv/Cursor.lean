import Mathlib.Tactic.Linarith
import Qbutt.Algorithm.Except
import Qbutt.Torrent.InfoHash

/-!
# The cursor: equivalence lemmas

What the functions of the cursor accept at an offset is the bytes of one canonical string or integer
that begin there (`string_ok`, `integer_ok`); all such bytes are accepted (`string_of`, `integer_of`);
and nothing is read out of bounds (`string_safe`, `integer_safe`).
-/

namespace Qbutt.Torrent

open Qbutt.Bencode List

variable {α β : Type} {bytes rest s : Bytes} {start stop offset : ℕ} {b : UInt8}

/-- A computation that reads within bounds and ends. -/
def Safe (x : Parsed α) : Prop := x ≠ .error .panic ∧ x ≠ .error .loops

theorem safe_ok (a : α) : Safe (.ok a : Parsed α) := ⟨nofun, nofun⟩

theorem safe_invalid : Safe (.error .invalidMetadata : Parsed α) := ⟨nofun, nofun⟩

theorem ok_bind (a : α) (f : α → Parsed β) : (.ok a : Parsed α) >>= f = f a := rfl

theorem Safe.bind {x : Parsed α} {f : α → Parsed β} (h : Safe x) (hf : ∀ a, x = .ok a → Safe (f a)) :
    Safe (x >>= f) := by
  cases x with
  | ok a => exact hf a rfl
  | error e => exact ⟨fun heq => h.1 (congrArg Except.error (Except.error.inj heq)),
      fun heq => h.2 (congrArg Except.error (Except.error.inj heq))⟩

/-! ### Offsets and what comes after them -/

variable {digits x y : Bytes}

theorem drop_add_of_append (h : bytes.drop offset = x ++ y) :
    bytes.drop (offset + x.length) = y := by
  rw [← drop_drop, h, drop_left]

theorem length_of_drop (h : bytes.drop offset = x ++ y) (hx : x ≠ []) :
    offset + x.length + y.length = bytes.length := by
  have hlength := congrArg List.length h
  have hpos : 0 < x.length := length_pos_of_ne_nil hx
  rw [length_drop, length_append] at hlength
  omega

theorem peek_eq_ok : peek bytes offset = .ok b ↔ ∃ rest, bytes.drop offset = b :: rest := by
  unfold peek
  constructor
  · intro h
    cases hget : bytes[offset]? with
    | none =>
      rw [hget] at h
      cases h
    | some c =>
      rw [hget] at h
      obtain rfl : c = b := Except.ok.inj h
      obtain ⟨hlt, rfl⟩ := List.getElem?_eq_some_iff.mp hget
      exact ⟨_, drop_eq_getElem_cons hlt⟩
  · rintro ⟨rest, hdrop⟩
    have hget : bytes[offset]? = some b := by
      have hhead := congrArg List.head? hdrop
      rw [List.head?_drop] at hhead
      exact hhead
    rw [hget]

theorem peek_safe (bytes : Bytes) (offset : ℕ) : Safe (peek bytes offset) := by
  unfold peek
  split
  · exact safe_ok _
  · exact safe_invalid

theorem next_eq_ok : next bytes offset = .ok (b, stop) ↔
    (∃ rest, bytes.drop offset = b :: rest) ∧ stop = offset + 1 := by
  unfold next
  rw [bind_eq_ok]
  constructor
  · rintro ⟨c, hpeek, hpair⟩
    cases hpair
    exact ⟨peek_eq_ok.mp hpeek, rfl⟩
  · rintro ⟨hdrop, rfl⟩
    exact ⟨b, peek_eq_ok.mpr hdrop, rfl⟩

theorem next_safe (bytes : Bytes) (offset : ℕ) : Safe (next bytes offset) :=
  (peek_safe bytes offset).bind fun _ _ => safe_ok _

theorem index_of_drop (h : bytes.drop offset = b :: rest) : index bytes offset = .ok b := by
  have hget : bytes[offset]? = some b := by
    have hhead := congrArg List.head? h
    rw [List.head?_drop] at hhead
    exact hhead
  rw [index, hget]

/-- The slice of what is between an offset and one behind it. -/
theorem slice_of_drop (h : bytes.drop start = x ++ y) (hx : x ≠ []) :
    slice bytes start (start + x.length) = .ok x := by
  have hlength := length_of_drop h hx
  rw [slice, if_pos ⟨by omega, by omega⟩, h, show start + x.length - start = x.length by omega,
    take_left]

/-! ### Strings -/

theorem scanDigits_ok (h : scanDigits offset rest = .ok stop) : ∃ digits b after,
    rest = digits ++ b :: after ∧ (∀ d ∈ digits, isDigit d) ∧ isDigit b = false ∧
      stop = offset + digits.length := by
  induction rest generalizing offset with
  | nil => cases h
  | cons c rest ih =>
    rw [scanDigits] at h
    split_ifs at h with hc
    · obtain ⟨digits, b, after, rfl, hdigits, hb, rfl⟩ := ih h
      refine ⟨c :: digits, b, after, rfl, fun d hd => ?_, hb, ?_⟩
      · rcases mem_cons.mp hd with rfl | hd
        · exact hc
        · exact hdigits d hd
      · rw [length_cons]
        omega
    · exact ⟨[], c, rest, rfl, nofun, by simpa using hc, (Except.ok.inj h).symm⟩

theorem scanDigits_of (hdigits : ∀ d ∈ digits, isDigit d) (hb : isDigit b = false) :
    scanDigits offset (digits ++ b :: rest) = .ok (offset + digits.length) := by
  induction digits generalizing offset with
  | nil =>
    rw [nil_append, scanDigits, if_neg (by rw [hb]; exact Bool.false_ne_true)]
    rfl
  | cons c digits ih =>
    rw [cons_append, scanDigits, if_pos (hdigits c mem_cons_self),
      ih fun d hd => hdigits d (mem_cons_of_mem c hd), length_cons]
    exact congrArg Except.ok (by omega)

theorem scanDigits_safe (offset : ℕ) (rest : Bytes) : Safe (scanDigits offset rest) := by
  induction rest generalizing offset with
  | nil => exact safe_invalid
  | cons c rest ih =>
    rw [scanDigits]
    split_ifs
    · exact ih _
    · exact safe_ok _

theorem parseUsize_safe (digits : Bytes) : Safe (parseUsize digits) := by
  unfold parseUsize
  split_ifs
  · exact safe_ok _
  · exact safe_invalid

/-- What the loop over digits passes, and that it can be read. -/
theorem digits_of_scan (h : scanDigits start (bytes.drop start) = .ok stop) (hne : start ≠ stop) :
    ∃ digits b after, bytes.drop start = digits ++ b :: after ∧ (∀ d ∈ digits, isDigit d) ∧
      digits ≠ [] ∧ stop = start + digits.length ∧ bytes.drop stop = b :: after ∧
      slice bytes start stop = .ok digits ∧
      ∃ first, digits.head? = some first ∧ index bytes start = .ok first := by
  obtain ⟨digits, b, after, hdrop, hdigits, -, rfl⟩ := scanDigits_ok h
  have hdigits' : digits ≠ [] := by
    rintro rfl
    exact hne rfl
  obtain ⟨first, tail, rfl⟩ := exists_cons_of_ne_nil hdigits'
  exact ⟨_, b, after, hdrop, hdigits, hdigits', rfl, drop_add_of_append hdrop,
    slice_of_drop hdrop hdigits', first, rfl, index_of_drop hdrop⟩

theorem string_ok (h : string bytes start = .ok (s, stop)) :
    bytes.drop start = encodeString s ++ bytes.drop stop ∧
      stop = start + (encodeString s).length ∧ stop ≤ bytes.length := by
  unfold string at h
  obtain ⟨colonOffset, hscan, h⟩ := bind_eq_ok.mp h
  split_ifs at h with hne
  obtain ⟨digits, b, after, hdrop, hdigits, hnil, rfl, hcolon, hslice, first, hfirst, hindex⟩ :=
    digits_of_scan hscan hne
  rw [hindex] at h
  obtain ⟨first', hfirst', h⟩ := bind_eq_ok.mp h
  cases hfirst'
  split_ifs at h with hzero
  obtain ⟨⟨colon, offset⟩, hnext, h⟩ := bind_eq_ok.mp h
  obtain ⟨⟨after', hcolon'⟩, rfl⟩ := next_eq_ok.mp hnext
  cases hcolon.symm.trans hcolon'
  dsimp only at h
  split_ifs at h with hb
  rw [Nat.add_sub_cancel, hslice] at h
  obtain ⟨digits', hdigits', h⟩ := bind_eq_ok.mp h
  cases hdigits'
  obtain ⟨size, hsize, h⟩ := bind_eq_ok.mp h
  split_ifs at h with hoverflow hshort
  cases h
  obtain rfl : b = 58 := by simpa using hb
  unfold parseUsize at hsize
  split_ifs at hsize
  cases hsize
  have hcanonical : Canonical digits := by
    refine ⟨hnil, hdigits, fun hhead => ?_⟩
    cases hfirst.symm.trans hhead
    by_contra hlength
    exact hzero ⟨rfl, fun heq => hlength (by omega)⟩
  have hafter : bytes.drop (start + digits.length + 1) = after := by
    rw [← drop_drop, hcolon]
    rfl
  have hsize : after.length = bytes.length - (start + digits.length + 1) := by
    rw [← hafter, length_drop]
  have hlength : (after.take (digitsValue digits)).length = digitsValue digits := by
    rw [length_take]
    omega
  rw [hafter]
  have hencode : encodeString (after.take (digitsValue digits)) =
      digits ++ 58 :: after.take (digitsValue digits) := by
    rw [encodeString, hlength, decimal_digitsValue hcanonical]
  refine ⟨?_, ?_, by omega⟩
  · rw [hdrop, hencode, ← drop_drop, hafter, append_assoc, cons_append, take_append_drop]
  · rw [hencode, length_append, length_cons, hlength]
    omega

/-- A canonical string is accepted. -/
theorem string_of (hbytes : bytes.length < 2 ^ 63) (h : bytes.drop start = encodeString s ++ rest) :
    string bytes start = .ok (s, start + (encodeString s).length) := by
  obtain ⟨hnil, hdigits, hzero⟩ := canonical_decimal s.length
  rw [encodeString, append_assoc, cons_append] at h
  have hlength := length_of_drop h hnil
  rw [length_cons, length_append] at hlength
  have hcolon := drop_add_of_append h
  have hslice := slice_of_drop h hnil
  have hscan : scanDigits start (bytes.drop start) = .ok (start + (decimal s.length).length) := by
    rw [h]
    exact scanDigits_of hdigits (by decide)
  obtain ⟨first, tail, hfirst⟩ := exists_cons_of_ne_nil hnil
  have hindex : index bytes start = .ok first := by
    rw [hfirst] at h
    exact index_of_drop h
  have hpos : 0 < (decimal s.length).length := length_pos_of_ne_nil hnil
  have hafter : bytes.drop (start + (decimal s.length).length + 1) = s ++ rest := by
    rw [← drop_drop, hcolon]
    rfl
  have hnext : next bytes (start + (decimal s.length).length) =
      .ok (58, start + (decimal s.length).length + 1) := next_eq_ok.mpr ⟨⟨_, hcolon⟩, rfl⟩
  have hsize : parseUsize (decimal s.length) = .ok s.length := by
    rw [parseUsize, digitsValue_decimal, if_pos (by omega)]
  have hfirstZero : ¬ (first = 48 ∧ start + (decimal s.length).length ≠ start + 1) := by
    rintro ⟨rfl, hne⟩
    have hone := hzero (by rw [hfirst]; rfl)
    omega
  unfold string
  rw [hscan, ok_bind, if_neg (by omega), hindex, ok_bind, if_neg hfirstZero, hnext, ok_bind]
  dsimp only
  rw [if_neg (not_not_intro rfl), Nat.add_sub_cancel, hslice, ok_bind, hsize, ok_bind,
    if_neg (by omega), if_neg (by omega), hafter, take_left, encodeString,
    length_append, length_cons]
  exact congrArg (fun stop => Except.ok (s, stop)) (by omega)

theorem string_safe (bytes : Bytes) (start : ℕ) : Safe (string bytes start) := by
  unfold string
  refine (scanDigits_safe _ _).bind fun stop hscan => ?_
  split_ifs with hne
  · exact safe_invalid
  · obtain ⟨digits, b, after, -, -, -, rfl, hcolon, hslice, first, -, hindex⟩ :=
      digits_of_scan hscan hne
    rw [hindex]
    refine (safe_ok first).bind fun first _ => ?_
    split_ifs
    · exact safe_invalid
    · refine (next_safe _ _).bind fun next hnext => ?_
      obtain ⟨colon, offset⟩ := next
      obtain ⟨-, rfl⟩ := next_eq_ok.mp hnext
      dsimp only
      split_ifs
      · exact safe_invalid
      · rw [Nat.add_sub_cancel, hslice]
        refine (safe_ok digits).bind fun digits _ => ?_
        refine (parseUsize_safe digits).bind fun size _ => ?_
        split_ifs
        · exact safe_invalid
        · exact safe_invalid
        · exact safe_ok _

/-! ### Integers -/

theorem scanInteger_rest_ok (hstart : start < offset) (h : scanInteger start offset rest = .ok stop) :
    ∃ digits after, rest = digits ++ 101 :: after ∧ (∀ d ∈ digits, isDigit d) ∧
      stop = offset + digits.length := by
  induction rest generalizing offset with
  | nil => cases h
  | cons c rest ih =>
    rw [scanInteger] at h
    split_ifs at h with hc hbad
    · cases h
      exact ⟨[], rest, by rw [hc]; rfl, nofun, rfl⟩
    · obtain ⟨digits, after, rfl, hdigits, rfl⟩ := ih (by omega) h
      have hdigit : isDigit c = true := by
        have hsign : offset ≠ start := by omega
        simpa [hsign] using hbad
      refine ⟨c :: digits, after, rfl, fun d hd => ?_, ?_⟩
      · rcases mem_cons.mp hd with rfl | hd
        · exact hdigit
        · exact hdigits d hd
      · rw [length_cons]
        omega

/-- What the loop over an integer passes: digits, with a sign or without. -/
theorem scanInteger_ok (h : scanInteger start start rest = .ok stop) :
    ∃ text after, rest = text ++ 101 :: after ∧ (∀ d ∈ withoutSign text, isDigit d) ∧
      stop = start + text.length := by
  cases rest with
  | nil => cases h
  | cons c rest =>
    rw [scanInteger] at h
    split_ifs at h with hc hbad
    · cases h
      exact ⟨[], rest, by rw [hc]; rfl, nofun, rfl⟩
    · obtain ⟨digits, after, rfl, hdigits, rfl⟩ := scanInteger_rest_ok (Nat.lt_succ_self start) h
      refine ⟨c :: digits, after, rfl, ?_, by rw [length_cons]; omega⟩
      unfold withoutSign
      split
      · rename_i tail heq
        cases heq
        exact hdigits
      · rename_i hnot
        have hsign : c ≠ 45 := fun heq => hnot digits (by rw [heq])
        intro d hd
        rcases mem_cons.mp hd with rfl | hd
        · simpa [hsign] using hbad
        · exact hdigits d hd

theorem scanInteger_digits (hdigits : ∀ d ∈ digits, isDigit d) :
    scanInteger start offset (digits ++ 101 :: rest) = .ok (offset + digits.length) := by
  induction digits generalizing offset with
  | nil =>
    rw [nil_append, scanInteger, if_pos rfl]
    rfl
  | cons c digits ih =>
    have hc := hdigits c mem_cons_self
    have hne : c ≠ 101 := by
      rintro rfl
      exact absurd hc (by decide)
    rw [cons_append, scanInteger, if_neg hne, if_neg (by simp [hc]),
      ih fun d hd => hdigits d (mem_cons_of_mem c hd), length_cons]
    exact congrArg Except.ok (by omega)

theorem scanInteger_signed (n : ℤ) : scanInteger start start (signed n ++ 101 :: rest) =
    .ok (start + (signed n).length) := by
  have hdigits := (canonical_decimal n.natAbs).all_digits
  unfold signed
  split_ifs
  · rw [cons_append, scanInteger, if_neg (by decide), if_neg (by simp),
      scanInteger_digits hdigits, length_cons]
    exact congrArg Except.ok (by omega)
  · exact scanInteger_digits hdigits

theorem scanInteger_safe (start offset : ℕ) (rest : Bytes) : Safe (scanInteger start offset rest) := by
  induction rest generalizing offset with
  | nil => exact safe_invalid
  | cons c rest ih =>
    rw [scanInteger]
    split_ifs
    · exact safe_ok _
    · exact safe_invalid
    · exact ih _

theorem signed_ne_nil (n : ℤ) : signed n ≠ [] := by
  unfold signed
  split_ifs
  · exact cons_ne_nil _ _
  · exact decimal_ne_nil _

theorem withoutSign_of_digits (h : ∀ d ∈ digits, isDigit d) : withoutSign digits = digits := by
  unfold withoutSign
  split
  · exact absurd (h 45 mem_cons_self) (by decide)
  · rfl

theorem withoutSign_signed (n : ℤ) : withoutSign (signed n) = decimal n.natAbs := by
  unfold signed
  split_ifs
  · rfl
  · exact withoutSign_of_digits (canonical_decimal n.natAbs).all_digits

theorem parseI64_digits (h : ∀ d ∈ digits, isDigit d) : parseI64 digits =
    if (digitsValue digits : ℤ) < 2 ^ 63 then some (digitsValue digits : ℤ) else none := by
  have hlow : -2 ^ 63 ≤ (digitsValue digits : ℤ) := by
    have hnonneg : (0 : ℤ) ≤ digitsValue digits := Int.natCast_nonneg _
    linarith
  unfold parseI64
  split
  · exact absurd (h 45 mem_cons_self) (by decide)
  · simp only [hlow, true_and]

theorem parseI64_signed {n : ℤ} (hlow : -2 ^ 63 ≤ n) (hhigh : n < 2 ^ 63) :
    parseI64 (signed n) = some n := by
  unfold signed
  split_ifs with hneg
  · show (if -2 ^ 63 ≤ -(digitsValue (decimal n.natAbs) : ℤ) ∧
      -(digitsValue (decimal n.natAbs) : ℤ) < 2 ^ 63 then some (-(digitsValue (decimal n.natAbs) : ℤ))
      else none) = _
    rw [digitsValue_decimal, show -(n.natAbs : ℤ) = n by omega, if_pos ⟨hlow, hhigh⟩]
  · rw [parseI64_digits (canonical_decimal n.natAbs).all_digits, digitsValue_decimal,
      show (n.natAbs : ℤ) = n by omega, if_pos hhigh]

/-- What the checks of an integer let pass is the number as it is written. -/
theorem signed_of_checks {text : Bytes} (hdigits : ∀ d ∈ withoutSign text, isDigit d)
    (hnil : withoutSign text ≠ []) (hzero : (withoutSign text).head? = some 48 →
      (withoutSign text).length = 1) (hminus : text ≠ [45, 48]) (hparse : parseI64 text ≠ none) :
    ∃ n : ℤ, -2 ^ 63 ≤ n ∧ n < 2 ^ 63 ∧ text = signed n := by
  have hcanonical : Canonical (withoutSign text) := ⟨hnil, hdigits, hzero⟩
  have hdecimal := decimal_digitsValue hcanonical
  unfold parseI64 at hparse
  unfold withoutSign at hcanonical hdecimal
  split at hparse
  · rename_i digits
    have hpos : 0 < digitsValue digits := by
      refine digitsValue_pos hcanonical.ne_nil hcanonical.all_digits fun hhead => ?_
      have hone := hcanonical.no_zero hhead
      obtain ⟨d, rfl⟩ := length_eq_one_iff.mp hone
      obtain rfl : d = 48 := Option.some.inj hhead
      exact hminus rfl
    dsimp only at hparse
    split_ifs at hparse with hrange
    · refine ⟨_, hrange.1, hrange.2, ?_⟩
      unfold signed
      rw [if_pos (by omega), Int.natAbs_neg, Int.natAbs_natCast]
      exact congrArg (List.cons 45) hdecimal.symm
    · exact absurd rfl hparse
  · rename_i hnot
    have hwithout : ∀ digits : Bytes, text = 45 :: digits → False := hnot
    dsimp only at hparse
    split_ifs at hparse with hrange
    · refine ⟨_, hrange.1, hrange.2, ?_⟩
      unfold signed
      rw [if_neg (by omega), Int.natAbs_natCast]
      split at hdecimal
      · exact absurd rfl (hwithout _)
      · exact hdecimal.symm
    · exact absurd rfl hparse

/-- What is accepted as an integer is a canonical one. -/
theorem integer_ok (h : integer bytes start = .ok stop) : ∃ n : ℤ, -2 ^ 63 ≤ n ∧ n < 2 ^ 63 ∧
    bytes.drop start = signed n ++ 101 :: bytes.drop stop ∧
      stop = start + (signed n).length + 1 ∧ stop ≤ bytes.length := by
  unfold integer at h
  obtain ⟨textEnd, hscan, h⟩ := bind_eq_ok.mp h
  obtain ⟨text, after, hdrop, hdigits, rfl⟩ := scanInteger_ok hscan
  obtain ⟨text', hslice, h⟩ := bind_eq_ok.mp h
  dsimp only at h
  split_ifs at h with hbad
  obtain ⟨⟨e, offset⟩, hnext, h⟩ := bind_eq_ok.mp h
  obtain ⟨⟨after', hafter'⟩, rfl⟩ := next_eq_ok.mp hnext
  cases h
  push Not at hbad
  have htext : text' = text := by
    by_cases hempty : text = []
    · subst hempty
      have hempty' : text' = [] := by
        unfold slice at hslice
        split_ifs at hslice
        rw [← Except.ok.inj hslice, length_nil, Nat.add_zero, Nat.sub_self, take_zero]
      exact absurd (by rw [hempty']; rfl) hbad.1
    · exact Except.ok.inj (hslice.symm.trans (slice_of_drop hdrop hempty))
  subst htext
  obtain ⟨hnil, hzero, hminus, hparse⟩ := hbad
  obtain ⟨n, hlow, hhigh, rfl⟩ := signed_of_checks hdigits hnil hzero hminus hparse
  have hlength := length_of_drop hdrop (signed_ne_nil n)
  rw [length_cons] at hlength
  refine ⟨n, hlow, hhigh, ?_, rfl, by omega⟩
  rw [hdrop, ← drop_drop, drop_add_of_append hdrop]
  rfl

/-- A canonical integer is accepted. -/
theorem integer_of {n : ℤ} (hlow : -2 ^ 63 ≤ n) (hhigh : n < 2 ^ 63)
    (h : bytes.drop start = signed n ++ 101 :: rest) :
    integer bytes start = .ok (start + (signed n).length + 1) := by
  obtain ⟨hnil, hdigits, hzero⟩ := canonical_decimal n.natAbs
  have hscan : scanInteger start start (bytes.drop start) = .ok (start + (signed n).length) := by
    rw [h]
    exact scanInteger_signed n
  have hnext : next bytes (start + (signed n).length) = .ok (101, start + (signed n).length + 1) :=
    next_eq_ok.mpr ⟨⟨rest, drop_add_of_append h⟩, rfl⟩
  have hminus : signed n ≠ [45, 48] := by
    unfold signed
    split_ifs with hneg
    · intro heq
      have hvalue := digitsValue_decimal n.natAbs
      rw [(List.cons.inj heq).2] at hvalue
      have hvalue' : 0 = n.natAbs := hvalue
      omega
    · intro heq
      have hminus := hdigits 45 (by rw [heq]; exact mem_cons_self)
      exact absurd hminus (by decide)
  unfold integer
  rw [hscan, ok_bind, slice_of_drop h (signed_ne_nil n), ok_bind]
  dsimp only
  rw [withoutSign_signed, parseI64_signed hlow hhigh, if_neg, hnext]
  · rfl
  · rintro (hempty | ⟨hhead, hlength⟩ | heq | hnone)
    · exact hnil hempty
    · exact hlength (hzero hhead)
    · exact hminus heq
    · cases hnone

theorem integer_safe (bytes : Bytes) (hstart : start ≤ bytes.length) :
    Safe (integer bytes start) := by
  unfold integer
  refine (scanInteger_safe _ _ _).bind fun stop hscan => ?_
  obtain ⟨text, after, hdrop, -, rfl⟩ := scanInteger_ok hscan
  have hlength := congrArg List.length hdrop
  rw [length_drop, length_append, length_cons] at hlength
  rw [slice, if_pos ⟨by omega, by omega⟩]
  refine (safe_ok _).bind fun text _ => ?_
  dsimp only
  split_ifs
  · exact safe_invalid
  · exact (next_safe _ _).bind fun _ _ => safe_ok _

end Qbutt.Torrent
