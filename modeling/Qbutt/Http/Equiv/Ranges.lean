import Mathlib.Order.Interval.Finset.Nat
import Qbutt.Http.Ranges

/-!
# What the media ranges mean

A range stands for positions of a body (`Wanted.positions`).  For every value that `byteRange` lets
through, `validRangeResponse` accepts the partial answers with exactly these positions, and a stored
playlist answers with them (`ranges_exact`); no step of either leaves the 64-bit numbers or the body.
-/

namespace Qbutt.Http

open Rust Option List

/-! ### Positions -/

/-- What a range asks for: the positions from one to another one, those from one on, or a number of
positions at the end. -/
inductive Wanted where
  | closed (first last : ℕ)
  | onward (first : ℕ)
  | suffix (count : ℕ)
deriving DecidableEq

/-- The positions of a body that are asked for. -/
def Wanted.positions : Wanted → ℕ → Finset ℕ
  | closed first last, length => (Finset.range length).filter fun i => first ≤ i ∧ i ≤ last
  | onward first, length => (Finset.range length).filter fun i => first ≤ i
  | suffix count, length => (Finset.range length).filter fun i => length ≤ i + count

def wanted (value : List Char) : Option Wanted :=
  match rangeSides value with
  | none => none
  | some (first, last) =>
    if first = [] then (parseU64 last).map .suffix
    else if last = [] then (parseU64 first).map .onward
    else (parseU64 first).bind fun a => (parseU64 last).map (.closed a)

/-- The numbers of the ranges that are let through. -/
def Wanted.Valid : Wanted → Prop
  | closed first last => first ≤ last ∧ last ≤ MAX
  | onward first => first ≤ MAX
  | suffix count => 0 < count ∧ count ≤ MAX

variable {value first text : List Char} {n count : ℕ}

theorem parseU64_le (h : parseU64 text = some n) : n ≤ MAX := by
  unfold parseU64 parseUnsigned at h
  dsimp only at h
  split_ifs at h with hdigits
  rw [Bool.and_eq_true, decide_eq_true_eq] at hdigits
  rw [← Option.some.inj h]
  exact Nat.le_sub_one_of_lt hdigits.2

theorem parseU64_nil : parseU64 [] = none := rfl

theorem isSide_cases {number : List Char} (h : isSide number = true) :
    number = [] ∨ number ≠ [] ∧ ∃ n, parseU64 number = some n := by
  by_cases hempty : number = []
  · exact .inl hempty
  · rw [isSide, Bool.or_eq_true, List.isEmpty_iff, or_iff_right hempty, Bool.and_eq_true] at h
    exact .inr ⟨hempty, isSome_iff_exists.mp h.2⟩

/-- The sides of the hyphen of a range that is let through. -/
inductive Sides : List Char → List Char → Wanted → Prop
  | closed {first last : List Char} {a b : ℕ} (hfirst : first ≠ []) (hlast : last ≠ [])
      (ha : parseU64 first = some a) (hb : parseU64 last = some b) (hle : a ≤ b) :
      Sides first last (.closed a b)
  | onward {first : List Char} {a : ℕ} (hfirst : first ≠ []) (ha : parseU64 first = some a) :
      Sides first [] (.onward a)
  | suffix {last : List Char} {count : ℕ} (hcount : parseU64 last = some count)
      (hpos : 0 < count) : Sides [] last (.suffix count)

theorem byteRange_sides (h : byteRange value = some true) :
    ∃ first last w, rangeSides value = some (first, last) ∧ Sides first last w := by
  unfold byteRange at h
  cases hsides : rangeSides value with
  | none => rw [hsides] at h; cases h
  | some sides =>
    obtain ⟨first, last⟩ := sides
    rw [hsides] at h
    dsimp only at h
    by_cases hvalid : ((!first.isEmpty || (parseU64 last).any (0 < ·)) &&
        (isSide first && isSide last)) = true
    · rw [if_pos hvalid] at h
      rw [Bool.and_eq_true, Bool.and_eq_true, Bool.or_eq_true, Bool.not_eq_true',
        isEmpty_eq_false_iff] at hvalid
      obtain ⟨hcount, hfirst, hlast⟩ := hvalid
      rcases isSide_cases hfirst with rfl | ⟨hne, a, ha⟩
      · have hcount := hcount.resolve_left fun h => h rfl
        cases hparse : parseU64 last with
        | none => rw [hparse] at hcount; cases hcount
        | some count =>
          rw [hparse] at hcount
          exact ⟨[], last, _, rfl, .suffix hparse (of_decide_eq_true hcount)⟩
      · rcases isSide_cases hlast with rfl | ⟨hne', b, hb⟩
        · exact ⟨first, [], _, rfl, .onward hne ha⟩
        · rw [if_neg (by rw [Bool.or_eq_true, List.isEmpty_iff, List.isEmpty_iff]; tauto), ha,
            hb] at h
          exact ⟨first, last, _, rfl, .closed hne hne' ha hb
            (of_decide_eq_true (Option.some.inj h))⟩
    · rw [if_neg hvalid] at h
      cases h

variable {w : Wanted}

theorem Sides.wanted_eq {last : List Char} (hsides : rangeSides value = some (first, last))
    (h : Sides first last w) : wanted value = some w := by
  rw [wanted, hsides]
  dsimp only
  cases h with
  | closed hfirst hlast ha hb _ => rw [if_neg hfirst, if_neg hlast, ha, hb]; rfl
  | onward hfirst ha => rw [if_neg hfirst, if_pos rfl, ha]; rfl
  | suffix hcount _ => rw [if_pos rfl, hcount]; rfl

theorem Sides.valid {last : List Char} (h : Sides first last w) : w.Valid := by
  cases h with
  | closed _ _ _ hb hle => exact ⟨hle, parseU64_le hb⟩
  | onward _ ha => exact parseU64_le ha
  | suffix hcount hpos => exact ⟨hpos, parseU64_le hcount⟩

/-! ### Answers of the source -/

/-- The positions `start` to `last` are the ones that are asked for, and there is one of them. -/
def Exactly (w : Wanted) (start last total : ℕ) : Prop :=
  Finset.Icc start last = w.positions total ∧ (w.positions total).Nonempty

variable {start last total a b length i : ℕ}

theorem mem_closed : i ∈ (Wanted.closed a b).positions length ↔ i < length ∧ a ≤ i ∧ i ≤ b := by
  rw [Wanted.positions, Finset.mem_filter, Finset.mem_range]

theorem mem_onward : i ∈ (Wanted.onward a).positions length ↔ i < length ∧ a ≤ i := by
  rw [Wanted.positions, Finset.mem_filter, Finset.mem_range]

theorem mem_suffix :
    i ∈ (Wanted.suffix count).positions length ↔ i < length ∧ length ≤ i + count := by
  rw [Wanted.positions, Finset.mem_filter, Finset.mem_range]

/-- Positions between two ends are exact if both ends are, and every position is between them. -/
theorem exactly_of_bounds (hle : start ≤ last)
    (h : ∀ i, i ∈ w.positions total ↔ start ≤ i ∧ i ≤ last) : Exactly w start last total := by
  refine ⟨Finset.ext fun i => ?_, start, (h start).mpr ⟨le_rfl, hle⟩⟩
  rw [Finset.mem_Icc, h]

theorem Exactly.mem (h : Exactly w start last total) (i : ℕ) :
    i ∈ w.positions total ↔ start ≤ i ∧ i ≤ last := by
  rw [← h.1, Finset.mem_Icc]

theorem Exactly.le (h : Exactly w start last total) : start ≤ last := by
  obtain ⟨i, hi⟩ := h.2
  rw [h.mem] at hi
  omega

theorem exactly_closed (hab : a ≤ b) :
    Exactly (.closed a b) start last total ↔
      start ≤ last ∧ last < total ∧ start = a ∧ last = min b (total - 1) := by
  constructor
  · intro h
    have hle := h.le
    have hmem : ∀ i, (i < total ∧ a ≤ i ∧ i ≤ b) ↔ start ≤ i ∧ i ≤ last := fun i => by
      rw [← mem_closed, h.mem]
    have hstart := (hmem start).mpr ⟨le_rfl, hle⟩
    have hlast := (hmem last).mpr ⟨hle, le_rfl⟩
    have hfirst := (hmem a).mp (by omega)
    have hfinal := (hmem (min b (total - 1))).mp (by omega)
    omega
  · rintro ⟨hle, hlt, rfl, rfl⟩
    refine exactly_of_bounds hle fun i => ?_
    rw [mem_closed]
    omega

theorem exactly_onward :
    Exactly (.onward a) start last total ↔
      start ≤ last ∧ last < total ∧ start = a ∧ last = total - 1 := by
  constructor
  · intro h
    have hle := h.le
    have hmem : ∀ i, (i < total ∧ a ≤ i) ↔ start ≤ i ∧ i ≤ last := fun i => by
      rw [← mem_onward, h.mem]
    have hstart := (hmem start).mpr ⟨le_rfl, hle⟩
    have hlast := (hmem last).mpr ⟨hle, le_rfl⟩
    have hfirst := (hmem a).mp (by omega)
    have hfinal := (hmem (total - 1)).mp (by omega)
    omega
  · rintro ⟨hle, hlt, rfl, rfl⟩
    refine exactly_of_bounds hle fun i => ?_
    rw [mem_onward]
    omega

theorem exactly_suffix (hpos : 0 < count) :
    Exactly (.suffix count) start last total ↔
      start ≤ last ∧ last < total ∧ last = total - 1 ∧ last - start + 1 = min count total := by
  constructor
  · intro h
    have hle := h.le
    have hmem : ∀ i, (i < total ∧ total ≤ i + count) ↔ start ≤ i ∧ i ≤ last := fun i => by
      rw [← mem_suffix, h.mem]
    have hstart := (hmem start).mpr ⟨le_rfl, hle⟩
    have hlast := (hmem last).mpr ⟨hle, le_rfl⟩
    have hfirst := (hmem (total - min count total)).mp (by omega)
    have hfinal := (hmem (total - 1)).mp (by omega)
    omega
  · rintro ⟨hle, hlt, rfl, hcount⟩
    refine exactly_of_bounds hle fun i => ?_
    rw [mem_suffix]
    omega

theorem sub64_of_le (h : b ≤ a) : sub64 a b = some (a - b) := if_pos h

theorem add64_of_le (h : a + b ≤ MAX) : add64 a b = some (a + b) := if_pos h

theorem fitsRequest_spec {last : List Char} (hvalue : rangeSides value = some (first, last))
    (h : Sides first last w) {final : ℕ} (hle : start ≤ final) (hlt : final < total)
    (htotal : total ≤ MAX) :
    ∃ fits, fitsRequest value start final total = some fits ∧
      (fits = true ↔ Exactly w start final total) := by
  rw [fitsRequest, hvalue]
  dsimp only
  have hone : sub64 total 1 = some (total - 1) := sub64_of_le (by omega)
  have hspan : sub64 final start = some (final - start) := sub64_of_le hle
  have hlength : add64 (final - start) 1 = some (final - start + 1) := add64_of_le (by omega)
  cases h with
  | @closed _ _ a b hfirst hlast ha hb hab =>
    have hfirst := isEmpty_eq_false_iff.mpr hfirst
    have hlast := isEmpty_eq_false_iff.mpr hlast
    simp only [hfirst, hlast, ha, hb, hone, any_some, Bool.false_eq_true, if_false,
      Bool.false_and, bind_eq_bind, bind_some, exactly_closed hab]
    by_cases hstart : a = start
    · rw [if_pos (decide_eq_true hstart)]
      refine ⟨_, rfl, ?_⟩
      rw [decide_eq_true_eq]
      omega
    · rw [if_neg (by rw [decide_eq_true_eq]; exact hstart)]
      exact ⟨false, rfl, iff_of_false Bool.false_ne_true (by omega)⟩
  | @onward _ a hfirst ha =>
    have hfirst := isEmpty_eq_false_iff.mpr hfirst
    simp only [hfirst, ha, hone, parseU64_nil, any_some, any_none, isEmpty_nil,
      Bool.false_eq_true, if_false, Bool.true_and, bind_eq_bind, bind_some,
      exactly_onward]
    by_cases hstart : a = start
    · rw [if_pos (decide_eq_true hstart)]
      by_cases hlast : final = total - 1
      · rw [if_pos (decide_eq_true hlast)]
        exact ⟨true, rfl, iff_of_true rfl (by omega)⟩
      · rw [if_neg (by rw [decide_eq_true_eq]; exact hlast)]
        exact ⟨false, rfl, iff_of_false Bool.false_ne_true (by omega)⟩
    · rw [if_neg (by rw [decide_eq_true_eq]; exact hstart)]
      exact ⟨false, rfl, iff_of_false Bool.false_ne_true (by omega)⟩
  | @suffix _ count hcount hpos =>
    simp only [isEmpty_nil, if_true, hcount, hpos, hone, hspan, hlength,
      bind_eq_bind, bind_some, exactly_suffix hpos]
    by_cases hlast : final = total - 1
    · rw [if_pos hlast]
      refine ⟨_, rfl, ?_⟩
      rw [decide_eq_true_eq]
      omega
    · rw [if_neg hlast]
      exact ⟨false, rfl, iff_of_false Bool.false_ne_true (by omega)⟩

/-- A `Content-Range` header: its text, and the numbers in it. -/
def Denotes (header : List UInt8) (start last total : ℕ) : Prop :=
  ∃ first second third : List Char,
    headerText header = some ("bytes ".toList ++ (first ++ '-' :: (second ++ '/' :: third))) ∧
      parseU64 first = some start ∧ parseU64 second = some last ∧ parseU64 third = some total

/-- A number has no separator in it. -/
theorem not_mem_of_parseU64 (h : parseU64 text = some n) {c : Char} (hc : isAsciiDigit c = false)
    (hplus : c ≠ '+') : c ∉ text := by
  unfold parseU64 parseUnsigned at h
  dsimp only at h
  split_ifs at h with hdigits
  rw [Bool.and_eq_true, Bool.and_eq_true] at hdigits
  have hall := all_eq_true.mp hdigits.1.2
  intro hmem
  split at hall
  · rcases mem_cons.mp hmem with rfl | hmem
    · exact hplus rfl
    · rw [hall c hmem] at hc
      cases hc
  · rw [hall c hmem] at hc
    cases hc

theorem stripPrefix_eq_some {start rest : List Char} :
    stripPrefix text start = some rest ↔ text = start ++ rest := by
  unfold stripPrefix
  constructor
  · intro h
    split_ifs at h with hstart
    obtain ⟨tail, rfl⟩ := isPrefixOf_iff_prefix.mp hstart
    rw [drop_left] at h
    rw [Option.some.inj h]
  · rintro rfl
    rw [if_pos ( isPrefixOf_iff_prefix.mpr (prefix_append start rest)), drop_left]

theorem contentRangeNumbers_iff {header : List UInt8} :
    contentRangeNumbers header = some (start, last, total) ↔ Denotes header start last total := by
  constructor
  · intro h
    obtain ⟨text, htext, h⟩ := bind_eq_some_iff.mp h
    obtain ⟨rest, hrest, h⟩ := bind_eq_some_iff.mp h
    obtain ⟨⟨span, third⟩, hspan, h⟩ := bind_eq_some_iff.mp h
    obtain ⟨⟨first, second⟩, hsides, h⟩ := bind_eq_some_iff.mp h
    obtain ⟨a, ha, h⟩ := bind_eq_some_iff.mp h
    obtain ⟨b, hb, h⟩ := bind_eq_some_iff.mp h
    obtain ⟨c, hc, h⟩ := bind_eq_some_iff.mp h
    cases h
    refine ⟨first, second, third, ?_, ha, hb, hc⟩
    rw [htext, stripPrefix_eq_some.mp hrest, (splitOnce_char.mp hspan).1,
      (splitOnce_char.mp hsides).1, append_assoc]
    rfl
  · rintro ⟨first, second, third, htext, ha, hb, hc⟩
    have hspan : splitOnce (first ++ '-' :: (second ++ '/' :: third)) ['/'] =
        some (first ++ '-' :: second, third) := by
      refine splitOnce_char.mpr ⟨by rw [append_assoc]; rfl, ?_⟩
      rw [mem_append, mem_cons, not_or, not_or]
      exact ⟨not_mem_of_parseU64 ha rfl (by decide), by decide,
        not_mem_of_parseU64 hb rfl (by decide)⟩
    have hsides : splitOnce (first ++ '-' :: second) ['-'] = some (first, second) :=
      splitOnce_char.mpr ⟨rfl, not_mem_of_parseU64 ha rfl (by decide)⟩
    refine bind_eq_some_iff.mpr ⟨_, htext, ?_⟩
    refine bind_eq_some_iff.mpr ⟨_, stripPrefix_eq_some.mpr rfl, ?_⟩
    refine bind_eq_some_iff.mpr ⟨_, hspan, bind_eq_some_iff.mpr ⟨_, hsides, ?_⟩⟩
    refine bind_eq_some_iff.mpr ⟨_, ha, bind_eq_some_iff.mpr ⟨_, hb, ?_⟩⟩
    exact bind_eq_some_iff.mpr ⟨_, hc, rfl⟩

/-- The answers that fit a range: one with exactly the positions, whose body is as long, or one with
everything for a range of everything. -/
structure Fits (w : Wanted) (response : RangeResponse) (accepted : Bool) : Prop where
  part : response.status = 206 → (accepted = true ↔ ∃ header start last total,
    response.contentRange = some header ∧ Denotes header start last total ∧
      Exactly w start last total ∧
      ∀ length, response.contentLength = some length → length = (w.positions total).card)
  whole : response.status = 200 → accepted = true → w = .onward 0 ∧ response.contentRange = none
  other : response.status ≠ 206 → response.status ≠ 200 → accepted = false

theorem Exactly.card (h : Exactly w start last total) :
    (w.positions total).card = last - start + 1 := by
  have hle := h.le
  rw [← h.1, Nat.card_Icc]
  omega

theorem Exactly.lt (h : Exactly w start last total) : last < total := by
  have hlast := (h.mem last).mpr ⟨h.le, le_rfl⟩
  cases w with
  | closed a b => exact (mem_closed.mp hlast).1
  | onward a => exact (mem_onward.mp hlast).1
  | suffix count => exact (mem_suffix.mp hlast).1

theorem denotes_unique {header : List UInt8} {start' last' total' : ℕ}
    (h : Denotes header start last total) (h' : Denotes header start' last' total') :
    start = start' ∧ last = last' ∧ total = total' := by
  have heq := (contentRangeNumbers_iff.mpr h).symm.trans (contentRangeNumbers_iff.mpr h')
  cases heq
  exact ⟨rfl, rfl, rfl⟩

theorem validRangeResponse_fits {last : List Char} (hvalue : rangeSides value = some (first, last))
    (h : Sides first last w) (response : RangeResponse) :
    ∃ accepted, validRangeResponse response (some value) = some accepted ∧
      Fits w response accepted := by
  unfold validRangeResponse
  dsimp only
  by_cases hok : response.status = 200
  · rw [if_pos hok]
    refine ⟨_, rfl, by omega, fun _ haccepted => ?_, fun _ hne => absurd hok hne⟩
    rw [Bool.and_eq_true, decide_eq_true_eq, isNone_iff_eq_none] at haccepted
    obtain ⟨rfl, hnone⟩ := haccepted
    refine ⟨?_, hnone⟩
    have hwanted := h.wanted_eq hvalue
    have hall : wanted "bytes=0-".toList = some (.onward 0) := by decide
    exact Option.some.inj (hwanted.symm.trans hall)
  rw [if_neg hok]
  by_cases hpartial : response.status = 206
  swap
  · rw [if_pos hpartial]
    exact ⟨false, rfl, fun h => absurd h hpartial, fun h => absurd h hok, fun _ _ => rfl⟩
  rw [if_neg (not_not_intro hpartial)]
  have hfits : ∀ accepted, (accepted = true ↔ ∃ header start last total,
      response.contentRange = some header ∧ Denotes header start last total ∧
        Exactly w start last total ∧
        ∀ length, response.contentLength = some length → length = (w.positions total).card) →
      Fits w response accepted :=
    fun accepted haccepted => ⟨fun _ => haccepted, fun h => absurd h hok, fun h => absurd hpartial h⟩
  cases hnumbers : response.contentRange.bind contentRangeNumbers with
  | none =>
    refine ⟨false, rfl, hfits _ (iff_of_false Bool.false_ne_true ?_)⟩
    rintro ⟨header, start, last, total, hheader, hdenotes, -⟩
    rw [hheader, bind_some, contentRangeNumbers_iff.mpr hdenotes] at hnumbers
    cases hnumbers
  | some numbers =>
    obtain ⟨start, final, total⟩ := numbers
    obtain ⟨header, hheader, hparsed⟩ := bind_eq_some_iff.mp hnumbers
    have hdenotes := contentRangeNumbers_iff.mp hparsed
    have htotal : total ≤ MAX := by
      obtain ⟨_, _, _, _, _, _, hthird⟩ := hdenotes
      exact parseU64_le hthird
    have hexactly : ∀ accepted, (accepted = true ↔ Exactly w start final total ∧
        ∀ length, response.contentLength = some length → length = (w.positions total).card) →
        Fits w response accepted := by
      refine fun accepted haccepted => hfits accepted (haccepted.trans ?_)
      constructor
      · rintro ⟨hpositions, hlength⟩
        exact ⟨header, start, final, total, hheader, hdenotes, hpositions, hlength⟩
      · rintro ⟨header', start', final', total', hheader', hdenotes', hpositions, hlength⟩
        cases hheader.symm.trans hheader'
        obtain ⟨rfl, rfl, rfl⟩ := denotes_unique hdenotes hdenotes'
        exact ⟨hpositions, hlength⟩
    dsimp only
    by_cases horder : total = 0 ∨ start > final ∨ final ≥ total
    · rw [if_pos horder]
      refine ⟨false, rfl, hexactly _ (iff_of_false Bool.false_ne_true ?_)⟩
      rintro ⟨hpositions, -⟩
      have hle := hpositions.le
      have hlt := hpositions.lt
      omega
    rw [if_neg horder]
    obtain ⟨fits, hfitsRequest, hspec⟩ :=
      fitsRequest_spec hvalue h (show start ≤ final by omega) (show final < total by omega) htotal
    cases hlength : response.contentLength with
    | none =>
      refine ⟨fits, hfitsRequest, hexactly _ ?_⟩
      rw [hspec, hlength]
      exact ⟨fun hpositions => ⟨hpositions, nofun⟩, And.left⟩
    | some length =>
      dsimp only
      rw [sub64_of_le (show start ≤ final by omega), bind_eq_bind, bind_some,
        add64_of_le (show final - start + 1 ≤ MAX by omega), bind_some]
      by_cases hsame : length = final - start + 1
      · rw [if_neg (not_not_intro hsame)]
        refine ⟨fits, hfitsRequest, hexactly _ ?_⟩
        rw [hspec, hlength]
        refine ⟨fun hpositions => ⟨hpositions, fun other hother => ?_⟩, And.left⟩
        rw [← Option.some.inj hother, hpositions.card]
        exact hsame
      · rw [if_pos hsame]
        refine ⟨false, rfl, hexactly _ (iff_of_false Bool.false_ne_true ?_)⟩
        rintro ⟨hpositions, hall⟩
        exact hsame ((hall length hlength).trans hpositions.card)

/-! ### Stored playlists -/

/-- What a playlist of a length answers: that no position is there, or the bytes at the positions. -/
def Answers (w : Wanted) (body : Body) (answer : PlaylistAnswer) : Prop :=
  (w.positions body.bytes.length = ∅ ∧ answer =
    ⟨"416 Range Not Satisfiable",
      "Content-Range: bytes */" ++ toString body.bytes.length ++ "\r\n", []⟩) ∨
  ∃ start last, Exactly w start last body.bytes.length ∧
    answer.status = "206 Partial Content" ∧
    answer.contentRange = "Content-Range: bytes " ++ toString start ++ "-" ++ toString last ++ "/" ++
      toString body.bytes.length ++ "\r\n" ∧
    answer.bytes.length = (w.positions body.bytes.length).card ∧
    ∀ i < answer.bytes.length, answer.bytes[i]? = body.bytes[start + i]?

theorem slice_spec {bytes : List UInt8} (hle : start ≤ last) (hlt : last < bytes.length) :
    ∃ part, slice bytes start last = some part ∧ part.length = last - start + 1 ∧
      ∀ i < part.length, part[i]? = bytes[start + i]? := by
  have hlength : ((bytes.take (last + 1)).drop start).length = last - start + 1 := by
    rw [length_drop, length_take]
    omega
  refine ⟨_, if_pos ⟨by omega, hlt⟩, hlength, fun i hi => ?_⟩
  rw [hlength] at hi
  rw [List.getElem?_drop, List.getElem?_take_of_lt (by omega)]

theorem playlistBounds_spec {last : List Char} (hvalue : rangeSides value = some (first, last))
    (h : Sides first last w) (hpos : 0 < length) (hmax : length ≤ MAX) :
    ∃ start final, playlistBounds value length = some (start, final) ∧
      (length ≤ start ∧ w.positions length = ∅ ∨
        start < length ∧ Exactly w start final length) := by
  have hone : sub64 length 1 = some (length - 1) := sub64_of_le hpos
  unfold playlistBounds
  rw [hvalue, bind_eq_bind, bind_some]
  dsimp only
  cases h with
  | @closed _ _ a b hfirst hlast ha hb hab =>
    have hfirst := isEmpty_eq_false_iff.mpr hfirst
    rw [hfirst, ha, hb, hone]
    refine ⟨a, min b (length - 1), rfl, ?_⟩
    by_cases hstart : a < length
    · exact .inr ⟨hstart, (exactly_closed hab).mpr (by omega)⟩
    · refine .inl ⟨by omega, Finset.eq_empty_of_forall_notMem fun i hi => ?_⟩
      rw [mem_closed] at hi
      omega
  | @onward _ a hfirst ha =>
    have hfirst := isEmpty_eq_false_iff.mpr hfirst
    rw [hfirst, ha, parseU64_nil, hone]
    refine ⟨a, min MAX (length - 1), rfl, ?_⟩
    by_cases hstart : a < length
    · exact .inr ⟨hstart, exactly_onward.mpr (by omega)⟩
    · refine .inl ⟨by omega, Finset.eq_empty_of_forall_notMem fun i hi => ?_⟩
      rw [mem_onward] at hi
      omega
  | @suffix _ count hcount hcountpos =>
    rw [hcount, hone]
    refine ⟨length - count, length - 1, rfl, .inr ⟨by omega, ?_⟩⟩
    exact (exactly_suffix hcountpos).mpr (by omega)

theorem playlistAnswer_spec {last : List Char} (hvalue : rangeSides value = some (first, last))
    (h : Sides first last w) (body : Body) (hpos : 0 < body.bytes.length) :
    ∃ answer, playlistAnswer body (some value) = some answer ∧ Answers w body answer := by
  obtain ⟨start, final, hbounds, hcases⟩ := playlistBounds_spec hvalue h hpos body.length_le
  unfold playlistAnswer
  dsimp only
  rw [hbounds, bind_eq_bind, bind_some]
  dsimp only
  rcases hcases with ⟨hout, hempty⟩ | ⟨hin, hpositions⟩
  · rw [if_pos hout]
    exact ⟨_, rfl, .inl ⟨hempty, rfl⟩⟩
  · rw [if_neg (Nat.not_le_of_gt hin)]
    obtain ⟨part, hpart, hlength, hbytes⟩ := slice_spec hpositions.le hpositions.lt
    rw [hpart]
    refine ⟨_, rfl, .inr ⟨start, final, hpositions, rfl, rfl, ?_, hbytes⟩⟩
    rw [hpositions.card]
    exact hlength

/-- Every range that is let through stands for positions; the answers of the source are taken if they
fit them, and a stored playlist answers with them. -/
theorem ranges_exact (value : List Char) (h : byteRange value = some true) :
    ∃ w, wanted value = some w ∧ w.Valid ∧
      (∀ response : RangeResponse, ∃ accepted,
        validRangeResponse response (some value) = some accepted ∧ Fits w response accepted) ∧
      ∀ body : Body, 0 < body.bytes.length →
        ∃ answer, playlistAnswer body (some value) = some answer ∧ Answers w body answer := by
  obtain ⟨first, last, w, hvalue, hsides⟩ := byteRange_sides h
  exact ⟨w, hsides.wanted_eq hvalue, hsides.valid,
    fun response => validRangeResponse_fits hvalue hsides response,
    fun body hpos => playlistAnswer_spec hvalue hsides body hpos⟩

/-- The last number of 64 bits as the end of a range. -/
theorem ranges_exact_max : byteRange "bytes=5-18446744073709551615".toList = some true ∧
    ∃ w, wanted "bytes=5-18446744073709551615".toList = some w ∧ w.Valid ∧
      (∀ response : RangeResponse, ∃ accepted,
        validRangeResponse response (some "bytes=5-18446744073709551615".toList) = some accepted ∧
          Fits w response accepted) ∧
      ∀ body : Body, 0 < body.bytes.length → ∃ answer,
        playlistAnswer body (some "bytes=5-18446744073709551615".toList) = some answer ∧
          Answers w body answer :=
  ⟨by decide, ranges_exact "bytes=5-18446744073709551615".toList (by decide)⟩

end Qbutt.Http
