import Mathlib.Data.List.Forall2
import Mathlib.Data.List.Infix

/-!
# Framing

A stream is cut into frames by a parser that is run on what has arrived so far: it reads a frame of
some size from the front, waits for more, or rejects the stream.  A parser is stable if its verdict
does not depend on what comes behind the frame (`StableParser`).

* `decode` cuts a whole stream into frames.
* `decode_append`: cutting a stream in two pieces gives the same frames.
* `frames_decode`: the frames are consecutive parts of the stream.
* `feedAll_eq`: a reader that gets the stream in pieces, and gives up on a piece of a frame that
  exceeds its limit, reads the frames of the stream, if no frame exceeds the limit.
-/

namespace Qbutt

open List

/-- What a parser says about the front of a stream. -/
inductive Parsed (ρ ε : Type) where
  | ok (frame : ρ) (size : ℕ)
  | incomplete
  | bad (error : ε)

/-- How a stream ends behind its frames: with a part of a frame, or with a malformed one. -/
inductive Ending (α ε : Type) where
  | waiting (data : List α)
  | stopped (error : ε) (data : List α)

/-- A parser whose verdict depends on the bytes of the frame only. -/
structure StableParser {α ρ ε : Type} (parse : List α → Parsed ρ ε) : Prop where
  size_pos : ∀ {data frame size}, parse data = .ok frame size → 0 < size
  size_le : ∀ {data frame size}, parse data = .ok frame size → size ≤ data.length
  short : ∀ {data frame size}, parse data = .ok frame size →
    ∀ n < size, parse (data.take n) = .incomplete
  extend : ∀ {data frame size}, parse data = .ok frame size →
    ∀ rest, parse (data.take size ++ rest) = .ok frame size
  bad_append : ∀ {data error}, parse data = .bad error →
    ∀ rest, parse (data ++ rest) = .bad error

section Decode

variable {α ρ ε : Type} (parse : List α → Parsed ρ ε)

/-- The frames of a stream, at most as many as the fuel says. -/
def decodeFrom : ℕ → List α → List ρ × Ending α ε
  | 0, data => ([], .waiting data)
  | fuel + 1, data =>
    if data.isEmpty then ([], .waiting data)
    else
      match parse data with
      | .ok frame size =>
        let result := decodeFrom fuel (data.drop size)
        (frame :: result.1, result.2)
      | .incomplete => ([], .waiting data)
      | .bad error => ([], .stopped error data)

/-- The frames of a stream.  A frame has an element at least, so the fuel suffices. -/
def decode (data : List α) : List ρ × Ending α ε := decodeFrom parse data.length data

end Decode

namespace StableParser

variable {α ρ ε : Type} {parse : List α → Parsed ρ ε} {data : List α}

theorem ne_nil (h : StableParser parse) {frame : ρ} {size : ℕ} (hok : parse data = .ok frame size) :
    data ≠ [] := by
  rintro rfl
  have hpos := h.size_pos hok
  have hle := h.size_le hok
  rw [length_nil] at hle
  omega

/-- The verdict on a frame holds for the stream that goes on behind it. -/
theorem append (h : StableParser parse) {data : List α} {frame : ρ} {size : ℕ}
    (hok : parse data = .ok frame size) (rest : List α) :
    parse (data ++ rest) = .ok frame size := by
  have hext := h.extend hok (data.drop size ++ rest)
  rwa [← append_assoc, take_append_drop] at hext

theorem decodeFrom_congr (h : StableParser parse) {fuel fuel' : ℕ} (hfuel : data.length ≤ fuel)
    (hfuel' : data.length ≤ fuel') : decodeFrom parse fuel data = decodeFrom parse fuel' data := by
  induction fuel generalizing fuel' data with
  | zero =>
    obtain rfl : data = [] := length_eq_zero_iff.mp (Nat.le_zero.mp hfuel)
    cases fuel' <;> rfl
  | succ fuel ih =>
    cases fuel' with
    | zero =>
      obtain rfl : data = [] := length_eq_zero_iff.mp (Nat.le_zero.mp hfuel')
      rfl
    | succ fuel' =>
      unfold decodeFrom
      split_ifs with hempty
      · rfl
      cases hparse : parse data with
      | incomplete => rfl
      | bad error => rfl
      | ok frame size =>
        have hpos := h.size_pos hparse
        have hle := h.size_le hparse
        have hdrop : (data.drop size).length ≤ fuel := by
          rw [length_drop]
          omega
        have hdrop' : (data.drop size).length ≤ fuel' := by
          rw [length_drop]
          omega
        simp only
        rw [ih hdrop hdrop']

theorem decode_ok (h : StableParser parse) {data : List α} {frame : ρ} {size : ℕ}
    (hok : parse data = .ok frame size) :
    decode parse data =
      (frame :: (decode parse (data.drop size)).1, (decode parse (data.drop size)).2) := by
  have hpos := h.size_pos hok
  have hle := h.size_le hok
  obtain ⟨fuel, hfuel⟩ : ∃ fuel, data.length = fuel + 1 := ⟨data.length - 1, by omega⟩
  have hempty : data.isEmpty = false := by simpa using h.ne_nil hok
  have hdrop : (data.drop size).length ≤ fuel := by
    rw [length_drop]
    omega
  unfold decode
  rw [hfuel, decodeFrom, hempty, hok]
  simp only [Bool.false_eq_true, if_false]
  rw [h.decodeFrom_congr hdrop le_rfl]

theorem decode_incomplete {data : List α} (hincomplete : parse data = .incomplete) :
    decode parse data = ([], .waiting data) := by
  unfold decode
  cases data with
  | nil => rfl
  | cons a data =>
    rw [length_cons, decodeFrom, hincomplete]
    rfl

theorem decode_bad {error : ε} (hne : data ≠ []) (hbad : parse data = .bad error) :
    decode parse data = ([], .stopped error data) := by
  unfold decode
  cases data with
  | nil => exact absurd rfl hne
  | cons a data =>
    rw [length_cons, decodeFrom, hbad]
    rfl

/-- A way to prove something of every stream: from what is behind its first frame. -/
theorem frame_induction (h : StableParser parse) {P : List α → Prop} (nil : P [])
    (incomplete : ∀ data, data ≠ [] → parse data = .incomplete → P data)
    (bad : ∀ data error, data ≠ [] → parse data = .bad error → P data)
    (ok : ∀ data frame size, parse data = .ok frame size → P (data.drop size) → P data)
    (data : List α) : P data := by
  induction hlength : data.length using Nat.strong_induction_on generalizing data with
  | _ length ih =>
    by_cases hne : data = []
    · rw [hne]
      exact nil
    cases hparse : parse data with
    | incomplete => exact incomplete data hne hparse
    | bad error => exact bad data error hne hparse
    | ok frame size =>
      have hpos := h.size_pos hparse
      have hle := h.size_le hparse
      refine ok data frame size hparse (ih (data.drop size).length ?_ _ rfl)
      rw [length_drop]
      omega

/-- What comes later is decoded behind the frames of what came first. -/
theorem decode_append (h : StableParser parse) (data more : List α) :
    decode parse (data ++ more) =
      match (decode parse data).2 with
      | .waiting rest => ((decode parse data).1 ++ (decode parse (rest ++ more)).1,
          (decode parse (rest ++ more)).2)
      | .stopped error rest => ((decode parse data).1, .stopped error (rest ++ more)) := by
  refine h.frame_induction (P := fun data => decode parse (data ++ more) =
      match (decode parse data).2 with
      | .waiting rest => ((decode parse data).1 ++ (decode parse (rest ++ more)).1,
          (decode parse (rest ++ more)).2)
      | .stopped error rest => ((decode parse data).1, .stopped error (rest ++ more)))
    ?_ ?_ ?_ ?_ data
  · rfl
  · intro data _ hincomplete
    rw [decode_incomplete hincomplete]
    rfl
  · intro data error hne hbad
    have hne' : data ++ more ≠ [] := by simp [hne]
    rw [decode_bad hne hbad, decode_bad hne' (h.bad_append hbad more)]
  · intro data frame size hok ih
    have hle := h.size_le hok
    rw [h.decode_ok hok, h.decode_ok (h.append hok more), drop_append_of_le_length hle, ih]
    cases (decode parse (data.drop size)).2 <;> rfl

/-- The frames are consecutive parts of the stream, and what is left of it is as it ends. -/
theorem frames_decode (h : StableParser parse) (data : List α) :
    ∃ parts : List (List α), List.Forall₂ (fun part frame => parse part = .ok frame part.length)
        parts (decode parse data).1 ∧
      match (decode parse data).2 with
      | .waiting rest => data = parts.flatten ++ rest ∧ (rest = [] ∨ parse rest = .incomplete)
      | .stopped error rest => data = parts.flatten ++ rest ∧ parse rest = .bad error := by
  refine h.frame_induction (P := fun data => ∃ parts : List (List α),
      List.Forall₂ (fun part frame => parse part = .ok frame part.length)
        parts (decode parse data).1 ∧
      match (decode parse data).2 with
      | .waiting rest => data = parts.flatten ++ rest ∧ (rest = [] ∨ parse rest = .incomplete)
      | .stopped error rest => data = parts.flatten ++ rest ∧ parse rest = .bad error)
    ?_ ?_ ?_ ?_ data
  · exact ⟨[], .nil, rfl, Or.inl rfl⟩
  · intro data _ hincomplete
    rw [decode_incomplete hincomplete]
    exact ⟨[], .nil, rfl, Or.inr hincomplete⟩
  · intro data error hne hbad
    rw [decode_bad hne hbad]
    exact ⟨[], .nil, rfl, hbad⟩
  · rintro data frame size hok ⟨parts, hparts, hrest⟩
    have hle := h.size_le hok
    rw [h.decode_ok hok]
    have hpart : parse (data.take size) = .ok frame (data.take size).length := by
      have hext := h.extend hok []
      rw [append_nil] at hext
      rw [hext, length_take, Nat.min_eq_left hle]
    refine ⟨data.take size :: parts, .cons hpart hparts, ?_⟩
    cases hending : (decode parse (data.drop size)).2 with
    | waiting rest =>
      rw [hending] at hrest
      simp only at hrest ⊢
      rw [flatten_cons, append_assoc, ← hrest.1, take_append_drop]
      exact ⟨rfl, hrest.2⟩
    | stopped error rest =>
      rw [hending] at hrest
      simp only at hrest ⊢
      rw [flatten_cons, append_assoc, ← hrest.1, take_append_drop]
      exact ⟨rfl, hrest.2⟩

end StableParser

/-! ### Readers -/

section Reader

variable {α ρ ε : Type} (parse : List α → Parsed ρ ε) (limit : ℕ)

/-- Where a reader stands: it holds a part of a frame, it has met a malformed frame, or it has
given up on a frame that is too long. -/
inductive Reader (α ε : Type) where
  | waiting (data : List α)
  | stopped (error : ε)
  | exceeded

def Ending.reader : Ending α ε → Reader α ε
  | .waiting rest => .waiting rest
  | .stopped error _ => .stopped error

def Ending.held : Ending α ε → Reader α ε
  | .waiting rest => if limit < rest.length then .exceeded else .waiting rest
  | .stopped error _ => .stopped error

/-- Read what has arrived; the frames it completes. -/
def Reader.feed : Reader α ε → List α → List ρ × Reader α ε
  | .waiting data, more =>
    ((decode parse (data ++ more)).1, (decode parse (data ++ more)).2.held limit)
  | reader, _ => ([], reader)

def Reader.feedAll (reader : Reader α ε) : List (List α) → List ρ × Reader α ε
  | [] => ([], reader)
  | piece :: pieces =>
    let first := reader.feed parse limit piece
    let result := first.2.feedAll pieces
    (first.1 ++ result.1, result.2)

/-- No frame of the stream exceeds the limit: at no point more than that waits to be completed. -/
def FramesFit (data : List α) : Prop :=
  ∀ front, front <+: data → ∀ rest, (decode parse front).2 = .waiting rest → rest.length ≤ limit

end Reader

namespace StableParser

variable {α ρ ε : Type} {parse : List α → Parsed ρ ε} {limit : ℕ}

/-- Behind a frame that is not complete nothing can be decoded before more arrives. -/
theorem decode_waiting (h : StableParser parse) {data rest : List α}
    (hwaiting : (decode parse data).2 = .waiting rest) : decode parse rest = ([], .waiting rest) := by
  obtain ⟨parts, -, hrest⟩ := h.frames_decode data
  rw [hwaiting] at hrest
  rcases hrest.2 with rfl | hincomplete
  · rfl
  · exact decode_incomplete hincomplete

theorem feedAll_exceeded (pieces : List (List α)) :
    (Reader.exceeded : Reader α ε).feedAll parse limit pieces = ([], .exceeded) := by
  induction pieces with
  | nil => rfl
  | cons piece pieces ih =>
    show ([] ++ _, _) = _
    rw [nil_append]
    exact ih

theorem feedAll_stopped (error : ε) (pieces : List (List α)) :
    (Reader.stopped error : Reader α ε).feedAll parse limit pieces = ([], .stopped error) := by
  induction pieces with
  | nil => rfl
  | cons piece pieces ih =>
    show ([] ++ _, _) = _
    rw [nil_append]
    exact ih

/-- A reader that holds what waits behind the frames of a stream reads the frames of what
follows. -/
theorem feedAll_waiting (h : StableParser parse) {front rest : List α} {pieces : List (List α)}
    (hwaiting : (decode parse front).2 = .waiting rest)
    (hfit : FramesFit parse limit (front ++ pieces.flatten)) :
    (Reader.waiting rest).feedAll parse limit pieces =
      ((decode parse (rest ++ pieces.flatten)).1,
        (decode parse (rest ++ pieces.flatten)).2.reader) := by
  induction pieces generalizing front rest with
  | nil =>
    rw [flatten_nil, append_nil, h.decode_waiting hwaiting]
    rfl
  | cons piece pieces ih =>
    rw [flatten_cons, ← append_assoc] at hfit ⊢
    -- the frames so far end where those of the piece behind them do
    have hfront : (decode parse (front ++ piece)).2 = (decode parse (rest ++ piece)).2 := by
      rw [h.decode_append front piece, hwaiting]
    have happend := h.decode_append (rest ++ piece) pieces.flatten
    unfold Reader.feedAll Reader.feed
    cases hending : (decode parse (rest ++ piece)).2 with
    | waiting rest' =>
      have hle := hfit (front ++ piece) (prefix_append _ _) rest' (hfront.trans hending)
      rw [hending] at happend
      simp only [hending, Ending.held, if_neg (not_lt.mpr hle)]
      rw [ih (hfront.trans hending) hfit, happend]
    | stopped error rest' =>
      rw [hending] at happend
      simp only [hending, Ending.held]
      rw [feedAll_stopped, append_nil, happend]
      rfl

theorem feedAll_eq (h : StableParser parse) {pieces : List (List α)}
    (hfit : FramesFit parse limit pieces.flatten) :
    (Reader.waiting []).feedAll parse limit pieces =
      ((decode parse pieces.flatten).1, (decode parse pieces.flatten).2.reader) :=
  h.feedAll_waiting (rfl : (decode parse []).2 = .waiting []) hfit

end StableParser

end Qbutt
