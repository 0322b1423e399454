import Mathlib.Data.List.SplitOn
import Mathlib.Data.Rat.Floor
import Qbutt.Rust.Str

/-!
# The segments of a DASH template

`dash_template_urls` and `substitute_template`: a `SegmentTemplate` stands for a list of segments, by
its timeline or by one duration for all, and every segment has an address.

Attributes are the texts of the manifest, and what joins an address to the base is a parameter.  The
duration of the presentation is an exact number of seconds, and so is what is computed from it.
-/

namespace Qbutt.Dash

open Qbutt.Rust (parseU64 parseI64 stripPrefix stripSuffix)

def maxResources : ℕ := 10000

inductive Fault where
  | format
  | unsupportedMedia
  /-- An operation that is not checked does not fit into 64 bits: with checks it panics, and without
  them its value is wrong. -/
  | overflow
  deriving DecidableEq

abbrev Parsed (α : Type) := Except Fault α

/-- The duration of a presentation in seconds, as `parse_iso_duration` has it. -/
abbrev Duration := { seconds : ℚ // 0 < seconds ∧ seconds ≤ 24 * 60 * 60 }

/-- An `S` of a `SegmentTimeline`. -/
structure Entry where
  t : Option String := none
  d : Option String := none
  r : Option String := none

structure SegmentTemplate where
  media : Option String := none
  initialization : Option String := none
  startNumber : Option String := none
  timescale : Option String := none
  duration : Option String := none
  timeline : Option (List Entry) := none

structure Representation where
  id : Option String := none
  bandwidth : Option String := none

def okOr {α : Type} (value : Option α) (fault : Fault) : Parsed α := value.elim (.error fault) .ok

/-- `parse::<u64>` of an attribute. -/
def u64Attribute (text : Option String) : Option ℕ := text.bind fun s => parseU64 s.toList

/-- `ceil() as u64`; what does not fit is the greatest number. -/
def ceilU64 (q : ℚ) : ℕ := min ⌈q⌉.toNat (2 ^ 64 - 1)

def checkedAdd (a b : ℕ) : Parsed ℕ := if a + b < 2 ^ 64 then .ok (a + b) else .error .format

/-- `*`. -/
def mulU64 (a b : ℕ) : Parsed ℕ := if a * b < 2 ^ 64 then .ok (a * b) else .error .overflow

def divCeil (a b : ℕ) : ℕ := (a + b - 1) / b

/-! ### Segments -/

/-- `t` of an entry, as far as it is a number. -/
def Entry.start (entry : Entry) : Option ℕ := u64Attribute entry.t

def Entry.repeats (entry : Entry) : Option ℤ := parseI64 (entry.r.getD "0").toList

/-- The number of segments of an entry whose first one starts at a time. -/
def Entry.count (entry : Entry) (rest : List Entry) (presentationEnd : Option ℕ)
    (repeats : ℤ) (time duration : ℕ) : Parsed ℕ :=
  if repeats = -1 then do
    let stop ← okOr ((rest.head?.bind Entry.start).or presentationEnd) .unsupportedMedia
    return divCeil (stop - time) duration
  else .ok (repeats.toNat + 1)

def pushItems (duration : ℕ) : (count time : ℕ) → Parsed (List ℕ × ℕ)
  | 0, time => .ok ([], time)
  | count + 1, time => do
    let next ← checkedAdd time duration
    let (items, stop) ← pushItems duration count next
    return (time :: items, stop)

def timelineItems (presentationEnd : Option ℕ) : (time : ℕ) → List Entry → Parsed (List ℕ)
  | _, [] => .ok []
  | time, entry :: rest => do
    let duration ← okOr (u64Attribute entry.d) .format
    let time := entry.start.getD time
    let repeats ← okOr entry.repeats .format
    if duration = 0 ∨ ¬ (-1 ≤ repeats ∧ repeats ≤ maxResources) then .error .format
    else
      let count ← entry.count rest presentationEnd repeats time duration
      if count = 0 ∨ maxResources < count then .error .format
      else
        let (items, time) ← pushItems duration count time
        let others ← timelineItems presentationEnd time rest
        return items ++ others

def plainItems (template : SegmentTemplate) (timescale : ℕ) (seconds : Option Duration) :
    Parsed (List ℕ) := do
  let seconds ← okOr seconds .unsupportedMedia
  let duration ← okOr (u64Attribute template.duration) .format
  if duration = 0 then .error .format
  else
    let count := ceilU64 (seconds.val * timescale / (duration : ℚ))
    if count = 0 ∨ maxResources < count then .error .format
    else (List.range count).mapM fun index => mulU64 index duration

def segments (template : SegmentTemplate) (timescale : ℕ) (seconds : Option Duration) :
    Parsed (List ℕ) :=
  match template.timeline with
  | some entries =>
    timelineItems (seconds.map fun seconds => ceilU64 (seconds.val * timescale)) 0 entries
  | none => plainItems template timescale seconds

/-! ### Addresses -/

/-- The values that a template may ask for. -/
structure Values where
  id : String
  bandwidth : ℕ
  number : ℕ
  time : ℕ

/-- `{number:0width$}`. -/
def padded (width number : ℕ) : List Char :=
  List.replicate (width - number.repr.length) '0' ++ number.repr.toList

def Values.text (values : Values) (variableName : List Char) : Parsed (List Char) :=
  if variableName = [] then .ok ['$']
  else if variableName = "RepresentationID".toList then .ok values.id.toList
  else if variableName = "Bandwidth".toList then .ok values.bandwidth.repr.toList
  else if variableName = "Time".toList then .ok values.time.repr.toList
  else if variableName = "Number".toList then .ok values.number.repr.toList
  else
    match (stripPrefix variableName "Number%0".toList).bind (stripSuffix · ['d']) with
    | some width => do
      let width ← okOr (parseU64 width) .format
      if 12 < width then .error .format else return padded width values.number
    | none => .error .format

/-- The loop of `substitute_template` over what is left of the parts. -/
def Values.substituteParts (values : Values) : List (List Char) → Parsed (List Char)
  | [] => .ok []
  | [_] => .error .format
  | variableName :: literal :: parts => do
    let text ← values.text variableName
    let rest ← values.substituteParts parts
    return text ++ literal ++ rest

def substituteTemplate (template : List Char) (values : Values) : Parsed (List Char) :=
  match template.splitOn '$' with
  | [] => .ok []
  | literal :: parts => do
    let rest ← values.substituteParts parts
    return literal ++ rest

section Urls

variable {Url : Type} (join : Url → String → Option Url) (base : Url)

/-- The address of a template, joined to the base. -/
def resolve (template : String) (values : Values) : Parsed Url := do
  let address ← substituteTemplate template.toList values
  okOr (join base (String.ofList address)) .format

def segmentUrls (media id : String) (bandwidth start : ℕ) : (index : ℕ) → List ℕ → Parsed (List Url)
  | _, [] => .ok []
  | index, time :: times => do
    let number ← checkedAdd start index
    let url ← resolve join base media ⟨id, bandwidth, number, time⟩
    let urls ← segmentUrls media id bandwidth start (index + 1) times
    return url :: urls

/-- The address of the initialization, if there is one. -/
def initializationUrls (initialization : Option String) (values : Values) : Parsed (List Url) :=
  match initialization with
  | some initial => do
    let url ← resolve join base initial values
    return [url]
  | none => .ok []

def dashTemplateUrls (template : SegmentTemplate) (representation : Representation)
    (seconds : Option Duration) : Parsed (List Url) := do
  let id ← okOr representation.id .format
  let bandwidth ← okOr (u64Attribute representation.bandwidth) .format
  let media ← okOr template.media .format
  let start ← okOr (parseU64 (template.startNumber.getD "1").toList) .format
  let timescale ← okOr (parseU64 (template.timescale.getD "1").toList) .format
  if timescale = 0 then .error .format
  else
    let times ← segments template timescale seconds
    match times with
    | [] => .error .format
    | first :: _ =>
      if maxResources < times.length then .error .format
      else
        let initial ← initializationUrls join base template.initialization
          ⟨id, bandwidth, start, first⟩
        let urls ← segmentUrls join base media id bandwidth start 0 times
        return initial ++ urls

end Urls

end Qbutt.Dash
