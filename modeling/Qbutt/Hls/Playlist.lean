import Mathlib.Algebra.Field.Rat
import Qbutt.Rust.Bytes
import Qbutt.Rust.Str

/-!
# HLS playlists

`lines` and `media`: a playlist of a stream that has ended and is not encrypted, as its lines, with the
address of every resource apart from what is around it; and `hls_media`, which puts the name of the
saved file in place of the address.  `attributeOf` reads an attribute of a tag.
-/

namespace Qbutt.Hls

open Qbutt.Rust (isAsciiDigit digitsValue trim trimStartMatches stripPrefix splitOnce splitAtByte
  utf8Length)

abbrev Text := List Char

inductive Error where
  | format
  | unsupported
  deriving DecidableEq

/-- A line of a playlist: a tag, or a resource with its address and what is before and after it. -/
inductive Line where
  | tag (line : Text)
  | resource (before uri after : Text)
  deriving DecidableEq

def maxResources : ℕ := 10000

def contains (text : Text) (pattern : String) : Bool := decide (pattern.toList <:+: text)

def startsWith (text : Text) (pattern : String) : Bool := pattern.toList.isPrefixOf text

/-- `lines`; what ends a line is taken off with the whitespace around it. -/
def lines (body : Text) : Except Error (List Text) :=
  let lines := (((trimStartMatches body [Char.ofNat 0xfeff]).splitOn '\n').map trim).filter (· ≠ [])
  if lines.head? = some "#EXTM3U".toList then .ok lines else .error .format

/-! ### Attributes -/

/-- `trim_matches('"')`. -/
def trimQuotes (text : Text) : Text := (text.dropWhile (· = '"')).rdropWhile (· = '"')

def toggled (quoted : Bool) (c : Char) : Bool := if c = '"' then !quoted else quoted

/-- The loop of `attribute` over the rest of the attributes, with what has been read of the field. -/
def attributeLoop (name : String) : (quoted : Bool) → (field : Text) → Text → Option Text
  | _, field, [] =>
    (splitOnce field ['=']).bind fun (key, value) =>
      if key = name.toList then some (trimQuotes value) else none
  | quoted, field, c :: rest =>
    if c ≠ ',' ∨ toggled quoted c then attributeLoop name (toggled quoted c) (field ++ [c]) rest
    else
      (splitOnce field ['=']).bind fun (key, value) =>
        if key = name.toList then some (trimQuotes value)
        else attributeLoop name (toggled quoted c) [] rest

/-- `attribute`, of a tag. -/
def attributeOf (attributes : Text) (name : String) : Option Text :=
  attributeLoop name false [] attributes

/-! ### Durations -/

/-- `parse::<f64>` of a decimal number, before it is rounded. -/
def parseDecimal (text : Text) : Option ℚ :=
  let (negative, text) := match text with
    | '-' :: text => (true, text)
    | '+' :: text => (false, text)
    | text => (false, text)
  let (whole, text) := text.span isAsciiDigit
  let (fraction, text) := match text with
    | '.' :: text => text.span isAsciiDigit
    | text => ([], text)
  let exponent : Option ℤ := match text with
    | [] => some 0
    | e :: text =>
      let (negative, digits) := match text with
        | '-' :: text => (true, text)
        | '+' :: text => (false, text)
        | text => (false, text)
      if (e = 'e' ∨ e = 'E') ∧ digits ≠ [] ∧ digits.all isAsciiDigit then
        some (if negative then -(digitsValue digits : ℤ) else digitsValue digits)
      else none
  if whole = [] ∧ fraction = [] then none
  else exponent.map fun exponent =>
    let value : ℚ := digitsValue (whole ++ fraction) * (10 : ℚ) ^ (exponent - (fraction.length : ℤ))
    if negative then -value else value

/-- The duration of a segment is finite, positive and at most an hour, when it is rounded to 53
bits. -/
def isDuration (text : Text) : Bool :=
  match parseDecimal text with
  | some value => 1 / 2 ^ 1075 < value && value ≤ 3600 + 1 / 2 ^ 42
  | none => false

/-! ### Media playlists -/

/-- The variables of `media`. -/
structure Progress where
  pendingSegment : Bool := false
  segments : ℕ := 0
  resources : ℕ := 0

/-- The tags that a playlist may have. -/
def listedTags : List String :=
  ["#EXT-X-VERSION", "#EXT-X-TARGETDURATION", "#EXT-X-MEDIA-SEQUENCE",
    "#EXT-X-DISCONTINUITY-SEQUENCE", "#EXT-X-DISCONTINUITY", "#EXT-X-INDEPENDENT-SEGMENTS",
    "#EXT-X-ALLOW-CACHE", "#EXT-X-PLAYLIST-TYPE", "#EXT-X-PROGRAM-DATE-TIME", "#EXT-X-ENDLIST"]

/-- `split(',').next()` and the like. -/
def before (c : Char) (text : Text) : Text := text.takeWhile (· ≠ c)

/-- The branch of `media` for a `#EXT-X-MAP`. -/
def mapLine (line attributes : Text) : Except Error Line :=
  if contains attributes "BYTERANGE" then .error .unsupported
  else
    match attributeOf attributes "URI", splitOnce line "URI=\"".toList with
    | some uri, some (front, rest) =>
      match splitAtByte rest (utf8Length uri) with
      | some (_, '"' :: after) =>
        if contains after "URI=" then .error .format
        else .ok (.resource (front ++ "URI=\"".toList) uri ('"' :: after))
      | _ => .error .format
    | _, _ => .error .format

/-- Whether a line that is no segment, duration, map or key is refused. -/
def isRefused (line : Text) : Bool :=
  (startsWith (before ':' line) "#EXT-X-" &&
      !listedTags.contains (String.ofList (before ':' line))) ||
    contains line "URI=" ||
    (startsWith line "#EXT-X-PLAYLIST-TYPE:" && line ≠ "#EXT-X-PLAYLIST-TYPE:VOD".toList)

/-- The body of the loop of `media`. -/
def mediaLine (progress : Progress) (line : Text) : Except Error (Line × Progress) :=
  if !startsWith line "#" then
    if !progress.pendingSegment then .error .format
    else .ok (.resource [] line [], ⟨false, progress.segments + 1, progress.resources + 1⟩)
  else
    match stripPrefix line "#EXTINF:".toList with
    | some duration =>
      if progress.pendingSegment || !isDuration (before ',' duration) then .error .format
      else .ok (.tag line, { progress with pendingSegment := true })
    | none =>
      match stripPrefix line "#EXT-X-MAP:".toList with
      | some attributes => do
        let resource ← mapLine line attributes
        return (resource, { progress with resources := progress.resources + 1 })
      | none =>
        match stripPrefix line "#EXT-X-KEY:".toList with
        | some attributes =>
          if attributes ≠ "METHOD=NONE".toList then .error .unsupported
          else .ok (.tag line, progress)
        | none => if isRefused line then .error .unsupported else .ok (.tag line, progress)

def mediaLoop : Progress → List Text → Except Error (List Line)
  | progress, [] =>
    if progress.pendingSegment || progress.segments = 0 then .error .format else .ok []
  | progress, line :: lines => do
    let (item, progress) ← mediaLine progress line
    if maxResources < progress.resources then .error .unsupported
    else
      let items ← mediaLoop progress lines
      return item :: items

def media (lines : List Text) : Except Error (List Line) :=
  if !lines.contains "#EXT-X-ENDLIST".toList then .error .unsupported else mediaLoop {} lines

/-! ### Local playlists -/

/-- The file name under which `save` stores a resource. -/
def localName (next : ℕ) (extension : Text) : Text :=
  "resource-".toList ++ next.repr.toList ++ '.' :: extension

/-- The loop of `hls_media`: every resource is saved, with the extension of its final address. -/
def rewritten (extensionOf : Text → Text) : (next : ℕ) → List Line → List Text
  | _, [] => []
  | next, .tag line :: items => line :: rewritten extensionOf next items
  | next, .resource before uri after :: items =>
    (before ++ localName next (extensionOf uri) ++ after) :: rewritten extensionOf (next + 1) items

end Qbutt.Hls
