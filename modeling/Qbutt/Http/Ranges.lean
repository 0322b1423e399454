import Qbutt.Rust.Str
import Qbutt.Rust.Bytes

/-!
# Media ranges

The `Range` header of the player: which values are let through (`byteRange`), which answers of the
source fit it (`validRangeResponse`), and what a stored playlist answers by itself
(`playlistAnswer`).  Arithmetic of 64-bit numbers, `unwrap` and slices have no result where the code
would panic.
-/

namespace Qbutt.Http

open Rust

/-! ### Numbers and slices -/

/-- `usize::MAX` and `u64::MAX`. -/
def MAX : ℕ := 2 ^ 64 - 1

/-- `-`, which must not go below zero. -/
def sub64 (a b : ℕ) : Option ℕ := if b ≤ a then some (a - b) else none

/-- `+`, which must not exceed 64 bits. -/
def add64 (a b : ℕ) : Option ℕ := if a + b ≤ MAX then some (a + b) else none

def slice (bytes : List UInt8) (start last : ℕ) : Option (List UInt8) :=
  if start ≤ last + 1 ∧ last < bytes.length then some ((bytes.take (last + 1)).drop start) else none

/-! ### The header of the player -/

/-- The two sides of the hyphen, behind `bytes=`. -/
def rangeSides (value : List Char) : Option (List Char × List Char) :=
  (stripPrefix value "bytes=".toList).bind fun value => splitOnce value ['-']

def isSide (number : List Char) : Bool :=
  number.isEmpty || (byteLength (String.ofList number) ≤ 20 && (parseU64 number).isSome)

def byteRange (value : List Char) : Option Bool :=
  match rangeSides value with
  | none => some false
  | some (start, last) =>
    if (!start.isEmpty || (parseU64 last).any (0 < ·)) && (isSide start && isSide last) then
      if start.isEmpty || last.isEmpty then some true
      else do
        let first ← parseU64 start
        let second ← parseU64 last
        return first ≤ second
    else some false

/-! ### Answers of the source -/

/-- What is read of the answer: the status, the first `Content-Range`, and the length of the body as
far as it is known. -/
structure RangeResponse where
  status : ℕ
  contentRange : Option (List UInt8)
  contentLength : Option ℕ

/-- `to_str` of a header: visible characters of ASCII, blanks and tabs. -/
def headerText (value : List UInt8) : Option (List Char) :=
  if value.all fun b => (32 ≤ b && b < 127) || b == 9 then
    some (value.map fun b => Char.ofNat b.toNat)
  else none

def contentRangeNumbers (value : List UInt8) : Option (ℕ × ℕ × ℕ) := do
  let text ← headerText value
  let rest ← stripPrefix text "bytes ".toList
  let (span, total) ← splitOnce rest ['/']
  let (start, last) ← splitOnce span ['-']
  return (← parseU64 start, ← parseU64 last, ← parseU64 total)

/-- The last part of `valid_range_response`: the requested range against the numbers. -/
def fitsRequest (requested : List Char) (start last total : ℕ) : Option Bool :=
  match rangeSides requested with
  | none => some false
  | some (first, second) =>
    if first.isEmpty then
      match parseU64 second with
      | none => some false
      | some count =>
        if 0 < count then do
          if last = (← sub64 total 1) then return (← add64 (← sub64 last start) 1) = min count total
          else return false
        else some false
    else
      if (parseU64 first).any (· = start) then do
        let final ← sub64 total 1
        if second.isEmpty && last = final then return true
        else return (parseU64 second).any fun number => last = min number final
      else some false

def validRangeResponse (response : RangeResponse) (requested : Option (List Char)) : Option Bool :=
  match requested with
  | none => some (response.status = 200)
  | some requested =>
    if response.status = 200 then
      some (requested = "bytes=0-".toList && response.contentRange.isNone)
    else if response.status ≠ 206 then some false
    else
      match response.contentRange.bind contentRangeNumbers with
      | none => some false
      | some (start, last, total) =>
        if total = 0 ∨ start > last ∨ last ≥ total then some false
        else do
          match response.contentLength with
          | some length =>
            if length ≠ (← add64 (← sub64 last start) 1) then return false
            else fitsRequest requested start last total
          | none => fitsRequest requested start last total

/-! ### Stored playlists -/

/-- A body that is kept: a `Vec`, whose length is a 64-bit number. -/
structure Body where
  bytes : List UInt8
  length_le : bytes.length ≤ MAX

structure PlaylistAnswer where
  status : String
  contentRange : String
  bytes : List UInt8

/-- The first and the last position of the requested range. -/
def playlistBounds (range : List Char) (length : ℕ) : Option (ℕ × ℕ) := do
  let (first, last) ← rangeSides range
  if first.isEmpty then
    return (length - (parseU64 last).getD MAX, ← sub64 length 1)
  else
    return ((parseU64 first).getD MAX, min ((parseU64 last).getD MAX) (← sub64 length 1))

/-- The branch of `handle` for a stored playlist, with the range of the request. -/
def playlistAnswer (body : Body) (range : Option (List Char)) : Option PlaylistAnswer :=
  match range with
  | none => some ⟨"200 OK", "", body.bytes⟩
  | some range => do
    let (start, last) ← playlistBounds range body.bytes.length
    if start ≥ body.bytes.length then
      return ⟨"416 Range Not Satisfiable",
        "Content-Range: bytes */" ++ toString body.bytes.length ++ "\r\n", []⟩
    else
      return ⟨"206 Partial Content",
        "Content-Range: bytes " ++ toString start ++ "-" ++ toString last ++ "/" ++
          toString body.bytes.length ++ "\r\n",
        ← slice body.bytes start last⟩

def PlaylistAnswer.head (answer : PlaylistAnswer) : String :=
  if answer.status = "416 Range Not Satisfiable" then
    "HTTP/1.1 416 Range Not Satisfiable\r\n" ++ answer.contentRange ++
      "Content-Length: 0\r\nConnection: close\r\n\r\n"
  else
    "HTTP/1.1 " ++ answer.status ++ "\r\nContent-Type: application/vnd.apple.mpegurl\r\n" ++
      "Content-Length: " ++ toString answer.bytes.length ++ "\r\n" ++ answer.contentRange ++
      "Cache-Control: no-store\r\nConnection: close\r\n\r\n"

/-- What is written to the player: the head, and the bytes if the method is `GET`. -/
def PlaylistAnswer.written (answer : PlaylistAnswer) (get : Bool) : List UInt8 :=
  answer.head.toUTF8.data.toList ++ if get then answer.bytes else []

end Qbutt.Http
