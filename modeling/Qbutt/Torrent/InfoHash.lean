import Qbutt.Algorithm.Bencode
import Qbutt.Qt.Base64

/-!
# The info hash of a torrent file

`info_hash`: a cursor over the bytes of a torrent file checks that they are one canonical dictionary,
and the digest of the bytes of its `info` value is the hash.  The digest is a parameter.

An index or a slice out of bounds is `panic`, and a loop that is still going when the fuel runs out is
`loops`; the bytes of a slice are fewer than 2⁶³.
-/

namespace Qbutt.Torrent

open Qbutt.Bencode

/-- Bytes as Rust has them in a slice. -/
abbrev Slice := { bytes : Bytes // bytes.length < 2 ^ 63 }

inductive Fault where
  /-- `invalid torrent metadata` -/
  | invalidMetadata
  /-- `v2-only torrent metadata has no v1 infohash` -/
  | unsupportedAcquisition
  | panic
  | loops
  deriving DecidableEq

abbrev Parsed (α : Type) := Except Fault α

/-! ### The cursor -/

section Cursor

variable (bytes : Bytes)

def peek (offset : ℕ) : Parsed UInt8 :=
  match bytes[offset]? with
  | some b => .ok b
  | none => .error .invalidMetadata

/-- `next`; the offset moves on. -/
def next (offset : ℕ) : Parsed (UInt8 × ℕ) := do
  let b ← peek bytes offset
  return (b, offset + 1)

/-- `bytes[i]`. -/
def index (i : ℕ) : Parsed UInt8 :=
  match bytes[i]? with
  | some b => .ok b
  | none => .error .panic

def slice (start stop : ℕ) : Parsed Bytes :=
  if start ≤ stop ∧ stop ≤ bytes.length then .ok ((bytes.drop start).take (stop - start))
  else .error .panic

def scanDigits : ℕ → Bytes → Parsed ℕ
  | _, [] => .error .invalidMetadata
  | offset, b :: rest => if isDigit b then scanDigits (offset + 1) rest else .ok offset

/-- `parse::<usize>`, of digits. -/
def parseUsize (digits : Bytes) : Parsed ℕ :=
  if digitsValue digits < 2 ^ 64 then .ok (digitsValue digits) else .error .invalidMetadata

/-- `string`: the bytes of a string and the offset after it. -/
def string (start : ℕ) : Parsed (Bytes × ℕ) := do
  let stop ← scanDigits start (bytes.drop start)
  if start = stop then .error .invalidMetadata
  else
    let first ← index bytes start
    if first = 48 ∧ stop ≠ start + 1 then .error .invalidMetadata
    else
      let (colon, offset) ← next bytes stop
      if colon ≠ 58 then .error .invalidMetadata
      else
        let digits ← slice bytes start (offset - 1)
        let size ← parseUsize digits
        let stop := offset + size
        if 2 ^ 64 ≤ stop then .error .invalidMetadata
        else if bytes.length < stop then .error .invalidMetadata
        else return ((bytes.drop offset).take size, stop)

/-- The loop over an integer, whose sign may only be at its start. -/
def scanInteger (start : ℕ) : ℕ → Bytes → Parsed ℕ
  | _, [] => .error .invalidMetadata
  | offset, b :: rest =>
    if b = 101 then .ok offset
    else if !isDigit b && !(b = 45 && offset + 1 = start + 1) then .error .invalidMetadata
    else scanInteger start (offset + 1) rest

/-- `parse::<i64>`, of a sign and digits. -/
def parseI64 (integer : Bytes) : Option ℤ :=
  let value : ℤ := match integer with
    | 45 :: digits => -(digitsValue digits : ℤ)
    | digits => digitsValue digits
  if -2 ^ 63 ≤ value ∧ value < 2 ^ 63 then some value else none

/-- `strip_prefix` of the sign. -/
def withoutSign : Bytes → Bytes
  | 45 :: digits => digits
  | digits => digits

/-- The branch of `value` for an integer; the offset is that after its first byte. -/
def integer (start : ℕ) : Parsed ℕ := do
  let stop ← scanInteger start start (bytes.drop start)
  let integer ← slice bytes start stop
  let digits := withoutSign integer
  if digits = [] ∨ (digits.head? = some 48 ∧ digits.length ≠ 1) ∨ integer = [45, 48] ∨
      parseI64 integer = none then
    .error .invalidMetadata
  else
    let (_, offset) ← next bytes stop
    return offset

mutual

/-- `value`: the offset after a value. -/
def value : (fuel depth offset : ℕ) → Parsed ℕ
  | 0, _, _ => .error .loops
  | fuel + 1, depth, offset => do
    if depth > 64 then .error .invalidMetadata
    else
      let b ← peek bytes offset
      if isDigit b then
        let (_, stop) ← string bytes offset
        return stop
      else if b = 105 then integer bytes (offset + 1)
      else if b = 108 ∨ b = 100 then items fuel (b = 100) none depth (offset + 1)
      else .error .invalidMetadata

/-- The loop of `value` over a list or a dictionary, and the byte after it. -/
def items : (fuel : ℕ) → (dictionary : Bool) → (previous : Option Bytes) → (depth offset : ℕ) →
    Parsed ℕ
  | 0, _, _, _, _ => .error .loops
  | fuel + 1, dictionary, previous, depth, offset => do
    let b ← peek bytes offset
    if b = 101 then return offset + 1
    else if dictionary then
      let (key, start) ← string bytes offset
      if previous.any (key ≤ ·) then .error .invalidMetadata
      else
        let stop ← value fuel (depth + 1) start
        items fuel dictionary (some key) depth stop
    else
      let stop ← value fuel (depth + 1) offset
      items fuel dictionary previous depth stop

end

/-! ### The two passes -/

def infoKey : Bytes := "info".toUTF8.toList

def piecesKey : Bytes := "pieces".toUTF8.toList

/-- The loop over the entries of the torrent file: the span of the `info` value, and where the loop
ends. -/
def fileEntries : (fuel : ℕ) → (previous : Option Bytes) → (infoSpan : Option (ℕ × ℕ)) →
    (offset : ℕ) → Parsed (Option (ℕ × ℕ) × ℕ)
  | 0, _, _, _ => .error .loops
  | fuel + 1, previous, infoSpan, offset => do
    let b ← peek bytes offset
    if b = 101 then return (infoSpan, offset)
    else
      let (key, start) ← string bytes offset
      if previous.any (key ≤ ·) then .error .invalidMetadata
      else
        let stop ← value bytes (2 * bytes.length + 3) 1 start
        fileEntries fuel (some key) (if key = infoKey then some (start, stop) else infoSpan) stop

/-- Whether the value of `pieces` begins as a string; another key changes nothing. -/
def piecesAt (hasV1Pieces : Bool) (key : Bytes) (start : ℕ) : Parsed Bool :=
  if key = piecesKey then (peek bytes start).map isDigit else .ok hasV1Pieces

/-- The loop over the entries of the `info` value: whether the value of the last `pieces` is a
string. -/
def infoEntries : (fuel : ℕ) → (hasV1Pieces : Bool) → (offset : ℕ) → Parsed Bool
  | 0, _, _ => .error .loops
  | fuel + 1, hasV1Pieces, offset => do
    let b ← peek bytes offset
    if b = 101 then return hasV1Pieces
    else
      let (key, start) ← string bytes offset
      let found ← piecesAt bytes hasV1Pieces key start
      let stop ← value bytes (2 * bytes.length + 3) 1 start
      infoEntries fuel found stop

end Cursor

/-- `format!("{byte:02x}")` of every byte. -/
def hexadecimal (bytes : Bytes) : String :=
  String.ofList (bytes.flatMap fun b =>
    [Nat.digitChar (b.toNat / 16), Nat.digitChar (b.toNat % 16)])

/-- The end of the loop over the torrent file, and the second pass over the `info` value. -/
def hashInfo (digest : Bytes → Bytes) (bytes : Bytes) (infoSpan : Option (ℕ × ℕ)) : Parsed String :=
  match infoSpan with
  | none => .error .invalidMetadata
  | some (start, stop) => do
    let info ← slice bytes start stop
    let (b, offset) ← next info 0
    if b ≠ 100 then .error .invalidMetadata
    else
      let hasV1Pieces ← infoEntries info (info.length + 1) false offset
      if !hasV1Pieces then .error .unsupportedAcquisition
      else return hexadecimal (digest info)

def infoHash (digest : Bytes → Bytes) (bytes : Slice) : Parsed String := do
  let (b, offset) ← next bytes.val 0
  if b ≠ 100 then .error .invalidMetadata
  else
    let (infoSpan, stop) ← fileEntries bytes.val (bytes.val.length + 1) none none offset
    let (_, stop) ← next bytes.val stop
    if stop ≠ bytes.val.length then .error .invalidMetadata
    else hashInfo digest bytes.val infoSpan

end Qbutt.Torrent
