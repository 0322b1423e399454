import Qbutt.Filter.Text

/-!
# The binary format of IP filters

`parseP2BFilterFile`.  Its variables are read in place: a read at the end of the file overwrites
only the first bytes of a variable and still counts as done if it gave any byte.  What a variable
holds before is part of the input (`Memory`).
-/

namespace Qbutt.Filter

structure Variable (size : ℕ) where
  bytes : Bytes
  length_eq : bytes.length = size

def Variable.overwrite {size : ℕ} (old : Variable size) (stream : Bytes) : Variable size where
  bytes := stream.take size ++ old.bytes.drop (stream.take size).length
  length_eq := by
    rw [List.length_append, List.length_drop, List.length_take, old.length_eq]
    omega

/-- `readRawData` into a variable: how many bytes were read, the variable, and the rest of the
stream. -/
def readRawData {size : ℕ} (old : Variable size) (stream : Bytes) : ℕ × Variable size × Bytes :=
  (min size stream.length, old.overwrite stream, stream.drop size)

def ntohl (value : Variable 4) : UInt32 :=
  value.bytes.foldl (fun n b => 256 * n + b.toUInt32) 0

/-- `getlineInStream`: how many bytes were read, the name, and the rest of the stream. -/
def getlineInStream (delim : UInt8) : Bytes → ℕ × Bytes × Bytes
  | [] => (0, [], [])
  | c :: stream =>
    if c = delim then (1, [], stream)
    else
      let (totalRead, name, rest) := getlineInStream delim stream
      (totalRead + 1, c :: name, rest)

/-- What the variables of `parseP2BFilterFile` hold before anything was read into them. -/
structure Memory where
  buf : Variable 7
  version : Variable 1
  namecount : Variable 4
  rangecount : Variable 4
  name : Variable 4
  first : Variable 4
  last : Variable 4

namespace Progress

/-- The message about a malformed P2B file. -/
def addInvalid (s : Progress) : Progress :=
  { s with log := s.log ++
      ["Parsing Error: The filter file is not a valid PeerGuardian P2B file."] }

/-- `add_rule` where an exception is ignored. -/
def addRuleQuietly (throws : List Rule → Option String) (s : Progress) (rule : Rule) : Progress :=
  let s := { s with calls := s.calls ++ [rule] }
  match throws s.calls with
  | none => { s with ruleCount := s.ruleCount + 1 }
  | some _ => s

end Progress

section

variable (throws : List Rule → Option String) (abort : ℕ → Bool)

/-- The records of the versions 1 and 2.  `abort` says if `m_abort` is set when so many bytes are
left; the fuel is the number of records. -/
def readNamedRanges : ℕ → Variable 4 → Variable 4 → Bytes → Progress → Option Progress
  | 0, _, _, _, _ => none
  | fuel + 1, first, last, stream, s =>
    let line := getlineInStream 0 stream
    if line.1 = 0 ∨ abort line.2.2.length then some s
    else
      let firstRead := readRawData first line.2.2
      if firstRead.1 = 0 then some s.addInvalid
      else
        let lastRead := readRawData last firstRead.2.2
        if lastRead.1 = 0 then some s.addInvalid
        else
          readNamedRanges fuel firstRead.2.1 lastRead.2.1 lastRead.2.2
            (s.addRuleQuietly throws (.v4 (ntohl firstRead.2.1), .v4 (ntohl lastRead.2.1)))

inductive NamesRead where
  | invalid
  | aborted
  | done (stream : Bytes)

def readNames : ℕ → Bytes → NamesRead
  | 0, stream => .done stream
  | n + 1, stream =>
    let line := getlineInStream 0 stream
    if line.1 = 0 then .invalid
    else if abort line.2.2.length then .aborted
    else readNames n line.2.2

/-- The records of the version 3. -/
def readRanges : ℕ → Variable 4 → Variable 4 → Variable 4 → Bytes → Progress → Progress
  | 0, _, _, _, _, s => s
  | n + 1, name, first, last, stream, s =>
    let nameRead := readRawData name stream
    if nameRead.1 = 0 then s.addInvalid
    else
      let firstRead := readRawData first nameRead.2.2
      if firstRead.1 = 0 then s.addInvalid
      else
        let lastRead := readRawData last firstRead.2.2
        if lastRead.1 = 0 then s.addInvalid
        else
          let s := s.addRuleQuietly throws (.v4 (ntohl firstRead.2.1), .v4 (ntohl lastRead.2.1))
          if abort lastRead.2.2.length then s
          else readRanges n nameRead.2.1 firstRead.2.1 lastRead.2.1 lastRead.2.2 s

/-- The part of `parseP2BFilterFile` for the version 3. -/
def readVersion3 (memory : Memory) (stream : Bytes) : Progress :=
  let namecount := readRawData memory.namecount stream
  if namecount.1 = 0 then Progress.addInvalid {}
  else
    match readNames abort (ntohl namecount.2.1).toNat namecount.2.2 with
    | .invalid => Progress.addInvalid {}
    | .aborted => {}
    | .done stream =>
      let rangecount := readRawData memory.rangecount stream
      if rangecount.1 = 0 then Progress.addInvalid {}
      else
        readRanges throws abort (ntohl rangecount.2.1).toNat memory.name memory.first memory.last
          rangecount.2.2 {}

/-- The bytes at the start of a P2B file. -/
def p2bMagic : Bytes := [255, 255, 255, 255, 80, 50, 66]

def parseP2BFilterFile (memory : Memory) (file : Bytes) : Option Progress :=
  let buf := readRawData memory.buf file
  let version := readRawData memory.version buf.2.2
  if buf.1 = 0 ∨ buf.2.1.bytes ≠ p2bMagic ∨ version.1 = 0 then some (Progress.addInvalid {})
  else if version.2.1.bytes = [1] ∨ version.2.1.bytes = [2] then
    readNamedRanges throws abort (version.2.2.length + 1) memory.first memory.last version.2.2 {}
  else if version.2.1.bytes = [3] then some (readVersion3 throws abort memory version.2.2)
  else some (Progress.addInvalid {})

end

/-- The formats that `run` tells apart by the extension of the file. -/
inductive Format where
  | dat
  | p2p
  | p2b
deriving DecidableEq

end Qbutt.Filter
