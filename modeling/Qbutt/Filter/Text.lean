import Qbutt.Qt.ByteArray

/-!
# Addresses in IP filters

What the filter parsers use of C: the number at the start of a text; `IPv4Parser`, their own reader
of IPv4 addresses; and the addresses themselves, in the order of the address type of libtorrent.  A
text is given without the zero byte behind it.
-/

namespace Qbutt.Filter

open QByteArray

def isDigit (b : UInt8) : Bool := 48 ≤ b && b ≤ 57

def digitsValue (digits : Bytes) : ℕ := digits.foldl (fun value b => 10 * value + (b.toNat - 48)) 0

/-- A number within the bounds of `long int`. -/
def toLong (n : ℤ) : ℤ := max (-2 ^ 63) (min n (2 ^ 63 - 1))

/-- The number of signs at the start of a text: one or none. -/
def signLength (text : Bytes) : ℕ := if text.head? = some 45 ∨ text.head? = some 43 then 1 else 0

/-- `strtol` in base 10: the number, and how many characters were read. -/
def strtol (text : Bytes) : ℤ × ℕ :=
  let rest := text.dropWhile isSpace
  let digits := (rest.drop (signLength rest)).takeWhile isDigit
  if digits = [] then (0, 0)
  else
    (toLong (if rest.head? = some 45 then -(digitsValue digits : ℤ) else digitsValue digits),
      (text.takeWhile isSpace).length + signLength rest + digits.length)

namespace IPv4Parser

/-- The loop of `tryParse`: the octets so far, the text from the start of the octet on, how many of
its characters were passed, and the rest of the text. -/
def tryParseFrom (octets octetStart : Bytes) (passed : ℕ) : Bytes → Option Bytes
  | [] =>
    let number := strtol octetStart
    if passed = 0 then none
    else if 0 ≤ number.1 ∧ number.1 ≤ 255 then
      if number.2 = passed ∧ octets.length = 3 then some (octets ++ [UInt8.ofNat number.1.toNat])
      else none
    else none
  | c :: str =>
    if c = 46 then
      let number := strtol octetStart
      if 0 ≤ number.1 ∧ number.1 ≤ 255 then
        let octets := octets ++ [UInt8.ofNat number.1.toNat]
        if number.2 ≠ passed then none
        else if octets.length = 4 then some octets
        else tryParseFrom octets str 0 str
      else none
    else tryParseFrom octets octetStart (passed + 1) str

def tryParse (str : Bytes) : Option Bytes := tryParseFrom [] str 0 str

end IPv4Parser

/-- An address: of the version 4, or of the version 6 with its scope. -/
inductive Address where
  | v4 (bits : UInt32)
  | v6 (bits : BitVec 128) (scope : ℕ)
deriving DecidableEq, Repr

namespace Address

def isV4 : Address → Bool
  | v4 _ => true
  | v6 .. => false

def isV6 : Address → Bool
  | v4 _ => false
  | v6 .. => true

/-- `operator <`: first by the version, then by the number, then by the scope. -/
def lt : Address → Address → Bool
  | v4 a, v4 b => a < b
  | v4 _, v6 .. => true
  | v6 .., v4 _ => false
  | v6 a s, v6 b t => a < b || (a == b && s < t)

/-- The address of four octets, the first one being the highest. -/
def ofOctets (octets : Bytes) : Address :=
  v4 (octets.foldl (fun bits octet => 256 * bits + octet.toUInt32) 0)

end Address

/-- `parseIPAddress`, given how libtorrent reads an address. -/
def parseIPAddress (makeAddress : Bytes → Option Address) (data : Bytes) : Option Address :=
  match IPv4Parser.tryParse data with
  | some octets => some (.ofOctets octets)
  | none => makeAddress data

end Qbutt.Filter

/-!
## The text formats of IP filters

`parseDATFilterFile` and `parseP2PFilterFile` differ in what they make of a line (`parseDATLine`,
`parseP2PLine`) and share their loops (`readLines`, `readChunks`).  A line is read in place, in a
buffer whose bytes the reader overwrites with zeros; reading or writing outside of the buffer gives
`none`.

Ranges of indices are given by their start and their `stop`, which is one behind the last index.
-/

namespace Qbutt.Filter

open QByteArray

/-! ### The buffer -/

def setNull (data : Bytes) (i : ℕ) : Option Bytes :=
  if i < data.length then some (data.set i 0) else none

/-- The text that starts in the buffer at an index and ends before the next zero byte. -/
def cString (data : Bytes) (i : ℕ) : Option Bytes :=
  if 0 ∈ data.drop i then some ((data.drop i).takeWhile (· ≠ 0)) else none

/-- The first place of a delimiter among so many bytes from an index on. -/
def findForward (data : Bytes) (delimiter : UInt8) (i : ℕ) : ℕ → Option (Option ℕ)
  | 0 => some none
  | n + 1 => do
    let b ← data[i]?
    if b = delimiter then some (some i) else findForward data delimiter (i + 1) n

/-- The last place of a delimiter among so many bytes from an index on. -/
def findBackward (data : Bytes) (delimiter : UInt8) (start : ℕ) : ℕ → Option (Option ℕ)
  | 0 => some none
  | n + 1 => do
    let b ← data[start + n]?
    if b = delimiter then some (some (start + n)) else findBackward data delimiter start n

/-- `findAndNullDelimiter`: the buffer afterwards, and the place of the delimiter. -/
def findAndNullDelimiter (data : Bytes) (delimiter : UInt8) (start stop : ℕ) (reverse : Bool) :
    Option (Bytes × Option ℕ) := do
  let found ← if reverse then findBackward data delimiter start (stop - start)
    else findForward data delimiter start (stop - start)
  match found with
  | none => some (data, none)
  | some i => (setNull data i).map fun data => (data, some i)

/-- The first loop of `trim`: the buffer, and the place of the first byte that is not blank. -/
def trimStart (data : Bytes) (i : ℕ) : ℕ → Option (Bytes × Option ℕ)
  | 0 => some (data, none)
  | n + 1 => do
    let b ← data[i]?
    if isSpace b then
      let data ← setNull data i
      trimStart data (i + 1) n
    else some (data, some i)

/-- The second loop of `trim`. -/
def trimEnd (data : Bytes) (start : ℕ) : ℕ → Option Bytes
  | 0 => some data
  | n + 1 => do
    let b ← data[start + n]?
    if isSpace b then
      let data ← setNull data (start + n)
      trimEnd data start n
    else some data

/-- `trim`: the buffer, and where the text starts. -/
def trim (data : Bytes) (start stop : ℕ) : Option (Bytes × ℕ) :=
  if stop ≤ start + 1 then some (data, start)
  else do
    let first ← trimStart data start (stop - start)
    let data ← trimEnd first.1 start (stop - start)
    some (data, first.2.getD start)

/-! ### Lines -/

/-- What a line says: nothing, something malformed (with the end of the message), or a range. -/
inductive Verdict where
  | ignored
  | malformed (detail : String)
  | range (first last : Address)
deriving DecidableEq, Repr

def isComment (data : Bytes) (start dataSize : ℕ) : Option Bool := do
  let first ← data[start]?
  if first = 35 then some true
  else if first = 47 ∧ start + 1 < dataSize then do
    let second ← data[start + 1]?
    some (second = 47)
  else some false

def parseRange (makeAddress : Bytes → Option Address) (data : Bytes) (start delimIP stop : ℕ) :
    Option (Bytes × Verdict) := do
  let (data, newStart) ← trim data start delimIP
  let startText ← cString data newStart
  match parseIPAddress makeAddress startText with
  | none => some (data, .malformed " Start IP of the range is malformed.")
  | some startAddr => do
    let (data, newStart) ← trim data (delimIP + 1) stop
    let endText ← cString data newStart
    match parseIPAddress makeAddress endText with
    | none => some (data, .malformed " End IP of the range is malformed.")
    | some endAddr =>
      if startAddr.isV4 ≠ endAddr.isV4 ∨ startAddr.isV6 ≠ endAddr.isV6 then
        some (data, .malformed " One IP is IPv4 and the other is IPv6!")
      else some (data, .range startAddr endAddr)

/-- The range of a DAT line that is neither a comment nor of a high access level. -/
def parseDATRange (makeAddress : Bytes → Option Address) (data : Bytes) (start stop : ℕ) :
    Option (Bytes × Verdict) := do
  let (data, delimIP) ← findAndNullDelimiter data 45 start stop false
  match delimIP with
  | none => some (data, .malformed "")
  | some delimIP => do
    let (data, verdict) ← parseRange makeAddress data start delimIP stop
    match verdict with
    | .range startAddr endAddr =>
      if endAddr.lt startAddr then
        some (data, .malformed " End IP is lower than Start IP!")
      else some (data, verdict)
    | _ => some (data, verdict)

/-- What `parseDATFilterFile` makes of a line that is no comment. -/
def parseDATLine (makeAddress : Bytes → Option Address) (data : Bytes) (start endOfLine : ℕ) :
    Option (Bytes × Verdict) := do
  let (data, firstComma) ← findAndNullDelimiter data 44 start (endOfLine + 1) false
  match firstComma with
  | none => parseDATRange makeAddress data start endOfLine
  | some firstComma => do
    let (data, _) ← findAndNullDelimiter data 44 (firstComma + 1) (endOfLine + 1) false
    let access ← cString data (firstComma + 1)
    if (strtol access).1 > 127 then some (data, .ignored)
    else parseDATRange makeAddress data start firstComma

/-- What `parseP2PFilterFile` makes of a line that is no comment. -/
def parseP2PLine (makeAddress : Bytes → Option Address) (data : Bytes) (start endOfLine : ℕ) :
    Option (Bytes × Verdict) := do
  let (data, partsDelimiter) ← findAndNullDelimiter data 58 start (endOfLine + 1) true
  match partsDelimiter with
  | none => some (data, .malformed "")
  | some partsDelimiter => do
    let (data, delimIP) ←
      findAndNullDelimiter data 45 (partsDelimiter + 1) (endOfLine + 1) false
    match delimIP with
    | none => some (data, .malformed "")
    | some delimIP =>
      parseRange makeAddress data (partsDelimiter + 1) delimIP (endOfLine + 1)

/-! ### Rules -/

def MAX_LOGGED_ERRORS : ℕ := 5

/-- `add_rule` with its two addresses. -/
abbrev Rule := Address × Address

/-- What a parser has done so far: the lines and errors it counted, its calls of `add_rule` and how
many of them succeeded, and the messages it logged. -/
structure Progress where
  nbLine : ℕ := 0
  parseErrorCount : ℕ := 0
  ruleCount : ℕ := 0
  calls : List Rule := []
  log : List String := []
deriving DecidableEq, Repr

namespace Progress

/-- `addLog` after an error was counted. -/
def addError (s : Progress) (msg : String) : Progress :=
  { s with
    parseErrorCount := s.parseErrorCount + 1
    log := if s.parseErrorCount + 1 ≤ MAX_LOGGED_ERRORS then s.log ++ [msg] else s.log }

/-- `add_rule`, given what the exception says that the filter throws after these calls, if any. -/
def addRule (throws : List Rule → Option String) (s : Progress) (rule : Rule) : Progress :=
  let s := { s with calls := s.calls ++ [rule] }
  match throws s.calls with
  | none => { s with ruleCount := s.ruleCount + 1 }
  | some what =>
    s.addError ("IP filter exception thrown for line " ++ toString s.nbLine ++ ". Exception is: " ++
      what)

/-- What follows from a line, whose number was counted. -/
def add (throws : List Rule → Option String) (s : Progress) : Verdict → Progress
  | .ignored => s
  | .malformed detail =>
    s.addError ("IP filter line " ++ toString s.nbLine ++ " is malformed." ++ detail)
  | .range first last => s.addRule throws (first, last)

/-- The message at the end of a file. -/
def finish (s : Progress) : Progress :=
  if s.parseErrorCount > MAX_LOGGED_ERRORS then
    { s with log := s.log ++
        [toString (s.parseErrorCount - MAX_LOGGED_ERRORS) ++
          " extra IP filter parsing errors occurred."] }
  else s

end Progress

/-! ### The file -/

def BUFFER_SIZE : ℕ := 2 * 1024 * 1024

/-- A text format: what is made of a line of the buffer that is no comment. -/
abbrev LineParser := Bytes → ℕ → ℕ → Option (Bytes × Verdict)

/-- One line of the buffer: its number is counted, and a comment is passed over. -/
def readLine (parseLine : LineParser) (throws : List Rule → Option String) (data : Bytes)
    (start endOfLine dataSize : ℕ) (s : Progress) : Option (Bytes × Progress) := do
  let s := { s with nbLine := s.nbLine + 1 }
  let comment ← isComment data start dataSize
  if comment then some (data, s)
  else do
    let (data, verdict) ← parseLine data start endOfLine
    some (data, s.add throws verdict)

/-- The search for the end of a line: the buffer, and the end of the line unless another chunk has
to be read.  `ended` says that the last read gave nothing. -/
def findEndOfLine (data : Bytes) (start dataSize : ℕ) (ended : Bool) :
    Option (Bytes × Option ℕ) :=
  if ended then (setNull data dataSize).map fun data => (data, some dataSize)
  else findAndNullDelimiter data 10 start dataSize false

/-- The loop over the lines of a chunk: the buffer and the number of bytes that are left over for
the next chunk, at its front.  The fuel is the number of lines. -/
def readLines (parseLine : LineParser) (throws : List Rule → Option String) (dataSize : ℕ)
    (ended : Bool) : ℕ → Bytes → ℕ → Progress → Option (Bytes × ℕ × Progress)
  | 0, _, _, _ => none
  | fuel + 1, data, start, s =>
    if dataSize ≤ start then some (data, 0, s)
    else do
      let (data, endOfLine) ← findEndOfLine data start dataSize ended
      match endOfLine with
      | none =>
        let offset := dataSize - start
        if dataSize ≤ data.length then
          some ((data.drop start).take offset ++ data.drop offset, offset, s)
        else none
      | some endOfLine => do
        let (data, s) ← readLine parseLine throws data start endOfLine dataSize s
        readLines parseLine throws dataSize ended fuel data (endOfLine + 1) s

/-- `file.read` of at most so many bytes: what is read is as long as the file says, at least one
byte and at most what is left, and nothing if nothing is left or asked for. -/
def readFile (size maxSize : ℕ) (file : Bytes) : Bytes × Bytes :=
  file.splitAt (min (max size 1) maxSize)

/-- The loop over the chunks of a file.  `sizes` says how long the next reads are, `none` being a
failed one; the fuel is the number of chunks. -/
def readChunks (parseLine : LineParser) (throws : List Rule → Option String) :
    ℕ → (ℕ → Option ℕ) → Bytes → ℕ → Bytes → Progress → Option Progress
  | 0, _, _, _, _, _ => none
  | fuel + 1, sizes, data, offset, file, s =>
    match sizes 0 with
    | none => some s
    | some size => do
      let (chunk, file) := readFile size (data.length - offset - 1) file
      let dataSize := chunk.length + offset
      if chunk = [] ∧ dataSize = 0 then some s
      else if data.length < dataSize then none
      else do
        let data := data.take offset ++ chunk ++ data.drop dataSize
        let (data, offset, s) ←
          readLines parseLine throws dataSize (chunk = []) (dataSize + 1) data 0 s
        readChunks parseLine throws fuel (fun k => sizes (k + 1)) data offset file s

def parseTextFile (parseLine : LineParser) (throws : List Rule → Option String)
    (bufferSize fuel : ℕ) (sizes : ℕ → Option ℕ) (file : Bytes) : Option Progress :=
  (readChunks parseLine throws fuel sizes (List.replicate bufferSize 0) 0 file {}).map
    Progress.finish

def parseDATFilterFile (makeAddress : Bytes → Option Address) (throws : List Rule → Option String) :
    ℕ → (ℕ → Option ℕ) → Bytes → Option Progress :=
  parseTextFile (parseDATLine makeAddress) throws BUFFER_SIZE

def parseP2PFilterFile (makeAddress : Bytes → Option Address) (throws : List Rule → Option String) :
    ℕ → (ℕ → Option ℕ) → Bytes → Option Progress :=
  parseTextFile (parseP2PLine makeAddress) throws BUFFER_SIZE

end Qbutt.Filter
