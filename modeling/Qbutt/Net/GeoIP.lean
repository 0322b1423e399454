import Qbutt.Algorithm.Recursion

/-!
# The location database

`GeoIPDatabase` reads a MaxMind database of the size of a file: the metadata at its end, and then,
for an address, a node of a tree for each bit and the data record at the leaf.  The fields of
metadata and records are maps, arrays and simple values behind a descriptor, or pointers to one
(`readDataField`).

Offsets are numbers of 32 bits.  Every byte that is read leaves a note with its position, and what
is read outside of the data is whatever the memory has there.
-/

namespace Qbutt.GeoIP

/-! ### Values -/

abbrev QString := List Char

/-- `QVariant`, with the types that the database makes.  Of the floating-point types the bits. -/
inductive QVariant where
  | invalid
  | string (value : QString)
  | bytes (value : List UInt8)
  | double (bits : ℕ)
  | float (bits : ℕ)
  | uShort (value : ℕ)
  | uInt (value : ℕ)
  | int (value : ℤ)
  | uLongLong (value : ℕ)
  | bool (value : Bool)
  | hash (entries : List (QString × QVariant))
  | list (items : List QVariant)

/-- `QVariantHash`, the last entry first. -/
abbrev QVariantHash := List (QString × QVariant)

namespace QVariant

def toHash : QVariant → QVariantHash
  | hash entries => entries
  | _ => []

def toString (convert : QVariant → QString) : QVariant → QString
  | invalid => []
  | string value => value
  | value => convert value

end QVariant

/-- `value`, which is invalid for a key that the hash does not have. -/
def QVariantHash.value (entries : QVariantHash) (key : QString) : QVariant :=
  (entries.lookup key).getD .invalid

/-- What the database asks of its surroundings: the memory around its data, and Qt's conversions to
texts. -/
structure Surroundings where
  memory : ℤ → UInt8
  fromUtf8 : List UInt8 → QString
  convert : QVariant → QString

/-! ### The database -/

def MAX_FILE_SIZE : ℕ := 67108864

def MAX_METADATA_SIZE : ℕ := 131072

def METADATA_BEGIN_MARK : List UInt8 :=
  [0xab, 0xcd, 0xef, 77, 97, 120, 77, 105, 110, 100, 46, 99, 111, 109]

/-- `sizeof(DATA_SECTION_SEPARATOR)`. -/
def SEPARATOR_SIZE : ℕ := 16

structure GeoIPDatabase where
  m_data : List UInt8
  m_ipVersion : ℕ := 0
  m_recordSize : UInt32 := 0
  m_nodeCount : UInt32 := 0
  m_nodeSize : UInt32 := 0
  m_indexSize : UInt32 := 0
  m_recordBytes : ℕ := 0
  m_buildEpoch : ℕ := 0
  m_dbType : QString := []

/-- A part of the reader: it notes the positions that it reads, and calls `readDataField` with an
offset, which gives a value and the next offset. -/
abbrev Reader (α : Type) := Procedure UInt32 (QVariant × UInt32) ℤ α

/-- The value of an `int` with these bits. -/
def asInt (x : UInt32) : ℤ := if x.toNat < 2 ^ 31 then x.toNat else x.toNat - 2 ^ 32

def fromBigEndian (bytes : List UInt8) : ℕ := bytes.foldl (fun n b => 256 * n + b.toNat) 0

namespace GeoIPDatabase

variable (env : Surroundings) (db : GeoIPDatabase)

def m_size : UInt32 := UInt32.ofNat db.m_data.length

/-- What is in memory at a position relative to the data. -/
def dataAt (i : ℤ) : UInt8 :=
  if 0 ≤ i ∧ i < db.m_data.length then db.m_data.getD i.toNat 0 else env.memory i

/-- `m_data[i]`. -/
def byte (i : ℤ) : Reader UInt8 := .note i (.done (db.dataAt env i))

/-- Some bytes from a position on. -/
def bytesFrom (i : ℤ) : ℕ → Reader (List UInt8)
  | 0 => pure []
  | n + 1 => do
    let b ← db.byte env i
    let bytes ← bytesFrom (i + 1) n
    return b :: bytes

/-! ### Fields -/

inductive DataType where
  | unknown
  | pointer
  | string
  | double
  | bytes
  | integer16
  | integer32
  | map
  | signedInteger32
  | integer64
  | integer128
  | array
  | dataCacheContainer
  | endMarker
  | boolean
  | float
  deriving DecidableEq

/-- `static_cast<DataType>`, of the number of a type. -/
def DataType.ofCode : ℕ → DataType
  | 1 => pointer
  | 2 => string
  | 3 => double
  | 4 => bytes
  | 5 => integer16
  | 6 => integer32
  | 7 => map
  | 8 => signedInteger32
  | 9 => integer64
  | 10 => integer128
  | 11 => array
  | 12 => dataCacheContainer
  | 13 => endMarker
  | 14 => boolean
  | 15 => float
  | _ => unknown

/-- A descriptor: the size of the field, or the offset of a pointer. -/
structure DataFieldDescriptor where
  fieldType : DataType
  fieldSize : UInt32

/-- `dataPtr[k]`, as a number of 32 bits. -/
def byteOf (offset : UInt32) (k : ℕ) : Reader UInt32 := do
  let b ← db.byte env (offset.toNat + k)
  return b.toUInt32

def readPointerOffset (offset first size : UInt32) : Reader UInt32 :=
  if size = 0 then do
    let b1 ← db.byteOf env offset 1
    return ((first &&& 0x07) <<< 8) + b1
  else if size = 1 then do
    let b1 ← db.byteOf env offset 1
    let b2 ← db.byteOf env offset 2
    return ((first &&& 0x07) <<< 16) + (b1 <<< 8) + b2 + 2048
  else if size = 2 then do
    let b1 ← db.byteOf env offset 1
    let b2 ← db.byteOf env offset 2
    let b3 ← db.byteOf env offset 3
    return ((first &&& 0x07) <<< 24) + (b1 <<< 16) + (b2 <<< 8) + b3 + 526336
  else do
    let b1 ← db.byteOf env offset 1
    let b2 ← db.byteOf env offset 2
    let b3 ← db.byteOf env offset 3
    let b4 ← db.byteOf env offset 4
    return (b1 <<< 24) + (b2 <<< 16) + (b3 <<< 8) + b4

def readPointer (offset first : UInt32) (availSize : ℤ) :
    Reader (Option (DataFieldDescriptor × UInt32)) :=
  let size := (first &&& 0x18) >>> 3
  if availSize < size.toNat + 2 then pure none
  else do
    let target ← db.readPointerOffset env offset first size
    return some (⟨.pointer, target⟩, offset + size + 2)

def readSize (offset first : UInt32) (fieldType : DataType) (availSize : ℤ) :
    Reader (Option (DataFieldDescriptor × UInt32)) :=
  let fieldSize := first &&& 0x1F
  if fieldSize ≤ 28 then
    if fieldType = .unknown then do
      let code := (← db.byteOf env offset 1).toNat + 7
      if code ≤ 7 ∨ 15 < code ∨ availSize < 3 then return none
      else return some (⟨.ofCode code, fieldSize⟩, offset + 2)
    else return some (⟨fieldType, fieldSize⟩, offset + 1)
  else if fieldSize = 29 then
    if availSize < 2 then return none
    else do
      let b1 ← db.byteOf env offset 1
      return some (⟨fieldType, b1 + 29⟩, offset + 2)
  else if fieldSize = 30 then
    if availSize < 3 then return none
    else do
      let b1 ← db.byteOf env offset 1
      let b2 ← db.byteOf env offset 2
      return some (⟨fieldType, (b1 <<< 8) + b2 + 285⟩, offset + 3)
  else
    if availSize < 4 then return none
    else do
      let b1 ← db.byteOf env offset 1
      let b2 ← db.byteOf env offset 2
      let b3 ← db.byteOf env offset 3
      return some (⟨fieldType, (b1 <<< 16) + (b2 <<< 8) + b3 + 65821⟩, offset + 4)

/-- `readDataFieldDescriptor`: the descriptor and the offset behind it. -/
def readDataFieldDescriptor (offset : UInt32) :
    Reader (Option (DataFieldDescriptor × UInt32)) :=
  let availSize := asInt (db.m_size - offset)
  if availSize < 1 then pure none
  else do
    let first ← db.byteOf env offset 0
    let fieldType := DataType.ofCode ((first &&& 0xE0) >>> 5).toNat
    if fieldType = .pointer then db.readPointer env offset first availSize
    else db.readSize env offset first fieldType availSize

/-- `readPlainValue`, of a type with `size` bytes: the number, and the offset behind it.  The length
is cut to 8 bits. -/
def readPlainValue (size : ℕ) (offset fieldSize : UInt32) : Reader (ℕ × UInt32) :=
  let len := fieldSize.toUInt8
  let availSize := db.m_size - offset
  if 0 < len.toNat ∧ len.toNat ≤ size ∧ len.toNat ≤ availSize.toNat then do
    let bytes ← db.bytesFrom env offset.toNat len.toNat
    return (fromBigEndian bytes, offset + len.toUInt32)
  else pure (0, offset)

/-- `readDataField`, called by itself. -/
def readField (offset : UInt32) : Reader (QVariant × UInt32) := .call offset .done

def readMapValue : ℕ → QVariantHash → UInt32 → Reader (QVariant × UInt32)
  | 0, entries, offset => pure (.hash entries, offset)
  | count + 1, entries, offset => do
    let (field, offset) ← readField offset
    match field with
    | .string key => do
      let (field, offset) ← readField offset
      match field with
      | .invalid => return (.invalid, offset)
      | field => readMapValue count ((key, field) :: entries) offset
    | _ => return (.invalid, offset)

def readArrayValue : ℕ → List QVariant → UInt32 → Reader (QVariant × UInt32)
  | 0, items, offset => pure (.list items, offset)
  | count + 1, items, offset => do
    let (field, offset) ← readField offset
    match field with
    | .invalid => return (.invalid, offset)
    | field => readArrayValue count (items ++ [field]) offset

def readFieldValue (descr : DataFieldDescriptor) (offset : UInt32) :
    Reader (QVariant × UInt32) :=
  let size := descr.fieldSize
  match descr.fieldType with
  | .string => do
    let bytes ← db.bytesFrom env offset.toNat size.toNat
    return (.string (env.fromUtf8 bytes), offset + size)
  | .double =>
    if size = 8 then do
      let (value, offset) ← db.readPlainValue env 8 offset size
      return (.double value, offset)
    else pure (.invalid, offset)
  | .bytes => do
    let bytes ← db.bytesFrom env offset.toNat size.toNat
    return (.bytes bytes, offset + size)
  | .integer16 => do
    let (value, offset) ← db.readPlainValue env 2 offset size
    return (.uShort value, offset)
  | .integer32 => do
    let (value, offset) ← db.readPlainValue env 4 offset size
    return (.uInt value, offset)
  | .map => readMapValue size.toNat [] offset
  | .signedInteger32 => do
    let (value, offset) ← db.readPlainValue env 4 offset size
    return (.int (asInt (UInt32.ofNat value)), offset)
  | .integer64 => do
    let (value, offset) ← db.readPlainValue env 8 offset size
    return (.uLongLong value, offset)
  | .array => readArrayValue size.toNat [] offset
  | .boolean => pure (.bool (size != 0), offset)
  | .float =>
    if size = 4 then do
      let (value, offset) ← db.readPlainValue env 4 offset size
      return (.float value, offset)
    else pure (.invalid, offset)
  | .pointer | .integer128 | .dataCacheContainer | .endMarker | .unknown =>
    pure (.invalid, offset)

/-- Where a pointer leads to. -/
def pointerTarget (descr : DataFieldDescriptor) : UInt32 :=
  descr.fieldSize + db.m_nodeCount * db.m_recordSize / 4 + UInt32.ofNat SEPARATOR_SIZE

def readDataField (offset : UInt32) : Reader (QVariant × UInt32) := do
  match ← db.readDataFieldDescriptor env offset with
  | none => return (.invalid, offset)
  | some (descr, offset) =>
    if descr.fieldType = .pointer then
      match ← db.readDataFieldDescriptor env (db.pointerTarget descr) with
      | none => return (.invalid, offset)
      | some (descr, locOffset) => do
        let (fieldValue, _) ← db.readFieldValue env descr locOffset
        return (fieldValue, offset)
    else db.readFieldValue env descr offset

/-! ### Loading -/

def lastIndexOf (pattern : List UInt8) : List UInt8 → Option ℕ
  | [] => if pattern.isEmpty then some 0 else none
  | b :: data =>
    match lastIndexOf pattern data with
    | some i => some (i + 1)
    | none => if pattern.isPrefixOf (b :: data) then some 0 else none

/-- The offset behind the mark of the metadata, which is looked for at the end of the data. -/
def metadataOffset : Option UInt32 :=
  if MAX_METADATA_SIZE < db.m_data.length then
    let skipped := db.m_data.length - MAX_METADATA_SIZE
    (lastIndexOf METADATA_BEGIN_MARK (db.m_data.drop skipped)).map fun index =>
      UInt32.ofNat (index + skipped + METADATA_BEGIN_MARK.length)
  else
    (lastIndexOf METADATA_BEGIN_MARK db.m_data).map fun index =>
      UInt32.ofNat (index + METADATA_BEGIN_MARK.length)

/-- The metadata behind the mark, if there is one. -/
def readMetadataAt : Option UInt32 → Reader QVariantHash
  | none => pure []
  | some offset => do
    let (metadata, _) ← readField offset
    return metadata.toHash

def readMetadata : Reader QVariantHash := readMetadataAt db.metadataOffset

def notFound (key : String) : String := s!"Metadata error: '{key}' entry not found."

def invalidType (key : String) : String := s!"Metadata error: '{key}' entry has invalid type."

def check (condition : Bool) (error : String) : Except String Unit :=
  if condition then .ok () else .error error

/-- `CHECK_METADATA_REQ`, with the value as what its type makes of it. -/
def checkRequired {α : Type} (metadata : QVariantHash) (key : String) (get : QVariant → Option α) :
    Except String α :=
  match metadata.lookup key.toList with
  | none => .error (notFound key)
  | some value =>
    match get value with
    | none => .error (invalidType key)
    | some a => .ok a

def checkOptional (metadata : QVariantHash) (key : String) (isType : QVariant → Bool) :
    Except String Unit :=
  match metadata.lookup key.toList with
  | none => .ok ()
  | some value => if isType value then .ok () else .error (invalidType key)

namespace QVariantTypes

def uShort : QVariant → Option ℕ
  | .uShort value => some value
  | _ => none

def uInt : QVariant → Option ℕ
  | .uInt value => some value
  | _ => none

def uLongLong : QVariant → Option ℕ
  | .uLongLong value => some value
  | _ => none

def string : QVariant → Option QString
  | .string value => some value
  | _ => none

def isHash : QVariant → Bool
  | .hash _ => true
  | _ => false

def isList : QVariant → Bool
  | .list _ => true
  | _ => false

end QVariantTypes

open QVariantTypes in
def parseMetadata (metadata : QVariantHash) : Except String GeoIPDatabase := do
  let versionMajor ← checkRequired metadata "binary_format_major_version" uShort
  let versionMinor ← checkRequired metadata "binary_format_minor_version" uShort
  check (versionMajor == 2) s!"Unsupported database version: {versionMajor}.{versionMinor}"
  let ipVersion ← checkRequired metadata "ip_version" uShort
  check (ipVersion == 6) s!"Unsupported IP version: {ipVersion}"
  let recordSize ← checkRequired metadata "record_size" uShort
  check (recordSize == 24) s!"Unsupported record size: {recordSize}"
  let nodeSize := recordSize / 4
  let nodeCount ← checkRequired metadata "node_count" uInt
  let dbType ← checkRequired metadata "database_type" string
  let buildEpoch ← checkRequired metadata "build_epoch" uLongLong
  checkOptional metadata "languages" isList
  checkOptional metadata "description" isHash
  return {
    m_data := db.m_data
    m_ipVersion := ipVersion
    m_recordSize := UInt32.ofNat recordSize
    m_nodeCount := UInt32.ofNat nodeCount
    m_nodeSize := UInt32.ofNat nodeSize
    m_indexSize := UInt32.ofNat nodeCount * UInt32.ofNat nodeSize
    m_recordBytes := nodeSize / 2
    m_buildEpoch := buildEpoch
    m_dbType := dbType }

/-- An `int` as a `size_t`. -/
def asSize (i : ℤ) : ℕ := (i % 2 ^ 64).toNat

def loadDB : Reader (Except String Unit) :=
  let indexSize := asInt (db.m_nodeCount * (db.m_recordSize / 4))
  if db.m_size.toNat < asSize (indexSize + SEPARATOR_SIZE) then
    pure (.error "Database corrupted: no data section found.")
  else do
    let separator ← db.bytesFrom env indexSize SEPARATOR_SIZE
    if separator = List.replicate SEPARATOR_SIZE 0 then return .ok ()
    else return .error "Database corrupted: no data section found."

def load (data : List UInt8) : Reader (Except String GeoIPDatabase) :=
  if MAX_FILE_SIZE < data.length then pure (.error "Unsupported database file size.")
  else do
    let fresh : GeoIPDatabase := { m_data := data }
    let metadata ← fresh.readMetadata
    match fresh.parseMetadata metadata with
    | .error error => return .error error
    | .ok db =>
      match ← db.loadDB env with
      | .error error => return .error error
      | .ok () => return .ok db

/-! ### Looking up -/

/-- An address, as the 128 bits of `toIPv6Address` from the highest bit of the first byte on. -/
abbrev Address := Fin 128 → Bool

/-- The countries that were found, by the numbers of their records. -/
abbrev Countries := List (UInt32 × QString)

/-- The number of a record of a node. -/
def readRecord (ptr : ℕ) (right : Bool) : Reader UInt32 := do
  let ptr := if right then ptr + db.m_recordBytes else ptr
  let bytes ← db.bytesFrom env ptr db.m_recordBytes
  return UInt32.ofNat (fromBigEndian bytes)

def recordOffset (id : UInt32) : UInt32 :=
  let offset := id - db.m_nodeCount - UInt32.ofNat SEPARATOR_SIZE
  offset + db.m_indexSize + UInt32.ofNat SEPARATOR_SIZE

def country (countries : Countries) (id : UInt32) : Reader (QString × Countries) :=
  let country := (countries.lookup id).getD []
  if country.isEmpty then do
    let (val, _) ← readField (db.recordOffset id)
    match val with
    | .hash entries =>
      let country :=
        ((QVariantHash.value entries "country".toList).toHash.value "iso_code".toList).toString
          env.convert
      return (country, (id, country) :: countries)
    | _ => return ([], countries)
  else pure (country, countries)

/-- The loop of `lookup`, from a node on. -/
def walk (countries : Countries) : List Bool → ℕ → Reader (QString × Countries)
  | [], _ => pure ([], countries)
  | right :: bits, ptr => do
    let id ← db.readRecord env ptr right
    if id = db.m_nodeCount then return ([], countries)
    else if db.m_nodeCount < id then db.country env countries id
    else walk countries bits (id * db.m_nodeSize).toNat

def lookup (countries : Countries) (addr : Address) : Reader (QString × Countries) :=
  db.walk env countries (List.ofFn addr) 0

def lookups : Countries → List Address → Reader (List QString)
  | _, [] => pure []
  | countries, addr :: addrs => do
    let (country, countries) ← db.lookup env countries addr
    let rest ← lookups countries addrs
    return country :: rest

end GeoIPDatabase

end Qbutt.GeoIP
