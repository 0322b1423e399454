import Qbutt.Algorithm.Binary64
import Qbutt.Algorithm.OrderedSet
import Qbutt.Algorithm.Table
import Mathlib.Data.List.DropRight

/-!
# What the resume stores keep of a torrent

`LoadTorrentParams` with the types of its fields, and the parts of Qt and libtorrent that the stores
are written with.  `Qt` holds what the program takes from Qt and the profile, `Libtorrent` the
functions of libtorrent; the laws that the round trips rest on are fields of these structures or of
`Libtorrent.Lawful`.  Of `lt::add_torrent_params` the record has what the stores look at, a
certificate or key is its PEM text, and texts are the same in Qt, in UTF-8 and in libtorrent.
-/

namespace Qbutt.Resume

/-! ### Enumerations -/

/-- The keys of an enumeration, as its `QMetaEnum` lists them. -/
class MetaEnum (α : Type) [DecidableEq α] where
  keys : List (String × α)
  found : ∀ value : α, ∃ key, (keys.find? fun entry => entry.2 = value) = some (key, value) ∧
    keys.lookup key = some value

section
variable {α : Type} [DecidableEq α] [MetaEnum α]

def fromEnum (value : α) : String :=
  (((MetaEnum.keys : List (String × α)).find? fun entry => entry.2 = value).map Prod.fst).getD ""

def toEnum (serializedValue : String) (defaultValue : α) : α :=
  (MetaEnum.keys.lookup serializedValue).getD defaultValue

@[simp] theorem toEnum_fromEnum (value defaultValue : α) :
    toEnum (fromEnum value) defaultValue = value := by
  obtain ⟨key, hfind, hlookup⟩ := MetaEnum.found value
  rw [fromEnum, hfind, toEnum, Option.map_some, Option.getD_some, hlookup, Option.getD_some]

end

inductive TorrentContentLayout where
  | original | subfolder | noSubfolder
  deriving DecidableEq

instance : MetaEnum TorrentContentLayout where
  keys := [("Original", .original), ("Subfolder", .subfolder), ("NoSubfolder", .noSubfolder)]
  found value := by
    cases value <;> exact ⟨_, rfl, rfl⟩

inductive TorrentOperatingMode where
  | autoManaged | forced
  deriving DecidableEq

instance : MetaEnum TorrentOperatingMode where
  keys := [("AutoManaged", .autoManaged), ("Forced", .forced)]
  found value := by
    cases value <;> exact ⟨_, rfl, rfl⟩

inductive StopCondition where
  | none | metadataReceived | filesChecked
  deriving DecidableEq

instance : MetaEnum StopCondition where
  keys := [("None", .none), ("MetadataReceived", .metadataReceived),
    ("FilesChecked", .filesChecked)]
  found value := by
    cases value <;> exact ⟨_, rfl, rfl⟩

inductive ShareLimitAction where
  | default | stop | remove | removeWithContent | enableSuperSeeding
  deriving DecidableEq

instance : MetaEnum ShareLimitAction where
  keys := [("Default", .default), ("Stop", .stop), ("Remove", .remove),
    ("RemoveWithContent", .removeWithContent), ("EnableSuperSeeding", .enableSuperSeeding)]
  found value := by
    cases value <;> exact ⟨_, rfl, rfl⟩

/-! ### Paths -/

/-- `cleanPath` of the program: only a path with a separator is cleaned. -/
def cleanPath (qdirCleanPath : String → String) (path : String) : String :=
  let hasSeparator := path.toList.any fun c => c = '/' || c = '\\'
  if hasSeparator then qdirCleanPath path else path

/-- The functions of `QDir` on path texts.  Cleaning twice is cleaning once, a cleaned path written
with the separators of the system is cleaned to itself, and no path is cleaned away. -/
structure QDir where
  cleanPath : String → String
  toNativeSeparators : String → String
  clean_clean : ∀ path, Resume.cleanPath cleanPath (Resume.cleanPath cleanPath path) =
    Resume.cleanPath cleanPath path
  clean_native : ∀ path, Resume.cleanPath cleanPath path = path →
    Resume.cleanPath cleanPath (toNativeSeparators path) = path
  clean_eq_empty : ∀ path, Resume.cleanPath cleanPath path = "" → path = ""

structure Path (dir : QDir) where
  data : String
  cleaned : Resume.cleanPath dir.cleanPath data = data

namespace Path

variable {dir : QDir}

def ofString (dir : QDir) (path : String) : Path dir :=
  ⟨Resume.cleanPath dir.cleanPath path, dir.clean_clean path⟩

def empty : Path dir := ⟨"", rfl⟩

def isEmpty (path : Path dir) : Bool := path.data = ""

def toString (path : Path dir) : String := dir.toNativeSeparators path.data

theorem ext {p q : Path dir} (h : p.data = q.data) : p = q := by
  cases p
  cases q
  cases h
  rfl

@[simp] theorem ofString_data (path : Path dir) : ofString dir path.data = path :=
  ext path.cleaned

@[simp] theorem ofString_toString (path : Path dir) : ofString dir path.toString = path :=
  ext (dir.clean_native path.data path.cleaned)

@[simp] theorem ofString_empty : ofString dir "" = empty := rfl

theorem eq_empty_of_ofString {path : String} (h : ofString dir path = empty) : path = "" :=
  dir.clean_eq_empty path (congrArg data h)

theorem isEmpty_iff {path : Path dir} : path.isEmpty = true ↔ path = empty := by
  rw [isEmpty, decide_eq_true_iff]
  exact ⟨fun h => ext h, fun h => h ▸ rfl⟩

theorem eq_empty_of_toString {path : Path dir} (h : path.toString = "") : path = empty := by
  rw [← ofString_toString path, h, ofString_empty]

end Path

/-! ### Tags -/

def trimmed (isSpace : Char → Bool) (text : String) : String :=
  String.ofList ((text.toList.dropWhile isSpace).rdropWhile isSpace)

theorem trimmed_trimmed (isSpace : Char → Bool) (text : String) :
    trimmed isSpace (trimmed isSpace text) = trimmed isSpace text := by
  have hleft : ((text.toList.dropWhile isSpace).rdropWhile isSpace).dropWhile isSpace =
      (text.toList.dropWhile isSpace).rdropWhile isSpace := by
    rw [List.dropWhile_eq_self_iff]
    intro hpos
    have hstart := List.rdropWhile_prefix isSpace (text.toList.dropWhile isSpace)
    rw [List.IsPrefix.getElem hstart]
    exact List.dropWhile_get_zero_not isSpace text.toList _
  simp only [trimmed, String.toList_ofList, hleft, List.rdropWhile_idempotent _ _]

structure Tag (isSpace : Char → Bool) where
  text : String
  clean : trimmed isSpace text = text

def Tag.ofString (isSpace : Char → Bool) (text : String) : Tag isSpace :=
  ⟨trimmed isSpace text, trimmed_trimmed isSpace text⟩

@[simp] theorem Tag.ofString_text {isSpace : Char → Bool} (tag : Tag isSpace) :
    Tag.ofString isSpace tag.text = tag := by
  obtain ⟨text, clean⟩ := tag
  simp only [ofString, clean]

/-! ### The libraries -/

/-- What the program takes from Qt and from the profile.  Reading a portable path gives back the path
that was written, and an empty path stays empty. -/
structure Platform where
  dir : QDir
  isSpace : Char → Bool
  /-- `TagLessThan`. -/
  tagOrder : StrictOrder (Tag isSpace)
  toPortablePath : Path dir → Path dir
  fromPortablePath : Path dir → Path dir
  from_to : ∀ path, fromPortablePath (toPortablePath path) = path
  from_empty : fromPortablePath .empty = .empty
  /-- A conversion to `int` that does not fit, which the language leaves undefined. -/
  castOverflow : ℚ → Int32
  /-- `QString::toDouble`. -/
  toDouble : String → Binary64
  /-- What the system says of a file that cannot be opened. -/
  openError : String

/-- `lt::info_hash_t`, with absent hashes instead of zero ones. -/
structure InfoHash where
  v1 : Option String
  v2 : Option String
  deriving DecidableEq

/-- The flags of a torrent that the stores look at. -/
structure TorrentFlags where
  paused : Bool
  autoManaged : Bool
  stopWhenReady : Bool
  deriving DecidableEq

/-- `lt::add_torrent_params`, with metadata of a type `ι`. -/
structure AddTorrentParams (ι : Type) where
  savePath : String
  flags : TorrentFlags
  infoHashes : InfoHash
  ti : Option ι

inductive Entry where
  | integer (value : ℤ)
  | string (value : String)
  | list (items : List Entry)
  | dictionary (items : List (String × Entry))

/-- `lt::entry::dictionary_type`. -/
abbrev Dictionary := Table String Entry

namespace Dictionary

def findString (root : Dictionary) (key : String) : String :=
  match root.lookup key with
  | some (.string value) => value
  | _ => ""

def findInt (root : Dictionary) (key : String) (default : ℤ) : ℤ :=
  match root.lookup key with
  | some (.integer value) => value
  | _ => default

end Dictionary

/-- The functions of libtorrent, with bytes of a type `β`.  What is read from bytes is a dictionary
or something else. -/
structure Libtorrent (β ι : Type) where
  bencode : Dictionary → β
  bdecode : β → Except String (Option Dictionary)
  size : β → ℕ
  writeResumeData : AddTorrentParams ι → Dictionary
  readResumeData : Option Dictionary → Except String (AddTorrentParams ι)
  torrentInfo : Option Dictionary → Except String ι
  infoHashes : ι → InfoHash
  isValid : ι → Bool

/-- The keys under which `write_resume_data` puts the metadata. -/
def metadataKeys : List String := ["info", "creation date", "created by", "comment"]

def isOwnKey (key : String) : Bool := key.startsWith "qBt-" || key.startsWith "qbutt-"

/-- Two dictionaries say the same to `read_resume_data`, the metadata aside. -/
def SameResumeData (written data : Dictionary) : Prop :=
  ∀ key, isOwnKey key = false → key ∉ metadataKeys → data.lookup key = written.lookup key

/-- Libtorrent returns what it stored: bytes decode to what was encoded, resume data without the
metadata gives the parameters without it, and the metadata gives the torrent's information.  It
writes no key of the program's. -/
structure Libtorrent.Lawful {β ι : Type} (lib : Libtorrent β ι) : Prop where
  bdecode_bencode : ∀ data, lib.bdecode (lib.bencode data) = .ok (some data)
  size_bencode : ∀ data, 0 < lib.size (lib.bencode data)
  read_write : ∀ p data, SameResumeData (lib.writeResumeData p) data →
    data.lookup "info" = none → lib.readResumeData (some data) = .ok { p with ti := none }
  write_infoHash : ∀ p, ((lib.writeResumeData p).lookup "info-hash").isSome = true
  write_own : ∀ p key, isOwnKey key = true → (lib.writeResumeData p).lookup key = none
  write_info : ∀ p, p.ti = none → (lib.writeResumeData p).lookup "info" = none
  torrentInfo_write : ∀ p ti metadata, p.ti = some ti →
    (∀ key ∈ metadataKeys, metadata.lookup key = (lib.writeResumeData p).lookup key) →
    lib.torrentInfo (some metadata) = .ok ti

/-! ### The parameters -/

/-- The certificate, key and parameters of a torrent, as PEM texts; an empty text is none. -/
structure SSLParameters where
  certificate : String
  privateKey : String
  dhParams : String
  deriving DecidableEq

structure LoadTorrentParams (platform : Platform) (ι : Type) where
  ltAddTorrentParams : AddTorrentParams ι
  name : String
  category : String
  tags : OrderedSet platform.tagOrder
  savePath : Path platform.dir
  downloadPath : Path platform.dir
  comment : String
  contentLayout : TorrentContentLayout
  operatingMode : TorrentOperatingMode
  useAutoTMM : Bool
  firstLastPiecePriority : Bool
  hasFinishedStatus : Bool
  completionPolicyPreview : Bool
  stopped : Bool
  stopCondition : StopCondition
  ratioLimit : Binary64
  seedingTimeLimit : Int32
  inactiveSeedingTimeLimit : Int32
  shareLimitAction : ShareLimitAction
  sslParameters : SSLParameters

def DEFAULT_RATIO_LIMIT : ℤ := -2
def DEFAULT_SEEDING_TIME_LIMIT : ℤ := -2

namespace LoadTorrentParams

variable {platform : Platform} {ι : Type}

/-- The native parameters as both stores write them: the state of the torrent is put into the
flags. -/
def nativeParams (resumeData : LoadTorrentParams platform ι) : AddTorrentParams ι :=
  let p := resumeData.ltAddTorrentParams
  let flags :=
    if resumeData.stopped then { p.flags with paused := true, autoManaged := false }
    else if resumeData.operatingMode = .autoManaged then { p.flags with autoManaged := true }
    else { p.flags with paused := false, autoManaged := false }
  { p with
    savePath := (platform.toPortablePath (.ofString platform.dir p.savePath)).toString
    flags := flags }

def storedRatioLimit (resumeData : LoadTorrentParams platform ι) : Int32 :=
  let product := Binary64.round (resumeData.ratioLimit.value * 1000)
  if -2 ^ 31 ≤ truncate product ∧ truncate product < 2 ^ 31 then Int32.ofInt (truncate product)
  else platform.castOverflow product

end LoadTorrentParams

def loadedRatioLimit (stored : ℤ) : Binary64 := .ofRat (stored / 1000)

def moveEntry (data : Dictionary × Dictionary) (key : String) : Dictionary × Dictionary :=
  match data.1.lookup key with
  | none => data
  | some entry => (data.1.erase key, data.2.insert key entry)

def splitMetadata (data : Dictionary) : Dictionary × Dictionary :=
  metadataKeys.foldl moveEntry (data, ∅)

def putAll (data : Dictionary) (entries : List (String × Entry)) : Dictionary :=
  entries.foldl (fun data entry => data.insert entry.1 entry.2) data

end Qbutt.Resume
