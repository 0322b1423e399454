import Qbutt.Qt.ByteArray
import Qbutt.Qt.Json

/-!
# Targets and disks

The files of a torrent and what the disk holds of them.  Directories are found by their paths, as
components from the drive on, with their case folded.  Files are found by the tree they are in and
their index in the torrent: the destination, and for each operation the payload and the backup below
its staging directory.
-/

namespace Qbutt.Staging

/-- What is used of Unicode: the tests on code units and characters and the case mappings of Qt. -/
structure Unicode where
  isPrint : ℕ → Bool
  isLetter : Char → Bool
  toUpper : String → String
  toCaseFolded : String → String

/-! ### Targets -/

/-- A file of the target; the path is split at its separators. -/
structure TargetFile where
  path : List String
  size : ℕ
  pad : Bool
  symlink : Bool

def TargetFile.relativePath (file : TargetFile) : String := "/".intercalate file.path

/-- `lt::file_storage`, whose files are numbered by an `int`. -/
structure Layout where
  files : List TargetFile
  length_lt : files.length < 2 ^ 31

/-- The files that are not padding, with their indexes. -/
def Layout.targets (layout : Layout) : List (TargetFile × ℕ) :=
  layout.files.zipIdx.filter fun file => !file.1.pad

/-- Whether an index is that of a file that is not padding. -/
def Layout.isTarget (layout : Layout) (index : ℕ) : Bool :=
  (layout.files[index]?).any fun file => !file.pad

/-! ### Disks -/

/-- The components of a path with their case folded. -/
abbrev Place := List String

/-- What is found at the path of a directory.  `ordinary` says that it is a directory and no reparse
point, unless it is the mount point of a volume; `contents` is the volume of what it contains. -/
structure Dir where
  volume : UInt32
  index : UInt64
  ordinary : Bool
  mountTarget : Option String
  contents : UInt32

/-- The identity of a file: where it lies, its size and the time of the last write. -/
structure FileIdentity where
  volume : UInt32
  id : UInt64
  size : ℕ
  mtime : UInt64
  size_lt : size < 2 ^ 63
  deriving DecidableEq

/-- A file.  `ordinary` says that it has one name and is no reparse point. -/
structure File (γ : Type) where
  identity : FileIdentity
  content : γ
  ordinary : Bool

/-- The trees that hold a file of the target. -/
inductive Slot where
  | destination
  | payload (operation : String)
  | backup (operation : String)
  deriving DecidableEq

/-- The disk: directories, the files of the target, and the saved journal. -/
structure Disk (γ : Type) where
  directories : Place → Option Dir
  files : Slot → ℕ → Option (File γ)
  saved : Option JsonObject

namespace Disk

variable {γ : Type}

def makeDirectory (disk : Disk γ) (place : Place) (dir : Dir) : Disk γ :=
  { disk with directories := Function.update disk.directories place (some dir) }

def setFile (disk : Disk γ) (slot : Slot) (index : ℕ) (file : Option (File γ)) : Disk γ :=
  { disk with files := Function.update disk.files slot (Function.update (disk.files slot) index file) }

def moveFile (disk : Disk γ) (index : ℕ) (source target : Slot) : Disk γ :=
  (disk.setFile target index (disk.files source index)).setFile source index none

def identityAt (disk : Disk γ) (slot : Slot) (index : ℕ) : Option FileIdentity :=
  (disk.files slot index).map File.identity

theorem files_setFile (disk : Disk γ) (slot slot' : Slot) (index index' : ℕ)
    (file : Option (File γ)) : (disk.setFile slot index file).files slot' index' =
      if slot' = slot ∧ index' = index then file else disk.files slot' index' := by
  unfold setFile
  by_cases hslot : slot' = slot
  · subst hslot
    by_cases hindex : index' = index
    · subst hindex
      simp
    · simp [hindex]
  · simp [hslot]

theorem files_moveFile (disk : Disk γ) (index index' : ℕ) (source target slot : Slot) :
    (disk.moveFile index source target).files slot index' =
      if index' = index then
        if slot = source then none
        else if slot = target then disk.files source index
        else disk.files slot index
      else disk.files slot index' := by
  unfold moveFile
  rw [files_setFile, files_setFile]
  by_cases hindex : index' = index
  · subst hindex
    simp
  · simp [hindex]

end Disk

end Qbutt.Staging

/-!
## The journal of a staged operation

`StagingOperation` keeps its journal as the JSON object that `save` writes.  Here it is a structure,
with the writer `toJson` and the checks of `load` as the reader `accept`.  Texts that are only passed
on stay texts, so that a field that an old journal lacks is an empty one.
-/

namespace Qbutt.Staging

inductive State where
  | planned
  | preparing
  | downloading
  | readyToCommit
  | committing
  | committed
  | rollingBack
  | rolledBack
  deriving DecidableEq

def State.text : State → String
  | planned => "planned"
  | preparing => "preparing"
  | downloading => "downloading"
  | readyToCommit => "ready_to_commit"
  | committing => "committing"
  | committed => "committed"
  | rollingBack => "rolling_back"
  | rolledBack => "rolled_back"

def State.saved : List State :=
  [preparing, downloading, readyToCommit, committing, committed, rollingBack, rolledBack]

def State.requiresVerified (state : State) : Bool :=
  state = readyToCommit || state = committing || state = committed

inductive Step where
  | untouched
  | backedUpPending
  | backedUp
  | installedPending
  | installed
  | uninstalledPending
  | uninstalled
  | restoredPending
  | restored
  deriving DecidableEq

def Step.text : Step → String
  | untouched => "untouched"
  | backedUpPending => "backed_up_pending"
  | backedUp => "backed_up"
  | installedPending => "installed_pending"
  | installed => "installed"
  | uninstalledPending => "uninstalled_pending"
  | uninstalled => "uninstalled"
  | restoredPending => "restored_pending"
  | restored => "restored"

def Step.all : List Step :=
  [untouched, backedUpPending, backedUp, installedPending, installed, uninstalledPending,
    uninstalled, restoredPending, restored]

/-- An entry of `files`.  `original` is `none` for an object without fields: there was no file.
`verified` is missing until the payload is verified. -/
structure Entry where
  index : ℕ
  path : String
  size : ℕ
  source : String
  selected : Bool
  original : Option FileIdentity
  verified : Option (Option FileIdentity)
  step : Step
  deriving DecidableEq

def Entry.replacement (entry : Entry) : Option FileIdentity := entry.verified.join

structure Journal where
  version : ℤ
  torrent : String
  operation : String
  destination : String
  destinationIdentity : String
  destinationDirectories : String
  state : State
  files : List Entry
  payloadBytes : String
  requiredBytes : String
  availableBytes : String

/-! ### Writing -/

/-- The fields of `identity`. -/
def FileIdentity.toJson (identity : FileIdentity) : JsonObject :=
  [("id", .string (toString identity.id.toNat)),
    ("mtime", .string (toString identity.mtime.toNat)),
    ("size", .string (toString identity.size)),
    ("volume", .string (toString identity.volume.toNat))]

def identityJson : Option FileIdentity → Json
  | none => .object []
  | some identity => .object identity.toJson

def Entry.toJson (entry : Entry) : Json :=
  .object ([("index", .number entry.index), ("original", identityJson entry.original),
    ("path", .string entry.path), ("selected", .bool entry.selected),
    ("size", .string (toString entry.size)), ("source", .string entry.source),
    ("step", .string entry.step.text)] ++
      match entry.verified with
      | none => []
      | some identity => [("verified", identityJson identity)])

def Journal.toJson (journal : Journal) : JsonObject :=
  [("available_bytes", .string journal.availableBytes),
    ("destination", .string journal.destination),
    ("destination_directories", .string journal.destinationDirectories),
    ("destination_identity", .string journal.destinationIdentity),
    ("files", .array (journal.files.map Entry.toJson)),
    ("operation", .string journal.operation),
    ("payload_bytes", .string journal.payloadBytes),
    ("required_bytes", .string journal.requiredBytes),
    ("state", .string journal.state.text),
    ("torrent", .string journal.torrent),
    ("version", .number journal.version)]

/-! ### Reading -/

/-- The number that `QString::number` writes as the given text. -/
def readNumber (text : String) : Option ℕ :=
  let number := Nat.ofDigitChars 10 text.toList 0
  if toString number = text then some number else none

def identityField (attributes : JsonObject) (key : String) (bound : ℕ) : Option {n // n < bound} :=
  if !(attributes.get key).isString then none
  else
    (readNumber (attributes.get key).toStr).bind fun number =>
      if h : number < bound then some ⟨number, h⟩ else none

/-- `validIdentity`, with the identity that was read: `some none` for an object without fields. -/
def readIdentity (value : Json) : Option (Option FileIdentity) :=
  if !value.isObject then none
  else if value.toObject.isEmpty then some none
  else if value.toObject.length ≠ 4 then none
  else do
    let volume ← identityField value.toObject "volume" (2 ^ 32)
    let id ← identityField value.toObject "id" (2 ^ 64)
    let size ← identityField value.toObject "size" (2 ^ 63)
    let mtime ← identityField value.toObject "mtime" (2 ^ 64)
    return some
      { volume := UInt32.ofNat volume, id := UInt64.ofNat id, size := size
        mtime := UInt64.ofNat mtime, size_lt := size.2 }

/-- Whether a text is an identifier as `QUuid::toString` writes it without braces, and not null. -/
def isUuid (text : String) : Bool :=
  let groups := text.toList.splitOnP fun c => c == '-'
  groups.map List.length = [8, 4, 4, 4, 12] &&
    (groups.all fun group => group.all fun c => ('0' ≤ c && c ≤ '9') || ('a' ≤ c && c ≤ 'f')) &&
      groups.any fun group => group.any fun c => c ≠ '0'

/-- The check of one entry in `load`, with the indexes of those before it. -/
def acceptEntry (layout : Layout) (requiresVerified : Bool) (indexes : List ℕ) (file : JsonObject) :
    Option Entry := do
  let index := ((file.get "index").toInt (-1)).toNat
  let target ← layout.files[index]?
  let original ← readIdentity (file.get "original")
  let step ← Step.all.find? fun step => step.text = (file.get "step").toStr
  let selected := (file.get "selected").toBool
  let verified ←
    (if file.has "verified" || (requiresVerified && selected) then
      (readIdentity (file.get "verified")).map some
    else some none)
  if (file.get "index").toInt (-1) < 0 || indexes.contains index || target.pad ||
      (file.get "path").toStr ≠ target.relativePath ||
      (file.get "size").toStr ≠ toString target.size || !(file.get "selected").isBool ||
      (!selected && step ≠ .untouched) ||
      (verified.isSome && (!selected || verified.join.isNone ||
        verified.join.map FileIdentity.size ≠ some target.size)) then
    none
  else
    some
      { index := index, path := target.relativePath, size := target.size
        source := (file.get "source").toStr, selected := selected, original := original
        verified := verified, step := step }

/-- The loop over the entries in `load`. -/
def acceptEntries (layout : Layout) (requiresVerified : Bool) :
    List ℕ → List Json → Option (List Entry)
  | _, [] => some []
  | indexes, value :: values => do
    let entry ← acceptEntry layout requiresVerified indexes value.toObject
    let entries ← acceptEntries layout requiresVerified (entry.index :: indexes) values
    return entry :: entries

/-- The checks of `load` on what it reads. -/
def Journal.accept (torrentId : String) (layout : Layout) (journal : JsonObject) :
    Except String Journal :=
  let version := (journal.get "version").toInt 0
  let identity := (journal.get "destination_identity").toStr
  let directories := (journal.get "destination_directories").toStr
  let operation := (journal.get "operation").toStr
  match State.saved.find? fun state => state.text = (journal.get "state").toStr with
  | none => .error "The staging journal identity, version or state is invalid."
  | some state =>
    if (version ≠ 1 && version ≠ 2 && version ≠ 3) ||
        (2 ≤ version && ((fromBase64 identity).isEmpty || (fromBase64 directories).isEmpty ||
          toBase64 (fromBase64 identity) ≠ identity ||
          toBase64 (fromBase64 directories) ≠ directories)) ||
        (journal.get "torrent").toStr ≠ torrentId || !isUuid operation then
      .error "The staging journal identity, version or state is invalid."
    else
      match acceptEntries layout state.requiresVerified [] (journal.get "files").toArray with
      | none => .error "The journal does not match the target torrent file mapping."
      | some files =>
        if files.length ≠ layout.targets.length || !files.any Entry.selected then
          .error "The journal omits target files or has no selected files."
        else
          .ok
            { version := version, torrent := torrentId, operation := operation
              destination := (journal.get "destination").toStr
              destinationIdentity := identity, destinationDirectories := directories
              state := state, files := files
              payloadBytes := (journal.get "payload_bytes").toStr
              requiredBytes := (journal.get "required_bytes").toStr
              availableBytes := (journal.get "available_bytes").toStr }

end Qbutt.Staging
