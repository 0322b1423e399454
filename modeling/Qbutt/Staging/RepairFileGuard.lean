import Qbutt.Algorithm.Split
import Qbutt.Staging.Journal

/-!
# The repair file guard

`RepairFileGuard::open`: it checks the mapping of the target to a directory, locks the directories
and files that exist, and describes what it has found.  It changes nothing on the disk, so that it is
a function of the disk; that one of its calls fails or that it is cancelled is added where it is used.
-/

namespace Qbutt.Staging

variable {γ : Type}

def maximumHandles : ℕ := 32768

/-- The names of devices. -/
def reservedStems : List String := ["CON", "PRN", "AUX", "NUL", "CONIN$", "CONOUT$"]

def isSafeComponent (U : Unicode) (component : String) : Bool :=
  let characters := component.toList
  let stem := U.toUpper (String.ofList (characters.takeWhile (· ≠ '.')))
  !component.isEmpty && characters.getLast? ≠ some '.' && characters.getLast? ≠ some ' ' &&
    ((utf16 component).all fun unit => U.isPrint unit) &&
    (characters.all fun c => !"<>:\"/\\|?*".toList.contains c) &&
    !reservedStems.contains stem &&
    !(qsize stem = 4 && ("COM".isPrefixOf stem || "LPT".isPrefixOf stem) &&
      (stem.toList.getLast?.any fun c => ('1' ≤ c && c ≤ '9') || "¹²³".toList.contains c))

def fromNativeSeparators (path : String) : String :=
  String.ofList (path.toList.map fun c => if c = '\\' then '/' else c)

/-- The components of the root of a guard, the drive first, if the path is an absolute and clean one
on a local drive. -/
def splitRoot (U : Unicode) (root : String) : Option (List String) :=
  match root.toList with
  | drive :: ':' :: '/' :: rest =>
    let components :=
      if rest.isEmpty then [] else (rest.splitOnP fun c => c == '/').map String.ofList
    if U.isLetter drive && components.all fun c => c ≠ "" && c ≠ "." && c ≠ ".." then
      some (String.ofList [drive, ':'] :: components)
    else none
  | _ => none

def foldPath (U : Unicode) (path : List String) : Place := path.map U.toCaseFolded

def pathText : List String → String
  | [] => ""
  | [drive] => drive ++ "/"
  | path => "/".intercalate path

def parentsOf (U : Unicode) (root : Place) (file : TargetFile) : List Place :=
  ((foldPath U file.path).dropLast.inits.tail).map fun parents => root ++ parents

/-! ### The mapping -/

/-- The loop over the mapping, with the folded paths seen so far. -/
def checkMapping (U : Unicode) : List Place → List (TargetFile × ℕ) → Except String Unit
  | _, [] => .ok ()
  | targets, (file, _) :: files =>
    let key := foldPath U file.path
    if file.symlink || targets.contains key then
      .error ("Unsafe, linked or colliding target mapping: " ++ file.relativePath)
    else if !file.path.all (isSafeComponent U) || file.path.isEmpty then
      .error ("Unsafe target path component: " ++ file.relativePath)
    else checkMapping U (targets ++ [key]) files

/-- No file is mapped to the path of a directory of another one. -/
def checkParents (U : Unicode) (files : List (TargetFile × ℕ)) : Except String Unit :=
  let targets := files.map fun file => foldPath U file.1.path
  if files.any fun file => (parentsOf U [] file.1).any targets.contains then
    .error "A mapped file is also used as a directory."
  else .ok ()

/-! ### Directories -/

/-- The directories seen so far, in order: those that are locked with what was found, those that
are missing without. -/
abbrev Directories := List (Place × Option Dir)

/-- The number of locked directories. -/
def Directories.handles (seen : Directories) : ℕ := (seen.filter fun dir => dir.2.isSome).length

def Dir.directoryId (dir : Dir) : Bytes :=
  DataStream.quint32 dir.volume.toNat ++ DataStream.quint32 (dir.index.toNat / 2 ^ 32) ++
    DataStream.quint32 (dir.index.toNat % 2 ^ 32)

def directoryValue : Option Dir → Bytes
  | none => DataStream.null
  | some dir =>
    DataStream.byteArray (DataStream.byteArray dir.directoryId ++
      match dir.mountTarget with
      | none => DataStream.null
      | some target => DataStream.string target)

/-- `lockDirectories`, for the given places in order, with `files` open files; it returns whether a
directory is missing.  Everything below a missing directory is missing. -/
def lockDirectories (disk : Disk γ) (files : ℕ) :
    Directories → Bool → List Place → Except String (Directories × Bool)
  | seen, missing, [] => .ok (seen, missing)
  | seen, missing, place :: places =>
    match seen.lookup place with
    | some (some _) => lockDirectories disk files seen missing places
    | some none => lockDirectories disk files seen true places
    | none =>
      if missing then lockDirectories disk files (seen ++ [(place, none)]) true places
      else if maximumHandles ≤ seen.handles + files then
        .error "Repair exceeds the limit of 32768 open file and directory handles."
      else
        match disk.directories place with
        | none => lockDirectories disk files (seen ++ [(place, none)]) true places
        | some dir =>
          if !dir.ordinary then
            .error ("Repair requires an ordinary directory or a mounted volume: " ++ pathText place)
          else if seen.any fun other => other.2.map Dir.directoryId = some dir.directoryId then
            .error ("Multiple target directory paths refer to the same directory: " ++ pathText place)
          else lockDirectories disk files (seen ++ [(place, some dir)]) missing places

/-! ### Files -/

/-- What `open` has found so far. -/
structure Snapshot where
  directories : Directories
  files : List (ℕ × FileIdentity)
  identity : Bytes

/-- The number of a file on its volume. -/
def FileIdentity.fileId (identity : FileIdentity) : UInt32 × UInt64 := (identity.volume, identity.id)

/-- What `identity` receives for a file that exists. -/
def FileIdentity.stream (identity : FileIdentity) : Bytes :=
  DataStream.bool true ++ DataStream.quint32 identity.volume.toNat ++
    DataStream.quint32 (identity.id.toNat / 2 ^ 32) ++
    DataStream.quint32 (identity.id.toNat % 2 ^ 32) ++ DataStream.qint64 identity.size ++
    DataStream.quint32 (identity.mtime.toNat / 2 ^ 32) ++
    DataStream.quint32 (identity.mtime.toNat % 2 ^ 32)

/-- The loop over the files. -/
def lockFiles (U : Unicode) (disk : Disk γ) (slot : Slot) (root : Place) :
    Snapshot → List (TargetFile × ℕ) → Except String Snapshot
  | found, [] => .ok found
  | found, (file, index) :: files => do
    let (directories, missing) ←
      lockDirectories disk found.files.length found.directories false (parentsOf U root file)
    let identity :=
      found.identity ++ DataStream.string file.relativePath ++ DataStream.qint64 file.size
    let absent : Snapshot := ⟨directories, found.files, identity ++ DataStream.bool false⟩
    if missing then lockFiles U disk slot root absent files
    else if maximumHandles ≤ directories.handles + found.files.length then
      .error "Repair exceeds the limit of 32768 open file and directory handles."
    else
      match disk.files slot index with
      | none => lockFiles U disk slot root absent files
      | some actual =>
        if !actual.ordinary then
          .error ("Repair requires an ordinary file without hard links or reparse points: " ++
            file.relativePath)
        else if found.files.any fun other => other.2.fileId = actual.identity.fileId then
          .error ("Multiple target paths refer to the same file: " ++ file.relativePath)
        else
          lockFiles U disk slot root
            ⟨directories, found.files ++ [(index, actual.identity)],
              identity ++ actual.identity.stream⟩ files

/-- An open guard. -/
structure RepairFileGuard where
  directories : Directories
  files : List (ℕ × FileIdentity)
  identity : Bytes
  directoryIdentity : Bytes

def RepairFileGuard.existingFiles (guard : RepairFileGuard) : List ℕ := guard.files.map Prod.fst

def Directories.stream (seen : Directories) : Bytes :=
  DataStream.map (seen.map fun dir => (pathText dir.1, directoryValue dir.2))

/-- `RepairFileGuard::open` on what the disk holds, for reading. -/
def RepairFileGuard.open (U : Unicode) (layout : Layout) (disk : Disk γ) (slot : Slot)
    (savePath : String) : Except String RepairFileGuard := do
  let root := fromNativeSeparators savePath
  let components ←
    (match splitRoot U root with
    | some components => .ok components
    | none => .error "Repair requires a valid absolute path on a local drive.")
  checkMapping U [] layout.targets
  checkParents U layout.targets
  if !components.tail.all (isSafeComponent U) then
    throw ("Unsafe directory component: " ++ root)
  let place := foldPath U components
  let (directories, missing) ← lockDirectories disk 0 [] false place.inits.tail
  if missing then throw "The repair data directory must already exist."
  let found ←
    lockFiles U disk slot place ⟨directories, [], DataStream.string root⟩ layout.targets
  return {
    directories := found.directories
    files := found.files
    identity := found.identity ++ found.directories.stream
    directoryIdentity := DataStream.string root ++ found.directories.stream }

end Qbutt.Staging
