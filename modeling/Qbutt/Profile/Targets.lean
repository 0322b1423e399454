import Qbutt.Algorithm.OrderedSet
import Qbutt.Repair.Conflict

/-!
# Names that imported data may take

`reserveTargets` of `base/profileimport.cpp`.  Before a profile is imported, every name that a file
of a torrent may have is put into one ordered set: the actual and the user path, and the variants
that the native session uses for incomplete and unwanted files.  A name that is, contains or lies
below one that is in the set already is refused, and so is one that meets a directory of the profile
itself.
-/

namespace Qbutt.Profile

open Repair (startsWith sectionsAbove)

/-! ### Texts -/

def codeUnits (c : Char) : ℕ :=
  if c.toNat < 0x10000 then c.toNat * 0x10000
  else (0xD800 + (c.toNat - 0x10000) / 0x400) * 0x10000 + (0xDC00 + (c.toNat - 0x10000) % 0x400)

/-- `operator<` of `QString`. -/
def textOrder : StrictOrder String where
  less x y := lexLess codeUnits x.toList y.toList
  trans x y z := lexLess_trans x.toList y.toList z.toList

/-- `std::set<QString>`. -/
abbrev TextSet := OrderedSet textOrder

def contains (targets : TextSet) (text : String) : Bool := targets.items.contains text

def QB_EXT : String := ".!qB"

def UNWANTED_FOLDER_NAME : String := ".unwanted"

/-! ### Surroundings -/

/-- What is used of Qt, of the native library and of the operating system: identities of paths,
empty where there is none; the cleaning that `Path` does; `QDir::filePath`; the path of a file that
has been renamed; and what is at a path. -/
structure Surroundings where
  repairPathIdentity : String → String
  cleanPath : String → String
  filePath : String → String → String
  renamedPath : String → String
  hasDriveLetter : String → Bool
  isSymLink : String → Bool
  fileExists : String → Bool

structure PayloadFile where
  pad : Bool
  path : String

/-- What is used of the resume data of a torrent. -/
structure LoadTorrentParams where
  savePath : String
  ti : Option (List PayloadFile)
  renamedFiles : List (ℤ × String)

variable (E : Surroundings)

/-! ### Paths -/

def lastSlash (path : List Char) : Option ℕ :=
  (path.reverse.findIdx? (· = '/')).map fun i => path.length - 1 - i

def parentPath (path : String) : String :=
  let chars := path.toList
  match lastSlash chars with
  | none => ""
  | some slashIndex =>
    if slashIndex = 0 then if chars.length = 1 then "" else "/"
    else if slashIndex = 2 ∧ E.hasDriveLetter path then
      if chars.length = 3 then "" else String.ofList (chars.take (slashIndex + 1))
    else String.ofList (chars.take slashIndex)

def filename (path : String) : String :=
  match lastSlash path.toList with
  | none => path
  | some slashIndex => String.ofList (path.toList.drop (slashIndex + 1))

/-- `hasExtension`, which does not tell cases apart. -/
def hasExtension (path ext : String) : Bool :=
  (ext.toList.map Char.toLower).isSuffixOf (path.toList.map Char.toLower)

def removedExtension (path ext : String) : String :=
  if hasExtension path ext then String.ofList (path.toList.take (path.length - ext.length))
  else path

/-- `operator/` of paths. -/
def slash (lhs rhs : String) : String :=
  if rhs = "" then lhs else if lhs = "" then rhs else E.cleanPath (lhs ++ "/" ++ rhs)

/-- `operator+` of a path and a text. -/
def plus (lhs rhs : String) : String := E.cleanPath (lhs ++ rhs)

def userFilePath (path : String) : String :=
  let userPath := removedExtension path QB_EXT
  let parentRelPath := parentPath E userPath
  if filename parentRelPath = UNWANTED_FOLDER_NAME then
    slash E (parentPath E parentRelPath) (E.cleanPath (filename userPath))
  else userPath

/-! ### Files -/

def renameFile (files : List PayloadFile) (entry : ℤ × String) : Except String (List PayloadFile) :=
  match files[entry.1.toNat]? with
  | some file =>
    if entry.1 < 0 || file.pad then
      .error "The resume record contains an invalid mapped-file index."
    else .ok (files.set entry.1.toNat { file with path := E.renamedPath entry.2 })
  | none => .error "The resume record contains an invalid mapped-file index."

def mappedFiles (params : LoadTorrentParams) : Except String (List PayloadFile) :=
  match params.ti with
  | none => .error "Complete torrent metadata is required for import."
  | some files =>
    if 16384 < files.length then
      .error "A torrent exceeds the profile import limit of 16384 file mappings."
    else params.renamedFiles.foldlM (renameFile E) files

/-- The paths that the native session may use for a file. -/
def aliases (params : LoadTorrentParams) (index : ℕ) (file : PayloadFile) : List String :=
  let actualPath := E.cleanPath file.path
  let userPath :=
    if params.renamedFiles.any fun entry => entry.1 = index then userFilePath E actualPath
    else actualPath
  let unwantedPath := slash E (slash E (parentPath E userPath) (E.cleanPath UNWANTED_FOLDER_NAME))
    (E.cleanPath (filename userPath))
  [actualPath, userPath, plus E userPath QB_EXT, unwantedPath, plus E unwantedPath QB_EXT].map
    (E.filePath params.savePath)

/-! ### Reservations -/

/-- Whether a name is, contains or lies below a directory of the profile. -/
def meetsProtected (identity protectedIdentity : String) : Bool :=
  identity == protectedIdentity || startsWith identity (protectedIdentity ++ "/") ||
    startsWith protectedIdentity (identity ++ "/")

/-- The body of the loop over the paths of a file: the identities found so far. -/
def checkAlias (imported : Bool) (actualIdentity : String) (protectedIdentities : List String)
    (identities : List String) (path : String) : Except String (List String) :=
  let identity := E.repairPathIdentity path
  if identity = "" then .error "A native payload filename cannot be resolved safely."
  else if imported && (E.isSymLink path || (identity ≠ actualIdentity && E.fileExists path)) then
    .error ("A native payload filename already belongs to another file: " ++ path)
  else if protectedIdentities.any (meetsProtected identity) then
    .error ("A payload mapping overlaps protected profile metadata: " ++ path)
  else if identities.contains identity then .ok identities
  else .ok (identities ++ [identity])

/-- Whether a name meets one that is in the set: its own and the sections above it are looked up,
and the first name behind it and a slash. -/
def overlaps (targets : TextSet) (identity : String) : Bool :=
  (identity :: sectionsAbove identity).any (contains targets) ||
    (targets.lowerBound (identity ++ "/")).any fun descendant =>
      startsWith descendant (identity ++ "/")

/-- The body of the loop over the identities of a file. -/
def reserveIdentity (targets : TextSet) (identity : String) : Except String TextSet :=
  if overlaps targets identity then
    .error "Selected torrents overlap another data set. Choose independent payload mappings."
  else .ok (targets.insert identity)

/-- The body of the loop over the files. -/
def reserveFile (params : LoadTorrentParams) (protectedIdentities : List String) (imported : Bool)
    (targets : TextSet) (entry : PayloadFile × ℕ) : Except String TextSet :=
  if entry.1.pad then .ok targets
  else if 65536 < targets.items.length then
    .error "The profile import exceeds the total file reservation limit."
  else
    let paths := aliases E params entry.2 entry.1
    let actualIdentity :=
      E.repairPathIdentity (E.filePath params.savePath (E.cleanPath entry.1.path))
    if actualIdentity = "" then .error "A payload mapping cannot be resolved safely."
    else do
      let identities ← paths.foldlM (checkAlias E imported actualIdentity protectedIdentities) []
      identities.foldlM reserveIdentity targets

def protectedIdentity (directory : String) : Except String String :=
  if E.repairPathIdentity directory = "" then
    .error "A protected profile directory cannot be resolved safely."
  else .ok (E.repairPathIdentity directory)

def reserveTargets (protectedDirectories : List String) (targets : TextSet)
    (call : LoadTorrentParams × Bool) : Except String TextSet := do
  let files ← mappedFiles E call.1
  let protectedIdentities ← protectedDirectories.mapM (protectedIdentity E)
  files.zipIdx.foldlM (reserveFile E call.1 protectedIdentities call.2) targets

end Qbutt.Profile
