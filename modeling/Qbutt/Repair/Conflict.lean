import Qbutt.Algorithm.SlashPath

/-!
# Data that other torrents own

`RepairService::conflictingTorrent` and `repairPathIdentity`.  A repair does not start where another
torrent may write: in the directories of a torrent without metadata, or to a file that is, contains or
lies below a file of the target.
-/

namespace Qbutt.Repair

/-- What the operating system says of an object at a path: it cannot be inspected, it does not exist,
or it has a canonical path. -/
inductive Lookup where
  | refused
  | missing
  | found (canonical : String)

/-- What is used of Qt and of the operating system.  `cleanPath` comes after the conversion of
separators, `lookup` is told whether the object has to be a directory, and `fold` is `toCaseFolded`
where file names are compared without case. -/
structure Platform where
  cleanPath : String → String
  isAbsolutePath : String → Bool
  filePath : String → String → String
  fileName : String → String
  parentPath : String → String
  lookup : String → Bool → Lookup
  fold : String → String

def startsWith (text start : String) : Bool := start.toList.isPrefixOf text.toList

/-- The identity of a path below an object that exists, without a slash at its end. -/
def identityText (P : Platform) (canonical suffix : String) : String :=
  let identity := if suffix = "" then canonical else P.filePath canonical suffix
  if 1 < identity.length && identity.toList.getLast? = some '/' then
    String.ofList identity.toList.dropLast
  else identity

/-- The loop of `repairPathIdentity` from a path upwards, with the names that are missing. -/
def climb (P : Platform) : ℕ → (current suffix : String) → String
  | 0, _, _ => ""
  | fuel + 1, current, suffix =>
    if current = "" then ""
    else
      match P.lookup current (suffix ≠ "") with
      | .refused => ""
      | .found canonical => P.fold (identityText P canonical suffix)
      | .missing =>
        let suffix := if suffix = "" then P.fileName current else P.fileName current ++ "/" ++ suffix
        let parent := P.parentPath current
        if parent = current then "" else climb P fuel parent suffix

/-- `repairPathIdentity`, empty if there is none; a parent path is shorter than the path. -/
def repairPathIdentity (P : Platform) (path : String) : String :=
  let current := P.cleanPath path
  if !P.isAbsolutePath current then "" else climb P (current.length + 1) current ""

structure TargetFile where
  pad : Bool
  path : String

/-- What the service knows when it looks for conflicts: the data directory, the files of the target,
and the directories and files of other torrents with their names. -/
structure RepairData where
  savePath : String
  files : List TargetFile
  unresolvedDirectories : List (String × String)
  otherFiles : List (String × String)

/-- The paths of the files that are not padding. -/
def RepairData.targetPaths (P : Platform) (data : RepairData) : List String :=
  (data.files.filter fun file => !file.pad).map fun file => P.filePath data.savePath file.path

/-- Whether an unresolved directory stands against the repair. -/
def meetsRoot (canonicalRoot directory : String) : Bool :=
  directory = "" || directory = canonicalRoot || startsWith directory (canonicalRoot ++ "/") ||
    startsWith canonicalRoot (directory ++ "/")

def sectionsAbove (path : String) : List String := (parents path.toList).map String.ofList

def overlaps (ownedPaths ownedDirectories : List String) (otherPath : String) : Bool :=
  ownedPaths.contains otherPath || ownedDirectories.contains otherPath ||
    (sectionsAbove otherPath).any ownedPaths.contains

/-- The loop over the files of other torrents; `cancelled` is what the flag reads in each round. -/
def checkOthers (P : Platform) (ownedPaths ownedDirectories : List String) :
    (ℕ → Bool) → List (String × String) → String
  | _, [] => ""
  | cancelled, (path, name) :: rest =>
    let otherPath := repairPathIdentity P path
    if cancelled 0 then "Analysis cancelled."
    else if otherPath = "" then "Cannot resolve another torrent's file identity: " ++ name
    else if overlaps ownedPaths ownedDirectories otherPath then
      "Another torrent owns an overlapping data path: " ++ name
    else checkOthers P ownedPaths ownedDirectories (fun round => cancelled (round + 1)) rest

/-- `RepairService::conflictingTorrent`: why the repair cannot start, empty if it can. -/
def conflictingTorrent (P : Platform) (data : RepairData) (cancelled : ℕ → Bool) : String :=
  let canonicalRoot := repairPathIdentity P data.savePath
  if canonicalRoot = "" then "Cannot resolve the data directory identity."
  else
    match data.unresolvedDirectories.find? fun entry =>
      meetsRoot canonicalRoot (repairPathIdentity P entry.1) with
    | some entry =>
      "Another torrent is still resolving its data layout in this directory: " ++ entry.2
    | none =>
      let ownedPaths := (data.targetPaths P).map (repairPathIdentity P)
      if ownedPaths.contains "" then "Cannot resolve a target file identity."
      else
        checkOthers P ownedPaths (ownedPaths.flatMap sectionsAbove) cancelled data.otherFiles

end Qbutt.Repair
