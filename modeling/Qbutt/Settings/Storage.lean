import Qbutt.Algorithm.Interruptible
import Qbutt.Algorithm.Table
import Qbutt.Algorithm.Transition

/-!
# The settings storage

`SettingsStorage`: settings in memory, and the two files that they are written to.  `save` writes a
side file, removes the final one and renames the side file, so that one of the two always holds
settings; the next start reads the side file if there is anything in it.  The values are the valid
`QVariant`s.
-/

namespace Qbutt.Settings

variable {ν : Type}

/-- The side file, whose name ends in `_new`, and the final file. -/
structure Files (ν : Type) where
  new : Option (Table String ν)
  final : Option (Table String ν)

/-- `SettingsStorage`: `m_data` and `m_dirty`. -/
structure SettingsStorage (ν : Type) where
  data : Table String ν
  dirty : Bool

namespace SettingsStorage

def storeValue [DecidableEq ν] (storage : SettingsStorage ν) (key : String) (value : ν) :
    SettingsStorage ν :=
  if storage.data.lookup key = some value then storage
  else ⟨AList.insert key value storage.data, true⟩

def removeValue (storage : SettingsStorage ν) (key : String) : SettingsStorage ν :=
  if (storage.data.lookup key).isSome then ⟨AList.erase key storage.data, true⟩ else storage

end SettingsStorage

/-! ### Files -/

/-- What a file of settings holds, nothing if there is no file. -/
def contents (file : Option (Table String ν)) : Table String ν := file.getD ∅

/-- `QSettings::sync` on the side file after `setValue` for all settings: the settings that are in
the file already stay.  Without settings there is nothing to write. -/
def syncNew (data : Table String ν) (files : Files ν) : Files ν :=
  if data.entries.isEmpty then files else { files with new := some (data ∪ contents files.new) }

def removeNew (files : Files ν) : Files ν := { files with new := none }

def removeFinal (files : Files ν) : Files ν := { files with final := none }

/-- `Utils::Fs::renameFile` of the side file to the final one; it does not replace a file. -/
def renameFile : Prog Unit (Files ν) Bool := do
  let files ← Prog.get
  if files.new.isSome && files.final.isNone then Prog.tryEffect fun files => ⟨none, files.new⟩
  else pure false

def writeNativeSettings (data : Table String ν) : Prog Unit (Files ν) Bool := do
  let written ← Prog.tryEffect (syncNew data)
  if written then do
    let _ ← Prog.tryEffect removeFinal
    renameFile
  else do
    let _ ← Prog.tryEffect removeNew
    pure false

/-- The settings that `readNativeSettings` finds. -/
def loadedData (files : Files ν) : Table String ν :=
  if (contents files.new).entries.isEmpty then contents files.final else contents files.new

def readNativeSettings : Prog Unit (Files ν) (Table String ν) := do
  let files ← Prog.get
  if (contents files.new).entries.isEmpty then pure (loadedData files)
  else do
    let _ ← Prog.tryEffect removeFinal
    let _ ← renameFile
    pure (loadedData files)

/-! ### Runs -/

/-- The files and the storage of the running process, if there is one.  `saves` are the settings at
the calls of `save` since the last one that returned true, which is the first of them. -/
structure World (ν : Type) where
  files : Files ν
  storage : Option (SettingsStorage ν)
  saves : List (Table String ν)

/-- The labels of the system; a restart may happen at any time and ends the running process. -/
inductive Act (ν : Type) where
  | store (key : String) (value : ν)
  | remove (key : String)
  | save (script : List Fate)
  | restart (script : List Fate)

def World.save (world : World ν) (storage : SettingsStorage ν) (script : List Fate) : World ν :=
  let saves := world.saves ++ [storage.data]
  if !storage.dirty then ⟨world.files, some storage, saves⟩
  else
    match writeNativeSettings storage.data ⟨world.files, script, []⟩ with
    | (.ok true, run) => ⟨run.state, some { storage with dirty := false }, [storage.data]⟩
    | (.ok false, run) => ⟨run.state, some storage, saves⟩
    | (.error _, run) => ⟨run.state, none, saves⟩

/-- A new process that reads the settings. -/
def World.restart (world : World ν) (script : List Fate) : World ν :=
  match readNativeSettings ⟨world.files, script, []⟩ with
  | (.ok data, run) => ⟨run.state, some ⟨data, false⟩, world.saves⟩
  | (.error _, run) => ⟨run.state, none, world.saves⟩

def step [DecidableEq ν] (world : World ν) : Act ν → Option (World ν)
  | .store key value =>
    world.storage.map fun storage => { world with storage := some (storage.storeValue key value) }
  | .remove key =>
    world.storage.map fun storage => { world with storage := some (storage.removeValue key) }
  | .save script => world.storage.map fun storage => world.save storage script
  | .restart script => some (world.restart script)

/-- Processes of a profile whose settings are all in the final file. -/
def settings (ν : Type) [DecidableEq ν] : System (World ν) (Act ν) where
  initial world :=
    world.files.new = none ∧ world.storage = none ∧ world.saves = [contents world.files.final]
  step := step

end Qbutt.Settings
