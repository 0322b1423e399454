import Qbutt.Algorithm.Interruptible
import Qbutt.Algorithm.Transition
import Qbutt.Staging.RepairFileGuard

/-!
# Staged operations

`StagingOperation`: it plans the repair of a target, prepares a payload next to the destination, lets
it be downloaded, verifies it, and moves the files into the destination and back.  A call is a program
over the operation and the disk.  System calls that only read, and the checks for a cancellation, are
one attempt where nothing happens on the disk in between.
-/

namespace Qbutt.Staging

/-- Why a call fails: a system call failed or the call was cancelled, or it refuses for a reason of
its own. -/
inductive Failure where
  | environment
  | refused (text : String)

/-- The surroundings of the operations for one torrent.  `verifiedBytes` is the hash check of
`analyzeRepairData` on the contents of the readable files, `none` where that reports an error;
`journalSize` is the length of a journal as a compact document. -/
structure Environment (γ : Type) where
  unicode : Unicode
  torrent : String
  layout : Layout
  verifiedBytes : (ℕ → Option γ) → Option (ℕ → ℕ)
  journalSize : JsonObject → ℕ

def journalLimit : ℕ := 16 * 1024 * 1024

/-- An operation and the disk that it works on. -/
structure Session (γ : Type) where
  disk : Disk γ
  journal : Journal

/-- What the file system chooses: the numbers of new directories, and the files that `prepare`
creates, before and after they are written. -/
structure Fresh (γ : Type) where
  directory : Place → UInt64
  created : ℕ → File γ
  written : ℕ → File γ

section Paths

def filePath (directory name : String) : String :=
  if directory.toList.getLast? = some '/' then directory ++ name else directory ++ "/" ++ name

def transactionRoot (journal : Journal) : String :=
  filePath journal.destination (".qbutt-staging-" ++ journal.operation)

/-- The path of a tree: the destination, `payloadPath` or `backup`. -/
def slotPath (journal : Journal) : Slot → String
  | .destination => journal.destination
  | .payload _ => filePath (transactionRoot journal) "payload"
  | .backup _ => filePath (transactionRoot journal) "backup"

/-- The trees of an operation. -/
def slots (journal : Journal) : List Slot :=
  [.destination, .payload journal.operation, .backup journal.operation]

def placeOf (U : Unicode) (path : String) : Place :=
  foldPath U ((splitRoot U (fromNativeSeparators path)).getD [])

/-- The directory of a file in a tree. -/
def parentPlace (U : Unicode) (journal : Journal) (slot : Slot) (path : List String) : Place :=
  placeOf U (slotPath journal slot) ++ (foldPath U path).dropLast

end Paths

variable {γ : Type}

/-! ### Reading -/

/-- `openFile`: the identity of a file, `none` if there is no file. -/
def openFile (disk : Disk γ) (slot : Slot) (index : ℕ) : Except Failure (Option FileIdentity) :=
  match disk.files slot index with
  | none => .ok none
  | some file =>
    if file.ordinary then .ok (some file.identity)
    else .error (.refused "Staging requires ordinary files without hard links or reparse points.")

/-- `RepairFileGuard::open` for a tree. -/
def openGuard (E : Environment γ) (disk : Disk γ) (slot : Slot) (path : String) :
    Except Failure RepairFileGuard :=
  (RepairFileGuard.open E.unicode E.layout disk slot path).mapError .refused

/-- Whether every hash and the size of a file of the target match, from the report of
`analyzeRepairData` on readable files. -/
def matchesTarget (E : Environment γ) (readable : ℕ → Option (File γ)) (verified : ℕ → ℕ)
    (index : ℕ) : Bool :=
  (E.layout.files[index]?).any fun target =>
    verified index = target.size &&
      ((readable index).any fun file => file.identity.size = target.size)

def matchesSelected (E : Environment γ) (readable : ℕ → Option (File γ)) (files : List Entry) :
    Except Failure Unit :=
  match E.verifiedBytes fun index => (readable index).map File.content with
  | none => .error (.refused "The data of the target cannot be analyzed.")
  | some verified =>
    if files.all fun entry => !entry.selected || matchesTarget E readable verified entry.index then
      .ok ()
    else .error (.refused "Target hashes or exact sizes do not match.")

/-! ### Planning and loading -/

/-- The arguments of `plan`, with what it draws and measures: the identifier of the operation and the
storage requirement. -/
structure Plan where
  destination : String
  sources : ℕ → String
  selected : List ℕ
  operation : String
  requiredBytes : String
  availableBytes : String

def Plan.journal (E : Environment γ) (plan : Plan) (disk : Disk γ) : Except Failure Journal := do
  if plan.selected.isEmpty || !plan.selected.all E.layout.isTarget then
    throw (.refused "Select at least one valid target file for staging.")
  let guard ← openGuard E disk .destination plan.destination
  if disk.saved.isSome then
    throw (.refused "Recover the existing staged operation before starting another one.")
  let files ← E.layout.targets.mapM fun (target, index) => do
    let original ← openFile disk .destination index
    return {
      index := index, path := target.relativePath, size := target.size
      source := plan.sources index, selected := plan.selected.contains index
      original := original, verified := none, step := .untouched : Entry }
  return {
    version := 3, torrent := E.torrent, operation := plan.operation
    destination := plan.destination
    destinationIdentity := toBase64 guard.identity
    destinationDirectories := toBase64 guard.directoryIdentity
    state := .planned, files := files
    payloadBytes := toString (E.layout.targets.map fun target => target.1.size).sum
    requiredBytes := plan.requiredBytes, availableBytes := plan.availableBytes }

def plan (E : Environment γ) (plan : Plan) : Prog Failure (Disk γ) Journal := do
  Prog.attempt .environment
  let disk ← Prog.get
  Prog.ofExcept (plan.journal E disk)

def load (E : Environment γ) : Prog Failure (Disk γ) Journal := do
  Prog.attempt .environment
  let disk ← Prog.get
  match disk.saved with
  | none => Prog.throw (.refused "Cannot read the staging journal within the supported size limit.")
  | some saved =>
    Prog.check (E.journalSize saved ≤ journalLimit)
      (.refused "Cannot read the staging journal within the supported size limit.")
    let journal ← Prog.ofExcept ((Journal.accept E.torrent E.layout saved).mapError .refused)
    let _ ← Prog.ofExcept (openGuard E disk .destination journal.destination)
    pure journal

/-! ### Effects -/

def save (E : Environment γ) : Prog Failure (Session γ) Unit := do
  let session ← Prog.get
  Prog.check (E.journalSize session.journal.toJson ≤ journalLimit)
    (.refused "Cannot create the staging journal within the supported size limit.")
  Prog.effect .environment fun session =>
    { session with disk := { session.disk with saved := some session.journal.toJson } }

/-- Insert `state` into the journal. -/
def setState (state : State) : Prog Failure (Session γ) Unit :=
  Prog.modify fun session => { session with journal := { session.journal with state := state } }

/-- Create the directory at a place if nothing is there. -/
def makeMissing (fresh : Fresh γ) (place : Place) : Prog Failure (Session γ) Unit := do
  let session ← Prog.get
  Prog.when (session.disk.directories place).isNone do
    let volume := ((session.disk.directories place.dropLast).map Dir.contents).getD 0
    Prog.effect .environment fun session =>
      { session with
        disk := session.disk.makeDirectory place
          { volume := volume, index := fresh.directory place, ordinary := true, mountTarget := none
            contents := volume } }

/-- `mkpath`: create the directories on a path that are missing. -/
def mkpath (fresh : Fresh γ) (place : Place) : Prog Failure (Session γ) Unit :=
  Prog.forEach place.inits.tail (makeMissing fresh)

/-- `mkdir`: create a directory that does not exist. -/
def mkdir (fresh : Fresh γ) (place : Place) : Prog Failure (Session γ) Unit := do
  let session ← Prog.get
  Prog.check (session.disk.directories place).isNone
    (.refused "Cannot create a new, independent staging directory.")
  makeMissing fresh place

/-! ### Preparing and verifying -/

def createPayload (fresh : Fresh γ) (entry : Entry) : Prog Failure (Session γ) Unit := do
  let session ← Prog.get
  let slot := Slot.payload session.journal.operation
  Prog.check (session.disk.files slot entry.index).isNone
    (.refused "Cannot exclusively create a staging file.")
  Prog.effect .environment fun session =>
    { session with disk := session.disk.setFile slot entry.index (some (fresh.created entry.index)) }
  Prog.effect .environment fun session =>
    { session with disk := session.disk.setFile slot entry.index (some (fresh.written entry.index)) }

def targetPath (E : Environment γ) (entry : Entry) : List String :=
  ((E.layout.files[entry.index]?).map TargetFile.path).getD []

def prepare (E : Environment γ) (fresh : Fresh γ) : Prog Failure (Session γ) Unit := do
  let session ← Prog.get
  let journal := session.journal
  Prog.check (journal.state = .planned)
    (.refused "Recover the interrupted operation before preparing new staging files.")
  Prog.attempt .environment
  let guard ← Prog.ofExcept (openGuard E session.disk .destination journal.destination)
  let planned := fromBase64 journal.destinationIdentity
  Prog.check (!planned.isEmpty && guard.identity = planned)
    (.refused "The target volume or file layout changed after planning. No staging data was created.")
  setState .preparing
  save E
  mkdir fresh (placeOf E.unicode (transactionRoot journal))
  mkdir fresh (placeOf E.unicode (slotPath journal (.payload journal.operation)))
  mkdir fresh (placeOf E.unicode (slotPath journal (.backup journal.operation)))
  Prog.forEach journal.files fun entry =>
    mkpath fresh
      (parentPlace E.unicode journal (.payload journal.operation) (targetPath E entry))
  let session ← Prog.get
  Prog.attempt .environment
  let _ ← Prog.ofExcept (openGuard E session.disk (.payload journal.operation)
    (slotPath journal (.payload journal.operation)))
  Prog.forEach journal.files (createPayload fresh)
  setState .downloading
  save E

def verifyEntries (disk : Disk γ) (operation : String) (files : List Entry) :
    Except Failure (List Entry) :=
  files.mapM fun entry =>
    if entry.selected then do
      let identity ← openFile disk (.payload operation) entry.index
      return { entry with verified := some identity }
    else return entry

def verify (E : Environment γ) : Prog Failure (Session γ) Unit := do
  let session ← Prog.get
  let journal := session.journal
  Prog.check (journal.state = .downloading || journal.state = .readyToCommit)
    (.refused "This staged payload is not ready for verification.")
  Prog.attempt .environment
  let guard ← Prog.ofExcept (openGuard E session.disk (.payload journal.operation)
    (slotPath journal (.payload journal.operation)))
  let readable := fun index =>
    if guard.existingFiles.contains index then
      session.disk.files (.payload journal.operation) index
    else none
  Prog.ofExcept (matchesSelected E readable journal.files)
  let files ← Prog.ofExcept (verifyEntries session.disk journal.operation journal.files)
  Prog.modify fun session =>
    { session with journal := { session.journal with files := files, state := .readyToCommit } }
  save E

/-! ### Transactions -/

/-- `owned`: what the three slots of an entry hold. -/
structure Owned where
  destination : Option FileIdentity
  payload : Option FileIdentity
  backup : Option FileIdentity

/-- Count the file in a slot as the original or as the replacement; any other file is refused, unless
it is what an interrupted download left in the payload. -/
def countFile (rollback : Bool) (entry : Entry) (slot : Slot) (counts : ℕ × ℕ) :
    Option FileIdentity → Except Failure (ℕ × ℕ)
  | none => .ok counts
  | some actual =>
    let isPayload := match slot with | .payload _ => true | _ => false
    let isBackup := match slot with | .backup _ => true | _ => false
    if entry.original = some actual && !isPayload then .ok (counts.1 + 1, counts.2)
    else if entry.replacement = some actual && !isBackup then .ok (counts.1, counts.2 + 1)
    else if rollback && entry.replacement.isNone && isPayload then .ok counts
    else .error (.refused "File identity changed. Recovery preserved it and needs attention.")

/-- Open the files of an entry and check that they are the ones that the journal knows. -/
def acquireEntry (disk : Disk γ) (rollback : Bool) (operation : String) (entry : Entry) :
    Except Failure Owned :=
  if !entry.selected then
    if rollback then .ok ⟨none, none, none⟩
    else do
      let payload ← openFile disk (.payload operation) entry.index
      return ⟨none, payload, none⟩
  else do
    let destination ← openFile disk .destination entry.index
    let counts ← countFile rollback entry .destination (0, 0) destination
    let payload ← openFile disk (.payload operation) entry.index
    let counts ← countFile rollback entry (.payload operation) counts payload
    let backup ← openFile disk (.backup operation) entry.index
    let (originals, replacements) ← countFile rollback entry (.backup operation) counts backup
    if (entry.original.isSome && originals ≠ 1) || (entry.original.isNone && originals ≠ 0) ||
        (!rollback && replacements ≠ 1) || 1 < replacements then
      .error (.refused ("The original or verified file is missing or duplicated. " ++
        "Recovery stopped without deleting data."))
    else return ⟨destination, payload, backup⟩

def acquire (disk : Disk γ) (rollback : Bool) (journal : Journal) :
    Except Failure (List (Entry × Owned)) :=
  journal.files.mapM fun entry => do
    let owned ← acquireEntry disk rollback journal.operation entry
    return (entry, owned)

/-- The files that `commit` hashes: a verified file where it is now, other files in the payload. -/
def readableFiles (disk : Disk γ) (operation : String) (files : List (Entry × Owned)) (index : ℕ) :
    Option (File γ) :=
  (files.find? fun file => file.1.index = index).bind fun (entry, owned) =>
    if entry.selected && owned.destination = entry.replacement then disk.files .destination index
    else disk.files (.payload operation) index

/-- The guards of the three trees. -/
structure Guards where
  destination : RepairFileGuard
  payload : RepairFileGuard
  backup : RepairFileGuard

def Guards.parents (guards : Guards) : Slot → RepairFileGuard
  | .destination => guards.destination
  | .payload _ => guards.payload
  | .backup _ => guards.backup

/-- Open the guards of the three trees.  The source opens each of them twice, strictly and for
renames; the second one finds what the first one has found. -/
def openGuards (E : Environment γ) (disk : Disk γ) (journal : Journal) : Except Failure Guards := do
  let destination ← openGuard E disk .destination journal.destination
  let payload ← openGuard E disk (.payload journal.operation)
    (slotPath journal (.payload journal.operation))
  let backup ← openGuard E disk (.backup journal.operation)
    (slotPath journal (.backup journal.operation))
  return ⟨destination, payload, backup⟩

/-- `renameFile`: it neither replaces a file nor leaves the volume. -/
def renameFile (E : Environment γ) (guards : Guards) (entry : Entry) (source target : Slot) :
    Prog Failure (Session γ) Unit := do
  let session ← Prog.get
  let parent := parentPlace E.unicode session.journal target (targetPath E entry)
  match ((guards.parents target).directories.lookup parent).join with
  | none =>
    Prog.throw (.refused ("Cannot safely rename the file: its locked parent directory or the " ++
      "required Windows API is unavailable."))
  | some directory =>
    Prog.check
      ((session.disk.files target entry.index).isNone &&
        (session.disk.identityAt source entry.index).map FileIdentity.volume =
          some directory.contents)
      (.refused "Recovery could not replace a file. The destination file was not overwritten.")
    Prog.effect .environment fun session =>
      { session with disk := session.disk.moveFile entry.index source target }

def setStep (position : ℕ) (step : Step) : Prog Failure (Session γ) Unit :=
  Prog.modify fun session =>
    { session with
      journal := { session.journal with
        files := session.journal.files.modify position fun entry => { entry with step := step } } }

def move (E : Environment γ) (guards : Guards) (position : ℕ) (entry : Entry) (source target : Slot)
    (pending done : Step) : Prog Failure (Session γ) Unit := do
  setStep position pending
  save E
  renameFile E guards entry source target
  setStep position done
  save E

/-- One round of the last loop of `transact`. -/
def apply (E : Environment γ) (guards : Guards) (rollback : Bool) (operation : String)
    (file : (Entry × Owned) × ℕ) : Prog Failure (Session γ) Unit := do
  let ((entry, owned), position) := file
  Prog.attempt .environment
  Prog.when entry.selected do
    if rollback then do
      Prog.when (entry.replacement.isSome && owned.destination = entry.replacement) do
        move E guards position entry .destination (.payload operation) .uninstalledPending
          .uninstalled
      Prog.when (entry.original.isSome && owned.backup = entry.original) do
        move E guards position entry (.backup operation) .destination .restoredPending .restored
    else do
      Prog.when (entry.original.isSome && owned.destination = entry.original) do
        move E guards position entry .destination (.backup operation) .backedUpPending .backedUp
      Prog.when (owned.payload = entry.replacement) do
        move E guards position entry (.payload operation) .destination .installedPending .installed

/-- The checks of `transact` before anything is changed. -/
def begin (E : Environment γ) (rollback : Bool) (session : Session γ) : Except Failure Unit := do
  let journal := session.journal
  if (!rollback && !journal.state.requiresVerified) || (rollback && journal.state = .planned) then
    throw (.refused "The staged operation is not ready for this action.")
  if !rollback && journal.version < 2 && journal.state ≠ .committed then
    throw (.refused "This older recovery journal can only be rolled back safely.")
  let targetDirectories ← openGuard E session.disk .destination journal.destination
  let expected := fromBase64 journal.destinationDirectories
  if 2 ≤ journal.version && (expected.isEmpty || targetDirectories.directoryIdentity ≠ expected) then
    throw (.refused
      "The target volume or directory layout changed. Recovery preserved every file.")

/-- Create the directories of all files in all trees. -/
def makeDirectories (E : Environment γ) (fresh : Fresh γ) (journal : Journal) :
    Prog Failure (Session γ) Unit :=
  Prog.forEach journal.files fun entry =>
    Prog.forEach (slots journal) fun slot =>
      mkpath fresh (parentPlace E.unicode journal slot (targetPath E entry))

/-- Acquire the files, and hash them again before a commit. -/
def inspect (E : Environment γ) (rollback : Bool) (session : Session γ) :
    Except Failure (List (Entry × Owned)) := do
  let files ← acquire session.disk rollback session.journal
  if !rollback then
    matchesSelected E (readableFiles session.disk session.journal.operation files)
      session.journal.files
  return files

/-- `transact` up to the first save. -/
def preflight (E : Environment γ) (fresh : Fresh γ) (rollback : Bool) :
    Prog Failure (Session γ) (Guards × List (Entry × Owned)) := do
  let session ← Prog.get
  Prog.attempt .environment
  Prog.ofExcept (begin E rollback session)
  makeDirectories E fresh session.journal
  let session ← Prog.get
  Prog.attempt .environment
  let guards ← Prog.ofExcept (openGuards E session.disk session.journal)
  Prog.when (2 ≤ session.journal.version) do
    Prog.modify fun session =>
      { session with
        journal := { session.journal with
          destinationDirectories := toBase64 guards.destination.directoryIdentity } }
  Prog.attempt .environment
  let files ← Prog.ofExcept (inspect E rollback session)
  setState (if rollback then .rollingBack else .committing)
  save E
  return (guards, files)

def transact (E : Environment γ) (fresh : Fresh γ) (rollback : Bool) :
    Prog Failure (Session γ) Unit := do
  let (guards, files) ← preflight E fresh rollback
  let session ← Prog.get
  Prog.forEach (if rollback then files.zipIdx.reverse else files.zipIdx)
    (apply E guards rollback session.journal.operation)
  setState (if rollback then .rolledBack else .committed)
  save E

/-! ### Runs -/

/-- An operation, if there is one in memory, and the disk.  `stopped` says that the last call of the
operation failed. -/
structure World (γ : Type) where
  disk : Disk γ
  operation : Option Journal
  stopped : Bool

/-- The labels of the system: the calls with what the environment does to their effects, what the
download does to a file of the payload, and the end of the process. -/
inductive Act (γ : Type) where
  | plan (input : Plan) (script : List Fate)
  | load (script : List Fate)
  | prepare (fresh : Fresh γ) (script : List Fate)
  | download (index : ℕ) (file : File γ)
  | verify (script : List Fate)
  | commit (fresh : Fresh γ) (script : List Fate)
  | rollback (fresh : Fresh γ) (script : List Fate)
  | crash

def World.call (world : World γ) (program : Prog Failure (Session γ) Unit) (script : List Fate) :
    Option (World γ) :=
  world.operation.map fun journal =>
    match program ⟨⟨world.disk, journal⟩, script, []⟩ with
    | (.ok _, run) => ⟨run.state.disk, some run.state.journal, false⟩
    | (.error (.error _), run) => ⟨run.state.disk, some run.state.journal, true⟩
    | (.error .killed, run) => ⟨run.state.disk, none, false⟩

def World.make (world : World γ) (program : Prog Failure (Disk γ) Journal) (script : List Fate) :
    World γ :=
  match program ⟨world.disk, script, []⟩ with
  | (.ok journal, _) => ⟨world.disk, some journal, false⟩
  | (.error _, _) => ⟨world.disk, none, false⟩

def step (E : Environment γ) (world : World γ) : Act γ → Option (World γ)
  | .plan input script => some (world.make (plan E input) script)
  | .load script => some (world.make (load E) script)
  | .prepare fresh script => world.call (prepare E fresh) script
  | .verify script => world.call (verify E) script
  | .commit fresh script => world.call (transact E fresh false) script
  | .rollback fresh script => world.call (transact E fresh true) script
  | .download index file =>
    match world.operation with
    | some journal =>
      if journal.state = .downloading &&
          (world.disk.files (.payload journal.operation) index).isSome then
        some { world with
          disk := world.disk.setFile (.payload journal.operation) index (some file) }
      else none
    | none => none
  | .crash => some ⟨world.disk, none, false⟩

/-- Operations on a target, from the time when there is none. -/
def staging (E : Environment γ) : System (World γ) (Act γ) where
  initial world := world.operation = none ∧ world.disk.saved = none
  step := step E

end Qbutt.Staging
