import Qbutt.Algorithm.Interruptible
import Qbutt.Algorithm.Table
import Qbutt.Download.Job

/-!
# What outlives a session

The storage of the download jobs and the files in the download directory, with the operations of
`download.rs` and `download/transfer.rs` on them.  An operation whose effects can fail or be cut
short one by one is a program over the profile; the others take whether they succeed.

Some components are there for the statements only: a file remembers the job and the attempt whose
staging file it was (`File.owner`), and the profile counts the attempts of a job (`attempts`),
remembers what was staged last for it (`staged`), and lists the acknowledged saves and the job lists
that became visible, the latest first (`log`).
-/

namespace Qbutt.Download

/-- The bytes of a file. -/
abbrev Content := List UInt8

/-- A file in the download directory; `owner` is the job and the number of the attempt that
published it, if one did. -/
structure File where
  owner : Option (String × ℕ)
  content : Content
  deriving DecidableEq, Repr

/-- The staging area `.qbutt-staging`: absent, something else than a plain directory, or the
directory with the partial file and the working directory of each job. -/
inductive Staging where
  | missing
  | foreign
  | directory (parts : String → Option Content) (folders : String → Bool)

/-- What subscribers and the storage see, in order. -/
inductive Event (ρ : Type) where
  | saved (job : DownloadJob ρ)
  | published (jobs : List (DownloadJob ρ))

structure Profile (ρ : Type) where
  stored : Table String (DownloadJob ρ)
  files : FilePath → Option File
  staging : Staging
  attempts : String → ℕ
  staged : String → Option Content
  log : List (Event ρ)

namespace Staging

def part : Staging → String → Option Content
  | directory parts _, id => parts id
  | _, _ => none

def folder : Staging → String → Bool
  | directory _ folders, id => folders id
  | _, _ => false

/-- Replace or remove the partial file of a job. -/
def setPart : Staging → String → Option Content → Staging
  | directory parts folders, id, content => directory (Function.update parts id content) folders
  | staging, _, _ => staging

/-- Create or remove the working directory of a job. -/
def setFolder : Staging → String → Bool → Staging
  | directory parts folders, id, present => directory parts (Function.update folders id present)
  | staging, _, _ => staging

def create : Staging → Staging
  | missing => directory (fun _ => none) fun _ => false
  | staging => staging

def safeExists : Staging → Except DownloadError Bool
  | missing => .ok false
  | foreign => .error .io
  | directory _ _ => .ok true

end Staging

namespace Profile

variable {ρ : Type}

/-- An acknowledged `storage.save`. -/
def save (profile : Profile ρ) (job : DownloadJob ρ) : Profile ρ :=
  { profile with
    stored := profile.stored.insert job.id job
    log := .saved job :: profile.log }

/-- Replace or remove the partial file of a job. -/
def setPart (profile : Profile ρ) (id : String) (content : Option Content) : Profile ρ :=
  { profile with staging := profile.staging.setPart id content }

/-- Create or remove the working directory of a job. -/
def setFolder (profile : Profile ρ) (id : String) (present : Bool) : Profile ρ :=
  { profile with staging := profile.staging.setFolder id present }

/-- A successful `move_without_replace` of the partial file of a job to a free path. -/
def publishFile (profile : Profile ρ) (id : String) (path : FilePath) (content : Content) :
    Profile ρ :=
  { profile.setPart id none with
    files := Function.update profile.files path (some ⟨some (id, profile.attempts id), content⟩) }

def removePartial (id : String) : Prog DownloadError (Profile ρ) Unit := do
  Prog.attempt .io
  let profile ← Prog.get
  let present ← Prog.ofExcept profile.staging.safeExists
  Prog.when present do
    Prog.effect .io fun profile => profile.setPart id none
    Prog.effect .io fun profile => profile.setFolder id false

def verifyCandidate (E : Environment ρ) (candidate : PublishCandidate) :
    Prog DownloadError (Profile ρ) Bool := do
  Prog.attempt .io
  let profile ← Prog.get
  match profile.files candidate.path with
  | none => pure false
  | some file =>
    pure (file.content.length == candidate.size && E.sha256 file.content == candidate.sha256)

def publicationCompleted (E : Environment ρ) (job : DownloadJob ρ) :
    Prog DownloadError (Profile ρ) Bool :=
  if job.status = .publishing then
    match job.candidate with
    | some candidate =>
      if candidate.path.parent = some E.destination then verifyCandidate E candidate else pure false
    | none => pure false
  else pure false

def recoveredJob (job : DownloadJob ρ) (completed isFile : Bool) : DownloadJob ρ :=
  let interrupted := some job.origin.interruptedMessage
  let job :=
    if job.status = .publishing then
      if completed then
        { job with
          path := job.candidate.map PublishCandidate.path
          status := .complete
          error := none }
      else { job with status := .error, error := interrupted }
    else if job.isActive then { job with status := .error, error := interrupted }
    else if job.status = .complete ∧ !isFile then
      { job with status := .error, error := some "The downloaded file is no longer available." }
    else job
  { job with candidate := none }

/-- One round of the loop of `open_with_client`. -/
def recoverJob (E : Environment ρ) (job : DownloadJob ρ) :
    Prog DownloadError (Profile ρ) (DownloadJob ρ) := do
  Prog.check (job.validate E) .storage
  let completed ← publicationCompleted E job
  let profile ← Prog.get
  -- `is_file` reads an I/O error as `false`
  let readable ← Prog.probe
  let isFile := readable && job.path.any fun path => (profile.files path).isSome
  let recovered := recoveredJob job completed isFile
  removePartial job.id
  Prog.when (recovered.status ≠ job.status ∨ job.status = .publishing) do
    Prog.effect .storage fun profile => profile.save recovered
  pure recovered

/-- `open_with_client`, up to the construction of the queue: the jobs it starts with. -/
def recover (E : Environment ρ) : Prog DownloadError (Profile ρ) (List (DownloadJob ρ)) := do
  Prog.attempt .io
  let profile ← Prog.get
  let _ ← Prog.ofExcept profile.staging.safeExists
  Prog.attempt .storage
  let jobs ← Prog.mapEach profile.stored.values (recoverJob E)
  Prog.attempt .network
  pure jobs

end Profile

end Qbutt.Download
