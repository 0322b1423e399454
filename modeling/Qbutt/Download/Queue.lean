import Qbutt.Algorithm.Transition
import Qbutt.Download.Profile

/-!
# The download queue

The entry points of `DownloadQueue`, the background task that each accepted request spawns, and
their interleavings.  A step of the system is what happens between two acquisitions of the state
lock: a whole entry point, or the part of `run_transfer` and `finish` up to the next point where
another party can observe or change something.  The storage holds the lock while it saves, so a save
belongs to the step that asks for it.

A task is identified by the index at which it was spawned.  Its cancellation channel is the flag
`Task.cancelled`, and the sender of that channel is its index in `Running.cancellation`.
-/

namespace Qbutt.Download

/-- `StagedDownload`: the size and the digest of the partial file. -/
structure StagedDownload where
  size : ℕ
  sha256 : String
  deriving DecidableEq, Repr

/-- How far a task is.  Up to `discarding` it is in `run_transfer`, from `cleaning` on in
`finish`, which keeps the outcome of the transfer apart from that of the clean-up until it records
the job. -/
inductive Phase where
  | waiting
  | starting
  | preparing
  | transferring (begun : Bool)
  | publishing (staged : StagedDownload) (index : ℕ)
  | moving (staged : StagedDownload) (index : ℕ)
  | discarding
  | cleaning (transfer : Except DownloadError FilePath)
  | reading (transfer : Except DownloadError FilePath) (cleanup : Option DownloadError)
  | recording (transfer : Except DownloadError FilePath) (cleanup : Option DownloadError)
      (closing : Bool)
  | releasing
  | finished

/-- A spawned task: the job it works for, its request, what its cancellation channel holds. -/
structure Task (ρ : Type) where
  id : String
  request : DirectDownload ρ
  cancelled : Bool
  phase : Phase

/-- The queue of an open session, with the profile it works on. -/
structure Running (ρ : Type) extends Profile ρ where
  jobs : Table String (DownloadJob ρ)
  cancellation : Table String ℕ
  closed : Bool
  updates : List (DownloadJob ρ)
  permit : Option ℕ
  tasks : List (Task ρ)

/-- Between two sessions only the profile is left. -/
inductive World (ρ : Type) where
  | down (profile : Profile ρ)
  | running (queue : Running ρ)

/-- The profile in either case. -/
def World.profile {ρ : Type} : World ρ → Profile ρ
  | down profile => profile
  | running queue => queue.toProfile

variable {ρ : Type}

def orderedJobs (jobs : Table String (DownloadJob ρ)) : List (DownloadJob ρ) :=
  jobs.values.mergeSort fun left right => decide (left.id ≤ right.id)

namespace Running

/-- `updates.send_replace`. -/
def publish (queue : Running ρ) : Running ρ :=
  { queue with
    updates := orderedJobs queue.jobs
    log := .published (orderedJobs queue.jobs) :: queue.log }

/-- Save a job, put it into the map and show it. -/
def settle (queue : Running ρ) (id : String) (job : DownloadJob ρ) : Running ρ :=
  publish { queue with toProfile := queue.toProfile.save job, jobs := queue.jobs.insert id job }

/-- The state in which `open_with_client` leaves the queue. -/
def opened (profile : Profile ρ) (jobs : List (DownloadJob ρ)) : Running ρ :=
  publish
    { profile with
      jobs := jobs.foldl (fun table job => table.insert job.id job) ∅
      cancellation := ∅
      closed := false
      updates := []
      permit := none
      tasks := [] }

/-- `spawn`, with the sender of the new channel entered for the job and a new attempt counted. -/
def spawn (queue : Running ρ) (id : String) (request : DirectDownload ρ) : Running ρ :=
  { queue with
    cancellation := queue.cancellation.insert id queue.tasks.length
    attempts := Function.update queue.attempts id (queue.attempts id + 1)
    tasks := queue.tasks ++ [⟨id, request, false, .waiting⟩] }

/-- Whether a job other than `id` with this catalogue origin is active. -/
def originActive [DecidableEq ρ] (queue : Running ρ) (origin : DownloadOrigin ρ)
    (excluded : Option String) : Bool :=
  queue.jobs.values.any fun current =>
    some current.id ≠ excluded && current.origin = origin && current.isActive

/-- `enqueue`; the drawn identifier and whether the save is acknowledged are inputs. -/
def enqueue [DecidableEq ρ] (queue : Running ρ) (id : String) (request : DirectDownload ρ)
    (saved : Bool) : Except DownloadError (DownloadJob ρ) × Running ρ :=
  let job := DownloadJob.queued id request
  if queue.closed then (.error .closing, queue)
  else if request.origin.isCatalog && queue.originActive request.origin none then
    (.error .alreadyQueued, queue)
  else if !saved then (.error .storage, queue)
  else (.ok job, (queue.spawn id request).settle id job)

def retry [DecidableEq ρ] (queue : Running ρ) (id : String) (request : DirectDownload ρ)
    (saved : Bool) : Except DownloadError Unit × Running ρ :=
  if queue.closed then (.error .closing, queue)
  else
    match queue.jobs.lookup id with
    | none => (.error .retry, queue)
    | some job =>
      if ¬ (job.status = .cancelled ∨ job.status = .error) ∨ job.origin ≠ request.origin ∨
          ¬ job.origin.isCatalog then
        (.error .retry, queue)
      else if queue.originActive request.origin (some id) then (.error .alreadyQueued, queue)
      else if !saved then (.error .storage, queue)
      else (.ok (), (queue.spawn id request).settle id job.requeued)

/-- Send `true` on the channel of a task. -/
def signal (queue : Running ρ) (attempt : ℕ) : Running ρ :=
  { queue with tasks := queue.tasks.modify attempt fun task => { task with cancelled := true } }

def cancel (queue : Running ρ) (id : String) : Running ρ :=
  match queue.jobs.lookup id with
  | some job =>
    if job.status = .queued ∨ job.status = .downloading then
      match queue.cancellation.lookup id with
      | some attempt => queue.signal attempt
      | none => queue
    else queue
  | none => queue

/-- The locked part of `close`. -/
def close (queue : Running ρ) : Running ρ :=
  queue.cancellation.values.foldl signal { queue with closed := true }

def update (queue : Running ρ) (id : String) (change : DownloadJob ρ → DownloadJob ρ)
    (saved : Bool) : Except DownloadError Unit × Running ρ :=
  match queue.jobs.lookup id with
  | none => (.error .retry, queue)
  | some job =>
    if !saved then (.error .storage, queue) else (.ok (), queue.settle id (change job))

/-- Put a task into its next phase. -/
def advance (queue : Running ρ) (attempt : ℕ) (phase : Phase) : Running ρ :=
  { queue with tasks := queue.tasks.modify attempt fun task => { task with phase := phase } }

/-- The end of `run_transfer`, which gives its permit back. -/
def leave (queue : Running ρ) (attempt : ℕ) (transfer : Except DownloadError FilePath) :
    Running ρ :=
  { queue.advance attempt (.cleaning transfer) with permit := none }

end Running

/-- The change that `finish` makes to a job. -/
def finishedJob (outcome : Except DownloadError FilePath) (closing : Bool) (job : DownloadJob ρ) :
    DownloadJob ρ :=
  if job.status = .complete then job
  else
    match outcome with
    | .ok path =>
      { job with path := some path, status := .complete, error := none, candidate := none }
    | .error error =>
      if closing = false ∧ error = .cancelled then
        { job with status := .cancelled, error := none, candidate := none }
      else
        { job with
          status := .error
          error := some (if closing then job.origin.interruptedMessage else error.message)
          candidate := none }

/-- What a task does next, as far as it is not determined by its phase: whether the one operation of
the step that can fail succeeds, how the transfer goes on, how the clean-up goes. -/
inductive Move where
  | proceed (succeeds : Bool)
  | write (content : Content)
  | report (bytes : ℕ) (total : Option ℕ)
  | abort (error : DownloadError)
  | interrupt
  | clean (script : List Fate)

/-- The labels of the system. -/
inductive Act (ρ : Type) where
  | enqueue (id : String) (request : DirectDownload ρ) (saved : Bool)
  | retry (id : String) (request : DirectDownload ρ) (saved : Bool)
  | cancel (id : String)
  | close
  | task (attempt : ℕ) (move : Move)
  | crash
  | reopen (script : List Fate)
  | userFile (path : FilePath) (content : Content)

namespace Running

/-- Take the permit, unless the download was cancelled while it waited. -/
def acquire (queue : Running ρ) (attempt : ℕ) (task : Task ρ) : Option (Running ρ) :=
  if queue.permit.isSome then none
  else if task.cancelled then some (queue.leave attempt (.error .cancelled))
  else some { queue.advance attempt .starting with permit := some attempt }

/-- Publish the status `downloading`. -/
def start (queue : Running ρ) (attempt : ℕ) (task : Task ρ) (saved : Bool) : Running ρ :=
  match queue.update task.id (fun job => { job with status := .downloading }) saved with
  | (.ok _, queue) => queue.advance attempt .preparing
  | (.error error, queue) => queue.leave attempt (.error error)

/-- Create the staging directory and make sure that it is a plain one. -/
def prepare (queue : Running ρ) (attempt : ℕ) (created : Bool) : Running ρ :=
  let staging := queue.staging.create
  if !created then queue.leave attempt (.error .io)
  else
    match staging.safeExists with
    | .ok true => { queue with staging := staging }.advance attempt (.transferring false)
    | _ => { queue with staging := staging }.leave attempt (.error .io)

/-- Create the partial file of a direct transfer, or the working directory of a segmented one;
neither may exist. -/
def begin (queue : Running ρ) (attempt : ℕ) (task : Task ρ) (created : Bool) : Running ρ :=
  if !created then queue.leave attempt (.error .io)
  else if task.request.segmented then
    if queue.staging.folder task.id then queue.leave attempt (.error .io)
    else
      { queue with toProfile := queue.toProfile.setFolder task.id true }.advance attempt
        (.transferring true)
  else if (queue.staging.part task.id).isSome then queue.leave attempt (.error .io)
  else
    { queue with toProfile := queue.toProfile.setPart task.id (some []) }.advance attempt
      (.transferring true)

/-- The end of a transfer: measure the partial file. -/
def stage (E : Environment ρ) (queue : Running ρ) (attempt : ℕ) (task : Task ρ)
    (readable : Bool) : Running ρ :=
  match queue.staging.part task.id with
  | none => queue.leave attempt (.error .io)
  | some content =>
    if !readable then queue.leave attempt (.error .io)
    else if content = [] then queue.leave attempt (.error .empty)
    else
      { queue with staged := Function.update queue.staged task.id (some content) }.advance attempt
        (.publishing ⟨content.length, E.sha256 content⟩ 1)

def candidate (E : Environment ρ) (task : Task ρ) (index : ℕ) : FilePath :=
  candidatePath E.destination task.request.title task.request.extension index

/-- Journal the next candidate.  The check of the channel outside of the lock is that inside of it:
a channel never goes back to `false`. -/
def journal (E : Environment ρ) (queue : Running ρ) (attempt : ℕ) (task : Task ρ)
    (staged : StagedDownload) (index : ℕ) (saved : Bool) : Running ρ :=
  if task.cancelled then queue.advance attempt .discarding
  else
    let publishing (job : DownloadJob ρ) : DownloadJob ρ :=
      { job with
        status := .publishing
        bytes := staged.size
        totalBytes := some staged.size
        candidate := some ⟨candidate E task index, staged.size, staged.sha256⟩ }
    match queue.update task.id publishing saved with
    | (.ok _, queue) => queue.advance attempt (.moving staged index)
    | (.error error, queue) => queue.leave attempt (.error error)

def discard (queue : Running ρ) (attempt : ℕ) (task : Task ρ) (removed : Bool) : Running ρ :=
  if removed then
    { queue with toProfile := queue.toProfile.setPart task.id none }.leave attempt
      (.error .cancelled)
  else queue.leave attempt (.error .io)

/-- Move the partial file to the candidate, or go on to the next one if that is taken. -/
def moveFile (E : Environment ρ) (queue : Running ρ) (attempt : ℕ) (task : Task ρ)
    (staged : StagedDownload) (index : ℕ) (succeeds : Bool) : Running ρ :=
  let candidate := candidate E task index
  if !succeeds then queue.leave attempt (.error .io)
  else
    match queue.staging.part task.id, queue.files candidate with
    | none, _ => queue.leave attempt (.error .io)
    | some content, none =>
      { queue with toProfile := queue.toProfile.publishFile task.id candidate content }.leave
        attempt (.ok candidate)
    | some _, some _ =>
      if index < 10000 then queue.advance attempt (.publishing staged (index + 1))
      else queue.leave attempt (.error .io)

/-- The outcome that `finish` records: a failed clean-up takes the place of any outcome. -/
def outcome (transfer : Except DownloadError FilePath) (cleanup : Option DownloadError) :
    Except DownloadError FilePath :=
  match cleanup with
  | none => transfer
  | some error => .error error

/-- The final update of a task. -/
def record (queue : Running ρ) (attempt : ℕ) (task : Task ρ)
    (transfer : Except DownloadError FilePath) (cleanup : Option DownloadError)
    (closing saved : Bool) : Running ρ :=
  (queue.update task.id (finishedJob (outcome transfer cleanup) closing) saved).2.advance attempt
    .releasing

/-- Take the sender of the job's channel out of the map. -/
def release (queue : Running ρ) (attempt : ℕ) (task : Task ρ) : Running ρ :=
  { queue with cancellation := queue.cancellation.erase task.id }.advance attempt .finished

/-- Show the progress of a transfer. -/
def report (queue : Running ρ) (task : Task ρ) (bytes : ℕ) (total : Option ℕ) : Running ρ :=
  match queue.jobs.lookup task.id with
  | some job =>
    { queue with
      jobs := queue.jobs.insert task.id { job with bytes := bytes, totalBytes := total } }.publish
  | none => queue.publish

/-- The clean-up of `finish`; it may be cut short by a crash. -/
def clean (queue : Running ρ) (attempt : ℕ) (task : Task ρ)
    (transfer : Except DownloadError FilePath) (script : List Fate) : World ρ :=
  match Profile.removePartial task.id ⟨queue.toProfile, script, []⟩ with
  | (.ok _, run) =>
    .running ({ queue with toProfile := run.state }.advance attempt (.reading transfer none))
  | (.error (.error error), run) =>
    .running
      ({ queue with toProfile := run.state }.advance attempt (.reading transfer (some error)))
  | (.error .killed, run) => .down run.state

def taskStep (E : Environment ρ) (queue : Running ρ) (attempt : ℕ) (task : Task ρ) :
    Phase → Move → Option (World ρ)
  | .waiting, .proceed _ => (queue.acquire attempt task).map .running
  | .starting, .proceed saved => some (.running (queue.start attempt task saved))
  | .preparing, .proceed created => some (.running (queue.prepare attempt created))
  | .transferring false, .proceed created => some (.running (queue.begin attempt task created))
  | .transferring true, .proceed readable =>
    some (.running (queue.stage E attempt task readable))
  | .transferring true, .write content =>
    some (.running { queue with toProfile := queue.toProfile.setPart task.id (some content) })
  | .transferring _, .report bytes total => some (.running (queue.report task bytes total))
  | .transferring _, .abort error => some (.running (queue.leave attempt (.error error)))
  | .transferring _, .interrupt =>
    if task.cancelled then some (.running (queue.leave attempt (.error .cancelled))) else none
  | .publishing staged index, .proceed saved =>
    some (.running (queue.journal E attempt task staged index saved))
  | .moving staged index, .proceed succeeds =>
    some (.running (queue.moveFile E attempt task staged index succeeds))
  | .discarding, .proceed removed => some (.running (queue.discard attempt task removed))
  | .cleaning transfer, .clean script => some (queue.clean attempt task transfer script)
  | .reading transfer cleanup, .proceed _ =>
    some (.running (queue.advance attempt (.recording transfer cleanup queue.closed)))
  | .recording transfer cleanup closing, .proceed saved =>
    some (.running (queue.record attempt task transfer cleanup closing saved))
  | .releasing, .proceed _ => some (.running (queue.release attempt task))
  | _, _ => none

end Running

def step [DecidableEq ρ] (E : Environment ρ) : World ρ → Act ρ → Option (World ρ)
  | .running queue, .enqueue id request saved =>
    some (.running (queue.enqueue id request saved).2)
  | .running queue, .retry id request saved => some (.running (queue.retry id request saved).2)
  | .running queue, .cancel id => some (.running (queue.cancel id))
  | .running queue, .close => some (.running queue.close)
  | .running queue, .task attempt move =>
    match queue.tasks[attempt]? with
    | some task => queue.taskStep E attempt task task.phase move
    | none => none
  | .running queue, .crash => some (.down queue.toProfile)
  | .running queue, .userFile path content =>
    if queue.files path = none then
      some (.running
        { queue with files := Function.update queue.files path (some ⟨none, content⟩) })
    else none
  | .down profile, .reopen script =>
    match Profile.recover E ⟨profile, script, []⟩ with
    | (.ok jobs, run) => some (.running (Running.opened run.state jobs))
    | (.error _, run) => some (.down run.state)
  | .down profile, .userFile path content =>
    if profile.files path = none then
      some (.down
        { profile with files := Function.update profile.files path (some ⟨none, content⟩) })
    else none
  | _, _ => none

end Qbutt.Download
