import Qbutt.Download.Equiv.Profile
import Qbutt.Download.Queue

/-!
# What the steps of the queue do to its ledger

The ledger is what the queue remembers, shows and stores, and the files it published, without the
staging area and the permit.  `Evolves` lists everything a step does to it: the phases only matter
as far as they say whether the task has made its final update.  `step_evolves` shows that every step
of the queue inside of a session is one of these.
-/

namespace Qbutt.Download

variable {ρ : Type} {E : Environment ρ} {queue' : Running ρ}

/-- Whether a task has yet to make its final update. -/
def Phase.isLive : Phase → Bool
  | .releasing | .finished => false
  | _ => true

/-- What the queue remembers, shows, stores and publishes. -/
structure Ledger (ρ : Type) where
  jobs : Table String (DownloadJob ρ)
  cancellation : Table String ℕ
  closed : Bool
  updates : List (DownloadJob ρ)
  stored : Table String (DownloadJob ρ)
  log : List (Event ρ)
  files : FilePath → Option File
  attempts : String → ℕ
  tasks : List (Task ρ)

def Running.ledger (queue : Running ρ) : Ledger ρ where
  jobs := queue.jobs
  cancellation := queue.cancellation
  closed := queue.closed
  updates := queue.updates
  stored := queue.stored
  log := queue.log
  files := queue.files
  attempts := queue.attempts
  tasks := queue.tasks

namespace Ledger

/-- Show the jobs. -/
def publish (l : Ledger ρ) : Ledger ρ :=
  { l with
    updates := orderedJobs l.jobs
    log := .published (orderedJobs l.jobs) :: l.log }

/-- Save a job, remember it and show it. -/
def settle (l : Ledger ρ) (id : String) (job : DownloadJob ρ) : Ledger ρ :=
  publish
    { l with
      stored := l.stored.insert job.id job
      log := .saved job :: l.log
      jobs := l.jobs.insert id job }

/-- Put a task into another phase. -/
def advance (l : Ledger ρ) (n : ℕ) (phase : Phase) : Ledger ρ :=
  { l with tasks := l.tasks.modify n fun task => { task with phase := phase } }

/-- Enter a new task and its sender. -/
def spawn (l : Ledger ρ) (id : String) (request : DirectDownload ρ) : Ledger ρ :=
  { l with
    cancellation := l.cancellation.insert id l.tasks.length
    attempts := Function.update l.attempts id (l.attempts id + 1)
    tasks := l.tasks ++ [⟨id, request, false, .waiting⟩] }

/-- No job other than `excluded` with this origin is active. -/
def OriginFree (l : Ledger ρ) (origin : DownloadOrigin ρ) (excluded : Option String) : Prop :=
  ∀ id job, l.jobs.lookup id = some job → job.origin = origin → job.isActive →
    some job.id = excluded

def Extends (files files' : FilePath → Option File) : Prop :=
  ∀ path file, files path = some file → files' path = some file

theorem extends_update {files : FilePath → Option File} {path : FilePath} (h : files path = none)
    (file : File) : Extends files (Function.update files path (some file)) := by
  intro path' file' hfile'
  rw [Function.update_of_ne, hfile']
  rintro rfl
  rw [h] at hfile'
  cases hfile'

/-- Everything a step does to the ledger; accepted retries and saved final updates are subject to the
condition `may`. -/
inductive Evolves (may : Ledger ρ → Act ρ → Prop) : Ledger ρ → Ledger ρ → Prop where
  | idle {l : Ledger ρ} : Evolves may l l
  | filed {l : Ledger ρ} {files : FilePath → Option File} (hfiles : Extends l.files files) :
      Evolves may l { l with files := files }
  | republished {l : Ledger ρ} : Evolves may l l.publish
  | signalled {l : Ledger ρ} {tasks : List (Task ρ)} {closed : Bool} (hclosed : l.closed → closed)
      (htasks : ∀ n : ℕ, (tasks[n]?).map (fun t => (t.id, t.phase)) =
        (l.tasks[n]?).map fun t => (t.id, t.phase)) :
      Evolves may l { l with closed := closed, tasks := tasks }
  | inside {l : Ledger ρ} {n : ℕ} {t : Task ρ} {phase : Phase} {files : FilePath → Option File}
      (ht : l.tasks[n]? = some t) (hlive : t.phase.isLive) (hphase : phase.isLive)
      (hfiles : Extends l.files files) :
      Evolves may l ({ l with files := files }.advance n phase)
  | reported {l : Ledger ρ} {n : ℕ} {t : Task ρ} {job : DownloadJob ρ} {bytes : ℕ}
      {total : Option ℕ} (ht : l.tasks[n]? = some t) (hlive : t.phase.isLive)
      (hjob : l.jobs.lookup t.id = some job) :
      Evolves may l
        { l with
          jobs := l.jobs.insert t.id { job with bytes := bytes, totalBytes := total } }.publish
  | settled {l : Ledger ρ} {n : ℕ} {t : Task ρ} {old job : DownloadJob ρ} {phase : Phase}
      (ht : l.tasks[n]? = some t) (hlive : t.phase.isLive)
      (hold : l.jobs.lookup t.id = some old) (hid : job.id = old.id)
      (horigin : job.origin = old.origin) (hphase : phase.isLive) (hactive : job.isActive) :
      Evolves may l ((l.settle t.id job).advance n phase)
  | recorded {l : Ledger ρ} {n : ℕ} {t : Task ρ} {old job : DownloadJob ρ}
      (ht : l.tasks[n]? = some t) (hlive : t.phase.isLive)
      (hold : l.jobs.lookup t.id = some old) (hid : job.id = old.id)
      (horigin : job.origin = old.origin)
      (hjob : ∃ transfer cleanup closing, t.phase = .recording transfer cleanup closing ∧
        job = finishedJob (Running.outcome transfer cleanup) closing old)
      (hmay : may l (.task n (.proceed true))) :
      Evolves may l ((l.settle t.id job).advance n .releasing)
  | unrecorded {l : Ledger ρ} {n : ℕ} {t : Task ρ} (ht : l.tasks[n]? = some t)
      (hlive : t.phase.isLive) :
      Evolves may l (l.advance n .releasing)
  | released {l : Ledger ρ} {n : ℕ} {t : Task ρ} (ht : l.tasks[n]? = some t)
      (hphase : t.phase = .releasing) :
      Evolves may l ({ l with cancellation := l.cancellation.erase t.id }.advance n .finished)
  | enqueued {l : Ledger ρ} {id : String} {request : DirectDownload ρ} (hopen : l.closed = false)
      (hfresh : l.jobs.lookup id = none)
      (hfree : request.origin.isCatalog → l.OriginFree request.origin none) :
      Evolves may l ((l.spawn id request).settle id (.queued id request))
  | retried {l : Ledger ρ} {id : String} {request : DirectDownload ρ} {job : DownloadJob ρ}
      (hopen : l.closed = false) (hjob : l.jobs.lookup id = some job)
      (hstatus : job.status = .cancelled ∨ job.status = .error)
      (hfree : l.OriginFree job.origin (some id))
      (hmay : may l (.retry id request true)) :
      Evolves may l ((l.spawn id request).settle id job.requeued)

end Ledger

/-! ### The steps of a task -/

/-- The final update changes neither the identity of a job nor its origin. -/
theorem finishedJob_same (outcome : Except DownloadError FilePath) (closing : Bool)
    (job : DownloadJob ρ) : (finishedJob outcome closing job).id = job.id ∧
      (finishedJob outcome closing job).origin = job.origin := by
  unfold finishedJob
  by_cases hcomplete : job.status = .complete
  · simp only [if_pos hcomplete, and_self]
  · rw [if_neg hcomplete]
    cases outcome with
    | ok path => exact ⟨rfl, rfl⟩
    | error error =>
      dsimp only
      split
      · exact ⟨rfl, rfl⟩
      · exact ⟨rfl, rfl⟩

namespace Running

open Ledger

variable {may : Ledger ρ → Act ρ → Prop} {queue : Running ρ} {n : ℕ} {t : Task ρ}
  {saved : Bool} {staged : StagedDownload} {id : String} {request : DirectDownload ρ}

theorem leave_evolves {e : Except DownloadError FilePath} (ht : queue.tasks[n]? = some t)
    (hlive : t.phase.isLive) : Evolves may queue.ledger (queue.leave n e).ledger :=
  .inside ht hlive rfl fun _ _ h => h

theorem advance_evolves {phase : Phase} (ht : queue.tasks[n]? = some t)
    (hlive : t.phase.isLive) (hphase : phase.isLive) :
    Evolves may queue.ledger (queue.advance n phase).ledger :=
  .inside ht hlive hphase fun _ _ h => h

theorem update_evolves {change : DownloadJob ρ → DownloadJob ρ} {phase : Phase}
    (ht : queue.tasks[n]? = some t) (hlive : t.phase.isLive) (hphase : phase.isLive)
    (hchange : ∀ job, (change job).id = job.id ∧ (change job).origin = job.origin ∧
      (change job).isActive) :
    Evolves may queue.ledger
      (match queue.update t.id change saved with
        | (.ok _, queue) => queue.advance n phase
        | (.error error, queue) => queue.leave n (.error error)).ledger := by
  unfold update
  cases hold : queue.jobs.lookup t.id with
  | none => exact leave_evolves ht hlive
  | some job =>
    obtain ⟨hid, horigin, hactive⟩ := hchange job
    cases saved with
    | false => exact leave_evolves ht hlive
    | true => exact .settled ht hlive hold hid horigin hphase hactive

theorem acquire_evolves (ht : queue.tasks[n]? = some t) (hlive : t.phase.isLive)
    (h : queue.acquire n t = some queue') : Evolves may queue.ledger queue'.ledger := by
  unfold acquire at h
  split_ifs at h
  · cases h
    exact leave_evolves ht hlive
  · cases h
    exact .inside ht hlive rfl fun _ _ h => h

theorem prepare_evolves {created : Bool} (ht : queue.tasks[n]? = some t)
    (hlive : t.phase.isLive) : Evolves may queue.ledger (queue.prepare n created).ledger := by
  unfold prepare
  dsimp only
  split_ifs
  · exact leave_evolves ht hlive
  · split
    · exact .inside ht hlive rfl fun _ _ h => h
    · exact .inside ht hlive rfl fun _ _ h => h

theorem begin_evolves {created : Bool} (ht : queue.tasks[n]? = some t)
    (hlive : t.phase.isLive) : Evolves may queue.ledger (queue.begin n t created).ledger := by
  unfold begin
  split_ifs
  all_goals exact .inside ht hlive rfl fun _ _ h => h

theorem stage_evolves {readable : Bool} (ht : queue.tasks[n]? = some t) (hlive : t.phase.isLive) :
    Evolves may queue.ledger (queue.stage E n t readable).ledger := by
  unfold stage
  split
  · exact leave_evolves ht hlive
  · split_ifs
    all_goals exact .inside ht hlive rfl fun _ _ h => h

theorem discard_evolves {removed : Bool} (ht : queue.tasks[n]? = some t)
    (hlive : t.phase.isLive) : Evolves may queue.ledger (queue.discard n t removed).ledger := by
  unfold discard
  split_ifs
  all_goals exact .inside ht hlive rfl fun _ _ h => h

theorem moveFile_evolves {index : ℕ} {succeeds : Bool} (ht : queue.tasks[n]? = some t)
    (hlive : t.phase.isLive) :
    Evolves may queue.ledger (queue.moveFile E n t staged index succeeds).ledger := by
  unfold moveFile
  cases succeeds with
  | false => exact leave_evolves ht hlive
  | true =>
    dsimp only
    cases queue.staging.part t.id with
    | none => exact leave_evolves ht hlive
    | some content =>
      cases hfree : queue.files (candidate E t index) with
      | none => exact .inside ht hlive rfl (extends_update hfree _)
      | some file =>
        by_cases hindex : index < 10000
        · rw [if_pos hindex]
          exact advance_evolves ht hlive rfl
        · rw [if_neg hindex]
          exact leave_evolves ht hlive

theorem journal_evolves {index : ℕ} (ht : queue.tasks[n]? = some t) (hlive : t.phase.isLive) :
    Evolves may queue.ledger (queue.journal E n t staged index saved).ledger := by
  unfold journal
  by_cases hcancelled : t.cancelled
  · rw [if_pos hcancelled]
    exact advance_evolves ht hlive rfl
  · rw [if_neg hcancelled]
    exact update_evolves ht hlive rfl fun _ => ⟨rfl, rfl, rfl⟩

theorem record_evolves {transfer : Except DownloadError FilePath} {cleanup : Option DownloadError}
    {closing : Bool} (ht : queue.tasks[n]? = some t)
    (hphase : t.phase = .recording transfer cleanup closing)
    (hmay : saved → may queue.ledger (.task n (.proceed true))) :
    Evolves may queue.ledger (queue.record n t transfer cleanup closing saved).ledger := by
  have hlive : t.phase.isLive := hphase ▸ rfl
  unfold record update
  cases hold : queue.jobs.lookup t.id with
  | none => exact .unrecorded ht hlive
  | some job =>
    cases saved with
    | false => exact .unrecorded ht hlive
    | true =>
      exact .recorded ht hlive hold (finishedJob_same _ _ _).1 (finishedJob_same _ _ _).2
        ⟨transfer, cleanup, closing, hphase, rfl⟩ (hmay rfl)

theorem report_evolves {bytes : ℕ} {total : Option ℕ} (ht : queue.tasks[n]? = some t)
    (hlive : t.phase.isLive) : Evolves may queue.ledger (queue.report t bytes total).ledger := by
  unfold report
  cases hjob : queue.jobs.lookup t.id with
  | none => exact .republished
  | some job => exact .reported ht hlive hjob

theorem clean_evolves {transfer : Except DownloadError FilePath} {script : List Fate}
    {queue' : Running ρ} (ht : queue.tasks[n]? = some t) (hlive : t.phase.isLive)
    (h : queue.clean n t transfer script = .running queue') :
    Evolves may queue.ledger queue'.ledger := by
  obtain ⟨-, ⟨staging, hframe⟩, -⟩ := Profile.keeps_removePartial _
    (I := fun p => ∃ staging, p = { queue.toProfile with staging := staging })
    (fun staging _ => ⟨staging, rfl⟩) ⟨queue.toProfile, script, []⟩ (by simp) ⟨_, rfl⟩ rfl
  unfold clean at h
  split at h
  all_goals rename_i hrun
  · cases h
    rw [hrun] at hframe
    rw [hframe]
    exact .inside ht hlive rfl fun _ _ h => h
  · cases h
    rw [hrun] at hframe
    rw [hframe]
    exact .inside ht hlive rfl fun _ _ h => h
  · cases h

theorem taskStep_evolves {move : Move} (ht : queue.tasks[n]? = some t)
    (hmay : move = .proceed true → may queue.ledger (.task n move))
    (h : queue.taskStep E n t t.phase move = some (.running queue')) :
    Evolves may queue.ledger queue'.ledger := by
  have hlive : ∀ {phase : Phase}, t.phase = phase → phase.isLive → t.phase.isLive := by
    rintro _ rfl h
    exact h
  unfold taskStep at h
  split at h
  all_goals rename_i hphase
  case h_1 =>
    obtain ⟨q, hq, hq'⟩ := Option.map_eq_some_iff.mp h
    cases hq'
    exact acquire_evolves ht (hlive hphase rfl) hq
  case h_2 =>
    cases h
    exact update_evolves ht (hlive hphase rfl) rfl fun _ => ⟨rfl, rfl, rfl⟩
  case h_3 =>
    cases h
    exact prepare_evolves ht (hlive hphase rfl)
  case h_4 =>
    cases h
    exact begin_evolves ht (hlive hphase rfl)
  case h_5 =>
    cases h
    exact stage_evolves ht (hlive hphase rfl)
  case h_6 =>
    cases h
    exact .idle
  case h_7 =>
    cases h
    exact report_evolves ht (hlive hphase rfl)
  case h_8 =>
    cases h
    exact leave_evolves ht (hlive hphase rfl)
  case h_9 =>
    split_ifs at h
    cases h
    exact leave_evolves ht (hlive hphase rfl)
  case h_10 =>
    cases h
    exact journal_evolves ht (hlive hphase rfl)
  case h_11 =>
    cases h
    exact moveFile_evolves ht (hlive hphase rfl)
  case h_12 =>
    cases h
    exact discard_evolves ht (hlive hphase rfl)
  case h_13 => exact clean_evolves ht (hlive hphase rfl) (Option.some.inj h)
  case h_14 =>
    cases h
    exact advance_evolves ht (hlive hphase rfl) rfl
  case h_15 =>
    cases h
    refine record_evolves ht hphase fun hsaved => ?_
    rw [hsaved] at hmay
    exact hmay rfl
  case h_16 =>
    cases h
    exact .released ht hphase
  case h_17 => cases h

/-! ### The entry points -/

theorem originFree_of_originActive [DecidableEq ρ] {origin : DownloadOrigin ρ}
    {excluded : Option String} (h : queue.originActive origin excluded = false) :
    queue.ledger.OriginFree origin excluded := by
  intro id job hjob horigin hactive
  by_contra hne
  have hnone := List.any_eq_false.mp h job (Table.mem_values.mpr ⟨id, hjob⟩)
  simp [hne, horigin, hactive] at hnone

theorem enqueue_evolves [DecidableEq ρ] (hfresh : queue.jobs.lookup id = none) :
    Evolves may queue.ledger (queue.enqueue id request saved).2.ledger := by
  unfold enqueue
  dsimp only
  split_ifs with hclosed horigin hsaved
  · exact .idle
  · exact .idle
  · exact .idle
  · refine .enqueued (Bool.eq_false_iff.mpr hclosed) hfresh fun hcatalog => ?_
    exact originFree_of_originActive (by simpa [hcatalog] using horigin)

/-- The conditions under which `retry` accepts a request, whose save may still fail. -/
def Retryable (queue : Running ρ) (id : String) (request : DirectDownload ρ) : Prop :=
  queue.closed = false ∧ ∃ job, queue.jobs.lookup id = some job ∧
    (job.status = .cancelled ∨ job.status = .error) ∧ job.origin = request.origin ∧
    job.origin.isCatalog ∧ queue.ledger.OriginFree request.origin (some id)

theorem retry_evolves [DecidableEq ρ]
    (hmay : queue.Retryable id request → saved → may queue.ledger (.retry id request true)) :
    Evolves may queue.ledger (queue.retry id request saved).2.ledger := by
  unfold retry
  by_cases hclosed : queue.closed
  · rw [if_pos hclosed]
    exact .idle
  have hopen : queue.closed = false := Bool.eq_false_iff.mpr hclosed
  rw [if_neg hclosed]
  cases hjob : queue.jobs.lookup id with
  | none => exact .idle
  | some job =>
    dsimp only
    split_ifs with hrefused hactive hsaved
    · exact .idle
    · exact .idle
    · exact .idle
    · obtain ⟨hstatus, hrest⟩ := not_or.mp hrefused
      obtain ⟨horigin, hcatalog⟩ := not_or.mp hrest
      rw [not_not] at hstatus horigin hcatalog
      have hfree : queue.ledger.OriginFree request.origin (some id) :=
        originFree_of_originActive (by simpa using hactive)
      refine .retried hopen hjob hstatus (horigin ▸ hfree) (hmay ?_ (by simpa using hsaved))
      exact ⟨hopen, job, hjob, hstatus, horigin, hcatalog, hfree⟩

/-- Sending on channels changes nothing but the channels. -/
theorem foldl_signal_eq (attempts : List ℕ) (queue : Running ρ) :
    attempts.foldl signal queue = { queue with tasks := (attempts.foldl signal queue).tasks } := by
  induction attempts generalizing queue with
  | nil => rfl
  | cons attempt attempts ih => exact ih (queue.signal attempt)

theorem foldl_signal_getElem? (attempts : List ℕ) (queue : Running ρ) (n : ℕ) :
    (attempts.foldl signal queue).tasks[n]? = (queue.tasks[n]?).map fun t =>
      { t with cancelled := t.cancelled || decide (n ∈ attempts) } := by
  induction attempts generalizing queue with
  | nil => simp
  | cons attempt attempts ih =>
    rw [List.foldl_cons, ih, signal, List.getElem?_modify]
    cases queue.tasks[n]? with
    | none => rfl
    | some t =>
      by_cases h : attempt = n
      · simp [h]
      · simp [h, Ne.symm h]

theorem foldl_signal_evolves (attempts : List ℕ) {closed : Bool} (hclosed : queue.closed → closed) :
    Evolves may queue.ledger (attempts.foldl signal { queue with closed := closed }).ledger := by
  rw [foldl_signal_eq]
  refine .signalled hclosed fun n => ?_
  rw [foldl_signal_getElem?, Option.map_map]
  rfl

theorem cancel_evolves : Evolves may queue.ledger (queue.cancel id).ledger := by
  unfold cancel
  split
  · split_ifs
    · split
      · exact foldl_signal_evolves [_] fun h => h
      · exact .idle
    · exact .idle
  · exact .idle

theorem close_evolves : Evolves may queue.ledger queue.close.ledger :=
  foldl_signal_evolves _ fun _ => rfl

end Running

/-- The identifier that `enqueue` draws at random is not that of a known job. -/
def FreshIds : World ρ → Act ρ → Prop
  | .running queue, .enqueue id _ _ => queue.jobs.lookup id = none
  | _, _ => True

/-- Every step inside of a session evolves the ledger, provided drawn identifiers are fresh and
accepted retries and saved final updates satisfy `may`. -/
theorem step_evolves [DecidableEq ρ] {may : Ledger ρ → Act ρ → Prop} {queue : Running ρ} {a : Act ρ}
    (hfresh : FreshIds (.running queue) a)
    (hretry : ∀ id request, a = .retry id request true → queue.Retryable id request →
      may queue.ledger a) (hrecord : ∀ n, a = .task n (.proceed true) → may queue.ledger a)
    (h : step E (.running queue) a = some (.running queue')) :
    Ledger.Evolves may queue.ledger queue'.ledger := by
  cases a with
  | enqueue id request saved =>
    cases h
    exact Running.enqueue_evolves hfresh
  | retry id request saved =>
    cases h
    refine Running.retry_evolves fun hretryable hsaved => ?_
    rw [hsaved] at hretry
    exact hretry id request rfl hretryable
  | cancel id =>
    cases h
    exact Running.cancel_evolves
  | close =>
    cases h
    exact Running.close_evolves
  | task attempt move =>
    unfold step at h
    dsimp only at h
    split at h
    · rename_i task htask
      refine Running.taskStep_evolves htask (fun hmove => ?_) h
      exact hrecord attempt (congrArg _ hmove)
    · cases h
  | crash => cases h
  | reopen script => cases h
  | userFile path content =>
    simp only [step] at h
    split_ifs at h with hfree
    cases h
    exact .filed (Ledger.extends_update hfree _)

end Qbutt.Download
