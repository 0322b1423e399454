import Qbutt.Download.Equiv.Queue

/-!
# Cancelling running downloads

`finish` publishes the last status of a job and takes its sender out of the cancellation map under
two acquisitions of the lock.  A retry in between installs a sender that the earlier task then
removes (`overlapping_retry_loses_sender`).  Without such a retry every running download can be
cancelled (`running_download_is_cancellable`).
-/

namespace Qbutt.Download

variable {ρ : Type}

/-! ### What the senders in the map reach -/

namespace Running

/-- `cancel` reaches the task whose sender the map holds for a queued or downloading job. -/
theorem cancel_reaches {q : Running ρ} {n : ℕ} {t : Task ρ} {job : DownloadJob ρ}
    (ht : q.tasks[n]? = some t) (hjob : q.jobs.lookup t.id = some job)
    (hstatus : job.status = .queued ∨ job.status = .downloading)
    (hsender : q.cancellation.lookup t.id = some n) :
    (q.cancel t.id).tasks[n]? = some { t with cancelled := true } := by
  have hcancel : q.cancel t.id = [n].foldl signal q := by
    unfold cancel
    rw [hjob]
    dsimp only
    rw [if_pos hstatus, hsender]
    rfl
  rw [hcancel, foldl_signal_getElem?, ht]
  simp

theorem close_reaches {q : Running ρ} {n : ℕ} {t : Task ρ} {id : String}
    (ht : q.tasks[n]? = some t) (hsender : q.cancellation.lookup id = some n) :
    q.close.tasks[n]? = some { t with cancelled := true } := by
  have hmem : n ∈ q.cancellation.values := Table.mem_values.mpr ⟨id, hsender⟩
  rw [close, foldl_signal_getElem?, ht]
  simp [hmem]

end Running

/-! ### Runs without an overlapping retry -/

/-- An accepted retry finds no earlier task of the job between its final update and its end. -/
def NoOverlap : World ρ → Act ρ → Prop
  | .running q, .retry id request true => q.Retryable id request → q.ledger.NoneReleasing id
  | w, a => FreshIds w a

/-- The invariant of the cancellation map, which only exists inside of a session. -/
def World.Cancels : World ρ → Prop
  | .down _ => True
  | .running q => Cancellable q.cancellation q.tasks

variable [DecidableEq ρ] {E : Environment ρ}

omit [DecidableEq ρ] in
theorem freshIds_of_noOverlap {w : World ρ} {a : Act ρ} (h : NoOverlap w a) : FreshIds w a := by
  cases w with
  | down p => cases a <;> trivial
  | running q =>
    cases a with
    | enqueue => exact h
    | retry => trivial
    | cancel => trivial
    | close => trivial
    | task => trivial
    | crash => trivial
    | reopen => trivial
    | userFile => trivial

theorem step_cancels {w w' : World ρ} {a : Act ρ} (hw : w.Sound) (hcancels : w.Cancels)
    (ha : NoOverlap w a) (h : step E w a = some w') : w'.Cancels := by
  cases w' with
  | down p => trivial
  | running q' =>
    cases w with
    | down p =>
      obtain ⟨script, rfl⟩ | ⟨path, content, -, hdown⟩ := step_of_down h
      · unfold step at h
        dsimp only at h
        split at h
        · cases h
          rintro n id ⟨t, ht, -⟩
          cases ht
        · cases h
      · cases hdown
    | running q =>
      refine (step_evolves (freshIds_of_noOverlap ha) ?_ ?_ h).cancellable hw.1 hcancels
      · rintro id request rfl hretryable id' request' saved heq
        cases heq
        exact ha hretryable
      · rintro n rfl id request saved heq
        cases heq

theorem cancels_of_reachable {w : World ρ}
    (h : (queueSystem E SavedRows).Reachable NoOverlap w) : w.Sound ∧ w.Cancels := by
  refine h.invariant (I := fun w => w.Sound ∧ w.Cancels) ?_ fun w a w' hw ha hs =>
    ⟨step_sound hw.1 (freshIds_of_noOverlap ha) hs, step_cancels hw.1 hw.2 ha hs⟩
  rintro _ ⟨p, rfl, hp⟩
  exact ⟨hp, trivial⟩

/-- While a job is queued or downloading and a task of it has not finished, the map holds the sender
of that task, and `cancel` and `close` reach it. -/
theorem running_download_is_cancellable {q : Running ρ}
    (h : (queueSystem E SavedRows).Reachable NoOverlap (.running q)) {n : ℕ} {t : Task ρ}
    {job : DownloadJob ρ} (ht : q.tasks[n]? = some t) (hunfinished : t.phase.isUnfinished)
    (hjob : q.jobs.lookup t.id = some job)
    (hstatus : job.status = .queued ∨ job.status = .downloading) :
    q.cancellation.lookup t.id = some n ∧
      (q.cancel t.id).tasks[n]? = some { t with cancelled := true } ∧
      q.close.tasks[n]? = some { t with cancelled := true } := by
  have hsender := (cancels_of_reachable h).2 n t.id ⟨t, ht, rfl, hunfinished⟩
  exact ⟨hsender, Running.cancel_reaches ht hjob hstatus hsender,
    Running.close_reaches ht hsender⟩

/-- The theorem at the state after a first request was accepted. -/
theorem running_download_is_cancellable_sample : sampleQueue.cancellation.lookup "a" = some 0 :=
  have hjob : sampleQueue.jobs.lookup "a" = some (.queued "a" sampleRequest) := rfl
  (running_download_is_cancellable
    (reachable_sampleQueue savedRows_new (fun _ w => by cases w <;> trivial) fun _ _ _ h => h)
    (n := 0) (t := ⟨"a", sampleRequest, false, .waiting⟩) rfl rfl hjob (.inl rfl)).1

/-! ### A retry between the two acquisitions -/

/-- The first task of a job fails to save its status and records the failure; before it removes its
sender, the job is retried. -/
def overlappingRetry : List (Act Unit) :=
  [.task 0 (.proceed true), .task 0 (.proceed false), .task 0 (.clean []), .task 0 (.proceed true),
    .task 0 (.proceed true), .retry "a" sampleRequest true, .task 0 (.proceed true)]

/-- A run in which a job is queued, its second task is waiting, and the map holds no sender. -/
theorem overlapping_retry_loses_sender :
    ¬ ∀ q : Running Unit, (queueSystem sampleEnvironment SavedRows).Reachable FreshIds (.running q) →
      ∀ n t job, q.tasks[n]? = some t → t.phase.isUnfinished → q.jobs.lookup t.id = some job →
        job.status = .queued ∨ job.status = .downloading →
          q.cancellation.lookup t.id = some n := by
  intro hall
  obtain ⟨q, hrun, ht, hjob, hnone⟩ : ∃ q,
      (queueSystem sampleEnvironment SavedRows).runAll (.running sampleQueue) overlappingRetry =
        some (.running q) ∧
      q.tasks[1]? = some ⟨"a", sampleRequest, false, .waiting⟩ ∧
      (∃ job, q.jobs.lookup "a" = some job ∧ job.status = .queued) ∧
      q.cancellation.lookup "a" = none :=
    ⟨_, rfl, rfl, ⟨_, rfl, rfl⟩, rfl⟩
  have hsample : (queueSystem sampleEnvironment SavedRows).Reachable FreshIds
      (.running sampleQueue) :=
    reachable_sampleQueue savedRows_new (fun _ w => by cases w <;> trivial) fun _ _ _ h => h
  have hallowed : ∀ a ∈ overlappingRetry, ∀ w, FreshIds w a := by
    intro a ha w
    simp only [overlappingRetry, List.mem_cons, List.not_mem_nil, or_false] at ha
    rcases ha with rfl | rfl | rfl | rfl | rfl | rfl | rfl <;> cases w <;> trivial
  have hreachable := System.reachable_of_runAll overlappingRetry hsample
    (System.allowedAll_of_forall hallowed _) hrun
  obtain ⟨job, hjob, hstatus⟩ := hjob
  have hsome := hall q hreachable 1 _ job ht rfl hjob (.inl hstatus)
  rw [hnone] at hsome
  cases hsome

end Qbutt.Download
