import Qbutt.Download.Equiv.Queue

/-!
# Exclusivity and durability of the queue over whole runs

`queue_exclusive_and_durable` puts together what holds in every reachable state and along every
session: one active job for each catalogue origin, nothing visible before it is saved, no effect of
a failed save, no change of a complete job, and no job started once the queue is closed.
-/

namespace Qbutt.Download

variable {ρ : Type}

def Act.saveFails : Act ρ → Bool
  | .enqueue _ _ false | .retry _ _ false | .task _ (.proceed false) => true
  | _ => false

/-- Steps that stay within a session, or end it. -/
def SameSession (w : World ρ) (a : Act ρ) : Prop :=
  FreshIds w a ∧ ∀ script, a ≠ .reopen script

/-! ### Failed saves -/

def Running.visible (q : Running ρ) : Table String (DownloadJob ρ) × List (DownloadJob ρ) :=
  (q.jobs, q.updates)

/-- A step whose operation fails leaves the jobs as they are. -/
theorem taskStep_failed {E : Environment ρ} {q : Running ρ} {n : ℕ} {t : Task ρ} {w : World ρ}
    (h : q.taskStep E n t t.phase (.proceed false) = some w) :
    ∃ q', w = .running q' ∧ q'.visible = q.visible := by
  unfold Running.taskStep at h
  split at h
  case h_1 =>
    obtain ⟨q', hq', rfl⟩ := Option.map_eq_some_iff.mp h
    unfold Running.acquire at hq'
    split_ifs at hq'
    all_goals
      cases hq'
      exact ⟨_, rfl, rfl⟩
  case h_2 heq =>
    cases heq
    refine ⟨_, (Option.some.inj h).symm, ?_⟩
    unfold Running.start Running.update
    cases q.jobs.lookup t.id <;> rfl
  case h_3 heq =>
    cases heq
    exact ⟨_, (Option.some.inj h).symm, rfl⟩
  case h_4 heq =>
    cases heq
    exact ⟨_, (Option.some.inj h).symm, rfl⟩
  case h_5 heq =>
    cases heq
    refine ⟨_, (Option.some.inj h).symm, ?_⟩
    unfold Running.stage
    cases q.staging.part t.id <;> rfl
  case h_10 heq =>
    cases heq
    refine ⟨_, (Option.some.inj h).symm, ?_⟩
    unfold Running.journal Running.update
    by_cases hcancelled : t.cancelled
    · rw [if_pos hcancelled]
      rfl
    · rw [if_neg hcancelled]
      cases q.jobs.lookup t.id <;> rfl
  case h_11 heq =>
    cases heq
    exact ⟨_, (Option.some.inj h).symm, rfl⟩
  case h_12 heq =>
    cases heq
    exact ⟨_, (Option.some.inj h).symm, rfl⟩
  case h_14 => exact ⟨_, (Option.some.inj h).symm, rfl⟩
  case h_15 heq =>
    cases heq
    refine ⟨_, (Option.some.inj h).symm, ?_⟩
    unfold Running.record Running.update
    cases q.jobs.lookup t.id <;> rfl
  case h_16 => exact ⟨_, (Option.some.inj h).symm, rfl⟩
  all_goals simp_all

theorem step_saveFails [DecidableEq ρ] {E : Environment ρ} {q : Running ρ} {a : Act ρ}
    {w : World ρ} (ha : a.saveFails) (h : step E (.running q) a = some w) :
    ∃ q', w = .running q' ∧ q'.visible = q.visible := by
  cases a with
  | enqueue id request saved =>
    cases saved with
    | true => cases ha
    | false =>
      refine ⟨_, (Option.some.inj h).symm, ?_⟩
      unfold Running.enqueue
      dsimp only
      split_ifs with _ _ hsaved
      · rfl
      · rfl
      · rfl
      · exact absurd rfl hsaved
  | retry id request saved =>
    cases saved with
    | true => cases ha
    | false =>
      refine ⟨_, (Option.some.inj h).symm, ?_⟩
      unfold Running.retry
      by_cases hclosed : q.closed
      · rw [if_pos hclosed]
      · rw [if_neg hclosed]
        cases q.jobs.lookup id with
        | none => rfl
        | some job =>
          dsimp only
          split_ifs with _ _ hsaved
          · rfl
          · rfl
          · rfl
          · exact absurd rfl hsaved
  | task n move =>
    unfold step at h
    dsimp only at h
    split at h
    · cases move with
      | proceed succeeds =>
        cases succeeds with
        | true => cases ha
        | false => exact taskStep_failed h
      | write => cases ha
      | report => cases ha
      | abort => cases ha
      | interrupt => cases ha
      | clean => cases ha
    · cases h
  | cancel => cases ha
  | close => cases ha
  | crash => cases ha
  | reopen => cases ha
  | userFile => cases ha

/-! ### Complete jobs and closed queues -/

/-- What stays so while a queue is closed: no task is added, and no job becomes active. -/
structure NoneStarted (l l' : Ledger ρ) : Prop where
  closed : l'.closed = true
  tasks : l'.tasks.length = l.tasks.length
  active : ∀ id job', l'.jobs.lookup id = some job' → job'.isActive →
    ∃ job, l.jobs.lookup id = some job ∧ job.isActive

namespace Ledger.Evolves

variable {may : Ledger ρ → Act ρ → Prop} {l l' : Ledger ρ}

/-- A job that is not active changes only by being retried, and then it was not complete. -/
theorem complete (hstep : Evolves may l l') (hc : Consistent l.jobs l.tasks) {id : String}
    {job : DownloadJob ρ} (hjob : l.jobs.lookup id = some job) (hstatus : job.status = .complete) :
    l'.jobs.lookup id = some job := by
  have hidle : job.isActive = false := by rw [DownloadJob.isActive, hstatus]
  -- a live task works for another job
  have hother : ∀ {n : ℕ} {t : Task ρ}, l.tasks[n]? = some t → t.phase.isLive → id ≠ t.id := by
    rintro n t ht hlive rfl
    exact hc.not_live hjob hidle n ⟨t, ht, rfl, hlive⟩
  cases hstep with
  | idle => exact hjob
  | filed hfiles => exact hjob
  | republished => exact hjob
  | signalled hclosed htasks => exact hjob
  | inside ht hlive hphase hfiles => exact hjob
  | reported ht hlive hold => exact (AList.lookup_insert_ne (hother ht hlive)).trans hjob
  | settled ht hlive hold hid horigin hphase hactive =>
    exact (AList.lookup_insert_ne (hother ht hlive)).trans hjob
  | recorded ht hlive hold hid horigin hrecord hmay =>
    exact (AList.lookup_insert_ne (hother ht hlive)).trans hjob
  | unrecorded ht hlive => exact hjob
  | released ht hphase => exact hjob
  | enqueued hopen hfresh hfree =>
    refine (AList.lookup_insert_ne ?_).trans hjob
    rintro rfl
    rw [hfresh] at hjob
    cases hjob
  | retried hopen hold hstopped hfree hmay =>
    refine (AList.lookup_insert_ne ?_).trans hjob
    rintro rfl
    cases hold.symm.trans hjob
    rw [hstatus] at hstopped
    rcases hstopped with h | h <;> cases h

theorem noneStarted (hstep : Evolves may l l') (hc : Consistent l.jobs l.tasks)
    (hclosed : l.closed = true) : NoneStarted l l' := by
  have hrefl : ∀ {jobs : Table String (DownloadJob ρ)}, jobs = l.jobs → ∀ id job',
      jobs.lookup id = some job' → job'.isActive →
        ∃ job, l.jobs.lookup id = some job ∧ job.isActive := by
    rintro _ rfl id job' hjob' hactive
    exact ⟨job', hjob', hactive⟩
  -- replacing the job of a live task, which is active
  have hinsert : ∀ {n : ℕ} {t : Task ρ} {new old : DownloadJob ρ}, l.tasks[n]? = some t →
      t.phase.isLive → l.jobs.lookup t.id = some old → ∀ id job',
        (l.jobs.insert t.id new).lookup id = some job' → job'.isActive →
          ∃ job, l.jobs.lookup id = some job ∧ job.isActive := by
    intro n t new old ht hlive hold id job' hjob' hactive
    rw [Table.lookup_insert_eq] at hjob'
    split_ifs at hjob' with heq
    · exact ⟨old, heq ▸ hold, hc.active n t.id old ⟨t, ht, rfl, hlive⟩ hold⟩
    · exact ⟨job', hjob', hactive⟩
  cases hstep with
  | idle => exact ⟨hclosed, rfl, hrefl rfl⟩
  | filed hfiles => exact ⟨hclosed, rfl, hrefl rfl⟩
  | republished => exact ⟨hclosed, rfl, hrefl rfl⟩
  | signalled hkept htasks =>
    rename_i tasks closed
    have hmap : tasks.map (fun t => (t.id, t.phase)) =
        l.tasks.map fun t => (t.id, t.phase) := by
      apply List.ext_getElem?
      intro n
      rw [List.getElem?_map, List.getElem?_map]
      exact htasks n
    exact ⟨hkept hclosed, by simpa using congrArg List.length hmap, hrefl rfl⟩
  | inside ht hlive hphase hfiles => exact ⟨hclosed, List.length_modify .., hrefl rfl⟩
  | reported ht hlive hold => exact ⟨hclosed, rfl, hinsert ht hlive hold⟩
  | settled ht hlive hold hid horigin hphase hactive =>
    exact ⟨hclosed, List.length_modify .., hinsert ht hlive hold⟩
  | recorded ht hlive hold hid horigin hrecord hmay =>
    exact ⟨hclosed, List.length_modify .., hinsert ht hlive hold⟩
  | unrecorded ht hlive => exact ⟨hclosed, List.length_modify .., hrefl rfl⟩
  | released ht hphase => exact ⟨hclosed, List.length_modify .., hrefl rfl⟩
  | enqueued hopen hfresh hfree =>
    rw [hclosed] at hopen
    cases hopen
  | retried hopen hold hstopped hfree hmay =>
    rw [hclosed] at hopen
    cases hopen

end Ledger.Evolves

/-! ### Whole sessions -/

theorem NoneStarted.trans {l l' l'' : Ledger ρ} (h : NoneStarted l l') (h' : NoneStarted l' l'') :
    NoneStarted l l'' := by
  refine ⟨h'.closed, h'.tasks.trans h.tasks, fun id job' hjob' hactive => ?_⟩
  obtain ⟨job, hjob, hactive⟩ := h'.active id job' hjob' hactive
  exact h.active id job hjob hactive

theorem close_closed (q : Running ρ) : q.close.closed = true := by
  rw [Running.close, Running.foldl_signal_eq]

variable [DecidableEq ρ] {E : Environment ρ} {start : Profile ρ → Prop}

/-- A relation between ledgers that holds of a state and itself and is kept by every evolution of a
consistent ledger holds between the states of a session. -/
theorem session_preserves {R : Ledger ρ → Prop} {q q' : Running ρ}
    (hstep : ∀ l l', Ledger.Evolves (fun _ _ => True) l l' → Consistent l.jobs l.tasks → R l → R l')
    (hsound : (World.running q).Sound)
    (h : (queueSystem E start).Steps SameSession (.running q) (.running q')) (hq : R q.ledger) :
    R q'.ledger := by
  have hinv := h.preserves
    (P := fun w => w.Sound ∧ match w with
      | .running q => R q.ledger
      | .down _ => True) ?_ ⟨hsound, hq⟩
  · exact hinv.2
  rintro w a w' ⟨hw, hR⟩ ⟨hfresh, hreopen⟩ hs
  refine ⟨step_sound hw hfresh hs, ?_⟩
  cases w' with
  | down p => trivial
  | running q' =>
    cases w with
    | down p =>
      -- only `reopen` starts a session
      obtain ⟨script, rfl⟩ | ⟨path, content, -, hdown⟩ := step_of_down hs
      · exact absurd rfl (hreopen script)
      · cases hdown
    | running q =>
      exact hstep _ _ (step_evolves hfresh (fun _ _ _ _ => trivial) (fun _ _ => trivial) hs) hw.1 hR

/-- In every reachable state of an open queue: at most one job with a given catalogue origin is
active; every list of jobs that became visible shows what had been saved before, as does the
current one; a step whose save fails leaves the visible jobs unchanged; a complete job stays what it
is for the rest of the session; and once the queue is closed, which `close` does, no further task is
spawned and no job becomes active. -/
theorem queue_exclusive_and_durable {q : Running ρ}
    (h : (queueSystem E SavedRows).Reachable FreshIds (.running q)) :
    (∀ id id' job job', q.jobs.lookup id = some job → q.jobs.lookup id' = some job' →
      job.isActive → job'.isActive → job.origin = job'.origin → job.origin.isCatalog → id = id') ∧
    (Acknowledged q.log ∧ q.updates = orderedJobs q.jobs ∧ ∀ job ∈ q.updates,
      (lastSaved q.log job.id).map DownloadJob.lasting = some job.lasting) ∧
    (∀ a w, a.saveFails → step E (.running q) a = some w →
      ∃ q', w = .running q' ∧ q'.jobs = q.jobs ∧ q'.updates = q.updates) ∧
    (∀ q', (queueSystem E SavedRows).Steps SameSession (.running q) (.running q') →
      ∀ id job, q.jobs.lookup id = some job → job.status = .complete →
        q'.jobs.lookup id = some job) ∧
    (q.close.closed = true ∧ (q.closed = true →
      ∀ q', (queueSystem E SavedRows).Steps SameSession (.running q) (.running q') →
        q'.closed = true ∧ q'.tasks.length = q.tasks.length ∧
          ∀ id job', q'.jobs.lookup id = some job' → job'.isActive →
            ∃ job, q.jobs.lookup id = some job ∧ job.isActive)) := by
  have hsound := sound_of_reachable h
  obtain ⟨hc, hd⟩ := hsound
  refine ⟨hc.exclusive, ⟨hd.acknowledged, hd.shown, fun job hjob => ?_⟩, fun a w ha hs => ?_,
    fun q' hrun id job hjob hstatus => ?_, close_closed q, fun hclosed q' hrun => ?_⟩
  · rw [hd.shown] at hjob
    obtain ⟨id, hid⟩ := mem_orderedJobs.mp hjob
    obtain rfl := hc.ids id job hid
    rw [← hd.saved, ← hd.agree, hid, Option.map_some]
  · obtain ⟨q', rfl, hvisible⟩ := step_saveFails ha hs
    obtain ⟨hjobs, hupdates⟩ := Prod.mk.inj hvisible
    exact ⟨q', rfl, hjobs, hupdates⟩
  · exact session_preserves (R := fun l => l.jobs.lookup id = some job)
      (fun l l' hl hcl hR => hl.complete hcl hR hstatus) ⟨hc, hd⟩ hrun hjob
  · have hnone := session_preserves (R := fun l => NoneStarted q.ledger l)
      (fun l l' hl hcl hR => hR.trans (hl.noneStarted hcl hR.closed)) ⟨hc, hd⟩ hrun
      ⟨hclosed, rfl, fun id job hjob hactive => ⟨job, hjob, hactive⟩⟩
    exact ⟨hnone.closed, hnone.tasks, hnone.active⟩

/-- The theorem at the state after a first request was accepted. -/
theorem queue_exclusive_and_durable_sample : Acknowledged sampleQueue.log :=
  (queue_exclusive_and_durable
    (reachable_sampleQueue savedRows_new (fun _ w => by cases w <;> trivial) fun _ _ _ h => h)).2.1.1

end Qbutt.Download
