import Qbutt.Download.Equiv.Ledger

/-!
# Exclusivity, durability and cancellation of the download queue

* `Consistent` relates jobs and tasks: a task that has yet to make its final update works for an
  active job, no two such tasks for the same job, and active jobs have distinct catalogue origins.
* `Durable` relates what is shown to what was saved.
* `Cancellable` is the cancellation map: it holds the sender of every unfinished task.  It is kept
  by every step but a retry that is accepted while an earlier task of the job, past its final update,
  has not yet taken its own sender out of the map.
-/

namespace Qbutt.Download

variable {ρ : Type}

def Phase.isUnfinished : Phase → Bool
  | .finished => false
  | _ => true

/-- The task spawned at index `n` works for `id` and is in a phase with the property `P`. -/
def TaskAt (tasks : List (Task ρ)) (P : Phase → Bool) (n : ℕ) (id : String) : Prop :=
  ∃ t, tasks[n]? = some t ∧ t.id = id ∧ P t.phase

def setPhase (tasks : List (Task ρ)) (n : ℕ) (phase : Phase) : List (Task ρ) :=
  tasks.modify n fun task => { task with phase := phase }

variable {phase : Phase}

section TaskAt

variable {tasks tasks' : List (Task ρ)} {P : Phase → Bool} {n m : ℕ} {t : Task ρ} {id id' : String}

theorem taskAt_of_setPhase (ht : tasks[n]? = some t) (h : TaskAt (setPhase tasks n phase) P m id) :
    (m = n ∧ id = t.id ∧ P phase) ∨ (m ≠ n ∧ TaskAt tasks P m id) := by
  obtain ⟨t', ht', hid, hP⟩ := h
  by_cases hmn : m = n
  · subst hmn
    rw [setPhase, List.getElem?_modify_eq, ht] at ht'
    cases ht'
    exact .inl ⟨rfl, hid.symm, hP⟩
  · rw [setPhase, List.getElem?_modify_ne _ _ (Ne.symm hmn)] at ht'
    exact .inr ⟨hmn, t', ht', hid, hP⟩

theorem taskAt_of_setPhase_within (ht : tasks[n]? = some t) (hP : P t.phase)
    (h : TaskAt (setPhase tasks n phase) P m id) : TaskAt tasks P m id := by
  rcases taskAt_of_setPhase ht h with ⟨rfl, rfl, -⟩ | ⟨-, h⟩
  · exact ⟨t, ht, rfl, hP⟩
  · exact h

theorem taskAt_of_append (h : TaskAt (tasks ++ [t]) P m id) :
    TaskAt tasks P m id ∨ (m = tasks.length ∧ id = t.id) := by
  obtain ⟨t', ht', hid, hP⟩ := h
  rcases Nat.lt_trichotomy m tasks.length with hm | rfl | hm
  · rw [List.getElem?_append_left hm] at ht'
    exact .inl ⟨t', ht', hid, hP⟩
  · rw [List.getElem?_concat_length] at ht'
    cases ht'
    exact .inr ⟨rfl, hid.symm⟩
  · rw [List.getElem?_eq_none (by simp; omega)] at ht'
    cases ht'

theorem taskAt_of_signalled
    (htasks : ∀ n : ℕ, (tasks'[n]?).map (fun t => (t.id, t.phase)) =
      (tasks[n]?).map fun t => (t.id, t.phase))
    (h : TaskAt tasks' P m id) : TaskAt tasks P m id := by
  obtain ⟨t, ht, hid, hP⟩ := h
  have hm := htasks m
  rw [ht] at hm
  obtain ⟨t', ht', heq⟩ := Option.map_eq_some_iff.mp hm.symm
  obtain ⟨hid', hphase⟩ := Prod.mk.inj heq
  exact ⟨t', ht', hid'.trans hid, hphase ▸ hP⟩

end TaskAt

/-! ### Jobs and tasks -/

/-- How the jobs and the tasks of a queue fit together. -/
structure Consistent (jobs : Table String (DownloadJob ρ)) (tasks : List (Task ρ)) : Prop where
  ids : ∀ id job, jobs.lookup id = some job → job.id = id
  known : ∀ n id, TaskAt tasks (fun _ => true) n id → (jobs.lookup id).isSome
  active : ∀ n id job, TaskAt tasks Phase.isLive n id → jobs.lookup id = some job → job.isActive
  single : ∀ n m id, TaskAt tasks Phase.isLive n id → TaskAt tasks Phase.isLive m id → n = m
  exclusive : ∀ id id' job job', jobs.lookup id = some job → jobs.lookup id' = some job' →
    job.isActive → job'.isActive → job.origin = job'.origin → job.origin.isCatalog → id = id'

variable {job : DownloadJob ρ}

namespace Consistent

variable {jobs : Table String (DownloadJob ρ)} {tasks : List (Task ρ)} {n : ℕ} {t : Task ρ}
  {id : String}

theorem setPhase (h : Consistent jobs tasks) (ht : tasks[n]? = some t) (hlive : t.phase.isLive) :
    Consistent jobs (setPhase tasks n phase) where
  ids := h.ids
  known m id hm := h.known m id (taskAt_of_setPhase_within ht rfl hm)
  active m id job hm := h.active m id job (taskAt_of_setPhase_within ht hlive hm)
  single m m' id hm hm' :=
    h.single m m' id (taskAt_of_setPhase_within ht hlive hm) (taskAt_of_setPhase_within ht hlive hm')
  exclusive := h.exclusive

/-- A job may be replaced by one with its identity, if that is active as long as a live task works
for it, and only if the job was. -/
theorem insert {old : DownloadJob ρ} (h : Consistent jobs tasks) (hold : jobs.lookup id = some old)
    (hid : job.id = old.id) (horigin : job.origin = old.origin)
    (hactive : job.isActive → old.isActive)
    (hlive : ∀ n, TaskAt tasks Phase.isLive n id → job.isActive) :
    Consistent (jobs.insert id job) tasks where
  ids id' job' hjob' := by
    rw [Table.lookup_insert_eq] at hjob'
    split_ifs at hjob' with heq
    · cases hjob'
      rw [hid, h.ids id old hold, heq]
    · exact h.ids id' job' hjob'
  known m id' hm := by
    rw [Table.lookup_insert_eq]
    split_ifs
    · rfl
    · exact h.known m id' hm
  active m id' job' hm hjob' := by
    rw [Table.lookup_insert_eq] at hjob'
    split_ifs at hjob' with heq
    · cases hjob'
      exact hlive m (heq ▸ hm)
    · exact h.active m id' job' hm hjob'
  single := h.single
  exclusive id₁ id₂ job₁ job₂ h₁ h₂ ha₁ ha₂ ho hc := by
    rw [Table.lookup_insert_eq] at h₁ h₂
    split_ifs at h₁ h₂ with heq₁ heq₂ heq₂
    · rw [heq₁, heq₂]
    · cases h₁
      exact heq₁.trans (h.exclusive id id₂ old job₂ hold h₂ (hactive ha₁) ha₂ (horigin ▸ ho)
        (horigin ▸ hc))
    · cases h₂
      exact (h.exclusive id₁ id job₁ old h₁ hold ha₁ (hactive ha₂) (horigin ▸ ho) hc).trans
        heq₂.symm
    · exact h.exclusive id₁ id₂ job₁ job₂ h₁ h₂ ha₁ ha₂ ho hc

/-- An active job and a new task for it, if no live task works for the job and no other active job
has its origin. -/
theorem spawn (h : Consistent jobs tasks) (t : Task ρ) (job : DownloadJob ρ) (hid : job.id = t.id)
    (hactive : job.isActive) (hnone : ∀ n, ¬ TaskAt tasks Phase.isLive n t.id)
    (hfree : job.origin.isCatalog → ∀ id' job', jobs.lookup id' = some job' →
      job'.origin = job.origin → job'.isActive → id' = t.id) :
    Consistent (jobs.insert t.id job) (tasks ++ [t]) where
  ids id' job' hjob' := by
    rw [Table.lookup_insert_eq] at hjob'
    split_ifs at hjob' with heq
    · cases hjob'
      rw [hid, heq]
    · exact h.ids id' job' hjob'
  known m id' hm := by
    rw [Table.lookup_insert_eq]
    split_ifs with heq
    · rfl
    · exact h.known m id' ((taskAt_of_append hm).resolve_right fun h => heq h.2)
  active m id' job' hm hjob' := by
    rw [Table.lookup_insert_eq] at hjob'
    split_ifs at hjob' with heq
    · cases hjob'
      exact hactive
    · exact h.active m id' job' ((taskAt_of_append hm).resolve_right fun h => heq h.2) hjob'
  single m m' id' hm hm' := by
    rcases taskAt_of_append hm with hm | ⟨hm, heq⟩
    · rcases taskAt_of_append hm' with hm' | ⟨hm', heq⟩
      · exact h.single m m' id' hm hm'
      · exact absurd (heq ▸ hm) (hnone m)
    · rcases taskAt_of_append hm' with hm' | ⟨hm', -⟩
      · exact absurd (heq ▸ hm') (hnone m')
      · rw [hm, hm']
  exclusive id₁ id₂ job₁ job₂ h₁ h₂ ha₁ ha₂ ho hc := by
    rw [Table.lookup_insert_eq] at h₁ h₂
    split_ifs at h₁ h₂ with heq₁ heq₂ heq₂
    · rw [heq₁, heq₂]
    · cases h₁
      exact heq₁.trans (hfree hc id₂ job₂ h₂ ho.symm ha₂).symm
    · cases h₂
      exact (hfree (ho ▸ hc) id₁ job₁ h₁ ho ha₁).trans heq₂.symm
    · exact h.exclusive id₁ id₂ job₁ job₂ h₁ h₂ ha₁ ha₂ ho hc

theorem not_live (h : Consistent jobs tasks) (hjob : jobs.lookup id = some job)
    (hactive : job.isActive = false) (n : ℕ) : ¬ TaskAt tasks Phase.isLive n id := by
  intro hn
  rw [h.active n id job hn hjob] at hactive
  cases hactive

end Consistent

theorem Ledger.Evolves.consistent {may : Ledger ρ → Act ρ → Prop} {l l' : Ledger ρ}
    (hstep : Ledger.Evolves may l l') (h : Consistent l.jobs l.tasks) :
    Consistent l'.jobs l'.tasks := by
  cases hstep with
  | idle => exact h
  | filed hfiles => exact h
  | republished => exact h
  | signalled hclosed htasks =>
    exact
      { ids := h.ids
        known := fun m id hm => h.known m id (taskAt_of_signalled htasks hm)
        active := fun m id job hm => h.active m id job (taskAt_of_signalled htasks hm)
        single := fun m m' id hm hm' =>
          h.single m m' id (taskAt_of_signalled htasks hm) (taskAt_of_signalled htasks hm')
        exclusive := h.exclusive }
  | inside ht hlive hphase hfiles => exact h.setPhase ht hlive
  | reported ht hlive hjob =>
    have hactive := h.active _ _ _ ⟨_, ht, rfl, hlive⟩ hjob
    exact h.insert hjob rfl rfl (fun h => h) fun _ _ => hactive
  | settled ht hlive hold hid horigin hphase hactive =>
    have hwas := h.active _ _ _ ⟨_, ht, rfl, hlive⟩ hold
    exact (h.setPhase ht hlive).insert hold hid horigin (fun _ => hwas) fun _ _ => hactive
  | recorded ht hlive hold hid horigin hrecord hmay =>
    have hwas := h.active _ _ _ ⟨_, ht, rfl, hlive⟩ hold
    refine (h.setPhase ht hlive).insert hold hid horigin (fun _ => hwas) fun m hm => ?_
    -- the only live task of the job has just stopped being one
    rcases taskAt_of_setPhase ht hm with ⟨-, -, hm⟩ | ⟨hne, hm⟩
    · cases hm
    · exact absurd (h.single m _ _ hm ⟨_, ht, rfl, hlive⟩) hne
  | unrecorded ht hlive => exact h.setPhase ht hlive
  | released ht hphase =>
    have hlive : ∀ {m id}, TaskAt (setPhase l.tasks _ .finished) Phase.isLive m id →
        TaskAt l.tasks Phase.isLive m id := fun hm =>
      (taskAt_of_setPhase ht hm).elim (fun h => by cases h.2.2) fun h => h.2
    exact
      { ids := h.ids
        known := fun m id hm => h.known m id (taskAt_of_setPhase_within ht rfl hm)
        active := fun m id job hm => h.active m id job (hlive hm)
        single := fun m m' id hm hm' => h.single m m' id (hlive hm) (hlive hm')
        exclusive := h.exclusive }
  | enqueued hopen hfresh hfree =>
    rename_i id request
    refine h.spawn ⟨id, request, false, .waiting⟩ (.queued id request) rfl rfl (fun n hn => ?_)
      fun hcatalog id' job' hjob' horigin hactive => ?_
    · obtain ⟨t, ht, hid, -⟩ := hn
      have hknown := h.known n _ ⟨t, ht, hid, rfl⟩
      rw [hfresh] at hknown
      cases hknown
    · cases hfree hcatalog id' job' hjob' horigin hactive
  | retried hopen hjob hstatus hfree hmay =>
    rename_i id request job
    have hidle : job.isActive = false := by
      rcases hstatus with hstatus | hstatus <;> rw [DownloadJob.isActive, hstatus]
    have hid : job.requeued.id = id := h.ids id job hjob
    refine h.spawn ⟨id, request, false, .waiting⟩ job.requeued hid rfl
      (h.not_live hjob hidle) fun hcatalog id' job' hjob' horigin hactive => ?_
    rw [← h.ids id' job' hjob']
    exact Option.some.inj (hfree id' job' hjob' horigin hactive)

/-! ### What is shown and what was saved -/

def lastSaved : List (Event ρ) → String → Option (DownloadJob ρ)
  | [], _ => none
  | .saved job :: log, id => if id = job.id then some job else lastSaved log id
  | .published _ :: log, id => lastSaved log id

/-- Every list of jobs was, when it became visible, what had last been saved, apart from the
progress and the candidates. -/
def Acknowledged : List (Event ρ) → Prop
  | [] => True
  | .saved _ :: log => Acknowledged log
  | .published jobs :: log =>
    (∀ job ∈ jobs, (lastSaved log job.id).map DownloadJob.lasting = some job.lasting) ∧
      Acknowledged log

/-- The storage holds what was last saved. -/
structure Recorded (stored : Table String (DownloadJob ρ)) (log : List (Event ρ)) : Prop where
  ids : ∀ id job, stored.lookup id = some job → job.id = id
  saved : ∀ id, stored.lookup id = lastSaved log id
  acknowledged : Acknowledged log

variable {stored jobs : Table String (DownloadJob ρ)} {log : List (Event ρ)}

theorem Recorded.save (h : Recorded stored log) (job : DownloadJob ρ) :
    Recorded (stored.insert job.id job) (.saved job :: log) := by
  refine ⟨fun id job' hjob' => ?_, fun id => ?_, h.acknowledged⟩
  · rw [Table.lookup_insert_eq] at hjob'
    split_ifs at hjob' with heq
    · cases hjob'
      exact heq.symm
    · exact h.ids id job' hjob'
  · rw [Table.lookup_insert_eq, lastSaved, h.saved id]

/-- The jobs of a queue agree with the storage, and subscribers see the jobs. -/
structure Durable (jobs : Table String (DownloadJob ρ)) (updates : List (DownloadJob ρ))
    (stored : Table String (DownloadJob ρ)) (log : List (Event ρ)) : Prop
    extends Recorded stored log where
  agree : ∀ id, (jobs.lookup id).map DownloadJob.lasting =
    (stored.lookup id).map DownloadJob.lasting
  shown : updates = orderedJobs jobs

theorem mem_orderedJobs : job ∈ orderedJobs jobs ↔ ∃ id, jobs.lookup id = some job := by
  rw [orderedJobs, List.mem_mergeSort, Table.mem_values]

theorem Durable.publish (hids : ∀ id job, jobs.lookup id = some job → job.id = id)
    (h : Recorded stored log) (hagree : ∀ id, (jobs.lookup id).map DownloadJob.lasting =
      (stored.lookup id).map DownloadJob.lasting) :
    Durable jobs (orderedJobs jobs) stored (.published (orderedJobs jobs) :: log) := by
  refine ⟨⟨h.ids, h.saved, fun job hjob => ?_, h.acknowledged⟩, hagree, rfl⟩
  obtain ⟨id, hid⟩ := mem_orderedJobs.mp hjob
  have := hagree id
  rw [hid, ← hids id job hid, h.saved] at this
  exact this.symm

theorem Durable.settle {updates : List (DownloadJob ρ)} {id : String}
    (hids : ∀ id' job', (jobs.insert id job).lookup id' = some job' → job'.id = id')
    (h : Durable jobs updates stored log) :
    Durable (jobs.insert id job) (orderedJobs (jobs.insert id job)) (stored.insert job.id job)
      (.published (orderedJobs (jobs.insert id job)) :: .saved job :: log) := by
  refine .publish hids (h.toRecorded.save job) fun id' => ?_
  have hid : job.id = id := hids id job (AList.lookup_insert _)
  rw [Table.lookup_insert_eq, Table.lookup_insert_eq, hid]
  split_ifs
  · rfl
  · exact h.agree id'

/-- Progress is shown without being saved. -/
theorem Durable.report {updates : List (DownloadJob ρ)} {id : String} {old : DownloadJob ρ}
    (hids : ∀ id' job', (jobs.insert id job).lookup id' = some job' → job'.id = id')
    (h : Durable jobs updates stored log) (hold : jobs.lookup id = some old)
    (hlasting : job.lasting = old.lasting) :
    Durable (jobs.insert id job) (orderedJobs (jobs.insert id job)) stored
      (.published (orderedJobs (jobs.insert id job)) :: log) := by
  refine .publish hids h.toRecorded fun id' => ?_
  rw [Table.lookup_insert_eq, ← h.agree id']
  split_ifs with heq
  · rw [heq, hold, Option.map_some, Option.map_some, hlasting]
  · rfl

theorem Ledger.Evolves.durable {may : Ledger ρ → Act ρ → Prop} {l l' : Ledger ρ}
    (hstep : Ledger.Evolves may l l') (hids : Consistent l'.jobs l'.tasks)
    (h : Durable l.jobs l.updates l.stored l.log) :
    Durable l'.jobs l'.updates l'.stored l'.log := by
  cases hstep with
  | idle => exact h
  | filed hfiles => exact h
  | republished => exact .publish hids.ids h.toRecorded h.agree
  | signalled hclosed htasks => exact h
  | inside => exact h
  | reported ht hlive hjob => exact h.report hids.ids hjob rfl
  | settled => exact h.settle hids.ids
  | recorded => exact h.settle hids.ids
  | unrecorded ht hlive => exact h
  | released ht hphase => exact h
  | enqueued => exact h.settle hids.ids
  | retried => exact h.settle hids.ids

/-! ### The cancellation map -/

/-- The map holds the sender of every unfinished task. -/
def Cancellable (cancellation : Table String ℕ) (tasks : List (Task ρ)) : Prop :=
  ∀ n id, TaskAt tasks Phase.isUnfinished n id → cancellation.lookup id = some n

/-- Whether a task is past its final update and has yet to take its sender out of the map. -/
def Phase.isReleasing : Phase → Bool
  | .releasing => true
  | _ => false

/-- No task of the job is between its final update and its end. -/
def Ledger.NoneReleasing (l : Ledger ρ) (id : String) : Prop :=
  ∀ n, ¬ TaskAt l.tasks Phase.isReleasing n id

/-- A retry finds no task of its job between its final update and its end. -/
def Ledger.MayRetry (l : Ledger ρ) (a : Act ρ) : Prop :=
  ∀ id request saved, a = .retry id request saved → l.NoneReleasing id

theorem Phase.isUnfinished_of_isLive (h : phase.isLive) : phase.isUnfinished := by
  cases phase <;> first | rfl | cases h

theorem Phase.isUnfinished_iff : phase.isUnfinished ↔ phase.isLive ∨ phase.isReleasing := by
  cases phase <;> simp [isUnfinished, isLive, isReleasing]

variable {cancellation : Table String ℕ}

theorem Cancellable.spawn {tasks : List (Task ρ)} {t : Task ρ} (h : Cancellable cancellation tasks)
    (hnone : ∀ n, ¬ TaskAt tasks Phase.isUnfinished n t.id) :
    Cancellable (cancellation.insert t.id tasks.length) (tasks ++ [t]) := by
  intro n id hn
  rw [Table.lookup_insert_eq]
  rcases taskAt_of_append hn with hn | ⟨rfl, rfl⟩
  · split_ifs with heq
    · exact absurd (heq ▸ hn) (hnone n)
    · exact h n id hn
  · exact if_pos rfl

theorem Cancellable.release {tasks : List (Task ρ)} {n : ℕ} {t : Task ρ}
    (h : Cancellable cancellation tasks) (ht : tasks[n]? = some t)
    (hunfinished : t.phase.isUnfinished) :
    Cancellable (cancellation.erase t.id) (setPhase tasks n .finished) := by
  intro m id hm
  have hn := h n t.id ⟨t, ht, rfl, hunfinished⟩
  rcases taskAt_of_setPhase ht hm with ⟨-, -, hm⟩ | ⟨hne, hm⟩
  · cases hm
  · have hid := h m id hm
    rw [Table.lookup_erase_eq, hid]
    refine if_neg fun heq => hne ?_
    rw [heq, hn] at hid
    exact (Option.some.inj hid).symm

theorem Ledger.Evolves.cancellable {l l' : Ledger ρ}
    (hstep : Ledger.Evolves Ledger.MayRetry l l') (hc : Consistent l.jobs l.tasks)
    (h : Cancellable l.cancellation l.tasks) : Cancellable l'.cancellation l'.tasks := by
  have hwithin : ∀ {n t phase}, l.tasks[n]? = some t → t.phase.isLive →
      Cancellable l.cancellation (setPhase l.tasks n phase) := fun ht hlive m id hm =>
    h m id (taskAt_of_setPhase_within ht (Phase.isUnfinished_of_isLive hlive) hm)
  cases hstep with
  | idle => exact h
  | filed hfiles => exact h
  | republished => exact h
  | signalled hclosed htasks => exact fun n id hn => h n id (taskAt_of_signalled htasks hn)
  | inside ht hlive hphase hfiles => exact hwithin ht hlive
  | reported => exact h
  | settled ht hlive => exact hwithin ht hlive
  | recorded ht hlive => exact hwithin ht hlive
  | unrecorded ht hlive => exact hwithin ht hlive
  | released ht hphase => exact h.release ht (hphase ▸ rfl)
  | enqueued hopen hfresh hfree =>
    rename_i id request
    refine h.spawn (t := ⟨id, request, false, .waiting⟩) fun n hn => ?_
    obtain ⟨t, ht, hid, -⟩ := hn
    have hknown := hc.known n id ⟨t, ht, hid, rfl⟩
    rw [hfresh] at hknown
    cases hknown
  | retried hopen hjob hstatus hfree hmay =>
    rename_i id request job
    have hidle : job.isActive = false := by
      rcases hstatus with hstatus | hstatus <;> rw [DownloadJob.isActive, hstatus]
    refine h.spawn (t := ⟨id, request, false, .waiting⟩) fun n hn => ?_
    obtain ⟨t, ht, hid, hunfinished⟩ := hn
    rcases Phase.isUnfinished_iff.mp hunfinished with hlive | hreleasing
    · exact hc.not_live hjob hidle n ⟨t, ht, hid, hlive⟩
    · exact hmay id request true rfl n ⟨t, ht, hid, hreleasing⟩

/-! ### The system -/

def queueSystem [DecidableEq ρ] (E : Environment ρ) (start : Profile ρ → Prop) :
    System (World ρ) (Act ρ) where
  initial w := ∃ p, w = .down p ∧ start p
  step := step E

/-- What holds between and inside of the sessions. -/
def World.Sound : World ρ → Prop
  | .down p => Recorded p.stored p.log
  | .running q => Consistent q.jobs q.tasks ∧ Durable q.jobs q.updates q.stored q.log

variable {E : Environment ρ} {p p₀ : Profile ρ}

/-- A session ends with the storage as it was: at most the staging area differs. -/
theorem step_down [DecidableEq ρ] {q : Running ρ} {a : Act ρ}
    (h : step E (.running q) a = some (.down p)) :
    ∃ staging, p = { q.toProfile with staging := staging } := by
  cases a with
  | task attempt move =>
    unfold step at h
    dsimp only at h
    split at h
    · rename_i task htask
      unfold Running.taskStep at h
      split at h
      case h_13 transfer script hphase =>
        obtain ⟨-, hI, -⟩ := Profile.keeps_removePartial _
          (I := fun p => ∃ staging, p = { q.toProfile with staging := staging })
          (fun staging _ => ⟨staging, rfl⟩) ⟨q.toProfile, script, []⟩ (by simp) ⟨_, rfl⟩ rfl
        simp only [Running.clean, Option.some.injEq] at h
        split at h
        · cases h
        · cases h
        · rename_i hrun
          rw [hrun] at hI
          cases h
          exact hI
      all_goals simp at h
    · cases h
  | crash =>
    cases h
    exact ⟨q.staging, rfl⟩
  | userFile path content =>
    simp only [step] at h
    split_ifs at h
    cases h
  | enqueue => cases h
  | retry => cases h
  | cancel => cases h
  | close => cases h
  | reopen => cases h

/-- What can happen while no queue is open. -/
theorem step_of_down [DecidableEq ρ] {a : Act ρ} {w : World ρ} (h : step E (.down p) a = some w) :
    (∃ script, a = .reopen script) ∨ ∃ path content, p.files path = none ∧
      w = .down { p with files := Function.update p.files path (some ⟨none, content⟩) } := by
  cases a with
  | reopen script => exact .inl ⟨script, rfl⟩
  | userFile path content =>
    simp only [step] at h
    split_ifs at h with hfree
    cases h
    exact .inr ⟨path, content, hfree, rfl⟩
  | enqueue => cases h
  | retry => cases h
  | cancel => cases h
  | close => cases h
  | task => cases h
  | crash => cases h

variable {jobs : List (DownloadJob ρ)}

theorem lookup_opened (hnodup : (jobs.map DownloadJob.id).Nodup) (t : Table String (DownloadJob ρ))
    (id : String) (job : DownloadJob ρ) :
    (jobs.foldl (fun table job => table.insert job.id job) t).lookup id = some job ↔
      (job ∈ jobs ∧ job.id = id) ∨ (id ∉ jobs.map DownloadJob.id ∧ t.lookup id = some job) := by
  induction jobs generalizing t with
  | nil => simp
  | cons first jobs ih =>
    rw [List.map_cons, List.nodup_cons] at hnodup
    rw [List.foldl_cons, ih hnodup.2, Table.lookup_insert_eq]
    by_cases hid : id = first.id
    · subst hid
      have hother : ¬ (job ∈ jobs ∧ job.id = first.id) := fun h =>
        hnodup.1 (h.2 ▸ List.mem_map_of_mem h.1)
      simp only [hother, false_or, hnodup.1, not_false_eq_true, true_and, if_true,
        Option.some.injEq, List.mem_cons, List.map_cons, not_true_eq_false, false_and, or_false]
      constructor
      · rintro rfl
        exact ⟨.inl rfl, rfl⟩
      · rintro ⟨rfl | hmem, heq⟩
        · rfl
        · exact absurd ⟨hmem, heq⟩ hother
    · simp only [List.mem_cons, List.map_cons, not_or, hid, if_false, not_false_eq_true, true_and]
      constructor
      · rintro (⟨hmem, heq⟩ | h)
        · exact .inl ⟨.inr hmem, heq⟩
        · exact .inr h
      · rintro (⟨rfl | hmem, heq⟩ | h)
        · exact absurd heq.symm hid
        · exact .inl ⟨hmem, heq⟩
        · exact .inr h

theorem lookup_jobs_opened {id : String} (h : Profile.Recovering E p₀ [] jobs p) :
    (Running.opened p jobs).jobs.lookup id = some job ↔ job ∈ jobs ∧ job.id = id := by
  have hnodup : (jobs.map DownloadJob.id).Nodup := by simpa using h.nodup
  refine (lookup_opened hnodup ∅ id job).trans ?_
  simp

/-- The state after a successful `open_with_client`. -/
theorem opened_sound (hp : Recorded p.stored p.log) (h : Profile.Recovering E p₀ [] jobs p) :
    (World.running (Running.opened p jobs)).Sound := by
  have hlookup : ∀ id job, (Running.opened p jobs).jobs.lookup id = some job ↔
      job ∈ jobs ∧ job.id = id := fun id job => lookup_jobs_opened h
  have hids : ∀ id job, (Running.opened p jobs).jobs.lookup id = some job → job.id = id :=
    fun id job hjob => ((hlookup id job).mp hjob).2
  refine ⟨⟨hids, ?_, ?_, ?_, fun id _ job _ hjob _ hactive => ?_⟩, .publish hids hp fun id => ?_⟩
  · rintro n id ⟨t, ht, -⟩
    cases ht
  · rintro n id job ⟨t, ht, -⟩
    cases ht
  · rintro n m id ⟨t, ht, -⟩
    cases ht
  · rw [(h.settled job ((hlookup id job).mp hjob).1).idle] at hactive
    cases hactive
  · by_cases hid : id ∈ jobs.map DownloadJob.id
    · obtain ⟨job, hmem, rfl⟩ := List.mem_map.mp hid
      have hjob := (hlookup job.id job).mpr ⟨hmem, rfl⟩
      exact (congrArg (Option.map DownloadJob.lasting) hjob).trans (h.settled job hmem).stored.symm
    · have hnone : (Running.opened p jobs).jobs.lookup id = none := by
        refine Option.eq_none_iff_forall_ne_some.mpr fun job hjob => hid ?_
        obtain ⟨hmem, rfl⟩ := (hlookup id job).mp hjob
        exact List.mem_map_of_mem hmem
      have hstored : p.stored.lookup id = none := by
        refine Option.not_isSome_iff_eq_none.mp fun hsome => hid ?_
        simpa using h.known id hsome
      exact congrArg (Option.map DownloadJob.lasting) (hnone.trans hstored.symm)

variable [DecidableEq ρ] {E : Environment ρ}

theorem step_sound {w w' : World ρ} {a : Act ρ} (hw : w.Sound) (hfresh : FreshIds w a)
    (h : step E w a = some w') : w'.Sound := by
  cases w with
  | down p =>
    obtain ⟨script, rfl⟩ | ⟨path, content, -, rfl⟩ := step_of_down h
    · obtain ⟨-, hI, hjobs⟩ := Profile.keeps_recover (E := E)
        (I := fun p : Profile ρ => Recorded p.stored p.log) (fun p hp => hp.ids)
        (fun p id s hp _ => hp) (fun p job r hp _ _ _ => hp.save r) ⟨p, script, []⟩ (by simp) hw rfl
      unfold step at h
      dsimp only at h
      split at h
      all_goals
        rename_i hrun
        rw [hrun] at hI hjobs
        cases h
      · exact opened_sound hI (hjobs _ rfl)
      · exact hI
    · exact hw
  | running q =>
    cases w' with
    | down p =>
      obtain ⟨staging, rfl⟩ := step_down h
      exact hw.2.toRecorded
    | running q' =>
      have hstep : Ledger.Evolves (fun _ _ => True) q.ledger q'.ledger :=
        step_evolves hfresh (fun _ _ _ _ => trivial) (fun _ _ => trivial) h
      have hc := hstep.consistent hw.1
      exact ⟨hc, hstep.durable hc hw.2⟩

/-- Profiles on which the queue may be opened first: the storage holds what was saved. -/
def SavedRows (p : Profile ρ) : Prop := Recorded p.stored p.log

theorem sound_of_reachable {w : World ρ}
    (h : (queueSystem E SavedRows).Reachable FreshIds w) : w.Sound := by
  refine h.invariant ?_ fun w a w' hw ha hs => step_sound hw ha hs
  rintro _ ⟨p, rfl, hp⟩
  exact hp

/-! ### A small profile -/

def Profile.new : Profile ρ where
  stored := ∅
  files := fun _ => none
  staging := .missing
  attempts := fun _ => 0
  staged := fun _ => none
  log := []

omit [DecidableEq ρ] in
theorem savedRows_new : SavedRows (Profile.new : Profile ρ) :=
  ⟨fun _ _ h => (by cases h), fun _ => rfl, trivial⟩

/-- An environment with one variant, in which the digest of `abc` is known. -/
def sampleEnvironment : Environment Unit where
  destination := ["downloads"]
  sha256 := fun content =>
    if content = [97, 98, 99] then
      "ba7816bf8f01cfea414140de5dae2223b00361a396177a9cb410ff61f20015ad"
    else ""
  validReference := fun _ => true
  canonicalHost := fun _ => true

def sampleRequest : DirectDownload Unit where
  origin := .catalog ()
  title := "Film"
  segmented := false

/-- The queue after it accepted that request in a new installation. -/
def sampleQueue : Running Unit :=
  ((Running.opened .new []).enqueue "a" sampleRequest true).2

theorem reachable_sampleQueue {start : Profile Unit → Prop} (hstart : start .new)
    {allowed : World Unit → Act Unit → Prop} (hopen : ∀ script w, allowed w (.reopen script))
    (henqueue : ∀ id request q, q.jobs.lookup id = none →
      allowed (.running q) (.enqueue id request true)) :
    (queueSystem sampleEnvironment start).Reachable allowed (.running sampleQueue) := by
  have h₀ : (queueSystem sampleEnvironment start).Reachable allowed (.down .new) :=
    .start ⟨_, rfl, hstart⟩
  have h₁ : (queueSystem sampleEnvironment start).Reachable allowed
      (.running (Running.opened .new [])) := h₀.next (hopen [] _) rfl
  exact h₁.next (henqueue "a" sampleRequest _ rfl) rfl

end Qbutt.Download
