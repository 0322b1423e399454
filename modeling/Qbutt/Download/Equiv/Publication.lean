import Qbutt.Download.Equiv.FileName
import Qbutt.Download.Equiv.Queue

/-!
# Published files

`Profile.TraceableAt` is what storage and files say about one job at every point of every session: a
file that the current attempt published is either journalled as the candidate of a job in status
`publishing`, or the path of a job that is no longer active.  `Task.Files` is what a live task knows
about its files.  A step on behalf of one job leaves what is known about the others alone
(`SameFor`).

The invariant breaks in one place.  When the clean-up of a published download fails, `finish`
records the failure in place of the success; `CleanPublication` leaves out the runs in which that
record is saved.
-/

namespace Qbutt.Download

variable {ρ : Type} {path : FilePath} {content : Content} {s : StagedDownload} {phase : Phase}

namespace Profile

def Published (p : Profile ρ) (id : String) (path : FilePath) (content : Content) : Prop :=
  p.files path = some ⟨some (id, p.attempts id), content⟩

/-- The current attempt of the job has not published anything. -/
def Unpublished (p : Profile ρ) (id : String) : Prop :=
  ∀ path content, ¬ p.Published id path content

/-- What the storage and the files say about one job. -/
structure TraceableAt (E : Environment ρ) (p : Profile ρ) (id : String) : Prop where
  numbered : ∀ path n content, p.files path = some ⟨some (id, n), content⟩ → n ≤ p.attempts id
  published : ∀ path content, p.Published id path content → p.staged id = some content ∧
    ∃ job, p.stored.lookup id = some job ∧
      ((job.status = .publishing ∧
          job.candidate = some ⟨path, content.length, E.sha256 content⟩) ∨
        (job.isActive = false ∧ job.path = some path))
  candidate : ∀ job, p.stored.lookup id = some job → job.status = .publishing →
    ∃ candidate content, job.candidate = some candidate ∧
      candidate.path.parent = some E.destination ∧ p.staged id = some content ∧
      candidate.size = content.length ∧ candidate.sha256 = E.sha256 content

/-- Two profiles that agree on everything about one job. -/
structure SameFor (id : String) (p p' : Profile ρ) : Prop where
  files : ∀ path n content, p'.files path = some ⟨some (id, n), content⟩ ↔
    p.files path = some ⟨some (id, n), content⟩
  part : p'.staging.part id = p.staging.part id
  staged : p'.staged id = p.staged id
  stored : p'.stored.lookup id = p.stored.lookup id
  attempts : p'.attempts id = p.attempts id

/-- The partial file of a job is what was staged, and `s` is its size and digest. -/
def Measured (E : Environment ρ) (p : Profile ρ) (id : String) (s : StagedDownload) : Prop :=
  ∃ content, p.staging.part id = some content ∧ p.staged id = some content ∧
    s.size = content.length ∧ s.sha256 = E.sha256 content

variable {E : Environment ρ} {p p' : Profile ρ} {id : String}

theorem SameFor.refl (p : Profile ρ) (id : String) : SameFor id p p :=
  ⟨fun _ _ _ => Iff.rfl, rfl, rfl, rfl, rfl⟩

theorem SameFor.published (h : SameFor id p p') :
    p'.Published id path content ↔ p.Published id path content := by
  rw [Published, Published, h.attempts]
  exact h.files path _ content

theorem SameFor.unpublished (h : SameFor id p p') (hp : p.Unpublished id) : p'.Unpublished id :=
  fun path content hpub => hp path content (h.published.mp hpub)

theorem SameFor.traceableAt (h : SameFor id p p') (hp : p.TraceableAt E id) :
    p'.TraceableAt E id := by
  refine ⟨fun path n content hfile => ?_, fun path content hpub => ?_, fun job hjob hstatus => ?_⟩
  · rw [h.attempts]
    exact hp.numbered path n content ((h.files path n content).mp hfile)
  · rw [h.staged, h.stored]
    exact hp.published path content (h.published.mp hpub)
  · rw [h.stored] at hjob
    rw [h.staged]
    exact hp.candidate job hjob hstatus

theorem SameFor.measured (h : SameFor id p p') (hp : p.Measured E id s) : p'.Measured E id s := by
  rw [Measured, h.part, h.staged]
  exact hp

/-- Without a published file and without a journalled candidate, nothing needs to be traced. -/
theorem traceableAt_of_unpublished (h : p.TraceableAt E id) (hfiles : p'.files = p.files)
    (hattempts : p'.attempts id = p.attempts id) (hunpublished : p'.Unpublished id)
    (hstatus : ∀ job, p'.stored.lookup id = some job → job.status ≠ .publishing) :
    p'.TraceableAt E id := by
  refine ⟨fun path n content hfile => ?_, fun path content hpub => ?_, fun job hjob hpublishing => ?_⟩
  · rw [hattempts]
    exact h.numbered path n content (hfiles ▸ hfile)
  · exact absurd hpub (hunpublished path content)
  · exact absurd hpublishing (hstatus job hjob)

end Profile

open Profile

/-- Whether a task has yet to journal a candidate. -/
def Phase.isEarly : Phase → Bool
  | .waiting | .starting | .preparing | .transferring _ => true
  | _ => false

def Phase.measured : Phase → Option StagedDownload
  | .publishing s _ | .moving s _ => some s
  | _ => none

def Phase.published : Phase → Option FilePath
  | .cleaning (.ok path) | .reading (.ok path) _ | .recording (.ok path) _ _ => some path
  | _ => none

/-- What a live task knows about its files. -/
structure Task.Files (E : Environment ρ) (p : Profile ρ) (t : Task ρ) : Prop where
  early : t.phase.isEarly → ∀ job, p.stored.lookup t.id = some job → job.status ≠ .publishing
  measured : ∀ s, t.phase.measured = some s → p.Measured E t.id s
  journalled : ∀ s index, t.phase = .moving s index → ∃ job, p.stored.lookup t.id = some job ∧
    job.status = .publishing ∧
    job.candidate = some ⟨Running.candidate E t index, s.size, s.sha256⟩
  unpublished : t.phase.published = none → p.Unpublished t.id
  published : ∀ path, t.phase.published = some path → ∃ content, p.Published t.id path content

section Files

variable {E : Environment ρ} {p p' : Profile ρ} {t : Task ρ}

theorem Profile.SameFor.taskFiles (h : SameFor t.id p p') (hp : t.Files E p) : t.Files E p' := by
  refine ⟨fun hphase job hjob => ?_, fun s hphase => h.measured (hp.measured s hphase),
    fun s index hphase => ?_, fun hphase => h.unpublished (hp.unpublished hphase),
    fun path hphase => ?_⟩
  · rw [h.stored] at hjob
    exact hp.early hphase job hjob
  · rw [h.stored]
    exact hp.journalled s index hphase
  · obtain ⟨content, hpub⟩ := hp.published path hphase
    exact ⟨content, h.published.mpr hpub⟩

theorem Task.files_of_unpublished (hp : p.Unpublished t.id) (hearly : phase.isEarly = false)
    (hmeasured : phase.measured = none) (hpublished : phase.published = none) :
    Task.Files E p { t with phase := phase } := by
  refine ⟨fun h => ?_, fun s h => ?_, fun s index h => ?_, fun _ => hp, fun path h => ?_⟩
  · rw [hearly] at h
    cases h
  · rw [hmeasured] at h
    cases h
  · obtain rfl : phase = .moving s index := h
    cases hmeasured
  · rw [hpublished] at h
    cases h

theorem Task.files_of_early (hp : p.Unpublished t.id)
    (hstatus : ∀ job, p.stored.lookup t.id = some job → job.status ≠ .publishing)
    (hearly : phase.isEarly) : Task.Files E p { t with phase := phase } := by
  cases phase
  case waiting | starting | preparing | transferring =>
    exact ⟨fun _ => hstatus, fun _ h => (by cases h), fun _ _ h => (by cases h), fun _ => hp,
      fun _ h => (by cases h)⟩
  all_goals cases hearly

end Files

/-! ### Steps of a task -/

/-- What holds of storage and files between and inside of the sessions. -/
def World.Traceable (E : Environment ρ) : World ρ → Prop
  | .down p => ∀ id, p.TraceableAt E id
  | .running q => (∀ id, q.toProfile.TraceableAt E id) ∧
    ∀ (n : ℕ) t, q.tasks[n]? = some t → t.phase.isLive → t.Files E q.toProfile

variable {id id' : String} {saved closing : Bool} {p : Profile ρ} {request : DirectDownload ρ}

section Steps

variable {E : Environment ρ} {q q' : Running ρ} {n : ℕ} {t : Task ρ}

/-- What a step of a live task has to provide: nothing about the other jobs changes, and its own job
stays traceable. -/
theorem traceable_of_taskStep (phase : Phase) (hc : Consistent q.jobs q.tasks)
    (h : (World.running q).Traceable E) (ht : q.tasks[n]? = some t) (hlive : t.phase.isLive)
    (htasks : q'.tasks = setPhase q.tasks n phase)
    (hother : ∀ id, id ≠ t.id → SameFor id q.toProfile q'.toProfile)
    (hat : q'.toProfile.TraceableAt E t.id)
    (hfiles : phase.isLive → Task.Files E q'.toProfile { t with phase := phase }) :
    (World.running q').Traceable E := by
  refine ⟨fun id => ?_, fun m t' ht' hlive' => ?_⟩
  · by_cases hid : id = t.id
    · exact hid ▸ hat
    · exact (hother id hid).traceableAt (h.1 id)
  · rw [htasks] at ht'
    by_cases hmn : m = n
    · subst hmn
      rw [setPhase, List.getElem?_modify_eq, ht] at ht'
      cases ht'
      exact hfiles hlive'
    · rw [setPhase, List.getElem?_modify_ne _ _ (Ne.symm hmn)] at ht'
      -- no other live task works for the same job
      have hid : t'.id ≠ t.id := fun hid =>
        hmn (hc.single m n t.id ⟨t', ht', hid, hlive'⟩ ⟨t, ht, rfl, hlive⟩)
      exact (hother t'.id hid).taskFiles (h.2 m t' ht' hlive')

theorem traceable_of_advance (phase : Phase) (hc : Consistent q.jobs q.tasks)
    (h : (World.running q).Traceable E) (ht : q.tasks[n]? = some t) (hlive : t.phase.isLive)
    (htasks : q'.tasks = setPhase q.tasks n phase) (hprofile : q'.toProfile = q.toProfile)
    (hfiles : phase.isLive → Task.Files E q.toProfile { t with phase := phase }) :
    (World.running q').Traceable E :=
  traceable_of_taskStep _ hc h ht hlive htasks (fun id _ => hprofile ▸ SameFor.refl _ id)
    (hprofile ▸ h.1 t.id) (hprofile ▸ hfiles)

/-- The transfer of a task fails before it published anything. -/
theorem traceable_of_failure {e : DownloadError} (hc : Consistent q.jobs q.tasks)
    (h : (World.running q).Traceable E) (ht : q.tasks[n]? = some t) (hlive : t.phase.isLive)
    (hphase : t.phase.published = none) :
    (World.running (q.leave n (.error e))).Traceable E :=
  traceable_of_advance _ hc h ht hlive rfl rfl fun _ =>
    Task.files_of_unpublished ((h.2 n t ht hlive).unpublished hphase) rfl rfl rfl

theorem acquire_traceable (hc : Consistent q.jobs q.tasks) (h : (World.running q).Traceable E)
    (ht : q.tasks[n]? = some t) (hphase : t.phase = .waiting) (hq : q.acquire n t = some q') :
    (World.running q').Traceable E := by
  have hlive : t.phase.isLive := hphase ▸ rfl
  have hfiles := h.2 n t ht hlive
  unfold Running.acquire at hq
  split_ifs at hq
  · cases hq
    exact traceable_of_failure hc h ht hlive (hphase ▸ rfl)
  · cases hq
    exact traceable_of_advance _ hc h ht hlive rfl rfl fun _ =>
      Task.files_of_early (hfiles.unpublished (hphase ▸ rfl)) (hfiles.early (hphase ▸ rfl)) rfl

variable {job : DownloadJob ρ}
  {transfer : Except DownloadError FilePath} {cleanup : Option DownloadError}

theorem sameFor_settle (h : id ≠ job.id) :
    SameFor id q.toProfile ((q.settle id' job).advance n phase).toProfile :=
  ⟨fun _ _ _ => Iff.rfl, rfl, rfl, (lookup_save _ _ _).trans (if_neg h), rfl⟩

theorem files_publishFile (p : Profile ρ) (id : String) (path path' : FilePath)
    (content : Content) : (p.publishFile id path content).files path' =
      if path' = path then some ⟨some (id, p.attempts id), content⟩ else p.files path' :=
  Function.update_apply ..

theorem start_traceable (hc : Consistent q.jobs q.tasks) (h : (World.running q).Traceable E)
    (ht : q.tasks[n]? = some t) (hphase : t.phase = .starting) :
    (World.running (q.start n t saved)).Traceable E := by
  have hlive : t.phase.isLive := hphase ▸ rfl
  have hunpublished := (h.2 n t ht hlive).unpublished (hphase ▸ rfl)
  unfold Running.start Running.update
  cases hjob : q.jobs.lookup t.id with
  | none => exact traceable_of_failure hc h ht hlive (hphase ▸ rfl)
  | some job =>
    cases saved with
    | false => exact traceable_of_failure hc h ht hlive (hphase ▸ rfl)
    | true =>
      have hid := hc.ids t.id job hjob
      have hstatus : ∀ job', (q.toProfile.save
          { job with status := .downloading }).stored.lookup t.id = some job' →
          job'.status ≠ .publishing := by
        intro job' hjob'
        rw [lookup_save, if_pos hid.symm] at hjob'
        cases hjob'
        exact fun h => by cases h
      change (World.running ((q.settle t.id { job with status := .downloading }).advance n
        .preparing)).Traceable E
      exact traceable_of_taskStep _ hc h ht hlive rfl
        (fun id hne => sameFor_settle (fun heq => hne (heq.trans hid)))
        (traceableAt_of_unpublished (h.1 t.id) rfl rfl hunpublished hstatus)
        fun _ => Task.files_of_early hunpublished hstatus rfl

theorem sameFor_staging {s : Staging} (hpart : s.part id = p.staging.part id) :
    SameFor id p { p with staging := s } :=
  ⟨fun _ _ _ => Iff.rfl, hpart, rfl, rfl, rfl⟩

theorem part_setPart_of_ne {s : Staging} {content : Option Content} (h : id' ≠ id) :
    (s.setPart id content).part id' = s.part id' := by
  cases s <;> simp [Staging.setPart, Staging.part, h]

theorem part_setFolder (s : Staging) (id id' : String) (present : Bool) :
    (s.setFolder id present).part id' = s.part id' := by
  cases s <;> rfl

theorem part_create (s : Staging) (id : String) : s.create.part id = s.part id := by
  cases s <;> rfl

/-- A step of an early task that at most touches its partial file or the directories. -/
theorem traceable_of_early {s : Staging} (phase : Phase) (hc : Consistent q.jobs q.tasks)
    (h : (World.running q).Traceable E) (ht : q.tasks[n]? = some t) (hphase : t.phase.isEarly)
    (hpart : ∀ id, id ≠ t.id → s.part id = q.staging.part id)
    (htasks : q'.tasks = setPhase q.tasks n phase)
    (hprofile : q'.toProfile = { q.toProfile with staging := s })
    (hnext : phase.isEarly ∨ ∃ e, phase = .cleaning (.error e)) :
    (World.running q').Traceable E := by
  have hlive : t.phase.isLive := by
    cases hp : t.phase <;> first | rfl | (rw [hp] at hphase; cases hphase)
  have hfiles := h.2 n t ht hlive
  have hunpublished : q.toProfile.Unpublished t.id := hfiles.unpublished (by
    cases hp : t.phase <;> first | rfl | (rw [hp] at hphase; cases hphase))
  refine traceable_of_taskStep _ hc h ht hlive htasks
    (fun id hne => hprofile ▸ sameFor_staging (hpart id hne)) ?_ fun _ => ?_
  · rw [hprofile]
    exact traceableAt_of_unpublished (h.1 t.id) rfl rfl hunpublished (hfiles.early hphase)
  · rw [hprofile]
    rcases hnext with hnext | ⟨e, rfl⟩
    · exact Task.files_of_early hunpublished (hfiles.early hphase) hnext
    · exact Task.files_of_unpublished hunpublished rfl rfl rfl

theorem prepare_traceable {created : Bool} (hc : Consistent q.jobs q.tasks)
    (h : (World.running q).Traceable E) (ht : q.tasks[n]? = some t)
    (hphase : t.phase = .preparing) : (World.running (q.prepare n created)).Traceable E := by
  unfold Running.prepare
  cases created with
  | false => exact traceable_of_failure hc h ht (hphase ▸ rfl) (hphase ▸ rfl)
  | true =>
    have hpart : ∀ id, id ≠ t.id → q.staging.create.part id = q.staging.part id :=
      fun id _ => part_create q.staging id
    simp only [Bool.not_true, Bool.false_eq_true, if_false]
    split
    · exact traceable_of_early _ hc h ht (hphase ▸ rfl) hpart rfl rfl (.inl rfl)
    · exact traceable_of_early _ hc h ht (hphase ▸ rfl) hpart rfl rfl (.inr ⟨_, rfl⟩)

theorem begin_traceable {created : Bool} (hc : Consistent q.jobs q.tasks)
    (h : (World.running q).Traceable E) (ht : q.tasks[n]? = some t)
    (hphase : t.phase = .transferring false) :
    (World.running (q.begin n t created)).Traceable E := by
  have hearly : t.phase.isEarly := hphase ▸ rfl
  have hfail := traceable_of_failure (e := .io) hc h ht (hphase ▸ rfl) (hphase ▸ rfl)
  unfold Running.begin
  split_ifs
  · exact hfail
  · exact hfail
  · exact traceable_of_early _ hc h ht hearly (fun id _ => part_setFolder ..) rfl rfl (.inl rfl)
  · exact hfail
  · exact traceable_of_early _ hc h ht hearly (fun id hne => part_setPart_of_ne hne) rfl rfl
      (.inl rfl)

theorem stage_traceable {readable : Bool} (hc : Consistent q.jobs q.tasks)
    (h : (World.running q).Traceable E) (ht : q.tasks[n]? = some t)
    (hphase : t.phase = .transferring true) :
    (World.running (q.stage E n t readable)).Traceable E := by
  have hlive : t.phase.isLive := hphase ▸ rfl
  have hfiles := h.2 n t ht hlive
  have hunpublished := hfiles.unpublished (hphase ▸ rfl)
  unfold Running.stage
  cases hpart : q.staging.part t.id with
  | none => exact traceable_of_failure hc h ht hlive (hphase ▸ rfl)
  | some content =>
    dsimp only
    split_ifs
    · exact traceable_of_failure hc h ht hlive (hphase ▸ rfl)
    · exact traceable_of_failure hc h ht hlive (hphase ▸ rfl)
    · refine traceable_of_taskStep (.publishing ⟨content.length, E.sha256 content⟩ 1)
        hc h ht hlive rfl (fun id hne => ?_) ?_ fun _ => ?_
      · exact ⟨fun _ _ _ => Iff.rfl, rfl, Function.update_of_ne hne _ _, rfl, rfl⟩
      · exact traceableAt_of_unpublished (h.1 t.id) rfl rfl hunpublished
          (hfiles.early (hphase ▸ rfl))
      · refine ⟨fun h => (by cases h), fun s hs => ?_, fun _ _ h => (by cases h),
          fun _ => hunpublished, fun _ h => (by cases h)⟩
        cases hs
        exact ⟨content, hpart, Function.update_self .., rfl, rfl⟩

theorem extension_permitted (request : DirectDownload ρ) :
    (∀ c ∈ request.extension.toList, Permitted c) ∧ 2 ≤ request.extension.toList.length := by
  unfold DirectDownload.extension
  split_ifs <;> exact ⟨permitted_of_all rfl, by decide⟩

theorem candidate_parent (E : Environment ρ) (t : Task ρ) (index : ℕ) :
    (Running.candidate E t index).parent = some E.destination :=
  candidatePath_parent _ _ _ _ (extension_permitted t.request).1 (extension_permitted t.request).2

theorem sameFor_publishFile (hfree : p.files path = none) (hne : id' ≠ id) :
    SameFor id' p (p.publishFile id path content) := by
  refine ⟨fun path' k content' => ?_, part_setPart_of_ne hne, rfl, rfl, rfl⟩
  rw [files_publishFile]
  split_ifs with hpath
  · rw [hpath, hfree]
    constructor
    · intro heq
      cases heq
      exact absurd rfl hne
    · intro heq
      cases heq
  · exact Iff.rfl

theorem traceableAt_publishFile (h : p.TraceableAt E id) (hunpublished : p.Unpublished id)
    (hstaged : p.staged id = some content) (hjob : p.stored.lookup id = some job)
    (hstatus : job.status = .publishing)
    (hcandidate : job.candidate = some ⟨path, content.length, E.sha256 content⟩) :
    (p.publishFile id path content).TraceableAt E id := by
  refine ⟨fun path' k content' hfile => ?_, fun path' content' hpub => ?_, h.candidate⟩
  · rw [files_publishFile] at hfile
    split_ifs at hfile
    · cases hfile
      exact le_rfl
    · exact h.numbered path' k content' hfile
  · rw [Published, files_publishFile] at hpub
    split_ifs at hpub with hpath
    · cases hpub
      exact ⟨hstaged, job, hjob, .inl ⟨hstatus, hpath ▸ hcandidate⟩⟩
    · exact absurd hpub (hunpublished path' content')

theorem journal_traceable {index : ℕ} (hc : Consistent q.jobs q.tasks)
    (h : (World.running q).Traceable E) (ht : q.tasks[n]? = some t)
    (hphase : t.phase = .publishing s index) :
    (World.running (q.journal E n t s index saved)).Traceable E := by
  have hlive : t.phase.isLive := hphase ▸ rfl
  have hfiles := h.2 n t ht hlive
  have hunpublished := hfiles.unpublished (hphase ▸ rfl)
  have hmeasured := hfiles.measured s (hphase ▸ rfl)
  unfold Running.journal Running.update
  by_cases hcancelled : t.cancelled
  · rw [if_pos hcancelled]
    exact traceable_of_advance _ hc h ht hlive rfl rfl fun _ =>
      Task.files_of_unpublished hunpublished rfl rfl rfl
  rw [if_neg hcancelled]
  cases hjob : q.jobs.lookup t.id with
  | none => exact traceable_of_failure hc h ht hlive (hphase ▸ rfl)
  | some job =>
    cases saved with
    | false => exact traceable_of_failure hc h ht hlive (hphase ▸ rfl)
    | true =>
      have hid := hc.ids t.id job hjob
      let journalled : DownloadJob ρ :=
        { job with
          status := .publishing
          bytes := s.size
          totalBytes := some s.size
          candidate := some ⟨Running.candidate E t index, s.size, s.sha256⟩ }
      have hstored : (q.toProfile.save journalled).stored.lookup t.id = some journalled := by
        rw [lookup_save, if_pos hid.symm]
      change (World.running ((q.settle t.id journalled).advance n (.moving s index))).Traceable E
      refine traceable_of_taskStep _ hc h ht hlive rfl
        (fun id hne => sameFor_settle (fun heq => hne (heq.trans hid))) ⟨(h.1 t.id).numbered,
        fun path content hpub => absurd hpub (hunpublished path content), fun job' hjob' _ => ?_⟩
        fun _ => ⟨fun h => (by cases h), fun s' hs' => ?_, fun s' index' hs' => ?_,
          fun _ => hunpublished, fun _ h => (by cases h)⟩
      · cases hstored.symm.trans hjob'
        obtain ⟨content, -, hstaged, hsize, hsha⟩ := hmeasured
        exact ⟨_, content, rfl, candidate_parent E t index, hstaged, hsize, hsha⟩
      · cases hs'
        exact hmeasured
      · cases hs'
        exact ⟨journalled, hstored, rfl, rfl⟩

theorem discard_traceable {removed : Bool} (hc : Consistent q.jobs q.tasks)
    (h : (World.running q).Traceable E) (ht : q.tasks[n]? = some t)
    (hphase : t.phase = .discarding) : (World.running (q.discard n t removed)).Traceable E := by
  have hlive : t.phase.isLive := hphase ▸ rfl
  have hunpublished := (h.2 n t ht hlive).unpublished (hphase ▸ rfl)
  unfold Running.discard
  split_ifs
  · refine traceable_of_taskStep (.cleaning (.error .cancelled)) hc h ht hlive rfl
      (fun id hne => sameFor_staging (part_setPart_of_ne hne)) ?_
      fun _ => Task.files_of_unpublished hunpublished rfl rfl rfl
    -- the staging area is not part of what is traced
    exact ⟨(h.1 t.id).numbered, (h.1 t.id).published, (h.1 t.id).candidate⟩
  · exact traceable_of_failure hc h ht hlive (hphase ▸ rfl)

theorem moveFile_traceable {index : ℕ} {succeeds : Bool} (hc : Consistent q.jobs q.tasks)
    (h : (World.running q).Traceable E) (ht : q.tasks[n]? = some t)
    (hphase : t.phase = .moving s index) :
    (World.running (q.moveFile E n t s index succeeds)).Traceable E := by
  have hlive : t.phase.isLive := hphase ▸ rfl
  have hfiles := h.2 n t ht hlive
  have hunpublished := hfiles.unpublished (hphase ▸ rfl)
  have hmeasured := hfiles.measured s (hphase ▸ rfl)
  have hfail := traceable_of_failure (e := .io) hc h ht hlive (hphase ▸ rfl)
  unfold Running.moveFile
  cases succeeds with
  | false => exact hfail
  | true =>
    obtain ⟨content, hpart, hstaged, hsize, hsha⟩ := id hmeasured
    obtain ⟨job, hjob, hstatus, hcandidate⟩ := hfiles.journalled s index hphase
    dsimp only
    rw [hpart]
    cases hfree : q.files (Running.candidate E t index) with
    | none =>
      refine traceable_of_taskStep (.cleaning (.ok (Running.candidate E t index)))
        hc h ht hlive rfl (fun id hne => sameFor_publishFile hfree hne)
        (traceableAt_publishFile (h.1 t.id) hunpublished hstaged hjob hstatus ?_)
        fun _ => ⟨fun h => (by cases h), fun _ h => (by cases h), fun _ _ h => (by cases h),
          fun h => (by cases h), fun path hpath => ?_⟩
      · rw [hcandidate, hsize, hsha]
      · cases hpath
        exact ⟨content, (files_publishFile ..).trans (if_pos rfl)⟩
    | some file =>
      by_cases hindex : index < 10000
      · rw [if_pos hindex]
        refine traceable_of_advance (.publishing s (index + 1)) hc h ht hlive rfl rfl
          fun _ => ⟨fun h => (by cases h), fun s' hs' => ?_, fun _ _ h => (by cases h),
            fun _ => hunpublished, fun _ h => (by cases h)⟩
        cases hs'
        exact hmeasured
      · rw [if_neg hindex]
        exact hfail

theorem clean_traceable {script : List Fate} (hc : Consistent q.jobs q.tasks)
    (h : (World.running q).Traceable E) (ht : q.tasks[n]? = some t)
    (hphase : t.phase = .cleaning transfer) : (q.clean n t transfer script).Traceable E := by
  have hlive : t.phase.isLive := hphase ▸ rfl
  have hfiles := h.2 n t ht hlive
  obtain ⟨-, ⟨s, hs, hrun⟩, -⟩ := Profile.keeps_removePartial t.id
    (I := fun p => ∃ s, Staging.Removes t.id q.staging s ∧
      p = { q.toProfile with staging := s })
    (fun s hs => ⟨s, hs, rfl⟩) ⟨q.toProfile, script, []⟩ (by simp)
    ⟨q.staging, ⟨fun _ => .inl rfl, fun _ => .inl rfl⟩, rfl⟩ rfl
  have hother : ∀ id, id ≠ t.id → SameFor id q.toProfile { q.toProfile with staging := s } :=
    fun id hne => sameFor_staging ((hs.part id).resolve_right fun h => hne h.1)
  have hat : ∀ id, TraceableAt E { q.toProfile with staging := s } id := fun id =>
    ⟨(h.1 id).numbered, (h.1 id).published, (h.1 id).candidate⟩
  have hnext : ∀ cleanup, Task.Files E { q.toProfile with staging := s }
      { t with phase := .reading transfer cleanup } := fun cleanup => by
    have hpublished : (Phase.reading transfer cleanup).published = t.phase.published := by
      rw [hphase]
      cases transfer <;> rfl
    refine ⟨fun h => (by cases h), fun s h => ?_, fun _ _ h => (by cases h), fun h => ?_,
      fun path h => ?_⟩
    · cases transfer <;> cases h
    · exact hfiles.unpublished (hpublished ▸ h)
    · exact hfiles.published path (hpublished ▸ h)
  unfold Running.clean
  split
  all_goals
    rename_i heq
    rw [heq] at hrun
    simp only at hrun
    rw [hrun]
  · exact traceable_of_taskStep _ hc h ht hlive rfl hother (hat t.id) fun _ => hnext none
  · exact traceable_of_taskStep _ hc h ht hlive rfl hother (hat t.id) fun _ => hnext (some _)
  · exact hat

theorem read_traceable (hc : Consistent q.jobs q.tasks) (h : (World.running q).Traceable E)
    (ht : q.tasks[n]? = some t) (hphase : t.phase = .reading transfer cleanup) :
    (World.running (q.advance n (.recording transfer cleanup q.closed))).Traceable E := by
  have hlive : t.phase.isLive := hphase ▸ rfl
  have hfiles := h.2 n t ht hlive
  refine traceable_of_advance (.recording transfer cleanup q.closed) hc h ht hlive rfl rfl
    fun _ => ?_
  have hpublished : (Phase.recording transfer cleanup q.closed).published = t.phase.published := by
    rw [hphase]
    cases transfer <;> rfl
  refine ⟨fun h => (by cases h), fun s h => ?_, fun _ _ h => (by cases h), fun h => ?_,
    fun path h => ?_⟩
  · cases transfer <;> cases h
  · exact hfiles.unpublished (hpublished ▸ h)
  · exact hfiles.published path (hpublished ▸ h)

theorem finishedJob_idle {outcome : Except DownloadError FilePath} (h : job.isActive) :
    (finishedJob outcome closing job).isActive = false := by
  have hstatus : job.status ≠ .complete := fun hcomplete => by
    rw [DownloadJob.isActive, hcomplete] at h
    cases h
  unfold finishedJob
  rw [if_neg hstatus]
  cases outcome with
  | ok path => rfl
  | error error =>
    dsimp only
    split_ifs <;> rfl

theorem finishedJob_ok (h : job.isActive) : finishedJob (.ok path) closing job =
      { job with path := some path, status := .complete, error := none, candidate := none } := by
  refine if_neg fun hcomplete => ?_
  rw [DownloadJob.isActive, hcomplete] at h
  cases h

theorem ne_publishing_of_idle (h : job.isActive = false) :
    job.status ≠ .publishing := fun hstatus => by
  rw [DownloadJob.isActive, hstatus] at h
  cases h

theorem published_unique (hd : Durable q.jobs q.updates q.stored q.log)
    (h : q.toProfile.TraceableAt E t.id) (hjob : q.jobs.lookup t.id = some job)
    (hactive : job.isActive) {path' : FilePath} {content' : Content}
    (hpub : q.toProfile.Published t.id path content)
    (hpub' : q.toProfile.Published t.id path' content') : path' = path := by
  obtain ⟨-, stored, hstored, hcases⟩ := h.published path content hpub
  obtain ⟨-, stored', hstored', hcases'⟩ := h.published path' content' hpub'
  cases hstored.symm.trans hstored'
  have hagree := hd.agree t.id
  rw [hjob, hstored, Option.map_some, Option.map_some, Option.some.injEq] at hagree
  have hstatus : job.lasting.status = stored.lasting.status := congrArg _ hagree
  have hstored : stored.isActive := by
    change job.status = stored.status at hstatus
    rw [DownloadJob.isActive, ← hstatus]
    exact hactive
  rcases hcases with ⟨-, hcandidate⟩ | ⟨hidle, -⟩
  · rcases hcases' with ⟨-, hcandidate'⟩ | ⟨hidle', -⟩
    · exact congrArg PublishCandidate.path (Option.some.inj (hcandidate'.symm.trans hcandidate))
    · rw [hidle'] at hstored
      cases hstored
  · rw [hidle] at hstored
    cases hstored

theorem record_traceable (hs : (World.running q).Sound) (h : (World.running q).Traceable E)
    (ht : q.tasks[n]? = some t) (hphase : t.phase = .recording transfer cleanup closing)
    (hclean : saved → ∀ path error, transfer = .ok path → cleanup ≠ some error) :
    (World.running (q.record n t transfer cleanup closing saved)).Traceable E := by
  obtain ⟨hc, hd⟩ := hs
  have hlive : t.phase.isLive := hphase ▸ rfl
  have hfiles := h.2 n t ht hlive
  have hunrecorded : (World.running (q.advance n .releasing)).Traceable E :=
    traceable_of_advance _ hc h ht hlive rfl rfl fun hlive => by cases hlive
  unfold Running.record Running.update
  cases hjob : q.jobs.lookup t.id with
  | none => exact hunrecorded
  | some job =>
    cases saved with
    | false => exact hunrecorded
    | true =>
      have hactive := hc.active n t.id job ⟨t, ht, rfl, hlive⟩ hjob
      have hid : (finishedJob (Running.outcome transfer cleanup) closing job).id = t.id :=
        (finishedJob_same _ _ _).1.trans (hc.ids t.id job hjob)
      have hidle : (finishedJob (Running.outcome transfer cleanup) closing job).isActive = false :=
        finishedJob_idle hactive
      have hstored : (q.toProfile.save (finishedJob (Running.outcome transfer cleanup) closing
          job)).stored.lookup t.id = some (finishedJob (Running.outcome transfer cleanup) closing
            job) := by
        rw [lookup_save, if_pos hid.symm]
      change (World.running ((q.settle t.id (finishedJob (Running.outcome transfer cleanup) closing
        job)).advance n .releasing)).Traceable E
      refine traceable_of_taskStep _ hc h ht hlive rfl
        (fun id hne => sameFor_settle fun heq => hne (heq.trans hid))
        ⟨(h.1 t.id).numbered, fun path content hpub => ⟨((h.1 t.id).published path content hpub).1,
          _, hstored, .inr ⟨hidle, ?_⟩⟩, fun job' hjob' hstatus => ?_⟩ fun hlive => by cases hlive
      · cases transfer with
        | error error => exact absurd hpub (hfiles.unpublished (hphase ▸ rfl) path content)
        | ok path' =>
          obtain ⟨content', hpub'⟩ := hfiles.published path' (hphase ▸ rfl)
          obtain rfl := published_unique hd (h.1 t.id) hjob hactive hpub hpub'
          cases cleanup with
          | some error => exact absurd rfl (hclean rfl path' error rfl)
          | none => rw [Running.outcome, finishedJob_ok hactive]
      · cases hstored.symm.trans hjob'
        exact absurd hstatus (ne_publishing_of_idle hidle)

/-- A step that leaves storage and files alone and the tasks in their phases. -/
theorem traceable_of_same (h : (World.running q).Traceable E)
    (hsame : ∀ id, SameFor id q.toProfile q'.toProfile)
    (htasks : ∀ (n : ℕ) t', q'.tasks[n]? = some t' →
      ∃ t, q.tasks[n]? = some t ∧ t' = { t with cancelled := t'.cancelled }) :
    (World.running q').Traceable E := by
  refine ⟨fun id => (hsame id).traceableAt (h.1 id), fun n t' ht' hlive => ?_⟩
  obtain ⟨t, ht, heq⟩ := htasks n t' ht'
  rw [heq] at hlive ⊢
  obtain ⟨hearly, hmeasured, hjournalled, hunpublished, hpublished⟩ :=
    (hsame t.id).taskFiles (h.2 n t ht hlive)
  exact ⟨hearly, hmeasured, hjournalled, hunpublished, hpublished⟩

theorem report_traceable {bytes : ℕ} {total : Option ℕ} (h : (World.running q).Traceable E) :
    (World.running (q.report t bytes total)).Traceable E := by
  unfold Running.report
  cases q.jobs.lookup t.id with
  | none =>
    exact traceable_of_same h (fun id => ⟨fun _ _ _ => Iff.rfl, rfl, rfl, rfl, rfl⟩)
      fun n t' ht' => ⟨t', ht', rfl⟩
  | some job =>
    exact traceable_of_same h (fun id => ⟨fun _ _ _ => Iff.rfl, rfl, rfl, rfl, rfl⟩)
      fun n t' ht' => ⟨t', ht', rfl⟩

theorem write_traceable (hc : Consistent q.jobs q.tasks) (h : (World.running q).Traceable E)
    (ht : q.tasks[n]? = some t) (hphase : t.phase = .transferring true) :
    (World.running { q with toProfile := q.toProfile.setPart t.id (some content) }).Traceable E := by
  refine traceable_of_early (.transferring true) hc h ht (hphase ▸ rfl)
    (fun id hne => part_setPart_of_ne hne) ?_ rfl (.inl rfl)
  -- the task stays in its phase
  refine List.ext_getElem? fun m => ?_
  rw [setPhase, List.getElem?_modify]
  by_cases hm : n = m
  · subst hm
    simp [ht, ← hphase]
  · simp [hm]

theorem release_traceable (h : (World.running q).Traceable E) (ht : q.tasks[n]? = some t) :
    (World.running (q.release n t)).Traceable E := by
  refine ⟨h.1, fun m t' ht' hlive => ?_⟩
  change (setPhase q.tasks n .finished)[m]? = some t' at ht'
  by_cases hm : m = n
  · subst hm
    rw [setPhase, List.getElem?_modify_eq, ht] at ht'
    cases ht'
    cases hlive
  · rw [setPhase, List.getElem?_modify_ne _ _ (Ne.symm hm)] at ht'
    exact h.2 m t' ht' hlive

/-- A new attempt at a job that no live task works for. -/
theorem spawn_traceable (h : (World.running q).Traceable E) (hid : job.id = id)
    (hstatus : job.status = .queued) (hnone : ∀ m, ¬ TaskAt q.tasks Phase.isLive m id) :
    (World.running ((q.spawn id request).settle id job)).Traceable E := by
  have hother : ∀ id', id' ≠ id →
      SameFor id' q.toProfile ((q.spawn id request).settle id job).toProfile := fun id' hne =>
    ⟨fun _ _ _ => Iff.rfl, rfl, rfl, (lookup_save _ _ _).trans (if_neg fun h => hne (h.trans hid)),
      Function.update_of_ne hne _ _⟩
  have hattempts : ((q.spawn id request).settle id job).attempts id = q.attempts id + 1 :=
    Function.update_self ..
  have hstored : ((q.spawn id request).settle id job).stored.lookup id = some job :=
    (lookup_save _ _ _).trans (if_pos hid.symm)
  -- the files of the job are those of earlier attempts
  have hunpublished : ((q.spawn id request).settle id job).toProfile.Unpublished id := by
    intro path content hpub
    have hnumber := (h.1 id).numbered path _ content hpub
    change ((q.spawn id request).settle id job).attempts id ≤ q.attempts id at hnumber
    omega
  have hstatus' : ∀ job', ((q.spawn id request).settle id job).stored.lookup id = some job' →
      job'.status ≠ .publishing := by
    intro job' hjob' hpublishing
    cases hstored.symm.trans hjob'
    rw [hstatus] at hpublishing
    cases hpublishing
  refine ⟨fun id' => ?_, fun m t' ht' hlive => ?_⟩
  · by_cases hne : id' = id
    · subst hne
      refine ⟨fun path k content hfile => ?_, fun path content hpub =>
        absurd hpub (hunpublished path content), fun job' hjob' hpublishing =>
        absurd hpublishing (hstatus' job' hjob')⟩
      have hnumber := (h.1 id').numbered path k content hfile
      rw [hattempts]
      omega
    · exact (hother id' hne).traceableAt (h.1 id')
  · change (q.tasks ++ [⟨id, request, false, .waiting⟩])[m]? = some t' at ht'
    rcases Nat.lt_or_ge m q.tasks.length with hm | hm
    · rw [List.getElem?_append_left hm] at ht'
      have hne : t'.id ≠ id := fun hid => hnone m ⟨t', ht', hid, hlive⟩
      exact (hother t'.id hne).taskFiles (h.2 m t' ht' hlive)
    · rw [List.getElem?_append_right hm, List.getElem?_singleton] at ht'
      split_ifs at ht'
      cases ht'
      exact ⟨fun _ => hstatus', fun _ h => (by cases h), fun _ _ h => (by cases h),
        fun _ => hunpublished, fun _ h => (by cases h)⟩

theorem signal_traceable (attempts : List ℕ) {closed : Bool} (h : (World.running q).Traceable E) :
    (World.running (attempts.foldl Running.signal { q with closed := closed })).Traceable E := by
  refine traceable_of_same h (fun id => ?_) fun m t' ht' => ?_
  · rw [Running.foldl_signal_eq]
    exact .refl _ id
  · rw [Running.foldl_signal_getElem?] at ht'
    obtain ⟨t, ht, rfl⟩ := Option.map_eq_some_iff.mp ht'
    exact ⟨t, ht, rfl⟩

end Steps

/-! ### Steps of the system -/

/-- Whether a task that published its file and failed to clean up is about to record the failure. -/
def Phase.hidesPublication : Phase → Bool
  | .recording (.ok _) (some _) _ => true
  | _ => false

/-- The final update of a task is not saved if the task published its file and failed to clean up;
drawn identifiers are fresh. -/
def CleanPublication : World ρ → Act ρ → Prop
  | .running q, .task n (.proceed true) =>
    ∀ t, q.tasks[n]? = some t → t.phase.hidesPublication = false
  | w, a => FreshIds w a

theorem freshIds_of_cleanPublication {w : World ρ} {a : Act ρ} (h : CleanPublication w a) :
    FreshIds w a := by
  cases w with
  | down p => cases a <;> trivial
  | running q =>
    cases a with
    | enqueue => exact h
    | retry => trivial
    | cancel => trivial
    | close => trivial
    | task => trivial
    | crash => trivial
    | reopen => trivial
    | userFile => trivial

section System

variable {E : Environment ρ} {q : Running ρ} {n : ℕ} {t : Task ρ} {w : World ρ}

theorem taskStep_traceable {move : Move} (hs : (World.running q).Sound)
    (h : (World.running q).Traceable E) (ht : q.tasks[n]? = some t)
    (hclean : CleanPublication (.running q) (.task n move))
    (hstep : q.taskStep E n t t.phase move = some w) : w.Traceable E := by
  have hc := hs.1
  unfold Running.taskStep at hstep
  split at hstep
  all_goals rename_i hphase
  case h_1 =>
    obtain ⟨q', hq', rfl⟩ := Option.map_eq_some_iff.mp hstep
    exact acquire_traceable hc h ht hphase hq'
  case h_2 =>
    cases hstep
    exact start_traceable hc h ht hphase
  case h_3 =>
    cases hstep
    exact prepare_traceable hc h ht hphase
  case h_4 =>
    cases hstep
    exact begin_traceable hc h ht hphase
  case h_5 =>
    cases hstep
    exact stage_traceable hc h ht hphase
  case h_6 =>
    cases hstep
    exact write_traceable hc h ht hphase
  case h_7 =>
    cases hstep
    exact report_traceable h
  case h_8 =>
    cases hstep
    exact traceable_of_failure hc h ht (hphase ▸ rfl) (hphase ▸ rfl)
  case h_9 =>
    split_ifs at hstep
    cases hstep
    exact traceable_of_failure hc h ht (hphase ▸ rfl) (hphase ▸ rfl)
  case h_10 =>
    cases hstep
    exact journal_traceable hc h ht hphase
  case h_11 =>
    cases hstep
    exact moveFile_traceable hc h ht hphase
  case h_12 =>
    cases hstep
    exact discard_traceable hc h ht hphase
  case h_13 =>
    cases hstep
    exact clean_traceable hc h ht hphase
  case h_14 =>
    cases hstep
    exact read_traceable hc h ht hphase
  case h_15 transfer cleanup closing saved =>
    cases hstep
    refine record_traceable hs h ht hphase fun hsaved path error htransfer hcleanup => ?_
    subst hsaved htransfer hcleanup
    have hhides := hclean t ht
    rw [hphase] at hhides
    cases hhides
  case h_16 =>
    cases hstep
    exact release_traceable h ht
  case h_17 => cases hstep

theorem enqueue_traceable [DecidableEq ρ] (hc : Consistent q.jobs q.tasks)
    (h : (World.running q).Traceable E) (hfresh : q.jobs.lookup id = none) :
    (World.running (q.enqueue id request saved).2).Traceable E := by
  unfold Running.enqueue
  dsimp only
  split_ifs
  · exact h
  · exact h
  · exact h
  · refine spawn_traceable h rfl rfl fun m hm => ?_
    obtain ⟨t, ht, hid, -⟩ := hm
    have hknown := hc.known m id ⟨t, ht, hid, rfl⟩
    rw [hfresh] at hknown
    cases hknown

theorem retry_traceable [DecidableEq ρ] (hc : Consistent q.jobs q.tasks)
    (h : (World.running q).Traceable E) :
    (World.running (q.retry id request saved).2).Traceable E := by
  unfold Running.retry
  by_cases hclosed : q.closed
  · rw [if_pos hclosed]
    exact h
  rw [if_neg hclosed]
  cases hjob : q.jobs.lookup id with
  | none => exact h
  | some job =>
    dsimp only
    split_ifs with hrefused
    · exact h
    · exact h
    · exact h
    · have hstatus := not_not.mp (not_or.mp hrefused).1
      have hidle : job.isActive = false := by
        rcases hstatus with hstatus | hstatus <;> rw [DownloadJob.isActive, hstatus]
      exact spawn_traceable h (hc.ids id job hjob) rfl (hc.not_live hjob hidle)

theorem cancel_traceable (h : (World.running q).Traceable E) :
    (World.running (q.cancel id)).Traceable E := by
  unfold Running.cancel
  split
  · split_ifs
    · split
      · exact signal_traceable [_] h
      · exact h
    · exact h
  · exact h

theorem sameFor_userFile (hfree : p.files path = none) (id : String) :
    SameFor id p { p with files := Function.update p.files path (some ⟨none, content⟩) } := by
  refine ⟨fun path' k content' => ?_, rfl, rfl, rfl, rfl⟩
  change Function.update p.files path (some ⟨none, content⟩) path' = _ ↔ _
  rw [Function.update_apply]
  split_ifs with hpath
  · rw [hpath, hfree]
    constructor
    · intro heq
      cases heq
    · intro heq
      cases heq
  · exact Iff.rfl

end System

end Qbutt.Download
