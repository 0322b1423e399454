import Qbutt.Download.Equiv.Publication

/-!
# Publication and recovery

A download ends with the final update of its task, or with the recovery that follows its session.
`publication_and_recovery_agree` shows that in both cases the record of the job agrees with the file,
except where a failed clean-up is recorded over a publication
(`failed_cleanup_hides_publication`).
-/

namespace Qbutt.Download

variable {ρ : Type}

open Profile

namespace Profile

variable {E : Environment ρ} {p p₀ p' : Profile ρ} {id : String} {job old r : DownloadJob ρ}

/-- A file that the current attempt of the job did not publish stands at the path, with the size and
the digest of the content. -/
def StoodBefore (E : Environment ρ) (p : Profile ρ) (id : String) (path : FilePath)
    (content : Content) : Prop :=
  ∃ file, p.files path = some file ∧ file.owner ≠ some (id, p.attempts id) ∧
    file.content.length = content.length ∧ E.sha256 file.content = E.sha256 content

/-- The record of a job whose download has ended says what became of its file. -/
structure Agrees (E : Environment ρ) (p : Profile ρ) (id : String) (job : DownloadJob ρ) :
    Prop where
  complete : ∀ path content, p.Published id path content →
    p.staged id = some content ∧ job.status = .complete ∧ job.path = some path
  published : job.status = .complete → ∃ path content, job.path = some path ∧
    p.staged id = some content ∧ (p.Published id path content ∨ p.StoodBefore E id path content)

theorem Agrees.congr (h : p.Agrees E id job) (hfiles : p'.files = p.files)
    (hattempts : p'.attempts = p.attempts) (hstaged : p'.staged = p.staged) :
    p'.Agrees E id job := by
  obtain ⟨hcomplete, hpublished⟩ := h
  refine ⟨fun path content hpub => ?_, fun hstatus => ?_⟩
  · rw [Published, hfiles, hattempts] at hpub
    rw [hstaged]
    exact hcomplete path content hpub
  · rw [hstaged]
    simp only [Published, StoodBefore, hfiles, hattempts]
    exact hpublished hstatus

theorem recoveredJob_error {completed isFile : Bool} (hstatus : old.status ≠ .publishing)
    (hactive : old.isActive) : (recoveredJob old completed isFile).status = .error := by
  unfold recoveredJob
  dsimp only
  rw [if_neg hstatus, if_pos hactive]

theorem recoveredJob_publishing {completed : Bool} (isFile : Bool) (hstatus : old.status = .publishing) :
    ((recoveredJob old completed isFile).status = .complete ↔ completed = true) ∧
      (completed = true →
        (recoveredJob old completed isFile).path = old.candidate.map PublishCandidate.path) := by
  unfold recoveredJob
  dsimp only
  rw [if_pos hstatus]
  cases completed with
  | false => exact ⟨⟨fun h => (by cases h), fun h => (by cases h)⟩, fun h => (by cases h)⟩
  | true => exact ⟨⟨fun _ => rfl, fun _ => rfl⟩, fun _ => rfl⟩

theorem RecoveredAs.isActive (h : RecoveredAs E p old r) : r.isActive = false := by
  obtain ⟨completed, isFile, rfl, -⟩ := h
  exact recoveredJob_isActive old completed isFile

theorem RecoveredAs.path (h : RecoveredAs E p old r) (hidle : old.isActive = false) :
    r.path = old.path := by
  obtain ⟨completed, isFile, rfl, -⟩ := h
  unfold recoveredJob
  dsimp only
  rw [if_neg (ne_publishing_of_idle hidle), if_neg (Bool.eq_false_iff.mp hidle)]
  split_ifs <;> rfl

theorem TraceableAt.verified (h : p.TraceableAt E id) (hold : p.stored.lookup id = some old)
    (hactive : old.isActive) {path : FilePath} {content : Content}
    (hpub : p.Published id path content) : old.status = .publishing ∧ Verified E p old ∧
      old.candidate = some ⟨path, content.length, E.sha256 content⟩ := by
  obtain ⟨-, job, hjob, hcases⟩ := h.published path content hpub
  cases hold.symm.trans hjob
  rcases hcases with ⟨hstatus, hcandidate⟩ | ⟨hidle, -⟩
  · obtain ⟨candidate, _, hcandidate', hparent, -⟩ := h.candidate old hold hstatus
    cases hcandidate.symm.trans hcandidate'
    exact ⟨hstatus, ⟨_, _, hcandidate, hparent, hpub, rfl, rfl⟩, hcandidate⟩
  · rw [hidle] at hactive
    cases hactive

theorem TraceableAt.agrees (h : p.TraceableAt E id) (hold : p.stored.lookup id = some old)
    (hactive : old.isActive) (hr : RecoveredAs E p old r) : p.Agrees E id r := by
  obtain ⟨completed, isFile, rfl, hcompleted, -⟩ := hr
  refine ⟨fun path content hpub => ?_, fun hcomplete => ?_⟩
  · obtain ⟨hstatus, hverified, hcandidate⟩ := h.verified hold hactive hpub
    have htrue := (hcompleted hstatus).mpr hverified
    obtain ⟨hiff, hpath⟩ := recoveredJob_publishing isFile hstatus
    refine ⟨(h.published path content hpub).1, hiff.mpr htrue, ?_⟩
    rw [hpath htrue, hcandidate]
    rfl
  · by_cases hstatus : old.status = .publishing
    · obtain ⟨hiff, hpath⟩ := recoveredJob_publishing isFile hstatus
      have htrue := hiff.mp hcomplete
      obtain ⟨candidate, file, hcandidate, -, hfile, hlength, hsha⟩ := (hcompleted hstatus).mp htrue
      obtain ⟨_, content, hcandidate', -, hstaged, hsize, hdigest⟩ := h.candidate old hold hstatus
      cases hcandidate.symm.trans hcandidate'
      refine ⟨candidate.path, content, ?_, hstaged, ?_⟩
      · rw [hpath htrue, hcandidate]
        rfl
      · by_cases howner : file.owner = some (id, p.attempts id)
        · left
          have hpub : p.Published id candidate.path file.content := by
            rw [Published, hfile, ← howner]
          cases hstaged.symm.trans (h.published _ _ hpub).1
          exact hpub
        · exact .inr ⟨file, hfile, howner, hlength.trans hsize, hsha.trans hdigest⟩
    · rw [recoveredJob_error hstatus hactive] at hcomplete
      cases hcomplete

/-- How far a recovery of `p₀` has come. -/
structure Resumed (E : Environment ρ) (p₀ p : Profile ρ) : Prop where
  ids : ∀ id job, p.stored.lookup id = some job → job.id = id
  files : p.files = p₀.files
  attempts : p.attempts = p₀.attempts
  staged : p.staged = p₀.staged
  stored : ∀ id, p.stored.lookup id = p₀.stored.lookup id ∨ ∃ old r,
    p₀.stored.lookup id = some old ∧ RecoveredAs E p₀ old r ∧ p.stored.lookup id = some r

theorem keeps_recover_resumed (hids : ∀ id job, p₀.stored.lookup id = some job → job.id = id) :
    p₀.Resumed E p₀ ∧ Prog.Keeps (Resumed E p₀) (· = p₀) (recover E) fun jobs =>
      Recovering E p₀ [] jobs := by
  refine ⟨⟨hids, rfl, rfl, rfl, fun _ => .inl rfl⟩, keeps_recover (fun p h => h.ids)
    (fun p id s h _ => { h with })
    fun p job r h hold hjob hr => ?_⟩
  have hid : r.id = job.id := by
    obtain ⟨completed, isFile, rfl, -⟩ := hr
    exact recoveredJob_id job completed isFile
  refine ⟨fun id job' hjob' => ?_, h.files, h.attempts, h.staged, fun id => ?_⟩
  · rw [lookup_save] at hjob'
    split_ifs at hjob' with heq
    · cases hjob'
      exact heq.symm
    · exact h.ids id job' hjob'
  · rw [lookup_save]
    split_ifs with heq
    · rw [heq, hid]
      exact .inr ⟨job, r, hold, hr.congr h.files, rfl⟩
    · exact h.stored id

theorem Resumed.traceableAt (h : p₀.Resumed E p) (hp : p₀.TraceableAt E id) :
    p.TraceableAt E id := by
  have hpub : ∀ {path content}, p.Published id path content → p₀.Published id path content := by
    intro path content hpub
    rwa [Published, h.files, h.attempts] at hpub
  refine ⟨fun path n content hfile => ?_, fun path content hpub' => ?_, fun job hjob hstatus => ?_⟩
  · rw [h.attempts]
    exact hp.numbered path n content (h.files ▸ hfile)
  · obtain ⟨hstaged, job, hjob, hcases⟩ := hp.published path content (hpub hpub')
    rw [h.staged]
    refine ⟨hstaged, ?_⟩
    rcases h.stored id with hsame | ⟨old, r, hold, hr, hlookup⟩
    · rw [hsame]
      exact ⟨job, hjob, hcases⟩
    · obtain rfl := Option.some.inj (hold.symm.trans hjob)
      refine ⟨r, hlookup, .inr ?_⟩
      refine ⟨hr.isActive, ?_⟩
      by_cases hactive : old.isActive
      · exact ((hp.agrees hold hactive hr).complete path content (hpub hpub')).2.2
      · rcases hcases with ⟨hstatus, -⟩ | ⟨hidle, hpath⟩
        · rw [DownloadJob.isActive, hstatus] at hactive
          exact absurd rfl hactive
        · exact (hr.path hidle).trans hpath
  · rw [h.staged]
    rcases h.stored id with hsame | ⟨old, r, hold, hr, hlookup⟩
    · exact hp.candidate job (hsame ▸ hjob) hstatus
    · cases hlookup.symm.trans hjob
      exact absurd hstatus (ne_publishing_of_idle hr.isActive)

end Profile

section Runs

variable [DecidableEq ρ] {E : Environment ρ} {w w' : World ρ} {a : Act ρ}

/-- What `open_with_client` does, whether or not it succeeds. -/
theorem reopen_cases {p : Profile ρ} {script : List Fate}
    (hids : ∀ id job, p.stored.lookup id = some job → job.id = id)
    (h : step E (.down p) (.reopen script) = some w') :
    ∃ p', p.Resumed E p' ∧ (w' = .down p' ∨
      ∃ jobs, Recovering E p [] jobs p' ∧ w' = .running (Running.opened p' jobs)) := by
  obtain ⟨hstart, hkeeps⟩ := keeps_recover_resumed (E := E) hids
  obtain ⟨-, hI, hjobs⟩ := hkeeps ⟨p, script, []⟩ (by simp) hstart rfl
  unfold step at h
  dsimp only at h
  split at h
  all_goals
    rename_i hrun
    rw [hrun] at hI hjobs
    cases h
  · exact ⟨_, hI, .inr ⟨_, hjobs _ rfl, rfl⟩⟩
  · exact ⟨_, hI, .inl rfl⟩

theorem step_traceable (hs : w.Sound) (hw : w.Traceable E) (ha : CleanPublication w a)
    (h : step E w a = some w') : w'.Traceable E := by
  cases w with
  | down p =>
    obtain ⟨script, rfl⟩ | ⟨path, content, hfree, rfl⟩ := step_of_down h
    · obtain ⟨p', hp', rfl | ⟨jobs, -, rfl⟩⟩ := reopen_cases hs.ids h
      · exact fun id => hp'.traceableAt (hw id)
      · refine ⟨fun id => ?_, fun m t ht => by cases ht⟩
        obtain ⟨hnumbered, hpublished, hcandidate⟩ := hp'.traceableAt (hw id)
        exact ⟨hnumbered, hpublished, hcandidate⟩
    · exact fun id => (sameFor_userFile hfree id).traceableAt (hw id)
  | running q =>
    have hc := hs.1
    cases a with
    | enqueue id request saved =>
      cases h
      exact enqueue_traceable hc hw ha
    | retry id request saved =>
      cases h
      exact retry_traceable hc hw
    | cancel id =>
      cases h
      exact cancel_traceable hw
    | close =>
      cases h
      exact signal_traceable _ hw
    | task n move =>
      unfold step at h
      dsimp only at h
      split at h
      · rename_i t ht
        exact taskStep_traceable hs hw ht ha h
      · cases h
    | crash =>
      cases h
      exact hw.1
    | userFile path content =>
      simp only [step] at h
      split_ifs at h with hfree
      cases h
      exact traceable_of_same hw (sameFor_userFile hfree) fun n t ht => ⟨t, ht, rfl⟩
    | reopen => cases h

/-- Profiles on which the queue is opened for the first time: nothing is stored, and the files are
those of the user. -/
def Blank (p : Profile ρ) : Prop :=
  p.stored = ∅ ∧ p.log = [] ∧ ∀ path file, p.files path = some file → file.owner = none

theorem traceable_of_reachable (h : (queueSystem E Blank).Reachable CleanPublication w) :
    w.Sound ∧ w.Traceable E := by
  refine h.invariant (I := fun w => w.Sound ∧ w.Traceable E) ?_ fun w a w' hw ha hs =>
    ⟨step_sound hw.1 (freshIds_of_cleanPublication ha) hs, step_traceable hw.1 hw.2 ha hs⟩
  rintro _ ⟨p, rfl, hstored, hlog, hfiles⟩
  have hnone : ∀ id job, p.stored.lookup id ≠ some job := fun id job hjob => by
    rw [hstored] at hjob
    cases hjob
  have hforeign : ∀ path id n content, p.files path ≠ some ⟨some (id, n), content⟩ :=
    fun path id n content hfile => by cases hfiles path _ hfile
  refine ⟨⟨fun id job hjob => absurd hjob (hnone id job), fun id => ?_, ?_⟩, fun id =>
    ⟨fun path n content hfile => absurd hfile (hforeign path id n content),
      fun path content hpub => absurd hpub (hforeign path id _ content),
      fun job hjob => absurd hjob (hnone id job)⟩⟩
  · rw [hstored, hlog]
    rfl
  · rw [hlog]
    trivial

/-! ### The end of a download -/

/-- A job as the queue knows it, or the storage between two sessions. -/
def World.job : World ρ → String → Option (DownloadJob ρ)
  | .down p, id => p.stored.lookup id
  | .running q, id => q.jobs.lookup id

def Ends (w w' : World ρ) (id : String) (job : DownloadJob ρ) : Prop :=
  (∃ old, w.job id = some old ∧ old.isActive) ∧ w'.job id = some job ∧ job.isActive = false

variable {job : DownloadJob ρ}

variable {may : Ledger ρ → Act ρ → Prop} {id : String}

omit [DecidableEq ρ] in
/-- Inside of a session a download ends with the final update of its task. -/
theorem Ledger.Evolves.ended {l l' : Ledger ρ} (hstep : Ledger.Evolves may l l')
    {old : DownloadJob ρ} (hold : l.jobs.lookup id = some old) (hactive : old.isActive)
    (hjob : l'.jobs.lookup id = some job) (hidle : job.isActive = false) :
    l'.files = l.files ∧ l'.attempts = l.attempts ∧
      ∃ (n : ℕ) (t : Task ρ) (transfer : Except DownloadError FilePath)
        (cleanup : Option DownloadError) (closing : Bool),
        l.tasks[n]? = some t ∧ t.id = id ∧ t.phase = .recording transfer cleanup closing ∧
        job = finishedJob (Running.outcome transfer cleanup) closing old ∧
        may l (.task n (.proceed true)) := by
  have hsame : l'.jobs.lookup id = l.jobs.lookup id → False := fun hsame => by
    cases hold.symm.trans (hsame.symm.trans hjob)
    rw [hidle] at hactive
    cases hactive
  -- an entry for `id'` by an active job leaves `id` active
  have hinsert : ∀ {id' : String} {job' : DownloadJob ρ},
      (l.jobs.insert id' job').lookup id = some job → ¬ job'.isActive := by
    intro id' job' hlookup hactive'
    rw [Table.lookup_insert_eq] at hlookup
    split_ifs at hlookup
    · cases hlookup
      rw [hidle] at hactive'
      cases hactive'
    · cases hold.symm.trans hlookup
      rw [hidle] at hactive
      cases hactive
  cases hstep with
  | idle => exact absurd rfl hsame
  | filed hfiles => exact absurd rfl hsame
  | republished => exact absurd rfl hsame
  | signalled hclosed htasks => exact absurd rfl hsame
  | inside ht hlive hphase hfiles => exact absurd rfl hsame
  | reported ht hlive hlookup =>
    rename_i n t job' bytes total
    by_cases hid : id = t.id
    · subst hid
      cases hold.symm.trans hlookup
      have hstill : DownloadJob.isActive { old with bytes := bytes, totalBytes := total } := hactive
      exact absurd hstill (hinsert hjob)
    · exact absurd ((Table.lookup_insert_eq ..).trans (if_neg hid)) hsame
  | settled ht hlive hlookup hid horigin hphase hactive' => exact absurd hactive' (hinsert hjob)
  | recorded ht hlive hlookup hid horigin hrecord hmay =>
    rename_i n t job' recorded
    by_cases hid : id = t.id
    · subst hid
      cases hold.symm.trans hlookup
      cases ((AList.lookup_insert _).symm.trans hjob :)
      obtain ⟨transfer, cleanup, closing, hphase, heq⟩ := hrecord
      exact ⟨rfl, rfl, n, t, transfer, cleanup, closing, ht, rfl, hphase, heq, hmay⟩
    · exact absurd ((Table.lookup_insert_eq ..).trans (if_neg hid)) hsame
  | unrecorded ht hlive => exact absurd rfl hsame
  | released ht hphase => exact absurd rfl hsame
  | enqueued hopen hfresh hfree => exact absurd rfl (hinsert hjob)
  | retried hopen hlookup hstatus hfree hmay => exact absurd rfl (hinsert hjob)

omit [DecidableEq ρ] in
theorem Ledger.Evolves.extends {l l' : Ledger ρ} (hstep : Ledger.Evolves may l l') :
    Ledger.Extends l.files l'.files := by
  cases hstep with
  | filed hfiles => exact hfiles
  | inside ht hlive hphase hfiles => exact hfiles
  | _ => exact fun path file hfile => hfile

/-- The saved final update of a task without a hidden publication. -/
def Ledger.MayRecord (l : Ledger ρ) (a : Act ρ) : Prop :=
  ∀ (n : ℕ) t, a = .task n (.proceed true) → l.tasks[n]? = some t →
    t.phase.hidesPublication = false

omit [DecidableEq ρ] in
theorem finishedJob_error {error : DownloadError} {closing : Bool} (h : job.isActive) :
    (finishedJob (.error error) closing job).status ≠ .complete := by
  have hstatus : job.status ≠ .complete := fun hcomplete => by
    rw [DownloadJob.isActive, hcomplete] at h
    cases h
  unfold finishedJob
  rw [if_neg hstatus]
  dsimp only
  split_ifs
  all_goals exact fun h => by cases h

/-- A download that ends inside of a session agrees with its file. -/
theorem agrees_of_ended {q q' : Running ρ} (hs : (World.running q).Sound)
    (hw : (World.running q).Traceable E) (ha : CleanPublication (.running q) a)
    (h : step E (.running q) a = some (.running q'))
    (hends : Ends (.running q) (.running q') id job) : q'.toProfile.Agrees E id job := by
  obtain ⟨⟨old, hold, hactive⟩, hjob, hidle⟩ := hends
  have hmay : ∀ n, a = .task n (.proceed true) → q.ledger.MayRecord a := by
    rintro n rfl m t heq ht
    cases heq
    exact ha t ht
  have hstep : q.ledger.Evolves (fun l a => (∃ n, a = .task n (.proceed true)) → l.MayRecord a)
      q'.ledger :=
    step_evolves (freshIds_of_cleanPublication ha)
      (fun id request heq _ ⟨n, heq'⟩ => by rw [heq] at heq'; cases heq')
      (fun n heq _ => hmay n heq) h
  obtain ⟨hfiles, hattempts, n, t, transfer, cleanup, closing, ht, rfl, hphase, rfl, hrecord⟩ :=
    hstep.ended hold hactive hjob hidle
  have hlive : t.phase.isLive := hphase ▸ rfl
  have hclean : ∀ path error, transfer = .ok path → cleanup ≠ some error := by
    rintro path error rfl rfl
    have hhides := hrecord ⟨n, rfl⟩ n t rfl ht
    rw [hphase] at hhides
    cases hhides
  have hpublished : ∀ {path content}, q'.toProfile.Published t.id path content ↔
      q.toProfile.Published t.id path content := by
    intro path content
    change q'.files path = some ⟨some (t.id, q'.attempts t.id), content⟩ ↔ _
    rw [show q'.files = q.files from hfiles, show q'.attempts = q.attempts from hattempts]
    exact Iff.rfl
  have hstaged := ((step_traceable hs hw ha h).1 t.id).published
  have htask := hw.2 n t ht hlive
  cases transfer with
  | error error =>
    have hoffered : Running.outcome (.error error) cleanup = .error (cleanup.getD error) := by
      cases cleanup <;> rfl
    refine ⟨fun path content hpub => ?_, fun hcomplete => ?_⟩
    · exact absurd (hpublished.mp hpub) (htask.unpublished (hphase ▸ rfl) path content)
    · rw [hoffered] at hcomplete
      exact absurd hcomplete (finishedJob_error hactive)
  | ok path' =>
    obtain ⟨content', hpub'⟩ := htask.published path' (hphase ▸ rfl)
    cases cleanup with
    | some error => exact absurd rfl (hclean path' error rfl)
    | none =>
      rw [Running.outcome, finishedJob_ok hactive]
      refine ⟨fun path content hpub => ⟨(hstaged path content hpub).1, rfl, ?_⟩, fun _ =>
        ⟨path', content', rfl, (hstaged _ _ (hpublished.mpr hpub')).1, .inl (hpublished.mpr hpub')⟩⟩
      exact congrArg some (published_unique hs.2 (hw.1 t.id) hold hactive (hpublished.mp hpub) hpub')

omit [DecidableEq ρ] in
theorem Durable.isActive {q : Running ρ} (hd : Durable q.jobs q.updates q.stored q.log)
    {old : DownloadJob ρ} (hold : q.jobs.lookup id = some old)
    (hjob : q.stored.lookup id = some job) : job.isActive = old.isActive := by
  have hagree := hd.agree id
  rw [hold, hjob, Option.map_some, Option.map_some, Option.some.injEq] at hagree
  have hstatus : old.lasting.status = job.lasting.status := congrArg _ hagree
  change old.status = job.status at hstatus
  rw [DownloadJob.isActive, DownloadJob.isActive, hstatus]

theorem agrees_of_ends (hs : w.Sound) (hw : w.Traceable E) (ha : CleanPublication w a)
    (h : step E w a = some w') (hends : Ends w w' id job) : w'.profile.Agrees E id job := by
  cases w with
  | running q =>
    cases w' with
    | running q' => exact agrees_of_ended hs hw ha h hends
    | down p =>
      -- the end of a session ends no download
      obtain ⟨⟨old, hold, hactive⟩, hjob, hidle⟩ := hends
      obtain ⟨staging, rfl⟩ := step_down h
      rw [hs.2.isActive hold hjob, hactive] at hidle
      cases hidle
  | down p =>
    obtain ⟨⟨old, hold, hactive⟩, hjob, hidle⟩ := hends
    have hstill : p.stored.lookup id ≠ some job := fun hsame => by
      cases hold.symm.trans hsame
      rw [hactive] at hidle
      cases hidle
    obtain ⟨script, rfl⟩ | ⟨path, content, -, rfl⟩ := step_of_down h
    · obtain ⟨p', hp', rfl | ⟨jobs, hrecovering, rfl⟩⟩ := reopen_cases hs.ids h
      · rcases hp'.stored id with hsame | ⟨old', r, hold', hr, hlookup⟩
        · exact absurd (hsame ▸ hjob) hstill
        · cases hold.symm.trans hold'
          cases hlookup.symm.trans hjob
          exact ((hw id).agrees hold hactive hr).congr hp'.files hp'.attempts hp'.staged
      · obtain ⟨hmem, rfl⟩ := (lookup_jobs_opened hrecovering).mp hjob
        obtain ⟨old', hold', hr⟩ := hrecovering.recovered job hmem
        cases hold.symm.trans hold'
        exact ((hw job.id).agrees hold hactive hr).congr hp'.files hp'.attempts hp'.staged
    · exact absurd hjob hstill

/-- No step overwrites or removes a file in the download directory. -/
theorem step_extends (hs : w.Sound) (ha : FreshIds w a) (h : step E w a = some w') :
    Ledger.Extends w.profile.files w'.profile.files := by
  cases w with
  | running q =>
    cases w' with
    | running q' =>
      have hevolves : Ledger.Evolves (fun _ _ => True) q.ledger q'.ledger :=
        step_evolves ha (fun _ _ _ _ => trivial) (fun _ _ => trivial) h
      exact hevolves.extends
    | down p =>
      obtain ⟨staging, rfl⟩ := step_down h
      exact fun path file hfile => hfile
  | down p =>
    obtain ⟨script, rfl⟩ | ⟨path, content, hfree, rfl⟩ := step_of_down h
    · obtain ⟨p', hp', rfl | ⟨jobs, -, rfl⟩⟩ := reopen_cases hs.ids h
      · exact fun path file hfile => hp'.files ▸ hfile
      · exact fun path file hfile => hp'.files ▸ hfile
    · exact Ledger.extends_update hfree _

/-- Along every run in which no failed clean-up is recorded over a publication: no file is
overwritten; a download that ends, in its session or by a later recovery, is recorded as complete at
a path if and only if its file was published there, or a file with its size and digest stood there
before; and after a recovery nothing is left over. -/
theorem publication_and_recovery_agree (h : (queueSystem E Blank).Reachable CleanPublication w)
    (ha : CleanPublication w a) (hstep : step E w a = some w') :
    (∀ path file, w.profile.files path = some file → w'.profile.files path = some file) ∧
      (∀ id job, Ends w w' id job → w'.profile.Agrees E id job) ∧
      ∀ script q, a = .reopen script → w' = .running q →
        ∀ id job, q.jobs.lookup id = some job →
          job.isActive = false ∧ job.candidate = none ∧ q.staging.Clear id := by
  obtain ⟨hs, hw⟩ := traceable_of_reachable h
  refine ⟨step_extends hs (freshIds_of_cleanPublication ha) hstep,
    fun id job hends => agrees_of_ends hs hw ha hstep hends, ?_⟩
  rintro script q rfl rfl id job hjob
  cases w with
  | running q => cases hstep
  | down p =>
    obtain ⟨p', -, hdown | ⟨jobs, hrecovering, hrunning⟩⟩ := reopen_cases hs.ids hstep
    · cases hdown
    · cases hrunning
      obtain ⟨hmem, rfl⟩ := (lookup_jobs_opened hrecovering).mp hjob
      obtain ⟨hidle, hcandidate, hclear, -⟩ := hrecovering.settled job hmem
      exact ⟨hidle, hcandidate, hclear⟩

end Runs

theorem blank_new : Blank (Profile.new : Profile ρ) :=
  ⟨rfl, rfl, fun _ _ h => by cases h⟩

/-- The steps of the first task up to its final update, with the given course of its clean-up. -/
def publishAbc (script : List Fate) : List (Act Unit) :=
  [.task 0 (.proceed true), .task 0 (.proceed true), .task 0 (.proceed true),
    .task 0 (.proceed true), .task 0 (.write [97, 98, 99]), .task 0 (.proceed true),
    .task 0 (.proceed true), .task 0 (.proceed true), .task 0 (.clean script),
    .task 0 (.proceed true)]

/-- The state before the final update. -/
def publishedAbc (script : List Fate) : World Unit :=
  ((queueSystem sampleEnvironment Blank).runAll (.running sampleQueue) (publishAbc script)).getD
    (.down .new)

/-- The state after the final update. -/
def recordedAbc (script : List Fate) : World Unit :=
  (step sampleEnvironment (publishedAbc script) (.task 0 (.proceed true))).getD (.down .new)

/-- The theorem at the final update of a download that went well. -/
theorem publication_and_recovery_agree_sample : ∃ job,
    Ends (publishedAbc []) (recordedAbc []) "a" job ∧
      (recordedAbc []).profile.Agrees sampleEnvironment "a" job := by
  refine ⟨_, ⟨⟨_, rfl, rfl⟩, rfl, rfl⟩, ?_⟩
  refine (publication_and_recovery_agree (a := .task 0 (.proceed true))
    (System.reachable_of_runAll (publishAbc []) (reachable_sampleQueue blank_new
      (fun _ w => by cases w <;> trivial) fun _ _ _ h => h) ?_ rfl) ?_ rfl).2.1 "a" _
    ⟨⟨_, rfl, rfl⟩, rfl, rfl⟩
  · have hsafe : ∀ {q : Running Unit} {t : Task Unit}, q.tasks[0]? = some t →
        t.phase.hidesPublication = false →
        CleanPublication (.running q) (.task 0 (.proceed true)) := by
      intro q t ht hphase t' ht'
      cases ht.symm.trans ht'
      exact hphase
    exact ⟨hsafe rfl rfl, hsafe rfl rfl, hsafe rfl rfl, hsafe rfl rfl, trivial, hsafe rfl rfl,
      hsafe rfl rfl, hsafe rfl rfl, trivial, hsafe rfl rfl, trivial⟩
  · intro t ht
    cases ht
    rfl

/-- Whatever fails, crashes or is recovered in a run of the queue: a file that stands in the download
directory, of the user or of a download, stays as it is. -/
theorem downloads_keep_files [DecidableEq ρ] {E : Environment ρ} {w w' : World ρ}
    (h : (queueSystem E SavedRows).Reachable FreshIds w)
    (hrun : (queueSystem E SavedRows).Steps FreshIds w w') :
    ∀ path file, w.profile.files path = some file → w'.profile.files path = some file := by
  refine (hrun.preserves (P := fun v => v.Sound ∧ Ledger.Extends w.profile.files v.profile.files)
    ?_ ⟨sound_of_reachable h, fun _ _ hfile => hfile⟩).2
  rintro v a v' ⟨hv, hfiles⟩ ha hstep
  exact ⟨step_sound hv ha hstep, fun path file hfile =>
    step_extends hv ha hstep path file (hfiles path file hfile)⟩

/-- A published file at the final update of its download. -/
theorem downloads_keep_files_sample : ∃ file,
    (recordedAbc []).profile.files ["downloads", "Film.mp4"] = some file :=
  ⟨_, downloads_keep_files (E := sampleEnvironment) (w := publishedAbc [])
    (System.reachable_of_runAll (publishAbc []) (reachable_sampleQueue savedRows_new
      (fun _ w => by cases w <;> trivial) fun _ _ _ h => h)
      ⟨trivial, trivial, trivial, trivial, trivial, trivial, trivial, trivial, trivial, trivial,
        trivial⟩ rfl) (.single (a := .task 0 (.proceed true)) trivial rfl) _ _ rfl⟩

/-- The clean-up after a publication fails, and the failure is saved: the file is there, the job is
not complete. -/
theorem failed_cleanup_hides_publication :
    ¬ ∀ w w' : World Unit, ∀ a, (queueSystem sampleEnvironment Blank).Reachable FreshIds w →
      FreshIds w a → step sampleEnvironment w a = some w' →
      ∀ id job, Ends w w' id job → w'.profile.Agrees sampleEnvironment id job := by
  intro hall
  have hpub : (recordedAbc [.fail]).profile.Published "a" ["downloads", "Film.mp4"] [97, 98, 99] :=
    rfl
  obtain ⟨job, hends, hstatus⟩ : ∃ job, Ends (publishedAbc [.fail]) (recordedAbc [.fail]) "a" job ∧
      job.status = .error := ⟨_, ⟨⟨_, rfl, rfl⟩, rfl, rfl⟩, rfl⟩
  have hallowed : ∀ a ∈ publishAbc [.fail], ∀ w, FreshIds w a := by
    intro a ha w
    simp only [publishAbc, List.mem_cons, List.not_mem_nil, or_false] at ha
    rcases ha with rfl | rfl | rfl | rfl | rfl | rfl | rfl | rfl | rfl | rfl <;>
      cases w <;> trivial
  have hreachable : (queueSystem sampleEnvironment Blank).Reachable FreshIds
      (publishedAbc [.fail]) :=
    System.reachable_of_runAll (publishAbc [.fail]) (reachable_sampleQueue blank_new
      (fun _ w => by cases w <;> trivial) fun _ _ _ h => h)
      (System.allowedAll_of_forall hallowed _) rfl
  have hcomplete := ((hall _ _ (.task 0 (.proceed true)) hreachable trivial rfl "a" job
    hends).complete _ _ hpub).2.1
  rw [hstatus] at hcomplete
  cases hcomplete

end Qbutt.Download
