import Qbutt.Staging.Equiv.Ownership

/-!
# Saved journals are read

An operation keeps a journal that matches the target, through all calls and wherever they stop, and
what is saved is the journal of such an operation.  So `load` accepts it and returns that journal
(`journals_agree`).
-/

namespace Qbutt.Staging

open Prog List

variable {γ : Type} {E : Environment γ} {fresh : Fresh γ} {s : Session γ} {disk : Disk γ}
  {journal journal' : Journal} {readable : ℕ → Option (File γ)}
  {world world' : World γ} {script : List Fate}

abbrev Journal.Fits (E : Environment γ) (journal : Journal) : Prop :=
  journal.Matches E.torrent E.layout

/-- What is saved is the journal of an operation. -/
def Disk.Filed (E : Environment γ) (disk : Disk γ) : Prop :=
  ∀ json, disk.saved = some json → ∃ journal : Journal,
    json = journal.toJson ∧ journal.Fits E ∧ journal.state ≠ .planned

/-- The invariant within a call. -/
structure Session.Good (E : Environment γ) (s : Session γ) : Prop where
  fits : s.journal.Fits E
  filed : s.disk.Filed E

/-- The identifier of a new operation comes from `QUuid::createUuid`. -/
def drawsUuid (_ : World γ) (act : Act γ) : Prop :=
  ∀ input script, act = .plan input script → isUuid input.operation

/-! ### Changes of a journal -/

theorem Journal.Fits.withState (h : journal.Fits E) (state : State)
    (hstate : state.requiresVerified = false) : Journal.Fits E { journal with state := state } :=
  { h with verified := fun hrequires => absurd (hstate.symm.trans hrequires) Bool.false_ne_true }

theorem Journal.Fits.follows (h : journal.Fits E) (hfollows : journal.Follows journal') :
    journal'.Fits E := by
  have hsound := h.sound.follows hfollows
  refine ⟨hfollows.version.trans h.version, hfollows.torrent.trans h.torrent, ?_, ?_, ?_, ?_,
    hsound.entries, ?_, hsound.verified⟩
  · rw [hfollows.operation]
    exact h.operation
  · rw [hfollows.identity]
    exact h.identity
  · rcases hfollows.directories with heq | hnew
    · rw [heq]
      exact h.directories
    · exact hnew
  · rw [hfollows.files.map_eq Entry.index fun _ _ => rfl]
    exact h.indexes
  · obtain ⟨entry, hentry, hselected⟩ := h.selected
    have hmap := hfollows.files.map_eq Entry.selected fun _ _ => rfl
    have hmem : entry.selected ∈ journal'.files.map Entry.selected :=
      hmap ▸ mem_map_of_mem hentry
    obtain ⟨entry', hentry', heq⟩ := mem_map.mp hmem
    exact ⟨entry', hentry', heq.trans hselected⟩

theorem Atom.good {s s' : Session γ} (h : Atom s s') (hs : s.Good E) : s'.Good E := by
  cases h with
  | remember journal hfollows => exact ⟨hs.fits.follows hfollows, hs.filed⟩
  | makeDirectory => exact ⟨hs.fits, hs.filed⟩
  | move => exact ⟨hs.fits, hs.filed⟩
  | save hstate =>
    refine ⟨hs.fits, fun json hjson => ?_⟩
    cases hjson
    exact ⟨s.journal, rfl, hs.fits, hstate⟩

/-! ### Planning -/

theorem identity_ne_nil {U : Unicode} {layout : Layout} {slot : Slot} {path : String}
    {guard : RepairFileGuard} (h : RepairFileGuard.open U layout disk slot path = .ok guard) :
    guard.identity ≠ [] := by
  obtain ⟨components, directories, found, -, -, -, -, -, -, rfl⟩ := open_eq_ok.mp h
  intro hnil
  have hstream := (append_eq_nil_iff.mp hnil).2
  have hlength := congrArg List.length (append_eq_nil_iff.mp hstream).1
  rw [DataStream.quint32, DataStream.length_unsigned] at hlength
  cases hlength

theorem exists_target {layout : Layout} {index : ℕ} (h : layout.isTarget index = true) :
    ∃ target, (target, index) ∈ layout.targets := by
  unfold Layout.isTarget at h
  cases htarget : layout.files[index]? with
  | none =>
    rw [htarget] at h
    cases h
  | some target =>
    rw [htarget] at h
    exact ⟨target, Layout.mem_targets htarget (by simpa using h)⟩

theorem plan_fits {input : Plan} (huuid : isUuid input.operation)
    (h : input.journal E disk = .ok journal) : journal.Fits E := by
  unfold Plan.journal at h
  dsimp only at h
  split_ifs at h with hbad
  · cases h
  · cases h
  · obtain ⟨guard, -, h⟩ := bind_eq_ok.mp h
    cases h
  obtain ⟨guard, hguard, h⟩ := bind_eq_ok.mp h
  obtain ⟨files, hfiles, h⟩ := bind_eq_ok.mp h
  cases h
  have hopen := mapError_eq_ok.mp hguard
  have hentries : List.Forall₂ (fun (file : TargetFile × ℕ) entry => ∃ original,
      entry = { index := file.2, path := file.1.relativePath, size := file.1.size
                source := input.sources file.2, selected := input.selected.contains file.2
                original := original, verified := none, step := .untouched : Entry })
      E.layout.targets files := by
    refine (forall₂_of_mapM hfiles).imp fun file entry hentry => ?_
    obtain ⟨original, -, heq⟩ := bind_eq_ok.mp hentry
    exact ⟨original, (Except.ok.inj heq).symm⟩
  refine ⟨rfl, rfl, huuid, ⟨_, identity_ne_nil hopen, rfl⟩,
    ⟨_, directoryIdentity_ne_nil hopen, rfl⟩, ?_, fun entry hentry => ?_, ?_, nofun⟩
  · have hmap : List.Forall₂ Eq (files.map Entry.index) (E.layout.targets.map Prod.snd) := by
      rw [forall₂_map_left_iff, forall₂_map_right_iff]
      refine hentries.flip.imp ?_
      rintro entry file ⟨original, rfl⟩
      rfl
    rwa [forall₂_eq_eq_eq] at hmap
  · obtain ⟨file, hfile, original, rfl⟩ := exists_left_of_forall₂ hentries hentry
    obtain ⟨htarget, hpad⟩ := mem_filter.mp hfile
    refine ⟨⟨file.1, mem_zipIdx_iff_getElem?.mp htarget, by simpa using hpad, rfl, rfl⟩,
      fun _ => ⟨rfl, rfl⟩, nofun⟩
  · rw [Bool.or_eq_true, not_or, Bool.not_eq_true', Bool.not_eq_true, Bool.not_eq_false] at hbad
    obtain ⟨index, hindex⟩ := exists_mem_of_ne_nil input.selected (by simpa using hbad.1)
    obtain ⟨target, htarget⟩ := exists_target (all_eq_true.mp hbad.2 index hindex)
    obtain ⟨entry, hentry, original, rfl⟩ :=
      exists_left_of_forall₂ hentries.flip htarget
    exact ⟨_, hentry, contains_iff_mem.mpr hindex⟩

/-! ### Preparing -/

/-- The invariant, and an operation that is not only planned. -/
def Saving (s : Session γ) : Prop := s.journal.state ≠ .planned

theorem good_keeps_save :
    Prog.Keeps (Session.Good E) Saving (save E) fun _ => Saving := by
  refine keeps_get fun s _ hs => keeps_bind keeps_check fun _ =>
    keeps_effect ?_
  rintro _ hgood ⟨-, rfl⟩
  exact ⟨Atom.good (.save hs) hgood, hs⟩

theorem good_keeps_makeMissing (place : Place) :
    Prog.Keeps (Session.Good E) Saving (makeMissing fresh place) fun _ => Saving := by
  refine keeps_get fun s _ hs => keeps_when (fun _ => keeps_effect ?_) ?_
  · rintro _ hgood rfl
    exact ⟨⟨hgood.fits, hgood.filed⟩, hs⟩
  · rintro - _ - rfl
    exact hs

theorem good_keeps_mkdir (place : Place) :
    Prog.Keeps (Session.Good E) Saving (mkdir fresh place) fun _ => Saving := by
  refine keeps_get fun s _ hs => keeps_bind keeps_check fun _ => ?_
  exact (good_keeps_makeMissing place).mono (fun _ _ h => h.2 ▸ hs) fun _ _ _ h => h

theorem good_keeps_createPayload (entry : Entry) :
    Prog.Keeps (Session.Good E) Saving (createPayload fresh entry) fun _ => Saving := by
  refine keeps_get fun s _ hs => keeps_bind keeps_check fun _ => ?_
  refine keeps_bind (Q := fun _ => Saving) (keeps_effect ?_) fun _ =>
    keeps_effect ?_
  · rintro _ hgood ⟨-, rfl⟩
    exact ⟨⟨hgood.fits, hgood.filed⟩, hs⟩
  · intro t hgood ht
    exact ⟨⟨hgood.fits, hgood.filed⟩, ht⟩

theorem good_keeps_prepare :
    Prog.Keeps (Session.Good E) (fun _ => True) (prepare E fresh) fun _ _ => True := by
  refine keeps_get fun s _ _ => keeps_bind keeps_check fun _ => ?_
  refine keeps_bind keeps_attempt fun _ => ?_
  refine keeps_bind (Q := fun _ _ => True) (keeps_ofExcept fun _ _ _ _ _ => trivial)
    fun guard => ?_
  refine keeps_bind keeps_check fun _ => ?_
  refine keeps_bind (Q := fun _ => Saving) (keeps_modify fun t hgood _ => ?_) fun _ => ?_
  · exact ⟨⟨hgood.fits.withState .preparing rfl, hgood.filed⟩, nofun⟩
  refine keeps_bind good_keeps_save fun _ => ?_
  refine keeps_bind (good_keeps_mkdir _) fun _ => ?_
  refine keeps_bind (good_keeps_mkdir _) fun _ => ?_
  refine keeps_bind (good_keeps_mkdir _) fun _ => ?_
  refine keeps_bind (keeps_forEach (J := fun _ => Saving) _ fun _ _ =>
    keeps_forEach (J := fun _ => Saving) _ fun _ _ => good_keeps_makeMissing _) fun _ => ?_
  refine keeps_get fun t _ ht => keeps_bind keeps_attempt fun _ => ?_
  refine keeps_bind (Q := fun _ => Saving)
    (keeps_ofExcept fun _ _ heq _ _ => heq ▸ ht) fun _ => ?_
  refine keeps_bind (keeps_forEach (J := fun _ => Saving) _ fun _ _ =>
    good_keeps_createPayload _) fun _ => ?_
  refine keeps_bind (Q := fun _ => Saving) (keeps_modify fun t hgood _ => ?_) fun _ =>
    good_keeps_save.mono (fun _ _ h => h) fun _ _ _ _ => trivial
  exact ⟨⟨hgood.fits.withState .downloading rfl, hgood.filed⟩, nofun⟩

/-! ### Verifying -/

theorem matchesSelected_spec {files : List Entry} (h : matchesSelected E readable files = .ok ())
    {entry : Entry} (hentry : entry ∈ files) (hselected : entry.selected) :
    ∃ target file, E.layout.files[entry.index]? = some target ∧
      readable entry.index = some file ∧ file.identity.size = target.size := by
  unfold matchesSelected at h
  split at h
  · cases h
  next verified _ =>
    split_ifs at h with hall
    have hmatch := all_eq_true.mp hall entry hentry
    rw [hselected, Bool.not_true, Bool.false_or] at hmatch
    unfold matchesTarget at hmatch
    cases htarget : E.layout.files[entry.index]? with
    | none =>
      rw [htarget] at hmatch
      cases hmatch
    | some target =>
      cases hfile : readable entry.index with
      | none => simp [htarget, hfile] at hmatch
      | some file => exact ⟨target, file, rfl, rfl, by simp_all⟩

/-- The identities of the payload are those of whole files, so that the journal fits with them. -/
theorem verified_fits {files : List Entry} (h : journal.Fits E)
    (hreadable : ∀ index file, readable index = some file →
      disk.files (.payload journal.operation) index = some file)
    (hmatches : matchesSelected E readable journal.files = .ok ())
    (hfiles : verifyEntries disk journal.operation journal.files = .ok files) :
    Journal.Fits E { journal with files := files, state := .readyToCommit } := by
  have hentries : List.Forall₂ (fun entry entry' => entry.selected = false ∧ entry' = entry ∨
      entry.selected ∧ ∃ identity, openFile disk (.payload journal.operation) entry.index =
        .ok identity ∧ entry' = { entry with verified := some identity }) journal.files files := by
    refine (forall₂_of_mapM hfiles).imp fun entry entry' hentry => ?_
    split_ifs at hentry with hselected
    · obtain ⟨identity, hopen, heq⟩ := bind_eq_ok.mp hentry
      exact .inr ⟨hselected, identity, hopen, (Except.ok.inj heq).symm⟩
    · exact .inl ⟨Bool.eq_false_iff.mpr hselected, (Except.ok.inj hentry).symm⟩
  have hsame : ∀ (α : Type) (f : Entry → α), (∀ entry verified, f { entry with verified } =
      f entry) → files.map f = journal.files.map f := by
    intro α f hf
    have hmap : List.Forall₂ Eq (files.map f) (journal.files.map f) := by
      rw [forall₂_map_left_iff, forall₂_map_right_iff]
      refine hentries.flip.imp ?_
      rintro entry' entry (⟨-, rfl⟩ | ⟨-, identity, -, rfl⟩)
      · rfl
      · exact hf entry _
    rwa [forall₂_eq_eq_eq] at hmap
  have hread : ∀ entry' ∈ files, entry'.Matches E.layout ∧
      (entry'.selected → entry'.verified.isSome) := by
    intro entry' hentry'
    obtain ⟨entry, hentry, hcase⟩ := exists_left_of_forall₂ hentries hentry'
    have hold := h.entries entry hentry
    rcases hcase with ⟨hselected, rfl⟩ | ⟨hselected, identity, hopen, rfl⟩
    · exact ⟨hold, fun hyes => absurd (hselected.symm.trans hyes) Bool.false_ne_true⟩
    · obtain ⟨target, file, htarget, hfile, hsize⟩ := matchesSelected_spec hmatches hentry hselected
      obtain ⟨target', htarget', hpad, hpath, hentrySize⟩ := hold.target
      cases htarget.symm.trans htarget'
      rw [openFile, hreadable _ _ hfile] at hopen
      dsimp only at hopen
      split_ifs at hopen
      cases hopen
      refine ⟨⟨⟨target, htarget, hpad, hpath, hentrySize⟩, fun hno => ?_, fun identity' heq => ?_⟩,
        fun _ => rfl⟩
      · exact absurd (hno.symm.trans hselected) Bool.false_ne_true
      · exact ⟨file.identity, (Option.some.inj heq).symm, hsize.trans hentrySize.symm⟩
  refine ⟨h.version, h.torrent, h.operation, h.identity, h.directories, ?_,
    fun entry hentry => (hread entry hentry).1, ?_, fun _ entry hentry => (hread entry hentry).2⟩
  · exact (hsame ℕ Entry.index fun _ _ => rfl).trans h.indexes
  · obtain ⟨entry, hentry, hselected⟩ := h.selected
    have hmem : entry.selected ∈ files.map Entry.selected :=
      hsame Bool Entry.selected (fun _ _ => rfl) ▸ mem_map_of_mem hentry
    obtain ⟨entry', hentry', heq⟩ := mem_map.mp hmem
    exact ⟨entry', hentry', heq.trans hselected⟩

theorem good_keeps_verify :
    Prog.Keeps (Session.Good E) (fun _ => True) (verify E) fun _ _ => True := by
  refine keeps_get fun s hgood _ => keeps_bind keeps_check fun _ => ?_
  refine keeps_bind keeps_attempt fun _ => ?_
  refine keeps_bind (Q := fun _ t => t = s) (keeps_ofExcept fun _ _ h _ _ => h.2)
    fun guard => ?_
  refine keeps_bind (Q := fun _ t => matchesSelected E _ s.journal.files = .ok () ∧ t = s)
    (keeps_ofExcept fun _ _ h _ hmatches => ⟨hmatches, h⟩) fun _ => ?_
  refine keeps_bind (Q := fun files t =>
      Journal.Fits E { s.journal with files := files, state := .readyToCommit } ∧ t = s)
    (keeps_ofExcept fun _ _ h files hfiles => ⟨?_, h.2⟩) fun files => ?_
  · refine verified_fits hgood.fits (fun index file hfile => ?_) h.1 hfiles
    split at hfile
    · exact hfile
    · cases hfile
  refine keeps_bind (Q := fun _ => Saving) (keeps_modify ?_) fun _ =>
    good_keeps_save.mono (fun _ _ h => h) fun _ _ _ _ => trivial
  rintro _ hgood ⟨hfits, rfl⟩
  exact ⟨⟨hfits, hgood.filed⟩, nofun⟩

/-! ### Runs -/

/-- The invariant of the system. -/
structure World.Agrees (E : Environment γ) (world : World γ) : Prop where
  fits : ∀ journal, world.operation = some journal → journal.Fits E
  filed : world.disk.Filed E

theorem World.Agrees.call {program : Prog Failure (Session γ) Unit} (h : world.Agrees E)
    (hgood : ∀ s : Session γ, s.Good E → (program ⟨s, script, []⟩).2.state.Good E)
    (hstep : world.call program script = some world') : world'.Agrees E := by
  obtain ⟨journal, hjournal, heq⟩ := Option.map_eq_some_iff.mp hstep
  have hend := hgood ⟨world.disk, journal⟩ ⟨h.fits journal hjournal, h.filed⟩
  rcases hrun : program ⟨⟨world.disk, journal⟩, script, []⟩ with ⟨(_ | _) | _, run⟩
  all_goals
    rw [hrun] at heq hend
    subst heq
    refine ⟨fun journal' hjournal' => ?_, hend.filed⟩
  · cases hjournal'
    exact hend.fits
  · cases hjournal'
  · cases hjournal'
    exact hend.fits

/-- A transaction goes through atomic steps, which keep the invariant. -/
theorem good_transact {rollback : Bool} (s : Session γ) (h : s.Good E) :
    (transact E fresh rollback ⟨s, script, []⟩).2.state.Good E := by
  have hkeeps := @keeps_transact γ E fresh rollback s h.fits.sound.nodup ⟨s, script, []⟩ nofun
    .refl rfl
  have hevolves : Evolves s (transact E fresh rollback ⟨s, script, []⟩).2.state := hkeeps.2.1
  generalize (transact E fresh rollback ⟨s, script, []⟩).2.state = t at hevolves
  induction hevolves with
  | refl => exact h
  | tail _ hatom ih => exact hatom.good ih

theorem World.Agrees.plan {input : Plan} (h : world.Agrees E) (huuid : isUuid input.operation) :
    (world.make (Staging.plan E input) script).Agrees E := by
  have hkeeps : Prog.Keeps (fun _ => True) (· = world.disk) (Staging.plan E input)
      fun journal _ => journal.Fits E := by
    refine keeps_bind keeps_attempt fun _ => keeps_get fun disk _ hdisk => ?_
    exact keeps_ofExcept fun _ _ _ journal hjournal => plan_fits huuid hjournal
  obtain ⟨-, -, hresult⟩ := hkeeps ⟨world.disk, script, []⟩ nofun trivial rfl
  unfold World.make
  rcases hrun : Staging.plan E input ⟨world.disk, script, []⟩ with ⟨_ | journal, run⟩
  · exact ⟨nofun, h.filed⟩
  · rw [hrun] at hresult
    refine ⟨fun journal' hjournal' => ?_, h.filed⟩
    cases hjournal'
    exact hresult _ rfl

theorem World.Agrees.step {act : Act γ} (h : world.Agrees E) (hact : drawsUuid world act)
    (hstep : Staging.step E world act = some world') : world'.Agrees E := by
  cases act with
  | plan input script =>
    cases hstep
    exact h.plan (hact input script rfl)
  | load script =>
    cases hstep
    obtain ⟨hdisk, hload⟩ := @make_load γ E world script
    refine ⟨fun loaded hloaded => ?_, hdisk ▸ h.filed⟩
    obtain ⟨json, hjson, -, haccept⟩ := hload loaded hloaded
    obtain ⟨journal, rfl, hfits, hstate⟩ := h.filed json hjson
    rw [accept_toJson hfits hstate] at haccept
    exact Except.ok.inj haccept ▸ hfits
  | prepare fresh script =>
    exact h.call (fun s hs => (good_keeps_prepare ⟨s, script, []⟩ nofun hs trivial).2.1) hstep
  | verify script =>
    exact h.call (fun s hs => (good_keeps_verify ⟨s, script, []⟩ nofun hs trivial).2.1) hstep
  | commit fresh script => exact h.call good_transact hstep
  | rollback fresh script => exact h.call good_transact hstep
  | crash =>
    cases hstep
    exact ⟨nofun, h.filed⟩
  | download index file =>
    unfold Staging.step at hstep
    dsimp only at hstep
    split at hstep
    · split_ifs at hstep
      cases hstep
      exact ⟨h.fits, h.filed⟩
    · cases hstep

theorem agrees_of_reachable (h : (staging E).Reachable drawsUuid world) : world.Agrees E := by
  apply h.invariant
  · rintro start ⟨hnone, hsaved⟩
    refine ⟨fun journal hjournal => ?_, fun json hjson => ?_⟩
    · cases hnone.symm.trans hjournal
    · cases hsaved.symm.trans hjson
  · intro world act world' hagrees hact hstep
    exact hagrees.step hact hstep

/-- What an operation saves is read as it was written; and what is read fits the files of the
target. -/
theorem journals_agree {world : World γ} (h : (staging E).Reachable drawsUuid world) :
    (∀ journal, world.operation = some journal → journal.state ≠ .planned →
      Journal.accept E.torrent E.layout journal.toJson = .ok journal) ∧
    (∀ json, world.disk.saved = some json → ∃ journal : Journal, json = journal.toJson ∧
      Journal.accept E.torrent E.layout json = .ok journal) ∧
    ∀ json loaded, Journal.accept E.torrent E.layout json = .ok loaded →
      loaded.Accepted E.layout := by
  have hagrees := agrees_of_reachable h
  refine ⟨fun journal hjournal hstate => accept_toJson (hagrees.fits journal hjournal) hstate,
    fun json hjson => ?_, fun json loaded haccept => accept_spec haccept⟩
  obtain ⟨journal, rfl, hfits, hstate⟩ := hagrees.filed json hjson
  exact ⟨journal, rfl, accept_toJson hfits hstate⟩

/-- A disk with the directory `c:/` and nothing in it. -/
def sampleStart : Disk Bool where
  directories place := if place = ["c:"] then some ⟨1, 5, true, none, 1⟩ else none
  files _ _ := none
  saved := none

/-- The preparation of a planned operation is killed after the journal was saved. -/
def sampleActs : List (Act Bool) :=
  [.plan ⟨"c:/", fun _ => "", [0], sampleJournal.operation, "1", "1"⟩ [],
    .prepare sampleFresh [.proceed, .proceed, .kill]]

theorem journals_agree_sample : ∃ world json journal,
    (staging sampleEnvironment).runAll ⟨sampleStart, none, false⟩ sampleActs = some world ∧
      world.disk.saved = some json ∧
      Journal.accept sampleEnvironment.torrent sampleEnvironment.layout json = .ok journal := by
  have hrun : ((staging sampleEnvironment).runAll ⟨sampleStart, none, false⟩ sampleActs).map
      (fun world => world.disk.saved.isSome) = some true := by
    decide +kernel
  obtain ⟨world, hworld, hsaved⟩ := Option.map_eq_some_iff.mp hrun
  obtain ⟨json, hjson⟩ := Option.isSome_iff_exists.mp hsaved
  have huuid : isUuid sampleJournal.operation = true := by decide +kernel
  have hdraws : (staging sampleEnvironment).AllowedAll drawsUuid ⟨sampleStart, none, false⟩
      sampleActs := by
    refine System.allowedAll_of_forall (fun act hact world input script heq => ?_) _
    subst heq
    simp only [sampleActs, mem_cons, Act.plan.injEq, reduceCtorEq, not_mem_nil,
      or_false] at hact
    exact hact.1 ▸ huuid
  have hagree := journals_agree (System.reachable_of_runAll _ (.start ⟨rfl, rfl⟩) hdraws hworld)
  obtain ⟨journal, -, haccept⟩ := hagree.2.1 json hjson
  exact ⟨world, json, journal, hworld, hjson, haccept⟩

end Qbutt.Staging
