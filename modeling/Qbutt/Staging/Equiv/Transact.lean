import Qbutt.Algorithm.Except
import Qbutt.Staging.Equiv.Journal

/-!
# What an open guard has found
-/

namespace Qbutt.Staging

variable {γ : Type} {U : Unicode} {layout : Layout} {disk : Disk γ} {slot : Slot} {path : String}
  {guard : RepairFileGuard}

def guardOf (root : String) (found : Snapshot) : RepairFileGuard where
  directories := found.directories
  files := found.files
  identity := found.identity ++ found.directories.stream
  directoryIdentity := DataStream.string root ++ found.directories.stream

/-- `open` succeeds if the path and the mapping are safe and all directories of the root, the
directories of the files and the files can be locked. -/
theorem open_eq_ok : RepairFileGuard.open U layout disk slot path = .ok guard ↔
    ∃ components directories found, splitRoot U (fromNativeSeparators path) = some components ∧
      checkMapping U [] layout.targets = .ok () ∧ checkParents U layout.targets = .ok () ∧
      components.tail.all (isSafeComponent U) = true ∧
      lockDirectories disk 0 [] false (foldPath U components).inits.tail = .ok (directories, false) ∧
      lockFiles U disk slot (foldPath U components)
        ⟨directories, [], DataStream.string (fromNativeSeparators path)⟩ layout.targets = .ok found ∧
      guard = guardOf (fromNativeSeparators path) found := by
  unfold RepairFileGuard.open
  dsimp only
  constructor
  · intro h
    obtain ⟨components, hcomponents, h⟩ := bind_eq_ok.mp h
    obtain ⟨⟨⟩, hmapping, h⟩ := bind_eq_ok.mp h
    obtain ⟨⟨⟩, hparents, h⟩ := bind_eq_ok.mp h
    split_ifs at h with hsafe
    · cases h
    obtain ⟨⟨directories, missing⟩, hdirectories, h⟩ := bind_eq_ok.mp h
    dsimp only at h
    split_ifs at h with hmissing
    · cases h
    obtain ⟨found, hfound, h⟩ := bind_eq_ok.mp h
    refine ⟨components, directories, found, ?_, hmapping, hparents, ?_, ?_, hfound,
      (Except.ok.inj h).symm⟩
    · split at hcomponents
      next heq => rw [heq, Except.ok.inj hcomponents]
      next => cases hcomponents
    · simpa using hsafe
    · rw [hdirectories, Bool.eq_false_iff.mpr hmissing]
  · rintro ⟨components, directories, found, hcomponents, hmapping, hparents, hsafe, hdirectories,
      hfound, rfl⟩
    rw [hcomponents, hmapping, hparents]
    show (if (!components.tail.all (isSafeComponent U)) = true then _ else _) = _
    rw [hsafe, Bool.not_true, if_neg Bool.false_ne_true]
    show (lockDirectories disk 0 [] false (foldPath U components).inits.tail >>= _) = _
    rw [hdirectories]
    show (lockFiles U disk slot (foldPath U components) _ layout.targets >>= _) = _
    rw [hfound]
    rfl

theorem directoryIdentity_ne_nil (h : RepairFileGuard.open U layout disk slot path = .ok guard) :
    guard.directoryIdentity ≠ [] := by
  obtain ⟨components, directories, found, -, -, -, -, -, -, rfl⟩ := open_eq_ok.mp h
  intro hnil
  exact DataStream.string_ne_nil _ (List.append_eq_nil_iff.mp hnil).1

end Qbutt.Staging

/-!
## What a transaction does

`keeps_transact`: whatever happens to its effects, a transaction is a sequence of atomic steps.  It
changes the state, the steps of selected entries and the directories in the journal, creates missing
directories, saves the journal, and renames the original of an entry between the destination and the
backup, or its replacement between the payload and the destination, into an empty slot.
-/

namespace Qbutt.Staging

variable {γ : Type} {E : Environment γ} {fresh : Fresh γ} {rollback : Bool}
  {s s' s₀ : Session γ} {files files' : List Entry}

/-! ### Journals that follow each other -/

/-- The entries are the same but for the steps of selected ones. -/
def Restepped (files files' : List Entry) : Prop :=
  files'.length = files.length ∧ ∀ (position : ℕ) entry, files[position]? = some entry →
    ∃ step, files'[position]? = some { entry with step := step } ∧
      (entry.selected = false → step = entry.step)

theorem Restepped.refl (files : List Entry) : Restepped files files :=
  ⟨rfl, fun _ entry h => ⟨entry.step, h, fun _ => rfl⟩⟩

theorem Restepped.trans {files'' : List Entry} (h : Restepped files files')
    (h' : Restepped files' files'') : Restepped files files'' := by
  refine ⟨h'.1.trans h.1, fun position entry hentry => ?_⟩
  obtain ⟨step, hstep, hkeep⟩ := h.2 position entry hentry
  obtain ⟨step', hstep', hkeep'⟩ := h'.2 position _ hstep
  exact ⟨step', hstep', fun hselected => (hkeep' hselected).trans (hkeep hselected)⟩

theorem Restepped.mem (h : Restepped files files') {entry : Entry} (hentry : entry ∈ files') :
    ∃ old ∈ files, ∃ step, entry = { old with step := step } ∧
      (old.selected = false → step = old.step) := by
  obtain ⟨position, hposition⟩ := List.mem_iff_getElem?.mp hentry
  have hlt : position < files.length := by
    obtain ⟨hlt, -⟩ := List.getElem?_eq_some_iff.mp hposition
    have hlength := h.1
    omega
  obtain ⟨step, hstep, hkeep⟩ := h.2 position files[position] (List.getElem?_eq_getElem hlt)
  rw [hposition] at hstep
  exact ⟨files[position], List.getElem_mem hlt, step, Option.some.inj hstep, hkeep⟩

theorem Restepped.map_eq {α : Type} (h : Restepped files files') (f : Entry → α)
    (hf : ∀ entry step, f { entry with step := step } = f entry) : files'.map f = files.map f := by
  refine List.ext_getElem? fun position => ?_
  rw [List.getElem?_map, List.getElem?_map]
  cases hposition : files[position]? with
  | none =>
    have hle := List.getElem?_eq_none_iff.mp hposition
    have hnone : files'[position]? = none := by
      rw [List.getElem?_eq_none_iff, h.1]
      exact hle
    rw [hnone]
  | some entry =>
    obtain ⟨step, hstep, -⟩ := h.2 position entry hposition
    rw [hstep, Option.map_some, Option.map_some, hf]

theorem restepped_modify {position : ℕ} {step : Step}
    (h : ∀ entry, files[position]? = some entry → entry.selected) :
    Restepped files (files.modify position fun entry => { entry with step := step }) := by
  refine ⟨List.length_modify .., fun other entry hentry => ?_⟩
  rw [List.getElem?_modify, hentry]
  by_cases heq : position = other
  · subst heq
    refine ⟨step, by simp, fun hselected => ?_⟩
    rw [h entry hentry] at hselected
    cases hselected
  · exact ⟨entry.step, by simp [heq], fun _ => rfl⟩

/-- A transaction changes the state, the directories and steps. -/
structure Journal.Follows (journal journal' : Journal) : Prop where
  version : journal'.version = journal.version
  torrent : journal'.torrent = journal.torrent
  operation : journal'.operation = journal.operation
  destination : journal'.destination = journal.destination
  identity : journal'.destinationIdentity = journal.destinationIdentity
  directories : journal'.destinationDirectories = journal.destinationDirectories ∨
    ∃ bytes, bytes ≠ [] ∧ journal'.destinationDirectories = toBase64 bytes
  state : journal'.state.requiresVerified → journal.state.requiresVerified
  files : Restepped journal.files journal'.files

inductive Entry.Moves (entry : Entry) (operation : String) :
    Slot → Slot → FileIdentity → Prop where
  | backUp {identity : FileIdentity} (h : entry.original = some identity) :
    Moves entry operation .destination (.backup operation) identity
  | restore {identity : FileIdentity} (h : entry.original = some identity) :
    Moves entry operation (.backup operation) .destination identity
  | install {identity : FileIdentity} (h : entry.replacement = some identity) :
    Moves entry operation (.payload operation) .destination identity
  | uninstall {identity : FileIdentity} (h : entry.replacement = some identity) :
    Moves entry operation .destination (.payload operation) identity

/-- The atomic steps of a transaction. -/
inductive Atom : Session γ → Session γ → Prop where
  | remember {s : Session γ} (journal : Journal) (h : s.journal.Follows journal) :
    Atom s { s with journal := journal }
  | makeDirectory {s : Session γ} (place : Place) (dir : Dir)
    (h : s.disk.directories place = none) :
    Atom s { s with disk := s.disk.makeDirectory place dir }
  | save {s : Session γ} (h : s.journal.state ≠ .planned) :
    Atom s { s with disk := { s.disk with saved := some s.journal.toJson } }
  | move {s : Session γ} {entry : Entry} {source target : Slot} {identity : FileIdentity}
    (hentry : entry ∈ s.journal.files) (hselected : entry.selected)
    (hmove : entry.Moves s.journal.operation source target identity)
    (hsource : s.disk.identityAt source entry.index = some identity)
    (htarget : s.disk.files target entry.index = none) :
    Atom s { s with disk := s.disk.moveFile entry.index source target }

/-- Sequences of atomic steps. -/
abbrev Evolves : Session γ → Session γ → Prop := Relation.ReflTransGen Atom

/-! ### The pieces of a transaction -/

variable {P : Session γ → Prop}

theorem keeps_makeMissing (place : Place) (hP : ∀ (s : Session γ) dir, P s →
      P { s with disk := s.disk.makeDirectory place dir }) :
    Prog.Keeps (Evolves s₀) P (makeMissing fresh place) fun _ => P := by
  refine Prog.keeps_get fun s _ hs => ?_
  refine Prog.keeps_when (fun hnone => Prog.keeps_effect ?_) ?_
  · rintro _ hevolves rfl
    exact ⟨hevolves.tail (.makeDirectory place _ (Option.isNone_iff_eq_none.mp hnone)), hP _ _ hs⟩
  · rintro - _ - rfl
    exact hs

theorem keeps_mkpath (place : Place) (hP : ∀ (s : Session γ) place dir, P s →
      P { s with disk := s.disk.makeDirectory place dir }) :
    Prog.Keeps (Evolves s₀) P (mkpath fresh place) fun _ => P :=
  Prog.keeps_forEach (J := fun _ => P) _ fun place _ => keeps_makeMissing place fun s => hP s place

theorem keeps_makeDirectories (journal : Journal) (hP : ∀ (s : Session γ) place dir, P s →
      P { s with disk := s.disk.makeDirectory place dir }) :
    Prog.Keeps (Evolves s₀) P (makeDirectories E fresh journal) fun _ => P :=
  Prog.keeps_forEach (J := fun _ => P) _ fun _ _ =>
    Prog.keeps_forEach (J := fun _ => P) _ fun _ _ => keeps_mkpath _ hP

theorem keeps_save (hstate : ∀ s, P s → s.journal.state ≠ .planned)
    (hP : ∀ (s : Session γ) saved, P s → P { s with disk := { s.disk with saved := saved } }) :
    Prog.Keeps (Evolves s₀) P (save E) fun _ => P := by
  refine Prog.keeps_get fun s _ hs => Prog.keeps_bind Prog.keeps_check fun _ =>
    Prog.keeps_effect ?_
  rintro _ hevolves ⟨-, rfl⟩
  exact ⟨hevolves.tail (.save (hstate _ hs)), hP _ _ hs⟩

/-- The journal is at work on the entries of `s₀` and the slots hold the given files. -/
structure Working (s₀ : Session γ) (state : State) (disk : Disk γ) (s : Session γ) : Prop where
  files : Restepped s₀.journal.files s.journal.files
  operation : s.journal.operation = s₀.journal.operation
  state : s.journal.state = state
  slots : s.disk.files = disk.files

variable {state : State} {disk : Disk γ} {guards : Guards} {entry : Entry} {position : ℕ}
  {source target slot : Slot} {identity : FileIdentity} {index : ℕ}

theorem keeps_saveWorking (hstate : state ≠ .planned) :
    Prog.Keeps (Evolves s₀) (Working s₀ state disk) (save E) fun _ => Working s₀ state disk :=
  keeps_save (fun _ h => h.state ▸ hstate) fun _ _ h => { h with }

theorem keeps_setStep (step : Step) (hentry : s₀.journal.files[position]? = some entry)
    (hselected : entry.selected) :
    Prog.Keeps (Evolves s₀) (Working s₀ state disk) (setStep position step) fun _ =>
      Working s₀ state disk := by
  refine Prog.keeps_modify fun s hevolves h => ?_
  have hmodify : Restepped s.journal.files (s.journal.files.modify position fun entry =>
      { entry with step := step }) := by
    refine restepped_modify fun other hother => ?_
    obtain ⟨step', hstep', -⟩ := h.files.2 position entry hentry
    rw [hother] at hstep'
    rw [Option.some.inj hstep']
    exact hselected
  have hfollows : s.journal.Follows
      { s.journal with
        files := s.journal.files.modify position fun entry => { entry with step := step } } :=
    ⟨rfl, rfl, rfl, rfl, rfl, .inl rfl, id, hmodify⟩
  exact ⟨hevolves.tail (.remember _ hfollows), ⟨h.files.trans hmodify, h.operation, h.state, h.slots⟩⟩

theorem keeps_renameFile (hentry : s₀.journal.files[position]? = some entry)
    (hselected : entry.selected) (hmove : entry.Moves s₀.journal.operation source target identity)
    (hsource : disk.identityAt source entry.index = some identity) :
    Prog.Keeps (Evolves s₀) (Working s₀ state disk) (renameFile E guards entry source target)
      fun _ => Working s₀ state (disk.moveFile entry.index source target) := by
  refine Prog.keeps_get fun s _ h => ?_
  dsimp only
  cases ((guards.parents target).directories.lookup
      (parentPlace E.unicode s.journal target (targetPath E entry))).join with
  | none => exact Prog.keeps_throw
  | some directory =>
    refine Prog.keeps_bind Prog.keeps_check fun _ => Prog.keeps_effect ?_
    rintro s hevolves ⟨hfree, rfl⟩
    obtain ⟨hnone, -⟩ := Bool.and_eq_true_iff.mp hfree
    obtain ⟨step, hstep, -⟩ := h.files.2 position entry hentry
    have hmoves : { entry with step := step }.Moves s.journal.operation source target identity := by
      rw [h.operation]
      cases hmove with
      | backUp h => exact .backUp h
      | restore h => exact .restore h
      | install h => exact .install h
      | uninstall h => exact .uninstall h
    have hfound : s.disk.identityAt source entry.index = some identity := by
      unfold Disk.identityAt at hsource ⊢
      rw [h.slots]
      exact hsource
    have hatom : Atom s { s with disk := s.disk.moveFile entry.index source target } :=
      @Atom.move γ s { entry with step := step } source target identity (List.mem_of_getElem? hstep)
        hselected hmoves hfound (Option.isNone_iff_eq_none.mp hnone)
    refine ⟨hevolves.tail hatom, { h with slots := ?_ }⟩
    funext slot index
    rw [Disk.files_moveFile, Disk.files_moveFile, h.slots]

theorem keeps_move (hstate : state ≠ .planned) (hentry : s₀.journal.files[position]? = some entry)
    (hselected : entry.selected) (hmove : entry.Moves s₀.journal.operation source target identity)
    (hsource : disk.identityAt source entry.index = some identity) (pending done : Step) :
    Prog.Keeps (Evolves s₀) (Working s₀ state disk)
      (move E guards position entry source target pending done) fun _ =>
        Working s₀ state (disk.moveFile entry.index source target) := by
  refine Prog.keeps_bind (keeps_setStep pending hentry hselected) fun _ => ?_
  refine Prog.keeps_bind (keeps_saveWorking hstate) fun _ => ?_
  refine Prog.keeps_bind (keeps_renameFile hentry hselected hmove hsource) fun _ => ?_
  exact Prog.keeps_bind (keeps_setStep done hentry hselected) fun _ => keeps_saveWorking hstate

/-! ### The loop -/

/-- What was opened is what the slots of an entry hold. -/
structure Owned.Accurate (disk : Disk γ) (operation : String) (entry : Entry) (owned : Owned) :
    Prop where
  destination : disk.identityAt .destination entry.index = owned.destination
  payload : disk.identityAt (.payload operation) entry.index = owned.payload
  backup : disk.identityAt (.backup operation) entry.index = owned.backup

theorem identityAt_moveFile_of_index_ne {index' : ℕ} (h : index' ≠ index)
    (source target slot : Slot) :
    (disk.moveFile index source target).identityAt slot index' = disk.identityAt slot index' := by
  unfold Disk.identityAt
  rw [Disk.files_moveFile, if_neg h]

theorem identityAt_moveFile_of_slot_ne (hsource : slot ≠ source) (htarget : slot ≠ target)
    (index : ℕ) :
    (disk.moveFile index source target).identityAt slot index = disk.identityAt slot index := by
  unfold Disk.identityAt
  rw [Disk.files_moveFile, if_pos rfl, if_neg hsource, if_neg htarget]

/-- The slots of other entries are the same. -/
def SameElsewhere (index : ℕ) (disk disk' : Disk γ) : Prop :=
  ∀ slot index', index' ≠ index → disk'.identityAt slot index' = disk.identityAt slot index'

theorem SameElsewhere.refl (index : ℕ) (disk : Disk γ) : SameElsewhere index disk disk :=
  fun _ _ _ => rfl

theorem SameElsewhere.move {disk disk' : Disk γ} (h : SameElsewhere index disk disk')
    (source target : Slot) : SameElsewhere index disk (disk'.moveFile index source target) := by
  intro slot index' hne
  rw [identityAt_moveFile_of_index_ne hne, h slot index' hne]

theorem keeps_apply {owned : Owned} (hstate : state ≠ .planned)
    (hentry : s₀.journal.files[position]? = some entry)
    (howned : entry.selected → owned.Accurate disk s₀.journal.operation entry)
    (hreplacement : rollback = false → entry.selected → entry.replacement.isSome) :
    Prog.Keeps (Evolves s₀) (Working s₀ state disk)
      (apply E guards rollback s₀.journal.operation ((entry, owned), position)) fun _ s =>
        ∃ disk', SameElsewhere entry.index disk disk' ∧ Working s₀ state disk' s := by
  refine Prog.keeps_bind Prog.keeps_attempt fun _ => ?_
  refine Prog.keeps_when (fun hselected => ?_) fun _ s _ h => ⟨disk, .refl _ _, h⟩
  have haccurate := howned hselected
  cases rollback with
  | true =>
    refine Prog.keeps_bind (Q := fun _ s => ∃ disk', SameElsewhere entry.index disk disk' ∧
      disk'.identityAt (.backup s₀.journal.operation) entry.index = owned.backup ∧
        Working s₀ state disk' s) ?_ fun _ => ?_
    · refine Prog.keeps_when (fun huninstall => ?_) fun _ s _ h =>
        ⟨disk, .refl _ _, haccurate.backup, h⟩
      obtain ⟨hsome, hequal⟩ := Bool.and_eq_true_iff.mp huninstall
      obtain ⟨identity, hidentity⟩ := Option.isSome_iff_exists.mp hsome
      have hsource := haccurate.destination.trans ((decide_eq_true_eq.mp hequal).trans hidentity)
      refine (keeps_move hstate hentry hselected (.uninstall hidentity) hsource _ _).mono
        (fun _ _ h => h) fun _ s _ h => ⟨_, (SameElsewhere.refl _ _).move _ _, ?_, h⟩
      rw [identityAt_moveFile_of_slot_ne (by simp) (by simp)]
      exact haccurate.backup
    · refine Prog.keeps_of_forall fun s _ ⟨disk', hsame, hbackup, hworking⟩ => ?_
      refine Prog.keeps_when (fun hrestore => ?_) fun _ _ _ heq => heq ▸ ⟨disk', hsame, hworking⟩
      obtain ⟨hsome, hequal⟩ := Bool.and_eq_true_iff.mp hrestore
      obtain ⟨identity, hidentity⟩ := Option.isSome_iff_exists.mp hsome
      have hsource := hbackup.trans ((decide_eq_true_eq.mp hequal).trans hidentity)
      exact (keeps_move hstate hentry hselected (.restore hidentity) hsource _ _).mono
        (fun _ _ heq => heq ▸ hworking) fun _ s _ h => ⟨_, hsame.move _ _, h⟩
  | false =>
    refine Prog.keeps_bind (Q := fun _ s => ∃ disk', SameElsewhere entry.index disk disk' ∧
      disk'.identityAt (.payload s₀.journal.operation) entry.index = owned.payload ∧
        Working s₀ state disk' s) ?_ fun _ => ?_
    · refine Prog.keeps_when (fun hbackUp => ?_) fun _ s _ h =>
        ⟨disk, .refl _ _, haccurate.payload, h⟩
      obtain ⟨hsome, hequal⟩ := Bool.and_eq_true_iff.mp hbackUp
      obtain ⟨identity, hidentity⟩ := Option.isSome_iff_exists.mp hsome
      have hsource := haccurate.destination.trans ((decide_eq_true_eq.mp hequal).trans hidentity)
      refine (keeps_move hstate hentry hselected (.backUp hidentity) hsource _ _).mono
        (fun _ _ h => h) fun _ s _ h => ⟨_, (SameElsewhere.refl _ _).move _ _, ?_, h⟩
      rw [identityAt_moveFile_of_slot_ne (by simp) (by simp)]
      exact haccurate.payload
    · refine Prog.keeps_of_forall fun s _ ⟨disk', hsame, hpayload, hworking⟩ => ?_
      refine Prog.keeps_when (fun hinstall => ?_) fun _ _ _ heq => heq ▸ ⟨disk', hsame, hworking⟩
      have hequal : owned.payload = entry.replacement := decide_eq_true_eq.mp hinstall
      obtain ⟨identity, hidentity⟩ := Option.isSome_iff_exists.mp (hreplacement rfl hselected)
      have hsource := hpayload.trans (hequal.trans hidentity)
      exact (keeps_move hstate hentry hselected (.install hidentity) hsource _ _).mono
        (fun _ _ heq => heq ▸ hworking) fun _ s _ h => ⟨_, hsame.move _ _, h⟩

/-! ### What was acquired -/

theorem openFile_eq_ok {identity : Option FileIdentity}
    (h : openFile disk slot index = .ok identity) : disk.identityAt slot index = identity := by
  unfold openFile at h
  unfold Disk.identityAt
  cases hfile : disk.files slot index with
  | none =>
    rw [hfile] at h
    exact Except.ok.inj h
  | some file =>
    rw [hfile] at h
    dsimp only at h
    split_ifs at h
    exact Except.ok.inj h

theorem countFile_replacements {counts counts' : ℕ × ℕ} {actual : Option FileIdentity}
    (h : countFile rollback entry slot counts actual = .ok counts') :
    counts'.2 = counts.2 ∨ entry.replacement.isSome := by
  cases actual with
  | none =>
    rw [← Except.ok.inj h]
    exact .inl rfl
  | some actual =>
    unfold countFile at h
    dsimp only at h
    split_ifs at h with horiginal hreplacement
    · rw [← Except.ok.inj h]
      exact .inl rfl
    · simp only [Bool.and_eq_true, decide_eq_true_eq] at hreplacement
      rw [hreplacement.1]
      exact .inr rfl
    · rw [← Except.ok.inj h]
      exact .inl rfl

theorem acquireEntry_spec {operation : String} {owned : Owned}
    (h : acquireEntry disk rollback operation entry = .ok owned) (hselected : entry.selected) :
    owned.Accurate disk operation entry ∧ (rollback = false → entry.replacement.isSome) := by
  unfold acquireEntry at h
  rw [hselected, Bool.not_true, if_neg Bool.false_ne_true] at h
  obtain ⟨destination, hdestination, h⟩ := bind_eq_ok.mp h
  obtain ⟨counts, hcounts, h⟩ := bind_eq_ok.mp h
  obtain ⟨payload, hpayload, h⟩ := bind_eq_ok.mp h
  obtain ⟨counts', hcounts', h⟩ := bind_eq_ok.mp h
  obtain ⟨backup, hbackup, h⟩ := bind_eq_ok.mp h
  obtain ⟨counts'', hcounts'', h⟩ := bind_eq_ok.mp h
  dsimp only at h
  split_ifs at h with hbad
  cases h
  refine ⟨⟨openFile_eq_ok hdestination, openFile_eq_ok hpayload, openFile_eq_ok hbackup⟩, ?_⟩
  rintro rfl
  by_contra hnone
  have h1 := (countFile_replacements hcounts).resolve_right hnone
  have h2 := (countFile_replacements hcounts').resolve_right hnone
  have h3 := (countFile_replacements hcounts'').resolve_right hnone
  apply hbad
  have hzero : counts''.2 = 0 := by rw [h3, h2, h1]
  simp [hzero]

def Acquired (disk : Disk γ) (rollback : Bool) (operation : String) (entry : Entry)
    (file : Entry × Owned) : Prop :=
  file.1 = entry ∧ (entry.selected → file.2.Accurate disk operation entry) ∧
    (rollback = false → entry.selected → entry.replacement.isSome)

variable {files : List (Entry × Owned)}

theorem acquire_spec {journal : Journal} (h : acquire disk rollback journal = .ok files) :
    List.Forall₂ (Acquired disk rollback journal.operation) journal.files files := by
  refine (forall₂_of_mapM h).imp fun entry file hfile => ?_
  obtain ⟨owned, howned, heq⟩ := bind_eq_ok.mp hfile
  cases heq
  exact ⟨rfl, fun hselected => (acquireEntry_spec howned hselected).1,
    fun hrollback hselected => (acquireEntry_spec howned hselected).2 hrollback⟩

/-! ### Up to the first save -/

def startState (rollback : Bool) : State := if rollback then .rollingBack else .committing

def endState (rollback : Bool) : State := if rollback then .rolledBack else .committed

/-- What `transact` has established when it has saved its start. -/
structure Begun (s₀ : Session γ) (rollback : Bool) (files : List (Entry × Owned)) (s : Session γ) :
    Prop where
  working : Working s₀ (startState rollback) s₀.disk s
  acquired : List.Forall₂ (Acquired s₀.disk rollback s₀.journal.operation) s₀.journal.files files
  allowed : rollback = false → s₀.journal.state.requiresVerified

theorem begin_eq_ok {session : Session γ} (h : begin E rollback session = .ok ()) :
    session.journal.state ≠ .planned ∧
      (rollback = false → session.journal.state.requiresVerified) := by
  unfold begin at h
  dsimp only at h
  have hready : ¬ ((!rollback && !session.journal.state.requiresVerified) ||
      (rollback && session.journal.state = .planned)) = true := by
    intro hbad
    rw [if_pos hbad] at h
    cases h
  cases rollback with
  | true =>
    refine ⟨fun hplanned => hready ?_, nofun⟩
    rw [hplanned]
    rfl
  | false =>
    have hverified : session.journal.state.requiresVerified = true := by simpa using hready
    refine ⟨fun hplanned => ?_, fun _ => hverified⟩
    rw [hplanned] at hverified
    cases hverified

theorem inspect_eq_ok {session : Session γ} :
    inspect E rollback session = .ok files ↔ acquire session.disk rollback session.journal = .ok files ∧
      (rollback = false → matchesSelected E
        (readableFiles session.disk session.journal.operation files) session.journal.files = .ok ()) := by
  unfold inspect
  cases rollback with
  | true =>
    rw [bind_eq_ok]
    constructor
    · rintro ⟨files', hacquire, h⟩
      cases h
      exact ⟨hacquire, nofun⟩
    · rintro ⟨hacquire, -⟩
      exact ⟨files, hacquire, rfl⟩
  | false =>
    rw [bind_eq_ok]
    constructor
    · rintro ⟨files', hacquire, h⟩
      obtain ⟨⟨⟩, hmatches, h⟩ := bind_eq_ok.mp h
      cases h
      exact ⟨hacquire, fun _ => hmatches⟩
    · rintro ⟨hacquire, hmatches⟩
      refine ⟨files, hacquire, bind_eq_ok.mpr ⟨(), hmatches rfl, rfl⟩⟩

/-- Before the first save the journal is the one at the start, but for the directories. -/
structure Preparing (s₀ s : Session γ) : Prop where
  files : s.journal.files = s₀.journal.files
  operation : s.journal.operation = s₀.journal.operation
  state : s.journal.state = s₀.journal.state
  slots : s.disk.files = s₀.disk.files

theorem keeps_preflight :
    Prog.Keeps (Evolves s₀) (· = s₀) (preflight E fresh rollback) fun result =>
      Begun s₀ rollback result.2 := by
  refine Prog.keeps_get fun s _ hs => ?_
  obtain rfl : s = s₀ := hs
  refine Prog.keeps_bind Prog.keeps_attempt fun _ => ?_
  refine Prog.keeps_bind (Q := fun _ t => begin E rollback s = .ok () ∧ t = s)
    (Prog.keeps_ofExcept fun t _ ht _ hbegin => ⟨hbegin, ht⟩) fun _ => ?_
  refine Prog.keeps_of_forall fun t _ ⟨hbegin, ht⟩ => ?_
  obtain rfl : t = s := ht
  obtain ⟨hplanned, hallowed⟩ := begin_eq_ok hbegin
  have hstart : startState rollback ≠ .planned := by cases rollback <;> exact nofun
  refine Prog.keeps_bind (Q := fun _ => Preparing t) ?_ fun _ => ?_
  · refine (keeps_makeDirectories t.journal (P := Preparing t) fun _ _ _ h => { h with }).mono
      (fun _ _ heq => ?_) fun _ _ _ h => h
    exact heq ▸ ⟨rfl, rfl, rfl, rfl⟩
  refine Prog.keeps_get fun s₁ hevolves h₁ => ?_
  refine Prog.keeps_bind Prog.keeps_attempt fun _ => ?_
  refine Prog.keeps_bind (Q := fun guards s => openGuards E s₁.disk s₁.journal = .ok guards ∧ s = s₁)
    (Prog.keeps_ofExcept fun _ _ heq _ hguards => ⟨hguards, heq⟩) fun guards => ?_
  refine Prog.keeps_of_forall fun s₂ _ ⟨hguards, heq⟩ => ?_
  obtain rfl : s₂ = s₁ := heq
  refine Prog.keeps_bind (Q := fun _ => Preparing t) ?_ fun _ => ?_
  · refine Prog.keeps_when (fun _ => Prog.keeps_modify ?_) ?_
    · rintro s₂ hevolves rfl
      obtain ⟨guard, hguard, hrest⟩ := bind_eq_ok.mp hguards
      obtain ⟨payload, -, hrest⟩ := bind_eq_ok.mp hrest
      obtain ⟨backup, -, hrest⟩ := bind_eq_ok.mp hrest
      cases hrest
      have hfollows : s₂.journal.Follows
          { s₂.journal with destinationDirectories := toBase64 guard.directoryIdentity } :=
        ⟨rfl, rfl, rfl, rfl, rfl,
          .inr ⟨_, directoryIdentity_ne_nil (mapError_eq_ok.mp hguard), rfl⟩, id, .refl _⟩
      exact ⟨hevolves.tail (.remember _ hfollows), { h₁ with }⟩
    · rintro _ _ _ rfl
      exact h₁
  refine Prog.keeps_bind Prog.keeps_attempt fun _ => ?_
  refine Prog.keeps_bind (Q := fun files s => inspect E rollback s₂ = .ok files ∧ Preparing t s)
    (Prog.keeps_ofExcept fun _ _ h _ hfiles => ⟨hfiles, h⟩) fun files => ?_
  refine Prog.keeps_of_forall fun s₃ _ ⟨hinspect, h₃⟩ => ?_
  obtain ⟨hacquire, -⟩ := inspect_eq_ok.mp hinspect
  refine Prog.keeps_bind (Q := fun _ => Working t (startState rollback) t.disk) ?_ fun _ => ?_
  · refine Prog.keeps_modify ?_
    rintro s₃ hevolves rfl
    have hfollows : s₃.journal.Follows { s₃.journal with state := startState rollback } := by
      refine ⟨rfl, rfl, rfl, rfl, rfl, .inl rfl, fun hrequires => ?_, .refl _⟩
      rw [h₃.state]
      cases rollback with
      | true => cases hrequires
      | false => exact hallowed rfl
    refine ⟨hevolves.tail (.remember _ hfollows), ?_, h₃.operation, rfl, h₃.slots⟩
    exact h₃.files ▸ .refl _
  refine Prog.keeps_bind (keeps_saveWorking hstart) fun _ => Prog.keeps_pure fun s _ h => ?_
  refine ⟨h, ?_, hallowed⟩
  have hacquired := acquire_spec hacquire
  rw [h₁.files, h₁.operation] at hacquired
  refine hacquired.imp fun entry file ⟨hentry, haccurate, hreplacement⟩ => ?_
  refine ⟨hentry, fun hselected => ?_, hreplacement⟩
  obtain ⟨hdestination, hpayload, hbackup⟩ := haccurate hselected
  unfold Disk.identityAt at hdestination hpayload hbackup
  rw [h₁.slots] at hdestination hpayload hbackup
  exact ⟨hdestination, hpayload, hbackup⟩

/-! ### The whole transaction -/

/-- A round of the loop that is still to come. -/
structure Pending (s₀ : Session γ) (rollback : Bool) (disk : Disk γ)
    (file : (Entry × Owned) × ℕ) : Prop where
  position : s₀.journal.files[file.2]? = some file.1.1
  accurate : file.1.1.selected → file.1.2.Accurate disk s₀.journal.operation file.1.1
  replacement : rollback = false → file.1.1.selected → file.1.1.replacement.isSome

theorem Pending.congr {disk' : Disk γ} {file : (Entry × Owned) × ℕ}
    (h : Pending s₀ rollback disk file) (hsame : SameElsewhere index disk disk')
    (hindex : file.1.1.index ≠ index) : Pending s₀ rollback disk' file := by
  refine { h with accurate := fun hselected => ?_ }
  obtain ⟨hdestination, hpayload, hbackup⟩ := h.accurate hselected
  exact ⟨(hsame _ _ hindex).trans hdestination, (hsame _ _ hindex).trans hpayload,
    (hsame _ _ hindex).trans hbackup⟩

theorem Begun.entries (h : Begun s₀ rollback files s) : files.map Prod.fst = s₀.journal.files := by
  have hforall := h.acquired.imp fun entry file hfile => hfile.1.symm
  have hmap : List.Forall₂ Eq s₀.journal.files (files.map Prod.fst) :=
    List.forall₂_map_right_iff.mpr hforall
  rw [List.forall₂_eq_eq_eq] at hmap
  exact hmap.symm

/-- All rounds are still to come when the loop starts, in either order. -/
theorem Begun.pending (h : Begun s₀ rollback files s) :
    ∀ file ∈ files.zipIdx, Pending s₀ rollback s₀.disk file := by
  rintro ⟨file, position⟩ hfile
  have hposition : files[position]? = some file := List.mem_zipIdx_iff_getElem?.mp hfile
  have hentry : s₀.journal.files[position]? = some file.1 := by
    rw [← h.entries, List.getElem?_map, hposition, Option.map_some]
  obtain ⟨entry, -, rfl, haccurate, hreplacement⟩ :=
    exists_left_of_forall₂ h.acquired (List.mem_of_getElem? hposition)
  exact ⟨hentry, haccurate, hreplacement⟩

theorem Begun.nodup (h : Begun s₀ rollback files s)
    (hnodup : (s₀.journal.files.map Entry.index).Nodup) :
    (files.zipIdx.map fun file => file.1.1.index).Nodup := by
  have hmap : files.zipIdx.map (fun file => file.1.1.index) = s₀.journal.files.map Entry.index := by
    have hfst : files.zipIdx.map (fun file => file.1.1.index) =
        ((files.zipIdx.map Prod.fst).map Prod.fst).map Entry.index := by
      rw [List.map_map, List.map_map]
      rfl
    rw [hfst, List.zipIdx_map_fst, h.entries]
  exact hmap ▸ hnodup

theorem keeps_loop (hstate : state ≠ .planned) :
    ∀ files : List ((Entry × Owned) × ℕ), (files.map fun file => file.1.1.index).Nodup →
      (∀ file ∈ files, Pending s₀ rollback disk file) →
      Prog.Keeps (Evolves s₀) (Working s₀ state disk)
        (Prog.forEach files (apply E guards rollback s₀.journal.operation)) fun _ s =>
          ∃ disk', Working s₀ state disk' s := by
  intro files
  induction files generalizing disk with
  | nil => exact fun _ _ => Prog.keeps_pure fun _ _ h => ⟨disk, h⟩
  | cons file files ih =>
    intro hnodup hpending
    rw [List.map_cons, List.nodup_cons] at hnodup
    obtain ⟨hposition, haccurate, hreplacement⟩ := hpending file List.mem_cons_self
    refine Prog.keeps_bind (keeps_apply hstate hposition haccurate hreplacement) fun _ => ?_
    refine Prog.keeps_of_forall fun s _ ⟨disk', hsame, hworking⟩ => ?_
    refine (ih hnodup.2 fun other hother => ?_).mono (fun _ _ heq => heq ▸ hworking) fun _ _ _ h => h
    refine (hpending other (List.mem_cons_of_mem _ hother)).congr hsame fun heq => hnodup.1 ?_
    exact heq ▸ List.mem_map_of_mem hother

/-- A transaction on entries with different indexes goes through atomic steps only. -/
theorem keeps_transact (hnodup : (s₀.journal.files.map Entry.index).Nodup) :
    Prog.Keeps (Evolves s₀) (· = s₀) (transact E fresh rollback) fun _ s =>
      ∃ disk, Working s₀ (endState rollback) disk s := by
  refine Prog.keeps_bind keeps_preflight fun ⟨guards, files⟩ => ?_
  refine Prog.keeps_get fun s _ hbegun => ?_
  have hstart : startState rollback ≠ .planned := by cases rollback <;> exact nofun
  have hend : endState rollback ≠ .planned := by cases rollback <;> exact nofun
  rw [hbegun.working.operation]
  refine Prog.keeps_bind (Q := fun _ s => ∃ disk, Working s₀ (startState rollback) disk s) ?_
    fun _ => ?_
  · refine Prog.Keeps.mono (P := Working s₀ (startState rollback) s₀.disk) ?_
      (fun _ _ heq => heq ▸ hbegun.working) fun _ _ _ h => h
    split_ifs
    · refine keeps_loop hstart _ ?_ fun file hfile => hbegun.pending file (List.mem_reverse.mp hfile)
      rw [List.map_reverse, List.nodup_reverse]
      exact hbegun.nodup hnodup
    · exact keeps_loop hstart _ (hbegun.nodup hnodup) hbegun.pending
  refine Prog.keeps_of_forall fun s _ ⟨disk, hworking⟩ => ?_
  refine Prog.keeps_bind (Q := fun _ => Working s₀ (endState rollback) disk) ?_ fun _ =>
    (keeps_saveWorking hend).mono (fun _ _ h => h) fun _ _ _ h => ⟨disk, h⟩
  refine Prog.keeps_modify ?_
  rintro s hevolves rfl
  have hfollows : s.journal.Follows { s.journal with state := endState rollback } := by
    refine ⟨rfl, rfl, rfl, rfl, rfl, .inl rfl, fun hrequires => ?_, .refl _⟩
    rw [hworking.state]
    cases rollback with
    | true => cases hrequires
    | false => rfl
  exact ⟨hevolves.tail (.remember _ hfollows), hworking.files, hworking.operation, rfl,
    hworking.slots⟩

end Qbutt.Staging
