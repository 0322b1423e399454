import Qbutt.Staging.Equiv.Transact

/-!
# Originals are never lost

From a journal that is ready to be committed, with every original in the destination and every
verified file in the payload, any number of commits and rollbacks, each of them cancelled, failed or
killed at any point and continued or loaded again, leaves every original in exactly one of the
destination and the backup and every verified file in exactly one of the payload and the destination
(`originals_kept`).  A slot never holds two files, since `Disk.files` is a function.
-/

namespace Qbutt.Staging

variable {γ : Type} {E : Environment γ} {journal known : Journal} {disk start : Disk γ}
  {s s' : Session γ}

/-! ### A file in one of two slots -/

/-- One of two slots holds a file, and the other one does not hold it. -/
def Disk.InOne (disk : Disk γ) (index : ℕ) (file : File γ) (slot slot' : Slot) : Prop :=
  (disk.files slot index = some file ∧ disk.identityAt slot' index ≠ some file.identity) ∨
    (disk.files slot' index = some file ∧ disk.identityAt slot index ≠ some file.identity)

variable {index : ℕ} {file : File γ} {slot slot' source target : Slot}

theorem Disk.InOne.symm (h : disk.InOne index file slot slot') :
    disk.InOne index file slot' slot := Or.symm h

theorem identityAt_of_files (h : disk.files slot index = some file) :
    disk.identityAt slot index = some file.identity := by
  unfold Disk.identityAt
  rw [h, Option.map_some]

theorem Disk.InOne.rename (h : disk.InOne index file source target) (hne : source ≠ target)
    (htarget : disk.files target index = none) :
    (disk.moveFile index source target).InOne index file source target := by
  rcases h with ⟨hfile, -⟩ | ⟨hfile, -⟩
  · refine .inr ⟨?_, ?_⟩
    · rw [files_moveFile, if_pos rfl, if_neg (Ne.symm hne), if_pos rfl, hfile]
    · unfold identityAt
      rw [files_moveFile, if_pos rfl, if_pos rfl]
      exact nofun
  · rw [htarget] at hfile
    cases hfile

variable {identity : FileIdentity}

theorem Disk.InOne.frame (h : disk.InOne index file slot slot')
    (hsource : disk.identityAt source index = some identity) (hother : identity ≠ file.identity)
    (htarget : disk.files target index = none) :
    (disk.moveFile index source target).InOne index file slot slot' := by
  have hfile : ∀ slot, disk.files slot index = some file →
      (disk.moveFile index source target).files slot index = some file := by
    intro slot hslot
    have hne : slot ≠ source := by
      rintro rfl
      rw [identityAt_of_files hslot] at hsource
      exact hother (Option.some.inj hsource).symm
    have hne' : slot ≠ target := by
      rintro rfl
      rw [htarget] at hslot
      cases hslot
    rw [files_moveFile, if_pos rfl, if_neg hne, if_neg hne', hslot]
  have hnone : ∀ slot, disk.identityAt slot index ≠ some file.identity →
      (disk.moveFile index source target).identityAt slot index ≠ some file.identity := by
    intro slot hslot
    unfold identityAt at hslot hsource ⊢
    rw [files_moveFile, if_pos rfl]
    split_ifs
    · exact nofun
    · rw [hsource]
      exact fun heq => hother (Option.some.inj heq)
    · exact hslot
  rcases h with ⟨h, h'⟩ | ⟨h, h'⟩
  · exact .inl ⟨hfile _ h, hnone _ h'⟩
  · exact .inr ⟨hfile _ h, hnone _ h'⟩

theorem Disk.InOne.of_index_ne {index' : ℕ} (h : disk.InOne index file slot slot')
    (hne : index ≠ index') (source target : Slot) :
    (disk.moveFile index' source target).InOne index file slot slot' := by
  unfold InOne
  rw [files_moveFile, files_moveFile, if_neg hne, if_neg hne,
    identityAt_moveFile_of_index_ne hne, identityAt_moveFile_of_index_ne hne]
  exact h

/-! ### The statement -/

structure Kept (journal : Journal) (start disk : Disk γ) : Prop where
  original : ∀ entry ∈ journal.files, entry.selected → ∀ identity, entry.original = some identity →
    ∃ file, start.files .destination entry.index = some file ∧ file.identity = identity ∧
      disk.InOne entry.index file .destination (.backup journal.operation)
  verified : ∀ entry ∈ journal.files, entry.selected → ∃ file,
    start.files (.payload journal.operation) entry.index = some file ∧
      entry.replacement = some file.identity ∧
      disk.InOne entry.index file (.payload journal.operation) .destination
  unselected : ∀ entry ∈ journal.files, entry.selected = false → ∀ slot,
    disk.files slot entry.index = start.files slot entry.index

/-- A journal of the same operation, verified or not yet. -/
structure Journal.Describes (journal known : Journal) : Prop where
  operation : known.operation = journal.operation
  files : ∀ entry ∈ known.files, entry.selected → ∃ old ∈ journal.files, old.selected ∧
    old.index = entry.index ∧ old.original = entry.original ∧
      (entry.replacement = none ∨ entry.replacement = old.replacement)

/-- A journal is ready to be committed: its originals are in the destination, its verified files in
the payload, and the slots of an entry hold different files.  The last saved journal is this one, or
the one from before the verification. -/
structure Ready (E : Environment γ) (journal : Journal) (world : World γ) : Prop where
  state : journal.state = .readyToCommit
  sound : journal.Sound E.layout
  operation : world.operation = none ∨ world.operation = some journal
  saved : ∀ json loaded, world.disk.saved = some json →
    Journal.accept E.torrent E.layout json = .ok loaded → journal.Describes loaded
  original : ∀ entry ∈ journal.files, entry.selected → ∀ identity, entry.original = some identity →
    world.disk.identityAt .destination entry.index = some identity
  verified : ∀ entry ∈ journal.files, entry.selected →
    world.disk.identityAt (.payload journal.operation) entry.index = entry.replacement
  unique : ∀ entry ∈ journal.files, entry.selected → ∀ slot ∈ slots journal,
    ∀ slot' ∈ slots journal, slot ≠ slot' → ∀ identity,
      world.disk.identityAt slot entry.index = some identity →
        world.disk.identityAt slot' entry.index ≠ some identity

def isTransaction (_ : World γ) : Act γ → Prop
  | .commit _ _ | .rollback _ _ | .load _ | .crash => True
  | _ => False

/-! ### Atomic steps -/

/-- What is fixed about the journal that everything starts from. -/
structure Fixed (journal : Journal) : Prop where
  nodup : (journal.files.map Entry.index).Nodup
  distinct : ∀ entry ∈ journal.files, entry.selected → entry.original ≠ entry.replacement

/-- The invariant of the disk. -/
structure Safe (E : Environment γ) (journal : Journal) (start disk : Disk γ) : Prop where
  kept : Kept journal start disk
  saved : ∀ json loaded, disk.saved = some json →
    Journal.accept E.torrent E.layout json = .ok loaded → journal.Describes loaded

/-- The invariant of an operation. -/
structure Known (E : Environment γ) (journal known : Journal) : Prop where
  sound : known.Sound E.layout
  describes : journal.Describes known

theorem Journal.Describes.refl (journal : Journal) : journal.Describes journal :=
  ⟨rfl, fun entry hentry hselected => ⟨entry, hentry, hselected, rfl, rfl, .inr rfl⟩⟩

theorem Journal.Sound.follows {layout : Layout} {journal' : Journal} (h : journal.Sound layout)
    (hfollows : journal.Follows journal') : journal'.Sound layout := by
  refine ⟨fun entry hentry => ?_, ?_, fun hrequires entry hentry hselected => ?_⟩
  · obtain ⟨old, hold, step, rfl, hkeep⟩ := hfollows.files.mem hentry
    obtain ⟨htarget, huntouched, hverified⟩ := h.entries old hold
    refine ⟨htarget, fun hselected => ⟨?_, (huntouched hselected).2⟩, hverified⟩
    exact (hkeep hselected).trans (huntouched hselected).1
  · rw [hfollows.files.map_eq Entry.index fun _ _ => rfl]
    exact h.nodup
  · obtain ⟨old, hold, step, rfl, -⟩ := hfollows.files.mem hentry
    exact h.verified (hfollows.state hrequires) old hold hselected

theorem Known.follows {journal' : Journal} (h : Known E journal known)
    (hfollows : known.Follows journal') : Known E journal journal' := by
  refine ⟨h.sound.follows hfollows, hfollows.operation.trans h.describes.operation, ?_⟩
  intro entry hentry hselected
  obtain ⟨old, hold, step, rfl, -⟩ := hfollows.files.mem hentry
  exact h.describes.files old hold hselected

/-- A rename of a selected entry keeps every file where it may be. -/
theorem Kept.move {entry : Entry} (h : Kept journal start disk) (hfixed : Fixed journal)
    (hentry : entry ∈ journal.files) (hselected : entry.selected)
    (hmove : entry.Moves journal.operation source target identity)
    (hsource : disk.identityAt source entry.index = some identity)
    (htarget : disk.files target entry.index = none) :
    Kept journal start (disk.moveFile entry.index source target) := by
  have hsame : ∀ other ∈ journal.files, other.index = entry.index → other = entry :=
    fun other hother heq => List.inj_on_of_nodup_map hfixed.nodup hother hentry heq
  have hdistinct := hfixed.distinct entry hentry hselected
  refine ⟨fun other hother hsel original horiginal => ?_, fun other hother hsel => ?_,
    fun other hother hunselected slot => ?_⟩
  · obtain ⟨file, hstart, hfile, hone⟩ := h.original other hother hsel original horiginal
    refine ⟨file, hstart, hfile, ?_⟩
    by_cases hindex : other.index = entry.index
    · obtain rfl := hsame other hother hindex
      cases hmove with
      | backUp _ => exact hone.rename nofun htarget
      | restore _ => exact (hone.symm.rename nofun htarget).symm
      | install hreplacement =>
        refine hone.frame hsource (fun heq => hdistinct ?_) htarget
        rw [horiginal, hreplacement, heq, hfile]
      | uninstall hreplacement =>
        refine hone.frame hsource (fun heq => hdistinct ?_) htarget
        rw [horiginal, hreplacement, heq, hfile]
    · exact hone.of_index_ne hindex source target
  · obtain ⟨file, hstart, hfile, hone⟩ := h.verified other hother hsel
    refine ⟨file, hstart, hfile, ?_⟩
    by_cases hindex : other.index = entry.index
    · obtain rfl := hsame other hother hindex
      cases hmove with
      | install _ => exact hone.rename nofun htarget
      | uninstall _ => exact (hone.symm.rename nofun htarget).symm
      | backUp horiginal =>
        refine hone.frame hsource (fun heq => hdistinct ?_) htarget
        rw [horiginal, hfile, heq]
      | restore horiginal =>
        refine hone.frame hsource (fun heq => hdistinct ?_) htarget
        rw [horiginal, hfile, heq]
    · exact hone.of_index_ne hindex source target
  · have hindex : other.index ≠ entry.index := by
      intro heq
      rw [hsame other hother heq, hselected] at hunselected
      cases hunselected
    rw [Disk.files_moveFile, if_neg hindex]
    exact h.unselected other hother hunselected slot

theorem Atom.safe (h : Atom s s') (hfixed : Fixed journal)
    (hs : Known E journal s.journal ∧ Safe E journal start s.disk) :
    Known E journal s'.journal ∧ Safe E journal start s'.disk := by
  obtain ⟨hknown, hkept, hsaved⟩ := hs
  cases h with
  | remember journal' hfollows => exact ⟨hknown.follows hfollows, hkept, hsaved⟩
  | makeDirectory place dir hnone => exact ⟨hknown, ⟨hkept.1, hkept.2, hkept.3⟩, hsaved⟩
  | save hstate =>
    refine ⟨hknown, ⟨hkept.1, hkept.2, hkept.3⟩, fun json loaded hjson hload => ?_⟩
    cases hjson
    obtain ⟨hfiles, hoperation, -⟩ := accept_saved hknown.sound hstate hload
    refine ⟨hoperation.trans hknown.describes.operation, ?_⟩
    rw [hfiles]
    exact hknown.describes.files
  | @move entry source target identity hentry hselected hmove hsource htarget =>
    refine ⟨hknown, ?_, hsaved⟩
    obtain ⟨old, hold, hsel, hindex, horiginal, hreplacement⟩ :=
      hknown.describes.files entry hentry hselected
    rw [hknown.describes.operation] at hmove
    rw [← hindex] at hsource htarget ⊢
    have hmoves : old.Moves journal.operation source target identity := by
      cases hmove with
      | backUp h => exact .backUp (horiginal.trans h)
      | restore h => exact .restore (horiginal.trans h)
      | install h =>
        rcases hreplacement with hnone | heq
        · cases h.symm.trans hnone
        · exact .install (heq.symm.trans h)
      | uninstall h =>
        rcases hreplacement with hnone | heq
        · cases h.symm.trans hnone
        · exact .uninstall (heq.symm.trans h)
    exact hkept.move hfixed hold hsel hmoves hsource htarget

theorem Evolves.safe (h : Evolves s s') (hfixed : Fixed journal)
    (hs : Known E journal s.journal ∧ Safe E journal start s.disk) :
    Known E journal s'.journal ∧ Safe E journal start s'.disk := by
  induction h with
  | refl => exact hs
  | tail _ hatom ih => exact hatom.safe hfixed ih

/-! ### Runs -/

/-- The invariant of the system. -/
structure WorldSafe (E : Environment γ) (journal : Journal) (start : Disk γ) (world : World γ) :
    Prop where
  known : ∀ known, world.operation = some known → Known E journal known
  disk : Safe E journal start world.disk

theorem transact_safe {fresh : Fresh γ} {rollback : Bool} {script : List Fate}
    (hfixed : Fixed journal) (hknown : Known E journal known) (hsafe : Safe E journal start disk) :
    (∀ session ∈ (transact E fresh rollback ⟨⟨disk, known⟩, script, []⟩).2.trace,
      Safe E journal start session.disk) ∧
      Known E journal (transact E fresh rollback ⟨⟨disk, known⟩, script, []⟩).2.state.journal ∧
        Safe E journal start (transact E fresh rollback ⟨⟨disk, known⟩, script, []⟩).2.state.disk := by
  have hkeeps := @keeps_transact γ E fresh rollback ⟨disk, known⟩ hknown.sound.nodup
    ⟨⟨disk, known⟩, script, []⟩ nofun .refl rfl
  obtain ⟨htrace, hstate, -⟩ := hkeeps
  have hsafe' : ∀ session, Evolves ⟨disk, known⟩ session →
      Known E journal session.journal ∧ Safe E journal start session.disk :=
    fun session h => h.safe hfixed ⟨hknown, hsafe⟩
  exact ⟨fun session hsession => (hsafe' _ (htrace session hsession)).2, hsafe' _ hstate⟩

variable {world : World γ}

theorem WorldSafe.transact {world' : World γ} {fresh : Fresh γ} {rollback : Bool}
    {script : List Fate} (h : WorldSafe E journal start world) (hfixed : Fixed journal)
    (hstep : world.call (transact E fresh rollback) script = some world') :
    WorldSafe E journal start world' := by
  unfold World.call at hstep
  obtain ⟨known, hknown, heq⟩ := Option.map_eq_some_iff.mp hstep
  obtain ⟨-, hjournal, hdisk⟩ :=
    @transact_safe γ E journal known world.disk start fresh rollback script hfixed
      (h.known known hknown) h.disk
  rcases hrun : Staging.transact E fresh rollback ⟨⟨world.disk, known⟩, script, []⟩ with
    ⟨(_ | _) | _, run⟩
  all_goals
    rw [hrun] at heq hjournal hdisk
    subst heq
    refine ⟨fun known' hknown' => ?_, hdisk⟩
  · cases hknown'
    exact hjournal
  · cases hknown'
  · cases hknown'
    exact hjournal

theorem keeps_load {disk : Disk γ} : Prog.Keeps (· = disk) (fun _ => True) (load E)
    fun loaded _ => ∃ json, disk.saved = some json ∧ E.journalSize json ≤ journalLimit ∧
      Journal.accept E.torrent E.layout json = .ok loaded := by
  refine Prog.keeps_bind Prog.keeps_attempt fun _ => Prog.keeps_get fun current hcurrent _ => ?_
  obtain rfl : current = disk := hcurrent
  cases hsaved : current.saved with
  | none => exact Prog.keeps_throw
  | some json =>
    refine Prog.keeps_bind Prog.keeps_check fun _ => ?_
    refine Prog.keeps_bind (Q := fun loaded _ => E.journalSize json ≤ journalLimit ∧
      Journal.accept E.torrent E.layout json = .ok loaded) ?_ fun loaded => ?_
    · refine Prog.keeps_ofExcept fun _ _ ⟨hsize, _⟩ loaded hloaded => ?_
      exact ⟨of_decide_eq_true hsize, mapError_eq_ok.mp hloaded⟩
    · refine Prog.keeps_bind (Q := fun _ _ => E.journalSize json ≤ journalLimit ∧
        Journal.accept E.torrent E.layout json = .ok loaded)
        (Prog.keeps_ofExcept fun _ _ h _ _ => h) fun _ => Prog.keeps_pure fun _ _ h => ?_
      exact ⟨json, rfl, h⟩

theorem make_load {script : List Fate} :
    (world.make (load E) script).disk = world.disk ∧
      ∀ loaded, (world.make (load E) script).operation = some loaded → ∃ json,
        world.disk.saved = some json ∧ E.journalSize json ≤ journalLimit ∧
          Journal.accept E.torrent E.layout json = .ok loaded := by
  obtain ⟨-, -, hresult⟩ := @keeps_load γ E world.disk ⟨world.disk, script, []⟩ nofun rfl trivial
  unfold World.make
  rcases hrun : load E ⟨world.disk, script, []⟩ with ⟨_ | loaded, run⟩
  · exact ⟨rfl, nofun⟩
  · rw [hrun] at hresult
    refine ⟨rfl, fun loaded' hloaded => ?_⟩
    cases hloaded
    exact hresult loaded rfl

theorem WorldSafe.step {world' : World γ} {act : Act γ} (h : WorldSafe E journal start world)
    (hfixed : Fixed journal) (hact : isTransaction world act)
    (hstep : step E world act = some world') : WorldSafe E journal start world' := by
  cases act with
  | commit fresh script => exact h.transact hfixed hstep
  | rollback fresh script => exact h.transact hfixed hstep
  | load script =>
    cases hstep
    obtain ⟨hdisk, hload⟩ := @make_load γ E world script
    refine ⟨fun known hknown => ?_, hdisk ▸ h.disk⟩
    obtain ⟨json, hjson, -, haccept⟩ := hload known hknown
    exact ⟨accept_sound haccept, h.disk.saved json known hjson haccept⟩
  | crash =>
    cases hstep
    exact ⟨nofun, h.disk⟩
  | _ => exact absurd hact id

theorem Ready.fixed (h : Ready E journal world) : Fixed journal := by
  refine ⟨h.sound.nodup, fun entry hentry hselected heq => ?_⟩
  have hverified := h.verified entry hentry hselected
  have hrequires : journal.state.requiresVerified := by
    rw [h.state]
    rfl
  obtain ⟨identity, hidentity⟩ :=
    Option.isSome_iff_exists.mp (h.sound.verified hrequires entry hentry hselected)
  obtain ⟨file, rfl, -⟩ := (h.sound.entries entry hentry).verified identity hidentity
  have hreplacement : entry.replacement = some file := by rw [Entry.replacement, hidentity]; rfl
  rw [hreplacement] at hverified heq
  refine h.unique entry hentry hselected .destination (by simp [slots])
    (.payload journal.operation) (by simp [slots]) nofun file ?_ hverified
  exact h.original entry hentry hselected file heq

theorem exists_file (h : disk.identityAt slot index = some identity) :
    ∃ file, disk.files slot index = some file ∧ file.identity = identity :=
  Option.map_eq_some_iff.mp h

theorem Ready.kept (h : Ready E journal world) : Kept journal world.disk world.disk := by
  have hrequires : journal.state.requiresVerified := by
    rw [h.state]
    rfl
  refine ⟨fun entry hentry hselected identity hidentity => ?_, fun entry hentry hselected => ?_,
    fun _ _ _ _ => rfl⟩
  · have hfound := h.original entry hentry hselected identity hidentity
    obtain ⟨file, hfile, rfl⟩ := exists_file hfound
    refine ⟨file, hfile, rfl, .inl ⟨hfile, ?_⟩⟩
    exact h.unique entry hentry hselected .destination (by simp [slots])
      (.backup journal.operation) (by simp [slots]) nofun _ hfound
  · obtain ⟨identity, hidentity⟩ :=
      Option.isSome_iff_exists.mp (h.sound.verified hrequires entry hentry hselected)
    obtain ⟨identity, rfl, -⟩ := (h.sound.entries entry hentry).verified identity hidentity
    have hreplacement : entry.replacement = some identity := by rw [Entry.replacement, hidentity]; rfl
    have hfound := (h.verified entry hentry hselected).trans hreplacement
    obtain ⟨file, hfile, rfl⟩ := exists_file hfound
    refine ⟨file, hfile, hreplacement, .inl ⟨hfile, ?_⟩⟩
    exact h.unique entry hentry hselected (.payload journal.operation) (by simp [slots])
      .destination (by simp [slots]) nofun _ hfound

theorem Ready.safe (h : Ready E journal world) : WorldSafe E journal world.disk world := by
  refine ⟨fun known hknown => ?_, h.kept, h.saved⟩
  rcases h.operation with hnone | hsome
  · rw [hnone] at hknown
    cases hknown
  · rw [hsome] at hknown
    cases hknown
    exact ⟨h.sound, .refl _⟩

def sampleUnicode : Unicode where
  isPrint unit := 32 ≤ unit && unit < 127
  isLetter := Char.isAlpha
  toUpper text := String.ofList (text.toList.map Char.toUpper)
  toCaseFolded text := text

/-- A target of one file of one byte, whose right content is `true`. -/
def sampleEnvironment : Environment Bool where
  unicode := sampleUnicode
  torrent := "t"
  layout := ⟨[⟨["a", "b"], 1, false, false⟩], by decide⟩
  verifiedBytes readable := some fun index => if readable index = some true then 1 else 0
  journalSize _ := 0

def sampleIdentity (id : UInt64) : FileIdentity := ⟨1, id, 1, 0, by decide⟩

/-- The journal when the file was downloaded and verified. -/
def sampleJournal : Journal where
  version := 3
  torrent := "t"
  operation := "00000000-0000-0000-0000-000000000001"
  destination := "c:/"
  destinationIdentity := "AA=="
  destinationDirectories := "AA=="
  state := .readyToCommit
  files :=
    [{ index := 0, path := "a/b", size := 1, source := "", selected := true
       original := some (sampleIdentity 7), verified := some (some (sampleIdentity 8))
       step := .untouched }]
  payloadBytes := "1"
  requiredBytes := "1"
  availableBytes := "1"

def sampleDisk : Disk Bool where
  directories _ := none
  files slot index :=
    if index ≠ 0 then none
    else
      match slot with
      | .destination => some ⟨sampleIdentity 7, false, true⟩
      | .payload operation =>
        if operation = sampleJournal.operation then some ⟨sampleIdentity 8, true, true⟩ else none
      | .backup _ => none
  saved := none

theorem ready_sample :
    Ready sampleEnvironment sampleJournal ⟨sampleDisk, some sampleJournal, false⟩ := by
  refine ⟨rfl, ⟨fun entry hentry => ?_, by decide, fun _ entry hentry _ => ?_⟩, .inr rfl, nofun,
    fun entry hentry _ identity hidentity => ?_, fun entry hentry _ => ?_,
    fun entry hentry _ slot hslot slot' hslot' hne identity hidentity hidentity' => ?_⟩
  all_goals obtain rfl := List.mem_singleton.mp hentry
  · refine ⟨⟨_, rfl, rfl, rfl, rfl⟩, nofun, fun identity hidentity => ?_⟩
    cases hidentity
    exact ⟨_, rfl, rfl⟩
  · rfl
  · cases hidentity
    rfl
  · rfl
  · have hslots : slots sampleJournal = [.destination, .payload sampleJournal.operation,
        .backup sampleJournal.operation] := rfl
    rw [hslots] at hslot hslot'
    simp only [List.mem_cons, List.not_mem_nil, or_false] at hslot hslot'
    rcases hslot with rfl | rfl | rfl <;> rcases hslot' with rfl | rfl | rfl
    all_goals first
      | exact hne rfl
      | cases hidentity
    all_goals
      revert hidentity'
      decide

/-- What the file system chooses for the sample. -/
def sampleFresh : Fresh Bool where
  directory place := UInt64.ofNat (10 * place.length + if place.getLast? = some "backup" then 1 else 2)
  created _ := ⟨⟨1, 8, 0, 0, by decide⟩, false, true⟩
  written _ := ⟨sampleIdentity 8, true, true⟩

end Qbutt.Staging
