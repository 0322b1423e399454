import Qbutt.Algorithm.Except
import Qbutt.Profile.Targets
import Qbutt.Repair.Equiv.Conflict

/-!
# Reserved names do not overlap

Identities are the texts of clean absolute paths on one system.  One reservation refuses exactly the
names that touch a reserved one (`overlaps_iff_touches`), so after any sequence of calls the names
of different files do not touch, nor does a name touch a protected directory.  What is missed is the
root directory above another path (`reserveTargets_run`).
-/

namespace Qbutt.Profile

open List

open Repair (Touches Overlapping OneRoot SameSystem startsWith sectionsAbove startsWith_iff
  mem_sectionsAbove eq_iff_of_text ne_empty_of_text touches_iff overlapping_of_oneRoot)

/-! ### The order of texts -/

theorem codeUnits_injective : Function.Injective codeUnits := by
  intro c d h
  unfold codeUnits at h
  refine Char.toNat_inj.mp ?_
  split_ifs at h <;> omega

theorem textOrder_total : textOrder.Total := fun x y h h' =>
  String.toList_inj.mp (eq_of_not_lexLess codeUnits_injective h h')

theorem lowerBound_startsWith (targets : TextSet) (start : String) :
    ((targets.lowerBound start).any fun name => startsWith name start) = true ↔
      ∃ name ∈ targets.items, startsWith name start = true := by
  rw [Option.any_eq_true]
  refine OrderedSet.lowerBound_iff (fun name hname => ?_) fun name name' hname hbehind hbefore => ?_
  · exact not_lexLess_of_start ( isPrefixOf_iff_prefix.mp hname)
  · exact isPrefixOf_iff_prefix.mpr (start_of_between codeUnits_injective
      ( isPrefixOf_iff_prefix.mp hname) hbehind hbefore)

/-! ### Places -/

variable {E : Surroundings} {place : String → Location}
  {targets targets' : TextSet} {path directory : String}
  {protectedDirectories : List String} {files : List (List String)}

structure Placed (E : Surroundings) (place : String → Location) : Prop where
  text : ∀ path, E.repairPathIdentity path ≠ "" →
    (E.repairPathIdentity path).toList = (place path).text
  same : ∀ path path', SameSystem (place path) (place path')

/-- The names of a set are identities. -/
def Known (E : Surroundings) (targets : TextSet) : Prop :=
  ∀ name ∈ targets.items, name ≠ "" ∧ ∃ path, name = E.repairPathIdentity path

theorem overlaps_iff (targets : TextSet) (identity : String) : overlaps targets identity = true ↔
    ∃ name ∈ targets.items, name = identity ∨ name ∈ sectionsAbove identity ∨
      startsWith name (identity ++ "/") = true := by
  rw [overlaps, Bool.or_eq_true, lowerBound_startsWith, any_eq_true]
  constructor
  · rintro (⟨name, hname, hmem⟩ | ⟨name, hname, hstart⟩)
    · have htargets : name ∈ targets.items := by simpa [contains] using hmem
      rcases mem_cons.mp hname with heq | habove
      · exact ⟨name, htargets, .inl heq⟩
      · exact ⟨name, htargets, .inr (.inl habove)⟩
    · exact ⟨name, hname, .inr (.inr hstart)⟩
  · rintro ⟨name, hname, heq | habove | hstart⟩
    · exact .inl ⟨name, mem_cons.mpr (.inl heq), by simpa [contains] using hname⟩
    · exact .inl ⟨name, mem_cons_of_mem _ habove, by simpa [contains] using hname⟩
    · exact .inr ⟨name, hname, hstart⟩

theorem overlaps_iff_touches (hE : Placed E place) (hknown : Known E targets)
    (hpath : E.repairPathIdentity path ≠ "") :
    overlaps targets (E.repairPathIdentity path) = true ↔
      ∃ path', E.repairPathIdentity path' ∈ targets.items ∧ Touches (place path') (place path) := by
  have htouch : ∀ path', E.repairPathIdentity path' ≠ "" →
      (E.repairPathIdentity path' = E.repairPathIdentity path ∨
        E.repairPathIdentity path' ∈ sectionsAbove (E.repairPathIdentity path) ∨
        startsWith (E.repairPathIdentity path') (E.repairPathIdentity path ++ "/") = true ↔
      Touches (place path') (place path)) := by
    intro path' hpath'
    have htext := hE.text path hpath
    have htext' := hE.text path' hpath'
    rw [eq_iff_of_text htext' htext, mem_sectionsAbove htext' htext (hE.same path' path),
      startsWith_iff htext htext' (hE.same path path'), touches_iff]
  rw [overlaps_iff]
  constructor
  · rintro ⟨name, hname, hmeets⟩
    obtain ⟨hne, path', rfl⟩ := hknown name hname
    exact ⟨path', hname, (htouch path' hne).mp hmeets⟩
  · rintro ⟨path', hname, htouches⟩
    exact ⟨_, hname, (htouch path' (hknown _ hname).1).mpr htouches⟩

theorem meetsProtected_iff (hE : Placed E place) (hpath : E.repairPathIdentity path ≠ "")
    (hdirectory : E.repairPathIdentity directory ≠ "") :
    meetsProtected (E.repairPathIdentity path) (E.repairPathIdentity directory) = true ↔
      Touches (place path) (place directory) := by
  have htext := hE.text path hpath
  have htext' := hE.text directory hdirectory
  rw [meetsProtected, Bool.or_eq_true, Bool.or_eq_true, beq_iff_eq, eq_iff_of_text htext htext',
    startsWith_iff htext' htext (hE.same directory path),
    startsWith_iff htext htext' (hE.same path directory), touches_iff, or_assoc]
  tauto

/-! ### One file -/

/-- What a successful reservation of names, file by file, tells of a set before and after it. -/
structure Reserved (E : Surroundings) (place : String → Location)
    (protectedDirectories : List String) (targets : TextSet) (files : List (List String)) (targets' : TextSet) : Prop where
  resolved : ∀ names ∈ files, ∀ path ∈ names, E.repairPathIdentity path ≠ ""
  clear : ∀ names ∈ files, ∀ path ∈ names, ∀ directory ∈ protectedDirectories,
    ¬ Touches (place path) (place directory)
  apart : ∀ names ∈ files, ∀ path ∈ names, ∀ path', E.repairPathIdentity path' ∈ targets.items →
    ¬ Touches (place path') (place path)
  pairwise : files.Pairwise fun names names' =>
    ∀ path ∈ names, ∀ path' ∈ names', ¬ Touches (place path) (place path')
  members : ∀ name, name ∈ targets'.items ↔
    name ∈ targets.items ∨ ∃ names ∈ files, ∃ path ∈ names, name = E.repairPathIdentity path

theorem Reserved.known (h : Reserved E place protectedDirectories targets files targets')
    (hknown : Known E targets) : Known E targets' := by
  intro name hname
  rcases (h.members name).mp hname with hold | ⟨names, hnames, path, hpath, rfl⟩
  · exact hknown name hold
  · exact ⟨h.resolved names hnames path hpath, path, rfl⟩

theorem Reserved.refl (targets : TextSet) :
    Reserved E place protectedDirectories targets [] targets where
  resolved _ h := absurd h not_mem_nil
  clear _ h := absurd h not_mem_nil
  apart _ h := absurd h not_mem_nil
  pairwise := .nil
  members name := by simp

theorem Reserved.trans {mid : TextSet} {files' : List (List String)}
    (h : Reserved E place protectedDirectories targets files mid)
    (h' : Reserved E place protectedDirectories mid files' targets') :
    Reserved E place protectedDirectories targets (files ++ files') targets' where
  resolved names hnames := (mem_append.mp hnames).elim (h.resolved names) (h'.resolved names)
  clear names hnames := (mem_append.mp hnames).elim (h.clear names) (h'.clear names)
  apart names hnames path hpath path' hpath' := by
    rcases mem_append.mp hnames with hnames | hnames
    · exact h.apart names hnames path hpath path' hpath'
    · exact h'.apart names hnames path hpath path' ((h.members _).mpr (.inl hpath'))
  pairwise := by
    refine pairwise_append.mpr ⟨h.pairwise, h'.pairwise, ?_⟩
    intro names hnames names' hnames' path hpath path' hpath'
    exact h'.apart names' hnames' path' hpath' path
      ((h.members _).mpr (.inr ⟨names, hnames, path, hpath, rfl⟩))
  members name := by
    rw [h'.members, h.members, or_assoc]
    simp only [mem_append, or_and_right, exists_or]

theorem reserved_foldlM {α : Type} {f : TextSet → α → Except String TextSet}
    (filesOf : α → List (List String))
    (hstep : ∀ targets x targets', Known E targets → f targets x = .ok targets' →
      Reserved E place protectedDirectories targets (filesOf x) targets') {xs : List α}
    (hknown : Known E targets) (hrun : xs.foldlM f targets = .ok targets') :
    Reserved E place protectedDirectories targets (xs.flatMap filesOf) targets' := by
  induction xs generalizing targets with
  | nil =>
    obtain rfl := Except.ok.inj hrun
    exact Reserved.refl targets
  | cons x xs ih =>
    rw [foldlM_cons] at hrun
    obtain ⟨mid, hmid, hrest⟩ := bind_eq_ok.mp hrun
    have hfirst := hstep targets x mid hknown hmid
    rw [flatMap_cons]
    exact hfirst.trans (ih (hfirst.known hknown) hrest)

theorem checkAliases_spec {imported : Bool} {actualIdentity : String}
    {protectedIdentities paths identities identities' : List String}
    (h : paths.foldlM (checkAlias E imported actualIdentity protectedIdentities) identities =
      .ok identities') :
    (∀ path ∈ paths, E.repairPathIdentity path ≠ "" ∧
      ∀ directory ∈ protectedIdentities,
        meetsProtected (E.repairPathIdentity path) directory = false) ∧
    ∀ name, name ∈ identities' ↔ name ∈ identities ∨ ∃ path ∈ paths,
      name = E.repairPathIdentity path := by
  induction paths generalizing identities with
  | nil =>
    cases h
    exact ⟨fun _ h => absurd h not_mem_nil, fun name => by simp⟩
  | cons path paths ih =>
    rw [foldlM_cons] at h
    obtain ⟨mid, hmid, hrest⟩ := bind_eq_ok.mp h
    obtain ⟨hpaths, hmembers⟩ := ih hrest
    rw [checkAlias] at hmid
    split_ifs at hmid with hne hother hprotected hcontains
    · cases hmid
      refine ⟨forall_mem_cons.mpr ⟨⟨hne, by simpa using hprotected⟩, hpaths⟩, fun name => ?_⟩
      have hold : E.repairPathIdentity path ∈ identities := by simpa using hcontains
      rw [hmembers]
      constructor
      · rintro (hname | ⟨p, hp, rfl⟩)
        · exact .inl hname
        · exact .inr ⟨p, mem_cons_of_mem _ hp, rfl⟩
      · rintro (hname | ⟨p, hp, rfl⟩)
        · exact .inl hname
        · rcases mem_cons.mp hp with rfl | hp
          · exact .inl hold
          · exact .inr ⟨p, hp, rfl⟩
    · cases hmid
      refine ⟨forall_mem_cons.mpr ⟨⟨hne, by simpa using hprotected⟩, hpaths⟩, fun name => ?_⟩
      rw [hmembers, mem_append, mem_singleton, or_assoc]
      simp only [mem_cons, exists_eq_or_imp]

/-- The identities of a file are put into the set, and none touches what was there. -/
theorem reserveIdentities_spec (hE : Placed E place) {identities : List String}
    (hknown : Known E targets)
    (hidentities : ∀ name ∈ identities, name ≠ "" ∧ ∃ path, name = E.repairPathIdentity path)
    (h : identities.foldlM reserveIdentity targets = .ok targets') :
    (∀ path, E.repairPathIdentity path ∈ identities → ∀ path',
      E.repairPathIdentity path' ∈ targets.items → ¬ Touches (place path') (place path)) ∧
    ∀ name, name ∈ targets'.items ↔ name ∈ targets.items ∨ name ∈ identities := by
  induction identities generalizing targets with
  | nil =>
    cases h
    exact ⟨fun _ h => absurd h not_mem_nil, fun name => by simp⟩
  | cons identity identities ih =>
    rw [foldlM_cons] at h
    obtain ⟨mid, hmid, hrest⟩ := bind_eq_ok.mp h
    obtain ⟨⟨hne, path₀, rfl⟩, hrestIdentities⟩ := forall_mem_cons.mp hidentities
    rw [reserveIdentity] at hmid
    split_ifs at hmid with hoverlaps
    cases hmid
    have hmembers : ∀ name, name ∈ (targets.insert (E.repairPathIdentity path₀)).items ↔
        name = E.repairPathIdentity path₀ ∨ name ∈ targets.items :=
      fun name => OrderedSet.mem_insert_iff textOrder_total
    have hknown' : Known E (targets.insert (E.repairPathIdentity path₀)) := by
      intro name hname
      rcases (hmembers name).mp hname with rfl | hname
      · exact ⟨hne, path₀, rfl⟩
      · exact hknown name hname
    obtain ⟨hapart, hall⟩ := ih hknown' hrestIdentities hrest
    refine ⟨fun path hpath path' hpath' => ?_, fun name => ?_⟩
    · rcases mem_cons.mp hpath with heq | hpath
      · intro htouches
        refine hoverlaps ?_
        rw [← heq, overlaps_iff_touches hE hknown (heq ▸ hne)]
        exact ⟨path', hpath', htouches⟩
      · exact hapart path hpath path' ((hmembers _).mpr (.inr hpath'))
    · rw [hall, hmembers, mem_cons, or_assoc, or_left_comm]

/-- The paths that a file takes; padding takes none. -/
def fileNames (E : Surroundings) (params : LoadTorrentParams) (entry : PayloadFile × ℕ) :
    List String :=
  if entry.1.pad then [] else aliases E params entry.2 entry.1

theorem reserveFile_spec (hE : Placed E place) {params : LoadTorrentParams} {imported : Bool}
    (hprotected : ∀ directory ∈ protectedDirectories, E.repairPathIdentity directory ≠ "")
    (hknown : Known E targets) {entry : PayloadFile × ℕ}
    (h : reserveFile E params (protectedDirectories.map E.repairPathIdentity) imported targets
      entry = .ok targets') :
    Reserved E place protectedDirectories targets [fileNames E params entry] targets' := by
  rw [reserveFile] at h
  rw [fileNames]
  by_cases hpad : entry.1.pad = true
  · rw [if_pos hpad] at h ⊢
    cases h
    exact ⟨by simp, by simp, by simp, pairwise_singleton _ _, fun name => by simp⟩
  · rw [if_neg hpad] at h ⊢
    split_ifs at h with hlimit
    dsimp only at h
    split_ifs at h with hactual
    obtain ⟨identities, hidentities, hrest⟩ := bind_eq_ok.mp h
    obtain ⟨hpaths, hmembers⟩ := checkAliases_spec hidentities
    have hall : ∀ name, name ∈ identities ↔ ∃ path ∈ aliases E params entry.2 entry.1,
        name = E.repairPathIdentity path := fun name => by rw [hmembers]; simp
    obtain ⟨hapart, htargets⟩ := reserveIdentities_spec hE hknown (fun name hname => by
      obtain ⟨path, hpath, rfl⟩ := (hall name).mp hname
      exact ⟨(hpaths path hpath).1, path, rfl⟩) hrest
    refine ⟨?_, ?_, ?_, pairwise_singleton _ _, fun name => ?_⟩
    · rw [forall_mem_singleton]
      exact fun path hpath => (hpaths path hpath).1
    · rw [forall_mem_singleton]
      intro path hpath directory hdirectory htouches
      have hmeets := (hpaths path hpath).2 _ (mem_map_of_mem hdirectory)
      rw [Bool.eq_false_iff, ne_eq, meetsProtected_iff hE (hpaths path hpath).1
        (hprotected directory hdirectory)] at hmeets
      exact hmeets htouches
    · rw [forall_mem_singleton]
      exact fun path hpath => hapart path ((hall _).mpr ⟨path, hpath, rfl⟩)
    · rw [htargets, hall]
      simp

/-! ### Calls -/

/-- The paths of the files of a call. -/
def callNames (E : Surroundings) (call : LoadTorrentParams × Bool) : List (List String) :=
  match mappedFiles E call.1 with
  | .error _ => []
  | .ok files => files.zipIdx.map (fileNames E call.1)

theorem protectedIdentity_ok {identity : String}
    (h : protectedIdentity E directory = .ok identity) :
    E.repairPathIdentity directory ≠ "" ∧ identity = E.repairPathIdentity directory := by
  unfold protectedIdentity at h
  split_ifs at h with hne
  exact ⟨hne, (Except.ok.inj h).symm⟩

theorem mapM_protectedIdentity {directories identities : List String}
    (h : directories.mapM (protectedIdentity E) = .ok identities) :
    (∀ directory ∈ directories, E.repairPathIdentity directory ≠ "") ∧
      identities = directories.map E.repairPathIdentity := by
  have hall := forall₂_of_mapM h
  clear h
  induction hall with
  | nil => exact ⟨fun _ h => absurd h not_mem_nil, rfl⟩
  | cons hfirst _ ih =>
    obtain ⟨hne, rfl⟩ := protectedIdentity_ok hfirst
    obtain ⟨hrest, rfl⟩ := ih
    exact ⟨forall_mem_cons.mpr ⟨hne, hrest⟩, rfl⟩

theorem reserveTargets_spec (hE : Placed E place) (hknown : Known E targets)
    {call : LoadTorrentParams × Bool}
    (h : reserveTargets E protectedDirectories targets call = .ok targets') :
    Reserved E place protectedDirectories targets (callNames E call) targets' := by
  rw [reserveTargets] at h
  obtain ⟨files, hfiles, h⟩ := bind_eq_ok.mp h
  obtain ⟨identities, hidentities, h⟩ := bind_eq_ok.mp h
  obtain ⟨hprotected, rfl⟩ := mapM_protectedIdentity hidentities
  have hrun := reserved_foldlM (fun entry => [fileNames E call.1 entry])
    (fun targets entry targets' hknown hfile => reserveFile_spec hE hprotected hknown hfile)
    hknown h
  rw [← map_eq_flatMap] at hrun
  rw [callNames, hfiles]
  exact hrun

/-! ### Runs -/

/-- The paths of the files of all calls, file by file. -/
def runNames (E : Surroundings) (calls : List (LoadTorrentParams × Bool)) : List (List String) :=
  calls.flatMap (callNames E)

/-- No two places of different files have a relation, and no place has it with a protected
directory. -/
def Apart (relation : Location → Location → Prop) (place : String → Location)
    (protectedDirectories : List String) (files : List (List String)) : Prop :=
  (files.Pairwise fun names names' =>
    ∀ path ∈ names, ∀ path' ∈ names', ¬ relation (place path) (place path')) ∧
  ∀ names ∈ files, ∀ path ∈ names, ∀ directory ∈ protectedDirectories,
    ¬ relation (place path) (place directory)

theorem overlapping_iff {a b : Location} (h : SameSystem a b) :
    Overlapping a b ↔ Touches a b ∨ OneRoot a b := by
  constructor
  · intro hoverlapping
    by_cases hroot : OneRoot a b
    · exact .inr hroot
    · exact .inl ⟨hoverlapping, hroot⟩
  · rintro (htouches | hroot)
    · exact htouches.1
    · exact overlapping_of_oneRoot h hroot

/-- Calls that succeed keep the names of different files apart from each other and from the
protected directories, the root directory above another path excepted; they reserve all names; and a
call with a name that touches a reserved one fails. -/
theorem reserveTargets_run (hE : Placed E place) {calls : List (LoadTorrentParams × Bool)}
    {targets : TextSet}
    (hrun : calls.foldlM (reserveTargets E protectedDirectories) OrderedSet.empty = .ok targets) :
    (Apart Overlapping place protectedDirectories (runNames E calls) ↔
      Apart OneRoot place protectedDirectories (runNames E calls)) ∧
    (∀ names ∈ runNames E calls, ∀ path ∈ names, E.repairPathIdentity path ∈ targets.items) ∧
    ∀ call, (∃ names ∈ callNames E call, ∃ path ∈ names, ∃ path',
        E.repairPathIdentity path' ∈ targets.items ∧ Overlapping (place path') (place path) ∧
          ¬ OneRoot (place path') (place path)) →
      ∃ error, reserveTargets E protectedDirectories targets call = .error error := by
  have hempty : Known E OrderedSet.empty := fun _ h => absurd h not_mem_nil
  have hreserved := reserved_foldlM (callNames E)
    (fun targets call targets' hknown hcall => reserveTargets_spec hE hknown hcall) hempty hrun
  refine ⟨⟨?_, ?_⟩, ?_, ?_⟩
  · rintro ⟨hfiles, hprotected⟩
    refine ⟨hfiles.imp fun h path hpath path' hpath' hroot => ?_,
      fun names hnames path hpath directory hdirectory hroot => ?_⟩
    · exact h path hpath path' hpath' ((overlapping_iff (hE.same _ _)).mpr (.inr hroot))
    · exact hprotected names hnames path hpath directory hdirectory
        ((overlapping_iff (hE.same _ _)).mpr (.inr hroot))
  · rintro ⟨hfiles, hprotected⟩
    have hboth := hreserved.pairwise.and hfiles
    refine ⟨hboth.imp (fun h path hpath path' hpath' hoverlapping => ?_),
      fun names hnames path hpath directory hdirectory hoverlapping => ?_⟩
    · rcases (overlapping_iff (hE.same _ _)).mp hoverlapping with htouches | hroot
      · exact h.1 path hpath path' hpath' htouches
      · exact h.2 path hpath path' hpath' hroot
    · rcases (overlapping_iff (hE.same _ _)).mp hoverlapping with htouches | hroot
      · exact hreserved.clear names hnames path hpath directory hdirectory htouches
      · exact hprotected names hnames path hpath directory hdirectory hroot
  · exact fun names hnames path hpath =>
      (hreserved.members _).mpr (.inr ⟨names, hnames, path, hpath, rfl⟩)
  · rintro call ⟨names, hnames, path, hpath, path', hpath', htouches⟩
    cases hcall : reserveTargets E protectedDirectories targets call with
    | error error => exact ⟨error, rfl⟩
    | ok targets' =>
      have hspec := reserveTargets_spec hE (hreserved.known hempty) hcall
      exact absurd htouches (hspec.apart names hnames path hpath path' hpath')

/-! ### Surroundings with known paths -/

def knownSurroundings (known : List (String × Location)) : Surroundings where
  repairPathIdentity path := ((known.lookup path).map fun l => String.ofList l.text).getD ""
  cleanPath path := path
  filePath directory name := directory ++ "/" ++ name
  renamedPath name := name
  hasDriveLetter _ := false
  isSymLink _ := false
  fileExists _ := false

def knownPlace (known : List (String × Location)) (path : String) : Location :=
  (known.lookup path).getD ⟨.root, []⟩

theorem placed_known {known : List (String × Location)}
    (hroot : ∀ entry ∈ known, entry.2.volume = .root) :
    Placed (knownSurroundings known) (knownPlace known) where
  text path hpath := by
    cases hlook : known.lookup path with
    | none => simp [knownSurroundings, hlook] at hpath
    | some l => simp [knownSurroundings, knownPlace, hlook, String.toList_ofList]
  same path path' := by
    have hvolume : ∀ path, (knownPlace known path).volume = .root := by
      intro path
      cases hlook : known.lookup path with
      | none => rw [knownPlace, hlook, Option.getD_none]
      | some l =>
        obtain ⟨front, back, hknown, _⟩ := lookup_eq_some_iff.mp hlook
        have hmem : (path, l) ∈ known := hknown ▸ mem_append_right front mem_cons_self
        rw [knownPlace, hlook, Option.getD_some]
        exact hroot (path, l) hmem
    exact ⟨fun _ => hvolume path', fun _ => hvolume path⟩

/-- A place below the root directory; names that are none are left out. -/
def placeOf (names : List String) : Location :=
  ⟨.root, names.filterMap fun name =>
    if h : name.toList ≠ [] ∧ '/' ∉ name.toList then some ⟨name.toList, h.1, h.2⟩ else none⟩

/-- The paths of the files "f" and "g" in two directories, and a protected directory; the identity
of the first file is given. -/
def twoFiles (first : List String) : List (String × Location) :=
  [("/d/f", first), ("/d/f.!qB", ["d", "f.!qB"]), ("/d/.unwanted/f", ["d", ".unwanted", "f"]),
    ("/d/.unwanted/f.!qB", ["d", ".unwanted", "f.!qB"]), ("/e/g", ["e", "g"]),
    ("/e/g.!qB", ["e", "g.!qB"]), ("/e/.unwanted/g", ["e", ".unwanted", "g"]),
    ("/e/.unwanted/g.!qB", ["e", ".unwanted", "g.!qB"]), ("/p", ["p"])].map
      fun entry => (entry.1, placeOf entry.2)

def twoCalls : List (LoadTorrentParams × Bool) :=
  [(⟨"/d", some [⟨false, "f"⟩], []⟩, false), (⟨"/e", some [⟨false, "g"⟩], []⟩, true)]

theorem placed_twoFiles (first : List String) :
    Placed (knownSurroundings (twoFiles first)) (knownPlace (twoFiles first)) :=
  placed_known fun entry hentry => by
    obtain ⟨e, _, rfl⟩ := mem_map.mp hentry
    rfl

theorem isOk_iff {α : Type} {result : Except String α} :
    result.isOk = true ↔ ∃ value, result = .ok value := by
  cases result with
  | error e => simp [Except.isOk, Except.toBool]
  | ok value => simp [Except.isOk, Except.toBool]

/-- Where no name is that of the root directory, no two of them are told apart by it. -/
theorem apart_oneRoot (hfiles : ∀ names ∈ files, ∀ path ∈ names, (place path).names ≠ [])
    (hprotected : ∀ directory ∈ protectedDirectories, (place directory).names ≠ []) :
    Apart OneRoot place protectedDirectories files := by
  have hnot : ∀ a b : Location, a.names ≠ [] → b.names ≠ [] → ¬ OneRoot a b := by
    rintro a b ha hb (⟨hroot, _⟩ | ⟨hroot, _⟩)
    · exact ha hroot.2
    · exact hb hroot.2
  refine ⟨pairwise_of_forall_mem_list fun names hnames names' hnames' path hpath path'
      hpath' => hnot _ _ (hfiles names hnames path hpath) (hfiles names' hnames' path' hpath'),
    fun names hnames path hpath directory hdirectory =>
      hnot _ _ (hfiles names hnames path hpath) (hprotected directory hdirectory)⟩

theorem reserveTargets_run_two : ∃ targets,
    twoCalls.foldlM (reserveTargets (knownSurroundings (twoFiles ["d", "f"])) ["/p"])
        OrderedSet.empty = .ok targets ∧
      Apart Overlapping (knownPlace (twoFiles ["d", "f"])) ["/p"]
        (runNames (knownSurroundings (twoFiles ["d", "f"])) twoCalls) := by
  obtain ⟨targets, hrun⟩ := isOk_iff.mp (by decide +kernel :
    (twoCalls.foldlM (reserveTargets (knownSurroundings (twoFiles ["d", "f"])) ["/p"])
      OrderedSet.empty).isOk = true)
  refine ⟨targets, hrun, (reserveTargets_run (placed_twoFiles _) hrun).1.mpr ?_⟩
  refine apart_oneRoot ?_ ?_
  · have hall : (runNames (knownSurroundings (twoFiles ["d", "f"])) twoCalls).all (fun names =>
        names.all fun path => !(knownPlace (twoFiles ["d", "f"]) path).names.isEmpty) = true := by
      decide +kernel
    simpa [all_eq_true] using hall
  · rw [forall_mem_singleton]
    decide +kernel

/-- A file whose identity is the root directory is not seen above another one. -/
theorem root_above_file : Placed (knownSurroundings (twoFiles [])) (knownPlace (twoFiles [])) ∧
    ∃ targets, twoCalls.foldlM (reserveTargets (knownSurroundings (twoFiles [])) [])
        OrderedSet.empty = .ok targets ∧
      ¬ Apart Overlapping (knownPlace (twoFiles [])) []
        (runNames (knownSurroundings (twoFiles [])) twoCalls) := by
  obtain ⟨targets, hrun⟩ := isOk_iff.mp (by decide +kernel :
    (twoCalls.foldlM (reserveTargets (knownSurroundings (twoFiles [])) []) OrderedSet.empty).isOk =
      true)
  refine ⟨placed_twoFiles _, targets, hrun, fun happart => ?_⟩
  obtain ⟨first, second, hnames, hfirst, hsecond⟩ : ∃ first second,
      runNames (knownSurroundings (twoFiles [])) twoCalls = [first, second] ∧
        "/d/f" ∈ first ∧ "/e/g" ∈ second :=
    ⟨_, _, rfl, mem_cons_self, mem_cons_self⟩
  have hpair := happart.1
  rw [hnames, pairwise_pair] at hpair
  refine hpair "/d/f" hfirst "/e/g" hsecond (.inr (.inl ⟨rfl, nil_prefix, fun heq => ?_⟩))
  have hempty := congrArg List.isEmpty heq
  revert hempty
  decide +kernel

end Qbutt.Profile
