import Qbutt.Repair.Conflict

/-!
# Which layouts are found to overlap

With identities that are the texts of clean absolute paths on one system, `conflictingTorrent` finds
exactly the pairs of paths one of which is, contains or lies below the other, except that it does not
see the root directory of a system without volumes above another path (`Touches`, `conflict_iff`).
-/

namespace Qbutt.Repair

open List

/-! ### Pairs of paths -/

/-- One path is the other, or a directory above or below it. -/
def Overlapping (a b : Location) : Prop := a = b ∨ a.Contains b ∨ b.Contains a

/-- One of two paths is the root directory of a system without volumes. -/
def OneRoot (a b : Location) : Prop := (a.IsRoot ∧ ¬ b.IsRoot) ∨ (b.IsRoot ∧ ¬ a.IsRoot)

/-- The paths overlap, and neither is the root directory above the other. -/
def Touches (a b : Location) : Prop := Overlapping a b ∧ ¬ OneRoot a b

/-- Both paths are on one system, where either all paths start at the root or none does. -/
def SameSystem (a b : Location) : Prop := a.volume = .root ↔ b.volume = .root

theorem overlapping_of_oneRoot {a b : Location} (hsame : SameSystem a b) (h : OneRoot a b) :
    Overlapping a b := by
  rcases h with ⟨ha, hb⟩ | ⟨hb, ha⟩
  · have hvolume := hsame.mp ha.1
    refine .inr (.inl ⟨ha.1.trans hvolume.symm, ?_, fun heq => hb ⟨hvolume, heq ▸ ha.2⟩⟩)
    rw [ha.2]
    exact nil_prefix
  · have hvolume := hsame.mpr hb.1
    refine .inr (.inr ⟨hb.1.trans hvolume.symm, ?_, fun heq => ha ⟨hvolume, heq ▸ hb.2⟩⟩)
    rw [hb.2]
    exact nil_prefix

theorem touches_iff {a b : Location} : Touches a b ↔
    a = b ∨ (¬ a.IsRoot ∧ a.Contains b) ∨ (¬ b.IsRoot ∧ b.Contains a) := by
  constructor
  · rintro ⟨rfl | hcontains | hcontains, hroot⟩
    · exact .inl rfl
    · refine .inr (.inl ⟨fun ha => hroot (.inl ⟨ha, fun hb => ?_⟩), hcontains⟩)
      exact not_contains_root hb hcontains
    · refine .inr (.inr ⟨fun hb => hroot (.inr ⟨hb, fun ha => ?_⟩), hcontains⟩)
      exact not_contains_root ha hcontains
  · rintro (rfl | ⟨ha, hcontains⟩ | ⟨hb, hcontains⟩)
    · exact ⟨.inl rfl, fun h => h.elim (fun h => h.2 h.1) fun h => h.2 h.1⟩
    · refine ⟨.inr (.inl hcontains), ?_⟩
      rintro (⟨hroot, -⟩ | ⟨hroot, -⟩)
      · exact ha hroot
      · exact not_contains_root hroot hcontains
    · refine ⟨.inr (.inr hcontains), ?_⟩
      rintro (⟨hroot, -⟩ | ⟨hroot, -⟩)
      · exact not_contains_root hroot hcontains
      · exact hb hroot

/-! ### What the strings say -/

section Texts

variable {p q : String} {a b : Location}

theorem eq_iff_of_text (hp : p.toList = a.text) (hq : q.toList = b.text) : p = q ↔ a = b := by
  constructor
  · rintro rfl
    exact text_injective (hp.symm.trans hq)
  · rintro rfl
    exact String.toList_inj.mp (hp.trans hq.symm)

theorem ne_empty_of_text (hp : p.toList = a.text) : p ≠ "" := by
  rintro rfl
  have hpos := length_text_pos a
  rw [← hp] at hpos
  exact absurd hpos (by decide)

theorem startsWith_iff (hp : p.toList = a.text) (hq : q.toList = b.text)
    (hsame : SameSystem a b) : startsWith q (p ++ "/") = true ↔ ¬ a.IsRoot ∧ a.Contains b := by
  rw [startsWith, isPrefixOf_iff_prefix, String.toList_append, hp, hq]
  exact text_below_iff_of_same hsame.mp

theorem mem_sectionsAbove (hp : p.toList = a.text) (hq : q.toList = b.text)
    (hsame : SameSystem a b) : p ∈ sectionsAbove q ↔ ¬ a.IsRoot ∧ a.Contains b := by
  have hmem : p ∈ sectionsAbove q ↔ p.toList ∈ parents q.toList := by
    rw [sectionsAbove, mem_map]
    constructor
    · rintro ⟨x, hx, rfl⟩
      rwa [String.toList_ofList]
    · exact fun hx => ⟨p.toList, hx, String.ofList_toList⟩
  have hne : a.text ≠ [] := fun hnil => by
    have hpos := length_text_pos a
    rw [hnil] at hpos
    exact absurd hpos (by decide)
  rw [hmem, mem_parents, hp, hq, text_below_iff_of_same hsame.mp]
  exact ⟨fun h => h.2, fun h => ⟨hne, h⟩⟩

/-- The test of an unresolved directory. -/
theorem meetsRoot_iff (hp : p.toList = a.text) (hq : q.toList = b.text) (hsame : SameSystem a b) :
    meetsRoot p q = true ↔ Touches a b := by
  have hsame' : SameSystem b a := hsame.symm
  have heq : q = p ↔ a = b := eq_comm.trans (eq_iff_of_text hp hq)
  simp only [meetsRoot, Bool.or_eq_true, decide_eq_true_eq, ne_empty_of_text hq, false_or, heq,
    startsWith_iff hp hq hsame, startsWith_iff hq hp hsame', touches_iff, or_assoc]

end Texts

/-! ### The files of other torrents -/

section Identities

variable {P : Platform} {place : String → Location}

def IdentityAt (P : Platform) (place : String → Location) (path : String) : Prop :=
  (repairPathIdentity P path).toList = (place path).text

theorem overlaps_iff {targets : List String} {path : String}
    (htargets : ∀ target ∈ targets, IdentityAt P place target) (hpath : IdentityAt P place path)
    (hsame : ∀ target ∈ targets, SameSystem (place target) (place path)) :
    overlaps (targets.map (repairPathIdentity P))
        ((targets.map (repairPathIdentity P)).flatMap sectionsAbove) (repairPathIdentity P path) = true ↔
      ∃ target ∈ targets, Touches (place target) (place path) := by
  simp only [overlaps, Bool.or_eq_true, contains_iff_mem, any_eq_true, mem_flatMap, mem_map]
  constructor
  · rintro ((⟨target, hmem, heq⟩ | ⟨_, ⟨target, hmem, rfl⟩, habove⟩) |
      ⟨_, habove, target, hmem, rfl⟩)
    · exact ⟨target, hmem,
        touches_iff.mpr (.inl ((eq_iff_of_text (htargets target hmem) hpath).mp heq))⟩
    · exact ⟨target, hmem, touches_iff.mpr (.inr (.inr
        ((mem_sectionsAbove hpath (htargets target hmem) (hsame target hmem).symm).mp habove)))⟩
    · exact ⟨target, hmem, touches_iff.mpr (.inr (.inl
        ((mem_sectionsAbove (htargets target hmem) hpath (hsame target hmem)).mp habove)))⟩
  · rintro ⟨target, hmem, htouches⟩
    rcases touches_iff.mp htouches with heq | hcontains | hcontains
    · exact .inl (.inl ⟨target, hmem, (eq_iff_of_text (htargets target hmem) hpath).mpr heq⟩)
    · exact .inr ⟨_, (mem_sectionsAbove (htargets target hmem) hpath (hsame target hmem)).mpr hcontains,
        target, hmem, rfl⟩
    · exact .inl (.inr ⟨_, ⟨target, hmem, rfl⟩,
        (mem_sectionsAbove hpath (htargets target hmem) (hsame target hmem).symm).mpr hcontains⟩)

theorem checkOthers_eq_empty {ownedPaths ownedDirectories : List String} {cancelled : ℕ → Bool}
    {others : List (String × String)}
    (hothers : ∀ other ∈ others, IdentityAt P place other.1) :
    checkOthers P ownedPaths ownedDirectories cancelled others = "" ↔
      (∀ round < others.length, cancelled round = false) ∧
      ∀ other ∈ others, overlaps ownedPaths ownedDirectories (repairPathIdentity P other.1) = false := by
  induction others generalizing cancelled with
  | nil => exact ⟨fun _ => ⟨fun _ h => absurd h (Nat.not_lt_zero _), fun _ h => by cases h⟩, fun _ => rfl⟩
  | cons other others ih =>
    obtain ⟨path, name⟩ := other
    have hpath := ne_empty_of_text (hothers (path, name) mem_cons_self)
    have hrest := @ih (fun round => cancelled (round + 1)) fun other hmem =>
      hothers other (mem_cons_of_mem _ hmem)
    have happend : ∀ text name : String, text ≠ "" → text ++ name ≠ "" := by
      intro text name htext hempty
      exact htext (String.append_eq_empty_iff.mp hempty).1
    rw [checkOthers]
    by_cases hcancelled : cancelled 0 = true
    · rw [if_pos hcancelled]
      refine iff_of_false (by decide) fun hall => ?_
      rw [hall.1 0 (Nat.succ_pos _)] at hcancelled
      cases hcancelled
    · rw [if_neg hcancelled, if_neg hpath]
      by_cases hoverlaps : overlaps ownedPaths ownedDirectories (repairPathIdentity P path) = true
      · rw [if_pos hoverlaps]
        refine iff_of_false (happend _ _ (by decide)) fun hall => ?_
        rw [hall.2 _ mem_cons_self] at hoverlaps
        cases hoverlaps
      · rw [if_neg hoverlaps, hrest]
        constructor
        · rintro ⟨hflag, hall⟩
          refine ⟨fun round hround => ?_, fun other hmem => ?_⟩
          · cases round with
            | zero => exact Bool.eq_false_iff.mpr hcancelled
            | succ round => exact hflag round (Nat.lt_of_succ_lt_succ hround)
          · rcases mem_cons.mp hmem with rfl | hmem
            · exact Bool.eq_false_iff.mpr hoverlaps
            · exact hall other hmem
        · rintro ⟨hflag, hall⟩
          exact ⟨fun round hround => hflag (round + 1) (Nat.succ_lt_succ hround),
            fun other hmem => hall other (mem_cons_of_mem _ hmem)⟩

def RepairData.paths (P : Platform) (data : RepairData) : List String :=
  data.savePath :: (data.unresolvedDirectories.map Prod.fst ++ data.targetPaths P ++
    data.otherFiles.map Prod.fst)

/-- A relation holds of the data directory and an unresolved directory, or of a target file and a file
of another torrent. -/
def SomePair (R : Location → Location → Prop) (P : Platform) (place : String → Location)
    (data : RepairData) : Prop :=
  (∃ directory ∈ data.unresolvedDirectories.map Prod.fst, R (place data.savePath) (place directory)) ∨
    ∃ other ∈ data.otherFiles.map Prod.fst, ∃ target ∈ data.targetPaths P,
      R (place target) (place other)

/-- The comparison is cancelled in one of its rounds. -/
def Cancelled (cancelled : ℕ → Bool) (data : RepairData) : Prop :=
  ∃ round < data.otherFiles.length, cancelled round = true

structure Placed (P : Platform) (place : String → Location) (data : RepairData) : Prop where
  identity : ∀ path ∈ data.paths P, IdentityAt P place path
  same : ∀ path ∈ data.paths P, ∀ path' ∈ data.paths P, SameSystem (place path) (place path')

variable {data : RepairData}

theorem conflictingTorrent_eq_empty (h : Placed P place data) (cancelled : ℕ → Bool) :
    conflictingTorrent P data cancelled = "" ↔
      ¬ SomePair Touches P place data ∧ ¬ Cancelled cancelled data := by
  have hsave : data.savePath ∈ data.paths P := mem_cons_self
  have hdirectory : ∀ entry ∈ data.unresolvedDirectories, entry.1 ∈ data.paths P :=
    fun entry hmem => mem_cons_of_mem _ (mem_append_left _ (mem_append_left _
      (mem_map_of_mem hmem)))
  have htarget : ∀ target ∈ data.targetPaths P, target ∈ data.paths P :=
    fun target hmem => mem_cons_of_mem _ (mem_append_left _ (mem_append_right _ hmem))
  have hother : ∀ other ∈ data.otherFiles, other.1 ∈ data.paths P :=
    fun other hmem => mem_cons_of_mem _ (mem_append_right _ (mem_map_of_mem hmem))
  have htargets : ((data.targetPaths P).map (repairPathIdentity P)).contains "" = false := by
    rw [← Bool.not_eq_true, contains_iff_mem]
    intro hmem
    obtain ⟨target, hmem, hempty⟩ := mem_map.mp hmem
    exact ne_empty_of_text (h.identity _ (htarget target hmem)) hempty
  have hmeets : ∀ entry ∈ data.unresolvedDirectories,
      (meetsRoot (repairPathIdentity P data.savePath) (repairPathIdentity P entry.1) = true ↔
        Touches (place data.savePath) (place entry.1)) := fun entry hmem =>
    meetsRoot_iff (h.identity _ hsave) (h.identity _ (hdirectory entry hmem))
      (h.same _ hsave _ (hdirectory entry hmem))
  rw [conflictingTorrent, if_neg (ne_empty_of_text (h.identity _ hsave))]
  cases hfind : data.unresolvedDirectories.find? fun entry =>
      meetsRoot (repairPathIdentity P data.savePath) (repairPathIdentity P entry.1) with
  | some entry =>
    have hmem := mem_of_find?_eq_some hfind
    have hfound : meetsRoot (repairPathIdentity P data.savePath) (repairPathIdentity P entry.1) = true :=
      @List.find?_some _ (fun entry : String × String =>
        meetsRoot (repairPathIdentity P data.savePath) (repairPathIdentity P entry.1)) entry _ hfind
    have htouches := (hmeets entry hmem).mp hfound
    refine iff_of_false (fun hempty => ?_) fun hboth => ?_
    · exact absurd (String.append_eq_empty_iff.mp hempty).1 (by decide)
    · exact hboth.1 (.inl ⟨entry.1, mem_map_of_mem hmem, htouches⟩)
  | none =>
    have hnone : ¬ ∃ directory ∈ data.unresolvedDirectories.map Prod.fst,
        Touches (place data.savePath) (place directory) := by
      rintro ⟨_, hpath, htouches⟩
      obtain ⟨entry, hmem, rfl⟩ := mem_map.mp hpath
      exact List.find?_eq_none.mp hfind entry hmem ((hmeets entry hmem).mpr htouches)
    show (if _ then _ else _) = "" ↔ _
    rw [if_neg (by rw [htargets]; exact Bool.false_ne_true),
      checkOthers_eq_empty fun other hmem => h.identity _ (hother other hmem)]
    constructor
    · rintro ⟨hflag, hall⟩
      refine ⟨?_, fun ⟨round, hround, htrue⟩ => ?_⟩
      · rintro (hdir | ⟨_, hpath, target, htmem, htouches⟩)
        · exact hnone hdir
        · obtain ⟨other, hmem, rfl⟩ := mem_map.mp hpath
          have hfalse := hall other hmem
          rw [(overlaps_iff (fun t ht => h.identity _ (htarget t ht)) (h.identity _ (hother other hmem))
            fun t ht => h.same _ (htarget t ht) _ (hother other hmem)).mpr
              ⟨target, htmem, htouches⟩] at hfalse
          cases hfalse
      · rw [hflag round hround] at htrue
        cases htrue
    · rintro ⟨hpair, hcancelled⟩
      refine ⟨fun round hround => ?_, fun other hmem => ?_⟩
      · by_contra htrue
        exact hcancelled ⟨round, hround, (Bool.not_eq_false _).mp htrue⟩
      · by_contra htrue
        obtain ⟨target, htmem, htouches⟩ :=
          (overlaps_iff (fun t ht => h.identity _ (htarget t ht)) (h.identity _ (hother other hmem))
            fun t ht => h.same _ (htarget t ht) _ (hother other hmem)).mp
              ((Bool.not_eq_false _).mp htrue)
        exact hpair (.inr ⟨other.1, mem_map_of_mem hmem, target, htmem, htouches⟩)

theorem somePair_overlapping_iff (h : Placed P place data) :
    SomePair Overlapping P place data ↔
      SomePair Touches P place data ∨ SomePair OneRoot P place data := by
  have hsplit : ∀ a b, SameSystem a b → (Overlapping a b ↔ Touches a b ∨ OneRoot a b) := by
    intro a b hsame
    refine ⟨fun hover => ?_, fun hcase => hcase.elim (fun h => h.1) (overlapping_of_oneRoot hsame)⟩
    by_cases hroot : OneRoot a b
    · exact .inr hroot
    · exact .inl ⟨hover, hroot⟩
  have hdirs : ∀ directory ∈ data.unresolvedDirectories.map Prod.fst,
      SameSystem (place data.savePath) (place directory) := fun directory hmem =>
    h.same _ mem_cons_self _ (mem_cons_of_mem _ (mem_append_left _
      (mem_append_left _ hmem)))
  have hothers : ∀ other ∈ data.otherFiles.map Prod.fst, ∀ target ∈ data.targetPaths P,
      SameSystem (place target) (place other) := fun other hmem target htmem =>
    h.same _ (mem_cons_of_mem _ (mem_append_left _ (mem_append_right _ htmem))) _
      (mem_cons_of_mem _ (mem_append_right _ hmem))
  constructor
  · rintro (⟨directory, hmem, hover⟩ | ⟨other, hmem, target, htmem, hover⟩)
    · exact ((hsplit _ _ (hdirs directory hmem)).mp hover).imp (fun h => .inl ⟨directory, hmem, h⟩)
        fun h => .inl ⟨directory, hmem, h⟩
    · exact ((hsplit _ _ (hothers other hmem target htmem)).mp hover).imp
        (fun h => .inr ⟨other, hmem, target, htmem, h⟩) fun h => .inr ⟨other, hmem, target, htmem, h⟩
  · rintro ((⟨directory, hmem, hover⟩ | ⟨other, hmem, target, htmem, hover⟩) |
      (⟨directory, hmem, hover⟩ | ⟨other, hmem, target, htmem, hover⟩))
    · exact .inl ⟨directory, hmem, (hsplit _ _ (hdirs directory hmem)).mpr (.inl hover)⟩
    · exact .inr ⟨other, hmem, target, htmem,
        (hsplit _ _ (hothers other hmem target htmem)).mpr (.inl hover)⟩
    · exact .inl ⟨directory, hmem, (hsplit _ _ (hdirs directory hmem)).mpr (.inr hover)⟩
    · exact .inr ⟨other, hmem, target, htmem,
        (hsplit _ _ (hothers other hmem target htmem)).mpr (.inr hover)⟩

/-- The result is empty exactly if no two paths overlap, if and only if these hold: where the root
directory of a system without volumes is compared with another path, some other pair overlaps or the
comparison is cancelled; and where the comparison is cancelled, some pair overlaps. -/
theorem conflicts_detected (h : Placed P place data) (cancelled : ℕ → Bool) :
    (conflictingTorrent P data cancelled = "" ↔ ¬ SomePair Overlapping P place data) ↔
      (SomePair OneRoot P place data →
        SomePair Touches P place data ∨ Cancelled cancelled data) ∧
      (Cancelled cancelled data →
        SomePair Touches P place data ∨ SomePair OneRoot P place data) := by
  rw [conflictingTorrent_eq_empty h, somePair_overlapping_iff h]
  tauto

end Identities

/-! ### Two layouts -/

def cleanPlatform : Platform where
  cleanPath path := path
  isAbsolutePath _ := true
  filePath directory path := directory ++ "/" ++ path
  fileName path := path
  parentPath path := path
  lookup path _ := .found path
  fold path := path

def nameA : Name := ⟨['a'], by decide, by decide⟩

def nameD : Name := ⟨['d'], by decide, by decide⟩

def driveC : Volume := .drive ⟨['c', ':'], by decide, by decide⟩

def sharedFile : RepairData where
  savePath := "c:/d"
  files := [{ pad := false, path := "a" }]
  unresolvedDirectories := []
  otherFiles := [("c:/d/a", "other")]

theorem conflicts_detected_sample : conflictingTorrent cleanPlatform sharedFile (fun _ => false) ≠ "" := by
  have hplaced : Placed cleanPlatform
      (fun path => if path = "c:/d" then ⟨driveC, [nameD]⟩ else ⟨driveC, [nameD, nameA]⟩)
      sharedFile := by
    have hpaths : sharedFile.paths cleanPlatform = ["c:/d", "c:/d/a", "c:/d/a"] := by decide +kernel
    constructor
    · rw [hpaths]
      intro path hpath
      simp only [mem_cons, not_mem_nil, or_false, or_self] at hpath
      unfold IdentityAt
      rcases hpath with rfl | rfl <;> decide +kernel
    · rw [hpaths]
      intro path hpath path' hpath'
      simp only [mem_cons, not_mem_nil, or_false, or_self] at hpath hpath'
      rcases hpath with rfl | rfl <;> rcases hpath' with rfl | rfl <;>
        exact ⟨fun h => (by cases h), fun h => (by cases h)⟩
  have htouches : SomePair Touches cleanPlatform
      (fun path => if path = "c:/d" then ⟨driveC, [nameD]⟩ else ⟨driveC, [nameD, nameA]⟩)
      sharedFile :=
    .inr ⟨"c:/d/a", mem_cons_self, "c:/d/a", mem_cons_self, touches_iff.mpr (.inl rfl)⟩
  have hiff := (conflicts_detected hplaced fun _ => false).mpr
    ⟨fun _ => .inl htouches, fun _ => .inl htouches⟩
  intro hempty
  exact hiff.mp hempty ((somePair_overlapping_iff hplaced).mpr (.inl htouches))

/-- The root directory of a system without volumes, with a torrent that has no metadata below it. -/
def rootDirectory : RepairData where
  savePath := "/"
  files := []
  unresolvedDirectories := [("/d", "other")]
  otherFiles := []

/-- The directory of the other torrent is below the data directory, and no conflict is found. -/
theorem root_directory_not_seen :
    conflictingTorrent cleanPlatform rootDirectory (fun _ => false) = "" ∧
      (repairPathIdentity cleanPlatform "/").toList = (⟨.root, []⟩ : Location).text ∧
      (repairPathIdentity cleanPlatform "/d").toList = (⟨.root, [nameD]⟩ : Location).text ∧
      (⟨.root, []⟩ : Location).Contains ⟨.root, [nameD]⟩ :=
  ⟨by decide +kernel, by decide +kernel, by decide +kernel, rfl, nil_prefix,
    fun h => by cases h⟩

end Qbutt.Repair
