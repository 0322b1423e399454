import Qbutt.Categories.Equiv.Names

/-!
# Calls on the categories: equivalence lemmas

What each call does to the listed names and to the categories of the torrents, and what a listener
hears of it.  The setters of a torrent emit nothing that a listener of the names hears (`Quiet`), so
only `addCategory` and `removeCategory` change what it knows.
-/

namespace Qbutt.Categories

open List

variable {Q : QtPaths} {s : Session} {name n : CategoryName} {t : Torrent} {id : ℕ}
  {names : List CategoryName} {made : Session × List Signal}

/-! ### Signals -/

def Quiet (signals : List Signal) : Prop :=
  ∀ names : List CategoryName, signals.foldlM hear names = some names

theorem quiet_nil : Quiet [] := fun _ => rfl

theorem Quiet.append {l l' : List Signal} (h : Quiet l) (h' : Quiet l') : Quiet (l ++ l') := by
  intro names
  rw [foldlM_append, h names]
  exact h' names

theorem quiet_flatMap {α : Type} {l : List α} {f : α → List Signal} (h : ∀ x ∈ l, Quiet (f x)) :
    Quiet (l.flatMap f) := by
  induction l with
  | nil => exact quiet_nil
  | cons x l ih =>
    rw [flatMap_cons]
    exact (h x mem_cons_self).append (ih fun y hy => h y (mem_cons_of_mem x hy))

def Knows (s : Session) (heard : Option (List CategoryName)) : Prop :=
  ∃ names, heard = some names ∧ names.Nodup ∧ ∀ n, n ∈ names ↔ s.isListed n = true

theorem hear_removed {removed : List CategoryName} (hnodup : removed.Nodup) (hnames : names.Nodup)
    (hknown : ∀ n ∈ removed, n ∈ names) :
    ∃ left, (removed.map Signal.categoryRemoved).foldlM hear names = some left ∧ left.Nodup ∧
      ∀ n, n ∈ left ↔ n ∈ names ∧ n ∉ removed := by
  induction removed generalizing names with
  | nil => exact ⟨names, rfl, hnames, fun n => by simp⟩
  | cons m removed ih =>
    obtain ⟨hnot, hnodup⟩ := nodup_cons.mp hnodup
    have hleft : ∀ n ∈ removed, n ∈ names.erase m := by
      intro n hn
      refine (hnames.mem_erase_iff).mpr ⟨?_, hknown n (mem_cons_of_mem m hn)⟩
      rintro rfl
      exact hnot hn
    obtain ⟨left, hfold, hnodup', hmem⟩ := ih hnodup (hnames.erase m) hleft
    refine ⟨left, ?_, hnodup', fun n => ?_⟩
    · rw [map_cons, foldlM_cons, hear, if_pos (hknown m mem_cons_self)]
      exact hfold
    · rw [hmem, hnames.mem_erase_iff, mem_cons, not_or]
      constructor
      · rintro ⟨⟨hne, hn⟩, hrest⟩
        exact ⟨hn, hne, hrest⟩
      · rintro ⟨hn, hne, hrest⟩
        exact ⟨⟨hne, hn⟩, hrest⟩

/-! ### The setters of a torrent -/

theorem belongsToCategory_iff : t.belongsToCategory name = true ↔
    (t.category = [] ∧ name = []) ∨ (t.category ≠ [] ∧ Within name t.category) := by
  unfold Torrent.belongsToCategory
  by_cases hempty : t.category = []
  · rw [if_pos hempty]
    simp [hempty, List.isEmpty_iff]
  · rw [if_neg hempty]
    by_cases hsame : t.category = name
    · rw [if_pos hsame]
      exact iff_of_true rfl (.inr ⟨hempty, .inl hsame⟩)
    · rw [if_neg hsame, isPrefixOf_iff_prefix]
      constructor
      · intro hbelow
        exact .inr ⟨hempty, .inr hbelow⟩
      · rintro (⟨hnil, -⟩ | ⟨-, heq | hbelow⟩)
        · exact absurd hnil hempty
        · exact absurd heq hsame
        · exact hbelow

theorem setAutoTMMEnabled_kept (enabled : Bool) :
    (s.setAutoTMMEnabled Q id t enabled).state.category = t.category ∧
      Quiet (s.setAutoTMMEnabled Q id t enabled).signals := by
  unfold Session.setAutoTMMEnabled
  by_cases hbusy : t.hasExclusiveFileOperation = true
  · rw [if_pos hbusy]
    exact ⟨rfl, quiet_nil⟩
  · rw [if_neg hbusy]
    by_cases hsame : t.useAutoTMM = enabled
    · rw [if_pos hsame]
      exact ⟨rfl, quiet_nil⟩
    · rw [if_neg hsame]
      cases enabled with
      | false => exact ⟨rfl, fun _ => rfl⟩
      | true => exact ⟨rfl, fun _ => rfl⟩

theorem setCategory_quiet (category : CategoryName) :
    Quiet (s.setCategory Q id t category).signals := by
  unfold Session.setCategory
  split
  · exact quiet_nil
  · split
    · exact quiet_nil
    · split
      · exact quiet_nil
      · refine Quiet.append ?_ fun _ => rfl
        split
        · exact (setAutoTMMEnabled_kept false).2
        · exact quiet_nil

theorem setCategory_busy (h : t.hasExclusiveFileOperation = true) (category : CategoryName) :
    (s.setCategory Q id t category).state = t := by
  unfold Session.setCategory
  rw [if_pos h]

/-- Any other torrent takes one that is empty or listed. -/
theorem setCategory_free (h : t.hasExclusiveFileOperation = false) {category : CategoryName}
    (hcategory : category = [] ∨ s.isListed category = true) :
    (s.setCategory Q id t category).state.category = category := by
  unfold Session.setCategory
  rw [if_neg (by rw [h]; exact Bool.false_ne_true)]
  by_cases hsame : t.category = category
  · rw [if_pos hsame]
    exact hsame
  · have hknown : (!category.isEmpty && !s.isListed category) = false := by
      rcases hcategory with rfl | hlisted
      · rfl
      · rw [hlisted, Bool.not_true, Bool.and_false]
    rw [if_neg hsame, if_neg (by rw [hknown]; exact Bool.false_ne_true)]

theorem setCategory_category (Q : QtPaths) (s : Session) (id : ℕ) (t : Torrent)
    (category : CategoryName) :
    (s.setCategory Q id t category).state.category = t.category ∨
      (s.setCategory Q id t category).state.category = category ∧
        (category = [] ∨ s.isListed category = true) := by
  by_cases hbusy : t.hasExclusiveFileOperation = true
  · rw [setCategory_busy hbusy]
    exact .inl rfl
  · by_cases hknown : category = [] ∨ s.isListed category = true
    · exact .inr ⟨setCategory_free (Bool.not_eq_true _ ▸ hbusy) hknown, hknown⟩
    · have hrefused : (!category.isEmpty && !s.isListed category) = true := by
        simpa [not_or] using hknown
      unfold Session.setCategory
      rw [if_neg hbusy]
      by_cases hsame : t.category = category
      · rw [if_pos hsame]
        exact .inl rfl
      · rw [if_neg hsame, if_pos hrefused]
        exact .inl rfl

/-- Nothing changes when a torrent is given the category it has. -/
theorem setCategory_same : (s.setCategory Q id t t.category).state = t := by
  unfold Session.setCategory
  by_cases hbusy : t.hasExclusiveFileOperation = true
  · rw [if_pos hbusy]
  · rw [if_neg hbusy, if_pos rfl]

/-! ### Loops over the torrents -/

theorem forTorrents_quiet {f : ℕ → Torrent → Outcome Torrent}
    (h : ∀ id t, Quiet (f id t).signals) : Quiet (s.forTorrents f).2 :=
  quiet_flatMap fun entry _ => h entry.1 entry.2

theorem get_forTorrents (f : ℕ → Torrent → Outcome Torrent) (id : ℕ) :
    (s.forTorrents f).1.torrents.get id = (s.torrents.get id).map fun t => (f id t).state :=
  InsertionMap.get_mapValues _ _ _

/-! ### Listed names -/

theorem isListed_iff : s.isListed n = true ↔ ∃ options, s.categories.get n = some options :=
  Option.isSome_iff_exists

theorem isListed_set (k : CategoryName) (options : CategoryOptions) :
    { s with categories := s.categories.set k options }.isListed n = true ↔
      n = k ∨ s.isListed n = true := by
  show ((s.categories.set k options).get n).isSome = true ↔ _
  rw [InsertionMap.get_set]
  by_cases hk : n = k
  · rw [if_pos hk]
    exact iff_of_true rfl (.inl hk)
  · rw [if_neg hk]
    exact ⟨.inr, fun h => h.resolve_left hk⟩

theorem Knows.add {signals : List Signal} (h : Knows s (signals.foldlM hear names))
    (hnew : s.isListed n = false) (options : CategoryOptions) :
    Knows { s with categories := s.categories.set n options }
      ((signals ++ [Signal.categoryAdded n]).foldlM hear names) := by
  obtain ⟨known, hfold, hnodup, hmem⟩ := h
  have hnot : n ∉ known := by
    intro hn
    rw [hmem, hnew] at hn
    exact Bool.false_ne_true hn
  refine ⟨n :: known, ?_, nodup_cons.mpr ⟨hnot, hnodup⟩, fun m => ?_⟩
  · rw [foldlM_append, hfold]
    show (hear known (.categoryAdded n)).bind _ = _
    rw [hear, if_neg hnot]
    rfl
  · rw [mem_cons, hmem, isListed_set]

/-! ### Adding a category -/

theorem addParent_spec (name parent : CategoryName)
    (hknows : Knows made.1 (made.2.foldlM hear names)) :
    Knows (Session.addParent name made parent).1
        ((Session.addParent name made parent).2.foldlM hear names) ∧
      (Session.addParent name made parent).1.torrents = made.1.torrents ∧
      ∀ n, (Session.addParent name made parent).1.isListed n = true ↔
        made.1.isListed n = true ∨ n = parent ∧ parent ≠ name := by
  unfold Session.addParent
  by_cases hadd : parent ≠ name ∧ (!made.1.isListed parent) = true
  · rw [if_pos hadd]
    have hnew : made.1.isListed parent = false := by simpa using hadd.2
    refine ⟨hknows.add hnew {}, rfl, fun n => ?_⟩
    rw [isListed_set]
    constructor
    · rintro (rfl | hn)
      · exact .inr ⟨rfl, hadd.1⟩
      · exact .inl hn
    · rintro (hn | ⟨rfl, -⟩)
      · exact .inr hn
      · exact .inl rfl
  · rw [if_neg hadd]
    refine ⟨hknows, rfl, fun n => ⟨.inl, ?_⟩⟩
    rintro (hn | ⟨rfl, hne⟩)
    · exact hn
    · by_contra hnot
      exact hadd ⟨hne, by simpa using hnot⟩

theorem addParents_spec (name : CategoryName) (parents : List CategoryName)
    (hknows : Knows made.1 (made.2.foldlM hear names)) :
    Knows (parents.foldl (Session.addParent name) made).1
        ((parents.foldl (Session.addParent name) made).2.foldlM hear names) ∧
      (parents.foldl (Session.addParent name) made).1.torrents = made.1.torrents ∧
      ∀ n, (parents.foldl (Session.addParent name) made).1.isListed n = true ↔
        made.1.isListed n = true ∨ n ∈ parents ∧ n ≠ name := by
  induction parents generalizing made with
  | nil => exact ⟨hknows, rfl, fun n => by simp⟩
  | cons parent parents ih =>
    obtain ⟨hfirst, htorrents, hlisted⟩ := addParent_spec name parent hknows
    obtain ⟨hrest, htorrents', hlisted'⟩ := ih hfirst
    refine ⟨hrest, htorrents'.trans htorrents, fun n => ?_⟩
    rw [foldl_cons, hlisted', hlisted, mem_cons]
    constructor
    · rintro ((hn | ⟨rfl, hne⟩) | ⟨hn, hne⟩)
      · exact .inl hn
      · exact .inr ⟨.inl rfl, hne⟩
      · exact .inr ⟨.inr hn, hne⟩
    · rintro (hn | ⟨rfl | hn, hne⟩)
      · exact .inl (.inl hn)
      · exact .inl (.inr ⟨rfl, hne⟩)
      · exact .inr ⟨hn, hne⟩

/-- A category is added with everything above it, or nothing changes. -/
theorem addCategory_spec (name : CategoryName) (options : CategoryOptions)
    (hknows : Knows s (some names)) :
    ((s.addCategory name options).state = s ∧ (s.addCategory name options).signals = [] ∧
        (s.addCategory name options).result = false) ∨
      (name ≠ [] ∧ isValidCategoryName name = true ∧ s.isListed name = false ∧
        (s.addCategory name options).result = true ∧
        Knows (s.addCategory name options).state
          ((s.addCategory name options).signals.foldlM hear names) ∧
        (s.addCategory name options).state.torrents = s.torrents ∧
        ∀ n, (s.addCategory name options).state.isListed n = true ↔
          s.isListed n = true ∨ Within n name) := by
  unfold Session.addCategory
  by_cases hempty : name.isEmpty = true
  · rw [if_pos hempty]
    exact .inl ⟨rfl, rfl, rfl⟩
  rw [if_neg hempty]
  by_cases hrefused : (!isValidCategoryName name || s.isListed name) = true
  · rw [if_pos hrefused]
    exact .inl ⟨rfl, rfl, rfl⟩
  rw [if_neg hrefused]
  obtain ⟨hvalid, hnew⟩ : isValidCategoryName name = true ∧ s.isListed name = false := by
    simpa using hrefused
  obtain ⟨hknown, htorrents, hlisted⟩ :=
    addParents_spec name (expandCategory name) (show Knows (s, []).1 _ from hknows)
  refine .inr ⟨by simpa using hempty, hvalid, hnew, rfl, ?_, htorrents, fun n => ?_⟩
  · refine hknown.add (Bool.eq_false_iff.mpr fun hin => ?_) options
    rcases (hlisted name).mp hin with hin | ⟨-, hne⟩
    · exact absurd hin (by rw [hnew]; exact Bool.false_ne_true)
    · exact hne rfl
  · rw [isListed_set, hlisted, mem_expandCategory]
    constructor
    · rintro (rfl | hn | ⟨hn, -⟩)
      · exact .inr (.inl rfl)
      · exact .inl hn
      · exact .inr hn
    · rintro (hn | hn)
      · exact .inr (.inl hn)
      · by_cases heq : n = name
        · exact .inl heq
        · exact .inr (.inr ⟨hn, heq⟩)

end Qbutt.Categories
