import Qbutt.Categories.Equiv.Calls

/-!
# The tree of categories

In every state of every run the listed names form a tree of valid names, and a listener knows exactly
them (`keeps_formed`).  The torrents stay in listed categories as long as no category is removed while
a torrent in it has its files in an exclusive operation that the guard of `removeCategory` lets pass
(`Blocked`); a step that does this leaves a torrent in a category that is gone (`blocked_leaves`).
-/

namespace Qbutt.Categories

open List

variable {Q : QtPaths} {s : Session} {name n : CategoryName} {t : Torrent} {id : ℕ}
  {names : List CategoryName}

/-- The listed names are valid names of categories, and what they are within is listed. -/
structure Session.Tree (s : Session) : Prop where
  valid : ∀ n, s.isListed n = true → n ≠ [] ∧ isValidCategoryName n = true
  expanded : ∀ n, s.isListed n = true → ∀ p ∈ expandCategory n, s.isListed p = true

/-- Every torrent is in no category or in a listed one. -/
def Session.Placed (s : Session) : Prop :=
  ∀ id t, s.torrents.get id = some t → t.category = [] ∨ s.isListed t.category = true

def Session.Blocked (s : Session) : Label → Prop
  | .removeCategory name => s.isListed name = true ∧ s.hasActiveAutoTMMRepair name = false ∧
    ∃ id t, s.torrents.get id = some t ∧ Within name t.category ∧
      t.hasExclusiveFileOperation = true
  | _ => False

/-- What is true of the names in every state. -/
structure Run.Formed (r : Run) : Prop where
  tree : r.session.Tree
  knows : Knows r.session r.heard

/-- The runs, from a session with a tree of categories and torrents in them. -/
def system (Q : QtPaths) : System Run Label where
  initial r := r.Formed ∧ r.session.Placed
  step := Run.step Q

theorem Session.Tree.parent (h : s.Tree) (hn : s.isListed n = true) :
    parentCategoryName n = [] ∨ s.isListed (parentCategoryName n) = true := by
  by_cases hempty : parentCategoryName n = []
  · exact .inl hempty
  · exact .inr (h.expanded n hn _ (mem_expandCategory.mpr (.inr (parentCategoryName_below hempty))))

theorem Session.Tree.within (h : s.Tree) (hn : s.isListed n = true) (hwithin : Within name n) :
    s.isListed name = true :=
  h.expanded n hn name (mem_expandCategory.mpr hwithin)

/-! ### Removing a category -/

theorem mem_subcategories :
    n ∈ s.subcategories name ↔ s.isListed n = true ∧ name ++ ['/'] <+: n := by
  unfold Session.subcategories
  rw [mem_insertionSort, mem_filter, InsertionMap.mem_keys, isListed_iff, isPrefixOf_iff_prefix]

theorem subcategories_nodup : (s.subcategories name).Nodup :=
  (perm_insertionSort _ _).nodup_iff.mpr (s.categories.nodup.filter _)

def moved (Q : QtPaths) (s : Session) (name : CategoryName) (id : ℕ) (t : Torrent) : Torrent :=
  if t.belongsToCategory name then (s.setCategory Q id t (parentCategoryName name)).state else t

theorem removeCategory_guarded (h : s.hasActiveAutoTMMRepair name = true) :
    s.removeCategory Q name = ⟨s, false, []⟩ := by
  unfold Session.removeCategory
  rw [if_pos h]

theorem removeCategory_torrents (h : s.hasActiveAutoTMMRepair name = false) (id : ℕ) :
    (s.removeCategory Q name).state.torrents.get id =
      (s.torrents.get id).map (moved Q s name id) := by
  unfold Session.removeCategory
  rw [if_neg (by rw [h]; exact Bool.false_ne_true)]
  show (s.forTorrents _).1.torrents.get id = _
  rw [get_forTorrents]
  refine congrArg (fun f => Option.map f _) (funext fun t => ?_)
  unfold moved
  split
  · rfl
  · rfl

theorem removeCategory_categories (h : s.hasActiveAutoTMMRepair name = false) (n : CategoryName) :
    (s.removeCategory Q name).state.categories.get n =
      if Within name n then none else s.categories.get n := by
  unfold Session.removeCategory
  rw [if_neg (by rw [h]; exact Bool.false_ne_true)]
  show ((s.categories.removeIf (name ++ ['/']).isPrefixOf).delete name).get n = _
  rw [InsertionMap.get_delete, InsertionMap.get_removeIf]
  by_cases hname : n = name
  · rw [if_pos hname, if_pos (.inl hname)]
  · rw [if_neg hname]
    by_cases hbelow : name ++ ['/'] <+: n
    · rw [if_pos ( isPrefixOf_iff_prefix.mpr hbelow), if_pos (.inr hbelow)]
    · rw [if_neg (fun hp => hbelow ( isPrefixOf_iff_prefix.mp hp)),
        if_neg (fun hw => hw.elim hname hbelow)]

theorem removeCategory_listed (h : s.hasActiveAutoTMMRepair name = false) (n : CategoryName) :
    (s.removeCategory Q name).state.isListed n = true ↔ s.isListed n = true ∧ ¬ Within name n := by
  show ((s.removeCategory Q name).state.categories.get n).isSome = true ↔
    (s.categories.get n).isSome = true ∧ _
  rw [removeCategory_categories h]
  by_cases hwithin : Within name n
  · rw [if_pos hwithin]
    exact iff_of_false Bool.false_ne_true fun hboth => hboth.2 hwithin
  · rw [if_neg hwithin]
    exact ⟨fun hn => ⟨hn, hwithin⟩, And.left⟩

theorem removeCategory_result (htree : s.Tree) (h : s.hasActiveAutoTMMRepair name = false) :
    (s.removeCategory Q name).result = s.isListed name := by
  unfold Session.removeCategory
  rw [if_neg (by rw [h]; exact Bool.false_ne_true)]
  show (s.isListed name || !(s.subcategories name).isEmpty) = s.isListed name
  cases hlisted : s.isListed name with
  | true => rfl
  | false =>
    have hnone : s.subcategories name = [] := by
      refine eq_nil_iff_forall_not_mem.mpr fun n hn => ?_
      obtain ⟨hin, hbelow⟩ := mem_subcategories.mp hn
      rw [htree.within hin (.inr hbelow)] at hlisted
      cases hlisted
    rw [hnone]
    rfl

theorem removeCategory_knows (htree : s.Tree) (hknows : Knows s (some names)) :
    Knows (s.removeCategory Q name).state
      ((s.removeCategory Q name).signals.foldlM hear names) := by
  cases h : s.hasActiveAutoTMMRepair name with
  | true =>
    rw [removeCategory_guarded h]
    exact hknows
  | false =>
    obtain ⟨known, heq, hnodup, hmem⟩ := hknows
    cases heq
    have hresult := removeCategory_result (Q := Q) htree h
    have hlisted := removeCategory_listed (Q := Q) h
    -- the torrents are moved before the names are removed
    have hquiet : Quiet (s.forTorrents fun id t =>
        if t.belongsToCategory name then s.setCategory Q id t (parentCategoryName name)
        else ⟨t, true, []⟩).2 := by
      refine forTorrents_quiet fun id t => ?_
      split
      · exact setCategory_quiet _
      · exact quiet_nil
    have hsignals : (s.removeCategory Q name).signals.foldlM hear names =
        ((s.subcategories name ++ if s.isListed name then [name] else []).map
          Signal.categoryRemoved).foldlM hear names := by
      unfold Session.removeCategory at hresult ⊢
      rw [if_neg (by rw [h]; exact Bool.false_ne_true)] at hresult ⊢
      show (_ ++ (s.subcategories name).map Signal.categoryRemoved ++
        if (s.isListed name || !(s.subcategories name).isEmpty) = true then _ else _).foldlM
          hear names = _
      have hresult' : (s.isListed name || !(s.subcategories name).isEmpty) = s.isListed name :=
        hresult
      rw [hresult', append_assoc, foldlM_append, hquiet names, map_append]
      cases s.isListed name with
      | true => rfl
      | false => rfl
    have hnodup' : (s.subcategories name ++ if s.isListed name then [name] else []).Nodup := by
      refine nodup_append.mpr ⟨subcategories_nodup, ?_, ?_⟩
      · split
        · exact nodup_singleton name
        · exact nodup_nil
      · rintro n hn m hm rfl
        have hm' : n = name := by
          split at hm
          · exact mem_singleton.mp hm
          · cases hm
        have hlength := (mem_subcategories.mp hn).2.length_le
        rw [hm', length_append, length_singleton] at hlength
        omega
    have hremoved : ∀ n, n ∈ (s.subcategories name ++ if s.isListed name then [name] else []) ↔
        s.isListed n = true ∧ Within name n := by
      intro n
      rw [mem_append, mem_subcategories]
      constructor
      · rintro (⟨hin, hbelow⟩ | hn)
        · exact ⟨hin, .inr hbelow⟩
        · split at hn
          · rename_i hname
            obtain rfl := mem_singleton.mp hn
            exact ⟨hname, .inl rfl⟩
          · cases hn
      · rintro ⟨hin, rfl | hbelow⟩
        · rw [if_pos hin]
          exact .inr mem_cons_self
        · exact .inl ⟨hin, hbelow⟩
    obtain ⟨left, hfold, hleft, hmem'⟩ := hear_removed hnodup' hnodup
      fun n hn => (hmem n).mpr ((hremoved n).mp hn).1
    refine ⟨left, hsignals.trans hfold, hleft, fun n => ?_⟩
    rw [hmem', hmem, hremoved, hlisted]
    constructor
    · rintro ⟨hin, hnot⟩
      exact ⟨hin, fun hwithin => hnot ⟨hin, hwithin⟩⟩
    · rintro ⟨hin, hnot⟩
      exact ⟨hin, fun hboth => hnot hboth.2⟩

theorem removeCategory_tree (htree : s.Tree) : (s.removeCategory Q name).state.Tree := by
  cases h : s.hasActiveAutoTMMRepair name with
  | true =>
    rw [removeCategory_guarded h]
    exact htree
  | false =>
    constructor
    · intro n hn
      exact htree.valid n ((removeCategory_listed h n).mp hn).1
    · intro n hn p hp
      obtain ⟨hin, hnot⟩ := (removeCategory_listed h n).mp hn
      refine (removeCategory_listed h p).mpr ⟨htree.expanded n hin p hp, fun hwithin => ?_⟩
      exact hnot (hwithin.trans (mem_expandCategory.mp hp))

/-! ### The other calls -/

theorem addCategory_tree (htree : s.Tree) (hknows : Knows s (some names))
    (options : CategoryOptions) : (s.addCategory name options).state.Tree := by
  rcases addCategory_spec name options hknows with
    ⟨hsame, -⟩ | ⟨hname, hvalid, -, -, -, -, hlisted⟩
  · rw [hsame]
    exact htree
  · constructor
    · intro n hn
      rcases (hlisted n).mp hn with hin | rfl | hbelow
      · exact htree.valid n hin
      · exact ⟨hname, hvalid⟩
      · exact valid_of_below hvalid hbelow
    · intro n hn p hp
      refine (hlisted p).mpr ?_
      rcases (hlisted n).mp hn with hin | hwithin
      · exact .inl (htree.expanded n hin p hp)
      · exact .inr ((mem_expandCategory.mp hp).trans hwithin)

/-- New options change no name and no torrent's category, and the listener hears nothing. -/
theorem setCategoryOptions_spec (Q : QtPaths) (s : Session) (name : CategoryName)
    (options : CategoryOptions) :
    Quiet (s.setCategoryOptions Q name options).signals ∧
      (∀ n, (s.setCategoryOptions Q name options).state.isListed n = s.isListed n) ∧
      ∀ id, ((s.setCategoryOptions Q name options).state.torrents.get id).map (·.category) =
        (s.torrents.get id).map (·.category) := by
  unfold Session.setCategoryOptions
  cases hcurrent : s.categories.get name with
  | none => exact ⟨quiet_nil, fun _ => rfl, fun _ => rfl⟩
  | some current =>
    have hlisted : ∀ made : Session, made.categories = s.categories → ∀ n,
        Session.isListed { made with categories := made.categories.set name options } n =
          s.isListed n := by
      intro made hmade n
      show ((made.categories.set name options).get n).isSome = (s.categories.get n).isSome
      rw [hmade, InsertionMap.get_set]
      by_cases hn : n = name
      · rw [if_pos hn, hn, hcurrent]
        rfl
      · rw [if_neg hn]
    simp only
    split
    · exact ⟨quiet_nil, fun _ => rfl, fun _ => rfl⟩
    · split
      · exact ⟨quiet_nil, fun _ => rfl, fun _ => rfl⟩
      · split
        · refine ⟨Quiet.append (forTorrents_quiet fun id t => ?_) fun _ => rfl, hlisted _ rfl,
            fun id => ?_⟩
          · split
            · exact (setAutoTMMEnabled_kept false).2
            · exact quiet_nil
          · show ((s.forTorrents _).1.torrents.get id).map _ = _
            rw [get_forTorrents, Option.map_map]
            refine congrArg (fun f => Option.map f _) (funext fun t => ?_)
            simp only [Function.comp_apply]
            split
            · exact (setAutoTMMEnabled_kept false).1
            · rfl
        · exact ⟨fun _ => rfl, hlisted _ rfl, fun _ => rfl⟩

/-! ### Runs -/

theorem Run.Formed.after {r : Run} {outcome : Outcome Session} (h : r.Formed)
    (htree : outcome.state.Tree)
    (hknows : ∀ names, Knows r.session (some names) →
      Knows outcome.state (outcome.signals.foldlM hear names)) : (r.after outcome).Formed := by
  obtain ⟨htree', names, hheard, hrest⟩ := h
  refine ⟨htree, ?_⟩
  show Knows outcome.state (r.heard.bind _)
  rw [hheard]
  exact hknows names ⟨names, rfl, hrest⟩

theorem Session.Tree.congr {s' : Session} (h : s.Tree) (hlisted : ∀ n, s'.isListed n = s.isListed n) :
    s'.Tree := by
  constructor
  · intro n hn
    exact h.valid n (hlisted n ▸ hn)
  · intro n hn p hp
    rw [hlisted]
    exact h.expanded n (hlisted n ▸ hn) p hp

theorem Knows.congr {s' : Session} {heard : Option (List CategoryName)} (h : Knows s heard)
    (hlisted : ∀ n, s'.isListed n = s.isListed n) : Knows s' heard := by
  obtain ⟨names, hheard, hnodup, hmem⟩ := h
  exact ⟨names, hheard, hnodup, fun n => by rw [hmem, hlisted]⟩

theorem keeps_formed {r r' : Run} {label : Label} (h : r.Formed)
    (hstep : Run.step Q r label = some r') : r'.Formed := by
  cases label with
  | addCategory name options =>
    cases hstep
    obtain ⟨names, hheard, hrest⟩ := h.knows
    refine h.after (addCategory_tree h.tree ⟨names, rfl, hrest⟩ options) fun names hknows => ?_
    rcases addCategory_spec name options hknows with
      ⟨hsame, hsignals, -⟩ | ⟨-, -, -, -, hknows', -⟩
    · rw [hsame, hsignals]
      exact hknows
    · exact hknows'
  | setCategoryOptions name options =>
    cases hstep
    obtain ⟨hquiet, hlisted, -⟩ := setCategoryOptions_spec Q r.session name options
    refine h.after (h.tree.congr hlisted) fun names hknows => ?_
    rw [hquiet names]
    exact hknows.congr hlisted
  | removeCategory name =>
    cases hstep
    exact h.after (removeCategory_tree h.tree) fun names hknows => removeCategory_knows h.tree hknows
  | setCategory id category =>
    obtain ⟨t, -, rfl⟩ := Option.map_eq_some_iff.mp hstep
    refine h.after (h.tree.congr fun _ => rfl) fun names hknows => ?_
    rw [setCategory_quiet category names]
    exact hknows.congr fun _ => rfl
  | work id job mode =>
    obtain ⟨t, -, rfl⟩ := Option.map_eq_some_iff.mp hstep
    exact ⟨h.tree.congr fun _ => rfl, h.knows.congr fun _ => rfl⟩
  | configure settings =>
    cases hstep
    exact ⟨h.tree.congr fun _ => rfl, h.knows.congr fun _ => rfl⟩

theorem moved_category (htree : s.Tree) (hplaced : s.Placed)
    (hfree : ¬ s.Blocked (.removeCategory name)) (hguard : s.hasActiveAutoTMMRepair name = false)
    (hlisted : s.isListed name = true) (ht : s.torrents.get id = some t) :
    (moved Q s name id t).category =
      if Within name t.category then parentCategoryName name else t.category := by
  have hname := (htree.valid name hlisted).1
  unfold moved
  by_cases hwithin : Within name t.category
  · have hne : t.category ≠ [] := by
      intro hempty
      rcases hwithin with heq | hbelow
      · exact hname (heq.symm.trans hempty)
      · rw [hempty] at hbelow
        have hlength := hbelow.length_le
        rw [length_append, length_singleton] at hlength
        exact absurd hlength (Nat.not_succ_le_zero _)
    have hidle : t.hasExclusiveFileOperation = false := by
      by_contra hbusy
      exact hfree ⟨hlisted, hguard, id, t, ht, hwithin, by simpa using hbusy⟩
    rw [if_pos (belongsToCategory_iff.mpr (.inr ⟨hne, hwithin⟩)), if_pos hwithin]
    exact setCategory_free hidle (htree.parent hlisted)
  · have hnot : ¬ t.belongsToCategory name = true := by
      intro hbelongs
      rcases belongsToCategory_iff.mp hbelongs with ⟨-, hempty⟩ | ⟨-, hin⟩
      · exact hname hempty
      · exact hwithin hin
    rw [if_neg hnot, if_neg hwithin]

theorem moved_unlisted (htree : s.Tree) (hplaced : s.Placed) (hlisted : s.isListed name = false)
    (ht : s.torrents.get id = some t) : moved Q s name id t = t := by
  unfold moved
  split
  · rename_i hbelongs
    rcases belongsToCategory_iff.mp hbelongs with ⟨hempty, rfl⟩ | ⟨hne, hwithin⟩
    · have hsame : parentCategoryName [] = t.category := hempty.symm
      rw [hsame]
      exact setCategory_same
    · have hin := (hplaced id t ht).resolve_left hne
      rw [htree.within hin hwithin] at hlisted
      cases hlisted
  · rfl

theorem removeCategory_false (htree : s.Tree) (hplaced : s.Placed)
    (h : (s.removeCategory Q name).result = false) : (s.removeCategory Q name).state = s := by
  cases hguard : s.hasActiveAutoTMMRepair name with
  | true => rw [removeCategory_guarded hguard]
  | false =>
    have hlisted : s.isListed name = false := (removeCategory_result htree hguard).symm.trans h
    have hnone : ∀ n, Within name n → s.categories.get n = none := by
      intro n hwithin
      by_contra hsome
      have hin : s.isListed n = true := Option.isSome_iff_ne_none.mpr hsome
      rw [htree.within hin hwithin] at hlisted
      cases hlisted
    have hentry : ∀ entry ∈ s.categories.entries, ¬ Within name entry.1 := by
      intro entry hentry hwithin
      have hget := InsertionMap.mem_entries_iff.mp (show (entry.1, entry.2) ∈ _ from hentry)
      rw [hnone entry.1 hwithin] at hget
      cases hget
    unfold Session.removeCategory
    rw [if_neg (by rw [hguard]; exact Bool.false_ne_true)]
    obtain ⟨settings, categories, torrents⟩ := s
    simp only [Session.forTorrents, Session.mk.injEq, true_and]
    constructor
    · obtain ⟨entries, hnodup⟩ := categories
      simp only [InsertionMap.delete, InsertionMap.removeIf, InsertionMap.mk.injEq, filter_filter]
      refine filter_eq_self.mpr fun entry hin => ?_
      have hnot := hentry entry hin
      have hne : entry.1 ≠ name := fun heq => hnot (.inl heq)
      have hbelow : (name ++ ['/']).isPrefixOf entry.1 = false := by
        rw [Bool.eq_false_iff]
        exact fun hp => hnot (.inr ( isPrefixOf_iff_prefix.mp hp))
      simp [hne, hbelow]
    · refine InsertionMap.mapValues_id fun id t ht => ?_
      refine Eq.trans ?_ (moved_unlisted (Q := Q) htree hplaced hlisted ht)
      unfold moved
      split
      · rfl
      · rfl

theorem keeps_placed {r r' : Run} {label : Label} (h : r.Formed) (hplaced : r.session.Placed)
    (hfree : ¬ r.session.Blocked label) (hstep : Run.step Q r label = some r') :
    r'.session.Placed := by
  cases label with
  | addCategory name options =>
    cases hstep
    obtain ⟨names, -, hrest⟩ := h.knows
    rcases addCategory_spec name options ⟨names, rfl, hrest⟩ with
      ⟨hsame, -⟩ | ⟨-, -, -, -, -, htorrents, hlisted⟩
    · intro id t ht
      have hsame' : (r.after (r.session.addCategory name options)).session = r.session := hsame
      rw [hsame'] at ht ⊢
      exact hplaced id t ht
    · intro id t ht
      have ht' : r.session.torrents.get id = some t := htorrents ▸ ht
      exact (hplaced id t ht').imp_right fun hin => (hlisted _).mpr (.inl hin)
  | setCategoryOptions name options =>
    cases hstep
    obtain ⟨-, hlisted, hcategory⟩ := setCategoryOptions_spec Q r.session name options
    intro id t ht
    have hsame := hcategory id
    rw [show (r.session.setCategoryOptions Q name options).state.torrents.get id = some t from ht]
      at hsame
    obtain ⟨t', ht', hcat⟩ := Option.map_eq_some_iff.mp hsame.symm
    have hold := hplaced id t' ht'
    rw [hcat] at hold
    exact hold.imp_right fun hin => (hlisted _).trans hin
  | removeCategory name =>
    cases hstep
    intro id t ht
    cases hguard : r.session.hasActiveAutoTMMRepair name with
    | true =>
      have hsame : (r.after (r.session.removeCategory Q name)).session = r.session := by
        rw [removeCategory_guarded hguard]
        rfl
      rw [hsame] at ht ⊢
      exact hplaced id t ht
    | false =>
      have hget := removeCategory_torrents (Q := Q) hguard id
      rw [show (r.session.removeCategory Q name).state.torrents.get id = some t from ht] at hget
      obtain ⟨t', ht', rfl⟩ := Option.map_eq_some_iff.mp hget.symm
      cases hlisted : r.session.isListed name with
      | false =>
        rw [moved_unlisted h.tree hplaced hlisted ht']
        refine (hplaced id t' ht').imp_right fun hin => ?_
        refine (removeCategory_listed hguard _).mpr ⟨hin, fun hwithin => ?_⟩
        rw [h.tree.within hin hwithin] at hlisted
        cases hlisted
      | true =>
        rw [moved_category h.tree hplaced hfree hguard hlisted ht']
        by_cases hwithin : Within name t'.category
        · rw [if_pos hwithin]
          refine (h.tree.parent hlisted).imp_right fun hin => ?_
          exact (removeCategory_listed hguard _).mpr
            ⟨hin, not_within_parentCategoryName (h.tree.valid name hlisted).1⟩
        · rw [if_neg hwithin]
          exact (hplaced id t' ht').imp_right fun hin =>
            (removeCategory_listed hguard _).mpr ⟨hin, hwithin⟩
  | setCategory id category =>
    obtain ⟨t, ht, rfl⟩ := Option.map_eq_some_iff.mp hstep
    intro id' t' ht'
    have hget : (r.session.torrents.set id (r.session.setCategory Q id t category).state).get id' =
        some t' := ht'
    rw [InsertionMap.get_set] at hget
    by_cases hid : id' = id
    · rw [if_pos hid] at hget
      cases hget
      rcases setCategory_category Q r.session id t category with
        hsame | ⟨hsame, hknown⟩
      · rw [hsame]
        exact hplaced id t ht
      · rw [hsame]
        exact hknown
    · rw [if_neg hid] at hget
      exact hplaced id' t' hget
  | work id job mode =>
    obtain ⟨t, ht, rfl⟩ := Option.map_eq_some_iff.mp hstep
    intro id' t' ht'
    have hget : (r.session.torrents.set id
        { t with maintenanceJob := job, useAutoTMM := mode }).get id' = some t' := ht'
    rw [InsertionMap.get_set] at hget
    by_cases hid : id' = id
    · rw [if_pos hid] at hget
      cases hget
      exact hplaced id t ht
    · rw [if_neg hid] at hget
      exact hplaced id' t' hget
  | configure settings =>
    cases hstep
    exact hplaced

theorem blocked_leaves (htree : s.Tree) (h : s.Blocked (.removeCategory name)) :
    ¬ (s.removeCategory Q name).state.Placed := by
  obtain ⟨hlisted, hguard, id, t, ht, hwithin, hbusy⟩ := h
  intro hplaced
  have hsame : moved Q s name id t = t := by
    unfold moved
    split
    · exact setCategory_busy hbusy _
    · rfl
  have hget : (s.removeCategory Q name).state.torrents.get id = some t := by
    rw [removeCategory_torrents hguard, ht, Option.map_some, hsame]
  rcases hplaced id t hget with hempty | hin
  · rw [hempty] at hwithin
    rcases hwithin with heq | hbelow
    · exact (htree.valid name hlisted).1 heq.symm
    · have hlength := hbelow.length_le
      rw [length_append, length_singleton] at hlength
      exact absurd hlength (Nat.not_succ_le_zero _)
  · exact ((removeCategory_listed hguard _).mp hin).2 hwithin

/-- What a removal does that returns true: the name and those below it are gone, the others keep
their options, and exactly the torrents that were there are in the parent. -/
structure Removes (s : Session) (name : CategoryName) (s' : Session) : Prop where
  categories : ∀ n, s'.categories.get n = if Within name n then none else s.categories.get n
  torrents : ∀ id, (s'.torrents.get id).map (·.category) =
    (s.torrents.get id).map fun t =>
      if Within name t.category then parentCategoryName name else t.category
  others : ∀ id t, s.torrents.get id = some t → ¬ Within name t.category →
    s'.torrents.get id = some t

/-- What a name inherits: the nearest of the name and those above it that says something says it. -/
structure Inherits (Q : QtPaths) (s : Session) (name : CategoryName) : Prop where
  ratioLimit : s.categoryRatioLimit name = ((lineage name).findSome? fun n =>
    said defaultRatioLimit (s.categoryOptions n).ratioLimit).getD s.settings.globalMaxRatio
  seedingTimeLimit : s.categorySeedingTimeLimit name = ((lineage name).findSome? fun n =>
    said defaultSeedingTimeLimit (s.categoryOptions n).seedingTimeLimit).getD
      s.settings.globalMaxSeedingMinutes
  inactiveSeedingTimeLimit : s.categoryInactiveSeedingTimeLimit name =
    ((lineage name).findSome? fun n =>
      said defaultSeedingTimeLimit (s.categoryOptions n).inactiveSeedingTimeLimit).getD
        s.settings.globalMaxInactiveSeedingMinutes
  shareLimitAction : s.categoryShareLimitAction name = ((lineage name).findSome? fun n =>
    said .default (s.categoryOptions n).shareLimitAction).getD s.settings.shareLimitAction
  downloadPathOption :
    s.resolveCategoryDownloadPathOption name (s.categoryOptions name).downloadPath =
      ((lineage name).findSome? fun n => (s.categoryOptions n).downloadPath).getD
        { enabled := s.settings.isDownloadPathEnabled, path := [] }
  /-- The names that say nothing are directories below the save path of the first that does. -/
  savePath : ∀ silent above, lineage name = silent ++ above →
    (∀ n ∈ silent, (s.categoryOptions n).savePath = [] ∧
      Q.isAbsolute (Q.toValidPath (subcategoryName n)) = false) →
    s.categorySavePath Q name (s.categoryOptions name) =
      silent.foldr (fun n base => Q.join base (Q.toValidPath (subcategoryName n)))
        (s.categorySavePath Q (above.headD []) (s.categoryOptions (above.headD [])))
  /-- A save path that the name says itself, and that of no category. -/
  ownSavePath : name = [] ∨ (s.categoryOptions name).savePath ≠ [] →
    s.categorySavePath Q name (s.categoryOptions name) =
      if name = [] then s.settings.savePath
      else if Q.isAbsolute (s.categoryOptions name).savePath then (s.categoryOptions name).savePath
      else Q.join s.settings.savePath (s.categoryOptions name).savePath

theorem inherits (Q : QtPaths) (s : Session) (name : CategoryName) : Inherits Q s name where
  ratioLimit := inherited_eq _ _ _
  seedingTimeLimit := inherited_eq _ _ _
  inactiveSeedingTimeLimit := inherited_eq _ _ _
  shareLimitAction := inherited_eq _ _ _
  downloadPathOption := resolveCategoryDownloadPathOption_eq s name
  savePath := fun _ _ => categorySavePath_below
  ownSavePath := by
    intro h
    by_cases hname : name = []
    · rw [if_pos hname, hname, categorySavePath_nil]
    · rw [if_neg hname]
      exact categorySavePath_own hname (h.resolve_left hname)

theorem removeCategory_removes (htree : s.Tree) (hplaced : s.Placed)
    (hfree : ¬ s.Blocked (.removeCategory name))
    (h : (s.removeCategory Q name).result = true) :
    Removes s name (s.removeCategory Q name).state := by
  cases hguard : s.hasActiveAutoTMMRepair name with
  | true =>
    rw [removeCategory_guarded hguard] at h
    cases h
  | false =>
    have hlisted : s.isListed name = true := (removeCategory_result htree hguard).symm.trans h
    refine ⟨removeCategory_categories hguard, fun id => ?_, fun id t ht hnot => ?_⟩
    · rw [removeCategory_torrents hguard]
      cases ht : s.torrents.get id with
      | none => rfl
      | some t =>
        exact congrArg some (moved_category htree hplaced hfree hguard hlisted ht)
    · rw [removeCategory_torrents hguard, ht, Option.map_some]
      unfold moved
      split
      · rename_i hbelongs
        rcases belongsToCategory_iff.mp hbelongs with ⟨-, hempty⟩ | ⟨-, hwithin⟩
        · exact absurd hempty (htree.valid name hlisted).1
        · exact absurd hwithin hnot
      · rfl

/-- In every run the listed names are a tree that the listener knows; in every run that removes no
category while a torrent blocks it, every torrent is in a listed category, and `removeCategory` does
all of its work or none.  A removal that a torrent blocks breaks this. -/
theorem category_tree_kept (Q : QtPaths) :
    (∀ r, (system Q).Reachable (fun _ _ => True) r → r.Formed) ∧
    (∀ r, (system Q).Reachable (fun r label => ¬ r.session.Blocked label) r →
      r.session.Placed ∧
      (∀ name, ¬ r.session.Blocked (.removeCategory name) →
        (r.session.removeCategory Q name).result = true →
        Removes r.session name (r.session.removeCategory Q name).state) ∧
      (∀ name, (r.session.removeCategory Q name).result = false →
        (r.session.removeCategory Q name).state = r.session) ∧
      ∀ name, r.session.Blocked (.removeCategory name) →
        ¬ (r.session.removeCategory Q name).state.Placed) ∧
    ∀ s name, Inherits Q s name := by
  have hformed : ∀ {allowed : Run → Label → Prop} r, (system Q).Reachable allowed r → r.Formed := by
    intro allowed r hr
    refine System.Reachable.invariant (S := system Q) (I := Run.Formed) (fun _ h => h.1) ?_ hr
    exact fun _ _ _ h _ hstep => keeps_formed h hstep
  refine ⟨fun r => hformed r, fun r hr => ?_, inherits Q⟩
  have hboth : r.Formed ∧ r.session.Placed := by
    refine System.Reachable.invariant (S := system Q)
      (I := fun r => r.Formed ∧ r.session.Placed) (fun _ h => h) ?_ hr
    exact fun _ _ _ h hfree hstep =>
      ⟨keeps_formed h.1 hstep, keeps_placed h.1 h.2 hfree hstep⟩
  obtain ⟨⟨htree, -⟩, hplaced⟩ := hboth
  exact ⟨hplaced, fun name hfree => removeCategory_removes htree hplaced hfree,
    fun name => removeCategory_false htree hplaced, fun name => blocked_leaves htree⟩

/-! ### A session with one category -/

def noPaths : QtPaths := ⟨fun path => path, fun _ => false⟩

def sampleSession (job : MaintenanceJob) : Session where
  settings :=
    { savePath := [], downloadPath := [], isDownloadPathEnabled := false, globalMaxRatio := -1,
      globalMaxSeedingMinutes := -1, globalMaxInactiveSeedingMinutes := -1,
      shareLimitAction := .stop, isDisableAutoTMMWhenCategoryChanged := false,
      isDisableAutoTMMWhenCategorySavePathChanged := false }
  categories := ⟨[(['a'], {})], by decide⟩
  torrents := ⟨[(0, ⟨['a'], false, [], [], job⟩)], by simp⟩

theorem sampleSession_torrent {job : MaintenanceJob}
    (h : (sampleSession job).torrents.get id = some t) : t = ⟨['a'], false, [], [], job⟩ := by
  have hmem := InsertionMap.mem_entries_iff.mpr h
  have heq : (id, t) = ((0, ⟨['a'], false, [], [], job⟩) : ℕ × Torrent) := mem_singleton.mp hmem
  exact congrArg Prod.snd heq

theorem sampleSession_initial (job : MaintenanceJob) :
    (system noPaths).initial ⟨sampleSession job, some [['a']]⟩ := by
  have hlisted : ∀ n, (sampleSession job).isListed n = true ↔ n = ['a'] := by
    intro n
    rw [isListed_iff]
    constructor
    · rintro ⟨options, hget⟩
      have hmem := InsertionMap.mem_entries_iff.mpr hget
      have heq : (n, options) = ((['a'], {}) : CategoryName × CategoryOptions) :=
        mem_singleton.mp hmem
      exact congrArg Prod.fst heq
    · rintro rfl
      exact ⟨{}, rfl⟩
  refine ⟨⟨⟨?_, ?_⟩, ⟨[['a']], rfl, by decide, ?_⟩⟩, ?_⟩
  · intro n hn
    rw [(hlisted n).mp hn]
    decide
  · intro n hn p hp
    rw [(hlisted n).mp hn] at hp
    exact (hlisted p).mpr (mem_singleton.mp hp)
  · intro n
    rw [hlisted, mem_singleton]
  · intro id t ht
    rw [sampleSession_torrent ht]
    exact .inr ((hlisted _).mpr rfl)

theorem category_tree_kept_sample :
    Removes (sampleSession .none) ['a']
      ((sampleSession .none).removeCategory noPaths ['a']).state := by
  have hrun := (category_tree_kept noPaths).2.1 ⟨sampleSession .none, some [['a']]⟩
    (.start (sampleSession_initial .none))
  refine hrun.2.1 ['a'] ?_ (by decide +kernel)
  rintro ⟨-, -, id, t, ht, -, hbusy⟩
  rw [sampleSession_torrent ht] at hbusy
  exact absurd hbusy (by decide)

/-- The completed files of the torrent are being worked on: `removeCategory` returns true, and the
torrent stays in the category. -/
theorem torrent_in_removed_category :
    (system noPaths).initial ⟨sampleSession .completion, some [['a']]⟩ ∧
    ((sampleSession .completion).removeCategory noPaths ['a']).result = true ∧
    ((sampleSession .completion).removeCategory noPaths ['a']).state.isListed ['a'] = false ∧
    (((sampleSession .completion).removeCategory noPaths ['a']).state.torrents.get 0).map
      (·.category) = some ['a'] := by
  refine ⟨sampleSession_initial .completion, ?_, ?_, ?_⟩
  · decide +kernel
  · decide +kernel
  · decide +kernel

end Qbutt.Categories
