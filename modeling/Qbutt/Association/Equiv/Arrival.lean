import Mathlib.Data.List.Permutation
import Qbutt.Association.Equiv.Groups

/-!
# Rows of a search

The rows of a search are ordered by keys that depend on the set of their publications only, and
different rows have different keys.
-/

namespace Qbutt.Association

open Qbutt.Content Qbutt.Rust Qbutt.Greedy List

/-! ### Minima -/

section Minimum

variable {α : Type} [LinearOrder α] {d : α} {as bs : List α}

theorem foldl_min_le (a : α) (as : List α) :
    as.foldl min a ∈ a :: as ∧ ∀ b ∈ a :: as, as.foldl min a ≤ b := by
  induction as generalizing a with
  | nil => simp
  | cons b as ih =>
    obtain ⟨hmem, hle⟩ := ih (min a b)
    rw [foldl_cons]
    refine ⟨?_, ?_⟩
    · rcases mem_cons.mp hmem with heq | hmem
      · rw [heq]
        rcases min_choice a b with h | h
        · rw [h]
          exact mem_cons_self
        · rw [h]
          exact mem_cons_of_mem a mem_cons_self
      · exact mem_cons_of_mem a (mem_cons_of_mem b hmem)
    · have hmin := hle (min a b) mem_cons_self
      intro c hc
      rcases mem_cons.mp hc with rfl | hc
      · exact hmin.trans (min_le_left c b)
      · rcases mem_cons.mp hc with rfl | hc
        · exact hmin.trans (min_le_right a c)
        · exact hle c (mem_cons_of_mem _ hc)

theorem minimum_mem (h : as ≠ []) : minimum d as ∈ as := by
  cases as with
  | nil => exact absurd rfl h
  | cons a as => exact (foldl_min_le a as).1

theorem minimum_le {a : α} (ha : a ∈ as) : minimum d as ≤ a := by
  cases as with
  | nil => cases ha
  | cons b as => exact (foldl_min_le b as).2 a ha

/-- The minimum depends on the elements only. -/
theorem minimum_congr (h : ∀ a, a ∈ as ↔ a ∈ bs) : minimum d as = minimum d bs := by
  by_cases has : as = []
  · have hbs : bs = [] := eq_nil_iff_forall_not_mem.mpr fun b hb => by
      rw [← h, has] at hb
      cases hb
    rw [has, hbs]
  · have hbs : bs ≠ [] := by
      rintro rfl
      exact not_mem_nil ((h _).mp (minimum_mem (d := d) has))
    apply le_antisymm
    · exact minimum_le ((h _).mpr (minimum_mem hbs))
    · exact minimum_le ((h _).mp (minimum_mem has))

end Minimum

/-! ### Sorted lists -/

/-- Two lists that are sorted by keys agree where their elements correspond to each other, with the same
keys, and where different elements have different keys. -/
theorem map_eq_of_sorted {α γ κ : Type} [LinearOrder κ] {as bs : List α} {f : α → γ}
    {key key' : α → κ} (has : as.Pairwise fun a b => key a ≤ key b)
    (hbs : bs.Pairwise fun a b => key' a ≤ key' b) (hperm : (as.map f).Perm (bs.map f))
    (hkey : ∀ a ∈ as, ∀ b ∈ bs, f a = f b → key a = key' b)
    (hinj : ∀ a ∈ as, ∀ b ∈ as, key a = key b → f a = f b) : as.map f = bs.map f := by
  have hsame : ∀ a ∈ as, ∀ b ∈ as, f a = f b → key a = key b := by
    intro a ha b hb hab
    obtain ⟨c, hc, hfc⟩ := mem_map.mp (hperm.mem_iff.mp (mem_map_of_mem ha))
    rw [hkey a ha c hc hfc.symm, hkey b hb c hc (hab.symm.trans hfc.symm)]
  let R : γ → γ → Prop := fun c d => ∃ a ∈ as, ∃ b ∈ as, f a = c ∧ f b = d ∧ key a ≤ key b
  refine @List.Perm.eq_of_pairwise _ R _ _ ?_ ?_ ?_ hperm
  · rintro c d - - ⟨a, ha, b, hb, rfl, rfl, hab⟩ ⟨b', hb', a', ha', hfb, hfa, hba⟩
    refine hinj a ha b hb (le_antisymm hab ?_)
    rw [hsame b hb b' hb' hfb.symm, hsame a ha a' ha' hfa.symm]
    exact hba
  · rw [pairwise_map]
    refine has.imp_of_mem fun {a b} ha hb hab => ⟨a, ha, b, hb, rfl, rfl, hab⟩
  · rw [pairwise_map]
    refine hbs.imp_of_mem fun {a b} ha hb hab => ?_
    obtain ⟨a', ha', hfa⟩ := mem_map.mp (hperm.mem_iff.mpr (mem_map_of_mem ha))
    obtain ⟨b', hb', hfb⟩ := mem_map.mp (hperm.mem_iff.mpr (mem_map_of_mem hb))
    refine ⟨a', ha', b', hb', hfa, hfb, ?_⟩
    rwa [hkey a' ha' a ha hfa, hkey b' hb' b hb hfb]

/-! ### Catalogue works -/

variable {U : Unicode}

theorem catalogWork_ofGroup (group : Cluster Work) :
    (WorkGroup.ofGroup group).catalogWork =
      if group.first.category = .video then
        (group.members.find? fun work => work.category = .movies || work.category = .tv) <|>
          some group.first
      else some group.first := by
  have hanchor : (WorkGroup.ofGroup group).anchorWork = some group.first := by
    simp [WorkGroup.anchorWork, WorkGroup.publication, WorkGroup.ofGroup, Cluster.members]
  rw [WorkGroup.catalogWork, hanchor]
  rfl

variable {left right : Work}

theorem sameFilm_category (h : sameFilm U left right = true) :
    (left.category = .video ∧ (right.category = .movies ∨ right.category = .tv)) ∨
      (right.category = .video ∧ (left.category = .movies ∨ left.category = .tv)) := by
  simp only [sameFilm, Bool.and_eq_true, Bool.or_eq_true, decide_eq_true_eq] at h
  exact h.1.1.1.1

/-- Different publications that match have the same category, or one of them is a video and the other
one a film or a series. -/
theorem category_of_match {titles : Titles} (h : confirmedMatch U titles left right = true)
    (hne : left.reference ≠ right.reference) :
    left.category = right.category ∨
      (left.category = .video ∧ (right.category = .movies ∨ right.category = .tv)) ∨
      (right.category = .video ∧ (left.category = .movies ∨ left.category = .tv)) := by
  obtain ⟨-, -, hcategory, -⟩ := (confirmedMatch_iff hne).mp h
  exact hcategory.imp_right sameFilm_category

variable {group group' : Cluster Work}

theorem catalogWork_category {titles : Titles}
    (hmatch : ∀ left ∈ group.members, ∀ right ∈ group.members, left ≠ right →
      left.reference ≠ right.reference ∧ confirmedMatch U titles left right = true) {work : Work}
    (hwork : work ∈ group.members)
    (hcategory : work.category ≠ .video ∨ ∀ other ∈ group.members, other.category = .video) :
    (WorkGroup.ofGroup group).catalogWork.map Work.category = some work.category := by
  have hpair : ∀ left ∈ group.members, ∀ right ∈ group.members, left.category ≠ .video →
      right.category ≠ .video → left.category = right.category := by
    intro left hleft right hright hl hr
    by_cases heq : left = right
    · rw [heq]
    · obtain ⟨hne, hm⟩ := hmatch left hleft right hright heq
      rcases category_of_match hm hne with h | ⟨h, -⟩ | ⟨h, -⟩
      · exact h
      · exact absurd h hl
      · exact absurd h hr
  have hfirst : group.first ∈ group.members := mem_cons_self
  rw [catalogWork_ofGroup]
  split_ifs with hvideo
  · cases hfind : group.members.find? fun work => work.category = .movies || work.category = .tv with
    | none =>
      show some group.first.category = _
      have hnone : ∀ other ∈ group.members, ¬ (other.category = .movies ∨ other.category = .tv) := by
        simpa using hfind
      rcases hcategory with hcategory | hall
      · have hne : group.first ≠ work := by
          rintro rfl
          exact hcategory hvideo
        obtain ⟨hreference, hm⟩ := hmatch group.first hfirst work hwork hne
        rcases category_of_match hm hreference with h | ⟨-, h⟩ | ⟨h, -⟩
        · rw [h]
        · exact absurd h (hnone work hwork)
        · exact absurd h hcategory
      · rw [hall work hwork, hvideo]
    | some film =>
      show some film.category = _
      have hfilm : film.category = .movies ∨ film.category = .tv := by
        simpa using List.find?_some hfind
      have hmem := mem_of_find?_eq_some hfind
      have hfilm' : film.category ≠ .video := by
        rcases hfilm with h | h <;> rw [h] <;> decide
      rcases hcategory with hcategory | hall
      · rw [hpair film hmem work hwork hfilm' hcategory]
      · exact absurd (hall film hmem) hfilm'
  · rcases hcategory with hcategory | hall
    · rw [Option.map_some, hpair group.first hfirst work hwork hvideo hcategory]
    · exact absurd (hall group.first hfirst) hvideo

/-! ### Rows of two orders -/

variable {works order other : List Work}

theorem Distinct.nodup (h : Distinct works) : works.Nodup := List.Nodup.of_map _ h

theorem reached_greedy (order : List Work) :
    Reached (standsAlone U (productTitles U order) order) (confirmedMatch U (productTitles U order))
      order (greedyGroups U (productTitles U order) order) :=
  reached _ _ order

theorem Settled.counterpart (h : Settled U works) (hdistinct : Distinct works)
    (horder : order.Perm works) (hother : other.Perm works)
    (hgroup : group ∈ greedyGroups U (productTitles U order) order) :
    ∃ group' ∈ greedyGroups U (productTitles U other) other,
      ∀ work, work ∈ group.members ↔ work ∈ group'.members := by
  have hfirst : group.first ∈ group.members := mem_cons_self
  have hmem : group.first ∈ other :=
    hother.mem_iff.mpr (horder.mem_iff.mp ((reached_greedy order).mem_of_mem hgroup hfirst))
  obtain ⟨group', hgroup', hfirst'⟩ := (reached_greedy (U := U) other).exists_group hmem
  refine ⟨group', hgroup', fun work => ?_⟩
  rw [(reached_greedy order).mem_iff (hdistinct.perm horder).nodup hgroup hfirst,
    (reached_greedy other).mem_iff (hdistinct.perm hother).nodup hgroup' hfirst',
    h.together_iff hdistinct horder, h.together_iff hdistinct hother]

theorem referenceSet_ofGroup (group : Cluster Work) :
    (WorkGroup.ofGroup group).referenceSet = (group.members.map Work.reference).toFinset := rfl

theorem mem_referenceSet (hdistinct : Distinct works) (hsub : ∀ work ∈ group.members, work ∈ works)
    {work : Work} (hwork : work ∈ works) :
    work.reference ∈ (WorkGroup.ofGroup group).referenceSet ↔ work ∈ group.members := by
  rw [referenceSet_ofGroup, mem_toFinset, mem_map]
  constructor
  · rintro ⟨member, hmember, heq⟩
    rwa [← hdistinct.eq_of_reference (hsub member hmember) hwork heq]
  · exact fun h => ⟨work, h, rfl⟩

/-- Rows with the same references have the same members. -/
theorem members_of_referenceSet (hdistinct : Distinct works)
    (hsub : ∀ work ∈ group.members, work ∈ works) (hsub' : ∀ work ∈ group'.members, work ∈ works)
    (heq : (WorkGroup.ofGroup group).referenceSet = (WorkGroup.ofGroup group').referenceSet)
    (work : Work) : work ∈ group.members ↔ work ∈ group'.members := by
  by_cases hwork : work ∈ works
  · rw [← mem_referenceSet hdistinct hsub hwork, heq, mem_referenceSet hdistinct hsub' hwork]
  · exact ⟨fun h => absurd (hsub work h) hwork, fun h => absurd (hsub' work h) hwork⟩

theorem referenceSet_congr (h : ∀ work, work ∈ group.members ↔ work ∈ group'.members) :
    (WorkGroup.ofGroup group).referenceSet = (WorkGroup.ofGroup group').referenceSet := by
  ext reference
  simp only [referenceSet_ofGroup, mem_toFinset, mem_map, h]

theorem isShown_congr (h : ∀ work, work ∈ group.members ↔ work ∈ group'.members) :
    isShown (WorkGroup.ofGroup group) = isShown (WorkGroup.ofGroup group') := by
  rw [Bool.eq_iff_iff]
  simp only [isShown, WorkGroup.ofGroup, any_eq_true, h]

theorem matches_of_mem (hdistinct : Distinct order)
    (hgroup : group ∈ greedyGroups U (productTitles U order) order) :
    ∀ left ∈ group.members, ∀ right ∈ group.members, left ≠ right →
      left.reference ≠ right.reference ∧
        confirmedMatch U (productTitles U order) left right = true := by
  intro left hleft right hright hne
  have hl := (reached_greedy order).mem_of_mem hgroup hleft
  have hr := (reached_greedy order).mem_of_mem hgroup hright
  refine ⟨fun heq => hne (hdistinct.eq_of_reference hl hr heq), ?_⟩
  exact (related_of_together (fun work _ => confirmedMatch_self work)
    (fun left _ right _ => confirmedMatch_symm) ⟨group, hgroup, hleft, hright⟩).2.2.1

theorem rowKey_congr (h : TitlesStable U works) (hdistinct : Distinct works)
    (horder : order.Perm works) (hother : other.Perm works)
    (hgroup : group ∈ greedyGroups U (productTitles U order) order)
    (hgroup' : group' ∈ greedyGroups U (productTitles U other) other)
    (hsame : ∀ work, work ∈ group.members ↔ work ∈ group'.members) (query : List Char) :
    rowKey (productTitles U order) query (WorkGroup.ofGroup group) =
      rowKey (productTitles U other) query (WorkGroup.ofGroup group') := by
  have hworks : ∀ work ∈ group.members, work ∈ works := fun work hwork =>
    horder.mem_iff.mp ((reached_greedy order).mem_of_mem hgroup hwork)
  have hnames : ∀ name, name ∈ groupNames (productTitles U order) (WorkGroup.ofGroup group) ↔
      name ∈ groupNames (productTitles U other) (WorkGroup.ofGroup group') := by
    intro name
    simp only [groupNames, WorkGroup.ofGroup, mem_flatMap, mem_map,
      exists_exists_and_eq_and, ← hsame]
    exact exists_congr fun work => and_congr_right fun hwork =>
      h order other horder hother work (hworks work hwork) name
  have hcategory : (WorkGroup.ofGroup group).catalogWork.map Work.category =
      (WorkGroup.ofGroup group').catalogWork.map Work.category := by
    have hm := matches_of_mem (hdistinct.perm horder) hgroup
    have hm' := matches_of_mem (hdistinct.perm hother) hgroup'
    by_cases hvideo : ∀ work ∈ group.members, work.category = .video
    · rw [catalogWork_category hm mem_cons_self (.inr hvideo),
        catalogWork_category hm' ((hsame _).mp mem_cons_self)
          (.inr fun work hwork => hvideo work ((hsame work).mpr hwork))]
    · push Not at hvideo
      obtain ⟨work, hwork, hcategory⟩ := hvideo
      rw [catalogWork_category hm hwork (.inl hcategory),
        catalogWork_category hm' ((hsame work).mp hwork) (.inl hcategory)]
  have hnumber : (WorkGroup.ofGroup group).catalogWork.map (fun work => work.category.toNat) =
      (WorkGroup.ofGroup group').catalogWork.map fun work => work.category.toNat := by
    have := congrArg (Option.map Category.toNat) hcategory
    rwa [Option.map_map, Option.map_map] at this
  have hcontains : (groupNames (productTitles U order) (WorkGroup.ofGroup group)).contains query =
      (groupNames (productTitles U other) (WorkGroup.ofGroup group')).contains query := by
    rw [Bool.eq_iff_iff, contains_iff_mem, contains_iff_mem, hnames]
  have hstart : (groupNames (productTitles U order) (WorkGroup.ofGroup group)).any
        (fun name => query.isPrefixOf name) =
      (groupNames (productTitles U other) (WorkGroup.ofGroup group')).any
        fun name => query.isPrefixOf name := by
    rw [Bool.eq_iff_iff]
    simp only [any_eq_true, hnames]
  have hname : minimum "" ((groupNames (productTitles U order) (WorkGroup.ofGroup group)).map
        String.ofList) =
      minimum "" ((groupNames (productTitles U other) (WorkGroup.ofGroup group')).map
        String.ofList) :=
    minimum_congr fun name => by simp only [mem_map, hnames]
  have hreference : minimum (toLex ("", "")) ((WorkGroup.ofGroup group).references.map
        fun reference => toLex (reference.source.id, reference.id)) =
      minimum (toLex ("", "")) ((WorkGroup.ofGroup group').references.map
        fun reference => toLex (reference.source.id, reference.id)) :=
    minimum_congr fun key => by simp only [WorkGroup.ofGroup, mem_map, hsame]
  unfold rowKey
  simp only [hcontains, hstart, hname, hnumber, hreference]

theorem rowKey_injective (hdistinct : Distinct order)
    (hgroup : group ∈ greedyGroups U (productTitles U order) order)
    (hgroup' : group' ∈ greedyGroups U (productTitles U order) order) {query : List Char}
    (hkey : rowKey (productTitles U order) query (WorkGroup.ofGroup group) =
      rowKey (productTitles U order) query (WorkGroup.ofGroup group')) : group = group' := by
  have hmin : ∀ g : Cluster Work, ∃ work ∈ g.members,
      minimum (toLex ("", "")) ((WorkGroup.ofGroup g).references.map
        fun reference => toLex (reference.source.id, reference.id)) =
        toLex (work.reference.source.id, work.reference.id) := by
    intro g
    have hne : (WorkGroup.ofGroup g).references.map (fun reference =>
        toLex (reference.source.id, reference.id)) ≠ [] := by
      simp [WorkGroup.ofGroup, Cluster.members]
    obtain ⟨reference, hreference, heq⟩ := mem_map.mp (minimum_mem
      (d := toLex ("", "")) hne)
    obtain ⟨work, hwork, rfl⟩ := mem_map.mp hreference
    exact ⟨work, hwork, heq.symm⟩
  obtain ⟨work, hwork, heq⟩ := hmin group
  obtain ⟨work', hwork', heq'⟩ := hmin group'
  have hpair : (toLex (work.reference.source.id, work.reference.id) : String ×ₗ String) =
      toLex (work'.reference.source.id, work'.reference.id) := by
    rw [← heq, ← heq']
    have h := congrArg (fun key : RowKey =>
      (ofLex (ofLex (ofLex (ofLex key).2).2).2).2) hkey
    exact h
  have hpair := Prod.mk.inj (toLex.injective hpair)
  have hreference : work.reference = work'.reference := by
    have hsource := Source.id_injective hpair.1
    cases hr : work.reference with
    | mk source id =>
      cases hr' : work'.reference with
      | mk source' id' =>
        rw [hr, hr'] at hsource hpair
        exact congrArg₂ PublicationRef.mk hsource hpair.2
  have hmem := (reached_greedy order).mem_of_mem hgroup hwork
  have hmem' := (reached_greedy order).mem_of_mem hgroup' hwork'
  have hsame := hdistinct.eq_of_reference hmem hmem' hreference
  exact (reached_greedy order).eq_of_mem hdistinct.nodup hgroup hgroup' hwork (hsame ▸ hwork')

/-! ### Independence of the order -/

theorem groups_arrive (hdistinct : Distinct works) (horder : order.Perm works) :
    groups U (arrive order) =
      (greedyGroups U (productTitles U order) order).map WorkGroup.ofGroup := by
  rw [arrive_eq (hdistinct.perm horder)]
  exact groupsWithTitles_eq _ _

theorem mem_partition (hdistinct : Distinct works) (horder : order.Perm works)
    {references : Finset PublicationRef} :
    references ∈ partition (groups U (arrive order)) ↔
      ∃ group ∈ greedyGroups U (productTitles U order) order,
        (WorkGroup.ofGroup group).referenceSet = references := by
  rw [groups_arrive hdistinct horder, partition, mem_toFinset, map_map]
  exact mem_map

theorem Settled.partition_subset (h : Settled U works) (hdistinct : Distinct works)
    (horder : order.Perm works) (hother : other.Perm works) :
    partition (groups U (arrive order)) ⊆ partition (groups U (arrive other)) := by
  intro references hreferences
  obtain ⟨group, hgroup, rfl⟩ := (mem_partition hdistinct horder).mp hreferences
  obtain ⟨group', hgroup', hsame⟩ := h.counterpart hdistinct horder hother hgroup
  exact (mem_partition hdistinct hother).mpr ⟨group', hgroup', (referenceSet_congr hsame).symm⟩

theorem mem_searchGroups (hdistinct : Distinct works) (horder : order.Perm works) {query : String}
    {row : WorkGroup} :
    row ∈ searchGroups U (arrive order) query ↔
      ∃ group ∈ greedyGroups U (productTitles U order) order,
        isShown (WorkGroup.ofGroup group) = true ∧ WorkGroup.ofGroup group = row := by
  rw [arrive_eq (hdistinct.perm horder)]
  unfold searchGroups
  rw [mem_mergeSort, mem_filter, groupsWithTitles_eq, mem_map]
  constructor
  · rintro ⟨⟨group, hgroup, rfl⟩, hshown⟩
    exact ⟨group, hgroup, hshown, rfl⟩
  · rintro ⟨group, hgroup, hshown, rfl⟩
    exact ⟨⟨group, hgroup, rfl⟩, hshown⟩

theorem searchGroups_sorted (publications : List Work) (query : String) :
    (searchGroups U publications query).Pairwise fun left right =>
      rowKey (productTitles U publications) (normalizedTitle U query.toList) left ≤
        rowKey (productTitles U publications) (normalizedTitle U query.toList) right := by
  refine (pairwise_mergeSort ?_ ?_ _).imp fun {a b} h => by simpa using h
  · intro a b c hab hbc
    rw [decide_eq_true_eq] at hab hbc ⊢
    exact hab.trans hbc
  · intro a b
    rw [Bool.or_eq_true, decide_eq_true_eq, decide_eq_true_eq]
    exact le_total _ _

theorem nodup_searchGroups (hdistinct : Distinct works) (horder : order.Perm works)
    (query : String) :
    ((searchGroups U (arrive order) query).map WorkGroup.referenceSet).Nodup := by
  have hreached := reached_greedy (U := U) order
  have hnodup := (hdistinct.perm horder).nodup
  have hrows : ((greedyGroups U (productTitles U order) order).map
      (WorkGroup.referenceSet ∘ WorkGroup.ofGroup)).Nodup := by
    refine List.Nodup.map_on ?_ (hreached.nodup hnodup)
    intro group hgroup group' hgroup' heq
    have hmem : ∀ g ∈ greedyGroups U (productTitles U order) order, ∀ work ∈ g.members,
        work ∈ order := fun g hg work hwork => hreached.mem_of_mem hg hwork
    have hsame := members_of_referenceSet (hdistinct.perm horder) (hmem group hgroup)
      (hmem group' hgroup') heq group.first
    exact hreached.eq_of_mem hnodup hgroup hgroup' mem_cons_self
      (hsame.mp mem_cons_self)
  rw [arrive_eq (hdistinct.perm horder)]
  unfold searchGroups
  refine ((mergeSort_perm _ _).map WorkGroup.referenceSet).nodup_iff.mpr ?_
  rw [groupsWithTitles_eq]
  rw [← map_map] at hrows
  exact hrows.sublist (filter_sublist.map _)

theorem Settled.searchGroups_subset (h : Settled U works) (hdistinct : Distinct works)
    (horder : order.Perm works) (hother : other.Perm works) {query : String} :
    (searchGroups U (arrive order) query).map WorkGroup.referenceSet ⊆
      (searchGroups U (arrive other) query).map WorkGroup.referenceSet := by
  intro references hreferences
  obtain ⟨row, hrow, rfl⟩ := mem_map.mp hreferences
  obtain ⟨group, hgroup, hshown, rfl⟩ := (mem_searchGroups hdistinct horder).mp hrow
  obtain ⟨group', hgroup', hsame⟩ := h.counterpart hdistinct horder hother hgroup
  rw [isShown_congr hsame] at hshown
  rw [referenceSet_congr hsame]
  exact mem_map_of_mem
    ((mem_searchGroups hdistinct hother).mpr ⟨group', hgroup', hshown, rfl⟩)

/-- Settled publications give the same groups and the same rows in every order of arrival. -/
theorem Settled.orderIndependent (h : Settled U works) (hdistinct : Distinct works) :
    OrderIndependent U works := by
  intro order other horder hother
  refine ⟨?_, fun query => ?_⟩
  · exact Finset.Subset.antisymm (h.partition_subset hdistinct horder hother)
      (h.partition_subset hdistinct hother horder)
  · refine map_eq_of_sorted (searchGroups_sorted _ query) (searchGroups_sorted _ query) ?_ ?_ ?_
    · refine (perm_ext_iff_of_nodup (nodup_searchGroups hdistinct horder query)
        (nodup_searchGroups hdistinct hother query)).mpr fun references => ?_
      exact ⟨fun hmem => h.searchGroups_subset hdistinct horder hother hmem,
        fun hmem => h.searchGroups_subset hdistinct hother horder hmem⟩
    · intro row hrow row' hrow' heq
      obtain ⟨group, hgroup, -, rfl⟩ := (mem_searchGroups hdistinct horder).mp hrow
      obtain ⟨group', hgroup', -, rfl⟩ := (mem_searchGroups hdistinct hother).mp hrow'
      have hworks : ∀ work ∈ group.members, work ∈ works := fun work hwork =>
        horder.mem_iff.mp ((reached_greedy order).mem_of_mem hgroup hwork)
      have hworks' : ∀ work ∈ group'.members, work ∈ works := fun work hwork =>
        hother.mem_iff.mp ((reached_greedy other).mem_of_mem hgroup' hwork)
      rw [arrive_eq (hdistinct.perm horder), arrive_eq (hdistinct.perm hother)]
      exact rowKey_congr h.1 hdistinct horder hother hgroup hgroup'
        (members_of_referenceSet hdistinct hworks hworks' heq) _
    · intro row hrow row' hrow' hkey
      obtain ⟨group, hgroup, -, rfl⟩ := (mem_searchGroups hdistinct horder).mp hrow
      obtain ⟨group', hgroup', -, rfl⟩ := (mem_searchGroups hdistinct horder).mp hrow'
      rw [arrive_eq (hdistinct.perm horder)] at hkey
      rw [rowKey_injective (hdistinct.perm horder) hgroup hgroup' hkey]

/-- Two publications that match are in one group of the order in which they come first. -/
theorem TitlesStable.together (h : TitlesStable U works) (hdistinct : Distinct works)
    (hleft : left ∈ works) (hright : right ∈ works) (hne : left ≠ right)
    (hmatch : Matches U works left right) :
    ∃ order : List Work, order.Perm works ∧
      Together (greedyGroups U (productTitles U order) order) left right := by
  have hright' : right ∈ works.erase left := (mem_erase_of_ne hne.symm).mpr hright
  refine ⟨left :: right :: (works.erase left).erase right, ?_, ?_⟩
  · exact ((perm_cons_erase hright').symm.cons left).trans (perm_cons_erase hleft).symm
  · have hperm : (left :: right :: (works.erase left).erase right).Perm works :=
      ((perm_cons_erase hright').symm.cons left).trans (perm_cons_erase hleft).symm
    have hjoins := (h.joins_iff hdistinct hperm hleft hright).mpr hmatch
    exact together_of_first hjoins.1 hjoins.2.1 hjoins.2.2 _

/-- Publications that are together in one order are together in every order with the same groups. -/
theorem together_of_partition (hdistinct : Distinct works) (horder : order.Perm works)
    (hother : other.Perm works)
    (hsame : partition (groups U (arrive order)) = partition (groups U (arrive other)))
    (h : Together (greedyGroups U (productTitles U order) order) left right) :
    Together (greedyGroups U (productTitles U other) other) left right := by
  obtain ⟨group, hgroup, hleft, hright⟩ := h
  have hmem : (WorkGroup.ofGroup group).referenceSet ∈ partition (groups U (arrive other)) :=
    hsame ▸ (mem_partition hdistinct horder).mpr ⟨group, hgroup, rfl⟩
  obtain ⟨group', hgroup', heq⟩ := (mem_partition hdistinct hother).mp hmem
  have hworks : ∀ work ∈ group.members, work ∈ works := fun work hwork =>
    horder.mem_iff.mp ((reached_greedy order).mem_of_mem hgroup hwork)
  have hworks' : ∀ work ∈ group'.members, work ∈ works := fun work hwork =>
    hother.mem_iff.mp ((reached_greedy other).mem_of_mem hgroup' hwork)
  have hmembers := members_of_referenceSet hdistinct hworks hworks' heq.symm
  exact ⟨group', hgroup', (hmembers left).mp hleft, (hmembers right).mp hright⟩

/-- Where the names do not depend on the order, groups that do not either leave no pair of publications
that match a third one but not each other. -/
theorem OrderIndependent.settled (h : OrderIndependent U works) (hdistinct : Distinct works)
    (hstable : TitlesStable U works) : Settled U works := by
  refine ⟨hstable, fun left hleft middle hmiddle right hright hlm hmr => ?_⟩
  by_cases hne : left = middle
  · rwa [hne]
  by_cases hne' : middle = right
  · rwa [← hne']
  obtain ⟨order, horder, htogether⟩ := hstable.together hdistinct hleft hmiddle hne hlm
  obtain ⟨other, hother, htogether'⟩ := hstable.together hdistinct hmiddle hright hne' hmr
  have hsame := (h other order hother horder).1
  obtain ⟨group, hgroup, hl, hm⟩ := htogether
  obtain ⟨group', hgroup', hm', hr⟩ := together_of_partition hdistinct hother horder hsame htogether'
  -- the publication in the middle is in one group, which has the two others as well
  have heq := (reached_greedy order).eq_of_mem (hdistinct.perm horder).nodup hgroup hgroup' hm hm'
  have hlr : Together (greedyGroups U (productTitles U order) order) left right :=
    ⟨group, hgroup, hl, heq ▸ hr⟩
  have hrelated := (related_of_together (fun work _ => confirmedMatch_self work)
    (fun left _ right _ => confirmedMatch_symm) hlr).2.2.1
  refine ⟨hlm.1, hmr.2.1, ?_⟩
  rwa [hstable.confirmedMatch horder hleft hright] at hrelated

/-! ### Three books -/

/-- The tables for texts of ASCII characters. -/
def asciiUnicode : Unicode where
  isAlphanumeric := isAsciiAlphanumeric
  toLowercase := fun c => [asciiLower c]
  textToLowercase := toAsciiLowercase

def samplePublication (id : String) (category : Category) (title : String) (aliases : List String) :
    Work where
  reference := ⟨.ruTor, id⟩
  title := title
  category := category
  url := ⟨"https://rutor.info/", "https", some "rutor.info", none, "", none, "/", none, none⟩
  cover := none
  description := none
  notes := []
  year := none
  aliases := aliases
  identifiers := []
  variants := []
  needsInspection := true

def firstBook : Work := samplePublication "1" .books "x" []

/-- A book that has the name of the first one and another name. -/
def secondBook : Work := samplePublication "2" .books "x" ["y"]

def thirdBook : Work := samplePublication "3" .books "y" []

end Qbutt.Association
