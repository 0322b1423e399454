import Mathlib.Data.List.SplitBy
import Qbutt.Algorithm.Blocks
import Qbutt.Search.Results

/-!
# Keys of merged and ranked variants

Merging and ranking change what is said of variants, never which variants there are: the keys of
`mergeVariants`, of `rankVariants` and of `catalogVariants` are those of the variants that go in.
-/

variable {k : String}

namespace Qbutt.Search

variable (P : Patterns)

def keysOf (variants : List Variant) : List String := variants.map variantKey

@[simp] theorem mem_keysOf_append {left right : List Variant} :
    k ∈ keysOf (left ++ right) ↔ k ∈ keysOf left ∨ k ∈ keysOf right := by
  rw [keysOf, List.map_append, List.mem_append]
  rfl

variable {variants : List Variant}

@[simp] theorem mem_keysOf_cons {variant : Variant} :
    k ∈ keysOf (variant :: variants) ↔ k = variantKey variant ∨ k ∈ keysOf variants := List.mem_cons

/-! ### `mergeVariants` -/

def Keyed (publications : InsertionMap String Variant) : Prop :=
  ∀ k variant, publications.get k = some variant → variantKey variant = k

/-- One variant in the loop of `mergeVariants`. -/
def putVariant (publications : InsertionMap String Variant) (variant : Variant) :
    InsertionMap String Variant :=
  publications.set (variantKey variant)
    (match publications.get (variantKey variant) with
    | some previous => mergeVariant previous variant
    | none => variant)

theorem mergeVariants_eq (variants : List Variant) :
    mergeVariants variants = (variants.foldl putVariant InsertionMap.empty).values := rfl

theorem keyed_putVariant {publications : InsertionMap String Variant} (h : Keyed publications)
    (variant : Variant) : Keyed (putVariant publications variant) := by
  intro k held hget
  rw [putVariant, InsertionMap.get_set] at hget
  by_cases hk : k = variantKey variant
  · rw [if_pos hk, Option.some.injEq] at hget
    rw [hk, ← hget]
    cases publications.get (variantKey variant) <;> rfl
  · rw [if_neg hk] at hget
    exact h k held hget

theorem isSome_putVariant (publications : InsertionMap String Variant) (variant : Variant) (k : String) :
    ((putVariant publications variant).get k).isSome ↔
      k = variantKey variant ∨ (publications.get k).isSome := by
  rw [putVariant, InsertionMap.get_set]
  by_cases hk : k = variantKey variant
  · simp [hk]
  · simp [hk]

theorem foldl_putVariant {publications : InsertionMap String Variant} (h : Keyed publications)
    (variants : List Variant) :
    Keyed (variants.foldl putVariant publications) ∧
      ∀ k, ((variants.foldl putVariant publications).get k).isSome ↔
        k ∈ keysOf variants ∨ (publications.get k).isSome := by
  induction variants generalizing publications with
  | nil => exact ⟨h, fun k => by simp [keysOf]⟩
  | cons variant variants ih =>
    obtain ⟨hkeyed, hget⟩ := ih (keyed_putVariant h variant)
    refine ⟨hkeyed, fun k => ?_⟩
    rw [List.foldl_cons, hget k, isSome_putVariant, mem_keysOf_cons]
    constructor
    · rintro (hk | hk | hk)
      · exact .inl (.inr hk)
      · exact .inl (.inl hk)
      · exact .inr hk
    · rintro ((hk | hk) | hk)
      · exact .inr (.inl hk)
      · exact .inl hk
      · exact .inr (.inr hk)

theorem mem_keysOf_mergeVariants : k ∈ keysOf (mergeVariants variants) ↔ k ∈ keysOf variants := by
  obtain ⟨hkeyed, hget⟩ := @foldl_putVariant InsertionMap.empty
    (fun k variant hget => by simp at hget) variants
  have hk := hget k
  rw [InsertionMap.get_empty, Option.isSome_none, Bool.false_eq_true, or_false] at hk
  rw [← hk, mergeVariants_eq, keysOf, List.mem_map, Option.isSome_iff_exists]
  constructor
  · rintro ⟨variant, hmem, hkey⟩
    obtain ⟨k', hget'⟩ := InsertionMap.mem_values.mp hmem
    have hk' : k' = k := by rw [← hkeyed k' variant hget', hkey]
    exact ⟨variant, by rw [← hk']; exact hget'⟩
  · rintro ⟨variant, hget'⟩
    exact ⟨variant, InsertionMap.mem_values.mpr ⟨k, hget'⟩, hkeyed k variant hget'⟩

/-! ### `rankVariants` -/

theorem perm_placeTorrents {run torrents : List Variant}
    (hlength : torrents.length = (run.filter fun variant => variant.transport = .torrent).length) :
    (placeTorrents run torrents).Perm
      ((run.filter fun variant => variant.transport ≠ .torrent) ++ torrents) := by
  induction run generalizing torrents with
  | nil =>
    rw [List.filter_nil, List.length_nil] at hlength
    rw [List.length_eq_zero_iff.mp hlength]
    rfl
  | cons variant run ih =>
    by_cases htorrent : variant.transport = .torrent
    · rw [List.filter_cons_of_pos (by simpa using htorrent), List.length_cons] at hlength
      obtain ⟨torrent, torrents, rfl⟩ := List.exists_cons_of_length_eq_add_one hlength
      rw [placeTorrents.eq_def]
      simp only [if_pos htorrent]
      rw [List.filter_cons_of_neg (by simpa using htorrent)]
      have hrest := @ih torrents (by simpa using hlength)
      exact (hrest.cons torrent).trans List.perm_middle.symm
    · rw [List.filter_cons_of_neg (by simpa using htorrent)] at hlength
      rw [placeTorrents.eq_def]
      simp only [if_neg htorrent]
      rw [List.filter_cons_of_pos (by simpa using htorrent)]
      exact (ih hlength).cons variant

theorem perm_orderTorrents (run : List Variant) : (orderTorrents run).Perm run := by
  have hplaced := @perm_placeTorrents run
    ((run.filter fun variant => variant.transport = .torrent).insertionSort
      fun left right => max 0 (right.seeders.getD 0) ≤ max 0 (left.seeders.getD 0))
    (List.length_insertionSort _ _)
  refine hplaced.trans (((List.perm_insertionSort _ _).append_left _).trans ?_)
  have hsplit := List.filter_append_perm (fun variant : Variant => decide (variant.transport ≠ .torrent)) run
  simpa using hsplit

theorem perm_flatMap_orderTorrents (runs : List (List Variant)) :
    (runs.flatMap orderTorrents).Perm runs.flatten := by
  induction runs with
  | nil => rfl
  | cons run runs ih =>
    rw [List.flatMap_cons, List.flatten_cons]
    exact (perm_orderTorrents run).append ih

theorem perm_keysOf_rankVariants (variants : List Variant) (language : Option String) (work : Work) :
    (keysOf (rankVariants P variants language work)).Perm (keysOf variants) := by
  have hprepared : ∀ season studios, keysOf (variants.map (prepareVariant P season studios)) =
      keysOf variants := by
    intro season studios
    rw [keysOf, List.map_map]
    rfl
  have hkeys : (keysOf (rankVariants P variants language work)).Perm
      (keysOf (variants.map (prepareVariant P (releaseSeason P variants work) (studiosOf P variants)))) := by
    refine List.Perm.map variantKey ((perm_flatMap_orderTorrents _).trans ?_)
    rw [List.flatten_splitBy]
    exact List.perm_insertionSort _ _
  rw [hprepared] at hkeys
  exact hkeys

theorem mem_keysOf_rankVariants {language : Option String} {work : Work} :
    k ∈ keysOf (rankVariants P variants language work) ↔ k ∈ keysOf variants :=
  (perm_keysOf_rankVariants P variants language work).mem_iff

end Qbutt.Search

/-!
## The works as sets of keys

A work is seen here as the set of the keys of its variants (`Holds`).  Each step of `publish` makes one
work of some works and a publication (`Absorbs`), so no key gets lost and none comes from elsewhere.  Works
share no key as long as a publication that comes in finds all its keys in the one work that it joins
(`Unlinked`).
-/

namespace Qbutt.Search.SearchResults

variable (P : Patterns) (language : Option String)

/-- The work at an identity has a variant with a key. -/
def Holds (works : InsertionMap String Work) (id k : String) : Prop :=
  ∃ work, works.get id = some work ∧ k ∈ keysOf work.variants

def Identified (works : InsertionMap String Work) : Prop :=
  ∀ id work, works.get id = some work → work.id = id

variable {works start : InsertionMap String Work}

theorem Identified.get (h : Identified works) {work : Work} (hwork : work ∈ works.values) :
    works.get work.id = some work := by
  obtain ⟨id, hget⟩ := InsertionMap.mem_values.mp hwork
  rw [h id work hget]
  exact hget

theorem Identified.keys (h : Identified works) :
    works.values.map Work.id = works.entries.map Prod.fst := by
  rw [InsertionMap.values, List.map_map]
  exact List.map_congr_left fun entry hentry => h entry.1 entry.2 (InsertionMap.mem_entries_iff.mp hentry)

theorem Identified.nodup (h : Identified works) : (works.values.map Work.id).Nodup := by
  rw [h.keys]
  exact works.nodup

/-! ### Replacing works -/

def stored (work : Work) : Work :=
  { work with variants := rankVariants P (mergeVariants work.variants) language work }

theorem store_eq (works : InsertionMap String Work) (work : Work) :
    store P language works work = works.set (stored P language work).id (stored P language work) := rfl

theorem mem_keysOf_stored {work : Work} :
    k ∈ keysOf (stored P language work).variants ↔ k ∈ keysOf work.variants :=
  (mem_keysOf_rankVariants P).trans mem_keysOf_mergeVariants

/-- One work takes the place of all works at absorbed identities, with their keys and some more. -/
structure Replaces (works works' : InsertionMap String Work) (new : Work) (absorbed : String → Prop)
    (extra : String → Prop) : Prop where
  at_new : works'.get new.id = some new
  elsewhere : ∀ id, id ≠ new.id → ∀ work,
    works'.get id = some work ↔ ¬absorbed id ∧ works.get id = some work
  keys : ∀ k, k ∈ keysOf new.variants ↔ extra k ∨ ∃ id, absorbed id ∧ Holds works id k

namespace Replaces

variable {works works' : InsertionMap String Work} {new : Work} {absorbed extra : String → Prop}

theorem absorbs (h : Replaces works works' new absorbed extra)
    (hfresh : absorbed new.id ∨ works.get new.id = none) :
    Absorbs (Holds works) (Holds works') new.id absorbed extra where
  at_new k := by
    rw [← h.keys k]
    constructor
    · rintro ⟨work, hget, hk⟩
      rw [h.at_new, Option.some.injEq] at hget
      rw [hget]
      exact hk
    · exact fun hk => ⟨new, h.at_new, hk⟩
  elsewhere id hid k := by
    constructor
    · rintro ⟨work, hget, hk⟩
      obtain ⟨hnot, hold⟩ := (h.elsewhere id hid work).mp hget
      exact ⟨hnot, work, hold, hk⟩
    · rintro ⟨hnot, work, hold, hk⟩
      exact ⟨work, (h.elsewhere id hid work).mpr ⟨hnot, hold⟩, hk⟩
  fresh := by
    rintro hnot k ⟨work, hget, -⟩
    rcases hfresh with habsorbed | hnone
    · exact hnot habsorbed
    · rw [hnone] at hget
      exact Option.some_ne_none work hget.symm

theorem get_cases (h : Replaces works works' new absorbed extra) {id : String} {work : Work}
    (hget : works'.get id = some work) :
    (id = new.id ∧ work = new) ∨ (¬absorbed id ∧ works.get id = some work) := by
  by_cases hid : id = new.id
  · rw [hid, h.at_new, Option.some.injEq] at hget
    exact .inl ⟨hid, hget.symm⟩
  · exact .inr ((h.elsewhere id hid work).mp hget)

theorem identified (h : Replaces works works' new absorbed extra) (hids : Identified works) :
    Identified works' := by
  intro id work hget
  rcases h.get_cases hget with ⟨hid, hwork⟩ | ⟨-, hold⟩
  · rw [hid, hwork]
  · exact hids id work hold

end Replaces

/-! ### The first loop -/

/-- The work that a publication joins is at this identity. -/
def IsTarget (works : InsertionMap String Work) (incoming : Work) (id : String) : Prop :=
  ∃ target, targetOf P works incoming = some target ∧ target.id = id

theorem joinPublication_spec (hids : Identified works) (incoming : Work) :
    ∃ new, Replaces works (joinPublication P language works incoming) new (IsTarget P works incoming)
        (· ∈ keysOf incoming.variants) ∧
      (new.id = incoming.id ∨ IsTarget P works incoming new.id) := by
  unfold joinPublication
  cases htarget : targetOf P works incoming with
  | none =>
    have hnone : ∀ id, ¬IsTarget P works incoming id := by
      rintro id ⟨target, hsome, -⟩
      rw [htarget] at hsome
      exact Option.some_ne_none target hsome.symm
    refine ⟨stored P language incoming, ⟨?_, ?_, ?_⟩, .inl rfl⟩
    · exact (InsertionMap.get_set ..).trans (if_pos rfl)
    · intro id hid work
      rw [store_eq, InsertionMap.get_set, if_neg hid]
      exact ⟨fun hget => ⟨hnone id, hget⟩, And.right⟩
    · intro k
      rw [mem_keysOf_stored]
      exact ⟨.inl, fun hk => hk.resolve_right fun ⟨id, hid, _⟩ => hnone id hid⟩
  | some target =>
    have hget : works.get target.id = some target :=
      hids.get (List.mem_of_find?_eq_some htarget)
    have hiff : ∀ id, IsTarget P works incoming id ↔ id = target.id := by
      intro id
      constructor
      · rintro ⟨target', hsome, hid⟩
        rw [htarget, Option.some.injEq] at hsome
        rw [← hid, hsome]
      · exact fun hid => ⟨target, htarget, hid.symm⟩
    have hkeys : ∀ k, k ∈ keysOf (stored P language (joinedWork target incoming)).variants ↔
        k ∈ keysOf incoming.variants ∨ ∃ id, IsTarget P works incoming id ∧ Holds works id k := by
      intro k
      rw [mem_keysOf_stored]
      show k ∈ keysOf (target.variants ++ incoming.variants) ↔ _
      rw [mem_keysOf_append, or_comm]
      constructor
      · rintro (hk | hk)
        · exact .inl hk
        · exact .inr ⟨target.id, (hiff _).mpr rfl, target, hget, hk⟩
      · rintro (hk | ⟨id, hid, work, hwork, hk⟩)
        · exact .inl hk
        · rw [(hiff id).mp hid, hget, Option.some.injEq] at hwork
          rw [← hwork] at hk
          exact .inr hk
    refine ⟨stored P language (joinedWork target incoming), ?_, ?_⟩
    · by_cases hmoved : (isCatalog incoming && decide (target.id ≠ incoming.id)) = true
      · obtain ⟨hcatalog, hne⟩ : isCatalog incoming = true ∧ target.id ≠ incoming.id := by
          simpa using hmoved
        have hid : (stored P language (joinedWork target incoming)).id = incoming.id := if_pos hcatalog
        simp only [if_pos hmoved]
        refine ⟨?_, ?_, hkeys⟩
        · rw [InsertionMap.get_delete, if_neg (by rw [hid]; exact hne.symm), store_eq, InsertionMap.get_set]
          exact if_pos rfl
        · intro id hid work
          rw [InsertionMap.get_delete, hiff]
          by_cases htaken : id = target.id
          · simp [htaken]
          · rw [if_neg htaken, store_eq, InsertionMap.get_set, if_neg hid]
            simp [htaken]
      · have hid : (stored P language (joinedWork target incoming)).id = target.id := by
          show (if isCatalog incoming then incoming.id else target.id) = target.id
          by_cases hcatalog : isCatalog incoming = true
          · rw [if_pos hcatalog]
            simp only [hcatalog, Bool.true_and, decide_eq_true_eq, not_not] at hmoved
            exact hmoved.symm
          · exact if_neg hcatalog
        simp only [if_neg hmoved]
        refine ⟨?_, ?_, hkeys⟩
        · rw [store_eq, InsertionMap.get_set]
          exact if_pos rfl
        · intro id hne work
          have hnot : id ≠ target.id := by rwa [hid] at hne
          rw [store_eq, InsertionMap.get_set, if_neg hne, hiff]
          simp [hnot]
    · show (if isCatalog incoming then incoming.id else target.id) = incoming.id ∨ _
      by_cases hcatalog : isCatalog incoming = true
      · exact .inl (if_pos hcatalog)
      · refine .inr ⟨target, htarget, ?_⟩
        exact (if_neg hcatalog).symm

/-- A publication has a variant that a work other than the one that it joins holds already. -/
def Links (works : InsertionMap String Work) (incoming : Work) : Prop :=
  ∃ work ∈ works.values, targetOf P works incoming ≠ some work ∧
    ∃ k ∈ keysOf incoming.variants, k ∈ keysOf work.variants

instance (works : InsertionMap String Work) (incoming : Work) : Decidable (Links P works incoming) :=
  inferInstanceAs (Decidable (∃ work ∈ works.values, targetOf P works incoming ≠ some work ∧
    ∃ k ∈ keysOf incoming.variants, k ∈ keysOf work.variants))

/-- No publication links works at its turn in the first loop. -/
def Unlinked (publications : List Work) : Prop :=
  ∀ n (h : n < publications.length), ¬Links P (joined P language (publications.take n)) publications[n]

instance (publications : List Work) : Decidable (Unlinked P language publications) :=
  inferInstanceAs (Decidable (∀ n (h : n < publications.length),
    ¬Links P (joined P language (publications.take n)) publications[n]))

variable {publications rest : List Work}

theorem Unlinked.of_append {incoming : Work}
    (h : Unlinked P language (publications ++ [incoming])) :
    Unlinked P language publications ∧ ¬Links P (joined P language publications) incoming := by
  constructor
  · intro n hn
    have hlinks := h n (by rw [List.length_append]; omega)
    rwa [List.take_append_of_le_length hn.le, List.getElem_append_left hn] at hlinks
  · have hlinks := h publications.length (by simp)
    rwa [List.take_append_of_le_length le_rfl, List.take_length, List.getElem_concat_length rfl] at hlinks

/-- What the first loop makes of publications. -/
structure Joined (publications : List Work) (works : InsertionMap String Work) : Prop where
  identified : Identified works
  known : ∀ id work, works.get id = some work → id ∈ publications.map Work.id
  covered : ∀ k, (∃ id, Holds works id k) ↔ ∃ p ∈ publications, k ∈ keysOf p.variants
  disjoint : Unlinked P language publications → Disjointed (Holds works)

theorem joined_append (publications : List Work) (incoming : Work) :
    joined P language (publications ++ [incoming]) =
      joinPublication P language (joined P language publications) incoming := by
  rw [joined, List.foldl_append]
  rfl

/-- The step of the first loop. -/
theorem Joined.append (h : Joined P language publications (joined P language publications))
    {incoming : Work} (hnew : incoming.id ∉ publications.map Work.id) :
    Joined P language (publications ++ [incoming]) (joined P language (publications ++ [incoming])) := by
  obtain ⟨new, hreplaces, hid⟩ := joinPublication_spec P language h.identified incoming
  rw [← joined_append] at hreplaces
  have hfresh : IsTarget P (joined P language publications) incoming new.id ∨
      (joined P language publications).get new.id = none := by
    rcases hid with hid | htarget
    · refine .inr (Option.eq_none_iff_forall_ne_some.mpr fun work hget => hnew ?_)
      rw [← hid]
      exact h.known new.id work hget
    · exact .inl htarget
  have habsorbs := hreplaces.absorbs hfresh
  constructor
  · exact hreplaces.identified h.identified
  · intro id work hget
    rw [List.map_append, List.mem_append, List.map_singleton, List.mem_singleton]
    rcases hreplaces.get_cases hget with ⟨rfl, -⟩ | ⟨-, hold⟩
    · rcases hid with hid | ⟨target, htarget, hid⟩
      · exact .inr hid
      · rw [← hid]
        exact .inl (h.known target.id target (h.identified.get (List.mem_of_find?_eq_some htarget)))
    · exact .inl (h.known id work hold)
  · intro k
    rw [habsorbs.covered k, h.covered k]
    simp only [List.mem_append, List.mem_singleton]
    constructor
    · rintro (hk | ⟨p, hp, hk⟩)
      · exact ⟨incoming, .inr rfl, hk⟩
      · exact ⟨p, .inl hp, hk⟩
    · rintro ⟨p, hp | rfl, hk⟩
      · exact .inr ⟨p, hp, hk⟩
      · exact .inl hk
  · intro hunlinked
    obtain ⟨hbefore, hnot⟩ := hunlinked.of_append P language
    refine habsorbs.disjoint (h.disjoint hbefore) fun k hk id hholds => ?_
    obtain ⟨work, hget, hkey⟩ := hholds
    by_contra htarget
    refine hnot ⟨work, InsertionMap.mem_values.mpr ⟨id, hget⟩, fun hsome => htarget ?_, k, hk, hkey⟩
    exact ⟨work, hsome, h.identified id work hget⟩

/-- What the first loop makes of publications with different identities. -/
theorem joined_spec (hnodup : (publications.map Work.id).Nodup) :
    Joined P language publications (joined P language publications) := by
  induction publications using List.reverseRecOn with
  | nil =>
    have hnone : ∀ id work, (joined P language []).get id = some work → False :=
      fun id work hget => Option.some_ne_none work hget.symm
    refine ⟨fun id work hget => (hnone id work hget).elim,
      fun id work hget => (hnone id work hget).elim, fun k => ?_, fun _ k id _ hholds => ?_⟩
    · constructor
      · rintro ⟨id, work, hget, -⟩
        exact (hnone id work hget).elim
      · rintro ⟨p, hp, -⟩
        exact (List.not_mem_nil hp).elim
    · obtain ⟨work, hget, -⟩ := hholds
      exact (hnone id work hget).elim
  | append_singleton publications incoming ih =>
    rw [List.map_append, List.map_singleton, List.nodup_append] at hnodup
    refine (ih hnodup.1).append P language fun hmem => ?_
    exact hnodup.2.2 incoming.id hmem incoming.id (List.mem_singleton_self _) rfl

/-! ### The second loop -/

theorem keysOf_catalogVariants (publication catalog : Work) :
    keysOf (catalogVariants P publication catalog) = keysOf publication.variants := by
  rw [keysOf, catalogVariants, List.map_map]
  refine List.map_congr_left fun variant _ => ?_
  show variantKey (if _ then _ else _) = variantKey variant
  by_cases htorrent : (decide (catalog.category = .anime) && decide (variant.transport = .torrent)) = true
  · rw [if_pos htorrent]
    cases animeTorrentEpisode P variant catalog <;> rfl
  · rw [if_neg htorrent]

/-- Only a publication that is not of a catalogue is attached, to a work of the catalogue. -/
theorem matchingCatalog_spec {publication catalog : Work} {catalogs : List Work}
    (h : matchingCatalog P publication catalogs = some catalog) :
    catalog ∈ catalogs ∧ isCatalog publication = false := by
  unfold matchingCatalog at h
  by_cases hskip : (!episodeUpload publication &&
      !(publication.variants.all fun variant => variant.transport = .torrent)) = true
  · rw [if_pos hskip] at h
    exact absurd h.symm (Option.some_ne_none catalog)
  · rw [if_neg hskip] at h
    constructor
    · have hmem : catalog ∈ catalogs.filter (catalogMatches P publication) := by
        generalize catalogs.filter (catalogMatches P publication) = works at h
        match works, h with
        | [work], h => exact List.mem_singleton.mpr (Option.some.inj h).symm
      exact (List.mem_filter.mp hmem).1
    · have hkind : episodeUpload publication = true ∨
          (publication.variants.all fun variant => variant.transport = .torrent) = true := by
        simpa [or_iff_not_imp_left] using hskip
      rw [isCatalog]
      rcases hkind with hupload | htorrents
      · have huser : isUserUpload publication = true := by
          simp only [episodeUpload, Bool.and_eq_true] at hupload
          exact hupload.1.2
        rw [huser]
        rfl
      · have hnone : (publication.variants.any fun variant => variant.transport ≠ .torrent) = false := by
          rw [List.any_eq_false]
          intro variant hvariant
          simpa using List.all_eq_true.mp htorrents variant hvariant
        rw [hnone, Bool.and_false]

/-- Attaching a publication that is still there puts its variants into the work of the catalogue. -/
theorem attachedWork_replaces (hids : Identified works) {publication catalog target : Work}
    (htarget : works.get catalog.id = some target)
    (hpublication : works.get publication.id = some publication)
    (hne : catalog.id ≠ publication.id) : Replaces works
      (store P language (works.delete publication.id) (attachedWork P target publication catalog))
      (stored P language (attachedWork P target publication catalog))
      (fun id => id = catalog.id ∨ id = publication.id) (fun _ => False) := by
  have hid : (stored P language (attachedWork P target publication catalog)).id = catalog.id :=
    hids catalog.id target htarget
  constructor
  · rw [store_eq, InsertionMap.get_set]
    exact if_pos rfl
  · intro id hnew work
    rw [store_eq, InsertionMap.get_set, if_neg hnew, InsertionMap.get_delete]
    rw [hid] at hnew
    by_cases htaken : id = publication.id
    · simp [htaken]
    · simp [htaken, hnew]
  · intro k
    rw [mem_keysOf_stored]
    show k ∈ keysOf (target.variants ++ catalogVariants P publication catalog) ↔ _
    rw [mem_keysOf_append, keysOf_catalogVariants]
    constructor
    · rintro (hk | hk)
      · exact .inr ⟨catalog.id, .inl rfl, target, htarget, hk⟩
      · exact .inr ⟨publication.id, .inr rfl, publication, hpublication, hk⟩
    · rintro (hfalse | ⟨id, rfl | rfl, work, hget, hk⟩)
      · exact hfalse.elim
      · rw [htarget, Option.some.injEq] at hget
        rw [hget]
        exact .inl hk
      · rw [hpublication, Option.some.injEq] at hget
        rw [hget]
        exact .inr hk

/-- The works in the second loop, which started with `start` and has `rest` to come: publications that
are not of a catalogue are as they were until their turn, and works of the catalogue stay. -/
structure Attaching (start : InsertionMap String Work) (rest : List Work)
    (works : InsertionMap String Work) : Prop where
  identified : Identified works
  covered : ∀ k, (∃ id, Holds works id k) ↔ ∃ id, Holds start id k
  disjoint : Disjointed (Holds start) → Disjointed (Holds works)
  catalogs : ∀ catalog ∈ start.values.filter isCatalog, (works.get catalog.id).isSome
  waiting : ∀ publication ∈ rest, isCatalog publication = false →
    works.get publication.id = some publication
  members : rest ⊆ start.values
  nodup : (rest.map Work.id).Nodup

theorem Attaching.pop {publication : Work} (h : Attaching start (publication :: rest) works) :
    Attaching start rest works :=
  { h with
    waiting := fun p hp => h.waiting p (List.mem_cons_of_mem _ hp)
    members := fun p hp => h.members (List.mem_cons_of_mem _ hp)
    nodup := (List.nodup_cons.mp h.nodup).2 }

/-- The step of the second loop. -/
theorem Attaching.step (hstart : Identified start) {publication : Work}
    (h : Attaching start (publication :: rest) works) :
    ∃ works', attachPublication P language (start.values.filter isCatalog) works publication =
        some works' ∧ Attaching start rest works' := by
  unfold attachPublication
  cases hmatch : matchingCatalog P publication (start.values.filter isCatalog) with
  | none => exact ⟨works, rfl, h.pop⟩
  | some catalog =>
    by_cases hsame : catalog.id = publication.id
    · exact ⟨works, if_pos hsame, h.pop⟩
    · obtain ⟨hcatalog, hplain⟩ := matchingCatalog_spec P hmatch
      have hthere := h.waiting publication (List.mem_cons_self ..) hplain
      obtain ⟨target, htarget⟩ := Option.isSome_iff_exists.mp (h.catalogs catalog hcatalog)
      have hreplaces := attachedWork_replaces P language h.identified htarget hthere hsame
      have hid : (stored P language (attachedWork P target publication catalog)).id = catalog.id :=
        h.identified catalog.id target htarget
      have habsorbs := hreplaces.absorbs (.inl (.inl hid))
      refine ⟨_, (if_neg hsame).trans (by rw [htarget]; rfl), ?_⟩
      constructor
      · exact hreplaces.identified h.identified
      · intro k
        rw [habsorbs.covered k, ← h.covered k]
        exact or_iff_right not_false
      · exact fun hdisjoint => habsorbs.disjoint (h.disjoint hdisjoint) fun k hk => hk.elim
      · intro other hother
        by_cases hsame' : other.id = catalog.id
        · rw [hsame', ← hid, hreplaces.at_new]
          rfl
        · have hne : other.id ≠ publication.id := by
            -- A work of the catalogue is not the publication, so it has another identity.
            intro heq
            have hmem := List.mem_filter.mp hother
            have hother' := hstart.get hmem.1
            rw [heq, hstart.get (h.members (List.mem_cons_self ..)), Option.some.injEq] at hother'
            rw [← hother', hplain] at hmem
            exact Bool.false_ne_true hmem.2
          obtain ⟨work, hwork⟩ := Option.isSome_iff_exists.mp (h.catalogs other hother)
          rw [(hreplaces.elsewhere other.id (by rw [hid]; exact hsame') work).mpr
            ⟨not_or.mpr ⟨hsame', hne⟩, hwork⟩]
          rfl
      · intro p hp hplain'
        have hmem := h.members (List.mem_cons_of_mem _ hp)
        have hne : p.id ≠ publication.id := fun heq =>
          (List.nodup_cons.mp h.nodup).1 (by rw [← heq]; exact List.mem_map_of_mem hp)
        have hne' : p.id ≠ catalog.id := by
          intro heq
          have hcatalog' := List.mem_filter.mp hcatalog
          have hp' := hstart.get hmem
          rw [heq, hstart.get hcatalog'.1, Option.some.injEq] at hp'
          rw [← hp', hcatalog'.2] at hplain'
          exact Bool.false_ne_true hplain'.symm
        exact (hreplaces.elsewhere p.id (by rw [hid]; exact hne') p).mpr
          ⟨not_or.mpr ⟨hne', hne⟩, h.waiting p (List.mem_cons_of_mem _ hp) hplain'⟩
      · exact h.pop.members
      · exact h.pop.nodup

/-- The second loop comes to its end. -/
theorem Attaching.run (hstart : Identified start) (h : Attaching start rest works) :
    ∃ works', rest.foldlM (attachPublication P language (start.values.filter isCatalog)) works =
        some works' ∧ Attaching start [] works' := by
  induction rest generalizing works with
  | nil => exact ⟨works, rfl, h⟩
  | cons publication rest ih =>
    obtain ⟨next, hstep, hnext⟩ := h.step P language hstart
    obtain ⟨last, hrun, hlast⟩ := ih hnext
    exact ⟨last, by rw [List.foldlM_cons, hstep]; exact hrun, hlast⟩

/-! ### Both loops -/

structure Rebuilt (publications : List Work) (works : InsertionMap String Work) : Prop where
  identified : Identified works
  covered : ∀ k, (∃ id, Holds works id k) ↔ ∃ p ∈ publications, k ∈ keysOf p.variants
  disjoint : Unlinked P language publications → Disjointed (Holds works)

theorem rebuild_spec (hnodup : (publications.map Work.id).Nodup) :
    ∃ works, rebuild P language publications = some works ∧ Rebuilt P language publications works := by
  have hjoined := joined_spec P language hnodup
  have hstart : Attaching (joined P language publications) (joined P language publications).values
      (joined P language publications) :=
    { identified := hjoined.identified
      covered := fun k => Iff.rfl
      disjoint := id
      catalogs := fun catalog hcatalog => by
        rw [hjoined.identified.get (List.mem_filter.mp hcatalog).1]
        rfl
      waiting := fun publication hp _ => hjoined.identified.get hp
      members := fun p hp => hp
      nodup := hjoined.identified.nodup }
  obtain ⟨works, hrun, hworks⟩ := hstart.run P language hjoined.identified
  refine ⟨works, hrun, hworks.identified, fun k => ?_, fun hunlinked => ?_⟩
  · rw [hworks.covered k, hjoined.covered k]
  · exact hworks.disjoint (hjoined.disjoint hunlinked)

end Qbutt.Search.SearchResults
