import Qbutt.Association.Equiv.Groups
import Qbutt.Library.Entry

/-!
# Detached entries

What a valid entry says of its publications, and that the entries that `detached_entries` makes are for
different works, carry what was opened and read of these, and lose nothing of it.
-/

namespace Qbutt.Library

open Qbutt.Content Qbutt.Association Qbutt.Greedy Option List
open Qbutt.Rust (Unicode ensure validateDistinct ensure_eq_ok validateDistinct_eq_ok)

variable {F : Type} {C : Checks F} {entry : LibraryEntry F} {work : Work}

/-! ### Valid entries -/

theorem validateVariants_spec {known : List VariantRef} {variants : List Variant}
    (h : validateVariants C work known variants = .ok ()) :
    ∀ variant ∈ variants, variant.reference.publication = work.reference := by
  induction variants generalizing known with
  | nil => exact fun _ hmem => absurd hmem not_mem_nil
  | cons variant variants ih =>
    obtain ⟨⟨⟩, hpublication, h⟩ := bind_eq_ok.mp h
    obtain ⟨⟨⟩, -, h⟩ := bind_eq_ok.mp h
    obtain ⟨⟨⟩, -, h⟩ := bind_eq_ok.mp h
    obtain ⟨⟨⟩, -, h⟩ := bind_eq_ok.mp h
    rw [forall_mem_cons]
    exact ⟨by simpa using ensure_eq_ok.mp hpublication, ih h⟩

theorem validateWork_spec (h : validateWork C work = .ok ()) :
    ∀ variant ∈ work.variants, variant.reference.publication = work.reference := by
  obtain ⟨⟨⟩, -, h⟩ := bind_eq_ok.mp h
  obtain ⟨⟨⟩, -, h⟩ := bind_eq_ok.mp h
  obtain ⟨⟨⟩, -, h⟩ := bind_eq_ok.mp h
  obtain ⟨⟨⟩, -, h⟩ := bind_eq_ok.mp h
  obtain ⟨⟨⟩, -, h⟩ := bind_eq_ok.mp h
  exact validateVariants_spec h

/-- What is used of a valid entry. -/
structure LibraryEntry.Coherent (entry : LibraryEntry F) : Prop where
  anchor : entry.group.anchor ∈ entry.group.references
  distinct : Distinct entry.group.publications
  references : ∀ work ∈ entry.group.publications, work.reference ∈ entry.group.references
  exact : ∀ variant ∈ entry.exactVariants,
    ∃ work ∈ entry.group.publications, variant.publication = work.reference

theorem coherent_of_validate (h : entry.validate C = .ok ()) : entry.Coherent := by
  obtain ⟨⟨⟩, hanchor, h⟩ := bind_eq_ok.mp h
  cases hcatalog : entry.group.catalogWork with
  | none =>
    rw [hcatalog] at h
    cases h
  | some catalog =>
    rw [hcatalog] at h
    obtain ⟨⟨⟩, -, h⟩ := bind_eq_ok.mp h
    obtain ⟨⟨⟩, -, h⟩ := bind_eq_ok.mp h
    obtain ⟨⟨⟩, hpublications, h⟩ := bind_eq_ok.mp h
    obtain ⟨⟨⟩, -, h⟩ := bind_eq_ok.mp h
    obtain ⟨⟨⟩, hexact, -⟩ := bind_eq_ok.mp h
    obtain ⟨hchecked, hnodup, -⟩ := validateDistinct_eq_ok.mp hpublications
    have hanchor := ensure_eq_ok.mp hanchor
    rw [Bool.and_eq_true, contains_iff_mem] at hanchor
    refine ⟨hanchor.2, hnodup, ?_, ?_⟩
    · intro work hwork
      obtain ⟨⟨⟩, -, h⟩ := bind_eq_ok.mp (hchecked work hwork)
      simpa using ensure_eq_ok.mp h
    · intro variant hvariant
      have hhas := ensure_eq_ok.mp (forM_eq_ok.mp hexact variant hvariant)
      unfold hasVariant at hhas
      rw [List.any_eq_true] at hhas
      obtain ⟨work, hwork, hhas⟩ := hhas
      rw [List.any_eq_true] at hhas
      obtain ⟨found, hfound, heq⟩ := hhas
      obtain ⟨⟨⟩, hvalid, -⟩ := bind_eq_ok.mp (hchecked work hwork)
      refine ⟨work, hwork, ?_⟩
      rw [← of_decide_eq_true heq]
      exact validateWork_spec hvalid found hfound

theorem LibraryEntry.Coherent.opened (h : entry.Coherent) {opened : LastOpened}
    (hopened : entry.lastOpened = some opened) :
    ∃ work ∈ entry.group.publications, opened.variant.publication = work.reference :=
  h.exact opened.variant (by simp [LibraryEntry.exactVariants, hopened])

theorem LibraryEntry.Coherent.progress (h : entry.Coherent) {progress : ReaderProgress F}
    (hprogress : entry.readerProgress = some progress) :
    ∃ work ∈ entry.group.publications,
      progress.chapter.variant.publication = work.reference :=
  h.exact progress.chapter.variant (by simp [LibraryEntry.exactVariants, hprogress])

/-! ### Groups of different publications -/

variable {U : Unicode} {publications : List Work}

theorem groups_eq (publications : List Work) :
    groups U publications =
      (greedyGroups U (productTitles U publications) publications).map WorkGroup.ofGroup :=
  groupsWithTitles_eq _ _

theorem mem_of_mem_groups {group : WorkGroup} (hgroup : group ∈ groups U publications)
    {reference : PublicationRef} (hreference : reference ∈ group.references) :
    ∃ work ∈ publications, work.reference = reference := by
  rw [groups_eq] at hgroup
  obtain ⟨cluster, hcluster, rfl⟩ := mem_map.mp hgroup
  obtain ⟨work, hwork, rfl⟩ := mem_map.mp hreference
  exact ⟨work, (reached _ _ publications).mem_of_mem hcluster hwork, rfl⟩

theorem exists_group_of_mem (hwork : work ∈ publications) :
    ∃ group ∈ groups U publications, work.reference ∈ group.references := by
  obtain ⟨cluster, hcluster, hmem⟩ :=
    (reached (standsAlone U (productTitles U publications) publications)
      (confirmedMatch U (productTitles U publications)) publications).exists_group hwork
  rw [groups_eq]
  exact ⟨_, mem_map_of_mem hcluster, mem_map_of_mem hmem⟩

theorem groups_disjoint (hdistinct : Distinct publications) :
    (groups U publications).Pairwise fun g g' => g.references.Disjoint g'.references := by
  have hreached := reached (standsAlone U (productTitles U publications) publications)
    (confirmedMatch U (productTitles U publications)) publications
  have hnodup : publications.Nodup := List.Nodup.of_map _ hdistinct
  rw [groups_eq, pairwise_map]
  refine ((nodup_flatMap.mp (hreached.perm.nodup_iff.mpr hnodup)).2).imp_of_mem ?_
  intro g g' hg hg' hdisjoint reference href href'
  obtain ⟨work, hwork, rfl⟩ := mem_map.mp href
  obtain ⟨work', hwork', heq⟩ := mem_map.mp href'
  have hsame := hdistinct.eq_of_reference (hreached.mem_of_mem hg' hwork')
    (hreached.mem_of_mem hg hwork) heq
  exact hdisjoint hwork (hsame ▸ hwork')

/-! ### Detached entries -/

variable {group : WorkGroup} {detached : LibraryEntry F}

theorem detachedEntry_spec (h : detachedEntry entry group = some detached) :
    detached.group.references = group.references ∧
    detached.group.anchor ∈ group.references ∧
    detached.lastOpened = entry.lastOpened.filter (fun opened =>
      group.references.contains opened.variant.publication) ∧
    detached.readerProgress = entry.readerProgress.filter (fun progress =>
      group.references.contains progress.chapter.variant.publication) := by
  obtain ⟨exact, hexact, rfl⟩ := map_eq_some_iff.mp h
  refine ⟨rfl, ?_, rfl, rfl⟩
  show exact.publication ∈ group.references
  rcases (orElse_eq_some _ _ _).mp hexact with hopened | ⟨-, hexact⟩
  · obtain ⟨opened, hfound, rfl⟩ := map_eq_some_iff.mp hopened
    simpa using (filter_eq_some_iff.mp hfound).2
  · rcases (orElse_eq_some _ _ _).mp hexact with hprogress | ⟨-, hselected⟩
    · obtain ⟨progress, hfound, rfl⟩ := map_eq_some_iff.mp hprogress
      simpa using (filter_eq_some_iff.mp hfound).2
    · simpa using (filter_eq_some_iff.mp hselected).2

theorem detachedEntry_isSome (h : (∃ opened, entry.lastOpened = some opened ∧
      opened.variant.publication ∈ group.references) ∨
    ∃ progress, entry.readerProgress = some progress ∧
      progress.chapter.variant.publication ∈ group.references) :
    ∃ detached, detachedEntry entry group = some detached := by
  have hfilter : ∀ {A : Type} {value : Option A} {found : A} (reference : A → VariantRef),
      value = some found → (reference found).publication ∈ group.references →
      value.filter (fun found => group.references.contains (reference found).publication) =
        some found := fun reference hvalue hmem =>
    filter_eq_some_iff.mpr ⟨hvalue, by simpa using hmem⟩
  suffices hsome : (detachedEntry entry group).isSome from isSome_iff_exists.mp hsome
  unfold detachedEntry
  rw [isSome_map, isSome_iff_exists]
  rcases h with ⟨opened, hopened, hmem⟩ | ⟨progress, hprogress, hmem⟩
  · exact ⟨_, (orElse_eq_some _ _ _).mpr
      (.inl (by rw [hfilter LastOpened.variant hopened hmem]; rfl))⟩
  · have hread := hfilter (fun progress => progress.chapter.variant) hprogress hmem
    simp only [hread]
    cases entry.lastOpened.filter fun opened =>
        group.references.contains opened.variant.publication with
    | some opened => exact ⟨_, rfl⟩
    | none => exact ⟨_, rfl⟩

/-- The publications that are not in the new membership. -/
def outside (entry : LibraryEntry F) (current : WorkGroup) : List Work :=
  entry.group.publications.filter fun work => !current.references.contains work.reference

theorem detachedEntries_eq (hentry : entry.Coherent) (current : WorkGroup) :
    detachedEntries U entry current =
      (groups U (outside entry current)).filterMap (detachedEntry entry) := by
  have hdistinct : Distinct (outside entry current) :=
    hentry.distinct.sublist (filter_sublist.map _)
  have harrive : (outside entry current).foldl update [] = outside entry current :=
    arrive_eq hdistinct
  unfold detachedEntries
  rw [show (entry.group.publications.filter fun work =>
    !current.references.contains work.reference) = outside entry current from rfl, harrive]

/-- What is known of the entries that are split off. -/
structure Split (entry : LibraryEntry F) (current : WorkGroup) (parts : List (LibraryEntry F)) :
    Prop where
  anchors : parts.Pairwise fun part other => part.group.anchor ≠ other.group.anchor
  outside : ∀ part ∈ parts, part.group.anchor ∉ current.references
  lastOpened : ∀ part ∈ parts, ∀ opened, part.lastOpened = some opened →
    entry.lastOpened = some opened
  readerProgress : ∀ part ∈ parts, ∀ progress, part.readerProgress = some progress →
    entry.readerProgress = some progress
  opened : ∀ opened, entry.lastOpened = some opened →
    opened.variant.publication ∉ current.references → ∃ part ∈ parts, part.lastOpened = some opened
  progress : ∀ progress, entry.readerProgress = some progress →
    progress.chapter.variant.publication ∉ current.references →
      ∃ part ∈ parts, part.readerProgress = some progress

theorem split_detachedEntries (hentry : entry.Coherent) (current : WorkGroup) :
    Split entry current (detachedEntries U entry current) := by
  have hdistinct : Distinct (Library.outside entry current) :=
    hentry.distinct.sublist (filter_sublist.map _)
  have houtside : ∀ work, work ∈ Library.outside entry current ↔
      work ∈ entry.group.publications ∧ work.reference ∉ current.references := fun work => by
    simp [Library.outside]
  have hpart : ∀ part ∈ (groups U (Library.outside entry current)).filterMap (detachedEntry entry),
      ∃ group ∈ groups U (Library.outside entry current), detachedEntry entry group = some part :=
    fun part hpart => mem_filterMap.mp hpart
  have hgroup : ∀ reference, (∃ work ∈ entry.group.publications, reference = work.reference) →
      reference ∉ current.references → ∃ group ∈ groups U (Library.outside entry current),
        reference ∈ group.references := by
    rintro reference ⟨work, hwork, rfl⟩ hnot
    exact exists_group_of_mem ((houtside work).mpr ⟨hwork, hnot⟩)
  rw [detachedEntries_eq hentry]
  refine ⟨?_, ?_, ?_, ?_, ?_, ?_⟩
  · refine List.Pairwise.filterMap (detachedEntry entry) ?_ (groups_disjoint (U := U) hdistinct)
    intro group group' hdisjoint part hpart part' hpart' heq
    obtain ⟨-, hanchor, -⟩ := detachedEntry_spec hpart
    obtain ⟨-, hanchor', -⟩ := detachedEntry_spec hpart'
    exact hdisjoint hanchor (heq ▸ hanchor')
  · intro part hmem
    obtain ⟨group, hgroup, hpart⟩ := hpart part hmem
    obtain ⟨-, hanchor, -⟩ := detachedEntry_spec hpart
    obtain ⟨work, hwork, heq⟩ := mem_of_mem_groups hgroup hanchor
    rw [← heq]
    exact ((houtside work).mp hwork).2
  · intro part hmem opened hopened
    obtain ⟨group, -, hpart⟩ := hpart part hmem
    obtain ⟨-, -, hlast, -⟩ := detachedEntry_spec hpart
    rw [hlast] at hopened
    exact (filter_eq_some_iff.mp hopened).1
  · intro part hmem progress hprogress
    obtain ⟨group, -, hpart⟩ := hpart part hmem
    obtain ⟨-, -, -, hread⟩ := detachedEntry_spec hpart
    rw [hread] at hprogress
    exact (filter_eq_some_iff.mp hprogress).1
  · intro opened hopened hnot
    obtain ⟨group, hmem, href⟩ := hgroup _ (hentry.opened hopened) hnot
    obtain ⟨part, hpart⟩ := detachedEntry_isSome (.inl ⟨opened, hopened, href⟩)
    refine ⟨part, mem_filterMap.mpr ⟨group, hmem, hpart⟩, ?_⟩
    obtain ⟨-, -, hlast, -⟩ := detachedEntry_spec hpart
    rw [hlast]
    exact filter_eq_some_iff.mpr ⟨hopened, by simpa using href⟩
  · intro progress hprogress hnot
    obtain ⟨group, hmem, href⟩ := hgroup _ (hentry.progress hprogress) hnot
    obtain ⟨part, hpart⟩ := detachedEntry_isSome (.inr ⟨progress, hprogress, href⟩)
    refine ⟨part, mem_filterMap.mpr ⟨group, hmem, hpart⟩, ?_⟩
    obtain ⟨-, -, -, hread⟩ := detachedEntry_spec hpart
    rw [hread]
    exact filter_eq_some_iff.mpr ⟨hprogress, by simpa using href⟩

end Qbutt.Library
