import Mathlib.Data.List.Sort
import Qbutt.Algorithm.Greedy
import Qbutt.Association.Equiv.Matching

/-!
# Groups and the order of arrival

`groups_with_titles` makes greedy groups of the publications.  The groups do not depend on the order of
arrival where the titles do not and matching is transitive among the publications that are not ambiguous
(`Settled`); where matching is not transitive, two orders give different groups.
-/

namespace Qbutt.Association

open Qbutt.Content Qbutt.Rust Qbutt.Greedy List

variable (U : Unicode)

/-! ### Greedy groups -/

/-- The row of a group of publications. -/
def WorkGroup.ofGroup (group : Cluster Work) : WorkGroup :=
  { anchor := group.first.reference
    references := group.members.map Work.reference
    publications := group.members }

/-- Whether a publication makes a group of its own. -/
def standsAlone (titles : Titles) (publications : List Work) (work : Work) : Bool :=
  (ambiguousReferences U titles publications).contains work.reference

def greedyGroups (titles : Titles) (publications : List Work) : List (Cluster Work) :=
  groupsOf (standsAlone U titles publications) (confirmedMatch U titles) publications

variable {U}

theorem filter_zipIdx_map {α β : Type} (f : α → β) (p : β → Bool) (as : List α) (n : ℕ) :
    ((as.map f).zipIdx n).filter (fun entry => p entry.1) =
      ((as.zipIdx n).filter fun entry => p (f entry.1)).map fun entry => (f entry.1, entry.2) := by
  rw [zipIdx_map, filter_map]
  rfl

theorem modify_map {α β : Type} {f : α → β} {g : β → β} {h : α → α} (hgh : ∀ a, g (f a) = f (h a))
    (as : List α) (index : ℕ) : (as.map f).modify index g = (as.modify index h).map f := by
  induction as generalizing index with
  | nil => simp
  | cons a as ih =>
    cases index with
    | zero => simp [hgh]
    | succ index => simp [ih]

theorem placePublication_map {titles : Titles} {ambiguous : List PublicationRef}
    (groups : List (Cluster Work)) (work : Work) :
    placePublication U titles ambiguous (groups.map WorkGroup.ofGroup) work =
      (place (fun work => ambiguous.contains work.reference) (confirmedMatch U titles) groups
        work).map WorkGroup.ofGroup := by
  have hfilter := filter_zipIdx_map WorkGroup.ofGroup (isCandidate U titles ambiguous work) groups 0
  unfold placePublication place
  split_ifs with halone
  · rw [map_append]
    rfl
  · rw [hfilter]
    have hsame : (groups.zipIdx.filter fun entry =>
        isCandidate U titles ambiguous work (WorkGroup.ofGroup entry.1)) =
        groups.zipIdx.filter fun candidate =>
          admits (fun work => ambiguous.contains work.reference) (confirmedMatch U titles)
            candidate.1 work := rfl
    rw [hsame]
    cases groups.zipIdx.filter fun candidate =>
        admits (fun work => ambiguous.contains work.reference) (confirmedMatch U titles)
          candidate.1 work with
    | nil => simp [WorkGroup.ofGroup, WorkGroup.single]
    | cons candidate rest =>
      cases rest with
      | nil =>
        obtain ⟨group, index⟩ := candidate
        refine modify_map (fun group => ?_) groups index
        simp [WorkGroup.ofGroup, WorkGroup.push, Cluster.push, Cluster.members]
      | cons other rest => simp [WorkGroup.ofGroup, WorkGroup.single]

theorem groupsWithTitles_eq (titles : Titles) (publications : List Work) :
    groupsWithTitles U titles publications =
      (greedyGroups U titles publications).map WorkGroup.ofGroup := by
  unfold groupsWithTitles greedyGroups groupsOf
  have hstart : ([] : List WorkGroup) = ([] : List (Cluster Work)).map WorkGroup.ofGroup := rfl
  rw [hstart]
  generalize ([] : List (Cluster Work)) = start
  suffices hall : ∀ works : List Work, works.foldl
      (placePublication U titles (ambiguousReferences U titles publications))
        (start.map WorkGroup.ofGroup) =
      (works.foldl (place (standsAlone U titles publications) (confirmedMatch U titles))
        start).map WorkGroup.ofGroup from hall publications
  intro works
  induction works generalizing start with
  | nil => rfl
  | cons work works ih =>
    rw [foldl_cons, foldl_cons, placePublication_map]
    exact ih _

/-! ### Publications with different references -/

/-- Publications with different references. -/
def Distinct (works : List Work) : Prop := (works.map Work.reference).Nodup

instance (works : List Work) : Decidable (Distinct works) :=
  inferInstanceAs (Decidable (works.map Work.reference).Nodup)

variable {left right work : Work}

variable {works : List Work}

theorem Distinct.eq_of_reference (h : Distinct works) (hleft : left ∈ works)
    (hright : right ∈ works) (heq : left.reference = right.reference) : left = right :=
  inj_on_of_nodup_map h hleft hright heq

theorem Distinct.perm {others : List Work} (h : Distinct works) (hperm : others.Perm works) :
    Distinct others :=
  (hperm.map Work.reference).nodup_iff.mpr h

theorem standsAlone_iff {titles : Titles} (h : Distinct works) (hwork : work ∈ works) :
    standsAlone U titles works work = ambiguous U titles works work := by
  rw [Bool.eq_iff_iff]
  unfold standsAlone ambiguousReferences
  rw [contains_iff_mem, mem_map]
  constructor
  · rintro ⟨other, hother, heq⟩
    obtain ⟨hother, hambiguous⟩ := mem_filter.mp hother
    rwa [← h.eq_of_reference hother hwork heq]
  · exact fun hambiguous => ⟨work, mem_filter.mpr ⟨hwork, hambiguous⟩, rfl⟩

/-! ### Arrival -/

/-- The publications after `update` was called for each work in turn. -/
def arrive (works : List Work) : List Work := works.foldl update []

theorem update_new {publications : List Work}
    (h : ∀ previous ∈ publications, previous.reference ≠ work.reference) :
    update publications work = publications ++ [work] := by
  have hnone : (publications.findIdx? fun previous => previous.reference = work.reference) =
      none := by
    rw [List.findIdx?_eq_none_iff]
    simpa using h
  unfold update
  rw [hnone]

theorem arrive_eq (h : Distinct works) : arrive works = works := by
  suffices hall : ∀ publications, Distinct (publications ++ works) →
      works.foldl update publications = publications ++ works from hall [] h
  clear h
  induction works with
  | nil => exact fun publications _ => (append_nil publications).symm
  | cons work works ih =>
    intro publications hdistinct
    have hnew : ∀ previous ∈ publications, previous.reference ≠ work.reference := by
      intro previous hprevious
      unfold Distinct at hdistinct
      rw [map_append, nodup_append] at hdistinct
      exact hdistinct.2.2 _ (mem_map_of_mem hprevious) _ (mem_map_of_mem
        mem_cons_self)
    rw [foldl_cons, update_new hnew]
    have happend : publications ++ work :: works = (publications ++ [work]) ++ works := by simp
    rw [happend] at hdistinct ⊢
    exact ih _ hdistinct

/-! ### What is compared -/

def WorkGroup.referenceSet (group : WorkGroup) : Finset PublicationRef := group.references.toFinset

def partition (rows : List WorkGroup) : Finset (Finset PublicationRef) :=
  (rows.map WorkGroup.referenceSet).toFinset

variable (U)

/-- The groups, and the rows of every search, are the same for any two orders of arrival. -/
def OrderIndependent (works : List Work) : Prop :=
  ∀ first second : List Work, first.Perm works → second.Perm works →
    partition (groups U (arrive first)) = partition (groups U (arrive second)) ∧
    ∀ query, (searchGroups U (arrive first) query).map WorkGroup.referenceSet =
      (searchGroups U (arrive second) query).map WorkGroup.referenceSet

/-- The names of the publications are the same for any two orders. -/
def TitlesStable (works : List Work) : Prop :=
  ∀ first second : List Work, first.Perm works → second.Perm works → ∀ work ∈ works, ∀ name,
    name ∈ ((productTitles U first).get work.reference).normalized ↔
      name ∈ ((productTitles U second).get work.reference).normalized

/-- Two publications that are not ambiguous match. -/
def Matches (works : List Work) (left right : Work) : Prop :=
  Joins (ambiguous U (productTitles U works) works) (confirmedMatch U (productTitles U works))
    left right

/-- The names are the same for all orders, and publications that match one that is not ambiguous match
each other. -/
def Settled (works : List Work) : Prop :=
  TitlesStable U works ∧ ∀ left ∈ works, ∀ middle ∈ works, ∀ right ∈ works,
    Matches U works left middle → Matches U works middle right → Matches U works left right

variable {U}

/-! ### Stable titles -/

variable {works order : List Work}

theorem TitlesStable.confirmedMatch (h : TitlesStable U works) (hperm : order.Perm works)
    (hleft : left ∈ works) (hright : right ∈ works) :
    Association.confirmedMatch U (productTitles U order) left right =
      Association.confirmedMatch U (productTitles U works) left right :=
  confirmedMatch_congr (h order works hperm (List.Perm.refl works) left hleft)
    (h order works hperm (List.Perm.refl works) right hright)

theorem TitlesStable.ambiguous (h : TitlesStable U works) (hperm : order.Perm works)
    (hwork : work ∈ works) :
    Association.ambiguous U (productTitles U order) order work =
      Association.ambiguous U (productTitles U works) works work := by
  refine conflictingIdentity_perm fun candidate => ?_
  rw [mem_filter, mem_filter, hperm.mem_iff]
  exact and_congr_right fun hcandidate => by rw [h.confirmedMatch hperm hwork hcandidate]

/-- Matches do not depend on the order. -/
theorem TitlesStable.joins_iff (h : TitlesStable U works) (hdistinct : Distinct works)
    (hperm : order.Perm works) (hleft : left ∈ works) (hright : right ∈ works) :
    Joins (standsAlone U (productTitles U order) order)
      (Association.confirmedMatch U (productTitles U order)) left right ↔
        Matches U works left right := by
  have horder := hdistinct.perm hperm
  unfold Matches Joins
  rw [standsAlone_iff horder (hperm.mem_iff.mpr hleft),
    standsAlone_iff horder (hperm.mem_iff.mpr hright), h.ambiguous hperm hleft,
    h.ambiguous hperm hright, h.confirmedMatch hperm hleft hright]

theorem Settled.together_iff (h : Settled U works) (hdistinct : Distinct works)
    (hperm : order.Perm works) :
    Together (greedyGroups U (productTitles U order) order) left right ↔
      left ∈ works ∧ right ∈ works ∧ (left = right ∨ Matches U works left right) := by
  have hmem : ∀ work, work ∈ order ↔ work ∈ works := fun work => hperm.mem_iff
  unfold greedyGroups
  rw [Greedy.together_iff (fun work _ => confirmedMatch_self work)
    (fun left _ right _ => confirmedMatch_symm), hmem, hmem]
  · refine and_congr_right fun hleft => and_congr_right fun hright => or_congr_right ?_
    exact h.1.joins_iff hdistinct hperm hleft hright
  · intro left hleft middle hmiddle right hright hlm hmr
    rw [hmem] at hleft hmiddle hright
    rw [h.1.joins_iff hdistinct hperm hleft hmiddle] at hlm
    rw [h.1.joins_iff hdistinct hperm hmiddle hright] at hmr
    rw [h.1.joins_iff hdistinct hperm hleft hright]
    exact h.2 left hleft middle hmiddle right hright hlm hmr

/-! ### All calls -/

/-- The calls that change the publications of a search. -/
inductive Call where
  | update (work : Work)
  | updateSearch (work : Work)
  | confirmEmptyInspection (reference : PublicationRef)

def Call.perform (publications : List Work) : Call → List Work
  | .update work => Association.update publications work
  | .updateSearch work => Association.updateSearch publications work
  | .confirmEmptyInspection reference =>
    (Association.confirmEmptyInspection publications reference).1

theorem Distinct.update (h : Distinct works) (work : Work) : Distinct (update works work) := by
  unfold Association.update
  split
  next index hindex =>
    obtain ⟨hlt, hsame, -⟩ := findIdx?_eq_some_iff_getElem.mp hindex
    have hmap : index < (works.map Work.reference).length := by simpa using hlt
    have href : (works.map Work.reference)[index] = work.reference := by simpa using hsame
    unfold Distinct
    rwa [map_set, ← href, set_getElem_self]
  next hnone =>
    rw [findIdx?_eq_none_iff] at hnone
    unfold Distinct
    rw [map_append, map_singleton, nodup_append]
    refine ⟨h, nodup_singleton _, ?_⟩
    simpa [forall_mem_map] using hnone

theorem Distinct.perform (h : Distinct works) (call : Call) : Distinct (call.perform works) := by
  cases call with
  | update work => exact h.update work
  | updateSearch work =>
    change Distinct (Association.updateSearch works work)
    unfold Association.updateSearch
    split_ifs
    · exact h
    · exact h.update work
  | confirmEmptyInspection reference =>
    change Distinct (Association.confirmEmptyInspection works reference).1
    unfold Association.confirmEmptyInspection
    split
    · unfold Distinct
      rw [← modify_map (f := Work.reference) (g := id), modify_id]
      · exact h
      · exact fun _ => rfl
    · exact h

variable (U) in
/-- What a row shows: publications that match each other, under the first of them; one whose matches
contradict each other is shown alone. -/
structure WorkGroup.Sound (titles : Titles) (publications : List Work) (group : WorkGroup) :
    Prop where
  references : group.references = group.publications.map Work.reference
  anchor : group.references.head? = some group.anchor
  agree : group.publications.Pairwise fun left right =>
    Agree U left right ∧ Linked titles left right ∧
      (left.category = right.category ∨ sameFilm U left right = true)
  alone : ∀ work ∈ group.publications, ambiguous U titles publications work = true →
    group.publications = [work]

/-- After any calls, every publication is in one row, and every row is sound. -/
theorem groups_sound (calls : List Call) :
    let publications := calls.foldl Call.perform []
    ((groups U publications).flatMap WorkGroup.references).Nodup ∧
      ((groups U publications).flatMap WorkGroup.publications).Perm publications ∧
      ∀ group ∈ groups U publications,
        group.Sound U (productTitles U publications) publications := by
  intro publications
  have hdistinct : Distinct publications := by
    have hall : ∀ works, Distinct works → Distinct (calls.foldl Call.perform works) := by
      induction calls with
      | nil => exact fun _ h => h
      | cons call calls ih => exact fun works h => ih _ (h.perform call)
    exact hall [] nodup_nil
  have hreached := reached (standsAlone U (productTitles U publications) publications)
    (confirmedMatch U (productTitles U publications)) publications
  have hperm := hreached.perm
  unfold groups
  rw [groupsWithTitles_eq, flatMap_map, flatMap_map, forall_mem_map]
  refine ⟨?_, hperm, fun group hgroup => ⟨rfl, rfl, ?_, fun work hwork hambiguous => ?_⟩⟩
  · have hnodup := hdistinct.perm hperm
    unfold Distinct at hnodup
    rwa [map_flatMap] at hnodup
  · have hsub := hreached.sublist group hgroup
    have hne : group.members.Pairwise fun left right => left.reference ≠ right.reference :=
      pairwise_map.mp (hdistinct.sublist (hsub.map Work.reference))
    refine (hne.and (hreached.pairwise group hgroup)).imp ?_
    rintro left right ⟨hne, hmatch⟩
    obtain ⟨-, -, hcategory, hagree, -, hlinked⟩ := (confirmedMatch_iff hne).mp hmatch
    exact ⟨conflictingIdentity_eq_false.mp hagree left (by simp) right (by simp), hlinked,
      hcategory⟩
  · rw [← standsAlone_iff hdistinct (hreached.mem_of_mem hgroup hwork)] at hambiguous
    have hrest : group.rest = [] := by
      by_contra hrest
      rw [hreached.company group hgroup hrest work hwork] at hambiguous
      cases hambiguous
    have hmembers : group.members = [group.first] := by rw [Cluster.members, hrest]
    change work ∈ group.members at hwork
    change group.members = [work]
    rw [hmembers] at hwork ⊢
    rw [mem_singleton.mp hwork]

end Qbutt.Association
