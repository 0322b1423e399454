import Mathlib.Data.List.Sort
import Mathlib.Data.List.TakeWhile

/-!
# Rewriting the slots of a list

A list is cut into bands of equal keys (`onBands`), and in each band the elements of one kind are
sorted among their own slots (`fill`): what is not of the kind stays where it is (`Slot`).

* `filter_insertionSort`: sorting keeps the order of the elements of a class of ties.
* `sortSlots_spec`, `onBands_spec`: what the rewrite does to a band, and to a list sorted by key.
* `onBands_fixed`: a list that is sorted already is not changed.
-/

namespace Qbutt

open List

variable {α κ : Type} {p : α → Bool} {vs vs' l : List α}

/-- Sorting keeps the order of elements that may come in any order. -/
theorem filter_insertionSort {r : α → α → Prop} [DecidableRel r] (hties : ∀ a b, p a → p b → r a b)
    (l : List α) : (l.insertionSort r).filter p = l.filter p := by
  have hinsert : ∀ a (l : List α), (l.orderedInsert r a).filter p = (a :: l).filter p := by
    intro a l
    induction l with
    | nil => rfl
    | cons b l ih =>
      rw [orderedInsert_cons]
      split_ifs with hab
      · rfl
      · rw [filter_cons, ih, filter_cons, filter_cons, filter_cons]
        by_cases ha : p a
        · have hb : p b = false := by
            by_contra hb
            exact hab (hties a b ha (by simpa using hb))
          simp [hb]
        · simp [ha]
  induction l with
  | nil => rfl
  | cons a l ih =>
    rw [insertionSort_cons, hinsert, filter_cons, filter_cons, ih]

/-! ### Slots -/

/-- Put elements into the slots of a kind, one after the other; none if they run out. -/
def fill (p : α → Bool) : List α → List α → Option (List α)
  | [], _ => some []
  | v :: vs, ts =>
    if p v then
      match ts with
      | t :: ts => (fill p vs ts).map (t :: ·)
      | [] => none
    else (fill p vs ts).map (v :: ·)

/-- What may come into a place: an element of the same kind, and nothing else if that is not the
kind that is moved. -/
def Slot (p : α → Bool) (v v' : α) : Prop := p v' = p v ∧ (p v = false → v' = v)

/-- Filling the slots of a kind with as many elements of the kind. -/
theorem fill_spec {ts : List α} (hlength : ts.length = (vs.filter p).length) (hts : ∀ t ∈ ts, p t) :
    ∃ filled, fill p vs ts = some filled ∧
      List.Forall₂ (Slot p) vs filled ∧ filled.filter p = ts := by
  induction vs generalizing ts with
  | nil =>
    obtain rfl := length_eq_zero_iff.mp hlength
    exact ⟨[], rfl, .nil, rfl⟩
  | cons v vs ih =>
    by_cases hv : p v
    · cases ts with
      | nil =>
        rw [filter_cons_of_pos hv] at hlength
        cases hlength
      | cons t ts =>
        rw [filter_cons_of_pos hv] at hlength
        have ht : p t := hts t mem_cons_self
        obtain ⟨filled, hfill, hslots, hfilter⟩ :=
          ih (Nat.succ.inj hlength) fun t' ht' => hts t' (mem_cons_of_mem t ht')
        refine ⟨t :: filled, ?_, .cons ⟨ht.trans hv.symm, fun hnot => ?_⟩ hslots, ?_⟩
        · simp only [fill, if_pos hv, hfill, Option.map_some]
        · exact absurd hv (by rw [hnot]; exact Bool.false_ne_true)
        · rw [filter_cons_of_pos ht, hfilter]
    · rw [filter_cons_of_neg hv] at hlength
      obtain ⟨filled, hfill, hslots, hfilter⟩ := ih hlength hts
      refine ⟨v :: filled, ?_, .cons ⟨rfl, fun _ => rfl⟩ hslots, ?_⟩
      · simp only [fill, if_neg hv, hfill, Option.map_some]
      · rw [filter_cons_of_neg hv, hfilter]

/-- Filling the slots with what is in them changes nothing. -/
theorem fill_same (p : α → Bool) (vs : List α) : fill p vs (vs.filter p) = some vs := by
  induction vs with
  | nil => rfl
  | cons v vs ih =>
    by_cases hv : p v
    · rw [filter_cons_of_pos hv]
      simp only [fill, if_pos hv, ih, Option.map_some]
    · rw [filter_cons_of_neg hv]
      simp only [fill, if_neg hv, ih, Option.map_some]

/-- What is not of the kind stays, in its order. -/
theorem filter_not_of_slots {filled : List α} (h : List.Forall₂ (Slot p) vs filled) :
    filled.filter (fun v => !p v) = vs.filter fun v => !p v := by
  induction h with
  | nil => rfl
  | @cons v v' vs filled hslot _ ih =>
    rw [filter_cons, filter_cons, hslot.1, ih]
    cases hv : p v with
    | true => rfl
    | false => rw [hslot.2 hv]

def sortSlots (p : α → Bool) (r : α → α → Prop) [DecidableRel r] (band : List α) :
    Option (List α) :=
  fill p band ((band.filter p).insertionSort r)

theorem sortSlots_spec (p : α → Bool) (r : α → α → Prop) [DecidableRel r] (band : List α) :
    ∃ sorted, sortSlots p r band = some sorted ∧ List.Forall₂ (Slot p) band sorted ∧
      sorted.filter p = (band.filter p).insertionSort r ∧ sorted.Perm band := by
  have hkinds : ∀ t ∈ (band.filter p).insertionSort r, p t := by
    intro t ht
    exact (mem_filter.mp ((mem_insertionSort r).mp ht)).2
  obtain ⟨sorted, hfill, hslots, hfilter⟩ := fill_spec (length_insertionSort r _) hkinds
  refine ⟨sorted, hfill, hslots, hfilter, ?_⟩
  have hparts : (sorted.filter p ++ sorted.filter fun v => !p v).Perm
      (band.filter p ++ band.filter fun v => !p v) := by
    rw [filter_not_of_slots hslots, hfilter]
    exact (perm_insertionSort r _).append_right _
  exact (filter_append_perm p sorted).symm.trans
    (hparts.trans (filter_append_perm p band))

theorem sortSlots_fixed {r : α → α → Prop} [DecidableRel r] {band : List α}
    (h : (band.filter p).Pairwise r) : sortSlots p r band = some band := by
  rw [sortSlots, h.insertionSort_eq]
  exact fill_same p band

/-! ### Bands -/

def onBands [DecidableEq κ] (key : α → κ) (f : List α → Option (List α)) :
    List α → Option (List α)
  | [] => some []
  | v :: vs => do
    let band ← f (v :: vs.takeWhile fun w => key w = key v)
    let rest ← onBands key f (vs.dropWhile fun w => key w = key v)
    some (band ++ rest)
  termination_by vs => vs.length
  decreasing_by
    exact Nat.lt_succ_of_le (dropWhile_suffix _).length_le

/-- Places that keep their keys. -/
theorem map_key_of_slots {key : α → κ}
    (h : List.Forall₂ (fun v v' => Slot p v v' ∧ key v' = key v) vs vs') :
    vs'.map key = vs.map key := by
  induction h with
  | nil => rfl
  | cons hplace _ ih => rw [map_cons, map_cons, hplace.2, ih]

/-- In each band what is not of the kind keeps its order. -/
theorem filter_band_of_slots [DecidableEq κ] {key : α → κ}
    (h : List.Forall₂ (fun v v' => Slot p v v' ∧ key v' = key v) vs vs') (band : κ) :
    vs'.filter (fun v => !p v && decide (key v = band)) =
      vs.filter fun v => !p v && decide (key v = band) := by
  induction h with
  | nil => rfl
  | @cons v v' vs vs' hplace _ ih =>
    obtain ⟨⟨hkind, hstay⟩, hkey⟩ := hplace
    rw [filter_cons, filter_cons, hkind, hkey, ih]
    cases hv : p v with
    | true => rfl
    | false => rw [hstay hv]

section Sorted

variable [LinearOrder κ] {key : α → κ}

theorem band_of_sorted {v : α} (h : (v :: vs).Pairwise fun a b => key a ≤ key b) :
    (∀ w ∈ v :: vs.takeWhile fun w => key w = key v, key w = key v) ∧
      ∀ w ∈ vs.dropWhile fun w => key w = key v, key v < key w := by
  obtain ⟨hfirst, hrest⟩ := pairwise_cons.mp h
  constructor
  · intro w hw
    rcases mem_cons.mp hw with rfl | hw
    · rfl
    · simpa using mem_takeWhile_imp hw
  · intro w hw
    have hlist := hrest.sublist (dropWhile_suffix fun w => decide (key w = key v)).sublist
    have hmem : ∀ w ∈ vs.dropWhile fun w => decide (key w = key v), w ∈ vs :=
      fun w hw => (dropWhile_suffix _).subset hw
    cases hdrop : vs.dropWhile fun w => decide (key w = key v) with
    | nil =>
      rw [hdrop] at hw
      cases hw
    | cons x xs =>
      have hx : key x ≠ key v := by
        have hne : vs.dropWhile (fun w => decide (key w = key v)) ≠ [] := by
          rw [hdrop]
          exact cons_ne_nil x xs
        have hhead := head_dropWhile_not (fun w => decide (key w = key v)) hne
        simpa [hdrop] using hhead
      rw [hdrop] at hw hlist hmem
      have hlt : key v < key x :=
        lt_of_le_of_ne (hfirst x (hmem x mem_cons_self)) hx.symm
      rcases mem_cons.mp hw with rfl | hw
      · exact hlt
      · exact hlt.trans_le ((pairwise_cons.mp hlist).1 w hw)

variable {p : α → Bool} {r : α → α → Prop} [DecidableRel r]

theorem onBands_spec [Std.Total r] [IsTrans α r] (h : l.Pairwise fun a b => key a ≤ key b) :
    ∃ l', onBands key (sortSlots p r) l = some l' ∧
      List.Forall₂ (fun v v' => Slot p v v' ∧ key v' = key v) l l' ∧ l'.Perm l ∧
      l'.Pairwise fun a b => p a → p b → key a = key b → r a b := by
  induction hlength : l.length using Nat.strong_induction_on generalizing l with
  | _ n ih =>
  cases l with
  | nil => exact ⟨[], by rw [onBands], .nil, .refl _, .nil⟩
  | cons v vs =>
    obtain ⟨hband, hlater⟩ := band_of_sorted h
    obtain ⟨-, hrest⟩ := pairwise_cons.mp h
    have hsuffix := dropWhile_suffix (l := vs) fun w => decide (key w = key v)
    obtain ⟨sorted, hsort, hslots, hfilter, hperm⟩ :=
      sortSlots_spec p r (v :: vs.takeWhile fun w => key w = key v)
    obtain ⟨rest, hon, hforall, hpermRest, hpairwise⟩ :=
      ih _ (by rw [← hlength]; exact Nat.lt_succ_of_le hsuffix.length_le)
        (hrest.sublist hsuffix.sublist) rfl
    have hsame : ∀ w ∈ sorted, key w = key v := fun w hw => hband w (hperm.mem_iff.mp hw)
    have hsplit : v :: vs = (v :: vs.takeWhile fun w => key w = key v) ++
        vs.dropWhile fun w => key w = key v := by
      rw [cons_append, takeWhile_append_dropWhile]
    refine ⟨sorted ++ rest, ?_, ?_, ?_, ?_⟩
    · rw [onBands, hsort, hon]
      rfl
    · rw [hsplit]
      refine rel_append ?_ hforall
      refine forall₂_iff_zip.mpr ⟨hslots.length_eq, fun {a b} hab => ?_⟩
      refine ⟨(forall₂_iff_zip.mp hslots).2 hab, ?_⟩
      rw [hsame b (of_mem_zip hab).2, hband a (of_mem_zip hab).1]
    · rw [hsplit]
      exact hperm.append hpermRest
    · refine pairwise_append.mpr ⟨?_, hpairwise, fun a ha b hb _ _ heq => ?_⟩
      · have hsorted : (sorted.filter p).Pairwise r := by
          rw [hfilter]
          exact pairwise_insertionSort r _
        exact (pairwise_filter.mp hsorted).imp fun hr hpa hpb _ => hr hpa hpb
      · have hlt := hlater b (hpermRest.mem_iff.mp hb)
        rw [← heq, hsame a ha] at hlt
        exact absurd hlt (lt_irrefl _)

/-- A list that is sorted by key, and in whose bands the elements of the kind are sorted. -/
theorem onBands_fixed (hkinds : l.Pairwise fun a b => p a → p b → key a = key b → r a b) :
    onBands key (sortSlots p r) l = some l := by
  induction hlength : l.length using Nat.strong_induction_on generalizing l with
  | _ n ih =>
  cases l with
  | nil => rw [onBands]
  | cons v vs =>
    have hsuffix := dropWhile_suffix (l := vs) fun w => decide (key w = key v)
    have hsplit : v :: vs = (v :: vs.takeWhile fun w => key w = key v) ++
        vs.dropWhile fun w => key w = key v := by
      rw [cons_append, takeWhile_append_dropWhile]
    have hband : ((v :: vs.takeWhile fun w => key w = key v).filter p).Pairwise r := by
      rw [hsplit] at hkinds
      have hpairs := (pairwise_append.mp hkinds).1
      refine pairwise_filter.mpr (hpairs.imp_of_mem fun {a b} ha hb hr hpa hpb => ?_)
      have hkey : ∀ w ∈ v :: vs.takeWhile fun w => key w = key v, key w = key v := by
        intro w hw
        rcases mem_cons.mp hw with rfl | hw
        · rfl
        · simpa using mem_takeWhile_imp hw
      exact hr hpa hpb ((hkey a ha).trans (hkey b hb).symm)
    have hrest := ih _ (by rw [← hlength]; exact Nat.lt_succ_of_le hsuffix.length_le)
      ((pairwise_cons.mp hkinds).2.sublist hsuffix.sublist) rfl
    rw [onBands, sortSlots_fixed hband, hrest]
    exact congrArg some hsplit.symm

end Sorted

end Qbutt
