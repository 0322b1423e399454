import Qbutt.Association.Ranking

/-!
# The order of variants: equivalence lemmas

`rank_variants` sorts by score, with ties in the order of the input, and then only moves torrents
among the places that torrents have in their band (`variants_ranked`).
-/

namespace Qbutt.Association

open Content

def ByScore (preferred : Option String) (left right : Variant) : Prop :=
  score preferred left ≤ score preferred right

instance (preferred : Option String) : DecidableRel (ByScore preferred) :=
  fun _ _ => inferInstanceAs (Decidable (_ ≤ _))

instance (preferred : Option String) : Std.Total (ByScore preferred) :=
  ⟨fun _ _ => le_total _ _⟩

instance (preferred : Option String) : IsTrans Variant (ByScore preferred) :=
  ⟨fun _ _ _ => le_trans⟩

/-- The order of torrents, from the most seeders. -/
def BySeeders (left right : Variant) : Prop := seederCount right ≤ seederCount left

instance : DecidableRel BySeeders := fun _ _ => inferInstanceAs (Decidable (_ ≤ _))

instance : Std.Total BySeeders := ⟨fun _ _ => le_total _ _⟩

instance : IsTrans Variant BySeeders := ⟨fun _ _ _ hab hbc => le_trans hbc hab⟩

variable {preferred : Option String} {ranked : List Variant}

structure Ranks (preferred : Option String) (variants ranked : List Variant) : Prop where
  /-- No variant is lost or doubled. -/
  perm : ranked.Perm variants
  sorted : ranked.Pairwise (ByScore preferred)
  /-- Against the sorted variants, torrents are where torrents were, what is no torrent has not
  moved, and every place has kept its score. -/
  places : List.Forall₂
    (fun v v' => Slot isTorrent v v' ∧ score preferred v' = score preferred v)
    (variants.insertionSort (ByScore preferred)) ranked
  /-- Of two torrents with one score the first one has at least as many seeders. -/
  seeders : ranked.Pairwise fun left right => isTorrent left → isTorrent right →
    score preferred left = score preferred right → BySeeders left right

theorem rankVariants_spec (variants : List Variant) (preferred : Option String) :
    ∃ ranked, rankVariants variants preferred = some ranked ∧ Ranks preferred variants ranked := by
  have hsorted : (variants.insertionSort (ByScore preferred)).Pairwise
      fun left right => score preferred left ≤ score preferred right :=
    List.pairwise_insertionSort (ByScore preferred) variants
  obtain ⟨ranked, hranked, hplaces, hperm, hseeders⟩ :=
    @onBands_spec _ _ _ _ _ isTorrent BySeeders _ _ _ hsorted
  refine ⟨ranked, hranked, hperm.trans (List.perm_insertionSort _ _), ?_, hplaces, hseeders⟩
  have hpairs : (ranked.map (score preferred)).Pairwise (· ≤ ·) := by
    rw [map_key_of_slots hplaces]
    exact List.pairwise_map.mpr hsorted
  have hranked' : ranked.Pairwise fun left right => score preferred left ≤ score preferred right :=
    List.pairwise_map.mp hpairs
  exact hranked'

/-- What is ranked already stays as it is. -/
theorem rankVariants_fixed (hsorted : ranked.Pairwise (ByScore preferred))
    (hseeders : ranked.Pairwise fun left right => isTorrent left → isTorrent right →
      score preferred left = score preferred right → BySeeders left right) :
    rankVariants ranked preferred = some ranked := by
  have hsame : ranked.insertionSort (ByScore preferred) = ranked := hsorted.insertionSort_eq
  show onBands (score preferred) (sortSlots isTorrent BySeeders)
    (ranked.insertionSort (ByScore preferred)) = _
  rw [hsame]
  exact onBands_fixed hseeders

theorem filter_score_insertionSort (variants : List Variant) (band : ℕᵒᵈ ×ₗ Bool ×ₗ ℕᵒᵈ) :
    (variants.insertionSort (ByScore preferred)).filter
        (fun v => !isTorrent v && decide (score preferred v = band)) =
      variants.filter fun v => !isTorrent v && decide (score preferred v = band) := by
  refine filter_insertionSort (fun left right hleft hright => ?_) variants
  have hl : score preferred left = band := by simpa using (Bool.and_eq_true_iff.mp hleft).2
  have hr : score preferred right = band := by simpa using (Bool.and_eq_true_iff.mp hright).2
  exact (hl.trans hr.symm).le

/-- The ranking is a permutation that is sorted by score; in each band what is no torrent is where
sorting puts it, in the order of the input, the torrents have the places that torrents had, from the
most seeders; and ranking again changes nothing. -/
theorem variants_ranked (variants : List Variant) (preferred : Option String) :
    ∃ ranked, rankVariants variants preferred = some ranked ∧
      Ranks preferred variants ranked ∧
      (∀ band, ranked.filter (fun v => !isTorrent v && decide (score preferred v = band)) =
        variants.filter fun v => !isTorrent v && decide (score preferred v = band)) ∧
      rankVariants ranked preferred = some ranked := by
  obtain ⟨ranked, hranked, hranks⟩ := rankVariants_spec variants preferred
  refine ⟨ranked, hranked, hranks, fun band => ?_,
    rankVariants_fixed hranks.sorted hranks.seeders⟩
  rw [← filter_score_insertionSort variants band]
  exact filter_band_of_slots hranks.places band

end Qbutt.Association
