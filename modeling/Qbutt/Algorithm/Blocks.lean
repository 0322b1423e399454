import Mathlib.Logic.Basic

/-!
# Families of sets in which sets are absorbed

A family `holds : ι → κ → Prop` says which elements each of its sets holds.  One step (`Absorbs`) replaces
one set by the union of some sets, which vanish otherwise, and of new elements.  `Absorbs.covered` says
what all sets together hold afterwards; `Absorbs.disjoint` says when different sets still share no element.
-/

namespace Qbutt

variable {ι κ : Type}

/-- Different sets of the family share no element. -/
def Disjointed (holds : ι → κ → Prop) : Prop := ∀ k i j, holds i k → holds j k → i = j

/-- The set `new` becomes the union of the absorbed sets and `extra`; the other sets are kept. -/
structure Absorbs (holds holds' : ι → κ → Prop) (new : ι) (absorbed : ι → Prop) (extra : κ → Prop) :
    Prop where
  at_new : ∀ k, holds' new k ↔ extra k ∨ ∃ i, absorbed i ∧ holds i k
  elsewhere : ∀ i, i ≠ new → ∀ k, holds' i k ↔ ¬absorbed i ∧ holds i k
  fresh : ¬absorbed new → ∀ k, ¬holds new k

namespace Absorbs

variable {holds holds' : ι → κ → Prop} {new : ι} {absorbed : ι → Prop} {extra : κ → Prop}

/-- Nothing but the new elements comes in, and nothing gets lost. -/
theorem covered (h : Absorbs holds holds' new absorbed extra) (k : κ) :
    (∃ i, holds' i k) ↔ extra k ∨ ∃ i, holds i k := by
  constructor
  · rintro ⟨i, hi⟩
    by_cases hnew : i = new
    · rw [hnew, h.at_new] at hi
      rcases hi with hextra | ⟨j, -, hj⟩
      · exact .inl hextra
      · exact .inr ⟨j, hj⟩
    · exact .inr ⟨i, ((h.elsewhere i hnew k).mp hi).2⟩
  · rintro (hextra | ⟨i, hi⟩)
    · exact ⟨new, (h.at_new k).mpr (.inl hextra)⟩
    · by_cases habsorbed : absorbed i
      · exact ⟨new, (h.at_new k).mpr (.inr ⟨i, habsorbed, hi⟩)⟩
      · by_cases hnew : i = new
        · rw [hnew] at habsorbed hi
          exact absurd hi (h.fresh habsorbed k)
        · exact ⟨i, (h.elsewhere i hnew k).mpr ⟨habsorbed, hi⟩⟩

theorem disjoint (h : Absorbs holds holds' new absorbed extra) (hdisjoint : Disjointed holds)
    (hextra : ∀ k, extra k → ∀ i, holds i k → absorbed i) : Disjointed holds' := by
  have hkept : ∀ k i, i ≠ new → holds' i k → ¬holds' new k := by
    intro k i hne hi hnew
    obtain ⟨hnot, hold⟩ := (h.elsewhere i hne k).mp hi
    rcases (h.at_new k).mp hnew with hk | ⟨j, habsorbed, hj⟩
    · exact hnot (hextra k hk i hold)
    · rw [hdisjoint k i j hold hj] at hnot
      exact hnot habsorbed
  intro k i j hi hj
  by_cases hnew : i = new
  · by_cases hnew' : j = new
    · rw [hnew, hnew']
    · rw [hnew] at hi
      exact absurd hi (hkept k j hnew' hj)
  · by_cases hnew' : j = new
    · rw [hnew'] at hj
      exact absurd hj (hkept k i hnew hi)
    · exact hdisjoint k i j ((h.elsewhere i hnew k).mp hi).2 ((h.elsewhere j hnew' k).mp hj).2

end Absorbs

end Qbutt
