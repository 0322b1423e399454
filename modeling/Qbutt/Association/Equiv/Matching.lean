import Qbutt.Association.Groups

/-!
# Conflicts and matches

Works are in conflict when they name different years, seasons, categories or identifiers of one
catalogue; that is a matter of the works alone and not of their order.  Matches are symmetric.
-/

namespace Qbutt.Association

open Qbutt.Content Qbutt.Rust List

/-! ### Lists whose elements are all equal -/

variable {α : Type} [DecidableEq α]

theorem differ_cons_cons (a b : α) (as : List α) :
    differ (a :: b :: as) = (decide (a ≠ b) || differ (b :: as)) := by
  simp [differ, windows2]

theorem differ_eq_false {as : List α} :
    differ as = false ↔ ∀ a ∈ as, ∀ b ∈ as, a = b := by
  induction as with
  | nil => simp [differ, windows2]
  | cons a as ih =>
    cases as with
    | nil => simp [differ, windows2]
    | cons b as =>
      rw [differ_cons_cons, Bool.or_eq_false_iff, ih]
      constructor
      · rintro ⟨hab, hall⟩
        have hab : a = b := by simpa using hab
        have hto : ∀ c ∈ a :: b :: as, c = b := by
          rintro c hc
          rcases mem_cons.mp hc with rfl | hc
          · exact hab
          · exact hall c hc b mem_cons_self
        exact fun c hc d hd => (hto c hc).trans (hto d hd).symm
      · intro hall
        refine ⟨by simpa using hall a mem_cons_self b (by simp), fun c hc d hd => ?_⟩
        exact hall c (mem_cons_of_mem a hc) d (mem_cons_of_mem a hd)

/-! ### Conflicts -/

variable (U : Unicode)

/-- Two works agree in all that `conflicting_identity` compares. -/
structure Agree (left right : Work) : Prop where
  identifiers : ∀ key ∈ catalogIdentifiers, ∀ a b, left.identifiers.lookup key = some a →
    right.identifiers.lookup key = some b → a = b
  years : ∀ a ∈ workYears left, ∀ b ∈ workYears right, a = b
  seasons : ∀ a ∈ workSeasons U left, ∀ b ∈ workSeasons U right, a = b
  categories : left.category ≠ .video → right.category ≠ .video → left.category = right.category

variable {U} {left right : Work}

theorem conflictingIdentity_eq_false {publications : List Work} :
    conflictingIdentity U publications = false ↔
      ∀ left ∈ publications, ∀ right ∈ publications, Agree U left right := by
  have hids : (catalogIdentifiers.any fun key =>
        differ (publications.filterMap fun work => work.identifiers.lookup key)) = false ↔
      ∀ key ∈ catalogIdentifiers, ∀ left ∈ publications, ∀ right ∈ publications,
        ∀ a b, left.identifiers.lookup key = some a → right.identifiers.lookup key = some b →
          a = b := by
    rw [any_eq_false]
    refine forall₂_congr fun key _ => ?_
    rw [Bool.not_eq_true, differ_eq_false]
    constructor
    · intro h left hleft right hright a b ha hb
      exact h a (mem_filterMap.mpr ⟨left, hleft, ha⟩) b
        (mem_filterMap.mpr ⟨right, hright, hb⟩)
    · intro h a ha b hb
      obtain ⟨left, hleft, ha⟩ := mem_filterMap.mp ha
      obtain ⟨right, hright, hb⟩ := mem_filterMap.mp hb
      exact h left hleft right hright a b ha hb
  have hflat : ∀ f : Work → List ℕ, differ (publications.flatMap f) = false ↔
      ∀ left ∈ publications, ∀ right ∈ publications, ∀ a ∈ f left, ∀ b ∈ f right, a = b := by
    intro f
    rw [differ_eq_false]
    constructor
    · intro h left hleft right hright a ha b hb
      exact h a (mem_flatMap.mpr ⟨left, hleft, ha⟩) b (mem_flatMap.mpr ⟨right, hright, hb⟩)
    · intro h a ha b hb
      obtain ⟨left, hleft, ha⟩ := mem_flatMap.mp ha
      obtain ⟨right, hright, hb⟩ := mem_flatMap.mp hb
      exact h left hleft right hright a ha b hb
  have hcategories : differ ((publications.map Work.category).filter
        fun category => category ≠ .video) = false ↔
      ∀ left ∈ publications, ∀ right ∈ publications, left.category ≠ .video →
        right.category ≠ .video → left.category = right.category := by
    rw [differ_eq_false]
    constructor
    · intro h left hleft right hright hl hr
      exact h _ (mem_filter.mpr ⟨mem_map_of_mem hleft, by simpa using hl⟩) _
        (mem_filter.mpr ⟨mem_map_of_mem hright, by simpa using hr⟩)
    · intro h a ha b hb
      obtain ⟨ha, hav⟩ := mem_filter.mp ha
      obtain ⟨hb, hbv⟩ := mem_filter.mp hb
      obtain ⟨left, hleft, rfl⟩ := mem_map.mp ha
      obtain ⟨right, hright, rfl⟩ := mem_map.mp hb
      exact h left hleft right hright (by simpa using hav) (by simpa using hbv)
  unfold conflictingIdentity
  rw [Bool.or_eq_false_iff, Bool.or_eq_false_iff, Bool.or_eq_false_iff, hids, hflat, hflat,
    hcategories]
  constructor
  · rintro ⟨⟨⟨hids, hyears⟩, hseasons⟩, hcategories⟩ left hleft right hright
    exact ⟨fun key hkey => hids key hkey left hleft right hright, hyears left hleft right hright,
      hseasons left hleft right hright, hcategories left hleft right hright⟩
  · intro h
    exact ⟨⟨⟨fun key hkey left hleft right hright => (h left hleft right hright).identifiers key hkey,
      fun left hleft right hright => (h left hleft right hright).years⟩,
      fun left hleft right hright => (h left hleft right hright).seasons⟩,
      fun left hleft right hright => (h left hleft right hright).categories⟩

theorem conflictingIdentity_perm {publications others : List Work}
    (h : ∀ work, work ∈ publications ↔ work ∈ others) :
    conflictingIdentity U publications = conflictingIdentity U others := by
  have hiff : conflictingIdentity U publications = false ↔ conflictingIdentity U others = false := by
    simp only [conflictingIdentity_eq_false, h]
  cases hp : conflictingIdentity U publications with
  | false => exact (hiff.mp hp).symm
  | true =>
    by_contra ho
    rw [hiff.mpr (by simpa using (Ne.symm ho))] at hp
    cases hp

/-! ### Matches -/

theorem sameFilm_comm (left right : Work) : sameFilm U left right = sameFilm U right left := by
  unfold sameFilm
  rw [Bool.eq_iff_iff]
  simp only [Bool.and_eq_true, Bool.or_eq_true, decide_eq_true_eq]
  constructor
  · rintro ⟨⟨⟨⟨hcategory, hsome⟩, hyear⟩, hseasons⟩, hepisodes⟩
    exact ⟨⟨⟨⟨hcategory.symm, hyear ▸ hsome⟩, hyear.symm⟩, hseasons.symm⟩, hepisodes.symm⟩
  · rintro ⟨⟨⟨⟨hcategory, hsome⟩, hyear⟩, hseasons⟩, hepisodes⟩
    exact ⟨⟨⟨⟨hcategory.symm, hyear ▸ hsome⟩, hyear.symm⟩, hseasons.symm⟩, hepisodes.symm⟩

/-- Two works name each other in a catalogue, or share a name. -/
def Linked (titles : Titles) (left right : Work) : Prop :=
  (left.category = right.category ∧ ∃ key ∈ catalogIdentifiers, ∃ id,
    left.identifiers.lookup key = some id ∧ right.identifiers.lookup key = some id) ∨
  ∃ name, name ∈ (titles.get left.reference).normalized ∧
    name ∈ (titles.get right.reference).normalized

variable {titles : Titles}

theorem Linked.symm (h : Linked titles left right) : Linked titles right left := by
  rcases h with ⟨hcategory, key, hkey, id, hl, hr⟩ | ⟨name, hl, hr⟩
  · exact .inl ⟨hcategory.symm, key, hkey, id, hr, hl⟩
  · exact .inr ⟨name, hr, hl⟩

theorem sameIdentifier_eq_true {key : String} :
    sameIdentifier left right key = true ↔ ∃ id,
      left.identifiers.lookup key = some id ∧ right.identifiers.lookup key = some id := by
  unfold sameIdentifier
  cases left.identifiers.lookup key with
  | none => simp
  | some a =>
    cases right.identifiers.lookup key with
    | none => simp
    | some b => simp [eq_comm]

/-- What `confirmed_match` says of two different publications. -/
theorem confirmedMatch_iff (hne : left.reference ≠ right.reference) :
    confirmedMatch U titles left right = true ↔
      isTrailer U left = false ∧ isTrailer U right = false ∧
      (left.category = right.category ∨ sameFilm U left right = true) ∧
      conflictingIdentity U [left, right] = false ∧
      (isSeries left = true ∨ isSeries right = true → qualifiers U left = qualifiers U right) ∧
      Linked titles left right := by
  have hids : catalogIdentifiers.any (sameIdentifier left right) = true ↔
      ∃ key ∈ catalogIdentifiers, ∃ id,
        left.identifiers.lookup key = some id ∧ right.identifiers.lookup key = some id := by
    rw [any_eq_true]
    exact exists_congr fun key => and_congr_right fun _ => sameIdentifier_eq_true
  have hnames : ((titles.get right.reference).normalized.any fun title =>
        (titles.get left.reference).normalized.contains title) = true ↔
      ∃ name, name ∈ (titles.get left.reference).normalized ∧
        name ∈ (titles.get right.reference).normalized := by
    simp [and_comm]
  unfold confirmedMatch Linked
  rw [if_neg hne]
  by_cases htrailer : isTrailer U left = false ∧ isTrailer U right = false
  · rw [if_neg (by simp [htrailer.1, htrailer.2])]
    by_cases hcategory : left.category = right.category ∨ sameFilm U left right = true
    · rw [if_neg (by simpa using (or_iff_not_imp_left.mp hcategory))]
      by_cases hconflict : conflictingIdentity U [left, right] = false
      · rw [if_neg (by simp [hconflict])]
        by_cases hseries : isSeries left = true ∨ isSeries right = true →
            qualifiers U left = qualifiers U right
        · rw [if_neg (by simpa using hseries)]
          split_ifs with hid
          · rw [Bool.and_eq_true, hids, decide_eq_true_eq] at hid
            exact ⟨fun _ => ⟨htrailer.1, htrailer.2, hcategory, hconflict, hseries, .inl hid⟩,
              fun _ => rfl⟩
          · rw [Bool.and_eq_true, hids, decide_eq_true_eq] at hid
            rw [hnames]
            exact ⟨fun h => ⟨htrailer.1, htrailer.2, hcategory, hconflict, hseries, .inr h⟩,
              fun h => h.2.2.2.2.2.resolve_left hid⟩
        · rw [if_pos (by simpa using hseries)]
          exact ⟨nofun, fun h => absurd h.2.2.2.2.1 hseries⟩
      · rw [if_pos (by simpa using hconflict)]
        exact ⟨nofun, fun h => absurd h.2.2.2.1 hconflict⟩
    · rw [if_pos (by simpa [not_or] using hcategory)]
      exact ⟨nofun, fun h => absurd h.2.2.1 hcategory⟩
  · rw [if_pos (by simpa [not_and_or, or_iff_not_imp_left] using htrailer)]
    exact ⟨nofun, fun h => absurd ⟨h.1, h.2.1⟩ htrailer⟩

theorem confirmedMatch_self (work : Work) : confirmedMatch U titles work work = true := if_pos rfl

theorem confirmedMatch_symm (h : confirmedMatch U titles left right = true) :
    confirmedMatch U titles right left = true := by
  by_cases hne : left.reference = right.reference
  · exact if_pos hne.symm
  · obtain ⟨hl, hr, hcategory, hconflict, hseries, hlinked⟩ := (confirmedMatch_iff hne).mp h
    refine (confirmedMatch_iff (Ne.symm hne)).mpr ⟨hr, hl, ?_, ?_, ?_, hlinked.symm⟩
    · exact hcategory.imp Eq.symm fun h => (sameFilm_comm right left).trans h
    · exact (conflictingIdentity_perm fun work => by simp [or_comm]).trans hconflict
    · exact fun h => (hseries h.symm).symm

theorem confirmedMatch_congr {titles' : Titles}
    (hleft : ∀ name, name ∈ (titles.get left.reference).normalized ↔
      name ∈ (titles'.get left.reference).normalized)
    (hright : ∀ name, name ∈ (titles.get right.reference).normalized ↔
      name ∈ (titles'.get right.reference).normalized) :
    confirmedMatch U titles left right = confirmedMatch U titles' left right := by
  rw [Bool.eq_iff_iff]
  by_cases hne : left.reference = right.reference
  · simp [confirmedMatch, hne]
  · have hlinked : Linked titles left right ↔ Linked titles' left right := by
      simp only [Linked, hleft, hright]
    rw [confirmedMatch_iff hne, confirmedMatch_iff hne, hlinked]

end Qbutt.Association
