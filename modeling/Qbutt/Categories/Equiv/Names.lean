import Qbutt.Categories.Session

/-!
# Names of categories: equivalence lemmas

The names that `expandCategory` lists are the name and the beginnings of it that a slash follows
(`mem_expandCategory`).  The beginnings of a valid name are valid and not empty (`valid_of_below`).
-/

namespace Qbutt.Categories

variable {category name p q : CategoryName}

/-! ### Names within categories -/

theorem Within.trans (hp : Within p q) (hq : Within q name) : Within p name := by
  rcases hq with rfl | ⟨rest, rfl⟩
  · exact hp
  · rcases hp with rfl | ⟨rest', rfl⟩
    · exact .inr ⟨rest, rfl⟩
    · refine .inr ⟨rest' ++ ['/'] ++ rest, ?_⟩
      simp only [List.append_assoc]

theorem mem_expandFrom {before rest : List Char} : p ∈ expandFrom before rest ↔
    p = before ++ rest ∨ ∃ x y, rest = x ++ '/' :: y ∧ p = before ++ x := by
  induction rest generalizing before with
  | nil => simp [expandFrom]
  | cons c cs ih =>
    have hlater : p ∈ expandFrom (before ++ [c]) cs ↔
        p = before ++ c :: cs ∨ ∃ x y, cs = x ++ '/' :: y ∧ p = before ++ c :: x := by
      rw [ih]
      simp only [List.append_assoc, List.cons_append, List.nil_append]
    rw [expandFrom]
    by_cases hc : c = '/'
    · subst hc
      rw [if_pos rfl, List.mem_cons, hlater]
      constructor
      · rintro (rfl | rfl | ⟨x, y, rfl, rfl⟩)
        · exact .inr ⟨[], cs, rfl, (List.append_nil _).symm⟩
        · exact .inl rfl
        · exact .inr ⟨'/' :: x, y, rfl, rfl⟩
      · rintro (rfl | ⟨x, y, hrest, rfl⟩)
        · exact .inr (.inl rfl)
        · cases x with
          | nil => exact .inl (List.append_nil _)
          | cons d x =>
            cases hrest
            exact .inr (.inr ⟨x, y, rfl, rfl⟩)
    · rw [if_neg hc, hlater]
      constructor
      · rintro (rfl | ⟨x, y, rfl, rfl⟩)
        · exact .inl rfl
        · exact .inr ⟨c :: x, y, rfl, rfl⟩
      · rintro (rfl | ⟨x, y, hrest, rfl⟩)
        · exact .inl rfl
        · cases x with
          | nil => exact absurd (List.cons.inj hrest).1 hc
          | cons d x =>
            cases hrest
            exact .inr ⟨x, y, rfl, rfl⟩

theorem mem_expandCategory : p ∈ expandCategory name ↔ Within p name := by
  rw [expandCategory, mem_expandFrom]
  constructor
  · rintro (rfl | ⟨x, y, rfl, rfl⟩)
    · exact .inl rfl
    · exact .inr ⟨y, by simp⟩
  · rintro (rfl | ⟨rest, rfl⟩)
    · exact .inl rfl
    · exact .inr ⟨p, rest, by simp, rfl⟩

theorem parentCategoryName_below (h : parentCategoryName name ≠ []) :
    parentCategoryName name ++ ['/'] <+: name := by
  have hmem : parentSection name ∈ parents name := by
    rw [parents, if_neg (show parentSection name ≠ [] from h)]
    exact List.mem_cons_self
  exact (mem_parents.mp hmem).2

theorem not_within_parentCategoryName (h : name ≠ []) : ¬ Within name (parentCategoryName name) := by
  have hlt : (parentCategoryName name).length ≤ name.length - 1 := length_parentSection_le name
  have hpos : 0 < name.length := List.length_pos_of_ne_nil h
  rintro (heq | hbelow)
  · have hlength := congrArg List.length heq
    omega
  · have hlength := hbelow.length_le
    rw [List.length_append, List.length_singleton] at hlength
    omega

/-! ### Valid names -/

theorem tailMatches_of_append {x y : List Char} (h : tailMatches (x ++ '/' :: y) = true)
    (hx : x ≠ []) : tailMatches x = true := by
  induction x with
  | nil => exact absurd rfl hx
  | cons c x ih =>
    cases x with
    | nil =>
      have hc : (isPlain c || (decide (c = '/') && decide ('/' ≠ '/'))) = true :=
        (Bool.and_eq_true_iff.mp h).1
      simpa [tailMatches] using hc
    | cons d x =>
      obtain ⟨hc, hrest⟩ := Bool.and_eq_true_iff.mp h
      exact Bool.and_eq_true_iff.mpr ⟨hc, ih hrest (List.cons_ne_nil d x)⟩

theorem valid_of_below (h : isValidCategoryName name = true) (hbelow : p ++ ['/'] <+: name) :
    p ≠ [] ∧ isValidCategoryName p = true := by
  obtain ⟨rest, rfl⟩ := hbelow
  rw [List.append_assoc, List.singleton_append] at h
  cases p with
  | nil =>
    have hslash : (isPlain '/' && (rest.isEmpty || tailMatches rest)) = true := h
    exact absurd (Bool.and_eq_true_iff.mp hslash).1 (by decide)
  | cons c p =>
    obtain ⟨hc, htail⟩ := Bool.and_eq_true_iff.mp h
    refine ⟨List.cons_ne_nil c p, Bool.and_eq_true_iff.mpr ⟨hc, ?_⟩⟩
    cases p with
    | nil => rfl
    | cons d p =>
      have hrest : tailMatches (d :: p ++ '/' :: rest) = true := by
        rcases Bool.or_eq_true_iff.mp htail with hnil | hrest
        · cases hnil
        · exact hrest
      rw [tailMatches_of_append hrest (List.cons_ne_nil d p), Bool.or_true]

/-! ### The names above -/

theorem lineage_cons (h : name ≠ []) : lineage name = name :: lineage (parentCategoryName name) := by
  rw [lineage, if_neg h, parents]
  rfl

end Qbutt.Categories

/-!
## What categories inherit: equivalence lemmas

For every name, listed or not, what is inherited is what the nearest name above says
(`inherited_eq`), and the save path puts the sections of the names that say nothing below the save
path of the nearest one that says something (`categorySavePath_below`).
-/

namespace Qbutt.Categories

variable {Q : QtPaths} {s : Session} {name : CategoryName} {options : CategoryOptions}

theorem inherited_eq {α : Type} (own : CategoryName → Option α) (default : α) (name : CategoryName) :
    inherited own default name = ((lineage name).findSome? own).getD default := by
  induction hlength : name.length using Nat.strong_induction_on generalizing name with
  | _ n ih =>
  rw [inherited]
  by_cases hempty : name = []
  · rw [dif_pos hempty, hempty]
    rfl
  · have hle : (parentCategoryName name).length ≤ name.length - 1 := length_parentSection_le name
    have hpos : 0 < name.length := List.length_pos_of_ne_nil hempty
    rw [dif_neg hempty, lineage_cons hempty, List.findSome?_cons]
    cases hown : own name with
    | some value => rfl
    | none => exact ih _ (by omega) _ rfl

theorem resolveCategoryDownloadPathOption_eq (s : Session) (name : CategoryName) :
    s.resolveCategoryDownloadPathOption name (s.categoryOptions name).downloadPath =
      ((lineage name).findSome? fun n => (s.categoryOptions n).downloadPath).getD
        { enabled := s.settings.isDownloadPathEnabled, path := [] } := by
  unfold Session.resolveCategoryDownloadPathOption
  by_cases hempty : name = []
  · rw [if_pos hempty, hempty]
    rfl
  · rw [if_neg hempty, lineage_cons hempty, List.findSome?_cons]
    cases hown : (s.categoryOptions name).downloadPath with
    | some option => rfl
    | none => exact inherited_eq _ _ _

theorem categorySavePath_nil (Q : QtPaths) (s : Session) (options : CategoryOptions) :
    s.categorySavePath Q [] options = s.settings.savePath := by
  rw [Session.categorySavePath, dif_pos rfl]

theorem categorySavePath_own (hname : name ≠ []) (hown : options.savePath ≠ []) :
    s.categorySavePath Q name options =
      if Q.isAbsolute options.savePath then options.savePath
      else Q.join s.settings.savePath options.savePath := by
  rw [Session.categorySavePath, dif_neg hname]
  simp only [if_neg hown]

theorem categorySavePath_implicit (hname : name ≠ []) (hown : options.savePath = [])
    (hrelative : Q.isAbsolute (Q.toValidPath (subcategoryName name)) = false) :
    s.categorySavePath Q name options =
      Q.join (s.categorySavePath Q (parentCategoryName name)
        (s.categoryOptions (parentCategoryName name))) (Q.toValidPath (subcategoryName name)) := by
  rw [Session.categorySavePath, dif_neg hname]
  simp only [if_pos hown, hrelative]
  rfl

/-- The names of a lineage that say nothing about the save path are directories below the save path
of the first one after them. -/
theorem categorySavePath_below {silent above : List CategoryName}
    (hlineage : lineage name = silent ++ above)
    (hsilent : ∀ n ∈ silent, (s.categoryOptions n).savePath = [] ∧
      Q.isAbsolute (Q.toValidPath (subcategoryName n)) = false) :
    s.categorySavePath Q name (s.categoryOptions name) =
      silent.foldr (fun n base => Q.join base (Q.toValidPath (subcategoryName n)))
        (s.categorySavePath Q (above.headD []) (s.categoryOptions (above.headD []))) := by
  induction silent generalizing name with
  | nil =>
    have hhead : above.headD [] = name := by
      by_cases hempty : name = []
      · rw [List.nil_append] at hlineage
        rw [← hlineage, hempty]
        rfl
      · rw [lineage_cons hempty, List.nil_append] at hlineage
        rw [← hlineage]
        rfl
    rw [hhead]
    rfl
  | cons n silent ih =>
    by_cases hempty : name = []
    · rw [hempty] at hlineage
      cases hlineage
    · rw [lineage_cons hempty, List.cons_append] at hlineage
      obtain ⟨rfl, hrest⟩ := List.cons.inj hlineage
      obtain ⟨hown, hrelative⟩ := hsilent name List.mem_cons_self
      rw [categorySavePath_implicit hempty hown hrelative,
        ih hrest fun m hm => hsilent m (List.mem_cons_of_mem name hm)]
      rfl

/-! ### Download paths -/

end Qbutt.Categories
