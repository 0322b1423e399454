import Qbutt.Algorithm.SlashPath

/-!
# Ancestors of a path

`parentPath` cuts a path at its last slash, and the entries directly below the root have the root
for their parent.  `hasAncestor` looks for the other path at the start of the text with a slash
behind it. Both find the same ancestors (`hasAncestor_iff`), but for the root of the file system:
its text ends with the slash already, so that `hasAncestor` does not find it.
-/

namespace Qbutt.Utils

open List

/-- A cleaned text: no separator is repeated, and none is at the end but that of the root. -/
structure Cleaned (text : List Char) : Prop where
  single : ¬ ['/', '/'] <:+: text
  no_trailing : text.getLast? = some '/' → text = ['/']

/-- `Path`, on a system whose only separator is the slash. -/
structure Path where
  m_pathStr : List Char
  cleaned : Cleaned m_pathStr

/-- `QDir::cleanPath`, and what is used of it. -/
structure Cleaning where
  cleanPath : List Char → List Char
  cleaned : ∀ path, Cleaned (cleanPath path)

/-- `cleanPath` of the program: only a path with a separator is cleaned. -/
def cleanPath (D : Cleaning) (path : List Char) : List Char :=
  if '/' ∈ path ∨ '\\' ∈ path then D.cleanPath path else path

variable {text : List Char}

theorem cleaned_of_not_mem (h : '/' ∉ text) : Cleaned text where
  single hmiddle := h (hmiddle.subset mem_cons_self)
  no_trailing hlast := absurd (mem_of_getLast? hlast) h

theorem cleaned_cleanPath (D : Cleaning) (path : List Char) : Cleaned (cleanPath D path) := by
  unfold cleanPath
  split_ifs with h
  · exact D.cleaned path
  · exact cleaned_of_not_mem fun hmem => h (.inl hmem)

/-- The constructor of `Path`. -/
def Path.ofString (D : Cleaning) (pathStr : List Char) : Path where
  m_pathStr := cleanPath D pathStr
  cleaned := cleaned_cleanPath D pathStr

def lastIndexOf (c : Char) : List Char → Option ℕ
  | [] => none
  | x :: text =>
    match lastIndexOf c text with
    | some i => some (i + 1)
    | none => if x = c then some 0 else none

def parentText (pathStr : List Char) : List Char :=
  match lastIndexOf '/' pathStr with
  | none => []
  | some slashIndex =>
    if slashIndex = 0 then if pathStr.length = 1 then [] else ['/']
    else pathStr.take slashIndex

/-- The text of `hasAncestor`: the character behind the other path, and the start. -/
def hasAncestorText (pathStr other : List Char) : Bool :=
  if other = [] ∨ pathStr.length ≤ other.length then false
  else pathStr[other.length]? = some '/' && other.isPrefixOf pathStr

/-! ### The last slash -/

theorem lastIndexOf_eq_none (h : lastIndexOf '/' text = none) : '/' ∉ text := by
  induction text with
  | nil => exact not_mem_nil
  | cons x text ih =>
    rw [lastIndexOf] at h
    cases hrest : lastIndexOf '/' text with
    | some i => rw [hrest] at h; cases h
    | none =>
      rw [hrest] at h
      have hx : x ≠ '/' := fun heq => by rw [if_pos heq] at h; cases h
      rw [mem_cons, not_or]
      exact ⟨Ne.symm hx, ih hrest⟩

/-- The text before the last slash, and what is known of the slash. -/
theorem lastIndexOf_eq_some {i : ℕ} (h : lastIndexOf '/' text = some i) :
    '/' ∈ text ∧ i < text.length ∧ text.take i = parentSection text ∧
      text.take (i + 1) = parentSection text ++ ['/'] := by
  induction text generalizing i with
  | nil => cases h
  | cons x text ih =>
    rw [lastIndexOf] at h
    rw [parentSection]
    cases hrest : lastIndexOf '/' text with
    | some j =>
      rw [hrest] at h
      cases h
      obtain ⟨hmem, hlt, htake, htake'⟩ := ih hrest
      rw [if_pos hmem, take_succ_cons, take_succ_cons, htake, htake']
      exact ⟨mem_cons_of_mem x hmem, Nat.succ_lt_succ hlt, rfl, rfl⟩
    | none =>
      rw [hrest] at h
      have hx : x = '/' := by
        by_contra hne
        rw [if_neg hne] at h
        cases h
      rw [if_pos hx] at h
      cases h
      rw [if_neg (lastIndexOf_eq_none hrest), hx]
      exact ⟨mem_cons_self, Nat.succ_pos _, rfl, rfl⟩

theorem parentSection_of_not_mem (h : '/' ∉ text) : parentSection text = [] := by
  cases text with
  | nil => rfl
  | cons x text => rw [parentSection, if_neg fun hmem => h (mem_cons_of_mem x hmem)]

theorem parentText_of_not_mem (h : '/' ∉ text) : parentText text = [] := by
  unfold parentText
  cases hindex : lastIndexOf '/' text with
  | none => rfl
  | some i => exact absurd (lastIndexOf_eq_some hindex).1 h

/-- Where the text before the last slash is empty, the slash is at the start. -/
theorem parentText_of_nil (hmem : '/' ∈ text) (hnil : parentSection text = []) :
    text.head? = some '/' ∧ parentText text = if text.length = 1 then [] else ['/'] := by
  unfold parentText
  cases hindex : lastIndexOf '/' text with
  | none => exact absurd hmem (lastIndexOf_eq_none hindex)
  | some i =>
    obtain ⟨-, hlt, htake, htake'⟩ := lastIndexOf_eq_some hindex
    rw [hnil, take_eq_nil_iff] at htake
    have hzero : i = 0 := by
      rcases htake with h | rfl
      · exact h
      · exact absurd hmem not_mem_nil
    subst hzero
    rw [hnil, nil_append] at htake'
    refine ⟨?_, if_pos rfl⟩
    cases text with
    | nil => cases hmem
    | cons c rest =>
      rw [take_succ_cons, take_zero] at htake'
      rw [List.head?_cons, (List.cons.inj htake').1]

theorem parentText_of_ne_nil (hne : parentSection text ≠ []) :
    parentText text = parentSection text ∧ parentSection text ++ ['/'] <+: text := by
  unfold parentText
  cases hindex : lastIndexOf '/' text with
  | none => exact absurd (parentSection_of_not_mem (lastIndexOf_eq_none hindex)) hne
  | some i =>
    obtain ⟨-, -, htake, htake'⟩ := lastIndexOf_eq_some hindex
    have hzero : i ≠ 0 := by
      rintro rfl
      exact hne htake.symm
    exact ⟨by rw [← htake]; exact if_neg hzero, htake' ▸ take_prefix (i + 1) text⟩

theorem cleaned_parentText (h : Cleaned text) : Cleaned (parentText text) := by
  by_cases hmem : '/' ∈ text
  · by_cases hnil : parentSection text = []
    · rw [(parentText_of_nil hmem hnil).2]
      split_ifs
      · exact cleaned_of_not_mem not_mem_nil
      · exact ⟨by decide, fun _ => rfl⟩
    · obtain ⟨hparent, hstart⟩ := parentText_of_ne_nil hnil
      rw [hparent]
      have hbelow := (prefix_append (parentSection text) ['/']).trans hstart
      refine ⟨fun hmiddle => h.single (hmiddle.trans hbelow.isInfix), fun hlast => ?_⟩
      -- the text goes on with the slash it was cut at
      obtain ⟨front, hfront⟩ := List.getLast?_eq_some_iff.mp hlast
      rw [hfront, append_assoc] at hstart
      exact absurd ((suffix_append front ['/', '/']).isInfix.trans hstart.isInfix) h.single
  · rw [parentText_of_not_mem hmem]
    exact cleaned_of_not_mem not_mem_nil

def Path.parentPath (p : Path) : Path where
  m_pathStr := parentText p.m_pathStr
  cleaned := cleaned_parentText p.cleaned

def Path.hasAncestor (p other : Path) : Bool := hasAncestorText p.m_pathStr other.m_pathStr

/-- What `parentPath` gives after one or more steps. -/
def Path.Ancestor (p q : Path) : Prop := ∃ n, Path.parentPath^[n + 1] p = q

/-- An entry of the root of the file system, or of a directory in it. -/
def Path.BelowRoot (p : Path) : Prop := p.m_pathStr.head? = some '/' ∧ p.m_pathStr ≠ ['/']

/-! ### The two functions -/

theorem hasAncestorText_iff {other : List Char} :
    hasAncestorText text other = true ↔ other ≠ [] ∧ other ++ ['/'] <+: text := by
  unfold hasAncestorText
  split_ifs with h
  · refine ⟨nofun, ?_⟩
    rintro ⟨hne, hstart⟩
    have hle := hstart.length_le
    rw [length_append, length_singleton] at hle
    rcases h with h | h
    · exact absurd h hne
    · omega
  · rw [not_or] at h
    rw [Bool.and_eq_true, decide_eq_true_eq, isPrefixOf_iff_prefix]
    constructor
    · rintro ⟨hchar, rest, rfl⟩
      rw [List.getElem?_append_right le_rfl, Nat.sub_self] at hchar
      obtain ⟨rest', rfl⟩ : ∃ rest', rest = '/' :: rest' := by
        cases rest with
        | nil => cases hchar
        | cons c rest' => exact ⟨rest', by rw [Option.some.inj hchar]⟩
      exact ⟨h.1, rest', by rw [append_assoc]; rfl⟩
    · rintro ⟨-, rest, rfl⟩
      rw [append_assoc]
      exact ⟨by rw [List.getElem?_append_right le_rfl, Nat.sub_self]; rfl,
        prefix_append other _⟩

theorem iterate_parentText_nil (n : ℕ) : parentText^[n] [] = [] := by
  induction n with
  | zero => rfl
  | succ n ih => exact ih

theorem m_pathStr_iterate (n : ℕ) (p : Path) :
    (Path.parentPath^[n] p).m_pathStr = parentText^[n] p.m_pathStr := by
  induction n generalizing p with
  | zero => rfl
  | succ n ih => exact ih p.parentPath

theorem exists_iterate_succ {q : List Char} : (∃ n, parentText^[n + 1] text = q) ↔
    parentText text = q ∨ ∃ n, parentText^[n + 1] (parentText text) = q := by
  constructor
  · rintro ⟨n, hn⟩
    cases n with
    | zero => exact .inl hn
    | succ n => exact .inr ⟨n, hn⟩
  · rintro (h | ⟨n, hn⟩)
    · exact ⟨0, h⟩
    · exact ⟨n + 1, hn⟩

/-- The parents of a path are the texts that a slash follows in it, and the root for the paths
below it. -/
theorem exists_iterate_iff {q : List Char} (hclean : Cleaned text) (hq : q ≠ []) :
    (∃ n, parentText^[n + 1] text = q) ↔
      q ∈ parents text ∨ q = ['/'] ∧ text.head? = some '/' ∧ text ≠ ['/'] := by
  induction hlength : text.length using Nat.strong_induction_on generalizing text with
  | _ n ih =>
  rw [exists_iterate_succ, parents]
  by_cases hnil : parentSection text = []
  · rw [if_pos hnil]
    have hend : ¬ ∃ n, parentText^[n + 1] [] = q := by
      rintro ⟨n, hn⟩
      exact hq (hn.symm.trans (iterate_parentText_nil (n + 1)))
    by_cases hmem : '/' ∈ text
    · obtain ⟨hhead, hparent⟩ := parentText_of_nil hmem hnil
      rw [hparent]
      split_ifs with hone
      · have hroot : text = ['/'] := by
          obtain ⟨c, rfl⟩ := length_eq_one_iff.mp hone
          rw [mem_singleton.mp hmem]
        refine ⟨?_, ?_⟩
        · rintro (h | h)
          · exact absurd h.symm hq
          · exact absurd h hend
        · rintro (h | ⟨-, -, h⟩)
          · exact absurd h not_mem_nil
          · exact absurd hroot h
      · have hroot : text ≠ ['/'] := fun h => hone (by rw [h]; rfl)
        have hnone : ¬ ∃ n, parentText^[n + 1] ['/'] = q := by
          rw [exists_iterate_succ]
          rintro (h | h)
          · exact hq h.symm
          · exact hend h
        refine ⟨?_, ?_⟩
        · rintro (h | h)
          · exact .inr ⟨h.symm, hhead, hroot⟩
          · exact absurd h hnone
        · rintro (h | ⟨rfl, -, -⟩)
          · exact absurd h not_mem_nil
          · exact .inl rfl
    · rw [parentText_of_not_mem hmem]
      refine ⟨?_, ?_⟩
      · rintro (h | h)
        · exact absurd h.symm hq
        · exact absurd h hend
      · rintro (h | ⟨-, h, -⟩)
        · exact absurd h not_mem_nil
        · exact absurd (mem_of_mem_head? h) hmem
  · obtain ⟨hparent, hstart⟩ := parentText_of_ne_nil hnil
    have hle := length_parentSection_le text
    have hpos : 0 < (parentSection text).length := length_pos_of_ne_nil hnil
    have hsection : Cleaned (parentSection text) := hparent ▸ cleaned_parentText hclean
    rw [if_neg hnil, hparent, ih _ (by omega) hsection rfl, mem_cons, or_assoc]
    refine or_congr eq_comm (or_congr_right (and_congr_right fun _ => ?_))
    obtain ⟨c, rest, hcons⟩ := exists_cons_of_length_pos hpos
    obtain ⟨tail, htail⟩ := hstart
    have hhead : text.head? = (parentSection text).head? :=
      calc text.head? = (parentSection text ++ ['/'] ++ tail).head? := by rw [htail]
        _ = (parentSection text).head? := by rw [hcons]; rfl
    have hroot : text ≠ ['/'] := by
      intro h
      rw [h] at hnil
      exact hnil rfl
    have hsecond : parentSection text ≠ ['/'] := by
      intro h
      rw [h] at htail
      exact hclean.single ⟨[], tail, htail⟩
    rw [hhead, and_iff_left hroot, and_iff_left hsecond]

theorem ancestor_iff {p q : Path} :
    p.Ancestor q ↔ ∃ n, parentText^[n + 1] p.m_pathStr = q.m_pathStr := by
  refine exists_congr fun n => ?_
  rw [← m_pathStr_iterate]
  constructor
  · intro h
    rw [h]
  · intro h
    cases hp : Path.parentPath^[n + 1] p
    cases q
    rw [hp] at h
    cases h
    rfl

/-- `hasAncestor` finds what `parentPath` comes to, but for the root of the file system. -/
theorem hasAncestor_iff (p q : Path) (hq : q.m_pathStr ≠ []) :
    (p.hasAncestor q = true ↔ p.Ancestor q) ↔ ¬ (q.m_pathStr = ['/'] ∧ p.BelowRoot) := by
  have hbelow : p.hasAncestor q = true ↔ q.m_pathStr ∈ parents p.m_pathStr := by
    rw [Path.hasAncestor, hasAncestorText_iff, mem_parents]
  rw [hbelow, ancestor_iff, exists_iterate_iff p.cleaned hq]
  change (_ ↔ _ ∨ q.m_pathStr = ['/'] ∧ p.BelowRoot) ↔ _
  constructor
  · rintro hiff ⟨hroot, hp⟩
    -- the root would be followed by a slash of its own
    obtain ⟨-, hstart⟩ := mem_parents.mp (hiff.mpr (.inr ⟨hroot, hp⟩))
    rw [hroot] at hstart
    exact p.cleaned.single hstart.isInfix
  · intro hnot
    exact ⟨.inl, fun h => h.resolve_right hnot⟩

/-- The directory `a` of the root. -/
def directory : Path := ⟨['/', 'a'], ⟨by decide, by decide⟩⟩

def file : Path := ⟨['/', 'a', '/', 'b'], ⟨by decide, by decide⟩⟩

def root : Path := ⟨['/'], ⟨by decide, fun _ => rfl⟩⟩

theorem hasAncestor_iff_file :
    directory.m_pathStr ≠ [] ∧ ((file.hasAncestor directory = true ↔ file.Ancestor directory) ↔
      ¬ (directory.m_pathStr = ['/'] ∧ file.BelowRoot)) :=
  ⟨cons_ne_nil _ _, hasAncestor_iff file directory (cons_ne_nil _ _)⟩

theorem root_not_found :
    directory.parentPath = root ∧ directory.hasAncestor root = false ∧ directory.Ancestor root :=
  ⟨rfl, rfl, 0, rfl⟩

end Qbutt.Utils
