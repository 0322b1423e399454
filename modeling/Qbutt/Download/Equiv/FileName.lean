import Qbutt.Algorithm.Split
import Qbutt.Download.Job

/-!
# Candidate names are single path components

A sanitised title contains neither a control character nor one that is forbidden in file names
(`safeFileName_permitted`), so that joining a candidate name to a directory adds one component, and
the parent of a candidate path is the directory (`candidatePath_parent`).
-/

namespace Qbutt.Download

open List

/-- A character that may stand in a file name. -/
def Permitted (c : Char) : Prop := isControl c = false ∧ forbidden.contains c = false

instance (c : Char) : Decidable (Permitted c) := inferInstanceAs (Decidable (_ ∧ _))

theorem permitted_of_all {text : List Char} (h : (text.all fun c => decide (Permitted c)) = true) :
    ∀ c ∈ text, Permitted c := by
  intro c hc
  exact of_decide_eq_true (all_eq_true.mp h c hc)

theorem mem_of_mem_trimEndMatches {set text : List Char} {c : Char}
    (h : c ∈ trimEndMatches set text) : c ∈ text := by
  rw [trimEndMatches, mem_reverse] at h
  exact mem_reverse.mp ((dropWhile_sublist _).subset h)

theorem cleanTitle_permitted (title : List Char) : ∀ c ∈ cleanTitle title, Permitted c := by
  intro c hc
  have hc := (take_sublist _ _).subset (mem_of_mem_trimEndMatches hc)
  rcases mem_of_mem_intercalate hc with hc | ⟨word, hword, hc⟩
  · rw [mem_singleton.mp hc]
    decide
  · have hc := mem_of_mem_splitOnP (mem_filter.mp hword).1 hc
    obtain ⟨c', -, rfl⟩ := mem_map.mp hc
    split_ifs with hbad
    · decide
    · simpa [Permitted, not_or] using hbad

theorem baseName_permitted (title : List Char) : ∀ c ∈ baseName title, Permitted c := by
  unfold baseName
  dsimp only
  split_ifs
  · exact permitted_of_all rfl
  · exact cleanTitle_permitted title

theorem safeFileName_permitted (title extension : List Char) (hext : ∀ c ∈ extension, Permitted c) :
    ∀ c ∈ safeFileName title extension, Permitted c := by
  intro c hc
  unfold safeFileName at hc
  dsimp only at hc
  split_ifs at hc
  · exact baseName_permitted title c hc
  · exact (mem_append.mp hc).elim (baseName_permitted title c) (hext c)

theorem extension_length_le (title extension : List Char) :
    extension.length ≤ (safeFileName title extension).length := by
  unfold safeFileName
  dsimp only
  split_ifs with h
  · rw [isSuffixOf_iff_suffix] at h
    simpa using h.length_le
  · rw [length_append]
    exact Nat.le_add_left _ _

theorem permitted_of_isDigit {c : Char} (h : c.isDigit) : Permitted c := by
  have hrange : 48 ≤ c.toNat ∧ c.toNat ≤ 57 := by
    simpa [Char.isDigit, UInt32.le_iff_toNat_le] using h
  have hnot : c ∉ forbidden := by
    intro hmem
    simp only [forbidden, mem_cons, not_mem_nil, or_false] at hmem
    rcases hmem with rfl | rfl | rfl | rfl | rfl | rfl | rfl | rfl | rfl <;> revert h <;> decide
  refine ⟨?_, by simpa using hnot⟩
  simp only [isControl, Bool.or_eq_false_iff, decide_eq_false_iff_not, Bool.and_eq_false_iff]
  omega

theorem repr_permitted (n : ℕ) : ∀ c ∈ n.repr.toList, Permitted c := by
  intro c hc
  rw [Nat.repr, String.toList_ofList] at hc
  exact permitted_of_isDigit
    (Nat.isDigit_of_mem_toDigits (by decide : 0 < 10) (by decide : 10 ≤ 10) hc)

theorem candidateName_permitted (title extension : List Char) (index : ℕ)
    (hext : ∀ c ∈ extension, Permitted c) :
    ∀ c ∈ candidateName title extension index, Permitted c := by
  intro c hc
  unfold candidateName at hc
  dsimp only at hc
  split_ifs at hc
  · exact safeFileName_permitted title extension hext c hc
  · simp only [mem_append] at hc
    rcases hc with (((hc | hc) | hc) | hc) | hc
    · exact safeFileName_permitted title extension hext c ((take_sublist _ _).subset hc)
    · exact permitted_of_all rfl c hc
    · exact repr_permitted index c hc
    · exact permitted_of_all rfl c hc
    · exact hext c hc

theorem extension_length_le_candidateName (title extension : List Char) (index : ℕ) :
    extension.length ≤ (candidateName title extension index).length := by
  unfold candidateName
  dsimp only
  split_ifs
  · exact extension_length_le title extension
  · rw [length_append]
    exact Nat.le_add_left _ _

theorem isSeparator_eq_false {c : Char} (h : Permitted c) : isSeparator c = false := by
  simp only [isSeparator, Bool.or_eq_false_iff, beq_eq_false_iff_ne]
  have hnot : c ∉ forbidden := by simpa using h.2
  constructor
  · rintro rfl
    exact hnot (by decide)
  · rintro rfl
    exact hnot (by decide)

theorem components_candidateName (title extension : List Char) (index : ℕ)
    (hext : ∀ c ∈ extension, Permitted c) (hlength : 2 ≤ extension.length) :
    components (candidateName title extension index) =
      [String.ofList (candidateName title extension index)] := by
  have hsplit := splitOnP_eq_singleton (p := isSeparator) fun c hc =>
    isSeparator_eq_false (candidateName_permitted title extension index hext c hc)
  have hlong := Nat.le_trans hlength (extension_length_le_candidateName title extension index)
  rw [components, hsplit, filter_cons_of_pos]
  · rfl
  · simp only [decide_eq_true_eq]
    constructor
    · intro hnil
      rw [hnil] at hlong
      cases hlong
    · intro hdot
      rw [hdot] at hlong
      simp at hlong

theorem candidatePath_parent (destination : FilePath) (title extension : String) (index : ℕ)
    (hext : ∀ c ∈ extension.toList, Permitted c) (hlength : 2 ≤ extension.toList.length) :
    (candidatePath destination title extension index).parent = some destination := by
  rw [candidatePath, FilePath.join, components_candidateName _ _ _ hext hlength, FilePath.parent,
    if_neg (by simp), dropLast_concat]

end Qbutt.Download
