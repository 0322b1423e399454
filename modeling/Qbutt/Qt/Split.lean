import Qbutt.Algorithm.Lines
import Qbutt.Qt.ByteArray

/-!
# Searching in texts

Where the first occurrence of a pattern is in a text that is put together from parts
(`indexOf_skip`, `indexOf_unlines`), and what a text of blocks between delimiters is split into
(`splitFrom_blocks`).  A delimiter is a line that ends with a given text, so it is found where a
line does.
-/

namespace Qbutt.QByteArray

open List

section Search

variable {α : Type} [DecidableEq α] {pattern data : List α} {a b : α}

theorem indexOf_eq_zero (h : pattern <+: data) : indexOf pattern data = some 0 := by
  cases data with
  | nil =>
    rw [prefix_nil.mp h]
    rfl
  | cons b data => rw [indexOf, if_pos ( isPrefixOf_iff_prefix.mpr h)]

theorem indexOf_cons_skip (h : ¬ pattern <+: b :: data) :
    indexOf pattern (b :: data) = (indexOf pattern data).map (· + 1) := by
  rw [indexOf, if_neg (by rwa [ isPrefixOf_iff_prefix])]

/-- Text without the first element of the pattern is skipped. -/
theorem indexOf_skip {front : List α} (h : a ∉ front) (data : List α) :
    indexOf (a :: pattern) (front ++ data) =
      (indexOf (a :: pattern) data).map (· + front.length) := by
  induction front with
  | nil => exact Option.map_id'.symm
  | cons b front ih =>
    rw [mem_cons, not_or] at h
    rw [cons_append, indexOf_cons_skip (by
      rw [cons_prefix_cons]
      exact fun hp => h.1 hp.1), ih h.2, Option.map_map]
    rfl

theorem indexOf_of_not_mem (hmem : a ∈ pattern) (h : a ∉ data) : indexOf pattern data = none := by
  induction data with
  | nil => rw [indexOf, if_neg (ne_nil_of_mem hmem)]
  | cons b data ih =>
    have hnot : ¬ pattern <+: b :: data := fun hp => h (hp.subset hmem)
    rw [mem_cons, not_or] at h
    rw [indexOf_cons_skip hnot, ih h.2, Option.map_none]

/-- What is found is in the text. -/
theorem infix_of_indexOf {i : ℕ} (h : indexOf pattern data = some i) : pattern <:+: data := by
  induction data generalizing i with
  | nil =>
    unfold indexOf at h
    split_ifs at h with hpattern
    exact hpattern ▸ infix_rfl
  | cons b data ih =>
    by_cases hp : pattern <+: b :: data
    · exact hp.isInfix
    · rw [indexOf_cons_skip hp] at h
      obtain ⟨j, hj, _⟩ := Option.map_eq_some_iff.mp h
      exact (ih hj).trans (suffix_cons b data).isInfix

/-! ### Lines -/

variable {q line : List α}

/-- A terminated text at the front of a terminated line is the line. -/
theorem eq_of_prefix_line (hq : a ∉ q) (hline : a ∉ line)
    (h : q ++ [a] <+: line ++ a :: data) : q = line := by
  obtain ⟨more, hmore⟩ := h
  rw [append_assoc, singleton_append] at hmore
  have hcut := congrArg (cutAt a) hmore
  rw [cutAt_append hq, cutAt_append hline] at hcut
  exact (Prod.mk.inj (Option.some.inj hcut)).1

/-- A line that does not end with the text is skipped. -/
theorem indexOf_line (hq : a ∉ q) (hline : a ∉ line) (hnot : ¬ q <:+ line) (data : List α) :
    indexOf (q ++ [a]) (line ++ a :: data) =
      (indexOf (q ++ [a]) data).map (· + (line.length + 1)) := by
  induction line with
  | nil =>
    rw [nil_append, indexOf_cons_skip]
    · rfl
    · intro hp
      exact hnot (suffix_nil.mpr (eq_of_prefix_line hq hline hp))
  | cons b line ih =>
    have hnot' : ¬ q <:+ line := fun hs => hnot (hs.trans (suffix_cons b line))
    rw [cons_append, indexOf_cons_skip, ih (fun h => hline (mem_cons_of_mem _ h))
      hnot', Option.map_map]
    · rfl
    · intro hp
      exact hnot (eq_of_prefix_line hq hline hp ▸ suffix_refl _)

theorem indexOf_unlines (hq : a ∉ q) {lines : List (List α)}
    (hlines : ∀ line ∈ lines, a ∉ line ∧ ¬ q <:+ line) (data : List α) :
    indexOf (q ++ [a]) (unlines a lines ++ data) =
      (indexOf (q ++ [a]) data).map (· + (unlines a lines).length) := by
  induction lines with
  | nil => exact Option.map_id'.symm
  | cons line lines ih =>
    obtain ⟨hline, hnot⟩ := hlines line mem_cons_self
    rw [unlines_cons, append_assoc, cons_append, indexOf_line hq hline hnot,
      ih fun l hl => hlines l (mem_cons_of_mem _ hl), Option.map_map]
    congr 1
    funext i
    rw [Function.comp_apply, length_append, length_cons]
    omega

/-- A line that ends with the text. -/
theorem indexOf_found {front : List α} (h : a ∉ front ++ q) (data : List α) :
    indexOf (q ++ [a]) (front ++ q ++ a :: data) = some front.length := by
  induction front with
  | nil =>
    refine indexOf_eq_zero ?_
    rw [nil_append]
    exact ⟨data, by rw [append_assoc, singleton_append]⟩
  | cons b front ih =>
    have hq : a ∉ q := fun hmem => h (mem_append_right _ hmem)
    rw [cons_append, cons_append, indexOf_cons_skip, ih (fun hmem => h (mem_cons_of_mem _ hmem))]
    · rfl
    · intro hp
      -- the line is longer than the text
      have heq := congrArg List.length (eq_of_prefix_line hq h hp)
      rw [cons_append, length_cons, length_append] at heq
      omega

end Search

/-! ### Blocks -/

variable {sep data last : Bytes}

section Blocks

variable {a : UInt8} {q : Bytes} {fuel n : ℕ} {lines : List Bytes}
  {Q : List Bytes → Prop} {blocks : List (List Bytes)}

theorem splitFrom_of_none (keepEmpty : Bool) (hfuel : 0 < fuel) (hne : data ≠ [])
    (h : indexOf sep data = none) : splitFrom sep keepEmpty fuel data = [data] := by
  obtain ⟨n, rfl⟩ : ∃ n, fuel = n + 1 := ⟨fuel - 1, by omega⟩
  rw [splitFrom, if_neg (by simpa using hne), h]

/-- The text before the separator is a part. -/
theorem splitFrom_of_some {front back : Bytes} (keepEmpty : Bool) (hne : front ≠ [])
    (h : indexOf sep (front ++ (sep ++ back)) = some front.length) :
    splitFrom sep keepEmpty (fuel + 1) (front ++ (sep ++ back)) =
      front :: splitFrom sep keepEmpty fuel back := by
  have hlength : front.length ≠ 0 := by rwa [ne_eq, length_eq_zero_iff]
  have hdrop : (front ++ (sep ++ back)).drop (front.length + sep.length) = back := by
    rw [← append_assoc, ← length_append, drop_left]
  rw [splitFrom, if_neg (by simp [hne]), h]
  dsimp only
  rw [hdrop, take_left, if_neg (by simp [hlength])]

/-- A separator at the front is skipped. -/
theorem splitFrom_front (hsep : sep ≠ []) (fuel : ℕ) (back : Bytes) :
    splitFrom sep false (fuel + 1) (sep ++ back) = splitFrom sep false fuel back := by
  rw [splitFrom, if_neg (by simp [hsep]), indexOf_eq_zero (prefix_append sep back)]
  dsimp only
  rw [Nat.zero_add, drop_left]
  rfl

/-- Lines that do not end with the delimiter. -/
def IsBlock (a : UInt8) (q : Bytes) (block : List Bytes) : Prop :=
  block ≠ [] ∧ ∀ line ∈ block, a ∉ line ∧ ¬ q <:+ line

theorem unlines_ne_nil (h : lines ≠ []) : unlines a lines ≠ [] := by
  obtain ⟨line, lines, rfl⟩ := exists_cons_of_ne_nil h
  rw [unlines_cons]
  simp

/-- The blocks of a text, each but the first behind a delimiter, and a last one of which it is known
what it is split into. -/
def blocksText (a : UInt8) (q last : Bytes) (blocks : List (List Bytes)) : Bytes :=
  (blocks.flatMap fun block => q ++ a :: unlines a block) ++ (q ++ a :: last)

theorem blocksText_cons (a : UInt8) (q last : Bytes) (block : List Bytes)
    (blocks : List (List Bytes)) :
    blocksText a q last (block :: blocks) =
      q ++ [a] ++ (unlines a block ++ blocksText a q last blocks) := by
  simp [blocksText]

theorem length_blocksText {q : Bytes} (hne : q ≠ []) (last : Bytes) (blocks : List (List Bytes)) :
    2 * blocks.length + last.length + 2 ≤ (blocksText a q last blocks).length := by
  have hpos : 0 < q.length := length_pos_iff.mpr hne
  induction blocks with
  | nil =>
    simp only [blocksText, flatMap_nil, nil_append, length_append, length_cons, length_nil]
    omega
  | cons block blocks ih =>
    simp only [blocksText_cons, length_append, length_cons, length_nil]
    omega

theorem splitFrom_blocks (hq : a ∉ q)
    (hlast : ∀ fuel, n ≤ fuel → Q (splitFrom (q ++ [a]) false fuel last))
    (hblocks : ∀ block ∈ blocks, IsBlock a q block) (fuel : ℕ)
    (hfuel : 2 * blocks.length + n + 1 ≤ fuel) :
    ∃ parts, splitFrom (q ++ [a]) false fuel (blocksText a q last blocks) =
      blocks.map (unlines a) ++ parts ∧ Q parts := by
  have hsep : q ++ [a] ≠ [] := by simp
  induction blocks generalizing fuel with
  | nil =>
    obtain ⟨m, rfl⟩ : ∃ m, fuel = m + 1 := ⟨fuel - 1, by omega⟩
    have htext : blocksText a q last [] = q ++ [a] ++ last := by simp [blocksText]
    rw [htext, splitFrom_front hsep]
    rw [length_nil] at hfuel
    exact ⟨_, rfl, hlast m (by omega)⟩
  | cons block blocks ih =>
    rw [length_cons] at hfuel
    obtain ⟨m, rfl⟩ : ∃ m, fuel = m + 2 := ⟨fuel - 2, by omega⟩
    obtain ⟨hne, hlines⟩ := hblocks block mem_cons_self
    -- behind the block there is the next delimiter
    obtain ⟨back, hback⟩ : ∃ back, blocksText a q last blocks = q ++ [a] ++ back := by
      cases blocks with
      | nil => exact ⟨last, by simp [blocksText]⟩
      | cons next blocks => exact ⟨_, blocksText_cons a q last next blocks⟩
    have hfound : indexOf (q ++ [a]) (unlines a block ++ (q ++ [a] ++ back)) =
        some (unlines a block).length := by
      rw [indexOf_unlines hq hlines, indexOf_eq_zero (prefix_append _ back), Option.map_some,
        Nat.zero_add]
    obtain ⟨parts, hnext, hparts⟩ :=
      ih (fun b hb => hblocks b (mem_cons_of_mem _ hb)) (m + 1) (by omega)
    rw [hback, splitFrom_front hsep] at hnext
    refine ⟨parts, ?_, hparts⟩
    rw [blocksText_cons, hback, splitFrom_front hsep,
      splitFrom_of_some false (unlines_ne_nil hne) hfound, hnext]
    rfl

/-- The same for the whole text. -/
theorem splitToViews_blocks (hq : a ∉ q) (hne : q ≠ []) (hn : n ≤ last.length + 2)
    (hlast : ∀ fuel, n ≤ fuel → Q (splitFrom (q ++ [a]) false fuel last))
    (hblocks : ∀ block ∈ blocks, IsBlock a q block) :
    ∃ parts, splitToViews (blocksText a q last blocks) (q ++ [a]) =
      blocks.map (unlines a) ++ parts ∧ Q parts := by
  have hlength := length_blocksText (a := a) hne last blocks
  exact splitFrom_blocks hq hlast hblocks _ (by omega)

theorem splitFrom_last (hq : a ∉ q) (hlines : IsBlock a q lines) (hfuel : 0 < fuel) :
    splitFrom (q ++ [a]) false fuel (unlines a lines) = [unlines a lines] := by
  refine splitFrom_of_none false hfuel (unlines_ne_nil hlines.1) ?_
  have hindex := indexOf_unlines hq hlines.2 []
  rw [append_nil] at hindex
  rw [hindex, indexOf, if_neg (by simp), Option.map_none]

theorem splitFrom_cut (hq : a ∉ q) (hlines : IsBlock a q lines) {front : Bytes} (hfront : a ∉ front)
    (fuel : ℕ) (back : Bytes) :
    splitFrom (q ++ [a]) false (fuel + 1) (unlines a lines ++ (front ++ q ++ a :: back)) =
      (unlines a lines ++ front) :: splitFrom (q ++ [a]) false fuel back := by
  have hnot : a ∉ front ++ q := by
    rw [mem_append, not_or]
    exact ⟨hfront, hq⟩
  have hindex := indexOf_unlines hq hlines.2 (front ++ q ++ a :: back)
  rw [indexOf_found hnot, Option.map_some] at hindex
  have htext : unlines a lines ++ (front ++ q ++ a :: back) =
      unlines a lines ++ front ++ (q ++ [a] ++ back) := by simp
  have hlength : front.length + (unlines a lines).length = (unlines a lines ++ front).length := by
    rw [length_append, Nat.add_comm]
  rw [htext, hlength] at hindex
  rw [htext]
  exact splitFrom_of_some false (by simp [unlines_ne_nil hlines.1]) hindex

end Blocks

/-! ### Single separators -/

section Separator

variable {d : UInt8} {front : Bytes}

theorem splitFrom_fuel (hsep : sep ≠ []) (keepEmpty : Bool) (fuel fuel' : ℕ)
    (hfuel : data.length < fuel) (hfuel' : data.length < fuel') :
    splitFrom sep keepEmpty fuel data = splitFrom sep keepEmpty fuel' data := by
  have hpos : 0 < sep.length := length_pos_iff.mpr hsep
  induction fuel generalizing fuel' data with
  | zero => exact absurd hfuel (Nat.not_lt_zero _)
  | succ fuel ih =>
    obtain ⟨n, rfl⟩ : ∃ n, fuel' = n + 1 := ⟨fuel' - 1, by omega⟩
    unfold splitFrom
    by_cases hempty : data.isEmpty = true
    · rw [if_pos hempty, if_pos hempty]
    rw [if_neg hempty, if_neg hempty]
    cases hindex : indexOf sep data with
    | none => rfl
    | some i =>
      have hle := indexOf_le hindex
      have hdrop : (data.drop (i + sep.length)).length + sep.length ≤ data.length := by
        rw [length_drop]
        omega
      dsimp only
      rw [ih n (by omega) (by omega)]

theorem indexOf_separator (h : d ∉ front) (back : Bytes) :
    indexOf [d] (front ++ d :: back) = some front.length := by
  have hzero : indexOf [d] (d :: back) = some 0 := indexOf_eq_zero ⟨back, rfl⟩
  rw [indexOf_skip h, hzero, Option.map_some, Nat.zero_add]

/-- What is before a separator is a part, unless it is empty. -/
theorem splitToViews_cut (h : d ∉ front) (back : Bytes) :
    splitToViews (front ++ d :: back) [d] =
      (if front = [] then [] else [front]) ++ splitToViews back [d] := by
  have hfuel : splitFrom [d] false (front ++ d :: back).length back = splitToViews back [d] :=
    splitFrom_fuel (cons_ne_nil d []) false _ _
      (by rw [length_append, length_cons]; omega) (Nat.lt_succ_self _)
  have htext : front ++ d :: back = front ++ ([d] ++ back) := rfl
  unfold splitToViews at hfuel ⊢
  by_cases hempty : front = []
  · subst hempty
    rw [nil_append] at hfuel ⊢
    rw [if_pos rfl, nil_append, ← hfuel]
    exact splitFrom_front (cons_ne_nil d []) _ back
  · have hindex := indexOf_separator h back
    rw [if_neg hempty, singleton_append, ← hfuel]
    exact splitFrom_of_some false hempty hindex

theorem splitToViews_of_not_mem (h : d ∉ front) :
    splitToViews front [d] = if front = [] then [] else [front] := by
  by_cases hempty : front = []
  · rw [if_pos hempty, hempty]
    rfl
  · rw [if_neg hempty]
    exact splitFrom_of_none false (Nat.succ_pos _) hempty
      (indexOf_of_not_mem (mem_singleton_self d) h)

/-- A separator splits independently of what is around it. -/
theorem splitToViews_append (d : UInt8) (front back : Bytes) :
    splitToViews (front ++ d :: back) [d] = splitToViews front [d] ++ splitToViews back [d] := by
  induction hlength : front.length using Nat.strong_induction_on generalizing front with
  | _ n ih =>
    obtain ⟨hnot, _⟩ | ⟨first, rest, rfl, hfirst, _⟩ := cutAt_cases d front
    · rw [splitToViews_cut hnot, splitToViews_of_not_mem hnot]
    · rw [length_append, length_cons] at hlength
      rw [append_assoc, cons_append, splitToViews_cut hfirst, splitToViews_cut hfirst,
        ih rest.length (by omega) rest rfl, append_assoc]

theorem not_mem_splitToViews (d : UInt8) (data : Bytes) :
    ∀ part ∈ splitToViews data [d], d ∉ part := by
  induction hlength : data.length using Nat.strong_induction_on generalizing data with
  | _ n ih =>
    intro part hpart
    obtain ⟨hnot, _⟩ | ⟨first, rest, rfl, hfirst, _⟩ := cutAt_cases d data
    · rw [splitToViews_of_not_mem hnot] at hpart
      split_ifs at hpart
      · cases hpart
      · rwa [mem_singleton.mp hpart]
    · rw [length_append, length_cons] at hlength
      rw [splitToViews_cut hfirst, mem_append] at hpart
      rcases hpart with hpart | hpart
      · split_ifs at hpart
        · cases hpart
        · rwa [mem_singleton.mp hpart]
      · exact ih rest.length (by omega) rest rfl part hpart

end Separator

end Qbutt.QByteArray
