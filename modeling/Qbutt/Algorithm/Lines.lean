import Mathlib.Data.List.Basic

/-!
# Lines

A stream is a sequence of terminated lines and an unfinished rest (`exists_unlines`), in one way
(`splitOn_unlines`).

* `cutAt`, `cutLast`: the two sides of the first and of the last separator.
* `linesOf`: the lines of a whole stream, an unfinished last one included.
* `cutLines`: the lines as a reader of bounded room cuts them.  It may get the stream in pieces
  (`cutLines_feed`), and reads the lines of the stream if each of them fits (`cutLines_eq_linesOf`).
-/

namespace Qbutt

open List

variable {α : Type} [DecidableEq α] {a : α} {xs ys before after : List α}

/-! ### The sides of a separator -/

/-- The two sides of the first separator. -/
def cutAt (a : α) : List α → Option (List α × List α)
  | [] => none
  | x :: xs =>
    if x = a then some ([], xs)
    else (cutAt a xs).map fun sides => (x :: sides.1, sides.2)

/-- The two sides of the last separator. -/
def cutLast (a : α) (xs : List α) : Option (List α × List α) :=
  (cutAt a xs.reverse).map fun sides => (sides.2.reverse, sides.1.reverse)

theorem cutAt_append (h : a ∉ before) : cutAt a (before ++ a :: after) = some (before, after) := by
  induction before with
  | nil => rw [nil_append, cutAt, if_pos rfl]
  | cons x before ih =>
    rw [mem_cons, not_or] at h
    rw [cons_append, cutAt, if_neg (Ne.symm h.1), ih h.2, Option.map_some]

theorem cutAt_of_not_mem (h : a ∉ xs) : cutAt a xs = none := by
  induction xs with
  | nil => rfl
  | cons x xs ih =>
    rw [mem_cons, not_or] at h
    rw [cutAt, if_neg (Ne.symm h.1), ih h.2, Option.map_none]

theorem cutAt_cases (a : α) (xs : List α) :
    (a ∉ xs ∧ cutAt a xs = none) ∨
      ∃ before after, xs = before ++ a :: after ∧ a ∉ before ∧
        cutAt a xs = some (before, after) := by
  by_cases h : a ∈ xs
  · obtain ⟨before, after, rfl, hbefore⟩ := eq_append_cons_of_mem h
    exact .inr ⟨before, after, rfl, hbefore, cutAt_append hbefore⟩
  · exact .inl ⟨h, cutAt_of_not_mem h⟩

theorem cutLast_cases (a : α) (xs : List α) :
    (a ∉ xs ∧ cutLast a xs = none) ∨
      ∃ before after, xs = before ++ a :: after ∧ a ∉ after ∧
        cutLast a xs = some (before, after) := by
  obtain ⟨h, hcut⟩ | ⟨before, after, hxs, hbefore, hcut⟩ := cutAt_cases a xs.reverse
  · refine .inl ⟨fun ha => h (mem_reverse.mpr ha), ?_⟩
    rw [cutLast, hcut, Option.map_none]
  · refine .inr ⟨after.reverse, before.reverse, ?_, ?_, ?_⟩
    · rw [← reverse_reverse xs, hxs]
      simp
    · rwa [mem_reverse]
    · rw [cutLast, hcut, Option.map_some]

/-! ### Terminated lines -/

def unlines (a : α) (lines : List (List α)) : List α := lines.flatMap fun line => line ++ [a]

omit [DecidableEq α] in
theorem unlines_cons (line : List α) (lines : List (List α)) :
    unlines a (line :: lines) = line ++ a :: unlines a lines := by
  rw [unlines, flatMap_cons, append_assoc, singleton_append]
  rfl

variable {lines : List (List α)}

omit [DecidableEq α] in
theorem length_le_unlines {line : List α} (h : line ∈ lines) :
    line.length < (unlines a lines).length := by
  induction lines with
  | nil => cases h
  | cons first lines ih =>
    rw [unlines_cons, length_append, length_cons]
    rcases mem_cons.mp h with rfl | h
    · omega
    · have := ih h
      omega

omit [DecidableEq α] in
theorem length_unlines (lines : List (List α)) : lines.length ≤ (unlines a lines).length := by
  induction lines with
  | nil => exact Nat.zero_le _
  | cons line lines ih =>
    rw [unlines_cons, length_append, length_cons, length_cons]
    omega

theorem splitOn_unlines_append (hlines : ∀ line ∈ lines, a ∉ line) (rest : List α) :
    (unlines a lines ++ rest).splitOn a = lines ++ rest.splitOn a := by
  induction lines with
  | nil => rfl
  | cons line lines ih =>
    rw [unlines_cons, append_assoc, cons_append,
      splitOn_append_cons_self_of_not_mem (hlines line mem_cons_self),
      ih fun l hl => hlines l (mem_cons_of_mem _ hl), cons_append]

theorem splitOn_unlines {rest : List α} (hlines : ∀ line ∈ lines, a ∉ line) (hrest : a ∉ rest) :
    (unlines a lines ++ rest).splitOn a = lines ++ [rest] := by
  rw [splitOn_unlines_append hlines, splitOn_eq_singleton hrest]

theorem exists_unlines (a : α) (xs : List α) :
    ∃ lines rest, xs = unlines a lines ++ rest ∧ (∀ line ∈ lines, a ∉ line) ∧ a ∉ rest := by
  induction xs with
  | nil => exact ⟨[], [], rfl, nofun, not_mem_nil⟩
  | cons x xs ih =>
    obtain ⟨lines, rest, rfl, hlines, hrest⟩ := ih
    by_cases hx : x = a
    · refine ⟨[] :: lines, rest, by rw [hx, unlines_cons]; rfl, ?_, hrest⟩
      intro line hline
      rcases mem_cons.mp hline with rfl | hline
      · exact not_mem_nil
      · exact hlines line hline
    · -- the element belongs to the first line, or to the rest if there is none
      cases lines with
      | nil =>
        refine ⟨[], x :: rest, rfl, nofun, ?_⟩
        rw [mem_cons, not_or]
        exact ⟨Ne.symm hx, hrest⟩
      | cons line lines =>
        refine ⟨(x :: line) :: lines, rest, by rw [unlines_cons, unlines_cons]; rfl, ?_, hrest⟩
        intro l hl
        rcases mem_cons.mp hl with rfl | hl
        · rw [mem_cons, not_or]
          exact ⟨Ne.symm hx, hlines line mem_cons_self⟩
        · exact hlines l (mem_cons_of_mem _ hl)

def terminatedLines (a : α) (xs : List α) : List (List α) := (xs.splitOn a).dropLast

theorem terminatedLines_unlines (hlines : ∀ line ∈ lines, a ∉ line) (rest : List α) :
    terminatedLines a (unlines a lines ++ rest) = lines ++ terminatedLines a rest := by
  rw [terminatedLines, splitOn_unlines_append hlines,
    dropLast_append_of_ne_nil (splitOn_ne_nil _ _), terminatedLines]

omit [DecidableEq α] in
theorem unlines_append (lines lines' : List (List α)) :
    unlines a (lines ++ lines') = unlines a lines ++ unlines a lines' := flatMap_append

/-! ### The lines of a stream -/

/-- The lines of a stream, the last one also if it is not terminated. -/
def linesOf (a : α) (xs : List α) : List (List α) :=
  let pieces := xs.splitOn a
  if pieces.getLast? = some [] then pieces.dropLast else pieces

theorem linesOf_unlines {rest : List α} (hlines : ∀ line ∈ lines, a ∉ line) (hrest : a ∉ rest) :
    linesOf a (unlines a lines ++ rest) = lines ++ if rest = [] then [] else [rest] := by
  unfold linesOf
  rw [splitOn_unlines hlines hrest]
  by_cases h : rest = []
  · simp [h]
  · simp [h]

/-- The lines of a stream as a reader cuts them that has room for so many elements of a line: a line
ends at a separator, and before an element for which there is no room. -/
def cutLines (a : α) (limit : ℕ) (line : List α) : List α → List (List α)
  | [] => if line = [] then [] else [line]
  | x :: xs =>
    if line.length = limit then
      line :: if x = a then [] :: cutLines a limit [] xs else cutLines a limit [x] xs
    else if x = a then line :: cutLines a limit [] xs
    else cutLines a limit (line ++ [x]) xs

variable {limit : ℕ} {line : List α}

theorem cutLines_full (hlimit : 0 < limit) (hline : line.length = limit) (hne : xs ≠ []) :
    cutLines a limit line xs = line :: cutLines a limit [] xs := by
  obtain ⟨x, xs, rfl⟩ := exists_cons_of_ne_nil hne
  have hempty : ([] : List α).length ≠ limit := by rw [length_nil]; omega
  rw [cutLines, if_pos hline]
  congr 1
  rw [cutLines.eq_2 a limit [] x xs, if_neg hempty, nil_append]

theorem cutLines_append (hnot : a ∉ xs) (hlength : line.length + xs.length ≤ limit) :
    cutLines a limit line (xs ++ ys) = cutLines a limit (line ++ xs) ys := by
  induction xs generalizing line with
  | nil => rw [nil_append, append_nil]
  | cons x xs ih =>
    rw [mem_cons, not_or] at hnot
    rw [length_cons] at hlength
    rw [cons_append, cutLines, if_neg (by omega), if_neg (Ne.symm hnot.1),
      ih hnot.2 (by rw [length_append, length_singleton]; omega), append_assoc, singleton_append]

theorem cutLines_separator (hline : line.length < limit) :
    cutLines a limit line (a :: xs) = line :: cutLines a limit [] xs := by
  rw [cutLines, if_neg (Nat.ne_of_lt hline), if_pos rfl]

/-- The stream may come in pieces. -/
theorem cutLines_feed (limit : ℕ) (ys : List α) {rest piece : List α}
    (hpiece : line ++ piece = unlines a lines ++ rest) (hline : a ∉ line)
    (hlines : ∀ l ∈ lines, a ∉ l ∧ l.length < limit) (hrest : a ∉ rest)
    (hlimit : rest.length ≤ limit) :
    cutLines a limit line (piece ++ ys) = lines ++ cutLines a limit rest ys := by
  induction lines generalizing line piece with
  | nil =>
    obtain rfl : line ++ piece = rest := hpiece
    rw [length_append] at hlimit
    rw [mem_append, not_or] at hrest
    exact cutLines_append hrest.2 hlimit
  | cons first lines ih =>
    rw [unlines_cons, append_assoc, cons_append] at hpiece
    obtain ⟨hfirst, hshort⟩ := hlines first mem_cons_self
    -- the line so far has no separator, so it is the start of the first line
    obtain ⟨more, rfl, hmore⟩ | ⟨more, rfl, hmore⟩ := append_eq_append_iff.mp hpiece
    · rw [mem_append, not_or] at hfirst
      rw [length_append] at hshort
      rw [hmore, append_assoc, cons_append, cutLines_append hfirst.2 (by omega),
        cutLines_separator (by rw [length_append]; omega), cons_append]
      exact congrArg _ (ih rfl not_mem_nil fun l hl => hlines l (mem_cons_of_mem _ hl))
    · cases more with
      | nil =>
        rw [nil_append] at hmore
        rw [append_nil]
        rw [← hmore, cons_append, cutLines_separator hshort, cons_append]
        exact congrArg _ (ih rfl not_mem_nil fun l hl => hlines l (mem_cons_of_mem _ hl))
      | cons x more =>
        rw [cons_append] at hmore
        rw [(List.cons.inj hmore).1] at hline
        exact absurd (by simp) hline

/-- A reader that has room for every line reads the lines of the stream. -/
theorem cutLines_eq_linesOf (hlimit : ∀ l ∈ linesOf a xs, l.length < limit) :
    cutLines a limit [] xs = linesOf a xs := by
  obtain ⟨lines, rest, rfl, hlines, hrest⟩ := exists_unlines a xs
  rw [linesOf_unlines hlines hrest] at hlimit ⊢
  have hshort : rest.length ≤ limit := by
    by_cases h : rest = []
    · rw [h]; exact Nat.zero_le _
    · exact Nat.le_of_lt (hlimit rest (by simp [h]))
  have hfeed := cutLines_feed limit [] (nil_append (unlines a lines ++ rest)) not_mem_nil
    (fun l hl => ⟨hlines l hl, hlimit l (mem_append_left _ hl)⟩) hrest hshort
  rw [append_nil] at hfeed
  rw [hfeed, cutLines]

end Qbutt
