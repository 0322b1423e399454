import Mathlib.Data.List.Basic

/-!
# Splitting and joining lists

Splitting and joining introduce no elements: what every element of a list satisfies, every element
of its pieces satisfies, and what every element of the pieces and of the separator satisfies, every
element of the joined list satisfies.  No piece has a separator (`not_of_mem_splitOnP`).
-/

namespace Qbutt

open List

variable {α : Type*}

theorem mem_and_not_of_mem_splitOnP {p : α → Bool} {xs piece : List α} {x : α}
    (hpiece : piece ∈ xs.splitOnP p) (hx : x ∈ piece) : x ∈ xs ∧ p x = false := by
  induction xs generalizing piece with
  | nil =>
    rw [splitOnP_nil, mem_singleton] at hpiece
    rw [hpiece] at hx
    cases hx
  | cons y ys ih =>
    have hlater : ∀ piece ∈ ys.splitOnP p, x ∈ piece → x ∈ y :: ys ∧ p x = false :=
      fun piece hpiece hx => (ih hpiece hx).imp_left (mem_cons_of_mem y)
    rw [splitOnP_cons_eq_if_modifyHead] at hpiece
    split_ifs at hpiece with hy
    · rcases mem_cons.mp hpiece with rfl | hpiece
      · cases hx
      · exact hlater piece hpiece hx
    · cases hsplit : ys.splitOnP p with
      | nil => exact absurd hsplit (splitOnP_ne_nil p ys)
      | cons first rest =>
        rw [hsplit, modifyHead_cons] at hpiece
        rw [hsplit] at hlater
        rcases mem_cons.mp hpiece with rfl | hpiece
        · rcases mem_cons.mp hx with rfl | hx
          · exact ⟨mem_cons_self, Bool.eq_false_iff.mpr hy⟩
          · exact hlater first mem_cons_self hx
        · exact hlater piece (mem_cons_of_mem first hpiece) hx

theorem mem_of_mem_splitOnP {p : α → Bool} {xs piece : List α} {x : α}
    (hpiece : piece ∈ xs.splitOnP p) (hx : x ∈ piece) : x ∈ xs :=
  (mem_and_not_of_mem_splitOnP hpiece hx).1

theorem not_of_mem_splitOnP {p : α → Bool} {xs piece : List α} {x : α}
    (hpiece : piece ∈ xs.splitOnP p) (hx : x ∈ piece) : p x = false :=
  (mem_and_not_of_mem_splitOnP hpiece hx).2

/-- Splitting what a function gives is splitting where it gives separators. -/
theorem splitOnP_map {β : Type*} (f : α → β) (p : β → Bool) (xs : List α) :
    (xs.map f).splitOnP p = (xs.splitOnP (p ∘ f)).map (List.map f) := by
  induction xs with
  | nil => rfl
  | cons x xs ih =>
    rw [map_cons, splitOnP_cons_eq_if_modifyHead, splitOnP_cons_eq_if_modifyHead, ih]
    by_cases hx : p (f x) = true
    · rw [if_pos hx, if_pos (show (p ∘ f) x = true from hx)]
      rfl
    · rw [if_neg hx, if_neg (show ¬ (p ∘ f) x = true from hx)]
      cases xs.splitOnP (p ∘ f) <;> rfl

/-- A list is cut in two at its only separator. -/
theorem splitOn_eq_pair_iff [DecidableEq α] {xs first last : List α} {a : α} :
    xs.splitOn a = [first, last] ↔ xs = first ++ a :: last ∧ a ∉ first ∧ a ∉ last := by
  constructor
  · intro h
    have hjoin : [a].intercalate (xs.splitOn a) = xs := intercalate_splitOn a
    have hpart : ∀ part ∈ [first, last], a ∉ part := by
      intro part hpart ha
      rw [← h, splitOn_eq_splitOnP] at hpart
      simpa using not_of_mem_splitOnP hpart ha
    rw [h, intercalate_cons_cons, intercalate_singleton] at hjoin
    exact ⟨by rw [← hjoin]; simp, hpart first (by simp), hpart last (by simp)⟩
  · rintro ⟨rfl, hfirst, hlast⟩
    rw [splitOn_append_cons_self_of_not_mem hfirst, splitOn_eq_singleton hlast]

theorem mem_of_mem_intercalate {sep : List α} {pieces : List (List α)} {x : α}
    (hx : x ∈ sep.intercalate pieces) : x ∈ sep ∨ ∃ piece ∈ pieces, x ∈ piece := by
  induction pieces with
  | nil => cases hx
  | cons piece pieces ih =>
    cases pieces with
    | nil =>
      rw [intercalate_singleton] at hx
      exact .inr ⟨piece, mem_cons_self, hx⟩
    | cons next rest =>
      rw [intercalate_cons_cons, mem_append, mem_append] at hx
      rcases hx with (hx | hx) | hx
      · exact .inr ⟨piece, mem_cons_self, hx⟩
      · exact .inl hx
      · rcases ih hx with hx | ⟨piece', hpiece', hx⟩
        · exact .inl hx
        · exact .inr ⟨piece', mem_cons_of_mem _ hpiece', hx⟩

end Qbutt
