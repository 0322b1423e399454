import Mathlib.Data.List.Basic
import Mathlib.Data.List.Pairwise

/-!
# Ordered sets

Sets whose elements are kept in the order of a comparison (`std::set`): elements of which neither
comes before the other count as one.  What a set lists can be put back, element by element and in
that order, and gives the same set (`OrderedSet.ofList_items`).  The first element behind a bound
tells whether any element starts with the bound when texts are compared letter by letter
(`OrderedSet.lowerBound_iff`, `start_of_between`).
-/

namespace Qbutt

open List

/-- A comparison by which a set can be ordered. -/
structure StrictOrder (α : Type) where
  less : α → α → Bool
  trans : ∀ x y z, less x y → less y z → less x z

/-- Elements of which neither comes before the other are the same. -/
def StrictOrder.Total {α : Type} (order : StrictOrder α) : Prop :=
  ∀ x y, order.less x y = false → order.less y x = false → x = y

/-- The elements, in order. -/
structure OrderedSet {α : Type} (order : StrictOrder α) where
  items : List α
  sorted : items.Pairwise fun x y => order.less x y = true

namespace OrderedSet

variable {α : Type} {order : StrictOrder α}

theorem ext {s t : OrderedSet order} (h : s.items = t.items) : s = t := by
  cases s
  cases t
  cases h
  rfl

def empty : OrderedSet order := ⟨[], .nil⟩

/-- Put an element in its place, unless one like it is there. -/
def insertItem (order : StrictOrder α) (x : α) : List α → List α
  | [] => [x]
  | y :: ys =>
    if order.less y x then y :: insertItem order x ys
    else if order.less x y then x :: y :: ys
    else y :: ys

theorem mem_insertItem {x y : α} {ys : List α} (h : y ∈ insertItem order x ys) :
    y = x ∨ y ∈ ys := by
  induction ys with
  | nil => exact .inl (mem_singleton.mp h)
  | cons z zs ih =>
    simp only [insertItem] at h
    split at h
    · rcases mem_cons.mp h with rfl | h
      · exact .inr mem_cons_self
      · exact (ih h).imp_right (mem_cons_of_mem z)
    · split at h
      · exact mem_cons.mp h
      · exact .inr h

theorem sorted_insertItem (x : α) {ys : List α}
    (h : ys.Pairwise fun x y => order.less x y = true) :
    (insertItem order x ys).Pairwise fun x y => order.less x y = true := by
  induction ys with
  | nil => exact pairwise_singleton _ x
  | cons z zs ih =>
    obtain ⟨hz, hzs⟩ := pairwise_cons.mp h
    simp only [insertItem]
    split
    · rename_i hzx
      refine pairwise_cons.mpr ⟨fun y hy => ?_, ih hzs⟩
      rcases mem_insertItem hy with rfl | hy
      · exact hzx
      · exact hz y hy
    · split
      · rename_i hxz
        refine pairwise_cons.mpr ⟨fun y hy => ?_, h⟩
        rcases mem_cons.mp hy with rfl | hy
        · exact hxz
        · exact order.trans x z y hxz (hz y hy)
      · exact h

def insert (s : OrderedSet order) (x : α) : OrderedSet order :=
  ⟨insertItem order x s.items, sorted_insertItem x s.sorted⟩

/-- Insert elements one after another. -/
def ofList (xs : List α) : OrderedSet order := xs.foldl insert empty

theorem insertItem_last {x : α} {ys : List α} (h : ∀ y ∈ ys, order.less y x = true) :
    insertItem order x ys = ys ++ [x] := by
  induction ys with
  | nil => rfl
  | cons y ys ih =>
    simp only [insertItem, if_pos (h y mem_cons_self)]
    rw [ih fun y' hy' => h y' (mem_cons_of_mem y hy')]
    rfl

theorem items_foldl_insert {s : OrderedSet order} {xs : List α}
    (h : (s.items ++ xs).Pairwise fun x y => order.less x y = true) :
    (xs.foldl insert s).items = s.items ++ xs := by
  induction xs generalizing s with
  | nil => exact (append_nil s.items).symm
  | cons x xs ih =>
    have hlast : (s.insert x).items = s.items ++ [x] :=
      insertItem_last fun y hy => (pairwise_append.mp h).2.2 y hy x mem_cons_self
    have hsplit : s.items ++ x :: xs = (s.insert x).items ++ xs := by
      rw [hlast, append_assoc]
      rfl
    rw [foldl_cons, ih (hsplit ▸ h), hsplit]

theorem ofList_items (s : OrderedSet order) : ofList s.items = s :=
  ext (items_foldl_insert (s := empty) s.sorted)

/-! ### Membership -/

theorem mem_insertItem_iff (htotal : order.Total) {x y : α} {ys : List α} :
    y ∈ insertItem order x ys ↔ y = x ∨ y ∈ ys := by
  refine ⟨mem_insertItem, fun h => ?_⟩
  induction ys with
  | nil => exact mem_singleton.mpr (h.resolve_right not_mem_nil)
  | cons z zs ih =>
    simp only [insertItem]
    split_ifs with hzx hxz
    · rcases h with rfl | h
      · exact mem_cons_of_mem z (ih (.inl rfl))
      · rcases mem_cons.mp h with rfl | h
        · exact mem_cons_self
        · exact mem_cons_of_mem z (ih (.inr h))
    · exact mem_cons.mpr h
    · -- neither comes before the other
      obtain rfl : x = z := htotal x z (by simpa using hxz) (by simpa using hzx)
      rcases h with rfl | h
      · exact mem_cons_self
      · exact h

theorem mem_insert_iff (htotal : order.Total) {s : OrderedSet order} {x y : α} :
    y ∈ (s.insert x).items ↔ y = x ∨ y ∈ s.items :=
  mem_insertItem_iff htotal

/-- `lower_bound`: the first element that does not come before a bound. -/
def lowerBound (s : OrderedSet order) (bound : α) : Option α :=
  s.items.find? fun x => !order.less x bound

/-- If the elements with a property lie behind the bound with nothing else between, the first
element behind the bound has the property as soon as any has it. -/
theorem lowerBound_iff {s : OrderedSet order} {bound : α} {P : α → Prop}
    (hbehind : ∀ x, P x → order.less x bound = false)
    (hbetween : ∀ x y, P x → order.less y bound = false → order.less y x = true → P y) :
    (∃ x, s.lowerBound bound = some x ∧ P x) ↔ ∃ x ∈ s.items, P x := by
  constructor
  · rintro ⟨x, hx, hP⟩
    exact ⟨x, mem_of_find?_eq_some hx, hP⟩
  · rintro ⟨x, hx, hP⟩
    cases hfind : s.lowerBound bound with
    | none =>
      have hbefore := List.find?_eq_none.mp hfind x hx
      rw [hbehind x hP] at hbefore
      exact absurd rfl hbefore
    | some y =>
      obtain ⟨hy, front, back, hitems, hfront⟩ := List.find?_eq_some_iff_append.mp hfind
      have hy' : order.less y bound = false := by simpa using hy
      refine ⟨y, rfl, ?_⟩
      rw [hitems, mem_append, mem_cons] at hx
      obtain hx | rfl | hx := hx
      · have hbefore := hfront x hx
        rw [hbehind x hP] at hbefore
        exact absurd hbefore (by decide)
      · exact hP
      · have hsorted := s.sorted
        rw [hitems] at hsorted
        have hyx := (pairwise_cons.mp (pairwise_append.mp hsorted).2.1).1 x hx
        exact hbetween x y hP hy' hyx

end OrderedSet

/-! ### Comparing texts -/

section Lexicographic

variable {α : Type} {key : α → ℕ}

/-- The lexicographic comparison of texts whose elements are compared by numbers. -/
def lexLess (key : α → ℕ) : List α → List α → Bool
  | _, [] => false
  | [], _ :: _ => true
  | a :: xs, b :: ys => key a < key b || (key a == key b && lexLess key xs ys)

theorem lexLess_cons {a b : α} {xs ys : List α} : lexLess key (a :: xs) (b :: ys) = true ↔
    key a < key b ∨ key a = key b ∧ lexLess key xs ys = true := by
  simp [lexLess]

theorem lexLess_trans (xs ys zs : List α) (h : lexLess key xs ys = true)
    (h' : lexLess key ys zs = true) : lexLess key xs zs = true := by
  induction zs generalizing xs ys with
  | nil => simp [lexLess] at h'
  | cons c zs ih =>
    cases ys with
    | nil => simp [lexLess] at h
    | cons b ys =>
      cases xs with
      | nil => rfl
      | cons a xs =>
        rw [lexLess_cons] at h h' ⊢
        rcases h with hab | ⟨hab, hrest⟩
        · rcases h' with hbc | ⟨hbc, _⟩
          · exact .inl (Nat.lt_trans hab hbc)
          · exact .inl (hbc ▸ hab)
        · rcases h' with hbc | ⟨hbc, hrest'⟩
          · exact .inl (hab ▸ hbc)
          · exact .inr ⟨hab.trans hbc, ih xs ys hrest hrest'⟩

theorem eq_of_not_lexLess (hkey : Function.Injective key) {xs ys : List α}
    (h : lexLess key xs ys = false) (h' : lexLess key ys xs = false) : xs = ys := by
  induction xs generalizing ys with
  | nil =>
    cases ys with
    | nil => rfl
    | cons b ys => simp [lexLess] at h
  | cons a xs ih =>
    cases ys with
    | nil => simp [lexLess] at h'
    | cons b ys =>
      rw [Bool.eq_false_iff, ne_eq, lexLess_cons, not_or] at h h'
      have hab : key a = key b := by omega
      obtain rfl := hkey hab
      rw [ih (by simpa using h.2) (by simpa using h'.2)]

/-- What starts with a text does not come before it. -/
theorem not_lexLess_of_start {start xs : List α} (h : start <+: xs) :
    lexLess key xs start = false := by
  induction start generalizing xs with
  | nil => cases xs <;> rfl
  | cons a start ih =>
    obtain ⟨more, rfl⟩ := h
    have hrest := ih (prefix_append start more)
    simp [lexLess, hrest]

/-- Nothing else lies between a text and what starts with it. -/
theorem start_of_between (hkey : Function.Injective key) {start xs ys : List α} (h : start <+: xs)
    (hbehind : lexLess key ys start = false) (hbefore : lexLess key ys xs = true) :
    start <+: ys := by
  induction start generalizing xs ys with
  | nil => exact nil_prefix
  | cons a start ih =>
    obtain ⟨more, rfl⟩ := h
    cases ys with
    | nil => simp [lexLess] at hbehind
    | cons b ys =>
      rw [cons_append, lexLess_cons] at hbefore
      rw [Bool.eq_false_iff, ne_eq, lexLess_cons, not_or] at hbehind
      obtain ⟨hba, hrest⟩ := hbefore.resolve_left hbehind.1
      obtain rfl := hkey hba
      rw [cons_prefix_cons]
      exact ⟨rfl, ih (prefix_append start more) (by simpa using hbehind.2) hrest⟩

end Lexicographic

end Qbutt
