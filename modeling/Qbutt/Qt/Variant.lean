import Mathlib.Data.Rat.Defs

/-!
# Variants

`QVariant` as far as the sources use it: simple values, lists of simple values, maps and hashes.
A `QVariantMap` that lacks a key reads as the invalid variant there (`QVariantMap.get`), so two maps
hold the same data when they read the same under every key (`QVariantMap.Same`).  Numbers are finite
and compare by value, whatever their C++ type.  Values of different kinds differ; what `QVariant`
makes of a text beside a number is left out, since the fields of the sources keep their kinds.
-/

namespace Qbutt

/-- The simple values a variant may hold; `invalid` is the empty variant. -/
inductive Scalar where
  | invalid
  | null
  | bool (value : Bool)
  | number (value : ℚ)
  | string (value : String)
  deriving DecidableEq

inductive QVariant where
  | scalar (value : Scalar)
  | list (items : List Scalar)
  | strings (items : List String)
  | map (fields : List (String × QVariant))
  | hash (items : List (String × QVariant))

/-- `QVariantMap` and `QVariantHash`: fields with different keys. -/
abbrev QVariantMap := List (String × QVariant)

namespace QVariant

def toMap : QVariant → QVariantMap
  | map fields => fields
  | _ => []

def toHash : QVariant → QVariantMap
  | hash items => items
  | _ => []

def toList : QVariant → List Scalar
  | list items => items
  | strings items => items.map Scalar.string
  | _ => []

/-- `operator!=` with a simple value. -/
def differs : QVariant → Scalar → Bool
  | scalar value, other => value ≠ other
  | _, _ => true

end QVariant

namespace QVariantMap

/-- `contains`. -/
def has (m : QVariantMap) (key : String) : Bool := (m.lookup key).isSome

/-- `value`, and `operator[]` of a constant map. -/
def get (m : QVariantMap) (key : String) : QVariant := (m.lookup key).getD (.scalar .invalid)

/-- `remove`. -/
def drop (m : QVariantMap) (key : String) : QVariantMap := m.filter fun field => field.1 ≠ key

/-- `insert`, and assignment to `operator[]`. -/
def set (m : QVariantMap) (key : String) (value : QVariant) : QVariantMap :=
  (key, value) :: drop m key

theorem lookup_drop (m : QVariantMap) (key key' : String) :
    (drop m key).lookup key' = if key' = key then none else m.lookup key' := by
  induction m with
  | nil => simp [drop]
  | cons field m ih =>
    unfold drop at ih ⊢
    by_cases hfield : field.1 = key
    · rw [List.filter_cons_of_neg (by simpa using hfield), ih, List.lookup_cons]
      split_ifs with hkey
      · rfl
      · have hne : (key' == field.1) = false := by simpa [hfield] using hkey
        rw [hne]
    · rw [List.filter_cons_of_pos (by simpa using hfield), List.lookup_cons, List.lookup_cons, ih]
      split_ifs with hkey
      · have hne : (key' == field.1) = false := by simpa [hkey] using Ne.symm hfield
        rw [hne]
      · rfl

theorem lookup_set (m : QVariantMap) (key key' : String) (value : QVariant) :
    (set m key value).lookup key' = if key' = key then some value else m.lookup key' := by
  unfold set
  rw [List.lookup_cons, lookup_drop]
  split_ifs with hkey
  · simp [hkey]
  · have hne : (key' == key) = false := by simpa using hkey
    rw [hne]

theorem lookup_eq_none {m : QVariantMap} {key : String} (h : key ∉ m.map Prod.fst) :
    m.lookup key = none := by
  rw [List.lookup_eq_none_iff]
  intro field hfield
  have hne : key ≠ field.1 := fun heq => h (heq ▸ List.mem_map_of_mem hfield)
  simpa using hne

theorem mem_of_lookup {m : QVariantMap} {key : String} {value : QVariant}
    (h : m.lookup key = some value) : (key, value) ∈ m := by
  induction m with
  | nil => cases h
  | cons field m ih =>
    rw [List.lookup_cons] at h
    by_cases hkey : key = field.1
    · rw [hkey, beq_self_eq_true] at h
      obtain rfl : field.2 = value := Option.some.inj h
      rw [hkey]
      exact List.mem_cons_self
    · have hne : (key == field.1) = false := by simpa using hkey
      rw [hne] at h
      exact List.mem_cons_of_mem _ (ih h)

/-- Two maps read the same under every key. -/
def Same (m m' : QVariantMap) : Prop := ∀ key, get m key = get m' key

end QVariantMap

end Qbutt
