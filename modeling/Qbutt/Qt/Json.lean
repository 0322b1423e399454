import Mathlib.Algebra.Group.Int.Defs
import Mathlib.Algebra.GroupWithZero.Nat
import Mathlib.Data.Rat.Defs

/-!
# JSON values

`QJsonValue`, `QJsonArray` and `QJsonObject` as far as the sources use them.  The conversions
`toObject`, `toArray`, `toStr`, `toBool` and `toDouble` return a default for values of another kind,
and so does the value of a field that an object does not have.  Numbers are finite.
-/

namespace Qbutt

open List

/-- `QJsonValue`. -/
inductive Json where
  | null
  | bool (value : Bool)
  | number (value : ℚ)
  | string (value : String)
  | array (items : List Json)
  | object (fields : List (String × Json))

/-- `QJsonObject`: fields with different keys, in the order of the keys. -/
abbrev JsonObject := List (String × Json)

namespace Json

def isBool : Json → Bool
  | bool _ => true
  | _ => false

def isDouble : Json → Bool
  | number _ => true
  | _ => false

def isString : Json → Bool
  | string _ => true
  | _ => false

def isArray : Json → Bool
  | array _ => true
  | _ => false

def isObject : Json → Bool
  | object _ => true
  | _ => false

def toBool : Json → Bool
  | bool value => value
  | _ => false

def toDouble (fallback : ℚ) : Json → ℚ
  | number value => value
  | _ => fallback

/-- `toInt`, which reads integers only. -/
def toInt (fallback : ℤ) : Json → ℤ
  | number value =>
    if value.den = 1 ∧ -2 ^ 31 ≤ value.num ∧ value.num < 2 ^ 31 then value.num else fallback
  | _ => fallback

def toStr : Json → String
  | string value => value
  | _ => ""

def toArray : Json → List Json
  | array items => items
  | _ => []

def toObject : Json → JsonObject
  | object fields => fields
  | _ => []

def isText (text : String) : Json → Bool
  | string value => value == text
  | _ => false

end Json

namespace JsonObject

/-- `contains`. -/
def has (o : JsonObject) (key : String) : Bool := (o.lookup key).isSome

/-- `operator[]` and `value`; a missing field reads as `null`. -/
def get (o : JsonObject) (key : String) : Json := (o.lookup key).getD .null

/-- `remove`. -/
def drop (o : JsonObject) (key : String) : JsonObject := o.filter fun field => field.1 ≠ key

/-- `insert`, and assignment to `operator[]`. -/
def set (o : JsonObject) (key : String) (value : Json) : JsonObject := (key, value) :: o.drop key

def keys (o : JsonObject) : List String := o.map Prod.fst

theorem get_drop {o : JsonObject} {key key' : String} (h : key' ≠ key) :
    (o.drop key).get key' = o.get key' := by
  unfold get drop
  congr 1
  induction o with
  | nil => rfl
  | cons field o ih =>
    by_cases hfield : field.1 = key
    · have hne : (key' == field.1) = false := by simpa [hfield] using h
      rw [filter_cons_of_neg (by simpa using hfield), lookup_cons, hne]
      exact ih
    · rw [filter_cons_of_pos (by simpa using hfield), lookup_cons, lookup_cons, ih]

theorem get_set (o : JsonObject) (key key' : String) (value : Json) :
    (o.set key value).get key' = if key' = key then value else o.get key' := by
  split_ifs with h
  · simp [get, set, h]
  · have hne : (key' == key) = false := by simpa using h
    refine Eq.trans ?_ (get_drop h)
    simp only [get, set, lookup_cons, hne]

end JsonObject

namespace Json

/-- What is under a path of keys: a value, or that there is an object. -/
def read : Json → List String → Option Json
  | object _, [] => some (object [])
  | value, [] => some value
  | object fields, key :: path => (fields.lookup key).bind fun value => read value path
  | _, _ :: _ => none

/-- Values that differ in the order of fields only. -/
def Same (a b : Json) : Prop := ∀ path, a.read path = b.read path

mutual

/-- Merge a value into another one: objects field by field, and anything else replaces. -/
def merge (old : Json) : Json → Json
  | object fields => object (mergeFields old.toObject fields)
  | value => value
termination_by structural value => value

def mergeFields (old : JsonObject) : List (String × Json) → JsonObject
  | [] => old
  | (key, value) :: fields => mergeFields (old.set key (merge (old.get key) value)) fields
termination_by structural fields => fields

end

end Json

/-! ### Objects field by field -/

namespace JsonObject

theorem lookup_filter (p : String → Bool) (o : JsonObject) (key : String) :
    List.lookup key (o.filter fun field => p field.1) = if p key then o.lookup key else none := by
  induction o with
  | nil => simp
  | cons field o ih =>
    by_cases hfield : p field.1 = true
    · rw [filter_cons_of_pos (by simpa using hfield), lookup_cons, lookup_cons, ih]
      by_cases hkey : key = field.1
      · simp [hkey, hfield]
      · have hne : (key == field.1) = false := by simpa using hkey
        rw [hne]
    · rw [filter_cons_of_neg (by simpa using hfield), ih, lookup_cons]
      by_cases hkey : key = field.1
      · rw [hkey, if_neg hfield, if_neg hfield]
      · have hne : (key == field.1) = false := by simpa using hkey
        rw [hne]

theorem lookup_drop (o : JsonObject) (key key' : String) :
    (o.drop key).lookup key' = if key' = key then none else o.lookup key' := by
  have hfilter := lookup_filter (fun name => decide (name ≠ key)) o key'
  unfold drop
  rw [hfilter]
  by_cases hkey : key' = key
  · rw [if_pos hkey, if_neg (by simpa using hkey)]
  · rw [if_neg hkey, if_pos (by simpa using hkey)]

theorem lookup_set (o : JsonObject) (key key' : String) (value : Json) :
    (o.set key value).lookup key' = if key' = key then some value else o.lookup key' := by
  rw [set, lookup_cons, lookup_drop]
  by_cases hkey : key' = key
  · rw [if_pos hkey, hkey, if_pos rfl, beq_self_eq_true]
  · have hne : (key' == key) = false := by simpa using hkey
    rw [hne, if_neg hkey, if_neg hkey]

theorem lookup_mapValues (f : String → Json → Json) (o : JsonObject) (key : String) :
    List.lookup key (o.map fun field => (field.1, f field.1 field.2)) =
      (o.lookup key).map (f key) := by
  induction o with
  | nil => rfl
  | cons field o ih =>
    rw [map_cons, lookup_cons, lookup_cons]
    by_cases hkey : key = field.1
    · rw [hkey, beq_self_eq_true]
      rfl
    · have hne : (key == field.1) = false := by simpa using hkey
      rw [hne]
      exact ih

end JsonObject

namespace Json

theorem read_cons (fields : JsonObject) (key : String) (path : List String) :
    (object fields).read (key :: path) = (fields.lookup key).bind fun value => value.read path :=
  rfl

variable {a b : JsonObject}

theorem same_object
    (h : ∀ key path, (object a).read (key :: path) = (object b).read (key :: path)) :
    Same (object a) (object b) := by
  intro path
  cases path with
  | nil => rfl
  | cons key path => exact h key path

/-- What reads like an object is one. -/
theorem Same.exists_object {a : Json} {fields : JsonObject} (h : Same a (object fields)) :
    ∃ fields', a = object fields' := by
  have hhere := h []
  cases a with
  | object fields' => exact ⟨fields', rfl⟩
  | _ => cases hhere

/-- What reads like a value that is no object is this value. -/
theorem Same.eq_of_not_object {a b : Json} (h : Same a b) (hb : b.isObject = false) : a = b := by
  have hhere := h []
  cases b with
  | object fields => cases hb
  | _ =>
    cases a with
    | object fields => cases hhere
    | _ => exact Option.some.inj hhere

theorem Same.lookup (h : Same (object a) (object b)) (key : String) :
    (a.lookup key = none ∧ b.lookup key = none) ∨
      ∃ x y, a.lookup key = some x ∧ b.lookup key = some y ∧ Same x y := by
  have hkey : ∀ path, (a.lookup key).bind (fun value => value.read path) =
      (b.lookup key).bind fun value => value.read path := fun path => h (key :: path)
  have hsome : ∀ value : Json, ∃ v, value.read [] = some v := by
    intro value
    cases value <;> exact ⟨_, rfl⟩
  cases ha : a.lookup key with
  | none =>
    cases hb : b.lookup key with
    | none => exact .inl ⟨rfl, rfl⟩
    | some y =>
      obtain ⟨v, hv⟩ := hsome y
      have hhere := hkey []
      rw [ha, hb, Option.bind_some, hv] at hhere
      cases hhere
  | some x =>
    cases hb : b.lookup key with
    | none =>
      obtain ⟨v, hv⟩ := hsome x
      have hhere := hkey []
      rw [ha, hb, Option.bind_some, hv] at hhere
      cases hhere
    | some y =>
      refine .inr ⟨x, y, rfl, rfl, fun path => ?_⟩
      have hhere := hkey path
      rwa [ha, hb] at hhere

theorem same_iff_lookup :
    Same (object a) (object b) ↔ ∀ key, (a.lookup key = none ∧ b.lookup key = none) ∨
      ∃ x y, a.lookup key = some x ∧ b.lookup key = some y ∧ Same x y := by
  refine ⟨Same.lookup, fun h => same_object fun key path => ?_⟩
  rw [read_cons, read_cons]
  rcases h key with ⟨ha, hb⟩ | ⟨x, y, ha, hb, hsame⟩
  · rw [ha, hb]
  · rw [ha, hb]
    exact hsame path

theorem merge_of_not_object {value : Json} (h : value.isObject = false) (old : Json) :
    merge old value = value := by
  cases value with
  | object fields => cases h
  | _ => rfl

theorem lookup_mergeFields {new : JsonObject} (hnodup : new.keys.Nodup) (old : JsonObject)
    (key : String) :
    (mergeFields old new).lookup key = match new.lookup key with
      | none => old.lookup key
      | some value => some (merge (old.get key) value) := by
  induction new generalizing old with
  | nil => rfl
  | cons field new ih =>
    obtain ⟨name, value⟩ := field
    obtain ⟨hnot, hrest⟩ := nodup_cons.mp hnodup
    rw [mergeFields, ih hrest, JsonObject.lookup_set, JsonObject.get_set, lookup_cons]
    by_cases hkey : key = name
    · have hnone : new.lookup key = none := by
        rw [lookup_eq_none_iff]
        intro field hfield
        have hmem : field.1 ∈ new.map Prod.fst := mem_map_of_mem hfield
        have hne : key ≠ field.1 := fun heq => hnot (by rwa [← hkey, heq])
        simpa using hne
      rw [hnone, hkey, beq_self_eq_true, if_pos rfl]
    · have hne : (key == name) = false := by simpa using hkey
      rw [hne, if_neg hkey, if_neg hkey]

end Json

/-- `QString::size`: the length in UTF-16 code units. -/
def qsize (s : String) : ℕ := (s.toList.map fun c => if c.toNat < 0x10000 then 1 else 2).sum

end Qbutt
