import Mathlib.Data.List.Nodup

/-!
# Maps in insertion order

A map that is read in the order in which its keys were first put in (`InsertionMap`): setting a key
that is there replaces its value in place, a new key goes to the end, and a key that was deleted comes
back at the end.  `get_set` and `get_delete` say what an update does to every key;
`mem_entries_iff` connects the entries with `get`.
-/

namespace Qbutt

open List

variable {κ ν : Type} [DecidableEq κ]

structure InsertionMap (κ ν : Type) where
  entries : List (κ × ν)
  nodup : (entries.map Prod.fst).Nodup
  deriving DecidableEq

namespace InsertionMap

/-- The map without entries. -/
def empty : InsertionMap κ ν := ⟨[], nodup_nil⟩

/-- The values, in the order of the keys. -/
def values (m : InsertionMap κ ν) : List ν := m.entries.map Prod.snd

/-- The value at a key. -/
def get (m : InsertionMap κ ν) (k : κ) : Option ν :=
  (m.entries.find? fun entry => entry.1 = k).map Prod.snd

/-- Put a value at a key. -/
def set (m : InsertionMap κ ν) (k : κ) (v : ν) : InsertionMap κ ν :=
  if h : k ∈ m.entries.map Prod.fst then
    { entries := m.entries.map fun entry => if entry.1 = k then (k, v) else entry
      nodup := by
        have hkeys : (m.entries.map fun entry => if entry.1 = k then (k, v) else entry).map Prod.fst =
            m.entries.map Prod.fst := by
          rw [map_map]
          refine map_congr_left fun entry _ => ?_
          by_cases hk : entry.1 = k
          · simp [hk]
          · simp [hk]
        rw [hkeys]
        exact m.nodup }
  else
    { entries := m.entries ++ [(k, v)]
      nodup := by
        rw [map_append]
        exact nodup_append.mpr ⟨m.nodup, by simp, by
          intro a ha b hb hab
          have hk : b = k := by simpa using hb
          exact h (by rw [← hk, ← hab]; exact ha)⟩ }

/-- Take a key out. -/
def delete (m : InsertionMap κ ν) (k : κ) : InsertionMap κ ν where
  entries := m.entries.filter fun entry => entry.1 ≠ k
  nodup := m.nodup.sublist (filter_sublist.map _)

def mapValues {ν' : Type} (m : InsertionMap κ ν) (f : κ → ν → ν') : InsertionMap κ ν' where
  entries := m.entries.map fun entry => (entry.1, f entry.1 entry.2)
  nodup := by
    rw [map_map]
    exact m.nodup

/-- Take out the keys with a property. -/
def removeIf (m : InsertionMap κ ν) (p : κ → Bool) : InsertionMap κ ν where
  entries := m.entries.filter fun entry => !p entry.1
  nodup := m.nodup.sublist (filter_sublist.map _)

def ofList (entries : List (κ × ν)) : InsertionMap κ ν :=
  entries.foldl (fun m entry => m.set entry.1 entry.2) empty

@[simp] theorem get_empty (k : κ) : (empty : InsertionMap κ ν).get k = none := rfl

variable {m : InsertionMap κ ν}

theorem mem_entries_iff {k : κ} {v : ν} : (k, v) ∈ m.entries ↔ m.get k = some v := by
  rw [get, Option.map_eq_some_iff]
  constructor
  · intro hmem
    cases hfind : m.entries.find? fun entry => entry.1 = k with
    | none =>
      have hnone := List.find?_eq_none.mp hfind (k, v) hmem
      simp at hnone
    | some entry =>
      have hkey : entry.1 = k := by simpa using List.find?_some hfind
      have hentry : entry = (k, v) :=
        inj_on_of_nodup_map m.nodup (mem_of_find?_eq_some hfind) hmem hkey
      exact ⟨entry, rfl, by rw [hentry]⟩
  · rintro ⟨entry, hfind, hvalue⟩
    have hkey : entry.1 = k := by simpa using List.find?_some hfind
    have hentry : (k, v) = entry := by rw [← hkey, ← hvalue]
    rw [hentry]
    exact mem_of_find?_eq_some hfind

theorem mem_values {v : ν} : v ∈ m.values ↔ ∃ k, m.get k = some v := by
  rw [values, mem_map]
  constructor
  · rintro ⟨⟨k, v'⟩, hmem, hv⟩
    have hv' : v' = v := hv
    exact ⟨k, mem_entries_iff.mp (by rw [← hv']; exact hmem)⟩
  · rintro ⟨k, hget⟩
    exact ⟨(k, v), mem_entries_iff.mpr hget, rfl⟩

theorem mem_keys {k : κ} : k ∈ m.entries.map Prod.fst ↔ ∃ v, m.get k = some v := by
  rw [mem_map]
  constructor
  · rintro ⟨⟨k', v⟩, hmem, hk⟩
    have hk' : k' = k := hk
    exact ⟨v, mem_entries_iff.mp (by rw [← hk']; exact hmem)⟩
  · rintro ⟨v, hget⟩
    exact ⟨(k, v), mem_entries_iff.mpr hget, rfl⟩

theorem mem_entries_set {k k' : κ} {v v' : ν} :
    (k', v') ∈ (m.set k v).entries ↔
      (k' = k ∧ v' = v) ∨ (k' ≠ k ∧ (k', v') ∈ m.entries) := by
  rw [set]
  by_cases h : k ∈ m.entries.map Prod.fst
  · rw [dif_pos h]
    show (k', v') ∈ m.entries.map _ ↔ _
    rw [mem_map]
    constructor
    · rintro ⟨entry, hmem, heq⟩
      by_cases hk : entry.1 = k
      · rw [if_pos hk, Prod.mk.injEq] at heq
        exact .inl ⟨heq.1.symm, heq.2.symm⟩
      · rw [if_neg hk] at heq
        refine .inr ⟨?_, by rw [← heq]; exact hmem⟩
        rw [heq] at hk
        exact hk
    · rintro (⟨rfl, rfl⟩ | ⟨hk, hmem⟩)
      · obtain ⟨entry, hmem, hkey⟩ := mem_map.mp h
        exact ⟨entry, hmem, if_pos hkey⟩
      · exact ⟨(k', v'), hmem, if_neg hk⟩
  · rw [dif_neg h]
    show (k', v') ∈ m.entries ++ [(k, v)] ↔ _
    rw [mem_append, mem_singleton, Prod.mk.injEq]
    constructor
    · rintro (hmem | heq)
      · refine .inr ⟨?_, hmem⟩
        rintro rfl
        exact h (mem_map_of_mem (f := Prod.fst) hmem)
      · exact .inl heq
    · rintro (heq | ⟨-, hmem⟩)
      · exact .inr heq
      · exact .inl hmem

theorem get_set (m : InsertionMap κ ν) (k k' : κ) (v : ν) :
    (m.set k v).get k' = if k' = k then some v else m.get k' := by
  ext v'
  rw [← mem_entries_iff, mem_entries_set]
  by_cases hk : k' = k
  · rw [if_pos hk, Option.some.injEq]
    constructor
    · rintro (⟨-, hv⟩ | ⟨hne, -⟩)
      · exact hv.symm
      · exact absurd hk hne
    · intro hv
      exact .inl ⟨hk, hv.symm⟩
  · rw [if_neg hk, ← mem_entries_iff]
    constructor
    · rintro (⟨heq, -⟩ | ⟨-, hmem⟩)
      · exact absurd heq hk
      · exact hmem
    · intro hmem
      exact .inr ⟨hk, hmem⟩

theorem get_delete (m : InsertionMap κ ν) (k k' : κ) :
    (m.delete k).get k' = if k' = k then none else m.get k' := by
  ext v'
  rw [← mem_entries_iff]
  show (k', v') ∈ m.entries.filter _ ↔ _
  rw [mem_filter]
  by_cases hk : k' = k
  · simp [hk]
  · simp [hk, mem_entries_iff]

theorem get_mapValues {ν' : Type} (m : InsertionMap κ ν) (f : κ → ν → ν') (k : κ) :
    (m.mapValues f).get k = (m.get k).map (f k) := by
  ext v
  rw [← mem_entries_iff]
  show (k, v) ∈ m.entries.map _ ↔ _
  rw [mem_map, Option.map_eq_some_iff]
  constructor
  · rintro ⟨⟨k', w⟩, hmem, heq⟩
    cases heq
    exact ⟨w, mem_entries_iff.mp hmem, rfl⟩
  · rintro ⟨w, hget, rfl⟩
    exact ⟨(k, w), mem_entries_iff.mpr hget, rfl⟩

theorem get_removeIf (m : InsertionMap κ ν) (p : κ → Bool) (k : κ) :
    (m.removeIf p).get k = if p k then none else m.get k := by
  ext v
  rw [← mem_entries_iff]
  show (k, v) ∈ m.entries.filter _ ↔ _
  rw [mem_filter, mem_entries_iff]
  by_cases hk : p k
  · simp [hk]
  · simp [hk]

theorem mapValues_id {f : κ → ν → ν} (h : ∀ k v, m.get k = some v → f k v = v) :
    m.mapValues f = m := by
  have hentries : (m.entries.map fun entry => (entry.1, f entry.1 entry.2)) = m.entries := by
    refine (map_congr_left fun entry hmem => ?_).trans (map_id _)
    have hget : m.get entry.1 = some entry.2 := mem_entries_iff.mp hmem
    show (entry.1, f entry.1 entry.2) = entry
    rw [h entry.1 entry.2 hget]
  cases m
  simp only [mapValues, mk.injEq]
  exact hentries

end InsertionMap

end Qbutt
