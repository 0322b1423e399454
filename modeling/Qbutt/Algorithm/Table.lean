import Mathlib.Data.List.AList
import Mathlib.Data.List.MinMax
import Mathlib.Data.List.Sort

/-!
# Finite maps

The maps of the sources (hash maps keyed by identifiers) are Mathlib's association lists with
distinct keys.  This file fixes the non-dependent case, the operations that Mathlib lacks (removing by
a predicate, changing all values, finding a least entry) and the few facts about these, inserting,
erasing and enumerating that the developments on top of it use.
-/

namespace Qbutt

/-- A finite map from `κ` to `ν`. -/
abbrev Table (κ ν : Type) := AList fun _ : κ => ν

namespace Table

variable {κ ν : Type} [DecidableEq κ] {t : Table κ ν} {k : κ}

/-- The values of a map, in the order of its entries. -/
def values (t : Table κ ν) : List ν := t.entries.map Sigma.snd

theorem mem_values {v : ν} : v ∈ t.values ↔ ∃ k, t.lookup k = some v := by
  simp only [values, List.mem_map, Sigma.exists, exists_eq_right]
  constructor
  · rintro ⟨k, h⟩
    exact ⟨k, AList.mem_lookup_iff.mpr h⟩
  · rintro ⟨k, h⟩
    exact ⟨k, AList.mem_lookup_iff.mp h⟩

theorem map_values {f : ν → κ} (h : ∀ k v, t.lookup k = some v → f v = k) :
    t.values.map f = t.keys := by
  rw [values, List.map_map]
  exact List.map_congr_left fun e he => h e.1 e.2 (AList.mem_lookup_iff.mpr he)

theorem lookup_insert_eq (t : Table κ ν) (k k' : κ) (v : ν) :
    AList.lookup k' (AList.insert k v t) = if k' = k then some v else AList.lookup k' t := by
  split_ifs with h
  · rw [h, AList.lookup_insert]
  · rw [AList.lookup_insert_ne h]

theorem lookup_erase_eq (t : Table κ ν) (k k' : κ) :
    AList.lookup k' (AList.erase k t) = if k' = k then none else AList.lookup k' t := by
  split_ifs with h
  · rw [h, AList.lookup_erase]
  · rw [AList.lookup_erase_ne h]

/-- The number of entries. -/
def size (t : Table κ ν) : ℕ := t.entries.length

/-- Remove the entries with a property. -/
def eraseIf (t : Table κ ν) (p : κ → ν → Bool) : Table κ ν where
  entries := t.entries.filter fun e => !p e.1 e.2
  nodupKeys := t.nodupKeys.sublist List.filter_sublist

def mapValues (t : Table κ ν) (f : κ → ν → ν) : Table κ ν where
  entries := t.entries.map (.map id f)
  nodupKeys := t.nodupKeys.map₂ f

/-- Compute a value from every entry. -/
def mapTo {ν' : Type} (t : Table κ ν) (f : κ → ν → ν') : Table κ ν' where
  entries := t.entries.map (.map id f)
  nodupKeys := t.nodupKeys.map₂ f

/-- Put a value under a key unless there is one (`try_emplace`). -/
def tryEmplace (t : Table κ ν) (k : κ) (v : ν) : Table κ ν :=
  if (t.lookup k).isSome then t else AList.insert k v t

/-- The key of the entry that comes first by the given measure. -/
def argmin {α : Type} [LinearOrder α] (t : Table κ ν) (f : κ → ν → α) : Option κ :=
  (t.entries.argmin fun e => f e.1 e.2).map Sigma.fst

theorem lookup_eraseIf (t : Table κ ν) (p : κ → ν → Bool) (k : κ) :
    (t.eraseIf p).lookup k = (t.lookup k).filter fun v => !p k v := by
  refine Option.ext fun v => ?_
  have hfilter : ⟨k, v⟩ ∈ (t.eraseIf p).entries ↔ ⟨k, v⟩ ∈ t.entries ∧ (!p k v) = true :=
    List.mem_filter
  rw [← AList.mem_lookup_iff, ← AList.mem_lookup_iff] at hfilter
  rw [Option.filter_eq_some_iff]
  exact hfilter

theorem lookup_mapTo {ν' : Type} (t : Table κ ν) (f : κ → ν → ν') (k : κ) :
    (t.mapTo f).lookup k = (t.lookup k).map (f k) := by
  refine Option.ext fun v => ?_
  have hmap : ⟨k, v⟩ ∈ (t.mapTo f).entries ↔ ∃ v', ⟨k, v'⟩ ∈ t.entries ∧ f k v' = v := by
    refine List.mem_map.trans ⟨?_, ?_⟩
    · rintro ⟨⟨k', v'⟩, hmem, heq⟩
      cases heq
      exact ⟨v', hmem, rfl⟩
    · rintro ⟨v', hmem, rfl⟩
      exact ⟨⟨k, v'⟩, hmem, rfl⟩
  simp only [← AList.mem_lookup_iff] at hmap
  rw [Option.map_eq_some_iff]
  exact hmap

theorem lookup_mapValues (t : Table κ ν) (f : κ → ν → ν) (k : κ) :
    (t.mapValues f).lookup k = (t.lookup k).map (f k) :=
  lookup_mapTo t f k

theorem lookup_tryEmplace (t : Table κ ν) (k k' : κ) (v : ν) :
    (t.tryEmplace k v).lookup k' = if k' = k then some ((t.lookup k).getD v) else t.lookup k' := by
  unfold tryEmplace
  cases h : t.lookup k with
  | none => simp [lookup_insert_eq]
  | some v' =>
    simp only [Option.isSome_some, if_true, Option.getD_some]
    split_ifs with heq
    · rw [heq, h]
    · rfl

/-! ### Sizes -/

theorem size_eq (t : Table κ ν) : t.size = t.keys.length := (List.length_map _).symm

theorem size_insert_of_fresh (h : t.lookup k = none) (v : ν) :
    size (AList.insert k v t) = t.size + 1 := by
  have hk : k ∉ t := AList.lookup_eq_none.mp h
  rw [size, AList.entries_insert_of_notMem hk]
  rfl

theorem size_insert_of_isSome (h : (t.lookup k).isSome) (v : ν) :
    size (AList.insert k v t) = t.size := by
  have hmem : k ∈ t.keys := AList.mem_keys.mp (AList.lookup_isSome.mp h)
  have hpos : 0 < t.keys.length := List.length_pos_of_mem hmem
  rw [size_eq, size_eq, AList.keys_insert, List.length_cons, List.length_erase_of_mem hmem]
  omega

theorem size_erase_le (t : Table κ ν) (k : κ) : size (AList.erase k t) ≤ t.size :=
  (List.kerase_sublist k t.entries).length_le

theorem size_erase_of_isSome (h : (t.lookup k).isSome) : size (AList.erase k t) + 1 = t.size := by
  have hmem : k ∈ t.keys := AList.mem_keys.mp (AList.lookup_isSome.mp h)
  have hpos : 0 < t.keys.length := List.length_pos_of_mem hmem
  rw [size_eq, size_eq, AList.keys_erase, List.length_erase_of_mem hmem]
  omega

theorem size_eraseIf_le (t : Table κ ν) (p : κ → ν → Bool) : (t.eraseIf p).size ≤ t.size :=
  List.length_filter_le _ _

theorem size_mapValues (t : Table κ ν) (f : κ → ν → ν) : (t.mapValues f).size = t.size :=
  List.length_map _

theorem isSome_of_argmin {α : Type} [LinearOrder α] {f : κ → ν → α} (h : t.argmin f = some k) :
    ∃ v, t.lookup k = some v := by
  obtain ⟨⟨k', v⟩, hmin, rfl⟩ := Option.map_eq_some_iff.mp h
  exact ⟨v, AList.mem_lookup_iff.mpr (List.argmin_mem hmin)⟩

theorem argmin_eq_none {α : Type} [LinearOrder α] {f : κ → ν → α} :
    t.argmin f = none ↔ t.size = 0 := by
  rw [argmin, Option.map_eq_none_iff, List.argmin_eq_none, size, List.length_eq_zero_iff]

end Table

end Qbutt

/-!
## Maps in the order of their keys

A map keyed by numbers is walked in the order of its keys (`Table.ordered`); and how inserting and
erasing change the number of its entries.
-/

namespace Qbutt.Table

variable {ν : Type}

/-- The entries of a map, in the order of their keys. -/
def ordered (t : Table ℕ ν) : List (ℕ × ν) :=
  (t.entries.map fun e => (e.1, e.2)).insertionSort fun a b => a.1 ≤ b.1

theorem mem_ordered {t : Table ℕ ν} {k : ℕ} {v : ν} : (k, v) ∈ t.ordered ↔ t.lookup k = some v := by
  rw [ordered, List.mem_insertionSort, List.mem_map]
  constructor
  · rintro ⟨e, he, heq⟩
    cases heq
    exact AList.mem_lookup_iff.mpr he
  · intro h
    exact ⟨⟨k, v⟩, AList.mem_lookup_iff.mp h, rfl⟩

end Qbutt.Table
