import Qbutt.Algorithm.Notes
import Qbutt.Sync.System

/-!
# What a difference says

The items of the main data hold simple values only (`Plain`).  The difference of such an item to an
older state has just the fields that read differently (`lookup_processMap`), so merging it into what
holds the older fields gives the item (`mergeView_processMap`), and merging objects field by field is
what the view of a map says (`get_mergeMap`).
-/

namespace Qbutt.Sync

open List

/-! ### Views -/

/-- What a map reads under every key. -/
abbrev View := String → QVariant

/-- What nothing reads under every key. -/
def emptyView : View := fun _ => .scalar .invalid

def mergeView (kept : Option View) (difference : QVariantMap) : View := fun key =>
  (difference.lookup key).getD (kept.getD emptyView key)

theorem get_set (m : QVariantMap) (key key' : String) (value : QVariant) :
    QVariantMap.get (QVariantMap.set m key value) key' =
      if key' = key then value else QVariantMap.get m key' := by
  unfold QVariantMap.get
  rw [QVariantMap.lookup_set]
  split_ifs <;> rfl

theorem get_drop (m : QVariantMap) (key key' : String) :
    QVariantMap.get (QVariantMap.drop m key) key' =
      if key' = key then .scalar .invalid else QVariantMap.get m key' := by
  unfold QVariantMap.get
  rw [QVariantMap.lookup_drop]
  split_ifs <;> rfl

theorem lookup_mergeMap (new old : QVariantMap) (key : String) (hnodup : (new.map Prod.fst).Nodup) :
    (mergeMap old new).lookup key = (new.lookup key).or (old.lookup key) := by
  unfold mergeMap
  induction new generalizing old with
  | nil => rfl
  | cons field new ih =>
    obtain ⟨hnot, hnodup⟩ := nodup_cons.mp hnodup
    rw [foldl_cons, ih _ hnodup, QVariantMap.lookup_set, lookup_cons]
    by_cases hkey : key = field.1
    · have hnone : new.lookup key = none := QVariantMap.lookup_eq_none (hkey ▸ hnot)
      rw [hnone, if_pos hkey, hkey, beq_self_eq_true]
      rfl
    · have hne : (key == field.1) = false := by simpa using hkey
      rw [if_neg hkey, hne]

theorem get_mergeMap (old new : QVariantMap) (hnodup : (new.map Prod.fst).Nodup) :
    QVariantMap.get (mergeMap old new) = mergeView (some (QVariantMap.get old)) new := by
  funext key
  unfold QVariantMap.get mergeView
  rw [lookup_mergeMap new old key hnodup]
  cases new.lookup key <;> rfl

/-! ### Plain items -/

/-- An item of the main data: simple values under different keys. -/
structure Plain (data : QVariantMap) : Prop where
  nodup : (data.map Prod.fst).Nodup
  scalar : ∀ field ∈ data, ∃ value, field.2 = .scalar value

theorem plain_nil : Plain [] := ⟨nodup_nil, fun _ h => (not_mem_nil h).elim⟩

variable {data : QVariantMap} {prevData m : QVariantMap} {key : String}

theorem Plain.drop (h : Plain data) (key : String) :
    Plain (QVariantMap.drop data key) where
  nodup := h.nodup.sublist (filter_sublist.map _)
  scalar field hfield := h.scalar field (mem_filter.mp hfield).1

theorem Plain.set (h : Plain data) (key : String) (value : Scalar) :
    Plain (QVariantMap.set data key (.scalar value)) where
  nodup := by
    refine nodup_cons.mpr ⟨?_, (h.drop key).nodup⟩
    intro hmem
    obtain ⟨field, hfield, heq⟩ := mem_map.mp hmem
    simpa [heq] using (mem_filter.mp hfield).2
  scalar field hfield := by
    rcases mem_cons.mp hfield with rfl | hfield
    · exact ⟨value, rfl⟩
    · exact (h.drop key).scalar field hfield

/-- The fields that differ, with their new values. -/
theorem lookup_processMapFrom (hdata : Plain data) (prevData syncData : QVariantMap)
    (key : String) : (processMapFrom prevData syncData data).lookup key =
      match data.lookup key with
      | some (.scalar value) =>
        if (QVariantMap.get prevData key).differs value then some (.scalar value)
        else syncData.lookup key
      | _ => syncData.lookup key := by
  induction data generalizing syncData with
  | nil => rfl
  | cons field data ih =>
    obtain ⟨name, value⟩ := field
    obtain ⟨hnot, hnodup⟩ := nodup_cons.mp hdata.nodup
    obtain ⟨scalar, rfl⟩ := hdata.scalar _ mem_cons_self
    have hrest : Plain data := ⟨hnodup, fun f hf => hdata.scalar f (mem_cons_of_mem _ hf)⟩
    rw [processMapFrom, ih hrest, processField, lookup_cons]
    by_cases hkey : key = name
    · have hnone : data.lookup key = none := QVariantMap.lookup_eq_none (hkey ▸ hnot)
      subst hkey
      simp only [hnone, beq_self_eq_true]
      split_ifs with hdiff
      · rw [QVariantMap.lookup_set, if_pos rfl]
      · rfl
    · have hne : (key == name) = false := by simpa using hkey
      rw [hne]
      have hlookup : ((if (QVariantMap.get prevData name).differs scalar = true then
          QVariantMap.set syncData name (.scalar scalar) else syncData).lookup key) =
          syncData.lookup key := by
        split_ifs with hdiff
        · rw [QVariantMap.lookup_set, if_neg hkey]
        · rfl
      rw [hlookup]

theorem lookup_processMap (hdata : Plain data) (prevData : QVariantMap) (key : String) :
    (processMap prevData data).lookup key =
      match data.lookup key with
      | some (.scalar value) =>
        if (QVariantMap.get prevData key).differs value then some (.scalar value) else none
      | _ => none := by
  unfold processMap
  rw [lookup_processMapFrom hdata]
  rfl

/-- A field that the difference lists has its new value there. -/
theorem get_of_lookup_processMap (hdata : Plain data) {value : QVariant}
    (h : (processMap prevData data).lookup key = some value) :
    QVariantMap.get data key = value := by
  rw [lookup_processMap hdata] at h
  unfold QVariantMap.get
  split at h
  · next scalar heq =>
    rw [heq]
    split_ifs at h with hdiff
    · exact Option.some.inj h
  · cases h

theorem differs_iff (value : QVariant) (other : Scalar) :
    value.differs other = true ↔ value ≠ .scalar other := by
  cases value with
  | scalar value => simp [QVariant.differs]
  | _ => simp [QVariant.differs]

/-- A field that the difference does not list reads as before, unless the item does not have it. -/
theorem get_of_not_listed (hdata : Plain data) (prevData : QVariantMap) (key : String)
    (h : (processMap prevData data).lookup key = none) :
    QVariantMap.get data key = QVariantMap.get prevData key ∨ data.lookup key = none := by
  rw [lookup_processMap hdata] at h
  cases hlook : data.lookup key with
  | none => exact Or.inr rfl
  | some value =>
    left
    obtain ⟨scalar, hscalar⟩ := hdata.scalar _ (QVariantMap.mem_of_lookup hlook)
    obtain rfl : value = .scalar scalar := hscalar
    simp only [hlook] at h
    split_ifs at h with hdiff
    rw [differs_iff, not_not] at hdiff
    rw [hdiff, QVariantMap.get, hlook]
    rfl

theorem plain_processMapFrom (hdata : Plain data) (prevData : QVariantMap) {syncData : QVariantMap}
    (hsync : Plain syncData) : Plain (processMapFrom prevData syncData data) := by
  induction data generalizing syncData with
  | nil => exact hsync
  | cons field data ih =>
    obtain ⟨name, value⟩ := field
    obtain ⟨scalar, rfl⟩ := hdata.scalar _ mem_cons_self
    have hrest : Plain data :=
      ⟨(nodup_cons.mp hdata.nodup).2, fun f hf => hdata.scalar f (mem_cons_of_mem _ hf)⟩
    rw [processMapFrom, processField]
    apply ih hrest
    split_ifs
    · exact hsync.set name scalar
    · exact hsync

theorem plain_processMap (hdata : Plain data) (prevData : QVariantMap) :
    Plain (processMap prevData data) :=
  plain_processMapFrom hdata prevData plain_nil

/-! ### Receiving differences -/

/-- A map has no field outside the keys of an item. -/
def Within (data : QVariantMap) (view : View) : Prop :=
  ∀ key, data.lookup key = none → view key = .scalar .invalid

theorem get_eq_of_lookup {value : QVariant} (h : m.lookup key = some value) :
    QVariantMap.get m key = value := by
  rw [QVariantMap.get, h]
  rfl

theorem get_eq_of_none (h : m.lookup key = none) : QVariantMap.get m key = .scalar .invalid := by
  rw [QVariantMap.get, h]
  rfl

/-- Merging a difference gives the new item if the receiver keeps the right value of each field
that the difference leaves out. -/
theorem mergeView_processMap (hdata : Plain data) {kept : Option View}
    (hkept : ∀ key, (processMap prevData data).lookup key = none →
      kept.getD emptyView key = QVariantMap.get data key) :
    mergeView kept (processMap prevData data) = QVariantMap.get data := by
  funext key
  unfold mergeView
  cases hlook : (processMap prevData data).lookup key with
  | some value => exact (get_of_lookup_processMap hdata hlook).symm
  | none => exact hkept key hlook

/-- Putting the difference of an item to its snapshot in place of what waits loses nothing, if an
item whose removal waits has no empty field, and the difference has every field of the one that
waits. -/
theorem received_put (hdata : Plain data) {prev : Option QVariantMap} {held : Option View}
    {removed removed' : Prop} [Decidable removed] [Decidable removed'] {item : Option QVariantMap}
    (hremoved : removed' → removed)
    (hold : received mergeView held removed item = prev.map QVariantMap.get)
    (hnew : prev = none → processMap [] data ≠ [])
    (hheld : ∀ view, held = some view → Within data view)
    (hprev : ∀ m, prev = some m → Within data (QVariantMap.get m))
    (hback : removed → ∀ field ∈ data, field.2 ≠ .scalar .invalid)
    (hwaiting : processMap (prev.getD []) data ≠ [] → ∀ w, item = some w →
      ∀ key, (processMap (prev.getD []) data).lookup key = none → w.lookup key = none) :
    received mergeView held removed'
      (if (processMap (prev.getD []) data).isEmpty then item
        else some (processMap (prev.getD []) data)) = some (QVariantMap.get data) := by
  set d := processMap (prev.getD []) data with hd
  -- what an unlisted field of the new item reads in the snapshot
  have hsnap : ∀ key, d.lookup key = none →
      QVariantMap.get data key = QVariantMap.get (prev.getD []) key := by
    intro key hkey
    rcases get_of_not_listed hdata _ key hkey with heq | hnone
    · exact heq
    · cases hp : prev with
      | none => rw [get_eq_of_none hnone]; rfl
      | some m => rw [get_eq_of_none hnone]; exact (hprev m hp key hnone).symm
  -- a field of the item is not empty if the removal of the item waits
  have hfull : removed → ∀ key, QVariantMap.get data key = .scalar .invalid →
      data.lookup key = none := by
    intro hrem key hkey
    cases hlook : data.lookup key with
    | none => rfl
    | some value =>
      rw [get_eq_of_lookup hlook] at hkey
      exact absurd hkey (hback hrem _ (QVariantMap.mem_of_lookup hlook))
  -- so an empty field reads empty in whatever the receiver keeps
  have hempty : removed → ∀ key, QVariantMap.get data key = .scalar .invalid →
      (if removed' then none else held).getD emptyView key = .scalar .invalid := by
    intro hrem key hkey
    split_ifs
    · rfl
    · cases hh : held with
      | none => rfl
      | some view => exact hheld view hh key (hfull hrem key hkey)
  -- every unlisted field is kept, unless it waits
  have hkept : ∀ key, d.lookup key = none → (∀ w, item = some w → w.lookup key = none) →
      (if removed' then none else held).getD emptyView key = QVariantMap.get data key := by
    intro key hkey hwait
    by_cases hrem : removed
    · have hinvalid : QVariantMap.get data key = .scalar .invalid := by
        rw [hsnap key hkey]
        cases hp : prev with
        | none => rfl
        | some m =>
          cases hi : item with
          | none => simp [received, hrem, hi, hp] at hold
          | some w =>
            simp only [received, hrem, if_true, hi, hp, Option.map_some, Option.some.injEq] at hold
            rw [Option.getD_some, ← hold]
            simp [mergeView, hwait w hi, emptyView]
      rw [hempty hrem key hinvalid, hinvalid]
    · have hnot : ¬ removed' := fun h => hrem (hremoved h)
      rw [if_neg hnot, hsnap key hkey]
      cases hi : item with
      | none =>
        simp only [received, hrem, if_false, hi] at hold
        cases hp : prev with
        | none => simp [hold, hp, emptyView, QVariantMap.get]
        | some m => simp [hold, hp]
      | some w =>
        simp only [received, hrem, if_false, hi] at hold
        cases hp : prev with
        | none => simp [hp] at hold
        | some m =>
          simp only [hp, Option.map_some, Option.some.injEq] at hold
          rw [Option.getD_some, ← hold]
          simp [mergeView, hwait w hi]
  by_cases hd0 : d = []
  · -- nothing differs: what waits stays
    have hall : ∀ key, d.lookup key = none := fun key => by rw [hd0]; rfl
    rw [hd0, isEmpty_nil, if_pos rfl]
    cases hi : item with
    | none =>
      cases hp : prev with
      | none =>
        rw [hp, Option.getD_none] at hd
        exact absurd (hd.symm.trans hd0) (hnew hp)
      | some m =>
        by_cases hrem : removed
        · simp [received, hrem, hi, hp] at hold
        · have hnot : ¬ removed' := fun h => hrem (hremoved h)
          simp only [received, hrem, if_false, hi, hp, Option.map_some] at hold
          simp only [received, hnot, if_false, hold, Option.some.injEq]
          funext key
          rw [hsnap key (hall key), hp, Option.getD_some]
    | some w =>
      simp only [received, Option.some.injEq]
      funext key
      unfold mergeView
      cases hw : w.lookup key with
      | none =>
        rw [Option.getD_none]
        refine hkept key (hall key) ?_
        intro w' hw'
        rw [hi] at hw'
        cases hw'
        exact hw
      | some value =>
        rw [hsnap key (hall key)]
        cases hp : prev with
        | none => simp [received, hi, hp] at hold
        | some m =>
          simp only [received, hi, hp, Option.map_some, Option.some.injEq] at hold
          show value = QVariantMap.get m key
          rw [← hold]
          simp [mergeView, hw]
  · rw [if_neg (by simpa using hd0)]
    simp only [received, Option.some.injEq]
    exact mergeView_processMap hdata fun key hkey =>
      hkept key hkey fun w hw => hwaiting hd0 w hw key hkey

end Qbutt.Sync
