import Qbutt.Sync.Equiv.Difference
import Qbutt.Sync.Peers

/-!
# Peer data that arrive

A data map has simple values and one hash of items (`IsData`).  The difference of two such maps
lists the fields that read differently, the items that are new or changed and the keys of the items
that are missing (`lookup_processMap_name`, `mem_removed`), so a client that applies it to the older
map holds the newer one, provided that no field of a kept item or of the map went away (`Keeps`,
`same_apply`).
-/

namespace Qbutt.Sync

open List

/-! ### Data maps -/

/-- A field keeps its kind, or is empty before or after. -/
def SameKind : Scalar → Scalar → Prop
  | .bool _, .bool _ => True
  | .number _, .number _ => True
  | .string _, .string _ => True
  | .invalid, _ => True
  | .null, _ => True
  | _, .invalid => True
  | _, .null => True
  | _, _ => False

def SameFields (old new : QVariantMap) : Prop := ∀ key,
  match old.lookup key, new.lookup key with
  | none, none => True
  | some (.scalar a), some (.scalar b) => SameKind a b
  | some (.hash _), some (.hash _) => True
  | _, _ => False

def itemsOf (name : String) (data : QVariantMap) : QVariantMap := (QVariantMap.get data name).toHash

/-- Maps of simple values under different keys. -/
structure IsItems (items : QVariantMap) : Prop where
  nodup : (items.map Prod.fst).Nodup
  plain : ∀ item ∈ items, ∃ fields, item.2 = .map fields ∧ Plain fields

/-- A data map: simple values, and a hash of items under a name.  The keys that a response adds are
free. -/
structure IsData (name : String) (data : QVariantMap) : Prop where
  nodup : (data.map Prod.fst).Nodup
  hash : data.lookup name = some (.hash (itemsOf name data))
  items : IsItems (itemsOf name data)
  scalar : ∀ field ∈ data, field.1 ≠ name → ∃ value, field.2 = .scalar value
  reserved : ∀ key ∈ [KEY_RESPONSE_ID, KEY_FULL_UPDATE, name ++ KEY_SUFFIX_REMOVED],
    data.lookup key = none

/-- A map has the fields of another one, and so have the items that both have. -/
structure Keeps (name : String) (prev data : QVariantMap) : Prop where
  fields : SameFields prev data
  items : ∀ key old new, (itemsOf name prev).lookup key = some old →
    (itemsOf name data).lookup key = some new → SameFields old.toMap new.toMap

variable {key : String}

theorem SameFields.lookup_eq_none {old new : QVariantMap} (h : SameFields old new) :
    old.lookup key = none ↔ new.lookup key = none := by
  have hkey := h key
  cases hold : old.lookup key with
  | none =>
    cases hnew : new.lookup key with
    | none => simp
    | some value => simp [hold, hnew] at hkey
  | some value =>
    cases hnew : new.lookup key with
    | none => simp [hold, hnew] at hkey
    | some value' => simp

/-! ### Differences of hashes -/

/-- The items that are new or changed, and the keys of the items that are missing. -/
def diffItems (prevItems items : QVariantMap) : QVariantMap × List String :=
  if prevItems.isEmpty then (items, []) else processHashFrom prevItems [] items

variable (m : QVariantMap)

theorem has_drop (key key' : String) :
    QVariantMap.has (QVariantMap.drop m key) key' =
      (if key' = key then false else QVariantMap.has m key') := by
  rw [QVariantMap.has, QVariantMap.lookup_drop]
  split_ifs <;> rfl

theorem mem_keys_iff (key : String) : key ∈ m.map Prod.fst ↔ QVariantMap.has m key = true := by
  rw [QVariantMap.has, mem_map]
  constructor
  · rintro ⟨field, hfield, rfl⟩
    by_contra hnone
    rw [Option.not_isSome_iff_eq_none, lookup_eq_none_iff] at hnone
    simpa using hnone field hfield
  · intro h
    obtain ⟨value, hvalue⟩ := Option.isSome_iff_exists.mp h
    exact ⟨_, QVariantMap.mem_of_lookup hvalue, rfl⟩

variable {items m syncData : QVariantMap}

theorem IsItems.tail {item : String × QVariant} (h : IsItems (item :: items)) : IsItems items where
  nodup := (nodup_cons.mp h.nodup).2
  plain i hi := h.plain i (mem_cons_of_mem _ hi)

theorem lookup_processHashFrom (hitems : IsItems items) (prevItems syncData : QVariantMap)
    (key : String) :
    (processHashFrom prevItems syncData items).1.lookup key =
      match items.lookup key with
      | some (.map fields) =>
        if QVariantMap.has prevItems key then
          if (processMap (QVariantMap.get prevItems key).toMap fields).isEmpty then
            syncData.lookup key
          else some (.map (processMap (QVariantMap.get prevItems key).toMap fields))
        else some (.map fields)
      | _ => syncData.lookup key := by
  induction items generalizing prevItems syncData with
  | nil => rfl
  | cons item items ih =>
    obtain ⟨name, value⟩ := item
    obtain ⟨fields, rfl, _⟩ := hitems.plain _ mem_cons_self
    have hnot : name ∉ items.map Prod.fst := (nodup_cons.mp hitems.nodup).1
    rw [processHashFrom, ih hitems.tail, processItem, lookup_cons]
    by_cases hkey : key = name
    · subst hkey
      have hnone : items.lookup key = none := QVariantMap.lookup_eq_none hnot
      simp only [hnone, beq_self_eq_true]
      by_cases hhas : QVariantMap.has prevItems key = true
      · rw [if_pos hhas, if_pos hhas]
        rw [← processMap]
        split_ifs
        · rfl
        · rw [QVariantMap.lookup_set, if_pos rfl]
      · rw [if_neg hhas, if_neg hhas, QVariantMap.lookup_set, if_pos rfl]
    · have hne : (key == name) = false := by simpa using hkey
      have hsync : ∀ value,
          (QVariantMap.set syncData name value).lookup key = syncData.lookup key :=
        fun value => by rw [QVariantMap.lookup_set, if_neg hkey]
      have hprevHas : QVariantMap.has (if QVariantMap.has prevItems name = true then
          QVariantMap.drop prevItems name else prevItems) key = QVariantMap.has prevItems key := by
        split_ifs
        · rw [has_drop, if_neg hkey]
        · rfl
      have hprevGet : QVariantMap.get (if QVariantMap.has prevItems name = true then
          QVariantMap.drop prevItems name else prevItems) key = QVariantMap.get prevItems key := by
        split_ifs
        · rw [get_drop, if_neg hkey]
        · rfl
      have hitem : (if QVariantMap.has prevItems name = true then
          let map := processMapFrom (QVariantMap.get prevItems name).toMap [] fields
          if map.isEmpty = true then syncData else QVariantMap.set syncData name (.map map)
          else QVariantMap.set syncData name (.map fields)).lookup key = syncData.lookup key := by
        dsimp only
        split_ifs <;> simp only [hsync]
      rw [hne, hprevHas, hprevGet, hitem]

theorem mem_processHashFrom (hitems : IsItems items) (prevItems syncData : QVariantMap)
    (key : String) :
    key ∈ (processHashFrom prevItems syncData items).2 ↔
      QVariantMap.has prevItems key = true ∧ items.lookup key = none := by
  induction items generalizing prevItems syncData with
  | nil => simp [processHashFrom, mem_keys_iff]
  | cons item items ih =>
    obtain ⟨name, value⟩ := item
    rw [processHashFrom, ih hitems.tail, lookup_cons]
    by_cases hkey : key = name
    · subst hkey
      simp only [beq_self_eq_true]
      split_ifs with hhas
      · rw [has_drop, if_pos rfl]
        simp
      · simp [hhas]
    · have hne : (key == name) = false := by simpa using hkey
      rw [hne]
      split_ifs
      · rw [has_drop, if_neg hkey]
      · rfl

/-- What the difference of two hashes says about an item. -/
theorem lookup_diffItems (hitems : IsItems items) (prevItems : QVariantMap) (key : String) :
    (diffItems prevItems items).1.lookup key =
      match items.lookup key with
      | some (.map fields) =>
        if QVariantMap.has prevItems key then
          if (processMap (QVariantMap.get prevItems key).toMap fields).isEmpty then none
          else some (.map (processMap (QVariantMap.get prevItems key).toMap fields))
        else some (.map fields)
      | _ => none := by
  unfold diffItems
  by_cases hempty : prevItems.isEmpty = true
  · obtain rfl : prevItems = [] := by simpa using hempty
    have hhas : ¬ QVariantMap.has [] key = true := Bool.false_ne_true
    rw [if_pos hempty]
    cases hitem : items.lookup key with
    | none => rfl
    | some value =>
      obtain ⟨fields, hvalue, _⟩ := hitems.plain _ (QVariantMap.mem_of_lookup hitem)
      obtain rfl : value = .map fields := hvalue
      dsimp only
      rw [if_neg hhas]
  · rw [if_neg hempty, lookup_processHashFrom hitems]
    rfl

theorem mem_removed (hitems : IsItems items) (prevItems : QVariantMap) (key : String) :
    key ∈ (diffItems prevItems items).2 ↔
      QVariantMap.has prevItems key = true ∧ items.lookup key = none := by
  unfold diffItems
  split_ifs with hempty
  · obtain rfl : prevItems = [] := by simpa using hempty
    have hhas : QVariantMap.has [] key = false := rfl
    simp [hhas]
  · exact mem_processHashFrom hitems prevItems [] key

theorem nodup_set (h : (m.map Prod.fst).Nodup) (key : String) (value : QVariant) :
    ((QVariantMap.set m key value).map Prod.fst).Nodup := by
  refine nodup_cons.mpr ⟨?_, h.sublist (filter_sublist.map _)⟩
  intro hmem
  obtain ⟨field, hfield, heq⟩ := mem_map.mp hmem
  simpa [heq] using (mem_filter.mp hfield).2

theorem nodup_processHashFrom (hitems : IsItems items) (prevItems : QVariantMap)
    (hsync : (syncData.map Prod.fst).Nodup) :
    ((processHashFrom prevItems syncData items).1.map Prod.fst).Nodup := by
  induction items generalizing prevItems syncData with
  | nil => exact hsync
  | cons item items ih =>
    obtain ⟨name, value⟩ := item
    obtain ⟨fields, rfl, _⟩ := hitems.plain _ mem_cons_self
    rw [processHashFrom]
    refine ih hitems.tail _ ?_
    rw [processItem]
    split_ifs
    · dsimp only
      split_ifs
      · exact hsync
      · exact nodup_set hsync _ _
    · exact nodup_set hsync _ _

theorem nodup_diffItems (hitems : IsItems items) (prevItems : QVariantMap) :
    ((diffItems prevItems items).1.map Prod.fst).Nodup := by
  unfold diffItems
  split_ifs
  · exact hitems.nodup
  · exact nodup_processHashFrom hitems prevItems nodup_nil

/-! ### Differences of data maps -/

theorem removed_ne (name : String) : name ++ KEY_SUFFIX_REMOVED ≠ name := by
  intro h
  have hlength := congrArg String.length h
  rw [String.length_append] at hlength
  have hsuffix : KEY_SUFFIX_REMOVED.length = 8 := by decide
  omega

theorem lookup_processField_hash (prevData syncData : QVariantMap) (name : String)
    (items : QVariantMap) (key : String) :
    (processField prevData syncData name (.hash items)).lookup key =
      if key = name ++ KEY_SUFFIX_REMOVED ∧ (diffItems (itemsOf name prevData) items).2 ≠ [] then
        some (.strings (diffItems (itemsOf name prevData) items).2)
      else if key = name ∧ (diffItems (itemsOf name prevData) items).1 ≠ [] then
        some (.map (diffItems (itemsOf name prevData) items).1)
      else syncData.lookup key := by
  have hfield : processField prevData syncData name (.hash items) =
      let d := diffItems (itemsOf name prevData) items
      let syncData :=
        if d.1.isEmpty then syncData else QVariantMap.set syncData name (.map d.1)
      if d.2.isEmpty then syncData
      else QVariantMap.set syncData (name ++ KEY_SUFFIX_REMOVED) (.strings d.2) := by
    rw [processField]
    rfl
  rw [hfield]
  generalize diffItems (itemsOf name prevData) items = d
  obtain ⟨map, removed⟩ := d
  have hne := removed_ne name
  cases map <;> cases removed <;>
    simp only [isEmpty_nil, isEmpty_cons, if_true, if_false, Bool.false_eq_true,
      QVariantMap.lookup_set, ne_eq, not_true_eq_false, and_false, reduceCtorEq, not_false_eq_true,
      and_true]

theorem processMapFrom_append (prevData syncData pre post : QVariantMap) :
    processMapFrom prevData syncData (pre ++ post) =
      processMapFrom prevData (processMapFrom prevData syncData pre) post := by
  induction pre generalizing syncData with
  | nil => rfl
  | cons field pre ih =>
    obtain ⟨key, value⟩ := field
    rw [cons_append, processMapFrom, ih, processMapFrom]

variable {name : String} {prev data : QVariantMap}

theorem IsData.split (h : IsData name data) :
    ∃ pre post, data = pre ++ (name, .hash (itemsOf name data)) :: post ∧ Plain pre ∧ Plain post ∧
      pre.lookup name = none ∧ post.lookup name = none ∧
      ∀ key, pre.lookup key = none ∨ post.lookup key = none := by
  obtain ⟨pre, post, hdata⟩ := append_of_mem (QVariantMap.mem_of_lookup h.hash)
  have hnodup := h.nodup
  rw [hdata, map_append, map_cons, nodup_append] at hnodup
  obtain ⟨hpre, hpost, hdisjoint⟩ := hnodup
  obtain ⟨hnot, hpost⟩ := nodup_cons.mp hpost
  have hnot' : name ∉ pre.map Prod.fst := fun hmem =>
    hdisjoint name hmem name mem_cons_self rfl
  refine ⟨pre, post, hdata, ⟨hpre, fun field hfield => ?_⟩, ⟨hpost, fun field hfield => ?_⟩,
    QVariantMap.lookup_eq_none hnot', QVariantMap.lookup_eq_none hnot, fun key => ?_⟩
  · refine h.scalar field (by rw [hdata]; exact mem_append_left _ hfield) fun heq => hnot' ?_
    have hmem : field.1 ∈ pre.map Prod.fst := mem_map_of_mem hfield
    rwa [heq] at hmem
  · have hfield' : field ∈ data := by
      rw [hdata]
      exact mem_append_right _ (mem_cons_of_mem _ hfield)
    refine h.scalar field hfield' fun heq => hnot ?_
    have hmem : field.1 ∈ post.map Prod.fst := mem_map_of_mem hfield
    rwa [heq] at hmem
  · by_cases hmem : key ∈ pre.map Prod.fst
    · refine .inr (QVariantMap.lookup_eq_none fun hmem' => ?_)
      exact hdisjoint key hmem key (mem_cons_of_mem _ hmem') rfl
    · exact .inl (QVariantMap.lookup_eq_none hmem)

theorem lookup_processMap_data (h : IsData name data) (prevData : QVariantMap) (key : String) :
    (processMap prevData data).lookup key =
      if key = name ++ KEY_SUFFIX_REMOVED ∧
          (diffItems (itemsOf name prevData) (itemsOf name data)).2 ≠ [] then
        some (.strings (diffItems (itemsOf name prevData) (itemsOf name data)).2)
      else if key = name ∧ (diffItems (itemsOf name prevData) (itemsOf name data)).1 ≠ [] then
        some (.map (diffItems (itemsOf name prevData) (itemsOf name data)).1)
      else
        match data.lookup key with
        | some (.scalar value) =>
          if (QVariantMap.get prevData key).differs value then some (.scalar value) else none
        | _ => none := by
  obtain ⟨pre, post, hdata, hpre, hpost, hnone, hnone', hdisjoint⟩ := h.split
  have hfree := h.reserved (name ++ KEY_SUFFIX_REMOVED) (by simp)
  have hne := removed_ne name
  generalize itemsOf name data = items at hdata
  have hlookup : data.lookup key = (pre.lookup key).or
      (if key = name then some (.hash items) else post.lookup key) := by
    rw [hdata, lookup_append, lookup_cons]
    split_ifs with hkey
    · rw [hkey, beq_self_eq_true]
    · have hbeq : (key == name) = false := by simpa using hkey
      rw [hbeq]
  have hwhole : processMap prevData data = processMapFrom prevData
      (processField prevData (processMapFrom prevData [] pre) name (.hash items)) post := by
    rw [processMap, hdata, processMapFrom_append, processMapFrom]
  rw [hwhole, lookup_processMapFrom hpost, lookup_processField_hash, lookup_processMapFrom hpre]
  by_cases hname : key = name
  · have hnot : key ≠ name ++ KEY_SUFFIX_REMOVED := fun heq => hne (heq.symm.trans hname)
    rw [hlookup, if_pos hname, hname, hnone, hnone']
    rfl
  · rw [if_neg hname] at hlookup
    by_cases hremoved : key = name ++ KEY_SUFFIX_REMOVED
    · rw [hremoved, hfree, eq_comm, Option.or_eq_none_iff] at hlookup
      rw [hremoved, hfree, hlookup.1, hlookup.2]
      rfl
    · simp only [hremoved, hname, false_and, if_false]
      rw [hlookup]
      rcases hdisjoint key with hpreNone | hpostNone
      · rw [hpreNone, Option.none_or]
        rfl
      · rw [hpostNone, Option.or_none]
        rfl

theorem nodup_processField (prevData : QVariantMap) (h : (syncData.map Prod.fst).Nodup)
    (key : String) (value : QVariant) :
    ((processField prevData syncData key value).map Prod.fst).Nodup := by
  have hif : ∀ (p : Prop) [Decidable p] (m : QVariantMap) (key : String) (value : QVariant),
      (m.map Prod.fst).Nodup →
        ((if p then m else QVariantMap.set m key value).map Prod.fst).Nodup := by
    intro p _ m key value hm
    split_ifs
    · exact hm
    · exact nodup_set hm key value
  cases value with
  | scalar value =>
    rw [processField]
    split_ifs
    · exact nodup_set h _ _
    · exact h
  | list items =>
    rw [processField]
    exact hif _ _ _ _ (hif _ _ _ _ h)
  | strings items => exact h
  | map fields =>
    rw [processField]
    exact hif _ _ _ _ h
  | hash items =>
    rw [processField]
    exact hif _ _ _ _ (hif _ _ _ _ h)

/-- A difference lists every key once. -/
theorem nodup_processMap (prevData data : QVariantMap) :
    ((processMap prevData data).map Prod.fst).Nodup := by
  have hfrom : ∀ syncData : QVariantMap, (syncData.map Prod.fst).Nodup →
      ((processMapFrom prevData syncData data).map Prod.fst).Nodup := by
    induction data with
    | nil => exact fun _ h => h
    | cons field data ih =>
      obtain ⟨key, value⟩ := field
      exact fun syncData h => ih _ (nodup_processField prevData h key value)
  exact hfrom [] nodup_nil

/-! ### JSON -/

theorem lookup_toJsonFields (key : String) :
    (toJsonFields m).lookup key = (m.lookup key).map toJson := by
  induction m with
  | nil => rfl
  | cons field m ih =>
    obtain ⟨name, value⟩ := field
    rw [toJsonFields, lookup_cons, lookup_cons, ih]
    cases key == name <;> rfl

theorem keys_toJsonFields : (toJsonFields m).keys = m.map Prod.fst := by
  induction m with
  | nil => rfl
  | cons field m ih =>
    obtain ⟨name, value⟩ := field
    exact congrArg (name :: ·) ih

theorem scalarJson_not_object (value : Scalar) : (scalarJson value).isObject = false := by
  cases value <;> rfl

/-- For simple values, reading the same is being the same. -/
theorem same_plain_iff (hm : Plain m) (o : JsonObject) :
    Json.Same (.object o) (toJson (.map m)) ↔ ∀ key, o.lookup key = (m.lookup key).map toJson := by
  rw [toJson, Json.same_iff_lookup]
  refine forall_congr' fun key => ?_
  rw [lookup_toJsonFields]
  cases hlook : m.lookup key with
  | none => simp
  | some value =>
    obtain ⟨scalar, hscalar⟩ := hm.scalar _ (QVariantMap.mem_of_lookup hlook)
    obtain rfl : value = .scalar scalar := hscalar
    constructor
    · rintro (⟨_, hnone⟩ | ⟨x, y, hx, hy, hsame⟩)
      · cases hnone
      · cases hy
        rw [hx, hsame.eq_of_not_object (scalarJson_not_object scalar)]
        rfl
    · exact fun h => .inr ⟨_, _, h, rfl, fun _ => rfl⟩

/-- Merging simple values replaces what is under their keys. -/
theorem lookup_merge_plain (hm : Plain m) (old : JsonObject) (key : String) :
    (Json.mergeFields old (toJsonFields m)).lookup key =
      ((m.lookup key).map toJson).or (old.lookup key) := by
  rw [Json.lookup_mergeFields (by rw [keys_toJsonFields]; exact hm.nodup), lookup_toJsonFields]
  cases hlook : m.lookup key with
  | none => rfl
  | some value =>
    obtain ⟨scalar, hscalar⟩ := hm.scalar _ (QVariantMap.mem_of_lookup hlook)
    obtain rfl : value = .scalar scalar := hscalar
    exact congrArg some (Json.merge_of_not_object (scalarJson_not_object scalar) _)

/-! ### Items -/

theorem same_merge_item {old new : QVariantMap} (hold : Plain old) (hnew : Plain new)
    (hkeeps : SameFields old new) {o : JsonObject}
    (ho : Json.Same (.object o) (toJson (.map old))) :
    Json.Same (.object (Json.mergeFields o (toJsonFields (processMap old new))))
      (toJson (.map new)) := by
  rw [same_plain_iff hold] at ho
  rw [same_plain_iff hnew]
  intro key
  rw [lookup_merge_plain (plain_processMap hnew old), ho, lookup_processMap hnew]
  cases hlook : new.lookup key with
  | none =>
    rw [hkeeps.lookup_eq_none.mpr hlook]
    rfl
  | some value =>
    obtain ⟨scalar, hscalar⟩ := hnew.scalar _ (QVariantMap.mem_of_lookup hlook)
    obtain rfl : value = .scalar scalar := hscalar
    dsimp only
    by_cases hdiff : (QVariantMap.get old key).differs scalar = true
    · rw [if_pos hdiff]
      rfl
    · -- a field that does not differ is there, since the new item has it
      rw [if_neg hdiff]
      rw [differs_iff, not_not] at hdiff
      cases hlook' : old.lookup key with
      | none => rw [hkeeps.lookup_eq_none.mp hlook'] at hlook; cases hlook
      | some value =>
        rw [get_eq_of_lookup hlook'] at hdiff
        rw [hdiff]
        rfl

theorem IsItems.lookup (h : IsItems items) {value : QVariant}
    (hlook : items.lookup key = some value) : ∃ fields, value = .map fields ∧ Plain fields :=
  h.plain _ (QVariantMap.mem_of_lookup hlook)

/-- Deleting the missing items and merging the listed ones gives the new items. -/
theorem same_items {prevItems : QVariantMap} (hprev : IsItems prevItems) (hitems : IsItems items)
    (hkeeps : ∀ key old new, prevItems.lookup key = some old → items.lookup key = some new →
      SameFields old.toMap new.toMap) {xs : JsonObject}
    (hxs : Json.Same (.object xs) (.object (toJsonFields prevItems))) {removed : List String}
    (hremoved : ∀ key, key ∈ removed ↔
      QVariantMap.has prevItems key = true ∧ items.lookup key = none) :
    Json.Same
      (.object (Json.mergeFields (xs.filter fun field => field.1 ∉ removed)
        (toJsonFields (diffItems prevItems items).1)))
      (.object (toJsonFields items)) := by
  rw [Json.same_iff_lookup]
  intro key
  have hfilter := JsonObject.lookup_filter (fun name => decide (name ∉ removed)) xs key
  have hget : ∀ o : JsonObject, o.get key = (o.lookup key).getD .null := fun _ => rfl
  rw [Json.lookup_mergeFields (by rw [keys_toJsonFields]; exact nodup_diffItems hitems _),
    lookup_toJsonFields, lookup_toJsonFields, lookup_diffItems hitems, hget, hfilter]
  have hxsKey := hxs.lookup key
  rw [lookup_toJsonFields] at hxsKey
  cases hitem : items.lookup key with
  | none =>
    refine .inl ⟨?_, rfl⟩
    dsimp only [Option.map_none]
    by_cases hmem : key ∈ removed
    · rw [if_neg (by simpa using hmem)]
    · rw [if_pos (by simpa using hmem)]
      have hnot : ¬ QVariantMap.has prevItems key = true := fun hhas =>
        hmem ((hremoved key).mpr ⟨hhas, hitem⟩)
      rw [QVariantMap.has, Option.not_isSome_iff_eq_none] at hnot
      rw [hnot] at hxsKey
      obtain ⟨hnone, _⟩ | ⟨_, _, _, hsome, _⟩ := hxsKey
      · exact hnone
      · cases hsome
  | some value =>
    obtain ⟨fields, rfl, hfields⟩ := hitems.lookup hitem
    have hkept : key ∉ removed := fun hmem => by
      have hnone := ((hremoved key).mp hmem).2
      rw [hitem] at hnone
      cases hnone
    refine .inr ?_
    rw [if_pos (by simpa using hkept)]
    cases hold : prevItems.lookup key with
    | none =>
      -- a new item is listed as a whole
      have hhas : ¬ QVariantMap.has prevItems key = true := by simp [QVariantMap.has, hold]
      rw [hold] at hxsKey
      obtain ⟨hnone, _⟩ | ⟨_, _, _, hsome, _⟩ := hxsKey
      · dsimp only
        rw [if_neg hhas, hnone]
        refine ⟨_, _, rfl, rfl, ?_⟩
        rw [Option.getD_none, toJson, Json.merge, ← toJson, same_plain_iff hfields]
        intro k
        rw [lookup_merge_plain hfields]
        exact Option.or_none
      · cases hsome
    | some oldValue =>
      obtain ⟨old, rfl, hplain⟩ := hprev.lookup hold
      have hhas : QVariantMap.has prevItems key = true := by simp [QVariantMap.has, hold]
      rw [hold] at hxsKey
      obtain ⟨_, hnone⟩ | ⟨x, y, hx, hy, hsame⟩ := hxsKey
      · cases hnone
      · cases hy
        obtain ⟨o, rfl⟩ := hsame.exists_object
        have hmerged := same_merge_item hplain hfields (hkeeps key _ _ hold hitem) hsame
        dsimp only
        rw [if_pos hhas, get_eq_of_lookup hold, hx, QVariant.toMap]
        by_cases hempty : (processMap old fields).isEmpty = true
        · rw [if_pos hempty]
          rw [isEmpty_iff.mp hempty] at hmerged
          exact ⟨_, _, rfl, rfl, hmerged⟩
        · rw [if_neg hempty]
          exact ⟨_, _, rfl, rfl, hmerged⟩

/-! ### Responses -/

/-- A response as the client sees it. -/
def response (syncData : QVariantMap) (id : ℤ) : JsonObject :=
  toJsonFields (QVariantMap.set syncData KEY_RESPONSE_ID (.scalar (.number id)))

theorem removed_ne_reserved (name : String) : name ++ KEY_SUFFIX_REMOVED ≠ KEY_RESPONSE_ID ∧
    name ++ KEY_SUFFIX_REMOVED ≠ KEY_FULL_UPDATE := by
  constructor
  · intro h
    have hlength := congrArg String.length h
    rw [String.length_append, show KEY_SUFFIX_REMOVED.length = 8 by decide,
      show KEY_RESPONSE_ID.length = 3 by decide] at hlength
    omega
  · intro h
    have hlast := congrArg (fun text => text.getLast?) (congrArg String.toList h)
    rw [String.toList_append, List.getLast?_append,
      show KEY_SUFFIX_REMOVED.toList.getLast? = some 'd' by decide,
      show KEY_FULL_UPDATE.toList.getLast? = some 'e' by decide, Option.some_or] at hlast
    exact absurd hlast (by decide)

theorem lookup_response (syncData : QVariantMap) (id : ℤ) (key : String) :
    (response syncData id).lookup key =
      if key = KEY_RESPONSE_ID then some (.number id) else (syncData.lookup key).map toJson := by
  rw [response, lookup_toJsonFields, QVariantMap.lookup_set]
  split_ifs <;> rfl

theorem apply_rid (client : PeersClient) (syncData : QVariantMap) {id : ℤ} (hpos : 0 < id)
    (hle : id ≤ 1000000) : (client.apply (response syncData id)).rid = id := by
  have hget : (response syncData id).get KEY_RESPONSE_ID = .number id := by
    rw [JsonObject.get, lookup_response, if_pos rfl]
    rfl
  unfold PeersClient.apply
  dsimp only
  rw [hget, Json.toInt, Rat.num_intCast, Rat.den_intCast, if_pos ⟨rfl, by omega, by omega⟩]

theorem lookup_fields (syncData : QVariantMap) (id : ℤ) (key : String) :
    (((response syncData id).drop KEY_RESPONSE_ID).drop KEY_FULL_UPDATE).lookup key =
      if key = KEY_RESPONSE_ID ∨ key = KEY_FULL_UPDATE then none
      else (syncData.lookup key).map toJson := by
  rw [JsonObject.lookup_drop, JsonObject.lookup_drop, lookup_response]
  by_cases hfull : key = KEY_FULL_UPDATE
  · rw [if_pos hfull, if_pos (.inr hfull)]
  · by_cases hrid : key = KEY_RESPONSE_ID
    · rw [if_neg hfull, if_pos hrid, if_pos (.inl hrid)]
    · rw [if_neg hfull, if_neg hrid, if_neg hrid, if_neg (by simp [hfull, hrid])]

theorem IsData.not_reserved (h : IsData name data) {value : QVariant}
    (hkey : data.lookup key = some value) :
    ¬ (key = KEY_RESPONSE_ID ∨ key = KEY_FULL_UPDATE) ∧ key ≠ name ++ KEY_SUFFIX_REMOVED := by
  have hfree : ∀ k ∈ [KEY_RESPONSE_ID, KEY_FULL_UPDATE, name ++ KEY_SUFFIX_REMOVED], key ≠ k := by
    rintro k hk rfl
    rw [h.reserved _ hk] at hkey
    cases hkey
  refine ⟨not_or.mpr ⟨hfree _ ?_, hfree _ ?_⟩, hfree _ ?_⟩ <;> simp

theorem same_apply_full (h : IsData name data) (client : PeersClient) (id : ℤ) :
    Json.Same (.object (client.apply (response
        (QVariantMap.set data KEY_FULL_UPDATE (.scalar (.bool true))) id)).data)
      (.object (toJsonFields data)) := by
  have hne : KEY_FULL_UPDATE ≠ KEY_RESPONSE_ID := by decide
  have hfull : ((response (QVariantMap.set data KEY_FULL_UPDATE (.scalar (.bool true))) id).get
      KEY_FULL_UPDATE).toBool = true := by
    rw [JsonObject.get, lookup_response, if_neg hne, QVariantMap.lookup_set, if_pos rfl]
    rfl
  unfold PeersClient.apply
  dsimp only
  rw [if_pos hfull]
  refine Json.same_object fun key path => ?_
  rw [Json.read_cons, Json.read_cons, lookup_fields, lookup_toJsonFields, QVariantMap.lookup_set]
  by_cases hreserved : key = KEY_RESPONSE_ID ∨ key = KEY_FULL_UPDATE
  · rw [if_pos hreserved, h.reserved key (by simp only [mem_cons]; tauto)]
    rfl
  · rw [if_neg hreserved, if_neg (not_or.mp hreserved).2]

theorem isRemoval_iff (h : IsData name data) {o : JsonObject}
    (ho : Json.Same (.object o) (.object (toJsonFields data))) (key : String) :
    isRemoval o key = true ↔ key = name ++ KEY_SUFFIX_REMOVED := by
  have hobject : ∀ k, (o.get k).isObject = true ↔ k = name := by
    intro k
    have hk := ho.lookup k
    rw [lookup_toJsonFields] at hk
    by_cases hname : k = name
    · rw [hname, h.hash] at hk
      obtain ⟨_, hnone⟩ | ⟨x, y, hx, hy, hsame⟩ := hk
      · cases hnone
      · cases hy
        obtain ⟨fields, rfl⟩ := hsame.exists_object
        simp [JsonObject.get, hname, hx, Json.isObject]
    · refine ⟨fun hobj => ?_, fun heq => absurd heq hname⟩
      obtain ⟨hnone, _⟩ | ⟨x, y, hx, hy, hsame⟩ := hk
      · rw [JsonObject.get, hnone] at hobj
        cases hobj
      · obtain ⟨value, hvalue, rfl⟩ := Option.map_eq_some_iff.mp hy
        obtain ⟨scalar, hscalar⟩ := h.scalar _ (QVariantMap.mem_of_lookup hvalue) hname
        obtain rfl : value = .scalar scalar := hscalar
        rw [JsonObject.get, hx, Option.getD_some,
          hsame.eq_of_not_object (scalarJson_not_object scalar)] at hobj
        rw [toJson, scalarJson_not_object] at hobj
        cases hobj
  rw [isRemoval, any_eq_true]
  constructor
  · rintro ⟨k, _, hk⟩
    rw [Bool.and_eq_true, hobject, beq_iff_eq] at hk
    rw [hk.2, hk.1]
  · rintro rfl
    have hget := (hobject name).mpr rfl
    refine ⟨name, ?_, by rw [hget]; simp⟩
    by_contra hnot
    have hnone : o.lookup name = none := by
      rw [lookup_eq_none_iff]
      intro field hfield
      have hmem : field.1 ∈ o.keys := mem_map_of_mem hfield
      have hne : name ≠ field.1 := fun heq => hnot (heq ▸ hmem)
      simpa using hne
    rw [JsonObject.get, hnone] at hget
    cases hget

theorem IsData.lookup_cases (h : IsData name data) (key : String) :
    data.lookup key = none ∨ key = name ∨ ∃ value, data.lookup key = some (.scalar value) := by
  cases hlook : data.lookup key with
  | none => exact .inl rfl
  | some value =>
    by_cases hname : key = name
    · exact .inr (.inl hname)
    · obtain ⟨scalar, hscalar⟩ := h.scalar _ (QVariantMap.mem_of_lookup hlook) hname
      exact .inr (.inr ⟨scalar, congrArg some hscalar⟩)

theorem deleteKeys_of_not_object {value : Json} (h : value.isObject = false) (keys : List String) :
    deleteKeys keys value = value := by
  cases value with
  | object fields => cases h
  | _ => rfl

theorem same_apply_diff (hprev : IsData name prev) (hdata : IsData name data)
    (hkeeps : Keeps name prev data) {client : PeersClient}
    (hclient : Json.Same (.object client.data) (.object (toJsonFields prev))) (rid : QVariant)
    (id : ℤ) :
    Json.Same (.object (client.apply (response
        (processMap (QVariantMap.set prev KEY_RESPONSE_ID rid) data) id)).data)
      (.object (toJsonFields data)) := by
  obtain ⟨hnameFree, hnameRemoved⟩ := hdata.not_reserved hdata.hash
  obtain ⟨hremovedRid, hremovedFull⟩ := removed_ne_reserved name
  have hitemsOf : itemsOf name (QVariantMap.set prev KEY_RESPONSE_ID rid) = itemsOf name prev := by
    rw [itemsOf, get_set, if_neg (not_or.mp hnameFree).1, itemsOf]
  have hdiff := lookup_processMap_data hdata (QVariantMap.set prev KEY_RESPONSE_ID rid)
  rw [hitemsOf] at hdiff
  set d := diffItems (itemsOf name prev) (itemsOf name data) with hd
  set syncData := processMap (QVariantMap.set prev KEY_RESPONSE_ID rid) data with hsync
  have hnodup :
      (((response syncData id).drop KEY_RESPONSE_ID).drop KEY_FULL_UPDATE).keys.Nodup := by
    have hkeys : (response syncData id).keys.Nodup := by
      rw [response, keys_toJsonFields]
      exact nodup_set (nodup_processMap _ data) _ _
    exact hkeys.sublist ((filter_sublist.trans filter_sublist).map _)
  have hpartial : ¬ ((response syncData id).get KEY_FULL_UPDATE).toBool = true := by
    have hfree := hdata.reserved KEY_FULL_UPDATE (by simp)
    have hne : ¬ KEY_FULL_UPDATE = name := fun h => hnameFree (.inr h.symm)
    rw [JsonObject.get, lookup_response, if_neg (by decide), hdiff, hfree,
      if_neg (fun h => hremovedFull h.1.symm), if_neg (fun h => hne h.1)]
    exact Bool.false_ne_true
  have hremovedKeys : removedKeys (response syncData id) name = d.2 := by
    have hlook : syncData.lookup (name ++ KEY_SUFFIX_REMOVED) =
        if d.2 ≠ [] then some (.strings d.2) else none := by
      rw [hdiff, hdata.reserved _ (by simp)]
      simp [removed_ne name]
    rw [removedKeys, JsonObject.get, lookup_response, if_neg hremovedRid, hlook]
    split_ifs with hempty
    · simp [toJson, Json.toArray, Function.comp_def, Json.toStr]
    · rw [not_not.mp hempty]
      rfl
  have hremoval := isRemoval_iff hprev hclient
  have hlisted : ∀ key, List.lookup key ((((response syncData id).drop KEY_RESPONSE_ID).drop
      KEY_FULL_UPDATE).filter fun field => !isRemoval client.data field.1) =
      if key = name ++ KEY_SUFFIX_REMOVED ∨ key = KEY_RESPONSE_ID ∨ key = KEY_FULL_UPDATE then none
      else (syncData.lookup key).map toJson := by
    intro key
    have hfilter := JsonObject.lookup_filter (fun key => !isRemoval client.data key)
      (((response syncData id).drop KEY_RESPONSE_ID).drop KEY_FULL_UPDATE) key
    rw [hfilter, lookup_fields]
    by_cases hkey : key = name ++ KEY_SUFFIX_REMOVED
    · rw [(hremoval key).mpr hkey]
      simp [hkey]
    · have hnot : isRemoval client.data key = false := by
        rw [Bool.eq_false_iff, ne_eq, hremoval]
        exact hkey
      rw [hnot, Bool.not_false, if_pos rfl]
      simp only [hkey, false_or]
  have hkept := JsonObject.lookup_mapValues
    (fun key => deleteKeys (removedKeys (response syncData id) key)) client.data
  unfold PeersClient.apply
  dsimp only at hkept ⊢
  rw [if_neg hpartial, Json.same_iff_lookup]
  intro key
  rw [Json.lookup_mergeFields (hnodup.sublist (filter_sublist.map _)), lookup_toJsonFields,
    hlisted, JsonObject.get, hkept]
  have hkey := hclient.lookup key
  rw [lookup_toJsonFields] at hkey
  rcases hdata.lookup_cases key with hnone | hname | ⟨value, hvalue⟩
  · -- the key is in neither map
    rw [hkeeps.fields.lookup_eq_none.mpr hnone] at hkey
    obtain ⟨hclientNone, _⟩ | ⟨_, _, _, hsome, _⟩ := hkey
    · refine .inl ⟨?_, by rw [hnone]; rfl⟩
      have hne : key ≠ name := by
        rintro rfl
        rw [hdata.hash] at hnone
        cases hnone
      rw [hdiff, hnone, hclientNone]
      by_cases hreserved : key = name ++ KEY_SUFFIX_REMOVED ∨ key = KEY_RESPONSE_ID ∨
          key = KEY_FULL_UPDATE
      · rw [if_pos hreserved]
        rfl
      · rw [if_neg hreserved, if_neg (fun h => hreserved (.inl h.1)), if_neg (fun h => hne h.1)]
        rfl
    · cases hsome
  · -- the hash
    rw [hname, hprev.hash] at hkey
    obtain ⟨_, hnone⟩ | ⟨x, y, hx, hy, hsame⟩ := hkey
    · cases hnone
    · cases hy
      obtain ⟨xs, rfl⟩ := hsame.exists_object
      have hmerged := same_items hprev.items hdata.items hkeeps.items hsame
        (mem_removed hdata.items (itemsOf name prev))
      refine .inr ?_
      have hnot : ¬ (name = name ++ KEY_SUFFIX_REMOVED ∨ name = KEY_RESPONSE_ID ∨
          name = KEY_FULL_UPDATE) := not_or.mpr ⟨hnameRemoved, hnameFree⟩
      rw [hname, if_neg hnot, hdiff, if_neg (fun h => hnameRemoved h.1), hdata.hash, hx,
        Option.map_some, Option.map_some, hremovedKeys, toJson]
      by_cases hempty : d.1 = []
      · rw [if_neg (fun h => h.2 hempty)]
        rw [← hd, hempty] at hmerged
        exact ⟨_, _, rfl, rfl, hmerged⟩
      · rw [if_pos ⟨rfl, hempty⟩]
        exact ⟨_, _, rfl, rfl, hmerged⟩
  · -- a simple value
    obtain ⟨hfree, hfreeRemoved⟩ := hdata.not_reserved hvalue
    have hne : key ≠ name := by
      rintro rfl
      rw [hdata.hash] at hvalue
      cases hvalue
    rw [if_neg (not_or.mpr ⟨hfreeRemoved, hfree⟩), hdiff, if_neg (fun h => hfreeRemoved h.1),
      if_neg (fun h => hne h.1), hvalue, get_set, if_neg (not_or.mp hfree).1]
    refine .inr ?_
    dsimp only
    by_cases hdiffers : (QVariantMap.get prev key).differs value = true
    · rw [if_pos hdiffers]
      exact ⟨_, _, rfl, rfl, fun path => by
        rw [toJson, Json.merge_of_not_object (scalarJson_not_object value)]⟩
    · -- the client has the field, since both maps have it
      rw [if_neg hdiffers]
      rw [differs_iff, not_not] at hdiffers
      cases hold : prev.lookup key with
      | none => rw [hkeeps.fields.lookup_eq_none.mp hold] at hvalue; cases hvalue
      | some old =>
        rw [get_eq_of_lookup hold] at hdiffers
        rw [hold, hdiffers] at hkey
        obtain ⟨_, hnone⟩ | ⟨x, y, hx, hy, hsame⟩ := hkey
        · cases hnone
        · cases hy
          have hscalar := scalarJson_not_object value
          rw [hx, hsame.eq_of_not_object hscalar]
          refine ⟨_, _, rfl, rfl, fun path => ?_⟩
          rw [toJson, deleteKeys_of_not_object hscalar]

/-! ### Runs -/

/-- The requests of a run: data maps that keep the fields of the one that the client holds, and
fewer than a million responses lost in a row. -/
def PeersAllowed (name : String) (s : PeersState) (request : PeersRequest) : Prop :=
  IsData name request.data ∧ (∀ prev, s.applied = some prev → Keeps name prev request.data) ∧
    (request.lost = true → s.lost + 1 < 1000000)

def responseId (m : QVariantMap) : ℤ := toInt (QVariantMap.get m KEY_RESPONSE_ID)

def numbered (data : QVariantMap) (id : ℤ) : QVariantMap :=
  QVariantMap.set data KEY_RESPONSE_ID (.scalar (.number id))

theorem responseId_numbered (data : QVariantMap) (id : ℤ) : responseId (numbered data id) = id := by
  rw [responseId, numbered, get_set, if_pos rfl]
  exact Rat.num_intCast id

/-- What the controller knows of the client: the data that the client holds, under the number it
sends. -/
structure PeersInv (name : String) (s : PeersState) : Prop where
  fresh : s.applied = none → s.client.rid = 0
  lost : s.lost < 1000000
  rid : ∀ prev, s.applied = some prev → 0 < s.client.rid ∧ s.client.rid ≤ 1000000
  data : ∀ prev, s.applied = some prev → IsData name prev
  same : ∀ prev, s.applied = some prev →
    Json.Same (.object s.client.data) (.object (toJsonFields prev))
  lastId : ∀ prev, s.applied = some prev →
    responseId s.lastData = (s.client.rid - 1 + s.lost) % 1000000 + 1
  last : ∀ prev, s.applied = some prev → s.lost = 0 → s.lastData = numbered prev s.client.rid
  accepted : ∀ prev, s.applied = some prev → 0 < s.lost →
    s.lastAcceptedData = numbered prev s.client.rid

theorem generateSyncData_full (data lastAcceptedData lastData : QVariantMap) :
    generateSyncData 0 data lastAcceptedData lastData =
      (numbered (QVariantMap.set data KEY_FULL_UPDATE (.scalar (.bool true))) 1, [],
        numbered data 1) := by
  simp [generateSyncData, numbered]

variable {s : PeersState}

/-- The data with the number that the client sends are those it holds, and the response is the
difference to them. -/
theorem generateSyncData_diff (h : PeersInv name s) (hprev : s.applied = some prev)
    (data : QVariantMap) :
    generateSyncData s.client.rid data s.lastAcceptedData s.lastData =
      (numbered (processMap (numbered prev s.client.rid) data)
        (responseId s.lastData % 1000000 + 1), numbered prev s.client.rid,
        numbered data (responseId s.lastData % 1000000 + 1)) := by
  obtain ⟨hpos, hle⟩ := h.rid prev hprev
  have hlost := h.lost
  have hlastId := h.lastId prev hprev
  have hlastPos : 0 < responseId s.lastData := by omega
  have haccepted : (if 0 < responseId s.lastData ∧ responseId s.lastData = s.client.rid then
      s.lastData else s.lastAcceptedData) = numbered prev s.client.rid := by
    by_cases hzero : s.lost = 0
    · rw [if_pos (by omega), h.last prev hprev hzero]
    · rw [if_neg (by omega), h.accepted prev hprev (by omega)]
  unfold generateSyncData
  simp only [hpos, if_true]
  rw [show toInt (QVariantMap.get s.lastData KEY_RESPONSE_ID) = responseId s.lastData from rfl]
  simp only [haccepted]
  have hid : toInt (QVariantMap.get (numbered prev s.client.rid) KEY_RESPONSE_ID) = s.client.rid :=
    responseId_numbered prev s.client.rid
  simp only [hid, hlastPos, and_self, not_true_eq_false, if_false]
  rfl

theorem inv_arrived (hdata : IsData name data) {lastAcceptedData : QVariantMap} {id : ℤ}
    (hpos : 0 < id) (hle : id ≤ 1000000)
    (hgenerate : generateSyncData s.client.rid data s.lastAcceptedData s.lastData =
      (numbered syncData id, lastAcceptedData, numbered data id))
    (hsame : Json.Same (.object (s.client.apply (response syncData id)).data)
      (.object (toJsonFields data))) : PeersInv name (peersStep s ⟨data, false⟩) := by
  have hstep : peersStep s ⟨data, false⟩ =
      { lastAcceptedData := lastAcceptedData
        lastData := numbered data id
        client := s.client.apply (response syncData id)
        lost := 0
        applied := some data } := by
    unfold peersStep
    rw [hgenerate]
    rfl
  have hrid := apply_rid s.client syncData hpos hle
  rw [hstep]
  refine ⟨nofun, (by decide : 0 < 1000000), ?_, ?_, ?_, ?_, ?_, ?_⟩
  · intro prev _
    dsimp only
    rw [hrid]
    exact ⟨hpos, hle⟩
  · rintro prev ⟨⟩
    exact hdata
  · rintro prev ⟨⟩
    exact hsame
  · intro prev _
    dsimp only
    rw [hrid, responseId_numbered]
    omega
  · rintro prev ⟨⟩ _
    dsimp only
    rw [hrid]
  · intro prev _ h
    exact absurd h (Nat.lt_irrefl 0)

/-- What a client does with a response that arrives. -/
theorem PeersInv.arrived (h : PeersInv name s) (hdata : IsData name data)
    (hkeeps : ∀ prev, s.applied = some prev → Keeps name prev data) :
    PeersInv name (peersStep s ⟨data, false⟩) := by
  cases happlied : s.applied with
  | none =>
    have hgenerate := generateSyncData_full data s.lastAcceptedData s.lastData
    have hrid := h.fresh happlied
    exact inv_arrived hdata (by decide) (by decide) (hrid ▸ hgenerate)
      (same_apply_full hdata s.client 1)
  | some prev =>
    have hlastId := h.lastId prev happlied
    refine inv_arrived hdata ?_ ?_ (generateSyncData_diff h happlied data) ?_
    · omega
    · omega
    · exact same_apply_diff (h.data prev happlied) hdata (hkeeps prev happlied)
        (h.same prev happlied) _ _

theorem PeersInv.lostResponse (h : PeersInv name s) (data : QVariantMap)
    (hlost : s.lost + 1 < 1000000) : PeersInv name (peersStep s ⟨data, true⟩) := by
  cases happlied : s.applied with
  | none =>
    have hnone : (peersStep s ⟨data, true⟩).applied = none := happlied
    refine ⟨fun _ => h.fresh happlied, hlost, ?_, ?_, ?_, ?_, ?_, ?_⟩ <;>
      · intro prev hprev
        rw [hnone] at hprev
        cases hprev
  | some prev =>
    have hlastId := h.lastId prev happlied
    have hstep : peersStep s ⟨data, true⟩ = { s with
        lastAcceptedData := numbered prev s.client.rid
        lastData := numbered data (responseId s.lastData % 1000000 + 1)
        lost := s.lost + 1 } := by
      unfold peersStep
      dsimp only
      rw [generateSyncData_diff h happlied data]
      rfl
    rw [hstep]
    refine ⟨h.fresh, hlost, h.rid, h.data, h.same, ?_, ?_, ?_⟩
    · intro prev' _
      dsimp only
      rw [responseId_numbered, hlastId]
      push_cast
      omega
    · intro prev' _ hzero
      exact absurd hzero (Nat.succ_ne_zero _)
    · intro prev' hprev' _
      dsimp only at hprev' ⊢
      rw [happlied] at hprev'
      rw [Option.some.inj hprev']

theorem peersInv_reachable (h : peersSystem.Reachable (PeersAllowed name) s) : PeersInv name s := by
  refine h.invariant ?_ ?_
  · rintro s rfl
    exact ⟨fun _ => rfl, by decide, nofun, nofun, nofun, nofun, nofun, nofun⟩
  · rintro s ⟨data, lost⟩ s' hinv ⟨hdata, hkeeps, hlost⟩ hstep
    cases hstep
    cases lost with
    | false => exact hinv.arrived hdata hkeeps
    | true => exact hinv.lostResponse data (hlost rfl)

/-- A client that applies a response holds the data of that response. -/
theorem peers_reconstructed {s : PeersState} (h : peersSystem.Reachable (PeersAllowed name) s)
    {request : PeersRequest} (hallowed : PeersAllowed name s request)
    (hlost : request.lost = false) :
    Json.Same (.object (peersStep s request).client.data)
      (.object (toJsonFields request.data)) := by
  obtain ⟨data, lost⟩ := request
  obtain rfl : lost = false := hlost
  exact ((peersInv_reachable h).arrived hallowed.1 hallowed.2.1).same data rfl

/-! ### Fields that go away -/

def peersData (fields : Option (List (String × Scalar))) : QVariantMap :=
  [("peers", .hash ((fields.toList.map fun fields =>
    ("peer", .map (fields.map fun field => (field.1, .scalar field.2))))))]

theorem isData_peersData (fields : Option (List (String × Scalar)))
    (hnodup : ∀ f, fields = some f → (f.map Prod.fst).Nodup) :
    IsData "peers" (peersData fields) where
  nodup := nodup_singleton _
  hash := rfl
  items := by
    cases fields with
    | none => exact ⟨nodup_nil, fun _ h => (not_mem_nil h).elim⟩
    | some fields =>
      refine ⟨nodup_singleton _, fun item hitem => ?_⟩
      obtain rfl := mem_singleton.mp hitem
      refine ⟨_, rfl, ?_, fun field hfield => ?_⟩
      · simpa [Function.comp_def] using hnodup fields rfl
      · obtain ⟨f, _, rfl⟩ := mem_map.mp hfield
        exact ⟨_, rfl⟩
  scalar field hfield hne := absurd (congrArg Prod.fst (mem_singleton.mp hfield)) hne
  reserved := by
    rw [forall_mem_cons, forall_mem_cons, forall_mem_singleton]
    exact ⟨rfl, rfl, rfl⟩

theorem sameFields_peersData (old new : Option (List (String × Scalar))) :
    SameFields (peersData old) (peersData new) := by
  intro key
  rw [peersData, peersData, lookup_cons, lookup_cons]
  cases key == "peers" <;> trivial

/-- A peer that changes a field to another value of its kind, or empties it. -/
theorem keeps_peersData (key : String) {old new : Scalar} (hkind : SameKind old new) :
    Keeps "peers" (peersData (some [(key, old)])) (peersData (some [(key, new)])) := by
  refine ⟨sameFields_peersData _ _, fun name o n ho hn => ?_⟩
  have hpeer : ∀ {fields : List (String × Scalar)} {value : QVariant},
      (itemsOf "peers" (peersData (some fields))).lookup name = some value →
        value = .map (fields.map fun field => (field.1, .scalar field.2)) := by
    intro fields value h
    exact (Prod.mk.inj (mem_singleton.mp (QVariantMap.mem_of_lookup h))).2
  rw [hpeer ho, hpeer hn]
  intro field
  simp only [QVariant.toMap, map_cons, map_nil, lookup_cons]
  cases field == key with
  | true => exact hkind
  | false => trivial

theorem peers_reconstructed_two :
    Json.Same (.object (peersStep
        (peersStep {} ⟨peersData (some [("country", .string "a")]), false⟩)
        ⟨peersData (some [("country", .invalid)]), false⟩).client.data)
      (.object (toJsonFields (peersData (some [("country", .invalid)])))) := by
  have hdata : ∀ value, IsData "peers" (peersData (some [("country", value)])) := by
    intro value
    refine isData_peersData _ fun fields hfields => ?_
    cases hfields
    exact nodup_singleton _
  have hfirst : PeersAllowed "peers" {} ⟨peersData (some [("country", .string "a")]), false⟩ :=
    ⟨hdata _, fun _ h => absurd h nofun, fun h => Bool.noConfusion h⟩
  refine peers_reconstructed ((System.Reachable.start rfl).next hfirst rfl)
    ⟨hdata _, ?_, fun h => Bool.noConfusion h⟩ rfl
  rintro prev ⟨⟩
  exact keeps_peersData "country" trivial

/-- A field that is not in the new map stays: that of a peer which is gone in a lost response and
comes back without it, and that of the map itself. -/
theorem missing_field_kept :
    (Keeps "peers" (peersData (some [("ip", .string "a"), ("files", .string "b")]))
        (peersData none) ∧
      Keeps "peers" (peersData none) (peersData (some [("ip", .string "a")])) ∧
      ∃ s, peersSystem.runAll {}
          [⟨peersData (some [("ip", .string "a"), ("files", .string "b")]), false⟩,
            ⟨peersData none, true⟩, ⟨peersData (some [("ip", .string "a")]), false⟩] = some s ∧
        ¬ Json.Same (.object s.client.data)
          (.object (toJsonFields (peersData (some [("ip", .string "a")]))))) ∧
    ∃ s, peersSystem.runAll {} [⟨("show_flags", .scalar (.bool true)) :: peersData none, false⟩,
        ⟨peersData none, false⟩] = some s ∧
      ¬ Json.Same (.object s.client.data) (.object (toJsonFields (peersData none))) := by
  refine ⟨⟨⟨sameFields_peersData _ _, fun key old new _ h => nomatch h⟩,
    ⟨sameFields_peersData _ _, fun key old new h _ => nomatch h⟩, _, rfl, fun h => ?_⟩,
    _, rfl, fun h => ?_⟩
  · have hread := congrArg Option.isSome (h ["peers", "peer", "files"])
    revert hread
    decide
  · have hread := congrArg Option.isSome (h ["show_flags"])
    revert hread
    decide

/-! ### Data that did not change -/

theorem eq_nil_of_lookup (h : ∀ key, m.lookup key = none) : m = [] := by
  cases m with
  | nil => rfl
  | cons field m => simpa [lookup_cons] using h field.1

theorem processMap_same (hdata : Plain data) (hprev : ∀ key, (data.lookup key).isSome →
    QVariantMap.get prev key = QVariantMap.get data key) : processMap prev data = [] := by
  refine eq_nil_of_lookup fun key => ?_
  rw [lookup_processMap hdata]
  split
  · next value hvalue =>
    rw [hprev key (hvalue ▸ rfl), get_eq_of_lookup hvalue, if_neg (by simp [QVariant.differs])]
  · rfl

theorem diffItems_same (h : IsItems items) : diffItems items items = ([], []) := by
  refine Prod.ext (eq_nil_of_lookup fun key => ?_) (eq_nil_iff_forall_not_mem.mpr fun key hmem => ?_)
  · rw [lookup_diffItems h]
    split
    · next fields hfields =>
      obtain ⟨_, hmap, hplain⟩ := h.lookup hfields
      cases hmap
      rw [if_pos (by rw [QVariantMap.has, hfields]; rfl), get_eq_of_lookup hfields, QVariant.toMap,
        processMap_same hplain fun _ _ => rfl]
      rfl
    · rfl
  · obtain ⟨hhas, hnone⟩ := (mem_removed h items key).mp hmem
    rw [QVariantMap.has, hnone] at hhas
    cases hhas

end Qbutt.Sync
