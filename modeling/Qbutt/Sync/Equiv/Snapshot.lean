import Qbutt.Sync.Equiv.Notes

/-!
# The snapshot after a request

What `generateMaindataSyncData` does to the snapshot and to the waiting differences at each key
(`lookup_categoriesAfter`, `lookup_torrentsAfter`, `lookup_putTrackers`), and what follows for the
invariant: after a request nothing is noted and the snapshot is the session (`Tracked.applyNotes`,
`snapshot_is_session`), as long as no tag that the snapshot still lists is added
(`NoTagReturns`).  A tag that is removed and added again between two requests ends up in the
snapshot twice (`snapshot_is_not_session`).
-/

namespace Qbutt.Sync

open List

/-! ### Shapes -/

/-- A plain item with the given keys. -/
structure Shape (keys : List String) (m : QVariantMap) : Prop where
  plain : Plain m
  lookup_iff : ∀ key, m.lookup key = none ↔ key ∉ keys

variable {keys : List String} {m data : QVariantMap}

theorem Shape.within {m' : QVariantMap} (h : Shape keys m) (h' : Shape keys m') :
    Within m (QVariantMap.get m') := by
  intro key hkey
  exact get_eq_of_none ((h'.lookup_iff key).mpr ((h.lookup_iff key).mp hkey))

theorem Shape.set (h : Shape keys m) (key : String) (value : Scalar) :
    Shape (key :: keys) (QVariantMap.set m key (.scalar value)) where
  plain := h.plain.set key value
  lookup_iff key' := by
    rw [QVariantMap.lookup_set, mem_cons, not_or]
    split_ifs with heq
    · simp [heq]
    · rw [h.lookup_iff]
      tauto

/-- Setting a field that the item has keeps the shape. -/
theorem Shape.replace (h : Shape keys m) {key : String} (hkey : key ∈ keys) (value : Scalar) :
    Shape keys (QVariantMap.set m key (.scalar value)) where
  plain := h.plain.set key value
  lookup_iff key' := by
    rw [(h.set key value).lookup_iff, mem_cons, not_or]
    constructor
    · exact And.right
    · intro hnot
      exact ⟨fun heq => hnot (heq ▸ hkey), hnot⟩

theorem Shape.drop (h : Shape keys m) (key : String) :
    Shape (keys.filter (· ≠ key)) (QVariantMap.drop m key) where
  plain := h.plain.drop key
  lookup_iff key' := by
    rw [QVariantMap.lookup_drop, mem_filter]
    split_ifs with heq
    · simp [heq]
    · rw [h.lookup_iff]
      simp [heq]

theorem lookup_map_scalar (keys : List String) (value : String → Scalar) (key : String) :
    (keys.map fun key => (key, QVariant.scalar (value key))).lookup key =
      if key ∈ keys then some (.scalar (value key)) else none := by
  induction keys with
  | nil => rfl
  | cons k keys ih =>
    rw [map_cons, lookup_cons, ih]
    by_cases heq : key = k
    · simp [heq]
    · have hne : (key == k) = false := by simpa using heq
      simp [hne, heq]

theorem shape_map (hnodup : keys.Nodup) (value : String → Scalar) :
    Shape keys (keys.map fun key => (key, QVariant.scalar (value key))) where
  plain := {
    nodup := by
      rw [map_map]
      show (keys.map id).Nodup
      rwa [map_id]
    scalar := by
      intro field hfield
      obtain ⟨key, -, rfl⟩ := mem_map.mp hfield
      exact ⟨_, rfl⟩ }
  lookup_iff key := by
    rw [lookup_map_scalar]
    split_ifs with h <;> simp [h]

theorem Shape.cons (h : Shape keys m) {key : String} (hkey : key ∉ keys) (value : Scalar) :
    Shape (key :: keys) ((key, .scalar value) :: m) where
  plain := {
    nodup := by
      refine nodup_cons.mpr ⟨fun hmem => ?_, h.plain.nodup⟩
      obtain ⟨field, hfield, heq⟩ := mem_map.mp hmem
      have hnone := (h.lookup_iff key).mpr hkey
      rw [lookup_eq_none_iff] at hnone
      simpa [heq] using hnone field hfield
    scalar := by
      intro field hfield
      rcases mem_cons.mp hfield with rfl | hfield
      · exact ⟨value, rfl⟩
      · exact h.plain.scalar field hfield }
  lookup_iff key' := by
    rw [lookup_cons, mem_cons, not_or]
    by_cases heq : key' = key
    · simp [heq]
    · have hne : (key' == key) = false := by simpa using heq
      rw [hne]
      simp [heq, h.lookup_iff]

theorem shape_nil : Shape [] [] := ⟨plain_nil, fun key => by simp⟩

def categoryKeys : List String :=
  "name" :: "savePath" :: ["save_path", "download_path", "ratio_limit", "seeding_time_limit",
    "inactive_seeding_time_limit", "share_limit_action"].filter (· ≠ "save_path")

theorem shape_serializeCategory (name : String) (options : CategoryOptions) :
    Shape categoryKeys (serializeCategory name options) := by
  have hbase : Shape ["save_path", "download_path", "ratio_limit", "seeding_time_limit",
      "inactive_seeding_time_limit", "share_limit_action"] options.toJSON := by
    unfold CategoryOptions.toJSON
    refine Shape.cons (.cons (.cons (.cons (.cons (.cons shape_nil ?_ _) ?_ _) ?_ _) ?_ _) ?_ _) ?_ _
      <;> decide
  have hsave : QVariantMap.get options.toJSON "save_path" = .scalar (.string options.savePath) := rfl
  unfold serializeCategory
  simp only [hsave]
  exact ((hbase.drop "save_path").set "savePath" (.string options.savePath)).set "name"
    (.string name)

/-- The keys of a torrent in the main data. -/
def torrentSchema : List String :=
  KEY_TORRENT_HAS_OTHER_ANNOUNCE_ERROR :: KEY_TORRENT_HAS_TRACKER_ERROR ::
    KEY_TORRENT_HAS_TRACKER_WARNING ::
    (KEY_TORRENT_ID :: KEY_TORRENT_NAME :: KEY_TORRENT_TRACKERS_COUNT :: torrentKeys).filter
      (· ≠ KEY_TORRENT_ID)

theorem shape_serialize (torrent : Torrent) :
    Shape (KEY_TORRENT_ID :: KEY_TORRENT_NAME :: KEY_TORRENT_TRACKERS_COUNT :: torrentKeys)
      (serialize torrent) := by
  unfold serialize
  refine Shape.cons (.cons (.cons (shape_map ?_ _) ?_ _) ?_ _) ?_ _ <;> decide

theorem Shape.setAnnounceStats (h : Shape keys m) (warning error other : Scalar) :
    Shape (KEY_TORRENT_HAS_OTHER_ANNOUNCE_ERROR :: KEY_TORRENT_HAS_TRACKER_ERROR ::
        KEY_TORRENT_HAS_TRACKER_WARNING :: keys)
      (setAnnounceStats m (.scalar warning) (.scalar error) (.scalar other)) :=
  ((h.set _ warning).set _ error).set _ other

/-- What a plain item reads is simple. -/
theorem Plain.get_scalar (h : Plain m) (key : String) :
    ∃ value, QVariantMap.get m key = .scalar value := by
  cases hlook : m.lookup key with
  | none => exact ⟨.invalid, get_eq_of_none hlook⟩
  | some value =>
    obtain ⟨scalar, hscalar⟩ := h.scalar _ (QVariantMap.mem_of_lookup hlook)
    exact ⟨scalar, (get_eq_of_lookup hlook).trans hscalar⟩

theorem shape_serializeUpdated (torrent : Torrent) {torrentSnapshot : QVariantMap}
    (h : Plain torrentSnapshot) (announced : Bool) :
    Shape torrentSchema (serializeUpdated torrent torrentSnapshot announced) := by
  have hbase := (shape_serialize torrent).drop KEY_TORRENT_ID
  unfold serializeUpdated
  simp only
  split_ifs
  · exact hbase.setAnnounceStats _ _ _
  · obtain ⟨warning, hwarning⟩ := h.get_scalar KEY_TORRENT_HAS_TRACKER_WARNING
    obtain ⟨error, herror⟩ := h.get_scalar KEY_TORRENT_HAS_TRACKER_ERROR
    obtain ⟨other, hother⟩ := h.get_scalar KEY_TORRENT_HAS_OTHER_ANNOUNCE_ERROR
    rw [hwarning, herror, hother]
    exact hbase.setAnnounceStats _ _ _

theorem shape_addAnnounceStats (h : Shape torrentSchema m) (torrent : Torrent) :
    Shape torrentSchema (addAnnounceStats m torrent) := by
  unfold addAnnounceStats Qbutt.Sync.setAnnounceStats
  simp only
  refine Shape.replace (.replace (.replace h ?_ _) ?_ _) ?_ _ <;> decide

def serverKeys : List String :=
  "refresh_interval" :: "use_alt_speed_limits" :: "queueing" :: "free_space_on_disk" :: transferKeys

theorem shape_makeServerState (session : Session) (freeDiskSpace : ℤ) :
    Shape serverKeys (makeServerState session freeDiskSpace) := by
  unfold makeServerState getTransferInfo
  exact ((((shape_map (by decide) session.transfer).set _ _).set _ _).set _ _).set _ _

/-! ### What a request does at one key -/

theorem processMap_nil_ne (hdata : Plain data) {key : String} {value : Scalar}
    (hlook : data.lookup key = some (.scalar value)) (hvalue : value ≠ .invalid) :
    processMap [] data ≠ [] := by
  intro hnil
  have hlookup := lookup_processMap hdata [] key
  have hdiff : (QVariantMap.get [] key).differs value = true := by
    rw [differs_iff]
    intro heq
    exact hvalue (QVariant.scalar.inj heq).symm
  rw [hnil, hlook] at hlookup
  simp only [hdiff, if_true] at hlookup
  cases hlookup

/-- An item that does not differ from its snapshot reads the same. -/
theorem get_eq_of_processMap_nil {prev : QVariantMap} (hdata : Plain data)
    (hwithin : Within data (QVariantMap.get prev)) (h : processMap prev data = []) :
    QVariantMap.get prev = QVariantMap.get data := by
  funext key
  rcases get_of_not_listed hdata prev key (by rw [h]; rfl) with heq | hnone
  · exact heq.symm
  · rw [get_eq_of_none hnone, hwithin key hnone]

/-- The snapshot and the waiting difference of one item. -/
abbrev look (key : String) (tables : Table String QVariantMap × Table String QVariantMap) :
    Option QVariantMap × Option QVariantMap :=
  (tables.1.lookup key, tables.2.lookup key)

/-- What putting an item makes of its snapshot and its waiting difference. -/
def putAt (data : QVariantMap) (at_ : Option QVariantMap × Option QVariantMap) :
    Option QVariantMap × Option QVariantMap :=
  let prev := at_.1.getD []
  let difference := processMap prev data
  if difference.isEmpty then (some prev, at_.2) else (some data, some difference)

theorem look_putDifference (tables : Table String QVariantMap × Table String QVariantMap)
    (key : String) (data : QVariantMap) (key' : String) :
    look key' (putDifference tables key data) =
      if key' = key then putAt data (look key tables) else look key' tables := by
  unfold putDifference putAt look
  by_cases heq : key' = key
  · subst heq
    simp only [if_true]
    split_ifs
    · simp [AList.lookup_insert]
    · simp [AList.lookup_insert]
  · simp only [heq, if_false]
    split_ifs
    · simp [Table.lookup_insert_eq, heq]
    · simp [Table.lookup_insert_eq, heq]

namespace SyncController

variable (c : SyncController) (session : Session)

def categoryData (categoryName : String) : Option QVariantMap :=
  if categoryName ∈ c.updatedCategories then
    some (serializeCategory categoryName ((session.categories.lookup categoryName).getD {}))
  else none

def torrentData (torrentID : TorrentID) : Option QVariantMap :=
  (session.torrents.lookup torrentID).bind fun torrent =>
    let torrentSnapshot := (c.maindataSnapshot.torrents.lookup torrentID).getD []
    if torrentID ∈ c.updatedTorrents then
      some (serializeUpdated torrent torrentSnapshot (torrentID ∈ c.announcedTorrents))
    else if torrentID ∈ c.announcedTorrents then some (addAnnounceStats torrentSnapshot torrent)
    else none

end SyncController

/-- What new data, if there are any, make of the snapshot and the waiting difference. -/
def putAll (data : Option QVariantMap) (at_ : Option QVariantMap × Option QVariantMap) :
    Option QVariantMap × Option QVariantMap :=
  match data with
  | some data => putAt data at_
  | none => at_

theorem look_categoriesAfter (c : SyncController) (session : Session)
    (hnodup : c.updatedCategories.Nodup) (name : String) :
    look name (c.categoriesAfter session) =
      putAll (c.categoryData session name)
        (look name (c.maindataSnapshot.categories, c.maindataSyncBuf.categories)) := by
  obtain ⟨hin, hout⟩ := foldl_keys look
    (fun tables categoryName => putDifference tables categoryName
      (serializeCategory categoryName ((session.categories.lookup categoryName).getD {})))
    (fun tables key x hx => by rw [look_putDifference, if_neg hx])
    (fun tables tables' key heq => by rw [look_putDifference, look_putDifference, heq]) hnodup
    (c.maindataSnapshot.categories, c.maindataSyncBuf.categories)
  unfold SyncController.categoriesAfter SyncController.categoryData
  split_ifs with hmem
  · rw [hin name hmem, look_putDifference, if_pos rfl]
    rfl
  · exact hout name hmem

theorem look_putUpdated (c : SyncController) (session : Session)
    (tables : Table String QVariantMap × Table String QVariantMap) (key key' : String) :
    look key' (c.putUpdated session tables key) =
      if key' = key then
        putAll ((session.torrents.lookup key).map fun torrent =>
            serializeUpdated torrent ((look key tables).1.getD []) (key ∈ c.announcedTorrents))
          (look key tables)
      else look key' tables := by
  unfold SyncController.putUpdated
  split
  · next hnone =>
    split_ifs with heq
    · rw [hnone, heq]
      rfl
    · rfl
  · next torrent hsome =>
    simp only
    rw [look_putDifference]
    split_ifs
    · rw [hsome]
      rfl
    · rfl

theorem look_putAnnounced (c : SyncController) (session : Session)
    (tables : Table String QVariantMap × Table String QVariantMap) (key key' : String) :
    look key' (c.putAnnounced session tables key) =
      if key' = key ∧ key ∉ c.updatedTorrents then
        putAll ((session.torrents.lookup key).map fun torrent =>
            addAnnounceStats ((look key tables).1.getD []) torrent)
          (look key tables)
      else look key' tables := by
  unfold SyncController.putAnnounced
  by_cases hmem : key ∈ c.updatedTorrents
  · rw [if_pos hmem, if_neg (fun hand => hand.2 hmem)]
  rw [if_neg hmem]
  split
  · next hnone =>
    split_ifs with heq
    · rw [hnone, heq.1]
      rfl
    · rfl
  · next torrent hsome =>
    simp only
    rw [look_putDifference]
    by_cases heq : key' = key
    · rw [if_pos heq, if_pos ⟨heq, hmem⟩, hsome]
      rfl
    · rw [if_neg heq, if_neg (fun hand => heq hand.1)]

theorem look_torrentsAfter (c : SyncController) (session : Session)
    (hupdated : c.updatedTorrents.Nodup) (hannounced : c.announcedTorrents.Nodup)
    (torrentID : TorrentID) :
    look torrentID (c.torrentsAfter session) =
      putAll (c.torrentData session torrentID)
        (look torrentID (c.maindataSnapshot.torrents, c.maindataSyncBuf.torrents)) := by
  set tables := (c.maindataSnapshot.torrents, c.maindataSyncBuf.torrents) with htables
  obtain ⟨hin, hout⟩ := foldl_keys look (c.putUpdated session)
    (fun tables key x hx => by rw [look_putUpdated, if_neg hx])
    (fun tables tables' key heq => by
      rw [look_putUpdated, look_putUpdated, heq]) hupdated tables
  obtain ⟨hin', hout'⟩ := foldl_keys look (c.putAnnounced session)
    (fun tables key x hx => by rw [look_putAnnounced, if_neg (fun hand => hx hand.1)])
    (fun tables tables' key heq => by
      rw [look_putAnnounced, look_putAnnounced, heq]) hannounced
    (c.updatedTorrents.foldl (c.putUpdated session) tables)
  unfold SyncController.torrentsAfter SyncController.torrentData
  by_cases hupd : torrentID ∈ c.updatedTorrents
  · -- an updated torrent is put once, by the first loop
    have hsecond : look torrentID (c.announcedTorrents.foldl (c.putAnnounced session)
        (c.updatedTorrents.foldl (c.putUpdated session) tables)) =
        look torrentID (c.updatedTorrents.foldl (c.putUpdated session) tables) := by
      by_cases hann : torrentID ∈ c.announcedTorrents
      · rw [hin' torrentID hann, look_putAnnounced, if_neg (fun hand => hand.2 hupd)]
      · exact hout' torrentID hann
    rw [hsecond, hin torrentID hupd, look_putUpdated, if_pos rfl]
    cases session.torrents.lookup torrentID with
    | none => rfl
    | some torrent => simp [hupd, htables, look]
  · have hfirst := hout torrentID hupd
    by_cases hann : torrentID ∈ c.announcedTorrents
    · rw [hin' torrentID hann, look_putAnnounced, if_pos ⟨rfl, hupd⟩, hfirst]
      cases session.torrents.lookup torrentID with
      | none => rfl
      | some torrent => simp [hupd, hann, htables, look]
    · rw [hout' torrentID hann, hfirst]
      simp only [hupd, hann, if_false]
      cases session.torrents.lookup torrentID <;> rfl

/-! ### The invariant after a request -/

/-- The items of a snapshot have their keys. -/
structure Shaped (b : MaindataSyncBuf) : Prop where
  categories : ∀ name m, b.categories.lookup name = some m → Shape categoryKeys m
  torrents : ∀ torrentID m, b.torrents.lookup torrentID = some m → Shape torrentSchema m
  serverState : Shape serverKeys b.serverState

theorem lookup_foldl_erase {ν : Type} (removed : List String) (t : Table String ν) (key : String) :
    (removed.foldl (fun t key => AList.erase key t) t).lookup key =
      if key ∈ removed then none else t.lookup key := by
  induction removed generalizing t with
  | nil => rfl
  | cons k removed ih =>
    rw [foldl_cons, ih, Table.lookup_erase_eq]
    by_cases heq : key = k
    · simp [heq]
    · simp [heq]

theorem foldl_erase (removed items : List String) :
    removed.foldl List.erase items = items.diff removed :=
  (diff_eq_foldl items removed).symm

theorem lookup_putTrackers (c : SyncController) (trackers : Table String (List String))
    (url : String) :
    (c.putTrackers trackers).lookup url =
      if url ∈ c.updatedTrackers then some ((c.knownTrackers.lookup url).getD [])
      else trackers.lookup url := by
  unfold SyncController.putTrackers
  induction c.updatedTrackers generalizing trackers with
  | nil => rfl
  | cons tracker updated ih =>
    rw [foldl_cons, ih, Table.lookup_insert_eq]
    by_cases heq : url = tracker
    · subst heq
      simp
    · simp [heq]

theorem putAt_snapshot (hdata : Shape keys data) (at_ : Option QVariantMap × Option QVariantMap)
    (hprev : ∀ m, at_.1 = some m → Shape keys m) (hnew : at_.1 = none → processMap [] data ≠ []) :
    (putAt data at_).1.map QVariantMap.get = some (QVariantMap.get data) ∧
      ∀ m, (putAt data at_).1 = some m → Shape keys m := by
  unfold putAt
  simp only
  cases hat : at_.1 with
  | none =>
    have hne : (processMap ((none : Option QVariantMap).getD []) data).isEmpty = false := by
      simpa using hnew hat
    rw [hne]
    exact ⟨rfl, fun m hm => Option.some.inj hm ▸ hdata⟩
  | some prev =>
    rw [Option.getD_some]
    split_ifs with hempty
    · refine ⟨congrArg some ?_, fun m hm => Option.some.inj hm ▸ hprev prev hat⟩
      exact get_eq_of_processMap_nil hdata.plain (hdata.within (hprev prev hat))
        (isEmpty_iff.mp hempty)
    · exact ⟨rfl, fun m hm => Option.some.inj hm ▸ hdata⟩

theorem lookup_name_serializeCategory (name : String) (options : CategoryOptions) :
    (serializeCategory name options).lookup "name" = some (.scalar (.string name)) := by
  unfold serializeCategory
  simp only
  rw [QVariantMap.lookup_set, if_pos rfl]

theorem serializeCategory_new (name : String) (options : CategoryOptions) :
    processMap [] (serializeCategory name options) ≠ [] :=
  processMap_nil_ne (shape_serializeCategory name options).plain
    (lookup_name_serializeCategory name options) (by simp)

theorem lookup_setAnnounceStats (m : QVariantMap) (warning error other : QVariant) {key : String}
    (hwarning : key ≠ KEY_TORRENT_HAS_TRACKER_WARNING)
    (herror : key ≠ KEY_TORRENT_HAS_TRACKER_ERROR)
    (hother : key ≠ KEY_TORRENT_HAS_OTHER_ANNOUNCE_ERROR) :
    (setAnnounceStats m warning error other).lookup key = m.lookup key := by
  unfold setAnnounceStats
  rw [QVariantMap.lookup_set, if_neg hother, QVariantMap.lookup_set, if_neg herror,
    QVariantMap.lookup_set, if_neg hwarning]

theorem lookup_serializeUpdated (torrent : Torrent) (torrentSnapshot : QVariantMap)
    (announced : Bool) {key : String} (hwarning : key ≠ KEY_TORRENT_HAS_TRACKER_WARNING)
    (herror : key ≠ KEY_TORRENT_HAS_TRACKER_ERROR)
    (hother : key ≠ KEY_TORRENT_HAS_OTHER_ANNOUNCE_ERROR) :
    (serializeUpdated torrent torrentSnapshot announced).lookup key =
      (QVariantMap.drop (serialize torrent) KEY_TORRENT_ID).lookup key := by
  unfold serializeUpdated
  simp only
  split_ifs
  · unfold addAnnounceStats
    exact lookup_setAnnounceStats _ _ _ _ hwarning herror hother
  · exact lookup_setAnnounceStats _ _ _ _ hwarning herror hother

theorem serializeUpdated_new (torrent : Torrent) {torrentSnapshot : QVariantMap}
    (h : Plain torrentSnapshot) (announced : Bool) :
    processMap [] (serializeUpdated torrent torrentSnapshot announced) ≠ [] := by
  refine @processMap_nil_ne _ (shape_serializeUpdated torrent h announced).plain KEY_TORRENT_NAME
    (.string torrent.name) ?_ (by simp)
  rw [lookup_serializeUpdated torrent torrentSnapshot announced (by decide) (by decide) (by decide),
    QVariantMap.lookup_drop, if_neg (by decide)]
  rfl

/-- The snapshot is the session, and the known trackers are those in use. -/
structure Exact (session : Session) (c : SyncController) : Prop where
  categories : ∀ name, (c.maindataSnapshot.categories.lookup name).map QVariantMap.get =
    session.category name
  tags_nodup : c.maindataSnapshot.tags.Nodup
  tags : ∀ tag, tag ∈ c.maindataSnapshot.tags ↔ tag ∈ session.tags
  torrents : ∀ torrentID, (c.maindataSnapshot.torrents.lookup torrentID).isSome =
    (session.torrents.lookup torrentID).isSome
  trackers : ∀ url, c.maindataSnapshot.trackers.lookup url = c.knownTrackers.lookup url
  known : Known session.Uses c.knownTrackers

namespace SyncController

variable {c : SyncController} {session : Session}

theorem categories_applyNotes (h : Tracked session c) (hshape : Shaped c.maindataSnapshot) :
    (fun name => ((c.applyNotes session).maindataSnapshot.categories.lookup name).map
        QVariantMap.get) = session.category ∧
      ∀ name m, (c.applyNotes session).maindataSnapshot.categories.lookup name = some m →
        Shape categoryKeys m := by
  have hlook : ∀ name, (c.applyNotes session).maindataSnapshot.categories.lookup name =
      if name ∈ c.removedCategories then none
      else (putAll (c.categoryData session name)
        (look name (c.maindataSnapshot.categories, c.maindataSyncBuf.categories))).1 := by
    intro name
    rw [← look_categoriesAfter c session ((nodup_notes_iff c).mp h.nodup).1]
    exact lookup_foldl_erase _ _ _
  have hput : ∀ name ∈ c.updatedCategories,
      ∃ options, session.categories.lookup name = some options ∧
        c.categoryData session name = some (serializeCategory name options) := by
    intro name hname
    have hsome := h.categories.changed_present name hname
    rw [Session.category, Option.isSome_map] at hsome
    obtain ⟨options, hoptions⟩ := Option.isSome_iff_exists.mp hsome
    refine ⟨options, hoptions, ?_⟩
    rw [categoryData, if_pos hname, hoptions]
    rfl
  have hat : ∀ name options, _ := fun name options =>
    putAt_snapshot (shape_serializeCategory name options)
      (look name (c.maindataSnapshot.categories, c.maindataSyncBuf.categories))
      (hshape.categories name) (fun _ => serializeCategory_new name options)
  constructor
  · refine h.categories.settle (fun name hname => ?_) (fun name hname => ?_)
      (fun name hname hname' => ?_)
    · rw [hlook, if_pos hname]
      rfl
    · obtain ⟨options, hoptions, hdata⟩ := hput name hname
      rw [hlook, if_neg (h.categories.disjoint hname), hdata, Session.category, hoptions]
      exact (hat name options).1
    · rw [hlook, if_neg hname', categoryData, if_neg hname]
      rfl
  · intro name m hm
    rw [hlook] at hm
    split_ifs at hm with hrem
    by_cases hname : name ∈ c.updatedCategories
    · obtain ⟨options, -, hdata⟩ := hput name hname
      rw [hdata] at hm
      exact (hat name options).2 m hm
    · rw [categoryData, if_neg hname] at hm
      exact hshape.categories name m hm

theorem plain_prev (hshape : Shaped c.maindataSnapshot) (torrentID : TorrentID) :
    Plain ((c.maindataSnapshot.torrents.lookup torrentID).getD []) := by
  cases hprev : c.maindataSnapshot.torrents.lookup torrentID with
  | none => exact plain_nil
  | some m => exact (hshape.torrents torrentID m hprev).plain

/-- The new data of a torrent, and that there are some for a torrent that is not in the snapshot
yet. -/
theorem shape_torrentData (h : Tracked session c) (hshape : Shaped c.maindataSnapshot)
    {torrentID : TorrentID} (hdata : c.torrentData session torrentID = some data) :
    Shape torrentSchema data ∧
      (c.maindataSnapshot.torrents.lookup torrentID = none → processMap [] data ≠ []) := by
  obtain ⟨torrent, hlook, hdata⟩ := Option.bind_eq_some_iff.mp hdata
  simp only at hdata
  split_ifs at hdata with hupd hann
  · cases hdata
    have hplain := plain_prev hshape torrentID
    exact ⟨shape_serializeUpdated torrent hplain _, fun _ => serializeUpdated_new torrent hplain _⟩
  · cases hdata
    -- a torrent of the session that is not noted as updated is in the snapshot
    have hpresent := h.announced torrentID hann
    have hsame := h.torrents.same torrentID hupd (h.torrents.not_removed hpresent)
    rw [← hsame, present_isSome] at hpresent
    obtain ⟨m, hm⟩ := Option.isSome_iff_exists.mp hpresent
    rw [hm, Option.getD_some]
    refine ⟨shape_addAnnounceStats (hshape.torrents torrentID m hm) torrent, fun hnone => ?_⟩
    cases hnone

theorem lookup_torrents_applyNotes (h : Tracked session c) (torrentID : TorrentID) :
    (c.applyNotes session).maindataSnapshot.torrents.lookup torrentID =
      if torrentID ∈ c.removedTorrents then none
      else (putAll (c.torrentData session torrentID)
        (look torrentID (c.maindataSnapshot.torrents, c.maindataSyncBuf.torrents))).1 := by
  obtain ⟨-, -, -, -, hupdated, hannounced, -⟩ := (nodup_notes_iff c).mp h.nodup
  rw [← look_torrentsAfter c session hupdated hannounced]
  exact lookup_foldl_erase _ _ _

theorem torrents_applyNotes (h : Tracked session c) (hshape : Shaped c.maindataSnapshot) :
    present (c.applyNotes session).maindataSnapshot.torrents = present session.torrents ∧
      ∀ torrentID m, (c.applyNotes session).maindataSnapshot.torrents.lookup torrentID = some m →
        Shape torrentSchema m := by
  have hlook := lookup_torrents_applyNotes h
  have hat : ∀ torrentID data, c.torrentData session torrentID = some data → _ :=
    fun torrentID data hdata => putAt_snapshot (shape_torrentData h hshape hdata).1
      (look torrentID (c.maindataSnapshot.torrents, c.maindataSyncBuf.torrents))
      (hshape.torrents torrentID) (shape_torrentData h hshape hdata).2
  constructor
  · refine h.torrents.settle (fun torrentID hid => ?_) (fun torrentID hid => ?_)
      (fun torrentID hid hid' => ?_)
    · rw [present, hlook, if_pos hid]
      rfl
    · have hsome := h.torrents.changed_present torrentID hid
      rw [present_isSome] at hsome
      obtain ⟨torrent, htorrent⟩ := Option.isSome_iff_exists.mp hsome
      have hdata : ∃ data, c.torrentData session torrentID = some data := by
        rw [torrentData, htorrent]
        simp [hid]
      obtain ⟨data, hdata⟩ := hdata
      have hview := (hat torrentID data hdata).1
      rw [present, hlook, if_neg (h.torrents.disjoint hid), hdata, putAll, present, htorrent]
      obtain ⟨m, hm, -⟩ := Option.map_eq_some_iff.mp hview
      rw [hm]
      rfl
    · rw [present, hlook, if_neg hid']
      cases hdata : c.torrentData session torrentID with
      | none => rfl
      | some data =>
        have hview := (hat torrentID data hdata).1
        obtain ⟨m, hm, -⟩ := Option.map_eq_some_iff.mp hview
        obtain ⟨torrent, htorrent, -⟩ := Option.bind_eq_some_iff.mp hdata
        have hsame := h.torrents.same torrentID hid hid'
        rw [putAll, hm, hsame, present, htorrent]
        rfl
  · intro torrentID m hm
    rw [hlook] at hm
    split_ifs at hm with hrem
    cases hdata : c.torrentData session torrentID with
    | none =>
      rw [hdata] at hm
      exact hshape.torrents torrentID m hm
    | some data =>
      rw [hdata] at hm
      exact (hat torrentID data hdata).2 m hm

theorem tags_applyNotes (h : Tracked session c)
    (hnew : ∀ tag ∈ c.addedTags, tag ∉ c.maindataSnapshot.tags) :
    (c.applyNotes session).maindataSnapshot.tags.Nodup ∧
      listed (c.applyNotes session).maindataSnapshot.tags = listed session.tags := by
  obtain ⟨-, -, hadded, -, -, -, -⟩ := (nodup_notes_iff c).mp h.nodup
  have htags : (c.applyNotes session).maindataSnapshot.tags =
      (c.maindataSnapshot.tags ++ c.addedTags).diff c.removedTags := foldl_erase _ _
  have hnodup : (c.maindataSnapshot.tags ++ c.addedTags).Nodup := by
    refine nodup_append.mpr ⟨h.tagsOnce, hadded, ?_⟩
    rintro tag htag tag' htag' rfl
    exact hnew tag htag' htag
  have hmem : ∀ tag, tag ∈ (c.applyNotes session).maindataSnapshot.tags ↔
      (tag ∈ c.maindataSnapshot.tags ∨ tag ∈ c.addedTags) ∧ tag ∉ c.removedTags := by
    intro tag
    rw [htags, hnodup.mem_diff_iff, mem_append]
  refine ⟨htags ▸ hnodup.diff, h.tags.settle (fun tag htag => ?_) (fun tag htag => ?_)
    (fun tag htag htag' => ?_)⟩
  · exact listed_of_not_mem fun hin => ((hmem tag).mp hin).2 htag
  · rw [listed_of_mem ((hmem tag).mpr ⟨Or.inr htag, h.tags.disjoint htag⟩)]
    obtain ⟨_, heq⟩ := Option.isSome_iff_exists.mp (h.tags.changed_present tag htag)
    exact heq.symm
  · rw [listed_eq_iff, hmem]
    tauto

theorem lookup_trackers_applyNotes (c : SyncController) (session : Session) (url : String) :
    (c.applyNotes session).maindataSnapshot.trackers.lookup url =
      if url ∈ c.removedTrackers then none
      else if url ∈ c.updatedTrackers then some ((c.knownTrackers.lookup url).getD [])
      else c.maindataSnapshot.trackers.lookup url := by
  rw [← lookup_putTrackers]
  exact lookup_foldl_erase _ _ _

theorem trackers_applyNotes (h : Tracked session c) :
    (c.applyNotes session).maindataSnapshot.trackers.lookup = c.knownTrackers.lookup := by
  have hlook := c.lookup_trackers_applyNotes session
  refine h.trackers.noted.settle (fun url hurl => ?_) (fun url hurl => ?_)
    (fun url hurl hurl' => ?_)
  · rw [hlook, if_pos hurl]
  · obtain ⟨ids, hids⟩ := Option.isSome_iff_exists.mp (h.trackers.noted.changed_present url hurl)
    rw [hlook, if_neg (h.trackers.noted.disjoint hurl), if_pos hurl, hids]
    rfl
  · rw [hlook, if_neg hurl', if_neg hurl]

theorem serverState_applyNotes (hshape : Shaped c.maindataSnapshot) :
    QVariantMap.get (c.applyNotes session).maindataSnapshot.serverState =
        QVariantMap.get (makeServerState session c.freeDiskSpace) ∧
      Shape serverKeys (c.applyNotes session).maindataSnapshot.serverState := by
  have hserver := shape_makeServerState session c.freeDiskSpace
  have heq : (c.applyNotes session).maindataSnapshot.serverState =
      (c.serverStateAfter session).1 := rfl
  rw [heq]
  unfold serverStateAfter
  simp only
  split_ifs with hempty
  · exact ⟨get_eq_of_processMap_nil hserver.plain (hserver.within hshape.serverState)
      (isEmpty_iff.mp hempty), hshape.serverState⟩
  · exact ⟨rfl, hserver⟩

end SyncController

variable {session : Session} {c : SyncController}

theorem Tracked.applyNotes (h : Tracked session c) (hshape : Shaped c.maindataSnapshot)
    (hnew : ∀ tag ∈ c.addedTags, tag ∉ c.maindataSnapshot.tags) :
    Tracked session (c.applyNotes session) ∧ Shaped (c.applyNotes session).maindataSnapshot ∧
      Exact session (c.applyNotes session) := by
  obtain ⟨hcategories, hcategories'⟩ := SyncController.categories_applyNotes h hshape
  obtain ⟨htorrents, htorrents'⟩ := SyncController.torrents_applyNotes h hshape
  obtain ⟨hnodup, htags⟩ := SyncController.tags_applyNotes h hnew
  have htrackers := SyncController.trackers_applyNotes h
  obtain ⟨-, hserver⟩ := @SyncController.serverState_applyNotes _ session hshape
  refine ⟨⟨?_, ?_, ?_, fun id hid => ?_, ⟨h.trackers.known, ?_, nodup_nil, nodup_nil⟩,
    ?_, hnodup⟩, ⟨hcategories', htorrents', hserver⟩, ?_⟩
  · rw [hcategories]
    exact Noted.refl _
  · rw [htags]
    exact Noted.refl _
  · rw [htorrents]
    exact Noted.refl _
  · exact (not_mem_nil hid).elim
  · rw [htrackers]
    exact Noted.refl _
  · rw [nodup_notes_iff]
    exact ⟨nodup_nil, nodup_nil, nodup_nil, nodup_nil, nodup_nil,
      nodup_nil, nodup_nil⟩
  · refine ⟨congrFun hcategories, hnodup, fun tag => listed_eq_iff.mp (congrFun htags tag),
      fun id => ?_, congrFun htrackers, h.trackers.known⟩
    rw [← present_isSome, ← present_isSome, htorrents]

def announceKeys : List String :=
  [KEY_TORRENT_HAS_TRACKER_WARNING, KEY_TORRENT_HAS_TRACKER_ERROR,
    KEY_TORRENT_HAS_OTHER_ANNOUNCE_ERROR]

/-- What the snapshot says about the torrents with news: the fields of those that were updated, and
the announce statistics of those that were announced. -/
structure Current (session : Session) (c c' : SyncController) : Prop where
  updated : ∀ torrentID ∈ c.updatedTorrents, ∀ torrent,
    session.torrents.lookup torrentID = some torrent → ∀ key ∉ announceKeys,
      QVariantMap.get ((c'.maindataSnapshot.torrents.lookup torrentID).getD []) key =
        QVariantMap.get (QVariantMap.drop (serialize torrent) KEY_TORRENT_ID) key
  announced : ∀ torrentID ∈ c.announcedTorrents, ∀ torrent,
    session.torrents.lookup torrentID = some torrent → ∀ key ∈ announceKeys,
      QVariantMap.get ((c'.maindataSnapshot.torrents.lookup torrentID).getD []) key =
        QVariantMap.get (addAnnounceStats [] torrent) key

theorem get_addAnnounceStats (m m' : QVariantMap) (torrent : Torrent) {key : String}
    (hkey : key ∈ announceKeys) :
    QVariantMap.get (addAnnounceStats m torrent) key =
      QVariantMap.get (addAnnounceStats m' torrent) key := by
  unfold addAnnounceStats setAnnounceStats
  simp only [get_set]
  simp only [announceKeys, mem_cons, not_mem_nil, or_false] at hkey
  rcases hkey with rfl | rfl | rfl <;> simp

theorem view_applyNotes (h : Tracked session c) (hshape : Shaped c.maindataSnapshot)
    {torrentID : TorrentID} (hdata : c.torrentData session torrentID = some data) :
    QVariantMap.get (((c.applyNotes session).maindataSnapshot.torrents.lookup torrentID).getD []) =
      QVariantMap.get data := by
  obtain ⟨hdata', hnew⟩ := SyncController.shape_torrentData h hshape hdata
  obtain ⟨torrent, hlook, -⟩ := Option.bind_eq_some_iff.mp hdata
  have hpresent : (present session.torrents torrentID).isSome := by
    rw [present_isSome, hlook]
    rfl
  rw [SyncController.lookup_torrents_applyNotes h, if_neg (h.torrents.not_removed hpresent), hdata]
  have hview := (putAt_snapshot hdata'
    (look torrentID (c.maindataSnapshot.torrents, c.maindataSyncBuf.torrents))
    (hshape.torrents torrentID) hnew).1
  obtain ⟨m, hm, hget⟩ := Option.map_eq_some_iff.mp hview
  rw [putAll, hm]
  exact hget

theorem current_applyNotes (h : Tracked session c) (hshape : Shaped c.maindataSnapshot) :
    Current session c (c.applyNotes session) := by
  constructor
  · intro torrentID hid torrent hlook key hkey
    have hdata : c.torrentData session torrentID = some (serializeUpdated torrent
        ((c.maindataSnapshot.torrents.lookup torrentID).getD [])
        (torrentID ∈ c.announcedTorrents)) := by
      rw [SyncController.torrentData, hlook]
      simp [hid]
    simp only [announceKeys, mem_cons, not_mem_nil, or_false, not_or] at hkey
    rw [view_applyNotes h hshape hdata, QVariantMap.get, QVariantMap.get,
      lookup_serializeUpdated torrent _ _ hkey.1 hkey.2.1 hkey.2.2]
  · intro torrentID hid torrent hlook key hkey
    by_cases hupd : torrentID ∈ c.updatedTorrents
    · have hdata : c.torrentData session torrentID = some (addAnnounceStats
          (QVariantMap.drop (serialize torrent) KEY_TORRENT_ID) torrent) := by
        rw [SyncController.torrentData, hlook]
        simp [hid, hupd, serializeUpdated]
      rw [view_applyNotes h hshape hdata]
      exact get_addAnnounceStats _ _ torrent hkey
    · have hdata : c.torrentData session torrentID = some (addAnnounceStats
          ((c.maindataSnapshot.torrents.lookup torrentID).getD []) torrent) := by
        rw [SyncController.torrentData, hlook]
        simp [hid, hupd]
      rw [view_applyNotes h hshape hdata]
      exact get_addAnnounceStats _ _ torrent hkey

/-! ### The first request -/

theorem known_foldl_insert {uses : String → TorrentID → Prop}
    {known : Table String (List TorrentID)} (h : Known uses known) (torrentID : TorrentID)
    (urls : List String) :
    Known (fun url id => uses url id ∨ (url ∈ urls ∧ id = torrentID))
      (urls.foldl (fun known url =>
        AList.insert url (setInsert ((known.lookup url).getD []) torrentID) known) known) := by
  induction urls generalizing uses known with
  | nil => exact h.congr fun url id => by simp
  | cons url urls ih =>
    obtain ⟨hnodup, hmem⟩ := h.mem_getD url
    have hstep : Known (fun url' id => uses url' id ∨ (url' = url ∧ id = torrentID))
        (AList.insert url (setInsert ((known.lookup url).getD []) torrentID) known) := by
      refine h.insert ?_ (nodup_setInsert hnodup torrentID) (fun id => ?_) (fun url' id hne => ?_)
      · exact ne_nil_of_mem (mem_setInsert.mpr (Or.inl rfl))
      · rw [mem_setInsert, hmem]
        tauto
      · simp [hne]
    refine (ih hstep).congr fun url' id => ?_
    rw [mem_cons]
    tauto

theorem known_foldl_torrents {uses : String → TorrentID → Prop}
    {known : Table String (List TorrentID)} (h : Known uses known) (torrents : List Torrent) :
    Known (fun url id => uses url id ∨ ∃ torrent ∈ torrents, torrent.id = id ∧ url ∈ torrent.urls)
      (torrents.foldl
        (fun known torrent => torrent.urls.foldl
          (fun known url =>
            AList.insert url (setInsert ((known.lookup url).getD []) torrent.id) known) known)
        known) := by
  induction torrents generalizing uses known with
  | nil => exact h.congr fun url id => by simp
  | cons torrent torrents ih =>
    refine (ih (known_foldl_insert h torrent.id torrent.urls)).congr fun url id => ?_
    simp only [mem_cons, exists_eq_or_imp]
    tauto

theorem tracked_makeMaindataSnapshot (hsound : session.Sound) (freeDiskSpace : ℤ) :
    Tracked session
        (({ freeDiskSpace := freeDiskSpace } : SyncController).makeMaindataSnapshot session) ∧
      Shaped (({ freeDiskSpace := freeDiskSpace } : SyncController).makeMaindataSnapshot
        session).maindataSnapshot := by
  have hknown := @known_foldl_torrents (fun _ _ => False) ∅ (fun url => by simp) session.torrents.values
  constructor
  · refine ⟨?_, Noted.refl _, ?_, fun id hid => (not_mem_nil hid).elim,
      ⟨hknown.congr fun url id => ?_, Noted.refl _, nodup_nil, nodup_nil⟩, ?_,
      hsound.tags_nodup⟩
    · have hcategories : (fun name => ((session.categories.mapTo serializeCategory).lookup
          name).map QVariantMap.get) = session.category := by
        funext name
        rw [Table.lookup_mapTo, Option.map_map]
        rfl
      show Noted session.category (fun name =>
        ((session.categories.mapTo serializeCategory).lookup name).map QVariantMap.get) [] []
      rw [hcategories]
      exact Noted.refl _
    · have hpresent : ∀ f : TorrentID → Torrent → QVariantMap,
          present (session.torrents.mapTo f) = present session.torrents := by
        intro f
        funext id
        rw [present, present, Table.lookup_mapTo, Option.map_map]
      show Noted (present session.torrents) (present (session.torrents.mapTo _)) [] []
      rw [hpresent]
      exact Noted.refl _
    · rw [false_or]
      constructor
      · rintro ⟨torrent, hlook, hurl⟩
        exact ⟨torrent, Table.mem_values.mpr ⟨id, hlook⟩, hsound.id_eq id torrent hlook, hurl⟩
      · rintro ⟨torrent, hmem, rfl, hurl⟩
        obtain ⟨id, hlook⟩ := Table.mem_values.mp hmem
        rw [← hsound.id_eq id torrent hlook] at hlook
        exact ⟨torrent, hlook, hurl⟩
    · rw [nodup_notes_iff]
      exact ⟨nodup_nil, nodup_nil, nodup_nil, nodup_nil, nodup_nil,
        nodup_nil, nodup_nil⟩
  · refine ⟨fun name m hm => ?_, fun id m hm => ?_, shape_makeServerState session freeDiskSpace⟩
    · obtain ⟨options, -, rfl⟩ : ∃ options, session.categories.lookup name = some options ∧
          serializeCategory name options = m := by
        rw [← Option.map_eq_some_iff, ← Table.lookup_mapTo]
        exact hm
      exact shape_serializeCategory name options
    · obtain ⟨torrent, -, rfl⟩ : ∃ torrent, session.torrents.lookup id = some torrent ∧
          addAnnounceStats (QVariantMap.drop (serialize torrent) KEY_TORRENT_ID) torrent = m := by
        rw [← Option.map_eq_some_iff, ← Table.lookup_mapTo session.torrents fun _ torrent =>
          addAnnounceStats (QVariantMap.drop (serialize torrent) KEY_TORRENT_ID) torrent]
        exact hm
      exact ((shape_serialize torrent).drop KEY_TORRENT_ID).setAnnounceStats _ _ _

/-! ### Runs -/

/-- The condition on a request: no tag that was added since the last one is in the snapshot, so no
tag was removed and added again. -/
def NoTagReturns (s : SyncState) : Event → Prop
  | .request _ =>
    ∀ tag ∈ s.controller.addedTags, tag ∉ s.controller.maindataSnapshot.tags
  | _ => True

/-- The controller is new, or it tracks the session. -/
structure Ready (session : Session) (c : SyncController) : Prop where
  sound : session.Sound
  state : c = { freeDiskSpace := c.freeDiskSpace } ∨
    (0 ≤ c.maindataAcceptedID ∧ Tracked session c ∧ Shaped c.maindataSnapshot)

/-- Neither what waits to be sent nor the identifiers matter to the notes. -/
theorem Tracked.withBuf (h : Tracked session c) (buf : MaindataSyncBuf) (sent : ℕ) (accepted : ℤ) :
    Tracked session { c with
      maindataSyncBuf := buf, maindataLastSentID := sent, maindataAcceptedID := accepted } :=
  { h with trackers := { h.trackers with } }

/-- Neither the snapshot nor what waits nor the identifiers differ. -/
structure SameSync (c c' : SyncController) : Prop where
  snapshot : c'.maindataSnapshot = c.maindataSnapshot
  buf : c'.maindataSyncBuf = c.maindataSyncBuf
  sent : c'.maindataLastSentID = c.maindataLastSentID
  accepted : c'.maindataAcceptedID = c.maindataAcceptedID

theorem SameSync.rfl : SameSync c c :=
  ⟨Eq.refl _, Eq.refl _, Eq.refl _, Eq.refl _⟩

theorem OnlyTrackers.sameSync {c' : SyncController} (h : OnlyTrackers c c') : SameSync c c' := by
  rw [h]
  exact ⟨rfl, rfl, rfl, rfl⟩

theorem SameSync.notify (c : SyncController) (slot : SyncController → SyncController)
    (h : SameSync c (slot c)) : SameSync c (c.notify slot) := by
  unfold SyncController.notify
  split_ifs
  · exact SameSync.rfl
  · exact h

namespace Ready

variable {session : Session} {c : SyncController}

theorem start (h : Ready session c)
    (hnew : ∀ tag ∈ c.addedTags, tag ∉ c.maindataSnapshot.tags) :
    0 ≤ (c.start session).maindataAcceptedID ∧ Tracked session (c.start session) ∧
      Shaped (c.start session).maindataSnapshot ∧
      ∀ tag ∈ (c.start session).addedTags, tag ∉ (c.start session).maindataSnapshot.tags := by
  unfold SyncController.start
  rcases h.state with hfresh | ⟨haccepted, htracked, hshape⟩
  · rw [hfresh]
    obtain ⟨htracked, hshape⟩ := tracked_makeMaindataSnapshot h.sound c.freeDiskSpace
    exact ⟨le_refl 0, htracked, hshape, fun tag htag => (not_mem_nil htag).elim⟩
  · rw [if_neg (not_lt.mpr haccepted)]
    exact ⟨haccepted, htracked, hshape, hnew⟩

/-- A request keeps the notes about torrents until they are applied. -/
theorem mem_start (h : Ready session c) (torrentID : TorrentID) :
    (torrentID ∈ c.updatedTorrents → torrentID ∈ (c.start session).updatedTorrents) ∧
      (torrentID ∈ c.announcedTorrents → torrentID ∈ (c.start session).announcedTorrents) := by
  unfold SyncController.start
  split_ifs <;> exact ⟨id, id⟩

/-- Accepting a response changes nothing but what waits and the accepted identifier. -/
theorem accept_eq (c : SyncController) (acceptedID : ℤ) :
    ∃ buf accepted, c.accept acceptedID =
      { c with maindataSyncBuf := buf, maindataAcceptedID := accepted } ∧
      (0 ≤ c.maindataAcceptedID → 0 ≤ accepted) := by
  unfold SyncController.accept
  split_ifs with h
  · exact ⟨_, _, rfl, fun _ => le_of_lt h.1⟩
  · exact ⟨_, _, rfl, id⟩

theorem maindataAction (h : Ready session c)
    (hnew : ∀ tag ∈ c.addedTags, tag ∉ c.maindataSnapshot.tags) (rid : ℤ) :
    Ready session (c.maindataAction session rid).2 ∧
      Exact session (c.maindataAction session rid).2 ∧
      Current session c (c.maindataAction session rid).2 := by
  obtain ⟨haccepted, htracked, hshape, hnew⟩ := h.start hnew
  obtain ⟨buf, accepted, heq, hle⟩ := accept_eq (c.start session) rid
  set c₁ := ((c.start session).accept rid).updateSyncBuf with hc₁
  have hsnap : c₁.maindataSnapshot = (c.start session).maindataSnapshot := by
    rw [hc₁, heq]
    rfl
  have htracked₁ : Tracked session c₁ := by
    rw [hc₁, heq]
    exact htracked.withBuf _ _ _
  obtain ⟨htracked₂, hshape₂, hexact⟩ := htracked₁.applyNotes (hsnap ▸ hshape) (by
    rw [hc₁, heq]
    exact hnew)
  have haccepted₂ : 0 ≤ (c₁.applyNotes session).maindataAcceptedID := by
    have hid : (c₁.applyNotes session).maindataAcceptedID = accepted := by
      rw [hc₁, heq]
      rfl
    rw [hid]
    exact hle haccepted
  have hresult : ∃ buf' sent, (c.maindataAction session rid).2 =
      { c₁.applyNotes session with maindataSyncBuf := buf', maindataLastSentID := sent } := by
    unfold SyncController.maindataAction SyncController.generateMaindataSyncData
    simp only
    split_ifs
    · exact ⟨_, _, rfl⟩
    · exact ⟨_, _, rfl⟩
  obtain ⟨buf', sent, hresult⟩ := hresult
  have hcurrent := current_applyNotes htracked₁ (hsnap ▸ hshape)
  rw [hresult]
  refine ⟨⟨h.sound, Or.inr ⟨haccepted₂, htracked₂.withBuf _ _ _, hshape₂⟩⟩,
    { hexact with }, fun id hid => hcurrent.updated id ?_, fun id hid => hcurrent.announced id ?_⟩
  · rw [hc₁, heq]
    exact (mem_start h id).1 hid
  · rw [hc₁, heq]
    exact (mem_start h id).2 hid

theorem notify (h : Ready session c) (slot : SyncController → SyncController)
    {session' : Session} (hsound : session'.Sound)
    (hslot : Tracked session c → Tracked session' (slot c)) (hsame : SameSync c (slot c)) :
    Ready session' (c.notify slot) := by
  refine ⟨hsound, ?_⟩
  unfold SyncController.notify
  rcases h.state with hfresh | ⟨hconnected, htracked, hshape⟩
  · left
    have hneg : c.maindataAcceptedID < 0 := by
      rw [hfresh]
      show (-1 : ℤ) < 0
      decide
    rw [if_pos hneg]
    exact hfresh
  · right
    rw [if_neg (not_lt.mpr hconnected), hsame.snapshot, hsame.accepted]
    exact ⟨hconnected, hslot htracked, hshape⟩

end Ready

/-- The slots change notes and known trackers only. -/
theorem sameSync_onTorrentAdded (c : SyncController) (torrent : Torrent) :
    SameSync c (c.onTorrentAdded torrent) :=
  have h := OnlyTrackers.sameSync (OnlyTrackers.foldl
    (g := fun c url => c.useTracker torrent.id url) (fun _ _ => rfl) torrent.urls
    { c with
      removedTorrents := setRemove c.removedTorrents torrent.id
      updatedTorrents := setInsert c.updatedTorrents torrent.id
      announcedTorrents := setInsert c.announcedTorrents torrent.id })
  { h with }

theorem sameSync_onTorrentAboutToBeRemoved (c : SyncController) (torrent : Torrent) :
    SameSync c (c.onTorrentAboutToBeRemoved torrent) :=
  have h := OnlyTrackers.sameSync (OnlyTrackers.foldl
    (fun c => onlyTrackers_dropTracker c torrent.id) torrent.urls
    { c with
      announcedTorrents := setRemove c.announcedTorrents torrent.id
      updatedTorrents := setRemove c.updatedTorrents torrent.id
      removedTorrents := setInsert c.removedTorrents torrent.id })
  { h with }

theorem sameSync_onTorrentTrackersChanged (c : SyncController) (torrent : Torrent) :
    SameSync c (c.onTorrentTrackersChanged torrent) :=
  have h := OnlyTrackers.sameSync (Tracked.onlyTrackers_onTorrentTrackersChanged c torrent)
  { h with }

theorem sameSync_onSignal (c : SyncController) (torrentID : TorrentID) (signal : TorrentSignal) :
    SameSync c (c.onSignal torrentID signal) := by
  cases signal <;> exact ⟨rfl, rfl, rfl, rfl⟩

theorem Session.Sound.insert (h : session.Sound) (torrent : Torrent) :
    Session.Sound
      { session with torrents := AList.insert torrent.id torrent session.torrents } := by
  refine ⟨h.tags_nodup, fun id torrent' hlook => ?_⟩
  simp only [Table.lookup_insert_eq] at hlook
  split_ifs at hlook with heq
  · cases hlook
    exact heq.symm
  · exact h.id_eq id torrent' hlook

theorem Session.Sound.erase (h : session.Sound) (torrentID : TorrentID) :
    Session.Sound { session with torrents := AList.erase torrentID session.torrents } := by
  refine ⟨h.tags_nodup, fun id torrent' hlook => ?_⟩
  simp only [Table.lookup_erase_eq] at hlook
  split_ifs at hlook
  exact h.id_eq id torrent' hlook

theorem ready_step {s s' : SyncState} {event : Event} (h : Ready s.session s.controller)
    (hallowed : NoTagReturns s event) (hstep : step s event = some s') :
    Ready s'.session s'.controller := by
  cases event with
  | addCategory name options =>
    simp only [step] at hstep
    split_ifs at hstep
    cases hstep
    exact h.notify (·.onCategoryAdded name) (by exact ⟨h.sound.tags_nodup, h.sound.id_eq⟩)
      (·.addCategory name options) ⟨rfl, rfl, rfl, rfl⟩
  | removeCategory name =>
    cases hstep
    exact h.notify (·.onCategoryRemoved name) (by exact ⟨h.sound.tags_nodup, h.sound.id_eq⟩)
      (·.removeCategory name) ⟨rfl, rfl, rfl, rfl⟩
  | setCategoryOptions name options =>
    simp only [step] at hstep
    split_ifs at hstep with hnone
    cases hstep
    have hsome : (s.session.categories.lookup name).isSome := by
      simpa [Option.isSome_iff_ne_none] using hnone
    exact h.notify (·.onCategoryOptionsChanged name) (by exact ⟨h.sound.tags_nodup, h.sound.id_eq⟩)
      (·.setCategoryOptions options hsome) ⟨rfl, rfl, rfl, rfl⟩
  | addTag tag =>
    simp only [step] at hstep
    split_ifs at hstep with hmem
    cases hstep
    have hnodup : (s.session.tags ++ [tag]).Nodup := by
      refine nodup_append.mpr ⟨h.sound.tags_nodup, nodup_singleton tag, ?_⟩
      rintro x hx y hy rfl
      exact hmem (mem_singleton.mp hy ▸ hx)
    exact h.notify (·.onTagAdded tag) (by exact ⟨hnodup, h.sound.id_eq⟩) (·.addTag tag)
      ⟨rfl, rfl, rfl, rfl⟩
  | removeTag tag =>
    simp only [step] at hstep
    split_ifs at hstep with hmem
    cases hstep
    exact h.notify (·.onTagRemoved tag)
      (by exact ⟨h.sound.tags_nodup.erase tag, h.sound.id_eq⟩)
      (·.removeTag h.sound.tags_nodup tag) ⟨rfl, rfl, rfl, rfl⟩
  | addTorrent torrent =>
    simp only [step] at hstep
    split_ifs at hstep with hsome
    cases hstep
    have hnone : s.session.torrents.lookup torrent.id = none := by simpa using hsome
    exact h.notify (·.onTorrentAdded torrent) (h.sound.insert torrent)
      (·.addTorrent hnone) (sameSync_onTorrentAdded _ torrent)
  | removeTorrent torrentID =>
    obtain ⟨torrent, hlook, rfl⟩ := Option.map_eq_some_iff.mp hstep
    obtain rfl := h.sound.id_eq _ _ hlook
    exact h.notify (·.onTorrentAboutToBeRemoved torrent) (h.sound.erase torrent.id)
      (·.removeTorrent hlook) (sameSync_onTorrentAboutToBeRemoved _ torrent)
  | setTrackers torrentID trackers =>
    obtain ⟨torrent, hlook, rfl⟩ := Option.map_eq_some_iff.mp hstep
    obtain rfl := h.sound.id_eq _ _ hlook
    exact h.notify (·.onTorrentTrackersChanged { torrent with trackers := trackers })
      (h.sound.insert { torrent with trackers := trackers })
      (fun htracked => htracked.setTrackers { torrent with trackers := trackers } hlook)
      (sameSync_onTorrentTrackersChanged _ _)
  | changeTorrent torrent signal =>
    simp only [step] at hstep
    split_ifs at hstep with hurls
    cases hstep
    obtain ⟨old, hlook, hold⟩ := Option.map_eq_some_iff.mp hurls
    refine h.notify (·.onSignal torrent.id signal) (h.sound.insert torrent)
      (fun htracked => ?_) (sameSync_onSignal _ torrent.id signal)
    refine (htracked.replaceTorrent hlook hold).onSignal ?_ signal
    rw [present_insert, if_pos rfl]
    rfl
  | changeStatus transfer queueing limited interval =>
    cases hstep
    refine ⟨⟨h.sound.tags_nodup, h.sound.id_eq⟩, h.state.imp id ?_⟩
    rintro ⟨haccepted, htracked, hshape⟩
    exact ⟨haccepted, { htracked with }, hshape⟩
  | updateFreeDiskSpace freeDiskSpace =>
    cases hstep
    refine ⟨h.sound, h.state.imp (fun hfresh => ?_) ?_⟩
    · rw [hfresh]
      rfl
    · rintro ⟨haccepted, htracked, hshape⟩
      exact ⟨haccepted, { htracked with trackers := { htracked.trackers with } }, hshape⟩
  | request lost =>
    have hready := (h.maindataAction hallowed s.client.rid).1
    simp only [step] at hstep
    split_ifs at hstep
    · cases hstep
      exact hready
    · cases hstep
      exact hready

theorem ready_of_reachable {s : SyncState} (h : system.Reachable NoTagReturns s) :
    Ready s.session s.controller := by
  refine h.invariant ?_ fun s a s' hready hallowed hstep => ready_step hready hallowed hstep
  rintro s ⟨hsound, -, -, freeDiskSpace, hcontroller⟩
  refine ⟨hsound, Or.inl ?_⟩
  rw [hcontroller]

/-- In every run in which no tag is removed and added again between two requests, the notes of a
kind never overlap, the known trackers are those in use, and after every request the snapshot is
the session. -/
theorem snapshot_is_session {s : SyncState} (h : system.Reachable NoTagReturns s) :
    s.controller.updatedCategories.Disjoint s.controller.removedCategories ∧
      s.controller.addedTags.Disjoint s.controller.removedTags ∧
      s.controller.updatedTorrents.Disjoint s.controller.removedTorrents ∧
      s.controller.updatedTrackers.Disjoint s.controller.removedTrackers ∧
      (0 ≤ s.controller.maindataAcceptedID → Known s.session.Uses s.controller.knownTrackers) ∧
      ∀ lost s', NoTagReturns s (.request lost) → step s (.request lost) = some s' →
        Exact s'.session s'.controller ∧ Current s'.session s.controller s'.controller := by
  have hready := ready_of_reachable h
  refine ⟨?_, ?_, ?_, ?_, ?_, ?_⟩
  · rcases hready.state with hfresh | ⟨-, htracked, -⟩
    · rw [hfresh]
      exact disjoint_nil_left _
    · exact htracked.categories.disjoint
  · rcases hready.state with hfresh | ⟨-, htracked, -⟩
    · rw [hfresh]
      exact disjoint_nil_left _
    · exact htracked.tags.disjoint
  · rcases hready.state with hfresh | ⟨-, htracked, -⟩
    · rw [hfresh]
      exact disjoint_nil_left _
    · exact htracked.torrents.disjoint
  · rcases hready.state with hfresh | ⟨-, htracked, -⟩
    · rw [hfresh]
      exact disjoint_nil_left _
    · exact htracked.trackers.noted.disjoint
  · intro hconnected
    rcases hready.state with hfresh | ⟨-, htracked, -⟩
    · rw [hfresh] at hconnected
      exact absurd (show (0 : ℤ) ≤ -1 from hconnected) (by decide)
    · exact htracked.trackers.known
  · intro lost s' hallowed hstep
    obtain ⟨-, hexact, hcurrent⟩ := hready.maindataAction hallowed s.client.rid
    simp only [step] at hstep
    split_ifs at hstep
    · cases hstep
      exact ⟨hexact, hcurrent⟩
    · cases hstep
      exact ⟨hexact, hcurrent⟩

def sampleSession : Session where
  categories := AList.insert "films" {} ∅
  tags := ["seen"]
  transfer _ := .invalid

theorem initial_sampleSession : system.initial { session := sampleSession } := by
  refine ⟨⟨by decide, fun id torrent hlook => ?_⟩, rfl, rfl, 0, rfl⟩
  cases hlook

/-- A run that meets the condition: one tag is removed and another one is added. -/
def sampleEvents : List Event := [.request false, .removeTag "seen", .addTag "new"]

theorem snapshot_is_session_sample : ∃ s,
    system.runAll { session := sampleSession } sampleEvents = some s ∧
      ∀ s', step s (.request false) = some s' → s'.controller.maindataSnapshot.tags.Nodup := by
  obtain ⟨s, hs⟩ : ∃ s, system.runAll { session := sampleSession } sampleEvents = some s :=
    ⟨_, rfl⟩
  refine ⟨s, hs, fun s' hstep => ?_⟩
  have hreach : system.Reachable NoTagReturns s :=
    System.reachable_of_runAll sampleEvents (.start initial_sampleSession)
      ⟨fun tag htag => (not_mem_nil htag).elim, trivial, trivial, trivial⟩ hs
  have hallowed : ∀ tag ∈ s.controller.addedTags, tag ∉ s.controller.maindataSnapshot.tags := by
    cases hs
    decide
  exact ((snapshot_is_session hreach).2.2.2.2.2 false s' hallowed hstep).1.tags_nodup

/-- A tag that is removed and added again between two requests is in the snapshot twice, and once
it is removed for good the snapshot still lists it. -/
theorem snapshot_is_not_session :
    (∃ s, system.runAll { session := sampleSession }
        [.request false, .removeTag "seen", .addTag "seen", .request false] = some s ∧
      s.session.tags = ["seen"] ∧ s.controller.maindataSnapshot.tags = ["seen", "seen"]) ∧
    ∃ s, system.runAll { session := sampleSession }
        [.request false, .removeTag "seen", .addTag "seen", .request false, .removeTag "seen",
          .request false] = some s ∧
      s.session.tags = [] ∧ s.controller.maindataSnapshot.tags = ["seen"] :=
  ⟨⟨_, rfl, by decide, by decide⟩, ⟨_, rfl, by decide, by decide⟩⟩

end Qbutt.Sync
