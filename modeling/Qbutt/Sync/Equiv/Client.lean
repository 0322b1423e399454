import Qbutt.Sync.Equiv.Snapshot

/-!
# What the client holds

While responses are lost, the controller keeps what the client has not received.  `ClientCovered`
says that this leads from what the client holds to the snapshot; a request keeps it
(`ClientCovered.applyNotes`) as long as no waiting difference is replaced by one that lacks a field
(`Kept`), and a client that applies a covering response holds the snapshot (`ClientCovered.apply`).
So a client never loses an update in a run that meets this condition (`no_update_lost`).  Where an
item changes twice in different fields while responses are lost, the first change is lost
(`update_lost`).
-/

namespace Qbutt.Sync

open List

/-! ### Applying a response -/

/-- Items are put in a table after others were removed. -/
theorem lookup_merge {α β : Type} (merge : Option α → β → α) (old : Table String α)
    (removed : List String) (items : Table String β) (key : String) :
    (items.entries.foldl (fun t item => AList.insert item.1 (merge (t.lookup item.1) item.2) t)
        (removed.foldl (fun t key => AList.erase key t) old)).lookup key =
      received merge (old.lookup key) (key ∈ removed) (items.lookup key) := by
  obtain ⟨hin, hout⟩ := foldl_local Sigma.fst (fun key (t : Table String α) => t.lookup key)
    (fun t item => AList.insert item.1 (merge (t.lookup item.1) item.2) t)
    (fun t item x hx => by simp only [Table.lookup_insert_eq, if_neg hx])
    (fun t t' item heq => by simp only [AList.lookup_insert, heq])
    items.nodupKeys (removed.foldl (fun t key => AList.erase key t) old)
  cases hitem : items.lookup key with
  | none =>
    have hnot : key ∉ items.entries.map Sigma.fst := by
      rw [AList.lookup_eq_none] at hitem
      exact hitem
    rw [hout key hnot, lookup_foldl_erase]
    rfl
  | some item =>
    have hat := hin ⟨key, item⟩ (AList.mem_lookup_iff.mp hitem)
    simp only [AList.lookup_insert] at hat
    rw [hat, lookup_foldl_erase]
    rfl

theorem lookup_mergeItems (old : Table String QVariantMap) (removed : List String)
    {items : Table String QVariantMap} (hplain : ∀ key m, items.lookup key = some m → Plain m)
    (key : String) :
    ((mergeItems old removed items).lookup key).map QVariantMap.get =
      received mergeView ((old.lookup key).map QVariantMap.get) (key ∈ removed)
        (items.lookup key) := by
  refine (congrArg (Option.map QVariantMap.get)
    (lookup_merge (fun kept item => mergeMap (kept.getD []) item) old removed items key)).trans ?_
  unfold received
  cases hitem : items.lookup key with
  | none => split_ifs <;> rfl
  | some difference =>
    rw [Option.map_some, get_mergeMap _ _ (hplain key difference hitem).nodup]
    simp only [Option.some.injEq]
    funext field
    unfold mergeView
    split_ifs
    · rfl
    · cases old.lookup key <;> rfl

theorem lookup_mergeLists (old : Table String (List String)) (removed : List String)
    (items : Table String (List String)) (key : String) :
    (mergeLists old removed items).lookup key =
      received (fun _ list => list) (old.lookup key) (key ∈ removed) (items.lookup key) :=
  lookup_merge (fun _ list => list) old removed items key

theorem mem_foldl_setRemove {s l : List String} {x : String} :
    x ∈ l.foldl setRemove s ↔ x ∈ s ∧ x ∉ l := by
  induction l generalizing s with
  | nil => simp
  | cons y l ih =>
    rw [foldl_cons, ih, mem_setRemove, mem_cons]
    tauto

/-- The data of a client are those of a snapshot. -/
structure Matches (client : Client) (snapshot : MaindataSyncBuf) : Prop where
  categories : ∀ name, (client.categories.lookup name).map QVariantMap.get =
    (snapshot.categories.lookup name).map QVariantMap.get
  tags : ∀ tag, tag ∈ client.tags ↔ tag ∈ snapshot.tags
  torrents : ∀ torrentID, (client.torrents.lookup torrentID).map QVariantMap.get =
    (snapshot.torrents.lookup torrentID).map QVariantMap.get
  trackers : ∀ url, client.trackers.lookup url = snapshot.trackers.lookup url
  serverState : QVariantMap.Same client.serverState snapshot.serverState

/-- What waits to be sent leads from what the client holds to the snapshot. -/
structure ClientCovered (client : Client) (c : SyncController) : Prop where
  categories : Covers mergeView
    (fun name => (client.categories.lookup name).map QVariantMap.get)
    c.maindataSyncBuf.removedCategories c.maindataSyncBuf.categories.lookup
    (fun name => (c.maindataSnapshot.categories.lookup name).map QVariantMap.get)
  tags : Covers (fun _ item => item) (listed client.tags) c.maindataSyncBuf.removedTags
    (listed c.maindataSyncBuf.tags) (listed c.maindataSnapshot.tags)
  torrents : Covers mergeView
    (fun torrentID => (client.torrents.lookup torrentID).map QVariantMap.get)
    c.maindataSyncBuf.removedTorrents c.maindataSyncBuf.torrents.lookup
    (fun torrentID => (c.maindataSnapshot.torrents.lookup torrentID).map QVariantMap.get)
  trackers : Covers (fun _ list => list) client.trackers.lookup
    c.maindataSyncBuf.removedTrackers c.maindataSyncBuf.trackers.lookup
    c.maindataSnapshot.trackers.lookup
  serverState : mergeView (some (QVariantMap.get client.serverState)) c.maindataSyncBuf.serverState =
    QVariantMap.get c.maindataSnapshot.serverState

/-- What waits to be sent is plain, and its tags are in the snapshot. -/
structure Waiting (c : SyncController) : Prop where
  categories : ∀ name m, c.maindataSyncBuf.categories.lookup name = some m → Plain m
  torrents : ∀ torrentID m, c.maindataSyncBuf.torrents.lookup torrentID = some m → Plain m
  serverState : Plain c.maindataSyncBuf.serverState
  tags_nodup : c.maindataSyncBuf.tags.Nodup
  tags_subset : c.maindataSyncBuf.tags ⊆ c.maindataSnapshot.tags

/-- What a client reads outside the keys of its items is empty. -/
structure ClientShaped (client : Client) : Prop where
  categories : ∀ name m, client.categories.lookup name = some m →
    ∀ key ∉ categoryKeys, QVariantMap.get m key = .scalar .invalid
  torrents : ∀ torrentID m, client.torrents.lookup torrentID = some m →
    ∀ key ∉ torrentSchema, QVariantMap.get m key = .scalar .invalid
  serverState : ∀ key ∉ serverKeys, QVariantMap.get client.serverState key = .scalar .invalid

variable {client : Client} {c : SyncController} {s : SyncState} {event : Event}

theorem Matches.covered (h : Matches client c.maindataSnapshot) (hbuf : c.maindataSyncBuf = {}) :
    ClientCovered client c := by
  have hcategories : (fun name => (client.categories.lookup name).map QVariantMap.get) =
      fun name => (c.maindataSnapshot.categories.lookup name).map QVariantMap.get :=
    funext h.categories
  have htorrents : (fun id => (client.torrents.lookup id).map QVariantMap.get) =
      fun id => (c.maindataSnapshot.torrents.lookup id).map QVariantMap.get := funext h.torrents
  have htags : listed client.tags = listed c.maindataSnapshot.tags :=
    funext fun tag => listed_eq_iff.mpr (h.tags tag)
  have htrackers : client.trackers.lookup = c.maindataSnapshot.trackers.lookup :=
    funext h.trackers
  refine ⟨?_, ?_, ?_, ?_, ?_⟩
  · rw [hcategories, hbuf]
    exact Covers.start _ _
  · rw [htags, hbuf]
    exact Covers.start _ _
  · rw [htorrents, hbuf]
    exact Covers.start _ _
  · rw [htrackers, hbuf]
    exact Covers.start _ _
  · rw [hbuf]
    funext key
    exact h.serverState key

theorem ClientCovered.apply (h : ClientCovered client c) (hwaiting : Waiting c) (rid : ℕ) :
    Matches (client.apply { rid := rid, fullUpdate := false, data := c.maindataSyncBuf })
      c.maindataSnapshot where
  categories name :=
    (lookup_mergeItems client.categories _ hwaiting.categories name).trans (h.categories name)
  tags tag := by
    have htag := h.tags tag
    rw [← listed_isSome c.maindataSnapshot.tags, ← htag]
    show tag ∈ c.maindataSyncBuf.tags.foldl setInsert
      (c.maindataSyncBuf.removedTags.foldl setRemove client.tags) ↔ _
    rw [mem_foldl_setInsert, mem_foldl_setRemove]
    unfold received listed
    split_ifs <;> simp_all
  torrents torrentID :=
    (lookup_mergeItems client.torrents _ hwaiting.torrents torrentID).trans (h.torrents torrentID)
  trackers url := (lookup_mergeLists client.trackers _ _ url).trans (h.trackers url)
  serverState key :=
    (congrFun (get_mergeMap client.serverState _ hwaiting.serverState.nodup) key).trans
      (congrFun h.serverState key)

theorem Matches.shaped {snapshot : MaindataSyncBuf} (h : Matches client snapshot)
    (hshape : Shaped snapshot) : ClientShaped client := by
  refine ⟨fun name m hm key hkey => ?_, fun id m hm key hkey => ?_, fun key hkey => ?_⟩
  · have hview := h.categories name
    rw [hm] at hview
    obtain ⟨m', hm', heq⟩ := Option.map_eq_some_iff.mp hview.symm
    rw [← heq]
    exact get_eq_of_none (((hshape.categories name m' hm').lookup_iff key).mpr hkey)
  · have hview := h.torrents id
    rw [hm] at hview
    obtain ⟨m', hm', heq⟩ := Option.map_eq_some_iff.mp hview.symm
    rw [← heq]
    exact get_eq_of_none (((hshape.torrents id m' hm').lookup_iff key).mpr hkey)
  · rw [h.serverState key]
    exact get_eq_of_none ((hshape.serverState.lookup_iff key).mpr hkey)

/-! ### Keeping what waits -/

/-- Putting new data of an item drops no field of the difference that waits for it. -/
def KeepsFields (prev item : Option QVariantMap) (data : QVariantMap) : Prop :=
  processMap (prev.getD []) data ≠ [] → ∀ waiting, item = some waiting →
    ∀ key, (processMap (prev.getD []) data).lookup key = none → waiting.lookup key = none

/-- The condition on a request that sends differences.  No item whose difference still waits is
changed again in other fields only, and no torrent whose removal still waits is back with an empty
field. -/
structure Kept (session : Session) (c : SyncController) : Prop where
  categories : ∀ name data, c.categoryData session name = some data →
    KeepsFields (c.maindataSnapshot.categories.lookup name)
      (c.maindataSyncBuf.categories.lookup name) data
  torrents : ∀ torrentID data, c.torrentData session torrentID = some data →
    KeepsFields (c.maindataSnapshot.torrents.lookup torrentID)
      (c.maindataSyncBuf.torrents.lookup torrentID) data
  back : ∀ torrentID data, c.torrentData session torrentID = some data →
    torrentID ∈ c.maindataSyncBuf.removedTorrents → ∀ field ∈ data, field.2 ≠ .scalar .invalid
  serverState : KeepsFields (some c.maindataSnapshot.serverState)
    (some c.maindataSyncBuf.serverState) (makeServerState session c.freeDiskSpace)

theorem covers_put {keys : List String} {held : String → Option View}
    {snapshot items snapshot' items' : String → Option QVariantMap} {removed removed' : List String}
    (data : String → Option QVariantMap) (removals : List String)
    (h : Covers mergeView held removed items fun key => (snapshot key).map QVariantMap.get)
    (hremovals : ∀ key ∈ removals, key ∈ removed' ∧ items' key = none ∧ snapshot' key = none)
    (hlook : ∀ key, key ∉ removals →
      (snapshot' key, items' key) = putAll (data key) (snapshot key, items key))
    (hremoved : ∀ key, key ∉ removals → key ∈ removed' → key ∈ removed)
    (hother : ∀ key, key ∉ removals → data key = none → (key ∈ removed' ↔ key ∈ removed))
    (hdata : ∀ key d, key ∉ removals → data key = some d → Shape keys d ∧
      (snapshot key = none → processMap [] d ≠ []))
    (hheld : ∀ key view, held key = some view → ∀ field ∉ keys, view field = .scalar .invalid)
    (hshape : ∀ key m, snapshot key = some m → Shape keys m)
    (hback : ∀ key d, data key = some d → key ∈ removed → ∀ field ∈ d,
      field.2 ≠ .scalar .invalid)
    (hkeeps : ∀ key d, data key = some d → KeepsFields (snapshot key) (items key) d) :
    Covers mergeView held removed' items' fun key => (snapshot' key).map QVariantMap.get := by
  intro key
  by_cases hrem : key ∈ removals
  · obtain ⟨hmem, hitem, hsnap⟩ := hremovals key hrem
    simp [received, hmem, hitem, hsnap]
  have hat := hlook key hrem
  cases hd : data key with
  | none =>
    rw [hd] at hat
    obtain ⟨hsnap, hitem⟩ := Prod.ext_iff.mp hat
    simp only at hsnap hitem
    show received _ _ _ _ = (snapshot' key).map QVariantMap.get
    have hold : received mergeView (held key) (key ∈ removed) (items key) =
        (snapshot key).map QVariantMap.get := h key
    rw [hsnap, hitem]
    simp only [putAll, received, hother key hrem hd] at hold ⊢
    exact hold
  | some d =>
    obtain ⟨hshaped, hnew⟩ := hdata key d hrem hd
    have hput := received_put hshaped.plain (hremoved key hrem)
      (h key) hnew
      (fun view hview field hfield => hheld key view hview field ((hshaped.lookup_iff _).mp hfield))
      (fun m hm => hshaped.within (hshape key m hm)) (hback key d hd) (hkeeps key d hd)
    rw [hd, putAll, putAt] at hat
    simp only at hat
    have hview := (putAt_snapshot hshaped (snapshot key, items key)
      (hshape key) hnew).1
    rw [putAt] at hview
    simp only at hview
    split_ifs at hat hview hput <;>
      (obtain ⟨hsnap, hitem⟩ := Prod.ext_iff.mp hat
       simp only at hsnap hitem
       show received _ _ _ _ = (snapshot' key).map QVariantMap.get
       rw [hsnap, hitem]
       exact hput.trans hview.symm)

theorem serializeCategory_full (name : String) (options : CategoryOptions) :
    ∀ field ∈ serializeCategory name options, field.2 ≠ .scalar .invalid := by
  intro field hfield
  rcases mem_cons.mp hfield with rfl | hfield
  · simp
  have hfield := (mem_filter.mp hfield).1
  rcases mem_cons.mp hfield with rfl | hfield
  · have hsave : QVariantMap.get options.toJSON "save_path" = .scalar (.string options.savePath) :=
      rfl
    simp only [hsave]
    simp
  have hfield := (mem_filter.mp (mem_filter.mp hfield).1).1
  unfold CategoryOptions.toJSON at hfield
  simp only [mem_cons, not_mem_nil, or_false] at hfield
  rcases hfield with rfl | rfl | rfl | rfl | rfl | rfl
  · simp
  · cases options.downloadPath with
    | none => simp
    | some downloadPath =>
      simp only
      split_ifs <;> simp
  all_goals simp

/-- A removal that waits is one of those before, unless it is noted now. -/
theorem mem_removed_after {waiting changed removals : List String} {key : String}
    (hrem : key ∉ removals) :
    (key ∈ changed.foldl List.erase waiting ++ removals → key ∈ waiting) ∧
      (key ∉ changed → (key ∈ changed.foldl List.erase waiting ++ removals ↔ key ∈ waiting)) := by
  have hmem : key ∈ changed.foldl List.erase waiting ++ removals ↔
      key ∈ waiting.diff changed := by
    rw [mem_append, foldl_erase]
    tauto
  refine ⟨fun h => diff_subset _ _ (hmem.mp h), fun hnot => ?_⟩
  rw [hmem]
  exact ⟨fun h => diff_subset _ _ h, fun h => mem_diff_of_mem h hnot⟩

/-- Items in place of which others were put, before and after the removals. -/
theorem look_afterNotes {removals : List String} {snapshot items : Table String QVariantMap}
    {tables : Table String QVariantMap × Table String QVariantMap}
    {data : String → Option QVariantMap}
    (hlook : ∀ key, look key tables = putAll (data key)
      (look key (snapshot, removals.foldl (fun t key => AList.erase key t) items)))
    (hnone : ∀ key ∈ removals, data key = none) :
    (∀ key ∈ removals, tables.2.lookup key = none ∧
      (removals.foldl (fun t key => AList.erase key t) tables.1).lookup key = none) ∧
    ∀ key, key ∉ removals →
      ((removals.foldl (fun t key => AList.erase key t) tables.1).lookup key,
        tables.2.lookup key) = putAll (data key) (snapshot.lookup key, items.lookup key) := by
  refine ⟨fun key hkey => ⟨?_, (lookup_foldl_erase _ _ _).trans (if_pos hkey)⟩, fun key hkey => ?_⟩
  · have hat := (Prod.ext_iff.mp (hlook key)).2
    rw [hnone key hkey] at hat
    exact hat.trans ((lookup_foldl_erase _ _ _).trans (if_pos hkey))
  · have hitem : look key (snapshot, removals.foldl (fun t key => AList.erase key t) items) =
        (snapshot.lookup key, items.lookup key) :=
      Prod.ext rfl ((lookup_foldl_erase _ _ _).trans (if_neg hkey))
    rw [← hitem, ← hlook]
    exact Prod.ext ((lookup_foldl_erase _ _ _).trans (if_neg hkey)) rfl

namespace ClientCovered

variable {client : Client} {c : SyncController} {session : Session}

theorem categories_applyNotes (h : ClientCovered client c) (htracked : Tracked session c)
    (hshape : Shaped c.maindataSnapshot) (hclient : ClientShaped client) (hkept : Kept session c) :
    Covers mergeView (fun name => (client.categories.lookup name).map QVariantMap.get)
      (c.updateSyncBuf.applyNotes session).maindataSyncBuf.removedCategories
      (c.updateSyncBuf.applyNotes session).maindataSyncBuf.categories.lookup
      (fun name => ((c.updateSyncBuf.applyNotes session).maindataSnapshot.categories.lookup
        name).map QVariantMap.get) := by
  have hnodup := ((nodup_notes_iff c).mp htracked.nodup).1
  have hlook := look_categoriesAfter c.updateSyncBuf session hnodup
  have hnone : ∀ name ∈ c.removedCategories, c.categoryData session name = none := by
    intro name hname
    exact if_neg fun hmem => htracked.categories.disjoint hmem hname
  obtain ⟨hgone, hput⟩ := look_afterNotes hlook hnone
  refine @covers_put categoryKeys _ _ _ _ _ _ _ (c.categoryData session) c.removedCategories
    h.categories (fun name hname => ⟨mem_append_right _ hname, hgone name hname⟩) hput
    (fun name hname => (mem_removed_after hname).1) ?_ ?_ ?_ hshape.categories ?_ hkept.categories
  · intro name hname hdata
    refine (mem_removed_after hname).2 fun hmem => ?_
    rw [SyncController.categoryData, if_pos hmem] at hdata
    cases hdata
  · intro name d hname hdata
    unfold SyncController.categoryData at hdata
    split_ifs at hdata
    cases hdata
    exact ⟨shape_serializeCategory name _, fun _ => serializeCategory_new name _⟩
  · intro name view hview
    obtain ⟨m, hm, rfl⟩ := Option.map_eq_some_iff.mp hview
    exact hclient.categories name m hm
  · intro name d hdata _ field hfield
    unfold SyncController.categoryData at hdata
    split_ifs at hdata
    cases hdata
    exact serializeCategory_full name _ field hfield

theorem torrents_applyNotes (h : ClientCovered client c) (htracked : Tracked session c)
    (hshape : Shaped c.maindataSnapshot) (hclient : ClientShaped client) (hkept : Kept session c) :
    Covers mergeView (fun torrentID => (client.torrents.lookup torrentID).map QVariantMap.get)
      (c.updateSyncBuf.applyNotes session).maindataSyncBuf.removedTorrents
      (c.updateSyncBuf.applyNotes session).maindataSyncBuf.torrents.lookup
      (fun torrentID => ((c.updateSyncBuf.applyNotes session).maindataSnapshot.torrents.lookup
        torrentID).map QVariantMap.get) := by
  obtain ⟨-, -, -, -, hupdated, hannounced, -⟩ := (nodup_notes_iff c).mp htracked.nodup
  have hlook := look_torrentsAfter c.updateSyncBuf session hupdated hannounced
  have hnone : ∀ torrentID ∈ c.removedTorrents, c.torrentData session torrentID = none := by
    intro torrentID hid
    have habsent := htracked.torrents.removed_absent torrentID hid
    unfold present at habsent
    rw [Option.map_eq_none_iff] at habsent
    rw [SyncController.torrentData, habsent]
    rfl
  obtain ⟨hgone, hput⟩ := look_afterNotes hlook hnone
  refine @covers_put torrentSchema _ _ _ _ _ _ _ (c.torrentData session) c.removedTorrents h.torrents
    (fun id hid => ⟨mem_append_right _ hid, hgone id hid⟩) hput
    (fun id hid => (mem_removed_after hid).1) ?_ ?_ ?_ hshape.torrents
    (fun id d hd => hkept.back id d hd) hkept.torrents
  · intro id hid hdata
    refine (mem_removed_after hid).2 fun hmem => ?_
    have hpresent := htracked.torrents.changed_present id hmem
    rw [present_isSome] at hpresent
    obtain ⟨torrent, htorrent⟩ := Option.isSome_iff_exists.mp hpresent
    rw [SyncController.torrentData, htorrent] at hdata
    simp [hmem] at hdata
  · intro id d _ hdata
    exact SyncController.shape_torrentData htracked hshape hdata
  · intro id view hview
    obtain ⟨m, hm, rfl⟩ := Option.map_eq_some_iff.mp hview
    exact hclient.torrents id m hm

theorem tags_applyNotes (h : ClientCovered client c) (htracked : Tracked session c)
    (hwaiting : Waiting c) (hnew : ∀ tag ∈ c.addedTags, tag ∉ c.maindataSnapshot.tags) :
    Covers (fun _ item => item) (listed client.tags)
      (c.updateSyncBuf.applyNotes session).maindataSyncBuf.removedTags
      (listed (c.updateSyncBuf.applyNotes session).maindataSyncBuf.tags)
      (listed (c.updateSyncBuf.applyNotes session).maindataSnapshot.tags) := by
  obtain ⟨-, -, hadded, -, -, -, -⟩ := (nodup_notes_iff c).mp htracked.nodup
  have hitem : ∀ tag, tag ∈ (c.updateSyncBuf.applyNotes session).maindataSyncBuf.tags ↔
      (tag ∈ c.maindataSyncBuf.tags ∧ tag ∉ c.removedTags) ∨ tag ∈ c.addedTags := by
    intro tag
    show tag ∈ c.removedTags.foldl List.erase c.maindataSyncBuf.tags ++ c.addedTags ↔ _
    rw [mem_append, foldl_erase, hwaiting.tags_nodup.mem_sdiff_iff]
  have hsnap : ∀ tag, tag ∈ (c.updateSyncBuf.applyNotes session).maindataSnapshot.tags ↔
      (tag ∈ c.maindataSnapshot.tags ∨ tag ∈ c.addedTags) ∧ tag ∉ c.removedTags := by
    intro tag
    have hnodup : (c.maindataSnapshot.tags ++ c.addedTags).Nodup := by
      refine nodup_append.mpr ⟨htracked.tagsOnce, hadded, ?_⟩
      rintro tag htag tag' htag' rfl
      exact hnew tag htag' htag
    show tag ∈ c.removedTags.foldl List.erase (c.maindataSnapshot.tags ++ c.addedTags) ↔ _
    rw [foldl_erase, hnodup.mem_sdiff_iff, mem_append]
  refine Covers.advance c.addedTags c.removedTags h.tags ?_ ?_ ?_
  · intro tag htag
    refine ⟨mem_append_right _ htag, listed_of_not_mem ?_, listed_of_not_mem ?_⟩
    · rw [hitem]
      have hnot : tag ∉ c.addedTags := fun hmem => htracked.tags.disjoint hmem htag
      tauto
    · rw [hsnap]
      tauto
  · intro tag htag htag'
    rw [listed_of_mem ((hitem tag).mpr (Or.inr htag)),
      listed_of_mem ((hsnap tag).mpr ⟨Or.inr htag, htag'⟩)]
    rfl
  · intro tag htag htag'
    refine ⟨(mem_removed_after htag').2 htag, listed_eq_iff.mpr ?_, listed_eq_iff.mpr ?_⟩
    · rw [hitem]
      tauto
    · rw [hsnap]
      tauto

theorem trackers_applyNotes (h : ClientCovered client c) (htracked : Tracked session c) :
    Covers (fun _ list => list) client.trackers.lookup
      (c.updateSyncBuf.applyNotes session).maindataSyncBuf.removedTrackers
      (c.updateSyncBuf.applyNotes session).maindataSyncBuf.trackers.lookup
      (c.updateSyncBuf.applyNotes session).maindataSnapshot.trackers.lookup := by
  have hitem : ∀ url, (c.updateSyncBuf.applyNotes session).maindataSyncBuf.trackers.lookup url =
      if url ∈ c.updatedTrackers then some ((c.knownTrackers.lookup url).getD [])
      else if url ∈ c.removedTrackers then none else c.maindataSyncBuf.trackers.lookup url := by
    intro url
    refine (lookup_putTrackers c.updateSyncBuf _ url).trans ?_
    rw [← lookup_foldl_erase]
    rfl
  have hsnap : ∀ url, _ = if url ∈ c.removedTrackers then none
      else if url ∈ c.updatedTrackers then _ else _ :=
    c.updateSyncBuf.lookup_trackers_applyNotes session
  have hdisjoint := htracked.trackers.noted.disjoint
  refine Covers.advance c.updatedTrackers c.removedTrackers h.trackers
    ?_ ?_ ?_
  · intro url hurl
    refine ⟨mem_append_right _ hurl, ?_, ?_⟩
    · rw [hitem, if_neg (fun hmem => hdisjoint hmem hurl), if_pos hurl]
    · rw [hsnap, if_pos hurl]
  · intro url hurl hurl'
    rw [hitem, if_pos hurl, hsnap, if_neg hurl', if_pos hurl]
    rfl
  · intro url hurl hurl'
    refine ⟨(mem_removed_after hurl').2 hurl, ?_, ?_⟩
    · rw [hitem, if_neg hurl, if_neg hurl']
    · rw [hsnap, if_neg hurl', if_neg hurl]
      rfl

theorem serverState_applyNotes (h : ClientCovered client c) (hshape : Shaped c.maindataSnapshot)
    (hclient : ClientShaped client) (hkept : Kept session c) :
    mergeView (some (QVariantMap.get client.serverState))
        (c.updateSyncBuf.applyNotes session).maindataSyncBuf.serverState =
      QVariantMap.get (c.updateSyncBuf.applyNotes session).maindataSnapshot.serverState := by
  have hserver := shape_makeServerState session c.freeDiskSpace
  have hput := @received_put _ hserver.plain (some c.maindataSnapshot.serverState)
    (some (QVariantMap.get client.serverState)) False False _ _
    (some c.maindataSyncBuf.serverState) id
    (by simpa [received] using h.serverState) (fun hnone => by cases hnone)
    (fun view hview key hkey => by
      cases hview
      exact hclient.serverState key ((hserver.lookup_iff key).mp hkey))
    (fun m hm => by
      cases hm
      exact hserver.within hshape.serverState)
    (fun hfalse => hfalse.elim) hkept.serverState
  have hview : QVariantMap.get
      (c.updateSyncBuf.applyNotes session).maindataSnapshot.serverState =
      QVariantMap.get (makeServerState session c.freeDiskSpace) :=
    (SyncController.serverState_applyNotes (c := c.updateSyncBuf) hshape).1
  have hitem : (c.updateSyncBuf.applyNotes session).maindataSyncBuf.serverState =
      (c.serverStateAfter session).2 := rfl
  rw [hview, hitem]
  unfold SyncController.serverStateAfter
  simp only
  simp only [Option.getD_some] at hput
  split_ifs at hput ⊢
  · simpa [received] using hput
  · simpa [received] using hput

/-- A request keeps what the client lacks, under the condition. -/
theorem applyNotes (h : ClientCovered client c) (htracked : Tracked session c)
    (hshape : Shaped c.maindataSnapshot) (hclient : ClientShaped client) (hwaiting : Waiting c)
    (hnew : ∀ tag ∈ c.addedTags, tag ∉ c.maindataSnapshot.tags) (hkept : Kept session c) :
    ClientCovered client (c.updateSyncBuf.applyNotes session) :=
  ⟨h.categories_applyNotes htracked hshape hclient hkept, h.tags_applyNotes htracked hwaiting hnew,
    h.torrents_applyNotes htracked hshape hclient hkept, h.trackers_applyNotes htracked,
    h.serverState_applyNotes hshape hclient hkept⟩

end ClientCovered

/-! ### What waits stays plain -/

theorem plain_putAll {data item : Option QVariantMap} (hdata : ∀ d, data = some d → Plain d)
    (hitem : ∀ m, item = some m → Plain m) (snapshot : Option QVariantMap) :
    ∀ m, (putAll data (snapshot, item)).2 = some m → Plain m := by
  intro m hm
  cases hd : data with
  | none =>
    rw [hd] at hm
    exact hitem m hm
  | some d =>
    rw [hd, putAll, putAt] at hm
    simp only at hm
    split_ifs at hm
    · exact hitem m hm
    · cases hm
      exact plain_processMap (hdata d hd) _

theorem plain_foldl_erase {t : Table String QVariantMap}
    (h : ∀ key m, t.lookup key = some m → Plain m) (removed : List String) :
    ∀ key m, (removed.foldl (fun t key => AList.erase key t) t).lookup key = some m → Plain m := by
  intro key m hm
  rw [lookup_foldl_erase] at hm
  split_ifs at hm
  exact h key m hm

theorem Waiting.applyNotes {session : Session} (h : Waiting c) (htracked : Tracked session c)
    (hshape : Shaped c.maindataSnapshot)
    (hnew : ∀ tag ∈ c.addedTags, tag ∉ c.maindataSnapshot.tags) :
    Waiting (c.updateSyncBuf.applyNotes session) := by
  obtain ⟨hcategories, -, hadded, -, hupdated, hannounced, -⟩ :=
    (nodup_notes_iff c).mp htracked.nodup
  have htags : ∀ tag, tag ∈ (c.updateSyncBuf.applyNotes session).maindataSyncBuf.tags ↔
      (tag ∈ c.maindataSyncBuf.tags ∧ tag ∉ c.removedTags) ∨ tag ∈ c.addedTags := by
    intro tag
    show tag ∈ c.removedTags.foldl List.erase c.maindataSyncBuf.tags ++ c.addedTags ↔ _
    rw [mem_append, foldl_erase, h.tags_nodup.mem_sdiff_iff]
  refine ⟨fun name m hm => ?_, fun id m hm => ?_, ?_, ?_, fun tag htag => ?_⟩
  · have hat := (Prod.ext_iff.mp (look_categoriesAfter c.updateSyncBuf session hcategories name)).2
    refine plain_putAll (fun d hd => ?_) (plain_foldl_erase h.categories c.removedCategories name) _
      m (hat.symm.trans hm)
    unfold SyncController.categoryData at hd
    split_ifs at hd
    cases hd
    exact (shape_serializeCategory name _).plain
  · have hat := (Prod.ext_iff.mp
      (look_torrentsAfter c.updateSyncBuf session hupdated hannounced id)).2
    exact plain_putAll
      (fun d hd => (SyncController.shape_torrentData (c := c) htracked hshape hd).1.plain)
      (plain_foldl_erase h.torrents c.removedTorrents id) _ m (hat.symm.trans hm)
  · have hitem : (c.updateSyncBuf.applyNotes session).maindataSyncBuf.serverState =
        (c.serverStateAfter session).2 := rfl
    rw [hitem]
    unfold SyncController.serverStateAfter
    simp only
    split_ifs
    · exact h.serverState
    · exact plain_processMap (shape_makeServerState session c.freeDiskSpace).plain _
  · show (c.removedTags.foldl List.erase c.maindataSyncBuf.tags ++ c.addedTags).Nodup
    rw [foldl_erase]
    refine nodup_append.mpr ⟨h.tags_nodup.diff, hadded, ?_⟩
    rintro tag htag tag' htag' rfl
    exact hnew tag htag' (h.tags_subset (diff_subset _ _ htag))
  · have hnodup : (c.maindataSnapshot.tags ++ c.addedTags).Nodup := by
      refine nodup_append.mpr ⟨htracked.tagsOnce, hadded, ?_⟩
      rintro tag htag tag' htag' rfl
      exact hnew tag htag' htag
    show tag ∈ c.removedTags.foldl List.erase (c.maindataSnapshot.tags ++ c.addedTags)
    rw [foldl_erase, hnodup.mem_sdiff_iff, mem_append]
    rcases (htags tag).mp htag with ⟨hmem, hrem⟩ | hmem
    · exact ⟨Or.inl (h.tags_subset hmem), hrem⟩
    · exact ⟨Or.inr hmem, htracked.tags.disjoint hmem⟩

/-- Nothing is plain, and so is a shaped snapshot. -/
theorem waiting_nil (c : SyncController) : Waiting { c with maindataSyncBuf := {} } :=
  ⟨fun _ _ hm => (by cases hm), fun _ _ hm => (by cases hm), plain_nil, nodup_nil,
    nil_subset _⟩

theorem waiting_snapshot (hshape : Shaped c.maindataSnapshot)
    (hnodup : c.maindataSnapshot.tags.Nodup) :
    Waiting { c with maindataSyncBuf := c.maindataSnapshot } :=
  ⟨fun name m hm => (hshape.categories name m hm).plain,
    fun id m hm => (hshape.torrents id m hm).plain, hshape.serverState.plain, hnodup,
    List.Subset.refl _⟩

theorem Waiting.congr {c' : SyncController} (h : Waiting c)
    (hbuf : c'.maindataSyncBuf = c.maindataSyncBuf)
    (hsnapshot : c'.maindataSnapshot = c.maindataSnapshot) : Waiting c' := by
  refine ⟨?_, ?_, ?_, ?_, ?_⟩
  · rw [hbuf]
    exact h.categories
  · rw [hbuf]
    exact h.torrents
  · rw [hbuf]
    exact h.serverState
  · rw [hbuf]
    exact h.tags_nodup
  · rw [hbuf, hsnapshot]
    exact h.tags_subset

theorem ClientCovered.congr {c' : SyncController} (h : ClientCovered client c)
    (hbuf : c'.maindataSyncBuf = c.maindataSyncBuf)
    (hsnapshot : c'.maindataSnapshot = c.maindataSnapshot) : ClientCovered client c' := by
  refine ⟨?_, ?_, ?_, ?_, ?_⟩
  · rw [hbuf, hsnapshot]
    exact h.categories
  · rw [hbuf, hsnapshot]
    exact h.tags
  · rw [hbuf, hsnapshot]
    exact h.torrents
  · rw [hbuf, hsnapshot]
    exact h.trackers
  · rw [hbuf, hsnapshot]
    exact h.serverState

/-! ### Identifiers -/

theorem nextID_le (id : ℕ) : SyncController.nextID id ≤ 1000000 := by
  unfold SyncController.nextID
  omega

theorem nextID_iterate {id : ℕ} (hpos : 0 < id) (hle : id ≤ 1000000) (count : ℕ) :
    SyncController.nextID^[count] id = (id - 1 + count) % 1000000 + 1 := by
  induction count with
  | zero =>
    show id = _
    omega
  | succ count ih =>
    rw [Function.iterate_succ_apply', ih]
    unfold SyncController.nextID
    omega

/-- The identifier of a lost response is not the one the client has applied, before they come
round. -/
theorem nextID_iterate_ne {id : ℕ} (hpos : 0 < id) (hle : id ≤ 1000000) {count : ℕ}
    (hcount : 0 < count) (hlt : count < 1000000) : SyncController.nextID^[count] id ≠ id := by
  rw [nextID_iterate hpos hle]
  omega

/-! ### Runs -/

def SyncState.answering (s : SyncState) : SyncController :=
  (s.controller.start s.session).accept s.client.rid

/-- The condition on a request: fewer than 1000000 responses are lost in a row; no tag that was
added is still in the snapshot; and if differences are sent, none that waits loses a field. -/
def UpdatesKept (s : SyncState) : Event → Prop
  | .request lost =>
    (lost = true → s.lost + 1 < 1000000) ∧
      (∀ tag ∈ s.controller.addedTags, tag ∉ s.controller.maindataSnapshot.tags) ∧
      (s.answering.needsFullUpdate s.client.rid = false → Kept s.session s.answering)
  | _ => True

/-- How the client and the controller are related: the client holds the snapshot of the last
response, or the controller knows what the client holds and keeps what it lacks. -/
structure Linked (s : SyncState) : Prop where
  ready : Ready s.session s.controller
  waiting : Waiting s.controller
  shaped : ClientShaped s.client
  link : s.client.rid = 0 ∨
    0 < s.client.rid ∧ s.client.rid ≤ 1000000 ∧ s.lost < 1000000 ∧
      s.controller.maindataLastSentID = SyncController.nextID^[s.lost] s.client.rid ∧
      (s.lost = 0 ∧ Matches s.client s.controller.maindataSnapshot ∨
        0 < s.lost ∧ s.controller.maindataAcceptedID = s.client.rid ∧
          ClientCovered s.client s.controller)

/-- The controller that answers tracks the session, and if the client has applied a response, knows
what the client lacks. -/
structure Answers (s : SyncState) (c : SyncController) : Prop where
  tracked : Tracked s.session c
  shaped : Shaped c.maindataSnapshot
  new : ∀ tag ∈ c.addedTags, tag ∉ c.maindataSnapshot.tags
  waiting : Waiting c
  sent : c.maindataLastSentID = s.controller.maindataLastSentID
  full : s.client.rid = 0 → c.needsFullUpdate s.client.rid = true
  covered : 0 < s.client.rid → c.needsFullUpdate s.client.rid = false ∧
    c.maindataAcceptedID = s.client.rid ∧ ClientCovered s.client c

theorem Linked.connected (h : Linked s) (hrid : 0 < s.client.rid) :
    0 ≤ s.controller.maindataAcceptedID := by
  rcases h.ready.state with hfresh | ⟨haccepted, -, -⟩
  · rcases h.link with hzero | ⟨-, hle, -, hsent, ⟨hlost, -⟩ | ⟨-, haccepted, -⟩⟩
    · omega
    · rw [hfresh, hlost] at hsent
      have hzero : 0 = s.client.rid := hsent
      omega
    · rw [haccepted]
      exact Int.natCast_nonneg _
  · exact haccepted

theorem Linked.answers (h : Linked s)
    (hnew : ∀ tag ∈ s.controller.addedTags, tag ∉ s.controller.maindataSnapshot.tags) :
    Answers s s.answering := by
  obtain ⟨haccepted, htracked, hshape, hnew⟩ := h.ready.start hnew
  obtain ⟨buf, accepted, heq, -⟩ := Ready.accept_eq (s.controller.start s.session) s.client.rid
  have hsent : (s.controller.start s.session).maindataLastSentID =
      s.controller.maindataLastSentID := by
    unfold SyncController.start
    split_ifs <;> rfl
  have hwaiting : Waiting (s.controller.start s.session) := by
    unfold SyncController.start
    split_ifs with hneg
    · rcases h.ready.state with hfresh | ⟨hconnected, -, -⟩
      · rw [hfresh]
        exact (waiting_nil (({ freeDiskSpace := s.controller.freeDiskSpace } :
          SyncController).makeMaindataSnapshot s.session)).congr rfl rfl
      · omega
    · exact h.waiting
  refine ⟨?_, ?_, ?_, ?_, ?_, ?_, ?_⟩
  · unfold SyncState.answering
    rw [heq]
    exact htracked.withBuf _ _ _
  · unfold SyncState.answering
    rw [heq]
    exact hshape
  · unfold SyncState.answering
    rw [heq]
    exact hnew
  · unfold SyncState.answering SyncController.accept
    split_ifs
    · exact (waiting_nil (s.controller.start s.session)).congr rfl rfl
    · exact hwaiting
  · unfold SyncState.answering
    rw [heq]
    exact hsent
  · intro hzero
    rw [hzero]
    rfl
  · intro hrid
    have hconnected := h.connected hrid
    have hstart : s.controller.start s.session = s.controller := if_neg (not_lt.mpr hconnected)
    rcases h.link with hzero | ⟨-, hle, hlt, hid, hlink⟩
    · omega
    unfold SyncState.answering
    rw [hstart]
    rcases hlink with ⟨hlost, hmatches⟩ | ⟨hlost, hacc, hcovered⟩
    · -- the client acknowledges the last response
      have hlast : s.controller.maindataLastSentID = s.client.rid := by
        rw [hid, hlost]
        rfl
      have hcond : (s.client.rid : ℤ) > 0 ∧ s.controller.maindataLastSentID > 0 ∧
          (s.controller.maindataLastSentID : ℤ) = s.client.rid := by omega
      have haccept : s.controller.accept s.client.rid =
          { s.controller with
            maindataAcceptedID := s.client.rid, maindataSyncBuf := {} } := if_pos hcond
      rw [haccept]
      refine ⟨?_, rfl, Matches.covered hmatches rfl⟩
      simp only [SyncController.needsFullUpdate]
      simp [hrid, hlast]
    · -- the last response was lost
      have hne := nextID_iterate_ne hrid hle hlost hlt
      have hcond : ¬((s.client.rid : ℤ) > 0 ∧ s.controller.maindataLastSentID > 0 ∧
          (s.controller.maindataLastSentID : ℤ) = s.client.rid) := by omega
      have haccept : s.controller.accept s.client.rid = s.controller := if_neg hcond
      have hpos : 0 < s.controller.maindataLastSentID := by
        rw [hid, nextID_iterate hrid hle]
        omega
      rw [haccept]
      refine ⟨?_, hacc, hcovered⟩
      simp only [SyncController.needsFullUpdate]
      simp [hrid, hpos, hacc]

/-- What a request does: the client would hold the snapshot if it received the response, and if it
does not, the controller still knows what it lacks. -/
theorem Linked.request (h : Linked s) {lost : Bool} (hallowed : UpdatesKept s (.request lost)) :
    let result := s.controller.maindataAction s.session s.client.rid
    Waiting result.2 ∧ Shaped result.2.maindataSnapshot ∧
      result.1.rid = SyncController.nextID s.controller.maindataLastSentID ∧
      result.2.maindataLastSentID = SyncController.nextID s.controller.maindataLastSentID ∧
      Matches (s.client.apply result.1) result.2.maindataSnapshot ∧
      (0 < s.client.rid → result.2.maindataAcceptedID = s.client.rid ∧
        ClientCovered s.client result.2) := by
  obtain ⟨-, hnew, hkept⟩ := hallowed
  have hanswers := h.answers hnew
  set c := s.answering with hc
  have htracked : Tracked s.session c.updateSyncBuf := hanswers.tracked.withBuf _ _ _
  obtain ⟨htracked', hshape, -⟩ := htracked.applyNotes hanswers.shaped hanswers.new
  have hwaiting := hanswers.waiting.applyNotes hanswers.tracked hanswers.shaped hanswers.new
  set c' := c.updateSyncBuf.applyNotes s.session with hc'
  have haccepted : c'.maindataAcceptedID = c.maindataAcceptedID := rfl
  -- what the request returns, for a full update and for differences
  have hresult : s.controller.maindataAction s.session s.client.rid =
      let c'' := if c.needsFullUpdate s.client.rid then
        { c' with maindataSyncBuf := c'.maindataSnapshot } else c'
      let id := SyncController.nextID c.maindataLastSentID
      ({ rid := id, fullUpdate := c.needsFullUpdate s.client.rid, data := c''.maindataSyncBuf },
        { c'' with maindataLastSentID := id }) := rfl
  rw [hresult, hanswers.sent]
  simp only
  rcases Nat.eq_zero_or_pos s.client.rid with hzero | hrid
  · have hfull := hanswers.full hzero
    rw [hfull, if_pos rfl]
    refine ⟨?_, hshape, trivial, trivial, ⟨fun _ => rfl, fun _ => Iff.rfl, fun _ => rfl, fun _ => rfl,
      fun _ => rfl⟩, fun hpos => absurd hzero hpos.ne'⟩
    exact (waiting_snapshot hshape htracked'.tagsOnce).congr rfl rfl
  · obtain ⟨hdiff, hacc, hcovered⟩ := hanswers.covered hrid
    have hcovered' := hcovered.applyNotes hanswers.tracked hanswers.shaped h.shaped
      hanswers.waiting hanswers.new (hkept hdiff)
    rw [hdiff]
    simp only [Bool.false_eq_true, if_false]
    refine ⟨hwaiting.congr rfl rfl, hshape, trivial, trivial, hcovered'.apply hwaiting _, fun _ => ?_⟩
    exact ⟨haccepted.trans hacc, hcovered'.congr rfl rfl⟩

theorem sameSync_step {s' : SyncState} (hstep : step s event = some s')
    (hevent : ∀ lost, event ≠ .request lost) :
    s'.client = s.client ∧ s'.lost = s.lost ∧ SameSync s.controller s'.controller := by
  cases event with
  | addCategory name options =>
    simp only [step] at hstep
    split_ifs at hstep
    cases hstep
    exact ⟨rfl, rfl, SameSync.notify s.controller (·.onCategoryAdded name) ⟨rfl, rfl, rfl, rfl⟩⟩
  | removeCategory name =>
    cases hstep
    exact ⟨rfl, rfl, SameSync.notify s.controller (·.onCategoryRemoved name) ⟨rfl, rfl, rfl, rfl⟩⟩
  | setCategoryOptions name options =>
    simp only [step] at hstep
    split_ifs at hstep
    cases hstep
    exact ⟨rfl, rfl, SameSync.notify s.controller (·.onCategoryOptionsChanged name) ⟨rfl, rfl, rfl, rfl⟩⟩
  | addTag tag =>
    simp only [step] at hstep
    split_ifs at hstep
    cases hstep
    exact ⟨rfl, rfl, SameSync.notify s.controller (·.onTagAdded tag) ⟨rfl, rfl, rfl, rfl⟩⟩
  | removeTag tag =>
    simp only [step] at hstep
    split_ifs at hstep
    cases hstep
    exact ⟨rfl, rfl, SameSync.notify s.controller (·.onTagRemoved tag) ⟨rfl, rfl, rfl, rfl⟩⟩
  | addTorrent torrent =>
    simp only [step] at hstep
    split_ifs at hstep
    cases hstep
    exact ⟨rfl, rfl, SameSync.notify s.controller (·.onTorrentAdded torrent) (sameSync_onTorrentAdded _ torrent)⟩
  | removeTorrent torrentID =>
    obtain ⟨torrent, -, rfl⟩ := Option.map_eq_some_iff.mp hstep
    exact ⟨rfl, rfl, SameSync.notify s.controller (·.onTorrentAboutToBeRemoved torrent) (sameSync_onTorrentAboutToBeRemoved _ torrent)⟩
  | setTrackers torrentID trackers =>
    obtain ⟨torrent, -, rfl⟩ := Option.map_eq_some_iff.mp hstep
    exact ⟨rfl, rfl, SameSync.notify s.controller (·.onTorrentTrackersChanged _) (sameSync_onTorrentTrackersChanged _ _)⟩
  | changeTorrent torrent signal =>
    simp only [step] at hstep
    split_ifs at hstep
    cases hstep
    exact ⟨rfl, rfl, SameSync.notify s.controller (·.onSignal torrent.id signal) (sameSync_onSignal _ torrent.id signal)⟩
  | changeStatus transfer queueing limited interval =>
    cases hstep
    exact ⟨rfl, rfl, SameSync.rfl⟩
  | updateFreeDiskSpace freeDiskSpace =>
    cases hstep
    exact ⟨rfl, rfl, ⟨rfl, rfl, rfl, rfl⟩⟩
  | request lost => exact absurd rfl (hevent lost)

theorem noTagReturns_of_updatesKept (h : UpdatesKept s event) : NoTagReturns s event := by
  cases event with
  | request lost => exact h.2.1
  | _ => trivial

theorem linked_step {s' : SyncState} (h : Linked s) (hallowed : UpdatesKept s event)
    (hstep : step s event = some s') : Linked s' := by
  have hready := ready_step h.ready (noTagReturns_of_updatesKept hallowed) hstep
  by_cases hrequest : ∃ lost, event = .request lost
  · obtain ⟨lost, rfl⟩ := hrequest
    obtain ⟨hwaiting, hshape, hrid, hsent, hmatches, hcovered⟩ := h.request hallowed
    simp only [step] at hstep
    split_ifs at hstep with hlost
    · -- the response is lost: the controller still knows what the client lacks
      cases hstep
      refine ⟨hready, hwaiting, h.shaped, h.link.imp id ?_⟩
      rintro ⟨hpos, hle, hlt, hid, -⟩
      refine ⟨hpos, hle, hallowed.1 hlost, ?_, Or.inr ⟨Nat.succ_pos _, hcovered hpos⟩⟩
      rw [Function.iterate_succ_apply', ← hid]
      exact hsent
    · -- the client applies the response and holds the snapshot
      cases hstep
      have happly : (s.client.apply (s.controller.maindataAction s.session s.client.rid).1).rid =
          SyncController.nextID s.controller.maindataLastSentID := by
        rw [← hrid]
        unfold Client.apply
        simp only
        split_ifs <;> rfl
      refine ⟨hready, hwaiting, hmatches.shaped hshape, Or.inr ⟨?_, ?_, ?_, ?_, Or.inl
        ⟨rfl, hmatches⟩⟩⟩
      · rw [happly]
        exact Nat.succ_pos _
      · rw [happly]
        exact nextID_le _
      · show 0 < 1000000
        decide
      · show _ = (s.client.apply _).rid
        rw [happly]
        exact hsent
  · have hevent : ∀ lost, event ≠ .request lost := fun lost heq => hrequest ⟨lost, heq⟩
    obtain ⟨hclient, hlost, hsame⟩ := sameSync_step hstep hevent
    refine ⟨hready, h.waiting.congr hsame.buf hsame.snapshot, hclient ▸ h.shaped, ?_⟩
    rw [hclient, hlost, hsame.sent, hsame.accepted, hsame.snapshot]
    refine h.link.imp id ?_
    rintro ⟨hpos, hle, hlt, hid, hlink⟩
    refine ⟨hpos, hle, hlt, hid, hlink.imp id ?_⟩
    rintro ⟨hlost, hacc, hcovered⟩
    exact ⟨hlost, hacc, hcovered.congr hsame.buf hsame.snapshot⟩

/-- In every run that meets the condition, a client that has just applied a response holds the
snapshot. -/
theorem no_update_lost {s : SyncState} (h : system.Reachable UpdatesKept s) {s' : SyncState}
    (hallowed : UpdatesKept s (.request false)) (hstep : step s (.request false) = some s') :
    Matches s'.client s'.controller.maindataSnapshot := by
  have hlinked : Linked s := by
    refine h.invariant ?_ fun s a s' hlinked hallowed hstep => linked_step hlinked hallowed hstep
    rintro s ⟨hsound, hclient, hlost, freeDiskSpace, hcontroller⟩
    refine ⟨⟨hsound, Or.inl ?_⟩, ?_, ?_, Or.inl ?_⟩
    · rw [hcontroller]
    · rw [hcontroller]
      exact (waiting_nil { freeDiskSpace := freeDiskSpace }).congr rfl rfl
    · rw [hclient]
      exact ⟨fun _ _ hm => (by cases hm), fun _ _ hm => (by cases hm), fun _ _ => rfl⟩
    · rw [hclient]
  obtain ⟨-, -, -, -, hmatches, -⟩ := hlinked.request hallowed
  cases hstep
  exact hmatches

theorem kept_of_nothing_waits (session : Session) (hbuf : c.maindataSyncBuf = {}) :
    Kept session c := by
  refine ⟨fun name data _ _ w hw => ?_, fun id data _ _ w hw => ?_, fun id data _ hid => ?_,
    fun _ w hw key _ => ?_⟩
  · rw [hbuf] at hw
    cases hw
  · rw [hbuf] at hw
    cases hw
  · rw [hbuf] at hid
    exact (not_mem_nil hid).elim
  · rw [hbuf] at hw
    cases hw
    rfl

/-- A run that meets the condition: a tag is added between two responses that arrive. -/
theorem no_update_lost_sample : ∃ s s',
    system.runAll { session := sampleSession } [.request false, .addTag "new"] = some s ∧
      step s (.request false) = some s' ∧ "new" ∈ s'.client.tags := by
  obtain ⟨s, hs⟩ : ∃ s, system.runAll { session := sampleSession }
      [.request false, .addTag "new"] = some s := ⟨_, rfl⟩
  obtain ⟨s', hs'⟩ : ∃ s', step s (.request false) = some s' := ⟨_, rfl⟩
  refine ⟨s, s', hs, hs', ?_⟩
  have hreach : system.Reachable UpdatesKept s :=
    System.reachable_of_runAll [.request false, .addTag "new"] (.start initial_sampleSession)
      ⟨⟨fun hlost => (by cases hlost), fun tag htag => (not_mem_nil htag).elim,
        fun hdiff => (by cases hdiff)⟩, trivial, trivial⟩ hs
  have hallowed : UpdatesKept s (.request false) := by
    refine ⟨fun hlost => (by cases hlost), ?_, fun _ => kept_of_nothing_waits _ ?_⟩
    · cases hs
      decide
    · cases hs
      rfl
  rw [(no_update_lost hreach hallowed hs').tags]
  cases hs
  cases hs'
  decide

/-- The updates of a client that loses one: two options of a category change one after the other,
and the response with the first change does not arrive. -/
def lostEvents : List Event :=
  [.request false, .setCategoryOptions "films" { savePath := "/films" }, .request true,
    .setCategoryOptions "films" { savePath := "/films", ratioLimit := 1 }, .request false]

/-- The response that follows the lost one holds the second change only.  The client that applies
it keeps the old first option. -/
theorem update_lost : ∃ s old new,
    system.runAll { session := sampleSession } lostEvents = some s ∧
      s.client.rid = s.controller.maindataLastSentID ∧ s.lost = 0 ∧
      s.client.categories.lookup "films" = some old ∧
      s.controller.maindataSnapshot.categories.lookup "films" = some new ∧
      (QVariantMap.get old "savePath").differs (.string "") = false ∧
      (QVariantMap.get new "savePath").differs (.string "") = true ∧
      ¬ Matches s.client s.controller.maindataSnapshot := by
  have hrun : (system.runAll { session := sampleSession } lostEvents).any fun s =>
      s.client.rid == s.controller.maindataLastSentID && s.lost == 0 &&
        (s.client.categories.lookup "films").any
          (fun m => !(QVariantMap.get m "savePath").differs (.string "")) &&
        (s.controller.maindataSnapshot.categories.lookup "films").any
          (fun m => (QVariantMap.get m "savePath").differs (.string "")) := by
    decide +kernel
  obtain ⟨s, hs, hrun⟩ := (Option.any_eq_true _ _).mp hrun
  simp only [Bool.and_eq_true, beq_iff_eq, Option.any_eq_true, Bool.not_eq_true'] at hrun
  obtain ⟨⟨⟨hrid, hlost⟩, old, hold, holdPath⟩, new, hnew, hnewPath⟩ := hrun
  refine ⟨s, old, new, hs, hrid, hlost, hold, hnew, holdPath, hnewPath, fun hmatches => ?_⟩
  have hview := hmatches.categories "films"
  rw [hold, hnew] at hview
  have hsame : QVariantMap.get old = QVariantMap.get new := Option.some.inj hview
  rw [hsame, hnewPath] at holdPath
  cases holdPath

end Qbutt.Sync
