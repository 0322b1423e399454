import Qbutt.Sync.Equiv.Difference

/-!
# What the slots note

`Tracked` is the invariant of the controller: the notes of each kind say where the snapshot differs
from the session, and the known trackers are exactly those in use.  Every slot keeps it for the
session that its signal reports (`Tracked.addCategory` to `Tracked.setTrackers`).
-/

namespace Qbutt.Sync

open List

/-! ### Sets -/

variable {s items : List String} {url x item : String}

theorem mem_setInsert {y : String} : x ∈ setInsert s y ↔ x = y ∨ x ∈ s := by
  unfold setInsert
  split_ifs with h
  · constructor
    · exact Or.inr
    · rintro (rfl | hx)
      · exact h
      · exact hx
  · rw [mem_append, mem_singleton, or_comm]

theorem mem_setRemove {y : String} : x ∈ setRemove s y ↔ x ≠ y ∧ x ∈ s := by
  simp [setRemove, and_comm]

theorem nodup_setInsert (h : s.Nodup) (y : String) : (setInsert s y).Nodup := by
  unfold setInsert
  split_ifs with hy
  · exact h
  · exact nodup_append.mpr ⟨h, nodup_singleton y, by
      rintro a ha b hb rfl
      exact hy ((mem_singleton.mp hb) ▸ ha)⟩

theorem nodup_setRemove (h : s.Nodup) (y : String) : (setRemove s y).Nodup :=
  h.filter _

theorem mem_foldl_setInsert {l : List String} : x ∈ l.foldl setInsert s ↔ x ∈ l ∨ x ∈ s := by
  induction l generalizing s with
  | nil => simp
  | cons y l ih =>
    rw [foldl_cons, ih, mem_setInsert, mem_cons]
    tauto

/-! ### The data of a session -/

def Session.category (session : Session) (name : String) : Option View :=
  (session.categories.lookup name).map fun options =>
    QVariantMap.get (serializeCategory name options)

def listed (items : List String) (item : String) : Option Unit :=
  if item ∈ items then some () else none

def present {ν : Type} (t : Table String ν) (key : String) : Option Unit :=
  (t.lookup key).map fun _ => ()

def Session.Uses (session : Session) (url : String) (torrentID : TorrentID) : Prop :=
  ∃ torrent, session.torrents.lookup torrentID = some torrent ∧ url ∈ torrent.urls

theorem listed_isSome (items : List String) (item : String) :
    (listed items item).isSome ↔ item ∈ items := by
  unfold listed
  split_ifs with h <;> simp [h]

theorem listed_eq_iff {items' : List String} :
    listed items item = listed items' item ↔ (item ∈ items ↔ item ∈ items') := by
  unfold listed
  split_ifs with h h' h' <;> simp [h, h']

theorem listed_of_mem (h : item ∈ items) : listed items item = some () := if_pos h

theorem listed_of_not_mem (h : item ∉ items) : listed items item = none := if_neg h

theorem present_isSome {ν : Type} {t : Table String ν} {key : String} :
    (present t key).isSome = (t.lookup key).isSome := Option.isSome_map ..

theorem present_insert {ν : Type} (t : Table String ν) (key : String) (value : ν) (key' : String) :
    present (AList.insert key value t) key' = if key' = key then some () else present t key' := by
  unfold present
  rw [Table.lookup_insert_eq]
  split_ifs <;> rfl

theorem present_erase {ν : Type} (t : Table String ν) (key key' : String) :
    present (AList.erase key t) key' = if key' = key then none else present t key' := by
  unfold present
  rw [Table.lookup_erase_eq]
  split_ifs <;> rfl

/-! ### Known trackers -/

def Known (uses : String → TorrentID → Prop) (known : Table String (List TorrentID)) : Prop :=
  ∀ url,
    match known.lookup url with
    | some torrentIDs =>
      torrentIDs ≠ [] ∧ torrentIDs.Nodup ∧ ∀ torrentID, torrentID ∈ torrentIDs ↔ uses url torrentID
    | none => ∀ torrentID, ¬ uses url torrentID

/-- The known trackers are those in use, and the snapshot of the trackers differs from them where
that is noted. -/
structure TrackersTracked (uses : String → TorrentID → Prop) (c : SyncController) : Prop where
  known : Known uses c.knownTrackers
  noted : Noted c.knownTrackers.lookup c.maindataSnapshot.trackers.lookup c.updatedTrackers
    c.removedTrackers
  updated_nodup : c.updatedTrackers.Nodup
  removed_nodup : c.removedTrackers.Nodup

def OnlyTrackers (c c' : SyncController) : Prop :=
  c' = { c with
    knownTrackers := c'.knownTrackers
    updatedTrackers := c'.updatedTrackers
    removedTrackers := c'.removedTrackers }

theorem OnlyTrackers.refl (c : SyncController) : OnlyTrackers c c := rfl

theorem OnlyTrackers.trans {c c' c'' : SyncController} (h : OnlyTrackers c c')
    (h' : OnlyTrackers c' c'') : OnlyTrackers c c'' := by
  unfold OnlyTrackers at *
  rw [h', h]

/-- A loop whose steps only change what is known of trackers. -/
theorem OnlyTrackers.foldl {ε : Type} {g : SyncController → ε → SyncController}
    (hg : ∀ c e, OnlyTrackers c (g c e)) (es : List ε) (c : SyncController) :
    OnlyTrackers c (es.foldl g c) := by
  induction es generalizing c with
  | nil => exact .refl c
  | cons e es ih => exact (hg c e).trans (ih _)

theorem onlyTrackers_leaveTracker (c : SyncController) (torrentID : TorrentID) (url : String)
    (torrentIDs : List TorrentID) : OnlyTrackers c (c.leaveTracker torrentID url torrentIDs) := by
  unfold SyncController.leaveTracker
  simp only
  split_ifs <;> rfl

theorem onlyTrackers_dropTracker (c : SyncController) (torrentID : TorrentID) (url : String) :
    OnlyTrackers c (c.dropTracker torrentID url) := by
  unfold SyncController.dropTracker
  split
  · rfl
  · exact onlyTrackers_leaveTracker c torrentID url _

theorem onlyTrackers_visitTracker (c : SyncController) (torrentID : TorrentID)
    (currentTrackers : List String) (url : String) (torrentIDs : List TorrentID) :
    OnlyTrackers c (c.visitTracker torrentID currentTrackers url torrentIDs) := by
  unfold SyncController.visitTracker
  split_ifs
  · exact onlyTrackers_leaveTracker c torrentID url torrentIDs
  · rfl
  · rfl

theorem onlyTrackers_learnTracker (c : SyncController) (torrentID : TorrentID) (url : String) :
    OnlyTrackers c (c.learnTracker torrentID url) := by
  unfold SyncController.learnTracker
  split_ifs <;> rfl

variable {uses uses' : String → TorrentID → Prop} {known : Table String (List TorrentID)}

theorem Known.congr (h : Known uses known)
    (huses : ∀ url torrentID, uses' url torrentID ↔ uses url torrentID) : Known uses' known := by
  have heq : uses' = uses := funext fun url => funext fun torrentID => propext (huses url torrentID)
  rw [heq]
  exact h

theorem Known.lookup_none (h : Known uses known) (hlook : known.lookup url = none)
    (torrentID : TorrentID) : ¬ uses url torrentID := by
  have hurl := h url
  rw [hlook] at hurl
  exact hurl torrentID

variable {torrentIDs : List TorrentID}

theorem Known.lookup_some (h : Known uses known) (hlook : known.lookup url = some torrentIDs) :
    torrentIDs ≠ [] ∧ torrentIDs.Nodup ∧
      ∀ torrentID, torrentID ∈ torrentIDs ↔ uses url torrentID := by
  have hurl := h url
  rw [hlook] at hurl
  exact hurl

theorem Known.mem_getD (h : Known uses known) (url : String) :
    ((known.lookup url).getD []).Nodup ∧
      ∀ torrentID, torrentID ∈ (known.lookup url).getD [] ↔ uses url torrentID := by
  cases hlook : known.lookup url with
  | none => exact ⟨nodup_nil, fun torrentID => by simpa using h.lookup_none hlook torrentID⟩
  | some torrentIDs => exact (h.lookup_some hlook).2

/-- Known trackers after the users of one tracker have changed, to some. -/
theorem Known.insert (h : Known uses known) (hne : torrentIDs ≠ []) (hnodup : torrentIDs.Nodup)
    (hurl : ∀ torrentID, torrentID ∈ torrentIDs ↔ uses' url torrentID)
    (hother : ∀ url' torrentID, url' ≠ url → (uses' url' torrentID ↔ uses url' torrentID)) :
    Known uses' (AList.insert url torrentIDs known) := by
  intro url'
  rw [Table.lookup_insert_eq]
  split_ifs with heq
  · subst heq
    exact ⟨hne, hnodup, hurl⟩
  · have hold := h url'
    split at hold <;> simpa only [hother _ _ heq] using hold

/-- Known trackers after the last user of one tracker has left it. -/
theorem Known.erase (h : Known uses known) (hurl : ∀ torrentID, ¬ uses' url torrentID)
    (hother : ∀ url' torrentID, url' ≠ url → (uses' url' torrentID ↔ uses url' torrentID)) :
    Known uses' (AList.erase url known) := by
  intro url'
  rw [Table.lookup_erase_eq]
  split_ifs with heq
  · subst heq
    exact hurl
  · have hold := h url'
    split at hold <;> simpa only [hother _ _ heq] using hold

namespace TrackersTracked

variable {uses uses' : String → TorrentID → Prop} {c : SyncController}

theorem congr (h : TrackersTracked uses c)
    (huses : ∀ url torrentID, uses' url torrentID ↔ uses url torrentID) :
    TrackersTracked uses' c :=
  ⟨h.known.congr huses, h.noted, h.updated_nodup, h.removed_nodup⟩

/-- A tracker gets users. -/
theorem insert (h : TrackersTracked uses c) (hne : torrentIDs ≠ []) (hnodup : torrentIDs.Nodup)
    (hurl : ∀ torrentID, torrentID ∈ torrentIDs ↔ uses' url torrentID)
    (hother : ∀ url' torrentID, url' ≠ url → (uses' url' torrentID ↔ uses url' torrentID))
    {removed : List String} (hremoved : ∀ x, x ∈ removed ↔ x ≠ url ∧ x ∈ c.removedTrackers)
    (hnodup' : removed.Nodup) :
    TrackersTracked uses' { c with
      knownTrackers := AList.insert url torrentIDs c.knownTrackers
      updatedTrackers := setInsert c.updatedTrackers url
      removedTrackers := removed } where
  known := h.known.insert hne hnodup hurl hother
  noted := by
    refine h.noted.put url ?_ (fun x hx => ?_) (fun x => mem_setInsert) hremoved
    · rw [AList.lookup_insert, Option.isSome_some]
    · rw [Table.lookup_insert_eq, if_neg hx]
  updated_nodup := nodup_setInsert h.updated_nodup url
  removed_nodup := hnodup'

theorem useTracker (h : TrackersTracked uses c) (torrentID : TorrentID) (url : String) :
    TrackersTracked (fun url' id => uses url' id ∨ (url' = url ∧ id = torrentID))
      (c.useTracker torrentID url) := by
  obtain ⟨hnodup, hmem⟩ := h.known.mem_getD url
  refine h.insert ?_ (nodup_setInsert hnodup torrentID) ?_ ?_ (fun x => mem_setRemove)
    (nodup_setRemove h.removed_nodup url)
  · exact ne_nil_of_mem (mem_setInsert.mpr (Or.inl rfl))
  · intro id
    rw [mem_setInsert, hmem]
    tauto
  · intro url' id hne
    simp [hne]

theorem leaveTracker (h : TrackersTracked uses c) (torrentID : TorrentID)
    (hlook : c.knownTrackers.lookup url = some torrentIDs) :
    TrackersTracked (fun url' id => uses url' id ∧ ¬(url' = url ∧ id = torrentID))
      (c.leaveTracker torrentID url torrentIDs) := by
  obtain ⟨-, hnodup, hmem⟩ := h.known.lookup_some hlook
  have hother : ∀ url' id, url' ≠ url →
      ((uses url' id ∧ ¬(url' = url ∧ id = torrentID)) ↔ uses url' id) := by
    intro url' id hne
    simp [hne]
  have hnot : url ∉ c.removedTrackers := h.noted.not_removed (by rw [hlook, Option.isSome_some])
  unfold SyncController.leaveTracker
  simp only
  split_ifs with hempty
  · have hall : ∀ id, id ∉ setRemove torrentIDs torrentID := by
      rw [isEmpty_iff.mp hempty]
      exact fun id => not_mem_nil
    refine ⟨h.known.erase (fun id hid => ?_) hother, ?_,
      nodup_setRemove h.updated_nodup url, nodup_setInsert h.removed_nodup url⟩
    · exact hall id (mem_setRemove.mpr ⟨fun heq => hid.2 ⟨rfl, heq⟩, (hmem id).mpr hid.1⟩)
    · refine h.noted.erase url ?_ (fun x hx => ?_) (fun x => mem_setRemove) (fun x => mem_setInsert)
      · rw [AList.lookup_erase]
      · rw [Table.lookup_erase_eq, if_neg hx]
  · refine h.insert (by simpa using hempty) (nodup_setRemove hnodup torrentID) ?_ hother ?_
      h.removed_nodup
    · intro id
      rw [mem_setRemove, hmem]
      tauto
    · intro x
      refine ⟨fun hx => ⟨?_, hx⟩, And.right⟩
      rintro rfl
      exact hnot hx

theorem dropTracker (h : TrackersTracked uses c) (torrentID : TorrentID) (url : String) :
    TrackersTracked (fun url' id => uses url' id ∧ ¬(url' = url ∧ id = torrentID))
      (c.dropTracker torrentID url) := by
  unfold SyncController.dropTracker
  split
  · next hlook =>
    refine h.congr fun url' id => ⟨And.left, fun hid => ⟨hid, ?_⟩⟩
    rintro ⟨rfl, -⟩
    exact h.known.lookup_none hlook id hid
  · next torrentIDs hlook => exact h.leaveTracker torrentID hlook

theorem visitTracker (h : TrackersTracked uses c) (torrentID : TorrentID)
    (currentTrackers : List String) (hlook : c.knownTrackers.lookup url = some torrentIDs) :
    TrackersTracked
      (fun url' id => if url' = url ∧ id = torrentID then url' ∈ currentTrackers else uses url' id)
      (c.visitTracker torrentID currentTrackers url torrentIDs) := by
  obtain ⟨-, hnodup, hmem⟩ := h.known.lookup_some hlook
  unfold SyncController.visitTracker
  split_ifs with hleave hjoin
  · refine (h.leaveTracker torrentID hlook).congr fun url' id => ?_
    split_ifs with heq
    · simp [heq, hleave.2]
    · simp [heq]
  · have hnot : url ∉ c.removedTrackers := h.noted.not_removed (by rw [hlook, Option.isSome_some])
    refine h.insert ?_ (nodup_setInsert hnodup torrentID) ?_ ?_ ?_ h.removed_nodup
    · exact ne_nil_of_mem (mem_setInsert.mpr (Or.inl rfl))
    · intro id
      rw [mem_setInsert, hmem]
      by_cases heq : id = torrentID
      · simp [heq, hjoin.1]
      · simp [heq]
    · intro url' id hne
      simp [hne]
    · intro x
      refine ⟨fun hx => ⟨?_, hx⟩, And.right⟩
      rintro rfl
      exact hnot hx
  · refine h.congr fun url' id => ?_
    split_ifs with heq
    · obtain ⟨rfl, rfl⟩ := heq
      have hiff := hmem id
      tauto
    · rfl

/-- A tracker of the torrent is known afterwards; a known one has the torrent already. -/
theorem learnTracker (h : TrackersTracked uses c) (torrentID : TorrentID)
    (hknown : (c.knownTrackers.lookup url).isSome → uses url torrentID) :
    TrackersTracked (fun url' id => uses url' id ∨ (url' = url ∧ id = torrentID))
      (c.learnTracker torrentID url) := by
  unfold SyncController.learnTracker
  split_ifs with hlook
  · refine h.congr fun url' id => ⟨?_, Or.inl⟩
    rintro (hid | ⟨rfl, rfl⟩)
    · exact hid
    · exact hknown hlook
  · have hnone : c.knownTrackers.lookup url = none := by simpa using hlook
    refine h.insert (cons_ne_nil _ _) (nodup_singleton _) ?_ ?_ (fun x => mem_setRemove)
      (nodup_setRemove h.removed_nodup url)
    · intro id
      have hnot := h.known.lookup_none hnone id
      simp [hnot]
    · intro url' id hne
      simp [hne]

/-! ### The loops over the trackers of a torrent -/

theorem useTrackers (h : TrackersTracked uses c) (torrentID : TorrentID) (urls : List String) :
    TrackersTracked (fun url id => uses url id ∨ (url ∈ urls ∧ id = torrentID))
      (urls.foldl (fun c url => c.useTracker torrentID url) c) := by
  induction urls generalizing uses c with
  | nil => exact h.congr fun url id => by simp
  | cons url urls ih =>
    refine (ih (h.useTracker torrentID url)).congr fun url' id => ?_
    rw [mem_cons]
    tauto

theorem dropTrackers (h : TrackersTracked uses c) (torrentID : TorrentID) (urls : List String) :
    TrackersTracked (fun url id => uses url id ∧ ¬(url ∈ urls ∧ id = torrentID))
      (urls.foldl (fun c url => c.dropTracker torrentID url) c) := by
  induction urls generalizing uses c with
  | nil => exact h.congr fun url id => by simp
  | cons url urls ih =>
    refine (ih (h.dropTracker torrentID url)).congr fun url' id => ?_
    rw [mem_cons]
    tauto

theorem lookup_visitTracker (c : SyncController) (torrentID : TorrentID)
    (currentTrackers : List String) {url' : String} (torrentIDs : List TorrentID)
    (hne : url' ≠ url) :
    (c.visitTracker torrentID currentTrackers url torrentIDs).knownTrackers.lookup url' =
      c.knownTrackers.lookup url' := by
  unfold SyncController.visitTracker SyncController.leaveTracker
  simp only
  split_ifs <;> simp [Table.lookup_insert_eq, Table.lookup_erase_eq, hne]

theorem visitTrackers (torrentID : TorrentID) (currentTrackers : List String)
    {entries : List (Sigma fun _ : String => List TorrentID)}
    (hnodup : (entries.map Sigma.fst).Nodup) (h : TrackersTracked uses c)
    (hentries : ∀ entry ∈ entries, c.knownTrackers.lookup entry.1 = some entry.2) :
    TrackersTracked
      (fun url id => if url ∈ entries.map Sigma.fst ∧ id = torrentID then url ∈ currentTrackers
        else uses url id)
      (entries.foldl
        (fun c entry => c.visitTracker torrentID currentTrackers entry.1 entry.2) c) := by
  induction entries generalizing uses c with
  | nil => exact h.congr fun url id => by simp
  | cons entry entries ih =>
    obtain ⟨hnot, hnodup⟩ := nodup_cons.mp hnodup
    have hstep := h.visitTracker torrentID currentTrackers (hentries entry mem_cons_self)
    have hrest : ∀ entry' ∈ entries,
        (c.visitTracker torrentID currentTrackers entry.1 entry.2).knownTrackers.lookup entry'.1 =
          some entry'.2 := by
      intro entry' hentry'
      have hne : entry'.1 ≠ entry.1 := fun heq => hnot (heq ▸ mem_map_of_mem hentry')
      rw [lookup_visitTracker c torrentID currentTrackers entry.2 hne]
      exact hentries entry' (mem_cons_of_mem _ hentry')
    refine (ih hnodup hstep hrest).congr fun url id => ?_
    simp only [map_cons, mem_cons]
    split_ifs <;> tauto

theorem learnTrackers (h : TrackersTracked uses c) (torrentID : TorrentID) (urls : List String)
    (hknown : ∀ url ∈ urls, (c.knownTrackers.lookup url).isSome → uses url torrentID) :
    TrackersTracked (fun url id => uses url id ∨ (url ∈ urls ∧ id = torrentID))
      (urls.foldl (fun c url => c.learnTracker torrentID url) c) := by
  induction urls generalizing uses c with
  | nil => exact h.congr fun url id => by simp
  | cons url urls ih =>
    have hstep := h.learnTracker torrentID (hknown url mem_cons_self)
    have hrest : ∀ url' ∈ urls,
        ((c.learnTracker torrentID url).knownTrackers.lookup url').isSome →
          uses url' torrentID ∨ (url' = url ∧ torrentID = torrentID) := by
      intro url' hurl' hsome
      by_cases heq : url' = url
      · exact Or.inr ⟨heq, rfl⟩
      · left
        refine hknown url' (mem_cons_of_mem _ hurl') ?_
        unfold SyncController.learnTracker at hsome
        split_ifs at hsome
        · exact hsome
        · simpa [Table.lookup_insert_eq, heq] using hsome
    refine (ih hstep hrest).congr fun url' id => ?_
    rw [mem_cons]
    tauto

theorem followTrackers (h : TrackersTracked uses c) (torrentID : TorrentID)
    (currentTrackers : List String) :
    let visited := c.knownTrackers.entries.foldl
      (fun c entry => c.visitTracker torrentID currentTrackers entry.1 entry.2) c
    let c' := currentTrackers.foldl (fun c url => c.learnTracker torrentID url) visited
    TrackersTracked (fun url id => if id = torrentID then url ∈ currentTrackers else uses url id)
      c' := by
  have hnodup : (c.knownTrackers.entries.map Sigma.fst).Nodup := c.knownTrackers.nodupKeys
  have hentries : ∀ entry ∈ c.knownTrackers.entries,
      c.knownTrackers.lookup entry.1 = some entry.2 :=
    fun entry hentry => AList.mem_lookup_iff.mpr hentry
  have hvisited := visitTrackers torrentID currentTrackers hnodup h hentries
  have hunknown : ∀ url, url ∉ c.knownTrackers.entries.map Sigma.fst → ∀ id, ¬ uses url id := by
    intro url hurl
    refine h.known.lookup_none ?_
    rw [AList.lookup_eq_none]
    exact hurl
  have hlearned := hvisited.learnTrackers torrentID currentTrackers <| by
    intro url hurl hsome
    -- a tracker that is known now was visited, with the torrent among its current users
    by_cases hmem : url ∈ c.knownTrackers.entries.map Sigma.fst
    · rw [if_pos ⟨hmem, rfl⟩]
      exact hurl
    · obtain ⟨torrentIDs, hlook⟩ := Option.isSome_iff_exists.mp hsome
      obtain ⟨hne, -, hids⟩ := hvisited.known.lookup_some hlook
      obtain ⟨id, hid⟩ := exists_mem_of_ne_nil _ hne
      have huse := (hids id).mp hid
      rw [if_neg (fun hand => hmem hand.1)] at huse
      exact absurd huse (hunknown url hmem id)
  refine hlearned.congr fun url id => ?_
  by_cases hid : id = torrentID
  · by_cases hmem : url ∈ c.knownTrackers.entries.map Sigma.fst
    · simp only [hid, if_true, and_true, hmem, or_self]
    · have hnot := hunknown url hmem torrentID
      simp only [hid, if_true, and_true, hmem, if_false, hnot, false_or]
  · simp only [hid, and_false, if_false, or_false]

end TrackersTracked

/-! ### The invariant -/

def SyncController.notes (c : SyncController) : List (List String) :=
  [c.updatedCategories, c.removedCategories, c.addedTags, c.removedTags, c.updatedTorrents,
    c.announcedTorrents, c.removedTorrents]

/-- The notes say where the snapshot differs from the session, and the known trackers are the ones
in use. -/
structure Tracked (session : Session) (c : SyncController) : Prop where
  categories : Noted session.category
    (fun name => (c.maindataSnapshot.categories.lookup name).map QVariantMap.get)
    c.updatedCategories c.removedCategories
  tags : Noted (listed session.tags) (listed c.maindataSnapshot.tags) c.addedTags c.removedTags
  torrents : Noted (present session.torrents) (present c.maindataSnapshot.torrents)
    c.updatedTorrents c.removedTorrents
  announced : ∀ torrentID ∈ c.announcedTorrents, (present session.torrents torrentID).isSome
  trackers : TrackersTracked session.Uses c
  nodup : ∀ note ∈ c.notes, note.Nodup
  tagsOnce : c.maindataSnapshot.tags.Nodup

/-- All notes are sets. -/
theorem nodup_notes_iff (c : SyncController) :
    (∀ note ∈ c.notes, note.Nodup) ↔
      c.updatedCategories.Nodup ∧ c.removedCategories.Nodup ∧ c.addedTags.Nodup ∧
        c.removedTags.Nodup ∧ c.updatedTorrents.Nodup ∧ c.announcedTorrents.Nodup ∧
        c.removedTorrents.Nodup := by
  simp [SyncController.notes]

theorem category_insert (session : Session) (name : String) (options : CategoryOptions)
    (name' : String) :
    Session.category { session with categories := AList.insert name options session.categories }
        name' =
      if name' = name then some (QVariantMap.get (serializeCategory name options))
      else session.category name' := by
  unfold Session.category
  simp only [Table.lookup_insert_eq]
  split_ifs with heq
  · subst heq
    rfl
  · rfl

theorem category_erase (session : Session) (name name' : String) :
    Session.category { session with categories := AList.erase name session.categories } name' =
      if name' = name then none else session.category name' := by
  unfold Session.category
  simp only [Table.lookup_erase_eq]
  split_ifs <;> rfl

theorem listed_append (items : List String) (item item' : String) :
    listed (items ++ [item]) item' = if item' = item then some () else listed items item' := by
  unfold listed
  simp only [mem_append, mem_singleton]
  split_ifs <;> tauto

theorem listed_erase (hnodup : items.Nodup) (item item' : String) :
    listed (items.erase item) item' = if item' = item then none else listed items item' := by
  unfold listed
  simp only [hnodup.mem_erase_iff]
  split_ifs <;> tauto

namespace Tracked

variable {session : Session} {c : SyncController}

theorem addCategory (h : Tracked session c) (name : String) (options : CategoryOptions) :
    Tracked
      { session with categories := AList.insert name options session.categories }
      (c.onCategoryAdded name) :=
  { h with
    categories := by
      refine h.categories.put name ?_ (fun x hx => ?_) (fun x => mem_setInsert)
        (fun x => mem_setRemove)
      · rw [category_insert, if_pos rfl, Option.isSome_some]
      · rw [category_insert, if_neg hx]
    trackers := { h.trackers with }
    nodup := by
      have hnodup := h.nodup
      rw [nodup_notes_iff] at hnodup ⊢
      exact ⟨nodup_setInsert hnodup.1 name, nodup_setRemove hnodup.2.1 name, hnodup.2.2⟩ }

theorem removeCategory (h : Tracked session c) (name : String) :
    Tracked { session with categories := AList.erase name session.categories }
      (c.onCategoryRemoved name) :=
  { h with
    categories := by
      refine h.categories.erase name ?_ (fun x hx => ?_) (fun x => mem_setRemove)
        (fun x => mem_setInsert)
      · rw [category_erase, if_pos rfl]
      · rw [category_erase, if_neg hx]
    trackers := { h.trackers with }
    nodup := by
      have hnodup := h.nodup
      rw [nodup_notes_iff] at hnodup ⊢
      exact ⟨nodup_setRemove hnodup.1 name, nodup_setInsert hnodup.2.1 name, hnodup.2.2⟩ }

theorem setCategoryOptions (h : Tracked session c) {name : String} (options : CategoryOptions)
    (hname : (session.categories.lookup name).isSome) :
    Tracked { session with categories := AList.insert name options session.categories }
      (c.onCategoryOptionsChanged name) :=
  { h with
    categories := by
      refine h.categories.touch name ?_ ?_ (fun x hx => ?_) (fun x => mem_setInsert)
      · rw [Session.category, Option.isSome_map]
        exact hname
      · rw [category_insert, if_pos rfl, Option.isSome_some]
      · rw [category_insert, if_neg hx]
    trackers := { h.trackers with }
    nodup := by
      have hnodup := h.nodup
      rw [nodup_notes_iff] at hnodup ⊢
      exact ⟨nodup_setInsert hnodup.1 name, hnodup.2⟩ }

theorem addTag (h : Tracked session c) (tag : String) :
    Tracked { session with tags := session.tags ++ [tag] } (c.onTagAdded tag) :=
  { h with
    tags := by
      refine h.tags.put tag ?_ (fun x hx => ?_) (fun x => mem_setInsert) (fun x => mem_setRemove)
      · rw [listed_append, if_pos rfl, Option.isSome_some]
      · rw [listed_append, if_neg hx]
    trackers := { h.trackers with }
    nodup := by
      have hnodup := h.nodup
      rw [nodup_notes_iff] at hnodup ⊢
      exact ⟨hnodup.1, hnodup.2.1, nodup_setInsert hnodup.2.2.1 tag,
        nodup_setRemove hnodup.2.2.2.1 tag, hnodup.2.2.2.2⟩ }

theorem removeTag (h : Tracked session c) (hnodup : session.tags.Nodup) (tag : String) :
    Tracked { session with tags := session.tags.erase tag } (c.onTagRemoved tag) :=
  { h with
    tags := by
      refine h.tags.erase tag ?_ (fun x hx => ?_) (fun x => mem_setRemove) (fun x => mem_setInsert)
      · rw [listed_erase hnodup, if_pos rfl]
      · rw [listed_erase hnodup, if_neg hx]
    trackers := { h.trackers with }
    nodup := by
      have hnodup := h.nodup
      rw [nodup_notes_iff] at hnodup ⊢
      exact ⟨hnodup.1, hnodup.2.1, nodup_setRemove hnodup.2.2.1 tag,
        nodup_setInsert hnodup.2.2.2.1 tag, hnodup.2.2.2.2⟩ }

/-! ### Torrents -/

/-- What a slot does with the trackers of a torrent is independent of the other notes. -/
theorem withTrackers {c c' : SyncController} {session : Session} (honly : OnlyTrackers c c')
    (hcategories : Noted session.category
      (fun name => (c.maindataSnapshot.categories.lookup name).map QVariantMap.get)
      c.updatedCategories c.removedCategories)
    (htags : Noted (listed session.tags) (listed c.maindataSnapshot.tags) c.addedTags c.removedTags)
    (htorrents : Noted (present session.torrents) (present c.maindataSnapshot.torrents)
      c.updatedTorrents c.removedTorrents)
    (hannounced : ∀ torrentID ∈ c.announcedTorrents, (present session.torrents torrentID).isSome)
    (htrackers : TrackersTracked session.Uses c') (hnodup : ∀ note ∈ c.notes, note.Nodup)
    (honce : c.maindataSnapshot.tags.Nodup) : Tracked session c' := by
  rw [honly] at htrackers ⊢
  exact ⟨hcategories, htags, htorrents, hannounced, htrackers, hnodup, honce⟩

theorem uses_insert (session : Session) (torrent : Torrent) (torrentID : TorrentID) (url : String)
    (id : TorrentID) :
    Session.Uses { session with torrents := AList.insert torrentID torrent session.torrents } url id ↔
      if id = torrentID then url ∈ torrent.urls else session.Uses url id := by
  unfold Session.Uses
  simp only [Table.lookup_insert_eq]
  split_ifs with heq <;> simp

theorem uses_erase (session : Session) (torrentID : TorrentID) (url : String) (id : TorrentID) :
    Session.Uses { session with torrents := AList.erase torrentID session.torrents } url id ↔
      id ≠ torrentID ∧ session.Uses url id := by
  unfold Session.Uses
  simp only [Table.lookup_erase_eq]
  split_ifs with heq <;> simp [heq]

variable {torrent old : Torrent}

theorem addTorrent (h : Tracked session c) (hnew : session.torrents.lookup torrent.id = none) :
    Tracked { session with torrents := AList.insert torrent.id torrent session.torrents }
      (c.onTorrentAdded torrent) := by
  set c₁ : SyncController :=
    { c with
      removedTorrents := setRemove c.removedTorrents torrent.id
      updatedTorrents := setInsert c.updatedTorrents torrent.id
      announcedTorrents := setInsert c.announcedTorrents torrent.id } with hc₁
  have htracked : TrackersTracked session.Uses c₁ := { h.trackers with }
  have htrackers := htracked.useTrackers torrent.id torrent.urls
  have honly := OnlyTrackers.foldl (g := fun c url => c.useTracker torrent.id url)
    (fun _ _ => rfl) torrent.urls c₁
  have hnodup := (nodup_notes_iff c).mp h.nodup
  refine withTrackers (c := c₁) honly h.categories h.tags ?_ ?_ ?_ ?_ h.tagsOnce
  · refine h.torrents.put torrent.id ?_ (fun x hx => ?_) (fun x => mem_setInsert)
      (fun x => mem_setRemove)
    · rw [present_insert, if_pos rfl, Option.isSome_some]
    · rw [present_insert, if_neg hx]
  · intro torrentID hmem
    rw [present_insert]
    split_ifs with heq
    · rfl
    · exact h.announced torrentID ((mem_setInsert.mp hmem).resolve_left heq)
  · refine htrackers.congr fun url id => ?_
    rw [uses_insert]
    split_ifs with heq
    · have hnot : ¬ session.Uses url id := by
        rintro ⟨torrent', hlook, -⟩
        rw [heq, hnew] at hlook
        cases hlook
      tauto
    · simp [heq]
  · rw [nodup_notes_iff]
    exact ⟨hnodup.1, hnodup.2.1, hnodup.2.2.1, hnodup.2.2.2.1,
      nodup_setInsert hnodup.2.2.2.2.1 _, nodup_setInsert hnodup.2.2.2.2.2.1 _,
      nodup_setRemove hnodup.2.2.2.2.2.2 _⟩

theorem removeTorrent (h : Tracked session c)
    (hlook : session.torrents.lookup torrent.id = some torrent) :
    Tracked { session with torrents := AList.erase torrent.id session.torrents }
      (c.onTorrentAboutToBeRemoved torrent) := by
  set c₁ : SyncController :=
    { c with
      announcedTorrents := setRemove c.announcedTorrents torrent.id
      updatedTorrents := setRemove c.updatedTorrents torrent.id
      removedTorrents := setInsert c.removedTorrents torrent.id } with hc₁
  have htracked : TrackersTracked session.Uses c₁ := { h.trackers with }
  have htrackers := htracked.dropTrackers torrent.id torrent.urls
  have honly := OnlyTrackers.foldl (fun c => onlyTrackers_dropTracker c torrent.id) torrent.urls c₁
  have hnodup := (nodup_notes_iff c).mp h.nodup
  refine withTrackers (c := c₁) honly h.categories h.tags ?_ ?_ ?_ ?_ h.tagsOnce
  · refine h.torrents.erase torrent.id ?_ (fun x hx => ?_) (fun x => mem_setRemove)
      (fun x => mem_setInsert)
    · rw [present_erase, if_pos rfl]
    · rw [present_erase, if_neg hx]
  · intro torrentID hmem
    obtain ⟨hne, hmem⟩ := mem_setRemove.mp hmem
    rw [present_erase, if_neg hne]
    exact h.announced torrentID hmem
  · refine htrackers.congr fun url id => ?_
    rw [uses_erase]
    constructor
    · rintro ⟨hne, huse⟩
      exact ⟨huse, fun hand => hne hand.2⟩
    · rintro ⟨huse, hnot⟩
      refine ⟨?_, huse⟩
      rintro rfl
      obtain ⟨torrent', hlook', hurl⟩ := huse
      rw [hlook] at hlook'
      cases hlook'
      exact hnot ⟨hurl, rfl⟩
  · rw [nodup_notes_iff]
    exact ⟨hnodup.1, hnodup.2.1, hnodup.2.2.1, hnodup.2.2.2.1,
      nodup_setRemove hnodup.2.2.2.2.1 _, nodup_setRemove hnodup.2.2.2.2.2.1 _,
      nodup_setInsert hnodup.2.2.2.2.2.2 _⟩

variable {torrentID : TorrentID}

theorem present_replace {session : Session} (torrent : Torrent)
    (hlook : session.torrents.lookup torrentID = some old) :
    present (AList.insert torrentID torrent session.torrents) = present session.torrents := by
  funext id
  rw [present_insert]
  split_ifs with heq
  · rw [heq, present, hlook]
    rfl
  · rfl

theorem onlyTrackers_onTorrentTrackersChanged (c : SyncController) (torrent : Torrent) :
    OnlyTrackers { c with announcedTorrents := setInsert c.announcedTorrents torrent.id }
      (c.onTorrentTrackersChanged torrent) := by
  set currentTrackers := torrent.urls.foldl setInsert [] with hcurrent
  have hvisited := OnlyTrackers.foldl
    (g := fun c entry => c.visitTracker torrent.id currentTrackers entry.1 entry.2)
    (fun c entry => onlyTrackers_visitTracker c torrent.id currentTrackers entry.1 entry.2)
    c.knownTrackers.entries c
  have hlearned := hvisited.trans
    (OnlyTrackers.foldl (fun c => onlyTrackers_learnTracker c torrent.id) currentTrackers _)
  unfold OnlyTrackers at hlearned ⊢
  unfold SyncController.onTorrentTrackersChanged
  simp only
  rw [hlearned]

theorem setTrackers (h : Tracked session c) (torrent : Torrent)
    (hlook : session.torrents.lookup torrent.id = some old) :
    Tracked { session with torrents := AList.insert torrent.id torrent session.torrents }
      (c.onTorrentTrackersChanged torrent) := by
  have htrackers := h.trackers.followTrackers torrent.id (torrent.urls.foldl setInsert [])
  have honly := onlyTrackers_onTorrentTrackersChanged c torrent
  have hpresent := present_replace torrent hlook
  have hnodup := (nodup_notes_iff c).mp h.nodup
  set c₁ : SyncController :=
    { c with announcedTorrents := setInsert c.announcedTorrents torrent.id } with hc₁
  refine withTrackers (c := c₁) honly h.categories h.tags ?_ ?_ ?_ ?_ h.tagsOnce
  · show Noted (present (AList.insert torrent.id torrent session.torrents)) _ _ _
    rw [hpresent]
    exact h.torrents
  · intro torrentID hmem
    show (present (AList.insert torrent.id torrent session.torrents) torrentID).isSome
    rw [hpresent]
    rcases mem_setInsert.mp hmem with rfl | hmem
    · rw [present, hlook]
      rfl
    · exact h.announced torrentID hmem
  · refine TrackersTracked.congr { htrackers with } fun url id => ?_
    rw [uses_insert]
    split_ifs with heq
    · rw [mem_foldl_setInsert]
      simp
    · rfl
  · rw [nodup_notes_iff]
    exact ⟨hnodup.1, hnodup.2.1, hnodup.2.2.1, hnodup.2.2.2.1, hnodup.2.2.2.2.1,
      nodup_setInsert hnodup.2.2.2.2.2.1 _, hnodup.2.2.2.2.2.2⟩

/-- A torrent changes without a signal. -/
theorem replaceTorrent (h : Tracked session c)
    (hlook : session.torrents.lookup torrent.id = some old) (hurls : old.urls = torrent.urls) :
    Tracked { session with torrents := AList.insert torrent.id torrent session.torrents } c := by
  have hpresent := present_replace torrent hlook
  refine ⟨h.categories, h.tags, ?_, ?_, h.trackers.congr fun url id => ?_, h.nodup, h.tagsOnce⟩
  · show Noted (present (AList.insert torrent.id torrent session.torrents)) _ _ _
    rw [hpresent]
    exact h.torrents
  · show ∀ torrentID ∈ c.announcedTorrents,
      (present (AList.insert torrent.id torrent session.torrents) torrentID).isSome
    rw [hpresent]
    exact h.announced
  · rw [uses_insert]
    split_ifs with heq
    · unfold Session.Uses
      rw [heq, hlook, ← hurls]
      simp
    · rfl

theorem onTorrentUpdated (h : Tracked session c)
    (hid : (present session.torrents torrentID).isSome) :
    Tracked session (c.onTorrentUpdated torrentID) := by
  have hnodup := (nodup_notes_iff c).mp h.nodup
  refine ⟨h.categories, h.tags, ?_, h.announced, { h.trackers with }, ?_, h.tagsOnce⟩
  · exact h.torrents.touch torrentID hid hid (fun _ _ => rfl) fun x => mem_setInsert
  · rw [nodup_notes_iff]
    exact ⟨hnodup.1, hnodup.2.1, hnodup.2.2.1, hnodup.2.2.2.1, nodup_setInsert hnodup.2.2.2.2.1 _,
      hnodup.2.2.2.2.2⟩

theorem onAnnounced (h : Tracked session c) (hid : (present session.torrents torrentID).isSome) :
    Tracked session (c.onTorrentTrackerEntryStatusesUpdated torrentID) := by
  have hnodup := (nodup_notes_iff c).mp h.nodup
  refine ⟨h.categories, h.tags, h.torrents, ?_, { h.trackers with }, ?_, h.tagsOnce⟩
  · intro id hmem
    rcases mem_setInsert.mp hmem with rfl | hmem
    · exact hid
    · exact h.announced id hmem
  · rw [nodup_notes_iff]
    exact ⟨hnodup.1, hnodup.2.1, hnodup.2.2.1, hnodup.2.2.2.1, hnodup.2.2.2.2.1,
      nodup_setInsert hnodup.2.2.2.2.2.1 _, hnodup.2.2.2.2.2.2⟩

theorem onSignal (h : Tracked session c) (hid : (present session.torrents torrentID).isSome)
    (signal : TorrentSignal) : Tracked session (c.onSignal torrentID signal) := by
  cases signal with
  | silent => exact h
  | updated => exact h.onTorrentUpdated hid
  | stopped => exact (h.onTorrentUpdated hid).onAnnounced hid
  | trackerEntryStatusesUpdated => exact h.onAnnounced hid

end Tracked

end Qbutt.Sync
