import Qbutt.Sync.Difference
import Qbutt.Sync.Session

/-!
# The synchronisation controller

`SyncController` of `webui/api/synccontroller.cpp`: the slots that note what the session changed,
and `maindataAction`, which folds the notes into a snapshot of the session and sends the client
what it lacks.  The sets of the source are lists without repetition; its hashes are tables.
-/

namespace Qbutt.Sync

/-! ### Sets -/

/-- `QSet::insert`. -/
def setInsert (s : List String) (x : String) : List String := if x ∈ s then s else s ++ [x]

/-- `QSet::remove`. -/
def setRemove (s : List String) (x : String) : List String := s.filter (· ≠ x)

/-! ### State -/

/-- `MaindataSyncBuf`: what a client is sent. -/
structure MaindataSyncBuf where
  categories : Table String QVariantMap := ∅
  removedCategories : List String := []
  tags : List String := []
  removedTags : List String := []
  torrents : Table String QVariantMap := ∅
  removedTorrents : List String := []
  trackers : Table String (List String) := ∅
  removedTrackers : List String := []
  serverState : QVariantMap := []

/-- The members of `SyncController` that the main data uses. -/
structure SyncController where
  freeDiskSpace : ℤ := 0
  knownTrackers : Table String (List TorrentID) := ∅
  updatedCategories : List String := []
  removedCategories : List String := []
  addedTags : List String := []
  removedTags : List String := []
  updatedTrackers : List String := []
  removedTrackers : List String := []
  updatedTorrents : List TorrentID := []
  announcedTorrents : List TorrentID := []
  removedTorrents : List TorrentID := []
  maindataSnapshot : MaindataSyncBuf := {}
  maindataSyncBuf : MaindataSyncBuf := {}
  maindataLastSentID : ℕ := 0
  maindataAcceptedID : ℤ := -1

namespace SyncController

variable (c : SyncController)

/-! ### Slots -/

def updateFreeDiskSpace (freeDiskSpace : ℤ) : SyncController :=
  { c with freeDiskSpace := freeDiskSpace }

def onCategoryAdded (categoryName : String) : SyncController :=
  { c with
    removedCategories := setRemove c.removedCategories categoryName
    updatedCategories := setInsert c.updatedCategories categoryName }

def onCategoryRemoved (categoryName : String) : SyncController :=
  { c with
    updatedCategories := setRemove c.updatedCategories categoryName
    removedCategories := setInsert c.removedCategories categoryName }

def onCategoryOptionsChanged (categoryName : String) : SyncController :=
  { c with updatedCategories := setInsert c.updatedCategories categoryName }

def onTagAdded (tag : String) : SyncController :=
  { c with
    removedTags := setRemove c.removedTags tag
    addedTags := setInsert c.addedTags tag }

def onTagRemoved (tag : String) : SyncController :=
  { c with
    addedTags := setRemove c.addedTags tag
    removedTags := setInsert c.removedTags tag }

def useTracker (torrentID : TorrentID) (url : String) : SyncController :=
  { c with
    knownTrackers :=
      AList.insert url (setInsert ((c.knownTrackers.lookup url).getD []) torrentID) c.knownTrackers
    updatedTrackers := setInsert c.updatedTrackers url
    removedTrackers := setRemove c.removedTrackers url }

def onTorrentAdded (torrent : Torrent) : SyncController :=
  torrent.urls.foldl (fun c url => c.useTracker torrent.id url)
    { c with
      removedTorrents := setRemove c.removedTorrents torrent.id
      updatedTorrents := setInsert c.updatedTorrents torrent.id
      announcedTorrents := setInsert c.announcedTorrents torrent.id }

/-- A torrent stops using a tracker that it used with others or alone. -/
def leaveTracker (torrentID : TorrentID) (url : String) (torrentIDs : List TorrentID) :
    SyncController :=
  let torrentIDs := setRemove torrentIDs torrentID
  if torrentIDs.isEmpty then
    { c with
      knownTrackers := AList.erase url c.knownTrackers
      updatedTrackers := setRemove c.updatedTrackers url
      removedTrackers := setInsert c.removedTrackers url }
  else
    { c with
      knownTrackers := AList.insert url torrentIDs c.knownTrackers
      updatedTrackers := setInsert c.updatedTrackers url }

def dropTracker (torrentID : TorrentID) (url : String) : SyncController :=
  match c.knownTrackers.lookup url with
  | none => c
  | some torrentIDs => c.leaveTracker torrentID url torrentIDs

def onTorrentAboutToBeRemoved (torrent : Torrent) : SyncController :=
  torrent.urls.foldl (fun c url => c.dropTracker torrent.id url)
    { c with
      announcedTorrents := setRemove c.announcedTorrents torrent.id
      updatedTorrents := setRemove c.updatedTorrents torrent.id
      removedTorrents := setInsert c.removedTorrents torrent.id }

/-- The slots that note that the data of a torrent has changed: `onTorrentCategoryChanged`,
`onTorrentMetadataReceived`, `onTorrentStarted`, `onTorrentSavePathChanged`,
`onTorrentSavingModeChanged`, `onTorrentTagAdded` and `onTorrentTagRemoved`, and each torrent of
`onTorrentsUpdated`. -/
def onTorrentUpdated (torrentID : TorrentID) : SyncController :=
  { c with updatedTorrents := setInsert c.updatedTorrents torrentID }

def onTorrentTrackerEntryStatusesUpdated (torrentID : TorrentID) : SyncController :=
  { c with announcedTorrents := setInsert c.announcedTorrents torrentID }

def onTorrentStopped (torrentID : TorrentID) : SyncController :=
  (c.onTorrentUpdated torrentID).onTorrentTrackerEntryStatusesUpdated torrentID

def visitTracker (torrentID : TorrentID) (currentTrackers : List String) (knownTracker : String)
    (torrentIDs : List TorrentID) : SyncController :=
  if torrentID ∈ torrentIDs ∧ knownTracker ∉ currentTrackers then
    c.leaveTracker torrentID knownTracker torrentIDs
  else if knownTracker ∈ currentTrackers ∧ torrentID ∉ torrentIDs then
    { c with
      knownTrackers := AList.insert knownTracker (setInsert torrentIDs torrentID) c.knownTrackers
      updatedTrackers := setInsert c.updatedTrackers knownTracker }
  else c

def learnTracker (torrentID : TorrentID) (currentTracker : String) : SyncController :=
  if (c.knownTrackers.lookup currentTracker).isSome then c
  else
    { c with
      knownTrackers := AList.insert currentTracker [torrentID] c.knownTrackers
      updatedTrackers := setInsert c.updatedTrackers currentTracker
      removedTrackers := setRemove c.removedTrackers currentTracker }

def onTorrentTrackersChanged (torrent : Torrent) : SyncController :=
  let currentTrackers := torrent.urls.foldl setInsert []
  let c := c.knownTrackers.entries.foldl
    (fun c entry => c.visitTracker torrent.id currentTrackers entry.1 entry.2) c
  let c := currentTrackers.foldl (fun c url => c.learnTracker torrent.id url) c
  { c with announcedTorrents := setInsert c.announcedTorrents torrent.id }

/-! ### The first request -/

def makeMaindataSnapshot (session : Session) : SyncController :=
  let knownTrackers : Table String (List TorrentID) :=
    session.torrents.values.foldl
      (fun known torrent => torrent.urls.foldl
        (fun known url =>
          AList.insert url (setInsert ((known.lookup url).getD []) torrent.id) known) known) ∅
  { c with
    knownTrackers := knownTrackers
    maindataAcceptedID := 0
    maindataSnapshot :=
      { torrents := session.torrents.mapTo fun _ torrent =>
          addAnnounceStats (QVariantMap.drop (serialize torrent) KEY_TORRENT_ID) torrent
        categories := session.categories.mapTo serializeCategory
        tags := session.tags
        trackers := knownTrackers
        serverState := makeServerState session c.freeDiskSpace } }

/-! ### Later requests -/

/-- The first loops of `generateMaindataSyncData`: what waits to be sent gives way to newer notes. -/
def updateSyncBuf : SyncController :=
  { c with
    maindataSyncBuf :=
      { c.maindataSyncBuf with
        removedCategories :=
          c.updatedCategories.foldl List.erase c.maindataSyncBuf.removedCategories
        categories :=
          c.removedCategories.foldl (fun t key => AList.erase key t) c.maindataSyncBuf.categories
        removedTags := c.addedTags.foldl List.erase c.maindataSyncBuf.removedTags
        tags := c.removedTags.foldl List.erase c.maindataSyncBuf.tags
        removedTorrents := c.updatedTorrents.foldl List.erase c.maindataSyncBuf.removedTorrents
        torrents :=
          c.removedTorrents.foldl (fun t key => AList.erase key t) c.maindataSyncBuf.torrents
        removedTrackers := c.updatedTrackers.foldl List.erase c.maindataSyncBuf.removedTrackers
        trackers :=
          c.removedTrackers.foldl (fun t key => AList.erase key t) c.maindataSyncBuf.trackers } }

end SyncController

/-- Compare an item with its snapshot, which becomes empty if there was none; a difference replaces
the one that waits to be sent. -/
def putDifference (tables : Table String QVariantMap × Table String QVariantMap) (key : String)
    (data : QVariantMap) : Table String QVariantMap × Table String QVariantMap :=
  let itemSnapshot := (tables.1.lookup key).getD []
  let syncData := processMap itemSnapshot data
  if syncData.isEmpty then (AList.insert key itemSnapshot tables.1, tables.2)
  else (AList.insert key data tables.1, AList.insert key syncData tables.2)

/-- A torrent as the main data shows it; the announce statistics are those of the snapshot unless
they have been announced. -/
def serializeUpdated (torrent : Torrent) (torrentSnapshot : QVariantMap) (announced : Bool) :
    QVariantMap :=
  let serializedTorrent := QVariantMap.drop (serialize torrent) KEY_TORRENT_ID
  if announced then addAnnounceStats serializedTorrent torrent
  else
    setAnnounceStats serializedTorrent
      (QVariantMap.get torrentSnapshot KEY_TORRENT_HAS_TRACKER_WARNING)
      (QVariantMap.get torrentSnapshot KEY_TORRENT_HAS_TRACKER_ERROR)
      (QVariantMap.get torrentSnapshot KEY_TORRENT_HAS_OTHER_ANNOUNCE_ERROR)

namespace SyncController

variable (c : SyncController) (session : Session)

/-- The snapshot and the waiting differences of the categories, after the loop over the updated
ones. -/
def categoriesAfter : Table String QVariantMap × Table String QVariantMap :=
  c.updatedCategories.foldl
    (fun tables categoryName =>
      let categoryOptions := (session.categories.lookup categoryName).getD {}
      putDifference tables categoryName (serializeCategory categoryName categoryOptions))
    (c.maindataSnapshot.categories, c.maindataSyncBuf.categories)

def putUpdated (tables : Table String QVariantMap × Table String QVariantMap)
    (torrentID : TorrentID) : Table String QVariantMap × Table String QVariantMap :=
  match session.torrents.lookup torrentID with
  -- every noted torrent is one of the session
  | none => tables
  | some torrent =>
    let torrentSnapshot := (tables.1.lookup torrentID).getD []
    putDifference tables torrentID
      (serializeUpdated torrent torrentSnapshot (torrentID ∈ c.announcedTorrents))

def putAnnounced (tables : Table String QVariantMap × Table String QVariantMap)
    (torrentID : TorrentID) : Table String QVariantMap × Table String QVariantMap :=
  if torrentID ∈ c.updatedTorrents then tables
  else
    match session.torrents.lookup torrentID with
    -- every noted torrent is one of the session
    | none => tables
    | some torrent =>
      let torrentSnapshot := (tables.1.lookup torrentID).getD []
      -- only the announce statistics have changed, the torrent is not serialized again
      putDifference tables torrentID (addAnnounceStats torrentSnapshot torrent)

/-- The snapshot and the waiting differences of the torrents, after the loops over the updated and
the announced ones. -/
def torrentsAfter : Table String QVariantMap × Table String QVariantMap :=
  c.announcedTorrents.foldl (c.putAnnounced session)
    (c.updatedTorrents.foldl (c.putUpdated session)
      (c.maindataSnapshot.torrents, c.maindataSyncBuf.torrents))

/-- The addresses of the updated trackers with the torrents that use them. -/
def putTrackers (trackers : Table String (List String)) : Table String (List String) :=
  c.updatedTrackers.foldl
    (fun t tracker => AList.insert tracker ((c.knownTrackers.lookup tracker).getD []) t) trackers

def serverStateAfter : QVariantMap × QVariantMap :=
  let serverState := makeServerState session c.freeDiskSpace
  let syncData := processMap c.maindataSnapshot.serverState serverState
  if syncData.isEmpty then (c.maindataSnapshot.serverState, c.maindataSyncBuf.serverState)
  else (serverState, syncData)

/-- The other loops of `generateMaindataSyncData`: the notes move on to the snapshot and to what
waits to be sent. -/
def applyNotes : SyncController :=
  let categories := c.categoriesAfter session
  let torrents := c.torrentsAfter session
  let serverState := c.serverStateAfter session
  { c with
    updatedCategories := []
    removedCategories := []
    addedTags := []
    removedTags := []
    updatedTorrents := []
    announcedTorrents := []
    removedTorrents := []
    updatedTrackers := []
    removedTrackers := []
    maindataSnapshot :=
      { c.maindataSnapshot with
        categories := c.removedCategories.foldl (fun t key => AList.erase key t) categories.1
        tags := c.removedTags.foldl List.erase (c.maindataSnapshot.tags ++ c.addedTags)
        torrents := c.removedTorrents.foldl (fun t key => AList.erase key t) torrents.1
        trackers := c.removedTrackers.foldl (fun t key => AList.erase key t)
          (c.putTrackers c.maindataSnapshot.trackers)
        serverState := serverState.1 }
    maindataSyncBuf :=
      { c.maindataSyncBuf with
        categories := categories.2
        removedCategories := c.maindataSyncBuf.removedCategories ++ c.removedCategories
        tags := c.maindataSyncBuf.tags ++ c.addedTags
        removedTags := c.maindataSyncBuf.removedTags ++ c.removedTags
        torrents := torrents.2
        removedTorrents := c.maindataSyncBuf.removedTorrents ++ c.removedTorrents
        trackers := c.putTrackers c.maindataSyncBuf.trackers
        removedTrackers := c.maindataSyncBuf.removedTrackers ++ c.removedTrackers
        serverState := serverState.2 } }

end SyncController

/-- A response: its identifier, whether it is a full update, and the data.  Data that is empty is
left out of the text that is sent. -/
structure SyncData where
  rid : ℕ
  fullUpdate : Bool
  data : MaindataSyncBuf

namespace SyncController

variable (c : SyncController) (session : Session)

def generateMaindataSyncData (id : ℕ) (fullUpdate : Bool) : SyncData × SyncController :=
  let c := c.updateSyncBuf.applyNotes session
  let c := if fullUpdate then { c with maindataSyncBuf := c.maindataSnapshot } else c
  ({ rid := id, fullUpdate := fullUpdate, data := c.maindataSyncBuf }, c)

/-- The response a client says it has applied: what waited until then is dropped. -/
def accept (acceptedID : ℤ) : SyncController :=
  if acceptedID > 0 ∧ c.maindataLastSentID > 0 ∧ (c.maindataLastSentID : ℤ) = acceptedID then
    { c with maindataAcceptedID := acceptedID, maindataSyncBuf := {} }
  else c

/-- Whether a client that has applied the given response needs everything. -/
def needsFullUpdate (acceptedID : ℤ) : Bool :=
  !(acceptedID > 0 && c.maindataLastSentID > 0 && c.maindataAcceptedID = acceptedID)

/-- The identifier after the last one: they cycle between 1 and 1000000. -/
def nextID (id : ℕ) : ℕ := id % 1000000 + 1

/-- The first request takes a snapshot. -/
def start : SyncController :=
  if c.maindataAcceptedID < 0 then c.makeMaindataSnapshot session else c

def maindataAction (acceptedID : ℤ) : SyncData × SyncController :=
  let c := (c.start session).accept acceptedID
  let fullUpdate := c.needsFullUpdate acceptedID
  let id := nextID c.maindataLastSentID
  let (result, c) := c.generateMaindataSyncData session id fullUpdate
  (result, { c with maindataLastSentID := id })

end SyncController

end Qbutt.Sync
