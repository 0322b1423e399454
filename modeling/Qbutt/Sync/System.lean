import Qbutt.Algorithm.Transition
import Qbutt.Sync.Controller

/-!
# A session, its controller and a client

The runs of the web synchronisation: changes of the session, each with the signal that reports it,
and main data requests of one client, whose responses arrive or are lost.  The slots of the
controller are connected by the first request.

A client replaces its data by those of a full update.  Of any other response it deletes the removed
items and then merges the listed ones field by field.
-/

namespace Qbutt.Sync

/-! ### The client -/

/-- What a client holds. -/
structure Client where
  rid : ℕ := 0
  categories : Table String QVariantMap := ∅
  tags : List String := []
  torrents : Table String QVariantMap := ∅
  trackers : Table String (List String) := ∅
  serverState : QVariantMap := []

/-- Merge an object into another one, field by field. -/
def mergeMap (old new : QVariantMap) : QVariantMap :=
  new.foldl (fun m field => QVariantMap.set m field.1 field.2) old

def mergeItems (old : Table String QVariantMap) (removed : List String)
    (items : Table String QVariantMap) : Table String QVariantMap :=
  items.entries.foldl
    (fun t item => AList.insert item.1 (mergeMap ((t.lookup item.1).getD []) item.2) t)
    (removed.foldl (fun t key => AList.erase key t) old)

def mergeLists (old : Table String (List String)) (removed : List String)
    (items : Table String (List String)) : Table String (List String) :=
  items.entries.foldl (fun t item => AList.insert item.1 item.2 t)
    (removed.foldl (fun t key => AList.erase key t) old)

def Client.apply (client : Client) (response : SyncData) : Client :=
  let data := response.data
  if response.fullUpdate then
    { rid := response.rid
      categories := data.categories
      tags := data.tags
      torrents := data.torrents
      trackers := data.trackers
      serverState := data.serverState }
  else
    { rid := response.rid
      categories := mergeItems client.categories data.removedCategories data.categories
      tags := data.tags.foldl setInsert (data.removedTags.foldl setRemove client.tags)
      torrents := mergeItems client.torrents data.removedTorrents data.torrents
      trackers := mergeLists client.trackers data.removedTrackers data.trackers
      serverState := mergeMap client.serverState data.serverState }

/-! ### Runs -/

/-- The state of a run; `lost` counts the responses lost since the last one that arrived. -/
structure SyncState where
  session : Session
  controller : SyncController := {}
  client : Client := {}
  lost : ℕ := 0

/-- The signals that report that the data of a torrent has changed. -/
inductive TorrentSignal where
  | silent
  | updated
  | stopped
  | trackerEntryStatusesUpdated
  deriving DecidableEq

/-- What happens in a run. -/
inductive Event where
  | addCategory (name : String) (options : CategoryOptions)
  | removeCategory (name : String)
  | setCategoryOptions (name : String) (options : CategoryOptions)
  | addTag (tag : String)
  | removeTag (tag : String)
  | addTorrent (torrent : Torrent)
  | removeTorrent (torrentID : TorrentID)
  -- trackers are added, removed or reset
  | setTrackers (torrentID : TorrentID) (trackers : List TrackerEntryStatus)
  -- the data or the statuses of the trackers change
  | changeTorrent (torrent : Torrent) (signal : TorrentSignal)
  | changeStatus (transfer : String → Scalar) (isQueueingSystemEnabled isSpeedLimitEnabled : Bool)
      (refreshInterval : ℤ)
  | updateFreeDiskSpace (freeDiskSpace : ℤ)
  | request (lost : Bool)

/-- A slot runs once the signals are connected. -/
def SyncController.notify (c : SyncController) (slot : SyncController → SyncController) :
    SyncController :=
  if c.maindataAcceptedID < 0 then c else slot c

/-- The slots behind a signal about the data of a torrent. -/
def SyncController.onSignal (c : SyncController) (torrentID : TorrentID) :
    TorrentSignal → SyncController
  | .silent => c
  | .updated => c.onTorrentUpdated torrentID
  | .stopped => c.onTorrentStopped torrentID
  | .trackerEntryStatusesUpdated => c.onTorrentTrackerEntryStatusesUpdated torrentID

def step (s : SyncState) : Event → Option SyncState
  | .addCategory name options =>
    if (s.session.categories.lookup name).isSome then none
    else some
      { s with
        session := { s.session with
          categories := AList.insert name options s.session.categories }
        controller := s.controller.notify (·.onCategoryAdded name) }
  | .removeCategory name => some
      { s with
        session := { s.session with categories := AList.erase name s.session.categories }
        controller := s.controller.notify (·.onCategoryRemoved name) }
  | .setCategoryOptions name options =>
    if (s.session.categories.lookup name).isNone then none
    else some
      { s with
        session := { s.session with
          categories := AList.insert name options s.session.categories }
        controller := s.controller.notify (·.onCategoryOptionsChanged name) }
  | .addTag tag =>
    if tag ∈ s.session.tags then none
    else some
      { s with
        session := { s.session with tags := s.session.tags ++ [tag] }
        controller := s.controller.notify (·.onTagAdded tag) }
  | .removeTag tag =>
    if tag ∈ s.session.tags then some
      { s with
        session := { s.session with tags := s.session.tags.erase tag }
        controller := s.controller.notify (·.onTagRemoved tag) }
    else none
  | .addTorrent torrent =>
    if (s.session.torrents.lookup torrent.id).isSome then none
    else some
      { s with
        session := { s.session with
          torrents := AList.insert torrent.id torrent s.session.torrents }
        controller := s.controller.notify (·.onTorrentAdded torrent) }
  | .removeTorrent torrentID =>
    (s.session.torrents.lookup torrentID).map fun torrent =>
      { s with
        session := { s.session with torrents := AList.erase torrentID s.session.torrents }
        controller := s.controller.notify (·.onTorrentAboutToBeRemoved torrent) }
  | .setTrackers torrentID trackers =>
    (s.session.torrents.lookup torrentID).map fun torrent =>
      let torrent := { torrent with trackers := trackers }
      { s with
        session := { s.session with
          torrents := AList.insert torrentID torrent s.session.torrents }
        controller := s.controller.notify (·.onTorrentTrackersChanged torrent) }
  | .changeTorrent torrent signal =>
    if (s.session.torrents.lookup torrent.id).map Torrent.urls = some torrent.urls then some
      { s with
        session := { s.session with
          torrents := AList.insert torrent.id torrent s.session.torrents }
        controller := s.controller.notify (·.onSignal torrent.id signal) }
    else none
  | .changeStatus transfer isQueueingSystemEnabled isSpeedLimitEnabled refreshInterval => some
      { s with
        session := { s.session with
          transfer := transfer
          isQueueingSystemEnabled := isQueueingSystemEnabled
          isSpeedLimitEnabled := isSpeedLimitEnabled
          refreshInterval := refreshInterval } }
  | .updateFreeDiskSpace freeDiskSpace => some
      { s with controller := s.controller.updateFreeDiskSpace freeDiskSpace }
  | .request lost =>
    let (response, controller) := s.controller.maindataAction s.session s.client.rid
    if lost then some { s with controller := controller, lost := s.lost + 1 }
    else some
      { s with controller := controller, client := s.client.apply response, lost := 0 }

/-- The torrents of a session are listed under their identifiers, its tags once. -/
structure Session.Sound (session : Session) : Prop where
  tags_nodup : session.tags.Nodup
  id_eq : ∀ torrentID torrent, session.torrents.lookup torrentID = some torrent →
    torrent.id = torrentID

/-- A run starts with any session, a new controller and a new client. -/
def system : System SyncState Event where
  initial s := s.session.Sound ∧ s.client = {} ∧ s.lost = 0 ∧
    ∃ freeDiskSpace, s.controller = { freeDiskSpace := freeDiskSpace }
  step := step

end Qbutt.Sync
