import Qbutt.Algorithm.Table
import Qbutt.Qt.Json
import Qbutt.Qt.Variant

/-!
# What the session tells the synchronisation

The categories, tags and torrents of the session as `webui/api/synccontroller.cpp` reads them, and
how it writes them down: `CategoryOptions::toJSON`, `serialize` of
`webui/api/serialize/serialize_torrent.cpp`, `addAnnounceStats` and the server state.  What the
getters of a torrent and of the session status return is given under the keys the values are
written to.
-/

namespace Qbutt.Sync

abbrev TorrentID := String

/-! ### Categories -/

inductive ShareLimitAction where
  | default
  | stop
  | remove
  | removeWithContent
  | enableSuperSeeding
  deriving DecidableEq

/-- `Utils::String::fromEnum`. -/
def ShareLimitAction.text : ShareLimitAction → String
  | default => "Default"
  | stop => "Stop"
  | remove => "Remove"
  | removeWithContent => "RemoveWithContent"
  | enableSuperSeeding => "EnableSuperSeeding"

structure DownloadPathOption where
  enabled : Bool := false
  path : String := ""
  deriving DecidableEq

structure CategoryOptions where
  savePath : String := ""
  downloadPath : Option DownloadPathOption := none
  ratioLimit : ℚ := -2
  seedingTimeLimit : ℤ := -2
  inactiveSeedingTimeLimit : ℤ := -2
  shareLimitAction : ShareLimitAction := .default
  deriving DecidableEq

/-- `CategoryOptions::toJSON`, as a variant map. -/
def CategoryOptions.toJSON (options : CategoryOptions) : QVariantMap :=
  let downloadPathValue : Scalar :=
    match options.downloadPath with
    | some downloadPath =>
      if downloadPath.enabled then .string downloadPath.path else .bool false
    | none => .null
  [("save_path", .scalar (.string options.savePath)),
    ("download_path", .scalar downloadPathValue),
    ("ratio_limit", .scalar (.number options.ratioLimit)),
    ("seeding_time_limit", .scalar (.number options.seedingTimeLimit)),
    ("inactive_seeding_time_limit", .scalar (.number options.inactiveSeedingTimeLimit)),
    ("share_limit_action", .scalar (.string options.shareLimitAction.text))]

/-- A category as the API shows it. -/
def serializeCategory (categoryName : String) (options : CategoryOptions) : QVariantMap :=
  let category := options.toJSON
  -- adjust it to be compatible with the existing API
  let savePath := QVariantMap.get category "save_path"
  let category := QVariantMap.set (QVariantMap.drop category "save_path") "savePath" savePath
  QVariantMap.set category "name" (.scalar (.string categoryName))

/-! ### Torrents -/

inductive TrackerEndpointState where
  | notContacted
  | working
  | notWorking
  | trackerError
  | unreachable
  deriving DecidableEq

structure TrackerEndpointStatus where
  state : TrackerEndpointState := .notContacted
  message : String := ""
  deriving DecidableEq

structure TrackerEntryStatus where
  url : String
  state : TrackerEndpointState := .notContacted
  endpoints : List TrackerEndpointStatus := []
  deriving DecidableEq

/-- A torrent: its identifier, its name, its trackers, and what the other getters that `serialize`
reads return, by the keys. -/
structure Torrent where
  id : TorrentID
  name : String
  trackers : List TrackerEntryStatus
  values : String → Scalar

/-- The addresses of a torrent's trackers. -/
def Torrent.urls (torrent : Torrent) : List String := torrent.trackers.map TrackerEntryStatus.url

def KEY_TORRENT_ID : String := "hash"
def KEY_TORRENT_NAME : String := "name"
def KEY_TORRENT_TRACKERS_COUNT : String := "trackers_count"
def KEY_TORRENT_HAS_TRACKER_WARNING : String := "has_tracker_warning"
def KEY_TORRENT_HAS_TRACKER_ERROR : String := "has_tracker_error"
def KEY_TORRENT_HAS_OTHER_ANNOUNCE_ERROR : String := "has_other_announce_error"

/-- The other keys that `serialize` writes. -/
def torrentKeys : List String :=
  ["infohash_v1", "infohash_v2", "has_metadata", "created_by", "creation_date", "private",
    "total_size", "pieces_num", "piece_size", "magnet_uri", "size", "progress", "total_wasted",
    "pieces_have", "dlspeed", "upspeed", "priority", "num_seeds", "num_complete", "num_leechs",
    "num_incomplete", "state", "eta", "seq_dl", "f_l_piece_prio", "category", "tags",
    "super_seeding", "force_start", "save_path", "download_path", "content_path", "root_path",
    "added_on", "completion_on", "tracker", "dl_limit", "up_limit", "downloaded", "uploaded",
    "downloaded_session", "uploaded_session", "amount_left", "completed", "connections_count",
    "connections_limit", "max_ratio", "max_seeding_time", "max_inactive_seeding_time", "ratio",
    "ratio_limit", "popularity", "seeding_time_limit", "inactive_seeding_time_limit",
    "share_limit_action", "seen_complete", "auto_tmm", "time_active", "seeding_time",
    "last_activity", "availability", "reannounce", "comment"]

def serialize (torrent : Torrent) : QVariantMap :=
  (KEY_TORRENT_ID, .scalar (.string torrent.id)) ::
    (KEY_TORRENT_NAME, .scalar (.string torrent.name)) ::
    (KEY_TORRENT_TRACKERS_COUNT, .scalar (.number torrent.trackers.length)) ::
    torrentKeys.map fun key => (key, .scalar (torrent.values key))

def hasWarningMessage (status : TrackerEntryStatus) : Bool :=
  status.endpoints.any fun endpointEntry =>
    endpointEntry.state = .working && !endpointEntry.message.isEmpty

def setAnnounceStats (serializedTorrent : QVariantMap) (warning error other : QVariant) :
    QVariantMap :=
  QVariantMap.set
    (QVariantMap.set (QVariantMap.set serializedTorrent KEY_TORRENT_HAS_TRACKER_WARNING warning)
      KEY_TORRENT_HAS_TRACKER_ERROR error)
    KEY_TORRENT_HAS_OTHER_ANNOUNCE_ERROR other

def addAnnounceStats (serializedTorrent : QVariantMap) (torrent : Torrent) : QVariantMap :=
  let hasTrackerWarning := torrent.trackers.any fun status =>
    status.state = .working && hasWarningMessage status
  let hasTrackerError := torrent.trackers.any fun status => status.state = .trackerError
  let hasOtherAnnounceError := torrent.trackers.any fun status =>
    status.state = .notWorking || status.state = .unreachable
  setAnnounceStats serializedTorrent (.scalar (.bool hasTrackerWarning))
    (.scalar (.bool hasTrackerError)) (.scalar (.bool hasOtherAnnounceError))

/-! ### The session -/

/-- The keys that `getTransferInfo` writes. -/
def transferKeys : List String :=
  ["dl_info_speed", "dl_info_data", "up_info_speed", "up_info_data", "dl_rate_limit",
    "up_rate_limit", "alltime_dl", "alltime_ul", "total_wasted_session", "global_ratio",
    "total_peer_connections", "total_buffers_size", "write_cache_overload", "read_cache_overload",
    "queued_io_jobs", "average_time_queue", "total_queued_size", "last_external_address_v4",
    "last_external_address_v6", "dht_nodes", "connection_status"]

/-- The part of `BitTorrent::Session` that is synchronised; `transfer` is the status behind
`getTransferInfo`, by the keys. -/
structure Session where
  categories : Table String CategoryOptions := ∅
  tags : List String := []
  torrents : Table TorrentID Torrent := ∅
  transfer : String → Scalar
  isQueueingSystemEnabled : Bool := false
  isSpeedLimitEnabled : Bool := false
  refreshInterval : ℤ := 1500

def getTransferInfo (session : Session) : QVariantMap :=
  transferKeys.map fun key => (key, .scalar (session.transfer key))

def makeServerState (session : Session) (freeDiskSpace : ℤ) : QVariantMap :=
  let serverState := getTransferInfo session
  let serverState := QVariantMap.set serverState "free_space_on_disk" (.scalar (.number freeDiskSpace))
  let serverState := QVariantMap.set serverState "queueing"
    (.scalar (.bool session.isQueueingSystemEnabled))
  let serverState := QVariantMap.set serverState "use_alt_speed_limits"
    (.scalar (.bool session.isSpeedLimitEnabled))
  QVariantMap.set serverState "refresh_interval" (.scalar (.number session.refreshInterval))

end Qbutt.Sync
