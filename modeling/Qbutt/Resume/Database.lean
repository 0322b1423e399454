import Qbutt.Resume.Bencode
import Mathlib.Data.List.SplitOn

/-!
# The store of resume rows

`DBResumeDataStorage` keeps of every torrent a row of the table `torrents`.  A statement inserts a row
or, when the torrent has one, updates the columns that it names; a placeholder without a value is
bound to `NULL`.
-/

namespace Qbutt.Resume

variable {platform : Platform} {β ι : Type}

/-- A value of the database, with the conversions of `QVariant`. -/
inductive Cell (β : Type) where
  | null
  | integer (value : ℤ)
  | text (value : String)
  | blob (value : β)

namespace Cell

def toStr : Cell β → String
  | text value => value
  | integer value => toString value
  | _ => ""

def toInt : Cell β → Int32
  | integer value => Int32.ofInt value
  | text value => Int32.ofInt (value.toInt?.getD 0)
  | _ => 0

def toBool : Cell β → Bool
  | integer value => value ≠ 0
  | text value => !(value = "" || value = "0" || value = "false")
  | _ => false

def toBytes : Cell β → Option β
  | blob value => some value
  | _ => none

end Cell

/-- A row of `torrents`, by the names of its columns. -/
abbrev Row (β : Type) := Table String (Cell β)

/-- The table `torrents`, by `torrent_id`. -/
abbrev Database (β : Type) := Table String (Row β)

def Row.value (row : Row β) (column : String) : Cell β := (row.lookup column).getD .null

namespace DBResumeDataStorage

/-! ### Storing -/

def columns (withMetadata : Bool) : List String :=
  ["torrent_id", "name", "category", "tags", "comment", "target_save_path", "download_path",
    "content_layout", "ratio_limit", "seeding_time_limit", "inactive_seeding_time_limit",
    "share_limit_action", "has_outer_pieces_priority", "has_seed_status", "operating_mode",
    "stopped", "stop_condition", "ssl_certificate", "ssl_private_key", "ssl_dh_params",
    "libtorrent_resume_data"] ++ if withMetadata then ["metadata"] else []

def joinIntoString (tags : OrderedSet platform.tagOrder) : String :=
  String.ofList ([','].intercalate (tags.items.map fun tag => tag.text.toList))

/-- The values that `perform` binds. -/
def boundValues (id : String) (resumeData : LoadTorrentParams platform ι)
    (bencodedResumeData : β) (bencodedMetadata : Option β) : List (String × Cell β) :=
  [("torrent_id", .text id),
    ("name", .text resumeData.name),
    ("category", .text resumeData.category),
    ("tags", if resumeData.tags.items = [] then .null else .text (joinIntoString resumeData.tags)),
    ("comment", .text resumeData.comment),
    ("content_layout", .text (fromEnum resumeData.contentLayout)),
    ("ratio_limit", .integer resumeData.storedRatioLimit.toInt),
    ("seeding_time_limit", .integer resumeData.seedingTimeLimit.toInt),
    ("inactive_seeding_time_limit", .integer resumeData.inactiveSeedingTimeLimit.toInt),
    ("share_limit_action", .text (fromEnum resumeData.shareLimitAction)),
    ("has_outer_pieces_priority", .integer resumeData.firstLastPiecePriority.toInt),
    ("has_seed_status", .integer resumeData.hasFinishedStatus.toInt),
    ("operating_mode", .text (fromEnum resumeData.operatingMode)),
    ("stopped", .integer resumeData.stopped.toInt),
    ("stop_condition", .text (fromEnum resumeData.stopCondition)),
    ("ssl_certificate", .text resumeData.sslParameters.certificate),
    ("ssl_private_key", .text resumeData.sslParameters.privateKey),
    ("ssl_dh_params", .text resumeData.sslParameters.dhParams)] ++
  (if resumeData.useAutoTMM then []
    else
      [("target_save_path", .text (platform.toPortablePath resumeData.savePath).data),
        ("download_path", .text (platform.toPortablePath resumeData.downloadPath).data)]) ++
  [("libtorrent_resume_data", .blob bencodedResumeData)] ++
  match bencodedMetadata with
  | none => []
  | some metadata => [("metadata", .blob metadata)]

/-- Insert a row, or update the named columns of the row that is there. -/
def upsert (db : Database β) (id : String) (columns : List String)
    (bound : List (String × Cell β)) : Database β :=
  let row := (db.lookup id).getD ∅
  db.insert id
    (columns.foldl (fun row column => row.insert column ((bound.lookup column).getD .null)) row)

/-- `StoreJob::perform`. -/
def store (lib : Libtorrent β ι) (db : Database β) (id : String)
    (resumeData : LoadTorrentParams platform ι) : Database β :=
  let p := resumeData.nativeParams
  let data := (lib.writeResumeData p).insert "qbutt-completion-policy-preview"
    (.integer resumeData.completionPolicyPreview.toInt)
  let split := splitMetadata data
  let bencodedMetadata :=
    (if p.ti.isSome then some (lib.bencode split.2) else none).filter fun bytes => 0 < lib.size bytes
  let bencodedResumeData := lib.bencode (if p.ti.isSome then split.1 else data)
  upsert db id (columns p.ti.isSome)
    (boundValues id resumeData bencodedResumeData bencodedMetadata)

/-! ### Loading -/

/-- The pieces of a joined text. -/
def splitTags (tagsData : String) : List String :=
  (tagsData.toList.splitOn ',').map String.ofList

def loadTags (row : Row β) : OrderedSet platform.tagOrder :=
  let tagsData := (row.value "tags").toStr
  if tagsData = "" then .empty
  else .ofList ((splitTags tagsData).map (Tag.ofString platform.isSpace))

/-- The bytes of a column, decoded; nothing decodes to something that is not a dictionary. -/
def decode (lib : Libtorrent β ι) (what : String) (bytes : Option β) :
    Except String (Option Dictionary) :=
  match bytes with
  | none => .error s!"Cannot parse {what}: unexpected end of file in bencoded string"
  | some bytes => (lib.bdecode bytes).mapError fun message => s!"Cannot parse {what}: {message}"

/-- Put the metadata of the row, if there is any, into the native parameters. -/
def withMetadata (lib : Libtorrent β ι) (metadata : Option β) (p : AddTorrentParams ι) :
    Except String (AddTorrentParams ι) :=
  match metadata with
  | none => .ok p
  | some metadata =>
    if lib.size metadata = 0 then .ok p
    else
      decode lib "torrent info" (some metadata) >>= fun torrentInfoRoot =>
      match lib.torrentInfo torrentInfoRoot with
      | .error message => .error s!"Cannot parse torrent info: {message}"
      | .ok torrentInfo => .ok { p with ti := some torrentInfo }

def readParams (platform : Platform) (resolvePath : Path platform.dir → Path platform.dir)
    (row : Row β) (resumeDataRoot : Dictionary) (p : AddTorrentParams ι) :
    LoadTorrentParams platform ι :=
  let savePath := resolvePath (.ofString platform.dir (row.value "target_save_path").toStr)
  { name := (row.value "name").toStr
    category := (row.value "category").toStr
    comment := (row.value "comment").toStr
    tags := loadTags row
    hasFinishedStatus := (row.value "has_seed_status").toBool
    firstLastPiecePriority := (row.value "has_outer_pieces_priority").toBool
    ratioLimit := loadedRatioLimit (row.value "ratio_limit").toInt.toInt
    seedingTimeLimit := (row.value "seeding_time_limit").toInt
    inactiveSeedingTimeLimit := (row.value "inactive_seeding_time_limit").toInt
    shareLimitAction := toEnum (row.value "share_limit_action").toStr .default
    contentLayout := toEnum (row.value "content_layout").toStr .original
    operatingMode := toEnum (row.value "operating_mode").toStr .autoManaged
    stopped := (row.value "stopped").toBool
    stopCondition :=
      if p.flags.stopWhenReady then .filesChecked
      else toEnum (row.value "stop_condition").toStr .none
    sslParameters :=
      { certificate := (row.value "ssl_certificate").toStr
        privateKey := (row.value "ssl_private_key").toStr
        dhParams := (row.value "ssl_dh_params").toStr }
    savePath := savePath
    useAutoTMM := savePath.isEmpty
    downloadPath :=
      if savePath.isEmpty then .empty
      else resolvePath (.ofString platform.dir (row.value "download_path").toStr)
    completionPolicyPreview := resumeDataRoot.findInt "qbutt-completion-policy-preview" 0 ≠ 0
    ltAddTorrentParams := { p with flags := { p.flags with stopWhenReady := false } } }

def parseQueryResultRow (lib : Libtorrent β ι) (row : Row β)
    (resolvePath : Path platform.dir → Path platform.dir) :
    Except String (LoadTorrentParams platform ι) :=
  decode lib "resume data" (row.value "libtorrent_resume_data").toBytes >>= fun root =>
  (lib.readResumeData root).mapError
    (fun message => s!"Cannot parse resume data: {message}") >>= fun p =>
  withMetadata lib (row.value "metadata").toBytes p >>= fun p =>
  let p := { p with savePath := (resolvePath (.ofString platform.dir p.savePath)).toString }
  if p.savePath = "" then .error "Corrupted resume data: save_path is invalid"
  else .ok (readParams platform resolvePath row (root.getD ∅) p)

def load (lib : Libtorrent β ι) (db : Database β) (id : String) :
    Except String (LoadTorrentParams platform ι) :=
  match db.lookup id with
  | none => .error s!"Couldn't load resume data of torrent '{id}'. Error: Not found."
  | some row => parseQueryResultRow lib row platform.fromPortablePath

end DBResumeDataStorage

end Qbutt.Resume
