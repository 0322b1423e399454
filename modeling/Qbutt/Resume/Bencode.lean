import Qbutt.Algorithm.Except
import Qbutt.Resume.Params

/-!
# The store of resume files

`BencodeResumeDataStorage` keeps of every torrent a bencoded dictionary in a `.fastresume` file and
its metadata, once there is some, in a `.torrent` file.
-/

namespace Qbutt.Resume

variable {platform : Platform} {β ι : Type}

/-- The files of the resume data directory, by the identifier of the torrent. -/
structure ResumeFiles (β : Type) where
  fastresume : Table String β
  torrent : Table String β

def KEY_SSL_CERTIFICATE : String := "qBt-sslCertificate"
def KEY_SSL_PRIVATE_KEY : String := "qBt-sslPrivateKey"
def KEY_SSL_DH_PARAMS : String := "qBt-sslDhParams"

namespace BencodeResumeDataStorage

/-! ### Storing -/

def setToEntryList (input : OrderedSet platform.tagOrder) : List Entry :=
  input.items.map fun setValue => .string setValue.text

/-- A text entry that is left out when it is empty. -/
def optional (key value : String) : List (String × Entry) :=
  if value = "" then [] else [(key, .string value)]

/-- The entries that `store` adds to the native resume data. -/
def ownEntries (resumeData : LoadTorrentParams platform ι) : List (String × Entry) :=
  [("qBt-ratioLimit", .integer resumeData.storedRatioLimit.toInt),
    ("qBt-seedingTimeLimit", .integer resumeData.seedingTimeLimit.toInt),
    ("qBt-inactiveSeedingTimeLimit", .integer resumeData.inactiveSeedingTimeLimit.toInt),
    ("qBt-shareLimitAction", .string (fromEnum resumeData.shareLimitAction)),
    ("qBt-category", .string resumeData.category),
    ("qBt-tags", .list (setToEntryList resumeData.tags)),
    ("qBt-name", .string resumeData.name),
    ("qBt-comment", .string resumeData.comment),
    ("qBt-seedStatus", .integer resumeData.hasFinishedStatus.toInt),
    ("qbutt-completion-policy-preview", .integer resumeData.completionPolicyPreview.toInt),
    ("qBt-contentLayout", .string (fromEnum resumeData.contentLayout)),
    ("qBt-firstLastPiecePriority", .integer resumeData.firstLastPiecePriority.toInt),
    ("qBt-stopCondition", .string (fromEnum resumeData.stopCondition))] ++
  optional KEY_SSL_CERTIFICATE resumeData.sslParameters.certificate ++
  optional KEY_SSL_PRIVATE_KEY resumeData.sslParameters.privateKey ++
  optional KEY_SSL_DH_PARAMS resumeData.sslParameters.dhParams ++
  if resumeData.useAutoTMM then []
  else
    [("qBt-savePath", .string (platform.toPortablePath resumeData.savePath).data),
      ("qBt-downloadPath", .string (platform.toPortablePath resumeData.downloadPath).data)]

def store (lib : Libtorrent β ι) (files : ResumeFiles β) (id : String)
    (resumeData : LoadTorrentParams platform ι) : ResumeFiles β :=
  let p := resumeData.nativeParams
  let data := lib.writeResumeData p
  let split := splitMetadata data
  { fastresume :=
      files.fastresume.insert id
        (lib.bencode (putAll (if p.ti.isSome then split.1 else data) (ownEntries resumeData)))
    torrent :=
      if p.ti.isSome then files.torrent.insert id (lib.bencode split.2) else files.torrent }

/-! ### Loading -/

def parse (lib : Libtorrent β ι) (what : String) (data : β) : Except String Dictionary :=
  match lib.bdecode data with
  | .error message => .error s!"Cannot parse {what}: {message}"
  | .ok none => .error s!"Cannot parse {what}: invalid format"
  | .ok (some root) => .ok root

def loadTags (root : Dictionary) : OrderedSet platform.tagOrder :=
  match root.lookup "qBt-tags" with
  | some (.list items) =>
    .ofList (items.map fun item =>
      match item with
      | .string tag => Tag.ofString platform.isSpace tag
      | _ => Tag.ofString platform.isSpace "")
  | _ => .empty

def loadContentLayout (root : Dictionary) : TorrentContentLayout :=
  match root.lookup "qBt-contentLayout" with
  | some (.string contentLayoutStr) => toEnum contentLayoutStr .original
  | _ => if root.findInt "qBt-hasRootFolder" 0 ≠ 0 then .original else .noSubfolder

def loadRatioLimit (platform : Platform) (root : Dictionary) : Binary64 :=
  let ratioLimitString := root.findString "qBt-ratioLimit"
  if ratioLimitString = "" then
    loadedRatioLimit (root.findInt "qBt-ratioLimit" (DEFAULT_RATIO_LIMIT * 1000))
  else platform.toDouble ratioLimitString

/-- The two native parameters disagree on a hash. -/
def hashMismatch (stored found : InfoHash) : Bool :=
  (stored.v1.isSome && stored.v1 ≠ found.v1) || (stored.v2.isSome && stored.v2 ≠ found.v2)

def withMetadata (lib : Libtorrent β ι) (metadata : Option β) (p : AddTorrentParams ι) :
    Except String (AddTorrentParams ι) :=
  match metadata with
  | none => .ok p
  | some metadata =>
    if lib.size metadata = 0 then .ok p
    else
      parse lib "torrent info" metadata >>= fun torrentInfoRoot =>
      match lib.torrentInfo (some torrentInfoRoot) with
      | .error message => .error s!"Cannot parse torrent info: {message}"
      | .ok torrentInfo =>
        if hashMismatch p.infoHashes (lib.infoHashes torrentInfo) then
          .error "Mismatching info-hash detected in resume data"
        else .ok { p with ti := some torrentInfo }

def readParams (platform : Platform) (resolvePath : Path platform.dir → Path platform.dir)
    (root : Dictionary) (p : AddTorrentParams ι) : LoadTorrentParams platform ι :=
  let savePath := resolvePath (.ofString platform.dir (root.findString "qBt-savePath"))
  let stopWhenReady := p.flags.stopWhenReady
  { category := root.findString "qBt-category"
    name := root.findString "qBt-name"
    comment := root.findString "qBt-comment"
    hasFinishedStatus := root.findInt "qBt-seedStatus" 0 ≠ 0
    completionPolicyPreview := root.findInt "qbutt-completion-policy-preview" 0 ≠ 0
    firstLastPiecePriority := root.findInt "qBt-firstLastPiecePriority" 0 ≠ 0
    seedingTimeLimit :=
      Int32.ofInt (root.findInt "qBt-seedingTimeLimit" DEFAULT_SEEDING_TIME_LIMIT)
    inactiveSeedingTimeLimit :=
      Int32.ofInt (root.findInt "qBt-inactiveSeedingTimeLimit" DEFAULT_SEEDING_TIME_LIMIT)
    shareLimitAction := toEnum (root.findString "qBt-shareLimitAction") .default
    savePath := savePath
    useAutoTMM := savePath.isEmpty
    downloadPath :=
      if savePath.isEmpty then .empty
      else resolvePath (.ofString platform.dir (root.findString "qBt-downloadPath"))
    contentLayout := loadContentLayout root
    stopCondition :=
      if stopWhenReady then .filesChecked
      else toEnum (root.findString "qBt-stopCondition") .none
    sslParameters :=
      { certificate := root.findString KEY_SSL_CERTIFICATE
        privateKey := root.findString KEY_SSL_PRIVATE_KEY
        dhParams := root.findString KEY_SSL_DH_PARAMS }
    ratioLimit := loadRatioLimit platform root
    tags := loadTags root
    stopped := p.flags.paused && !p.flags.autoManaged
    operatingMode := if p.flags.paused || p.flags.autoManaged then .autoManaged else .forced
    ltAddTorrentParams := { p with flags := { p.flags with stopWhenReady := false } } }

def loadTorrentResumeData (lib : Libtorrent β ι) (data : β) (metadata : Option β)
    (resolvePath : Path platform.dir → Path platform.dir) :
    Except String (LoadTorrentParams platform ι) :=
  parse lib "resume data" data >>= fun resumeDataRoot =>
  (lib.readResumeData (some resumeDataRoot)).mapError
    (fun message => s!"Cannot parse resume data: {message}") >>= fun p =>
  withMetadata lib metadata p >>= fun p =>
  let p := { p with savePath := (resolvePath (.ofString platform.dir p.savePath)).toString }
  let hasMetadata := p.ti.any lib.isValid
  if p.savePath = "" then .error "Corrupted resume data: save_path is invalid"
  else if !hasMetadata && (resumeDataRoot.lookup "info-hash").isNone then
    .error "Resume data is invalid: neither metadata nor info-hash was found"
  else .ok (readParams platform resolvePath resumeDataRoot p)

/-- `load`: metadata beyond the limit is refused, a missing `.torrent` file is not. -/
def load (lib : Libtorrent β ι) (torrentSizeLimit : ℕ) (files : ResumeFiles β) (id : String) :
    Except String (LoadTorrentParams platform ι) :=
  match files.fastresume.lookup id, files.torrent.lookup id with
  | none, _ =>
    .error s!"File open error. File: \"{id}.fastresume\". Error: \"{platform.openError}\""
  | some data, some metadata =>
    if torrentSizeLimit < lib.size metadata then
      .error s!"File size exceeds limit. File: \"{id}.torrent\". File size: {lib.size metadata}. Size limit: {torrentSizeLimit}"
    else loadTorrentResumeData lib data (some metadata) platform.fromPortablePath
  | some data, none => loadTorrentResumeData lib data none platform.fromPortablePath

end BencodeResumeDataStorage

end Qbutt.Resume
