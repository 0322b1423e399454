import Mathlib.Data.List.Basic

/-!
# File names and paths of downloads

`safe_file_name` of `download/transfer.rs`, the candidate names that the publication loop of
`download.rs` derives from it, and the few path operations the queue applies to them.
-/

namespace Qbutt.Download

/-- The Unicode property `White_Space`, which splits titles into words and trims them. -/
def isWhitespace (c : Char) : Bool :=
  let n := c.toNat
  (9 ≤ n && n ≤ 13) || n == 0x20 || n == 0x85 || n == 0xA0 || n == 0x1680 ||
    (0x2000 ≤ n && n ≤ 0x200A) || n == 0x2028 || n == 0x2029 || n == 0x202F || n == 0x205F ||
    n == 0x3000

/-- The Unicode category `Cc`. -/
def isControl (c : Char) : Bool :=
  c.toNat < 0x20 || (0x7F ≤ c.toNat && c.toNat < 0xA0)

/-- The characters that no file name may contain. -/
def forbidden : List Char := ['<', '>', ':', '"', '/', '\\', '|', '?', '*']

def toAsciiLowercase (c : Char) : Char :=
  if 'A' ≤ c && c ≤ 'Z' then Char.ofNat (c.toNat + 32) else c

def splitWhitespace (text : List Char) : List (List Char) :=
  (text.splitOnP isWhitespace).filter (· ≠ [])

def trimEndMatches (set : List Char) (text : List Char) : List Char :=
  (text.reverse.dropWhile fun c => set.contains c).reverse

/-- `trim().is_empty()`. -/
def isBlank (text : String) : Bool := text.toList.all isWhitespace

def reservedNames : List String :=
  ["con", "conin$", "conout$", "prn", "aux", "nul",
    "com1", "com2", "com3", "com4", "com5", "com6", "com7", "com8", "com9",
    "lpt1", "lpt2", "lpt3", "lpt4", "lpt5", "lpt6", "lpt7", "lpt8", "lpt9"]

def cleanTitle (title : List Char) : List Char :=
  let replaced := title.map fun c => if isControl c || forbidden.contains c then ' ' else c
  let joined := [' '].intercalate (splitWhitespace replaced)
  trimEndMatches ['.', ' '] (joined.take 150)

/-- Whether the part of a name before its first dot is reserved. -/
def isReserved (name : List Char) : Bool :=
  let base := trimEndMatches [' '] (name.takeWhile (· ≠ '.'))
  reservedNames.contains (String.ofList (base.map toAsciiLowercase))

def baseName (title : List Char) : List Char :=
  let name := cleanTitle title
  if name.isEmpty || isReserved name then "Download".toList else name

def safeFileName (title extension : List Char) : List Char :=
  let name := baseName title
  if extension.isSuffixOf (name.map toAsciiLowercase) then name else name ++ extension

/-- The file name tried at the given index of the publication loop. -/
def candidateName (title extension : List Char) (index : ℕ) : List Char :=
  let name := safeFileName title extension
  if index = 1 then name
  else
    let stem := name.take (name.length - extension.length)
    stem ++ " (".toList ++ index.repr.toList ++ ")".toList ++ extension

/-- An absolute path as its components. -/
abbrev FilePath := List String

/-- Both separators of the supported systems. -/
def isSeparator (c : Char) : Bool := c == '/' || c == '\\'

def components (path : List Char) : List String :=
  ((path.splitOnP isSeparator).filter fun c => c ≠ [] ∧ c ≠ ['.']).map String.ofList

/-- `Path::join` with a relative path. -/
def FilePath.join (path : FilePath) (name : List Char) : FilePath := path ++ components name

def FilePath.parent (path : FilePath) : Option FilePath :=
  if path = [] then none else some path.dropLast

/-- The path tried at the given index of the publication loop. -/
def candidatePath (destination : FilePath) (title extension : String) (index : ℕ) : FilePath :=
  FilePath.join destination (candidateName title.toList extension.toList index)

end Qbutt.Download

/-!
## Download jobs

The records of `download.rs`: errors with their texts, origins, statuses, jobs and the candidate
that a job in status `publishing` journals.  A variant reference `ρ` belongs to the catalogue; the
queue compares references and asks whether one is valid.
-/

namespace Qbutt.Download

/-- `DownloadError`, without the payloads that no message shows. -/
inductive DownloadError where
  | invalidSelection
  | unsafeAddress
  | http (code : ℕ)
  | redirect
  | format
  | unsupportedMedia
  | incomplete
  | empty
  | timeout
  | cancelled
  | closing
  | retry
  | alreadyQueued
  | storage
  | io
  | network
  | stream
  | mediaTools
  deriving DecidableEq, Repr

def DownloadError.message : DownloadError → String
  | invalidSelection => "The selected download is invalid"
  | unsafeAddress => "The download address is unsafe"
  | http code => "The source returned HTTP " ++ code.repr
  | redirect => "The source redirected too many times"
  | format => "The source returned an unsupported file format"
  | unsupportedMedia => "This video format cannot be saved"
  | incomplete => "The source returned an incomplete file"
  | empty => "The source returned an empty file"
  | timeout => "The download stopped responding"
  | cancelled => "The download was stopped"
  | closing => "The download queue is closing"
  | retry => "The selected download cannot be retried"
  | alreadyQueued => "This variant is already downloading"
  | storage => "The download could not save its status"
  | io => "The download could not access its file"
  | network => "The source could not provide the file"
  | stream => "The selected media stream could not be saved"
  | mediaTools => "Install qplay to save this video"

inductive DownloadOrigin (ρ : Type) where
  | catalog (reference : ρ)
  | browser (sourceHost : String)
  deriving DecidableEq, Repr

inductive DownloadStatus where
  | queued
  | downloading
  | publishing
  | complete
  | cancelled
  | error
  deriving DecidableEq, Repr

/-- `PublishCandidate`: where a staged file is about to be published, with its size and digest. -/
structure PublishCandidate where
  path : FilePath
  size : ℕ
  sha256 : String
  deriving DecidableEq, Repr

structure DownloadJob (ρ : Type) where
  id : String
  title : String
  origin : DownloadOrigin ρ
  status : DownloadStatus
  bytes : ℕ
  totalBytes : Option ℕ
  path : Option FilePath
  error : Option String
  candidate : Option PublishCandidate
  deriving DecidableEq, Repr

/-- The part of a `DirectDownload` that the queue reads: `segmented` says that the media is muxed
from segments rather than fetched directly. -/
structure DirectDownload (ρ : Type) where
  origin : DownloadOrigin ρ
  title : String
  segmented : Bool
  deriving DecidableEq, Repr

/-- What the queue takes from elsewhere: the download directory, the digest, and the checks of
catalogue references and host names. -/
structure Environment (ρ : Type) where
  destination : FilePath
  sha256 : List UInt8 → String
  validReference : ρ → Bool
  canonicalHost : String → Bool

namespace DownloadOrigin

variable {ρ : Type}

def interruptedMessage : DownloadOrigin ρ → String
  | catalog _ => "Download interrupted. Resolve the original variant to retry."
  | browser _ => "Download interrupted. Choose the video again in qcatch."

def isCatalog : DownloadOrigin ρ → Bool
  | catalog _ => true
  | browser _ => false

def validate (E : Environment ρ) : DownloadOrigin ρ → Bool
  | catalog reference => E.validReference reference
  | browser sourceHost => sourceHost.utf8ByteSize ≤ 253 && E.canonicalHost sourceHost

end DownloadOrigin

/-- The extension of the published file. -/
def DirectDownload.extension {ρ : Type} (request : DirectDownload ρ) : String :=
  if request.segmented then ".mkv" else ".mp4"

namespace DownloadJob

variable {ρ : Type}

/-- A job as `enqueue` creates it. -/
def queued (id : String) (request : DirectDownload ρ) : DownloadJob ρ where
  id := id
  title := request.title
  origin := request.origin
  status := .queued
  bytes := 0
  totalBytes := none
  path := none
  error := none
  candidate := none

def isActive (job : DownloadJob ρ) : Bool :=
  match job.status with
  | .queued | .downloading | .publishing => true
  | .complete | .cancelled | .error => false

/-- A job as `retry` restarts it. -/
def requeued (job : DownloadJob ρ) : DownloadJob ρ :=
  { job with
    status := .queued
    bytes := 0
    totalBytes := none
    path := none
    error := none
    candidate := none }

/-- A hexadecimal digit. -/
def isAsciiHexdigit (c : Char) : Bool :=
  ('0' ≤ c && c ≤ '9') || ('a' ≤ c && c ≤ 'f') || ('A' ≤ c && c ≤ 'F')

def validate (E : Environment ρ) (job : DownloadJob ρ) : Bool :=
  job.id.length == 32 && job.id.toList.all isAsciiHexdigit && !isBlank job.title &&
    job.origin.validate E

end DownloadJob

end Qbutt.Download
