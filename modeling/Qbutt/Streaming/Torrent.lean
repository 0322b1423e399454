import Mathlib.Data.Finset.Card
import Qbutt.Algorithm.Binary64
import Qbutt.Algorithm.InsertionMap
import Qbutt.Algorithm.Transition

/-!
# Streaming reads of a torrent

What `TorrentImpl` does for consumers that play a file while it is downloaded: the ranges that they
read, the pieces that they wait for, the reads that are under way in the native library, and the piece
priorities and deadlines that make the library fetch the ranges first.
-/

namespace Qbutt.Streaming

def MAX_STREAMING_WINDOW_PIECES : ℕ := 64
def MAX_STREAMING_READS : ℕ := 8

inductive DownloadPriority where
  | ignored
  | normal
  | high
  | maximum
  | mixed
  deriving DecidableEq

def DownloadPriority.value : DownloadPriority → ℤ
  | ignored => 0
  | normal => 1
  | high => 6
  | maximum => 7
  | mixed => -1

structure TorrentFile where
  offset : ℕ
  size : ℕ

/-- `TorrentInfo`; the pieces hold all files. -/
structure TorrentInfo where
  pieceLength : ℕ
  piecesCount : ℕ
  files : List TorrentFile
  pieceLength_pos : 0 < pieceLength
  within : ∀ file ∈ files, file.offset + file.size ≤ piecesCount * pieceLength

structure StreamingRange where
  first : ℕ
  last : ℕ
  urgent : Bool
  deriving DecidableEq

structure IssuedRead where
  piece : ℕ
  pieces : List Bool
  verifiedStreamingPieces : Finset ℕ

/-- What the native library was told: the priorities of the pieces, the deadlines that are in force, the
reads that it has not answered, and all reads so far. -/
structure Native where
  priorities : List ℤ
  deadlines : InsertionMap ℕ ℕ
  reads : List ℕ
  issued : List IssuedRead

/-- `TorrentImpl`; the consumers are numbered. -/
structure Torrent where
  hasMetadata : Bool
  hasExclusiveFileOperation : Bool
  isChecking : Bool
  hasFirstLastPiecePriority : Bool
  filePriorities : List DownloadPriority
  numPieces : ℕ
  pieces : List Bool
  streamingRanges : InsertionMap ℕ StreamingRange
  streamingLeases : ℕ
  streamingDeadlines : InsertionMap ℕ ℕ
  verifiedStreamingPieces : Finset ℕ
  pendingStreamingReads : Finset ℕ
  streamingReads : Finset ℕ
  dispatches : ℕ
  native : Native

/-- The order in which a hash set of pieces is read, which may be another one each time. -/
structure HashOrder where
  order : ℕ → Finset ℕ → List ℕ
  mem_order : ∀ n pieces piece, piece ∈ order n pieces ↔ piece ∈ pieces
  nodup : ∀ n pieces, (order n pieces).Nodup

def StreamingRange.pieces (range : StreamingRange) : List ℕ :=
  List.range' range.first (range.last + 1 - range.first)

def StreamingRange.has (range : StreamingRange) (piece : ℕ) : Bool :=
  range.first ≤ piece && piece ≤ range.last

namespace Torrent

variable (info : TorrentInfo)

/-! ### Priorities and deadlines -/

/-- The number of pieces at each end of a file that come first. -/
def edgePieces (file : TorrentFile) (piecesOfFile : ℕ) : ℕ :=
  min ⌈Binary64.round (Binary64.round (file.size * Binary64.round (1 / 100)) / info.pieceLength)⌉.toNat
    piecesOfFile

def filePiecePriorities (firstLast : Bool) (priorities : List ℤ) (file : TorrentFile)
    (filePrio : DownloadPriority) : List ℤ :=
  if filePrio.value ≤ DownloadPriority.ignored.value || file.size = 0 then priorities
  else
    let first := file.offset / info.pieceLength
    let last := (file.offset + file.size - 1) / info.pieceLength
    let edges := if firstLast then edgePieces info file (last - first + 1) else 0
    (List.range' first (last + 1 - first)).foldl (fun priorities piece =>
      let edge := piece - first < edges || last - piece < edges
      let priority := if edge then DownloadPriority.maximum.value else filePrio.value
      priorities.modify piece (max priority)) priorities

def normalPiecePriorities (t : Torrent) : List ℤ :=
  (info.files.zip t.filePriorities).foldl (fun priorities entry =>
    filePiecePriorities info t.hasFirstLastPiecePriority priorities entry.1 entry.2)
    (List.replicate info.piecesCount DownloadPriority.ignored.value)

/-- The deadline of a piece in a range; one second per tiny piece would starve the scheduler. -/
def pieceDeadline (range : StreamingRange) (piece : ℕ) : ℕ :=
  (piece - range.first) * info.pieceLength * 1000 / (1024 * 1024)

def addDeadline (range : StreamingRange) (deadlines : InsertionMap ℕ ℕ) (piece : ℕ) :
    InsertionMap ℕ ℕ :=
  let deadline := pieceDeadline info range piece
  match deadlines.get piece with
  | none => deadlines.set piece deadline
  | some earlier => if deadline < earlier then deadlines.set piece deadline else deadlines

/-- The loop of `applyPiecePriorities` over the ranges, for the deadlines. -/
def rangeDeadlines (ranges : List StreamingRange) : InsertionMap ℕ ℕ :=
  ranges.foldl (fun deadlines range =>
    if range.urgent then range.pieces.foldl (addDeadline info range) deadlines else deadlines)
    InsertionMap.empty

/-- The loop of `applyPiecePriorities` over the ranges, for the priorities. -/
def rangePriorities (ranges : List StreamingRange) (priorities : List ℤ) : List ℤ :=
  ranges.foldl (fun priorities range =>
    if range.urgent then
      range.pieces.foldl (fun priorities piece =>
        priorities.modify piece (max DownloadPriority.maximum.value)) priorities
    else priorities) priorities

/-- The loop of `applyPiecePriorities` over the ranges, for `activePieces`. -/
def activePieces (ranges : List StreamingRange) : Finset ℕ :=
  ranges.foldl (fun active range => active ∪ range.pieces.toFinset) ∅

/-- The commands of `applyPiecePriorities` that change the deadlines in the native library. -/
def tellDeadlines (refreshDeadlines : Bool) (previous deadlines inForce : InsertionMap ℕ ℕ) :
    InsertionMap ℕ ℕ :=
  let inForce := previous.entries.foldl (fun inForce entry =>
    if (deadlines.get entry.1).isSome then inForce else inForce.delete entry.1) inForce
  deadlines.entries.foldl (fun inForce entry =>
    if refreshDeadlines || previous.get entry.1 ≠ some entry.2 then inForce.set entry.1 entry.2
    else inForce) inForce

def applyPiecePriorities (refreshDeadlines : Bool) (t : Torrent) : Torrent :=
  if !t.hasMetadata then t
  else
    let ranges := t.streamingRanges.values
    let deadlines := rangeDeadlines info ranges
    { t with
      verifiedStreamingPieces := t.verifiedStreamingPieces ∩ activePieces ranges
      streamingDeadlines := deadlines
      native := { t.native with
        priorities := rangePriorities ranges (normalPiecePriorities info t)
        deadlines := tellDeadlines refreshDeadlines t.streamingDeadlines deadlines
          t.native.deadlines } }

/-! ### Leases and ranges -/

def acquireStreamingLease (t : Torrent) : Torrent := { t with streamingLeases := t.streamingLeases + 1 }

def releaseStreamingLease (t : Torrent) : Torrent := { t with streamingLeases := t.streamingLeases - 1 }

/-- Some range contains a piece. -/
def isWanted (t : Torrent) (piece : ℕ) : Bool := t.streamingRanges.values.any fun range => range.has piece

/-- The range that `setStreamingRange` records, for an offset and a length within a file. -/
def streamingRange (file : TorrentFile) (offset length : ℕ) (urgent : Bool) : StreamingRange :=
  let absoluteOffset := file.offset + offset
  let availableLength := min length (file.size - offset)
  let first := absoluteOffset / info.pieceLength
  { first := first
    last := min ((absoluteOffset + availableLength - 1) / info.pieceLength)
      (first + MAX_STREAMING_WINDOW_PIECES - 1)
    urgent := urgent }

def setStreamingRange (t : Torrent) (consumer : ℕ) (fileIndex offset length : ℤ) (urgent : Bool) :
    Torrent :=
  if !t.hasMetadata || fileIndex < 0 then t
  else
    match info.files[fileIndex.toNat]? with
    | none => t
    | some file =>
      if offset < 0 || length ≤ 0 || file.size ≤ offset || t.hasExclusiveFileOperation ||
          t.isChecking then t
      else
        let range := streamingRange info file offset.toNat length.toNat urgent
        if t.streamingRanges.get consumer = some range then t
        else applyPiecePriorities info false
          { t with streamingRanges := t.streamingRanges.set consumer range }

def clearStreamingRange (t : Torrent) (consumer : ℕ) : Torrent :=
  if (t.streamingRanges.get consumer).isNone then t
  else
    let t := applyPiecePriorities info false
      { t with streamingRanges := t.streamingRanges.delete consumer }
    { t with pendingStreamingReads := t.pendingStreamingReads.filter fun piece => t.isWanted piece }

/-! ### Reads -/

def isVerified (t : Torrent) (piece : ℕ) : Bool :=
  piece ∈ t.verifiedStreamingPieces || t.pieces.getD piece false

/-- One pending piece in the loop of `dispatchStreamingReads`. -/
def dispatchPiece (t : Torrent) (piece : ℕ) : Torrent :=
  if MAX_STREAMING_READS ≤ t.streamingReads.card then t
  else if t.isVerified piece && piece ∉ t.streamingReads then
    { t with
      streamingReads := insert piece t.streamingReads
      native := { t.native with
        reads := t.native.reads ++ [piece]
        issued := t.native.issued ++ [⟨piece, t.pieces, t.verifiedStreamingPieces⟩] } }
  else t

def dispatchStreamingReads (hash : HashOrder) (t : Torrent) : Torrent :=
  (hash.order t.dispatches t.pendingStreamingReads).foldl dispatchPiece
    { t with dispatches := t.dispatches + 1 }

def requestStreamingPiece (hash : HashOrder) (t : Torrent) (piece : ℤ) : Torrent :=
  if piece < 0 || info.piecesCount ≤ piece || t.hasExclusiveFileOperation || t.isChecking then t
  else dispatchStreamingReads hash
    { t with pendingStreamingReads := insert piece.toNat t.pendingStreamingReads }

def handleStreamingPieceAvailable (hash : HashOrder) (t : Torrent) (piece : ℕ) : Torrent :=
  if !t.isWanted piece || t.hasExclusiveFileOperation || t.isChecking then t
  else dispatchStreamingReads hash
    { t with verifiedStreamingPieces := insert piece t.verifiedStreamingPieces }

/-- `handleStreamingPiece`, up to the signal; nothing where it returns without one. -/
def takeStreamingPiece (t : Torrent) (piece : ℕ) : Option Torrent :=
  if piece ∈ t.streamingReads then
    some { t with
      streamingReads := t.streamingReads.erase piece
      pendingStreamingReads := t.pendingStreamingReads.erase piece }
  else none

def updateStatus (hash : HashOrder) (t : Torrent) (numPieces : ℕ) (pieces : List Bool) (checking : Bool) :
    Torrent :=
  { dispatchStreamingReads hash
      { t with
        numPieces := numPieces
        pieces := if numPieces ≠ t.numPieces then pieces else t.pieces } with
    isChecking := checking }

def setFirstLastPiecePriority (t : Torrent) (enabled : Bool) : Torrent :=
  if t.hasFirstLastPiecePriority = enabled then t
  else applyPiecePriorities info false { t with hasFirstLastPiecePriority := enabled }

/-- `prioritizeFiles`; the library applies the priorities later. -/
def prioritizeFiles (t : Torrent) (priorities : List DownloadPriority) : Torrent :=
  if t.hasExclusiveFileOperation || !t.hasMetadata then t else { t with filePriorities := priorities }

def handleFilePrioritiesApplied (t : Torrent) : Torrent := applyPiecePriorities info true t

/-- `stopStreaming`; the reads cannot be cancelled and keep their slots. -/
def stopStreaming (t : Torrent) : Torrent :=
  if t.streamingLeases = 0 then t
  else applyPiecePriorities info false
    { t with
      streamingRanges := InsertionMap.empty
      pendingStreamingReads := ∅ }

/-- `doForceRecheck`: the pieces have to be verified again. -/
def doForceRecheck (t : Torrent) : Torrent :=
  if !t.hasMetadata then t
  else
    let t := stopStreaming info t
    { t with
      numPieces := 0
      pieces := t.pieces.map fun _ => false }

end Torrent

end Qbutt.Streaming

/-!
## Consumers of a torrent

The consumers set and clear their ranges and ask for pieces, the library reports verified pieces and
answers reads, and the user and the session change what they like.  A consumer asks only for a piece
inside its current range, and keeps the range while it waits.
-/

namespace Qbutt.Streaming

inductive ConsumerCall where
  | setStreamingRange (consumer : ℕ) (fileIndex offset length : ℤ) (urgent : Bool)
  | clearStreamingRange (consumer : ℕ)
  | requestStreamingPiece (consumer piece : ℕ)
  deriving DecidableEq

def READ_AHEAD_BYTES : ℕ := 4 * 1024 * 1024

/-- The calls of `StreamConnection::pump` for the next piece of a connection. -/
def pumpCalls (info : TorrentInfo) (consumer fileIndex : ℕ) (file : TorrentFile) (position last : ℕ)
    (urgent : Bool) : List ConsumerCall :=
  let absolute := file.offset + position
  [.setStreamingRange consumer fileIndex position
      (min (last - position + 1) (max READ_AHEAD_BYTES (4 * info.pieceLength)) : ℕ) urgent,
    .requestStreamingPiece consumer (absolute / info.pieceLength)]

/-- What can happen to a torrent. -/
inductive Label where
  | call (c : ConsumerCall)
  /-- The library finished a piece. -/
  | pieceAvailable (piece : ℕ)
  | updateStatus (numPieces : ℕ) (pieces : List Bool) (checking : Bool)
  | setFirstLastPiecePriority (enabled : Bool)
  | prioritizeFiles (priorities : List DownloadPriority)
  /-- The library applied the priorities of the files, which made it drop some deadlines. -/
  | filePrioritiesApplied (dropped : List ℕ)
  | setExclusiveFileOperation (exclusive : Bool)
  | acquireStreamingLease
  | releaseStreamingLease
  | stopStreaming
  | doForceRecheck
  /-- The library answers a read; the consumers that hear of it make some calls at once. -/
  | readCompleted (piece : ℕ) (reactions : List ConsumerCall)
  deriving DecidableEq

/-- A torrent, and the pieces for which its consumers wait. -/
structure Session where
  torrent : Torrent
  waiting : ℕ → Option ℕ

variable (info : TorrentInfo) (hash : HashOrder)

namespace Session

/-- A torrent that nobody streams. -/
def IsInitial (s : Session) : Prop :=
  s.torrent.streamingRanges = InsertionMap.empty ∧ s.torrent.streamingDeadlines = InsertionMap.empty ∧
  s.torrent.verifiedStreamingPieces = ∅ ∧ s.torrent.pendingStreamingReads = ∅ ∧
  s.torrent.streamingReads = ∅ ∧ s.torrent.native.deadlines = InsertionMap.empty ∧
  s.torrent.native.reads = [] ∧ s.torrent.native.issued = [] ∧ s.waiting = fun _ => none

/-- A call of a consumer; none where the consumer does not keep to what it promises. -/
def consumerStep (s : Session) : ConsumerCall → Option Session
  | .setStreamingRange consumer fileIndex offset length urgent =>
    if s.waiting consumer = none then
      some { s with
        torrent := s.torrent.setStreamingRange info consumer fileIndex offset length urgent }
    else none
  | .clearStreamingRange consumer => some
      { torrent := s.torrent.clearStreamingRange info consumer
        waiting := Function.update s.waiting consumer none }
  | .requestStreamingPiece consumer piece =>
    if s.waiting consumer = none ∧ (s.torrent.streamingRanges.get consumer).any (·.has piece) then some
      { torrent := s.torrent.requestStreamingPiece info hash piece
        waiting := Function.update s.waiting consumer (some piece) }
    else none

def consumerSteps (s : Session) (calls : List ConsumerCall) : Option Session :=
  calls.foldlM (consumerStep info hash) s

def emitPiece (waiting : ℕ → Option ℕ) (piece : ℕ) (consumer : ℕ) : Option ℕ :=
  if waiting consumer = some piece then none else waiting consumer

def emitStopped (s : Session) : ℕ → Option ℕ :=
  if s.torrent.streamingLeases = 0 then s.waiting else fun _ => none

def step (s : Session) : Label → Option Session
  | .call c => s.consumerStep info hash c
  | .pieceAvailable piece => some
      { s with torrent := s.torrent.handleStreamingPieceAvailable hash piece }
  | .updateStatus numPieces pieces checking => some
      { s with torrent := s.torrent.updateStatus hash numPieces pieces checking }
  | .setFirstLastPiecePriority enabled => some
      { s with torrent := s.torrent.setFirstLastPiecePriority info enabled }
  | .prioritizeFiles priorities => some { s with torrent := s.torrent.prioritizeFiles priorities }
  | .filePrioritiesApplied dropped => some
      { s with
        torrent := Torrent.handleFilePrioritiesApplied info { s.torrent with
          native := { s.torrent.native with
            deadlines := dropped.foldl InsertionMap.delete s.torrent.native.deadlines } } }
  | .setExclusiveFileOperation exclusive => some
      { s with torrent := { s.torrent with hasExclusiveFileOperation := exclusive } }
  | .acquireStreamingLease => some { s with torrent := s.torrent.acquireStreamingLease }
  | .releaseStreamingLease => some { s with torrent := s.torrent.releaseStreamingLease }
  | .stopStreaming => some
      { torrent := s.torrent.stopStreaming info
        waiting := s.emitStopped }
  | .doForceRecheck => some
      { torrent := s.torrent.doForceRecheck info
        waiting := if s.torrent.hasMetadata then s.emitStopped else s.waiting }
  | .readCompleted piece reactions =>
    -- There is one answer for each read that was issued.
    if piece ∈ s.torrent.native.reads then
      let native := { s.torrent.native with reads := s.torrent.native.reads.erase piece }
      match Torrent.takeStreamingPiece { s.torrent with native := native } piece with
      | none => some { s with torrent := { s.torrent with native := native } }
      | some t =>
        (consumerSteps info hash { torrent := t, waiting := emitPiece s.waiting piece } reactions).map
          fun s => { s with torrent := s.torrent.dispatchStreamingReads hash }
    else none

/-- The consumers of a torrent as a system. -/
def system : System Session Label where
  initial := IsInitial
  step := step info hash

end Session

end Qbutt.Streaming
