import Qbutt.Algorithm.Table
import Qbutt.Qt.ByteArray
import Qbutt.Streaming.Torrent

/-!
# Connections of the stream server

`StreamConnection`: the request that a player sends, the head of the answer, and the body, which is
written as the pieces of the torrent arrive and as the socket has room.  The functions of Qt on numbers,
URLs and MIME types are `QtMedia`.
-/

namespace Qbutt.Streaming

open QByteArray

def MAX_BUFFERED_BYTES : ℕ := 256 * 1024

/-- The functions of Qt that a connection calls. -/
structure QtMedia where
  /-- `QByteArray::toLongLong`; nothing where it is not ok -/
  toLongLong : Bytes → Option ℤ
  /-- the path of `QUrl::fromEncoded` -/
  path : Bytes → String
  /-- the value of `role` in the query of `QUrl::fromEncoded` -/
  role : Bytes → String
  /-- the name of `QMimeDatabase::mimeTypeForFile`, by the extension -/
  mimeType : String → String

/-- A stream that was opened: a file of a torrent. -/
structure Stream where
  info : TorrentInfo
  infoHashV1 : String
  infoHashV2 : Option String
  fileIndex : ℕ
  file : TorrentFile
  filePath : String
  found : info.files[fileIndex]? = some file

/-- `StreamServer`, with the streams whose torrents are still there. -/
structure StreamServer where
  serverPort : ℕ
  streams : Table Bytes Stream

/-- A part of the data of a piece that was given to the socket, of which it took some bytes. -/
structure PieceRead where
  data : Bytes
  offset : ℤ
  count : ℤ
  deriving DecidableEq

inductive SocketState where
  | connected
  | closing
  | unconnected
  deriving DecidableEq

/-- `StreamConnection`, with all that was written to the socket, the calls of the torrent and the reads
of the piece data so far. -/
structure StreamConnection where
  consumer : ℕ
  socket : SocketState := .connected
  stream : Option Stream := none
  token : Bytes := []
  request : Bytes := []
  pieceData : Bytes := []
  position : ℤ := 0
  endPosition : ℤ := -1
  piece : Option ℕ := none
  waitingPiece : Option ℕ := none
  started : Bool := false
  body : Bool := false
  urgent : Bool := true
  output : Bytes := []
  calls : List ConsumerCall := []
  reads : List PieceRead := []

/-- The arguments of `fail`. -/
structure Failure where
  status : ℕ
  reason : String
  headers : Bytes := []
  deriving DecidableEq

def badRequest : Failure := ⟨400, "Bad Request", []⟩

/-- What `pump` finds at one turn of its loop: the bytes that the socket holds, an operation or a check
on the files of the torrent, and the bytes that the socket takes, negative where it fails. -/
structure Turn where
  bytesToWrite : ℕ
  busy : Bool
  written : ℤ
  deriving DecidableEq

/-! ### Requests -/

def streamToken (path : String) : Bytes :=
  match path.toList.splitOn '/' with
  | _ :: media :: token :: _ :: _ =>
    if media = "media".toList then toLatin1 (String.ofList token) else []
  | _ => []

/-- `toLower`, of ASCII letters. -/
def toLower (data : Bytes) : Bytes := data.map fun b => if 65 ≤ b && b ≤ 90 then b + 32 else b

/-- The first line of a request: its method and its target. -/
def readRequestLine (line : Bytes) : Except Failure (Bytes × Bytes) :=
  match (trimmed line).splitOn 32 with
  | [method, target, _] =>
    if method = ofText "GET" ∨ method = ofText "HEAD" then .ok (method, target)
    else .error ⟨405, "Method Not Allowed", ofText "Allow: GET, HEAD\r\n"⟩
  | _ => .error ⟨405, "Method Not Allowed", ofText "Allow: GET, HEAD\r\n"⟩

def readHeader (headers : Table Bytes Bytes) (line : Bytes) : Except Failure (Table Bytes Bytes) :=
  match indexOf (ofText ":") line with
  | none => .error badRequest
  | some separator =>
    let name := toLower (trimmed (line.take separator))
    if separator = 0 then .error badRequest
    else if name ∈ headers then .error badRequest
    else .ok (AList.insert name (trimmed (line.drop (separator + 1))) headers)

/-- The request comes from the machine itself, from no page, and has no body. -/
def isLocal (serverPort : ℕ) (headers : Table Bytes Bytes) : Bool :=
  headers.lookup (ofText "host") = some (ofText ("127.0.0.1:" ++ toString serverPort)) &&
    (headers.lookup (ofText "origin")).isNone && (headers.lookup (ofText "content-length")).isNone &&
    (headers.lookup (ofText "transfer-encoding")).isNone

/-- The method, the target and the headers of a request. -/
def readHead (serverPort : ℕ) (text : Bytes) : Except Failure (Bytes × Bytes × Table Bytes Bytes) := do
  let lines := text.splitOn 10
  let (method, target) ← readRequestLine (lines.headD [])
  let headers ← lines.tail.foldlM readHeader ∅
  if isLocal serverPort headers then return (method, target, headers)
  else throw ⟨403, "Forbidden", []⟩

/-- The verified file is immutable, even when its playback token changes. -/
def entityTag (stream : Stream) : Bytes :=
  ofText "\"torrent-" ++ toLatin1 (stream.infoHashV2.getD stream.infoHashV1) ++
    ofText ("-" ++ toString stream.fileIndex ++ "-" ++ toString stream.file.size ++ "\"")

/-- The condition of a request names the file. -/
def matchesTag (stream : Stream) (headers : Table Bytes Bytes) : Bool :=
  match headers.lookup (ofText "if-match") with
  | none => true
  | some condition =>
    condition = ofText "*" || (condition.splitOn 44).any fun candidate =>
      trimmed candidate = entityTag stream

/-- The bounds that the range of a request gives, and whether its numbers are ok. -/
def rangeBounds (qt : QtMedia) (size : ℤ) (range : Bytes) : ℤ × ℤ × Bool :=
  match (range.drop 6).splitOn 45 with
  | [first, last] =>
    if first.isEmpty then
      let suffix := qt.toLongLong last
      (max 0 (size - suffix.getD 0), size - 1, suffix.any (0 < ·))
    else
      ((qt.toLongLong first).getD 0,
        if last.isEmpty then size - 1 else (qt.toLongLong last).getD 0,
        (qt.toLongLong first).isSome && (last.isEmpty || (qt.toLongLong last).isSome))
  | _ => (0, size - 1, false)

def contentRange (first last size : ℤ) : Bytes :=
  ofText ("Content-Range: bytes " ++ toString first ++ "-" ++ toString last ++ "/" ++ toString size ++
    "\r\n")

/-- The bounds of the answer, and whether it is a part of the file only. -/
def checkRange (qt : QtMedia) (size : ℤ) (method : Bytes) (range : Option Bytes) :
    Except Failure (ℤ × ℤ × Bool) :=
  match range with
  | none => .ok (0, size - 1, false)
  | some range =>
    if method = ofText "HEAD" then .ok (0, size - 1, false)
    else if !(ofText "bytes=").isPrefixOf range || range.contains 44 then .error badRequest
    else
      let (position, endPosition, isOk) := rangeBounds qt size range
      if !isOk ∨ position < 0 ∨ size ≤ position ∨ endPosition < position then
        .error ⟨416, "Range Not Satisfiable", ofText ("Content-Range: bytes */" ++ toString size ++
          "\r\n")⟩
      else .ok (position, min endPosition (size - 1), true)

/-- The head of an answer, as `respond` writes it. -/
def responseHead (status : ℕ) (reason : String) (length : ℤ) (extraHeaders : Bytes) : Bytes :=
  ofText ("HTTP/1.1 " ++ toString status ++ " " ++ reason ++ "\r\n" ++
    "Connection: close\r\nCache-Control: no-store\r\n" ++
    "X-Content-Type-Options: nosniff\r\nAccept-Ranges: bytes\r\n" ++
    "Content-Length: " ++ toString length ++ "\r\n") ++ extraHeaders ++ ofText "\r\n"

def answerHead (qt : QtMedia) (stream : Stream) (position endPosition : ℤ) (isPartial : Bool) : Bytes :=
  let extra := ofText "Content-Type: " ++ toLatin1 (qt.mimeType stream.filePath) ++ ofText "\r\n" ++
    ofText "ETag: " ++ entityTag stream ++ ofText "\r\n"
  if isPartial then
    responseHead 206 "Partial Content" (endPosition - position + 1)
      (extra ++ contentRange position endPosition stream.file.size)
  else responseHead 200 "OK" (endPosition - position + 1) extra

/-! ### Connections -/

namespace StreamConnection

def release (c : StreamConnection) : StreamConnection :=
  { c with
    stream := none
    pieceData := []
    calls := c.calls ++ if c.stream.isSome then [.clearStreamingRange c.consumer] else [] }

/-- `QAbstractSocket::abort`, which reports the end of the connection at once. -/
def abort (c : StreamConnection) : StreamConnection := { c.release with socket := .unconnected }

/-- `disconnectFromHost`, which sends what was written first. -/
def disconnectFromHost (c : StreamConnection) : StreamConnection :=
  if c.socket = .connected then { c with socket := .closing } else c

/-- `respond` and `fail`: write the head of an answer. -/
def respond (head : Bytes) (c : StreamConnection) : StreamConnection :=
  { c with output := c.output ++ head }

def fail (failure : Failure) (c : StreamConnection) : StreamConnection :=
  (c.respond (responseHead failure.status failure.reason 0 failure.headers)).disconnectFromHost

def neededPiece (stream : Stream) (c : StreamConnection) : ℕ :=
  (stream.file.offset + c.position.toNat) / stream.info.pieceLength

/-- Ask for the piece at the position. -/
def requestPiece (stream : Stream) (c : StreamConnection) : StreamConnection :=
  { c with
    pieceData := []
    waitingPiece := some (neededPiece stream c)
    calls := c.calls ++ pumpCalls stream.info c.consumer stream.fileIndex stream.file c.position.toNat
      c.endPosition.toNat c.urgent }

def nextRead (stream : Stream) (c : StreamConnection) : PieceRead :=
  let pieceOffset : ℤ := (stream.file.offset + c.position) % stream.info.pieceLength
  { data := c.pieceData
    offset := pieceOffset
    count := min (64 * 1024) (min (c.endPosition - c.position + 1) (c.pieceData.length - pieceOffset)) }

/-- The socket takes some of the bytes that it is given. -/
def write (read : PieceRead) (written : ℤ) (c : StreamConnection) : StreamConnection :=
  { c with
    position := c.position + written
    output := c.output ++ (read.data.drop read.offset.toNat).take written.toNat
    reads := c.reads ++ [read] }

/-- The loop of `pump`; the socket has no more room behind the last turn. -/
def pumpLoop (stream : Stream) : List Turn → StreamConnection → StreamConnection
  | [], c => c
  | turn :: turns, c =>
    if c.endPosition < c.position ∨ MAX_BUFFERED_BYTES ≤ turn.bytesToWrite then c
    else if turn.busy then c.abort
    else if c.piece ≠ some (neededPiece stream c) then c.requestPiece stream
    else
      let read := c.nextRead stream
      if read.count ≤ 0 then c.abort
      else
        -- A socket takes no more than it is given.
        let written := min turn.written read.count
        if written ≤ 0 then { c with reads := c.reads ++ [read] }
        else pumpLoop stream turns (c.write read written)

/-- The end of `pump`. -/
def finish (c : StreamConnection) : StreamConnection :=
  if c.endPosition < c.position then { c.release with body := false }.disconnectFromHost else c

def pump (turns : List Turn) (c : StreamConnection) : StreamConnection :=
  match c.stream with
  | none => c
  | some stream =>
    if !c.body ∨ c.waitingPiece.isSome ∨ c.socket ≠ .connected then c
    else (pumpLoop stream turns c).finish

/-- The end of `readRequest`, for a request whose range is allowed. -/
def answer (qt : QtMedia) (stream : Stream) (method target : Bytes) (bounds : ℤ × ℤ × Bool)
    (turns : List Turn) (c : StreamConnection) : StreamConnection :=
  let c := { c with position := bounds.1, endPosition := bounds.2.1 }
  let c := { c.respond (answerHead qt stream bounds.1 bounds.2.1 bounds.2.2) with request := [] }
  if method = ofText "HEAD" ∨ stream.file.size = 0 then c.disconnectFromHost
  else { c with urgent := qt.role target ≠ "probe", body := true }.pump turns

/-- The part of `readRequest` behind the search for the stream. -/
def readStream (qt : QtMedia) (stream : Stream) (method target : Bytes) (headers : Table Bytes Bytes)
    (busy : Bool) (turns : List Turn) (c : StreamConnection) : StreamConnection :=
  if busy then c.fail ⟨409, "Conflict", []⟩
  else if !matchesTag stream headers then c.fail ⟨412, "Precondition Failed", []⟩
  else
    match checkRange qt stream.file.size method (headers.lookup (ofText "range")) with
    | .error failure => c.fail failure
    | .ok bounds => c.answer qt stream method target bounds turns

/-- The part of `readRequest` for a request whose end has arrived. -/
def readText (qt : QtMedia) (server : StreamServer) (text : Bytes) (busy : Bool) (turns : List Turn)
    (c : StreamConnection) : StreamConnection :=
  match readHead server.serverPort text with
  | .error failure => c.fail failure
  | .ok (method, target, headers) =>
    let c := { c with token := streamToken (qt.path target) }
    match server.streams.lookup c.token with
    | none => c.fail ⟨404, "Not Found", []⟩
    | some stream => { c with stream := some stream }.readStream qt stream method target headers busy turns

/-- `readRequest`, when the socket has delivered some bytes. -/
def readRequest (qt : QtMedia) (server : StreamServer) (data : Bytes) (busy : Bool) (turns : List Turn)
    (c : StreamConnection) : StreamConnection :=
  if c.started then c
  else
    let c := { c with request := c.request ++ data }
    if 16 * 1024 < c.request.length then c.fail ⟨431, "Request Header Fields Too Large", []⟩
    else
      match indexOf (ofText "\r\n\r\n") c.request with
      | none => c
      | some headerEnd =>
        { c with started := true }.readText qt server (c.request.take headerEnd) busy turns

/-- The torrent reports that a piece was read, or why it could not be. -/
def streamingPieceReady (piece : ℕ) (data : Bytes) (error : String) (turns : List Turn)
    (c : StreamConnection) : StreamConnection :=
  if c.waitingPiece ≠ some piece then c
  else
    let c := { c with waitingPiece := none }
    if error ≠ "" ∨ data = [] then c.abort
    else { c with piece := some piece, pieceData := data }.pump turns

/-- What happens to a connection. -/
inductive Event where
  | readyRead (server : StreamServer) (data : Bytes) (busy : Bool) (turns : List Turn)
  | bytesWritten (turns : List Turn)
  | streamingPieceReady (piece : ℕ) (data : Bytes) (error : String) (turns : List Turn)
  /-- The torrent stops streaming or is gone, the stream is closed, or nothing went on for a minute. -/
  | aborted
  | disconnected

def step (qt : QtMedia) (c : StreamConnection) : Event → StreamConnection
  | .readyRead server data busy turns => c.readRequest qt server data busy turns
  | .bytesWritten turns => c.pump turns
  | .streamingPieceReady piece data error turns => c.streamingPieceReady piece data error turns
  | .aborted => c.abort
  | .disconnected => { c.release with socket := .unconnected }

def system (qt : QtMedia) : System StreamConnection Event where
  initial c := ∃ consumer, c = { consumer := consumer }
  step c e := some (step qt c e)

end StreamConnection

end Qbutt.Streaming
