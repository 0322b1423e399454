import Qbutt.Streaming.Equiv.Connection

/-!
# Answers

A request for a file that passes all other checks is refused because of its range, or answered with the
bytes that the range asks for (`carries_requested_bytes`).
-/

namespace Qbutt.Streaming

open QByteArray

theorem ofText_append (s t : String) : ofText (s ++ t) = ofText s ++ ofText t := by
  rw [ofText, String.toList_append, List.map_append]
  rfl

/-- The header line for the length of a body. -/
def contentLength (length : ℤ) : Bytes := ofText ("Content-Length: " ++ toString length ++ "\r\n")

theorem contentLength_infix_responseHead (status : ℕ) (reason : String) (length : ℤ) (extra : Bytes) :
    contentLength length <:+: responseHead status reason length extra := by
  refine ⟨ofText ("HTTP/1.1 " ++ toString status ++ " " ++ reason ++ "\r\n" ++
    "Connection: close\r\nCache-Control: no-store\r\n" ++
    "X-Content-Type-Options: nosniff\r\nAccept-Ranges: bytes\r\n"), extra ++ ofText "\r\n", ?_⟩
  simp only [contentLength, responseHead, ofText_append, List.append_assoc]

theorem contentLength_infix_answerHead (qt : QtMedia) (stream : Stream) (first last : ℤ)
    (isPartial : Bool) :
    contentLength (last - first + 1) <:+: answerHead qt stream first last isPartial := by
  cases isPartial with
  | true => exact contentLength_infix_responseHead ..
  | false => exact contentLength_infix_responseHead ..

theorem infix_responseHead (status : ℕ) (reason : String) (length : ℤ) (extra extra' : Bytes) :
    extra' <:+: responseHead status reason length (extra ++ extra') := by
  rw [responseHead, ← List.append_assoc]
  exact ⟨_, _, rfl⟩

theorem contentRange_infix_answerHead (qt : QtMedia) (stream : Stream) (first last : ℤ) :
    contentRange first last stream.file.size <:+: answerHead qt stream first last true :=
  infix_responseHead ..

/-- A request asks for the bytes from `first` to `last` of a file: with its range, or for all of it. -/
def Requests (qt : QtMedia) (size : ℤ) (range : Option Bytes) (first last : ℤ) : Prop :=
  match range with
  | none => (first, last) = (0, size - 1)
  | some range => ∃ asked : ByteRange, Asks qt.toLongLong range asked ∧ asked.bounds size = (first, last)

namespace StreamConnection

variable {qt : QtMedia} {c : StreamConnection} {stream : Stream} {first last size : ℤ}

/-- A connection that has not got its whole request yet has written nothing. -/
structure Fresh (c : StreamConnection) : Prop where
  stream : c.stream = none
  piece : c.piece = none
  waiting : c.waitingPiece = none
  body : c.body = false
  reads : c.reads = []
  output : c.output = [] ∨ 16 * 1024 < c.request.length

@[simp] theorem started_disconnectFromHost (c : StreamConnection) :
    c.disconnectFromHost.started = c.started := by
  unfold disconnectFromHost
  split_ifs <;> rfl

@[simp] theorem started_fail (failure : Failure) (c : StreamConnection) :
    (c.fail failure).started = c.started := by
  simp [fail, respond]

@[simp] theorem started_pumpLoop (stream : Stream) (turns : List Turn) (c : StreamConnection) :
    (pumpLoop stream turns c).started = c.started := by
  induction turns generalizing c with
  | nil => rfl
  | cons turn turns ih =>
    unfold pumpLoop
    simp only
    split_ifs <;> first | rfl | exact ih _

@[simp] theorem started_pump (turns : List Turn) (c : StreamConnection) :
    (c.pump turns).started = c.started := by
  unfold pump
  cases c.stream with
  | none => rfl
  | some stream =>
    simp only [finish]
    split_ifs <;> simp [release]

@[simp] theorem started_answer (stream : Stream) (method target : Bytes) (bounds : ℤ × ℤ × Bool)
    (turns : List Turn) (c : StreamConnection) :
    (c.answer qt stream method target bounds turns).started = c.started := by
  simp only [answer]
  split_ifs <;> simp [respond]

@[simp] theorem started_readText (server : StreamServer) (text : Bytes) (busy : Bool)
    (turns : List Turn) (c : StreamConnection) :
    (c.readText qt server text busy turns).started = c.started := by
  unfold readText
  cases readHead server.serverPort text with
  | error failure => simp
  | ok request =>
    simp only
    cases server.streams.lookup (streamToken (qt.path request.2.1)) with
    | none => simp
    | some stream =>
      simp only [readStream]
      split_ifs
      · simp
      · simp
      · cases checkRange qt stream.file.size request.1 (request.2.2.lookup (ofText "range")) <;> simp

@[simp] theorem started_streamingPieceReady (piece : ℕ) (data : Bytes) (error : String)
    (turns : List Turn) (c : StreamConnection) :
    (c.streamingPieceReady piece data error turns).started = c.started := by
  simp only [streamingPieceReady]
  split_ifs <;> simp [abort, release]

theorem Fresh.cutOff (h : Fresh c) : Fresh c.abort :=
  { h with stream := rfl }

theorem Fresh.readRequest (h : Fresh c) (server : StreamServer) (data : Bytes) (busy : Bool)
    (turns : List Turn) (hstarted : (c.readRequest qt server data busy turns).started = false) :
    Fresh (c.readRequest qt server data busy turns) := by
  unfold StreamConnection.readRequest at hstarted ⊢
  by_cases hc : c.started = true
  · rw [if_pos hc]
    exact h
  simp only [if_neg hc] at hstarted ⊢
  by_cases hlong : 16 * 1024 < (c.request ++ data).length
  · obtain ⟨socket, -, heq⟩ := disconnectFromHost_cases (respond
      (responseHead 431 "Request Header Fields Too Large" 0 []) { c with request := c.request ++ data })
    rw [if_pos hlong, fail, heq]
    exact { h with output := .inr hlong }
  rw [if_neg hlong] at hstarted ⊢
  cases hend : indexOf (ofText "\r\n\r\n") (c.request ++ data) with
  | none =>
    refine { h with output := h.output.imp_right fun hlong => ?_ }
    simp only [List.length_append]
    omega
  | some headerEnd =>
    rw [hend] at hstarted
    simp at hstarted

theorem fresh_of_reachable (hc : (system qt).Reachable (fun _ _ => True) c) :
    c.started = false → Fresh c := by
  refine hc.invariant (I := fun c => c.started = false → Fresh c) ?_ ?_
  · rintro c ⟨consumer, rfl⟩ -
    exact ⟨rfl, rfl, rfl, rfl, rfl, .inl rfl⟩
  · intro c event c' h _ hstep hstarted
    cases hstep
    cases event with
    | readyRead server data busy turns =>
      by_cases hc : c.started = true
      · rw [step, StreamConnection.readRequest, if_pos hc, hc] at hstarted
        cases hstarted
      · exact (h (Bool.eq_false_iff.mpr hc)).readRequest server data busy turns hstarted
    | bytesWritten turns =>
      have hfresh := h ((started_pump turns c).symm.trans hstarted)
      rw [step, pump, hfresh.stream]
      exact hfresh
    | streamingPieceReady piece data error turns =>
      have hfresh := h ((started_streamingPieceReady piece data error turns c).symm.trans hstarted)
      rw [step, streamingPieceReady, if_pos (by simp [hfresh.waiting])]
      exact hfresh
    | aborted => exact (h hstarted).cutOff
    | disconnected => exact (h hstarted).cutOff

structure Refused (output : Bytes) (c : StreamConnection) : Prop where
  started : c.started = true
  body : c.body = false
  waiting : c.waitingPiece = none
  output : c.output = output

theorem Refused.step {output : Bytes} (h : Refused output c) (event : Event) :
    Refused output (step qt c event) := by
  cases event with
  | readyRead server data busy turns =>
    rw [StreamConnection.step, StreamConnection.readRequest, if_pos h.started]
    exact h
  | bytesWritten turns =>
    rw [StreamConnection.step, pump]
    cases c.stream with
    | none => exact h
    | some stream =>
      simp only
      rw [if_pos (by simp [h.body])]
      exact h
  | streamingPieceReady piece data error turns =>
    rw [StreamConnection.step, streamingPieceReady, if_pos (by simp [h.waiting])]
    exact h
  | aborted => exact { h with }
  | disconnected => exact { h with }

/-- A connection that has refused its request writes nothing more. -/
theorem Refused.steps {output : Bytes} {d : StreamConnection} (h : Refused output c)
    (hsteps : (system qt).Steps (fun _ _ => True) c d) : Refused output d := by
  refine hsteps.preserves (P := Refused output) (fun s event s' hs _ hstep => ?_) h
  cases hstep
  exact hs.step event

theorem refused_fail (hstarted : c.started = true) (hbody : c.body = false)
    (hwaiting : c.waitingPiece = none) (failure : Failure) :
    Refused (c.output ++ responseHead failure.status failure.reason 0 failure.headers)
      (c.fail failure) := by
  obtain ⟨socket, -, heq⟩ := disconnectFromHost_cases
    (c.respond (responseHead failure.status failure.reason 0 failure.headers))
  rw [fail, heq]
  exact ⟨hstarted, hbody, hwaiting, rfl⟩

/-- A request has arrived with some data, and passes all checks but that of its range. -/
structure Admits (qt : QtMedia) (server : StreamServer) (data target : Bytes)
    (headers : Table Bytes Bytes) (stream : Stream) (c : StreamConnection) : Prop where
  started : c.started = false
  length : (c.request ++ data).length ≤ 16 * 1024
  head : ∃ headerEnd, indexOf (ofText "\r\n\r\n") (c.request ++ data) = some headerEnd ∧
    readHead server.serverPort ((c.request ++ data).take headerEnd) = .ok (ofText "GET", target, headers)
  found : server.streams.lookup (streamToken (qt.path target)) = some stream
  condition : matchesTag stream headers = true

/-- What a connection has written, of the bytes from `first` to `last` of a file behind a head. -/
structure Carries (info : TorrentInfo) (payload head content : Bytes) (first last : ℤ)
    (c : StreamConnection) : Prop where
  first_le : first ≤ c.position
  le_last : c.position ≤ last + 1
  output : c.output = head ++ (content.drop first.toNat).take (c.position - first).toNat
  done : c.body = false → c.position = last + 1
  reads : ∀ read ∈ c.reads, read.Within info payload

def opened (c : StreamConnection) (data : Bytes) (target : Bytes) (qt : QtMedia) (stream : Stream) :
    StreamConnection :=
  { c with
    request := c.request ++ data
    started := true
    token := streamToken (qt.path target)
    stream := some stream }

theorem Admits.readRequest {server : StreamServer} {data target : Bytes}
    {headers : Table Bytes Bytes} (h : Admits qt server data target headers stream c)
    (turns : List Turn) :
    c.readRequest qt server data false turns =
      match checkRange qt stream.file.size (ofText "GET") (headers.lookup (ofText "range")) with
      | .error failure => (c.opened data target qt stream).fail failure
      | .ok bounds => (c.opened data target qt stream).answer qt stream (ofText "GET") target bounds turns := by
  obtain ⟨headerEnd, hend, hhead⟩ := h.head
  unfold StreamConnection.readRequest
  rw [if_neg (by rw [h.started]; nofun)]
  simp only
  rw [if_neg (not_lt.mpr h.length), hend]
  simp only [readText, hhead, h.found, readStream]
  rw [if_neg nofun, if_neg (by rw [h.condition]; nofun)]
  rfl

/-- The connection starts to write. -/
theorem sending_answer (hfresh : Fresh c) (hlength : c.output = []) (data target : Bytes)
    (payload : Bytes) (first last : ℤ) (isPartial : Bool) (turns : List Turn) (hfirst : 0 ≤ first)
    (hle : first ≤ last) (hlast : last < stream.file.size) :
    let d := (c.opened data target qt stream).answer qt stream (ofText "GET") target
      (first, last, isPartial) turns
    Sending stream payload (answerHead qt stream first last isPartial) first last d ∧
      Unfinished last d := by
  have hmethod : ofText "GET" ≠ ofText "HEAD" := by decide +kernel
  simp only [answer]
  rw [if_neg (not_or.mpr ⟨hmethod, by omega⟩)]
  refine Sending.pump hfirst hlast turns ?_ (fun _ => hle)
  exact
    { started := rfl
      endPosition := rfl
      first_le := le_rfl
      le_last := by show first ≤ last + 1; omega
      output := by
        show c.output ++ _ = _ ++ (List.drop _ _).take (first - first).toNat
        rw [hlength, sub_self, Int.toNat_zero, List.take_zero, List.append_nil, List.nil_append]
      stream_eq := fun s hs => (Option.some.inj hs).symm
      pieceData := fun _ _ piece hpiece => absurd (hfresh.piece.symm.trans hpiece) nofun
      waiting := fun piece hpiece => absurd (hfresh.waiting.symm.trans hpiece) nofun
      connected := fun _ => ⟨rfl, rfl⟩
      done := nofun
      reads := fun read hread => by
        have hmem : read ∈ c.reads := hread
        rw [hfresh.reads] at hmem
        cases hmem }

theorem Sending.carries {payload head : Bytes} (h : Sending stream payload head first last c) :
    Carries stream.info payload head (fileContent stream.file payload) first last c :=
  { h with }

theorem requests_of_checkRange (hsize : 0 < size) {range : Option Bytes} {bounds : ℤ × ℤ × Bool}
    (h : checkRange qt size (ofText "GET") range = .ok bounds) :
    Requests qt size range bounds.1 bounds.2.1 ∧ bounds.2.2 = range.isSome ∧
      0 ≤ bounds.1 ∧ bounds.1 ≤ bounds.2.1 ∧ bounds.2.1 < size := by
  cases range with
  | none =>
    cases h
    refine ⟨rfl, rfl, le_rfl, ?_, ?_⟩
    · show 0 ≤ size - 1
      omega
    · show size - 1 < size
      omega
  | some range =>
    obtain ⟨asked, hasks, hsatisfiable, rfl⟩ := checkRange_eq_ok.mp h
    exact ⟨⟨asked, hasks, rfl⟩, rfl, hsatisfiable⟩

theorem not_requests_of_checkRange {range : Option Bytes} {failure : Failure}
    (h : checkRange qt size (ofText "GET") range = .error failure)
    (hrequests : Requests qt size range first last) (hfirst : 0 ≤ first) (hle : first ≤ last)
    (hlast : last < size) : False := by
  cases range with
  | none => cases h
  | some range =>
    obtain ⟨asked, hasks, hbounds⟩ := hrequests
    have hok := checkRange_eq_ok.mpr ⟨asked, hasks, by
      rw [ByteRange.Satisfiable, hbounds]
      exact ⟨hfirst, hle, hlast⟩, rfl⟩
    rw [h] at hok
    cases hok

/-- A request for a file that passes all other checks is refused with 400 or 416, if the file has no
byte that it asks for; otherwise the answer announces the bytes that it asks for, and then these are
written, in order and each once, whatever the socket takes and in whatever steps the pieces arrive.
Nothing is read from outside a piece, and a connection that is not cut off can go on to the end. -/
theorem carries_requested_bytes (qt : QtMedia) {c : StreamConnection}
    (hc : (system qt).Reachable (fun _ _ => True) c) {server : StreamServer} {data target : Bytes}
    {headers : Table Bytes Bytes} {stream : Stream} (hadmits : Admits qt server data target headers stream c)
    (turns : List Turn) (hsize : 0 < stream.file.size) (payload : Bytes)
    (hpayload : stream.file.offset + stream.file.size ≤ payload.length) :
    let answered := c.readRequest qt server data false turns
    let range := headers.lookup (ofText "range")
    let content := fileContent stream.file payload
    (∃ failure : Failure, (failure.status = 400 ∨ failure.status = 416) ∧
      (∀ first last, Requests qt stream.file.size range first last → 0 ≤ first → first ≤ last →
        last < stream.file.size → False) ∧
      ∀ d, (system qt).Steps (fun _ _ => True) answered d →
        d.output = responseHead failure.status failure.reason 0 failure.headers) ∨
    ∃ first last head, Requests qt stream.file.size range first last ∧
      0 ≤ first ∧ first ≤ last ∧ last < stream.file.size ∧
      head = answerHead qt stream first last range.isSome ∧
      contentLength (last - first + 1) <:+: head ∧
      (range.isSome → contentRange first last stream.file.size <:+: head) ∧
      ∀ d, (system qt).Steps (Delivers stream.info payload) answered d →
        Carries stream.info payload head content first last d ∧
        (d.socket = .connected → ∃ e, (system qt).Steps (Delivers stream.info payload) d e ∧
          e.body = false ∧
          e.output = head ++ (content.drop first.toNat).take (last - first + 1).toNat) := by
  have hfresh := fresh_of_reachable hc hadmits.started
  have hlength := hadmits.length
  have houtput : c.output = [] := hfresh.output.resolve_right (by
    rw [List.length_append] at hlength
    omega)
  simp only
  rw [hadmits.readRequest turns]
  cases hcheck : checkRange qt stream.file.size (ofText "GET") (headers.lookup (ofText "range")) with
  | error failure =>
    refine .inl ⟨failure, checkRange_eq_error hcheck, fun first last hrequests =>
      not_requests_of_checkRange hcheck hrequests, fun d hsteps => ?_⟩
    have hrefused : Refused (c.output ++ responseHead failure.status failure.reason 0 failure.headers)
        ((c.opened data target qt stream).fail failure) :=
      refused_fail (c := c.opened data target qt stream) rfl hfresh.body hfresh.waiting failure
    rw [(hrefused.steps hsteps).output, houtput, List.nil_append]
  | ok bounds =>
    obtain ⟨first, last, isPartial⟩ := bounds
    obtain ⟨hrequests, hpartial, hfirst, hle, hlast⟩ := requests_of_checkRange (by omega) hcheck
    simp only at hrequests hpartial hfirst hle hlast
    subst hpartial
    refine .inr ⟨first, last, _, hrequests, hfirst, hle, hlast, rfl,
      contentLength_infix_answerHead .., fun hrange => ?_, fun d hsteps => ?_⟩
    · rw [hrange]
      exact contentRange_infix_answerHead ..
    · have hd := sending_steps hfirst hlast
        (sending_answer hfresh houtput data target payload first last _ turns hfirst hle hlast) hsteps
      refine ⟨hd.1.carries, fun hsocket => ?_⟩
      obtain ⟨e, hsteps', hbody, hposition⟩ := exists_complete qt hd hfirst hlast hpayload
        (.inl hsocket)
      refine ⟨e, hsteps', hbody, ?_⟩
      rw [(sending_steps hfirst hlast hd hsteps').1.output, hposition,
        show last + 1 - first = last - first + 1 by omega]

/-! ### A request for some bytes -/

/-- `toLongLong`, of a text of decimal digits. -/
def readDigits (text : Bytes) : Option ℤ :=
  if text ≠ [] ∧ text.all fun b => 48 ≤ b && b ≤ 57 then
    some (text.foldl (fun n b => 10 * n + (b.toNat - 48 : ℕ)) 0)
  else none

def sampleMedia : QtMedia where
  toLongLong := readDigits
  path := fromLatin1
  role _ := ""
  mimeType _ := "video/mp4"

def sampleInfo : TorrentInfo where
  pieceLength := 4
  piecesCount := 3
  files := [⟨1, 9⟩]
  pieceLength_pos := Nat.succ_pos 3
  within := by simp

def sampleStream : Stream where
  info := sampleInfo
  infoHashV1 := "aa"
  infoHashV2 := none
  fileIndex := 0
  file := ⟨1, 9⟩
  filePath := "video.mp4"
  found := rfl

def sampleServer : StreamServer where
  serverPort := 80
  streams := AList.insert (ofText "t") sampleStream ∅

def sampleRequest : Bytes :=
  ofText "GET /media/t/video.mp4 HTTP/1.1\r\nHost: 127.0.0.1:80\r\nRange: bytes=2-6\r\n\r\n"

def sampleHeaders : Table Bytes Bytes :=
  AList.insert (ofText "range") (ofText "bytes=2-6") (AList.insert (ofText "host")
    (ofText "127.0.0.1:80") ∅)

theorem readHead_sampleRequest : readHead 80 (sampleRequest.take 69) =
    .ok (ofText "GET", ofText "/media/t/video.mp4", sampleHeaders) := by
  have hentries : (readHead 80 (sampleRequest.take 69)).map (fun r => (r.1, r.2.1, r.2.2.entries)) =
      .ok (ofText "GET", ofText "/media/t/video.mp4", sampleHeaders.entries) := by
    decide +kernel
  cases hread : readHead 80 (sampleRequest.take 69) with
  | error failure =>
    rw [hread] at hentries
    cases hentries
  | ok r =>
    rw [hread] at hentries
    obtain ⟨hmethod, htarget, hheaders⟩ := by simpa [Except.map] using hentries
    rw [← hmethod, ← htarget, ← AList.ext hheaders]

theorem admits_sampleRequest : Admits sampleMedia sampleServer sampleRequest (ofText "/media/t/video.mp4")
    sampleHeaders sampleStream { consumer := 0 } where
  started := rfl
  length := by decide +kernel
  head := ⟨69, by decide +kernel, readHead_sampleRequest⟩
  found := by
    have htoken : streamToken (sampleMedia.path (ofText "/media/t/video.mp4")) = ofText "t" := by
      decide +kernel
    rw [htoken]
    exact AList.lookup_insert _
  condition := by decide +kernel

theorem requests_sampleRequest : Requests sampleMedia 9 (sampleHeaders.lookup (ofText "range")) 2 6 := by
  rw [sampleHeaders, AList.lookup_insert]
  have hasks : Asks readDigits (ofText "bytes=" ++ (ofText "2" ++ 45 :: ofText "6")) (.firstLast 2 6) :=
    .firstLast (by decide +kernel) (by decide +kernel) (by decide +kernel) (by decide +kernel)
      (by decide +kernel)
  exact ⟨.firstLast 2 6, hasks, rfl⟩

/-- The answer to a request for the bytes from 2 to 6 of a file of nine bytes, in pieces of four. -/
theorem carries_requested_bytes_sample :
    ∃ first last head, Requests sampleMedia 9 (sampleHeaders.lookup (ofText "range")) first last ∧
      ∀ d, (system sampleMedia).Steps (Delivers sampleInfo (ofText "0123456789"))
          (readRequest sampleMedia sampleServer sampleRequest false [] { consumer := 0 }) d →
        Carries sampleInfo (ofText "0123456789") head
          (fileContent ⟨1, 9⟩ (ofText "0123456789")) first last d := by
  have h := carries_requested_bytes sampleMedia (.start ⟨0, rfl⟩) admits_sampleRequest [] (by decide)
    (ofText "0123456789") (by decide +kernel)
  rcases h with ⟨failure, -, hnone, -⟩ | ⟨first, last, head, hrequests, -, -, -, -, -, -, hcarries⟩
  · exact (hnone 2 6 requests_sampleRequest (by decide) (by decide) (by decide)).elim
  · exact ⟨first, last, head, hrequests, fun d hsteps => (hcarries d hsteps).1⟩

end StreamConnection

end Qbutt.Streaming
