import Qbutt.Algorithm.Dialogue
import Qbutt.Http.Session

/-!
# Source requests

`SourceHttp.fetch`: a request to a source and the redirects it follows.  The loop over the redirects
and the loop that repeats a request once are one dialogue with the servers (`SourceHttp.loops`).  A
call without a result is still waiting, or was dropped by its deadline.
-/

namespace Qbutt.Http

open Rust

def MAX_RESPONSE_BYTES : ℕ := 24 * 1024 * 1024

def MAX_HTML_BYTES : ℕ := 2 * 1024 * 1024

def MAX_FORM_BYTES : ℕ := 16 * 1024

def MAX_REDIRECTS : ℕ := 5

/-- `TorrentMetadata::MAX_BYTES`. -/
def MAX_METADATA_BYTES : ℕ := 10 * 1024 * 1024

inductive ResponseKind where
  | json
  | html (limit : ℕ)
  | image
  | playlist
  | document
  | ajaxDocument
  | metadata
  deriving DecidableEq

namespace ResponseKind

def raw : ResponseKind → Bool
  | document | ajaxDocument | metadata => true
  | _ => false

def sameOrigin (kind : ResponseKind) (allowedHosts : List String) : Bool :=
  match kind with
  | image | playlist => false
  | metadata => allowedHosts.isEmpty
  | _ => true

def maxBytes : ResponseKind → ℕ
  | metadata => MAX_METADATA_BYTES
  | html limit => limit
  | playlist | document | ajaxDocument => MAX_HTML_BYTES
  | json | image => MAX_RESPONSE_BYTES

def accept : ResponseKind → String
  | json => "application/json"
  | html _ | document | ajaxDocument => "text/html"
  | metadata => "application/x-bittorrent, application/octet-stream, text/html"
  | image => "image/*"
  | playlist => "application/vnd.apple.mpegurl, application/x-mpegURL, text/plain"

end ResponseKind

/-- An answer, with its body as the chunks it comes in; a chunk that does not arrive is `none`. -/
structure Response where
  status : ℕ
  setCookie : List HeaderValue := []
  retryAfter : Option HeaderValue := none
  location : Option HeaderValue := none
  contentType : Option HeaderValue := none
  contentLength : Option ℕ := none
  chunks : List (Option (List UInt8)) := []
  deriving DecidableEq

structure SourceDocument where
  status : ℕ
  contentType : Option String
  finalUrl : Url
  body : List UInt8
  deriving DecidableEq

structure SourceHttp where
  origin : Url

structure FetchCall where
  kind : ResponseKind
  allowedHosts : List String
  referer : Option Url

/-- The variables of `fetch` that change; `redirects` is the variable of the outer loop. -/
structure FetchState where
  redirects : ℕ := 0
  url : Url
  form : Option String
  session : Option SourceSession
  retried : Bool := false

namespace SourceHttp

variable (urlLib : UrlLib) (cookieLib : CookieLib) (headerLib : HeaderLib)

/-- The checks before the loop. -/
def checkCall (http : SourceHttp) (call : FetchCall) (url : Url) (form : Option String)
    (session : Option SourceSession) : Except Error Unit := do
  require (form.all (byteLength · ≤ MAX_FORM_BYTES)) .responseTooLarge
  require (session.all fun session => url.origin.same session.origin) .unsafeAddress
  match call.referer with
  | none => return
  | some referer =>
    validateHttpsUrl referer
    require (referer.origin.same http.origin.origin) .unsafeAddress

/-- The checks of the address of a request. -/
def checkUrl (http : SourceHttp) (call : FetchCall) (s : FetchState) : Except Error Unit := do
  validateHttpsUrl s.url
  let atOrigin := s.url.origin.same http.origin.origin
  require (!call.kind.sameOrigin call.allowedHosts || atOrigin) .unsafeAddress
  require (s.form.isNone || atOrigin) .unsafeAddress
  require (call.allowedHosts.isEmpty || (s.url.hostStr.any (call.allowedHosts.contains ·) &&
    s.url.portOrKnownDefault == http.origin.portOrKnownDefault)) .unsafeAddress

/-- The request, before the session adds its headers. -/
def baseRequest (call : FetchCall) (s : FetchState) : Request :=
  match s.form with
  | some form =>
    let request : Request :=
      { method := "POST", url := s.url, body := some form,
        headers := [("content-type", "application/x-www-form-urlencoded")] }
    if call.kind = .json ∨ call.kind = .ajaxDocument then
      request.header "x-requested-with" "XMLHttpRequest"
    else request
  | none => { method := "GET", url := s.url }

def lastHeaders (call : FetchCall) : List (String × String) :=
  (call.referer.toList.map fun referer => ("referer", referer.text)) ++
    [("accept", call.kind.accept), ("accept-encoding", "identity")]

def buildRequest (call : FetchCall) (s : FetchState) (now : ℤ) : Except Error Request :=
  match s.session with
  | none => .ok ((baseRequest call s).addHeaders (lastHeaders call))
  | some session => do
    let request ← session.apply cookieLib headerLib (baseRequest call s) s.url now
    return request.addHeaders (lastHeaders call)

/-- How long to wait before a request is sent again, in milliseconds. -/
def retryDelay (response : Response) : Option ℕ :=
  match response.retryAfter with
  | none => some 500
  | some value => do
    let seconds ← parseUnsigned (2 ^ 64) (← value.toStr).toList
    guard (seconds ≤ 2)
    return 1000 * seconds

def isRedirect (status : ℕ) : Bool := [301, 302, 303, 307, 308].contains status

def readBody (maxBytes : ℕ) : List (Option (List UInt8)) → List UInt8 →
    Except Error (List UInt8)
  | [], bytes => .ok bytes
  | none :: _, _ => .error .network
  | some chunk :: chunks, bytes =>
    if maxBytes - bytes.length < chunk.length then .error .responseTooLarge
    else readBody maxBytes chunks (bytes ++ chunk)

/-- The end of the call with an answer that is no redirect. -/
def readDocument (kind : ResponseKind) (url : Url) (response : Response) :
    Except Error SourceDocument := do
  require (kind.raw || (200 ≤ response.status && response.status < 300))
    (.httpStatus response.status)
  let contentType := (response.contentType.bind HeaderValue.toStr).filter (byteLength · ≤ 1024)
  let mime := contentType.map fun value => trim (((splitText value.toList [';']).head?).getD [])
  match kind with
  | .html _ =>
    require (mime.any (eqIgnoreAsciiCase · "text/html"))
      (.invalidResponse "catalog response is not HTML")
  | .image =>
    require (mime.any ("image/".toList.isPrefixOf ·))
      (.invalidResponse "page response is not an image")
  | _ => pure ()
  require (response.contentLength.all (· ≤ kind.maxBytes)) .responseTooLarge
  let bytes ← readBody kind.maxBytes response.chunks []
  require (!bytes.isEmpty || kind.raw) (.invalidResponse "empty source response")
  return { status := response.status, contentType, finalUrl := url, body := bytes }

def redirectForm (kind : ResponseKind) (form : Option String) (status : ℕ) :
    Except Error (Option String) :=
  if form.isSome && !(status = 307 || status = 308) then
    if kind = .metadata then .ok none else .error .invalidRedirect
  else .ok form

/-- The redirect that an answer asks for. -/
def redirect (call : FetchCall) (s : FetchState) (response : Response) :
    Except Error FetchState := do
  require (s.redirects != MAX_REDIRECTS) .invalidRedirect
  let form ← redirectForm call.kind s.form response.status
  match (response.location.bind HeaderValue.toStr).bind (urlLib.join s.url) with
  | none => throw .invalidRedirect
  | some url => return { s with redirects := s.redirects + 1, url, form }

def receiveSession (s : FetchState) (response : Response) (now : ℤ) :
    Except Error (Option SourceSession) :=
  match s.session with
  | none => .ok none
  | some session => do return some (← session.receive cookieLib response.setCookie s.url now)

/-- Whether the same request is sent once more. -/
def resends (s : FetchState) (response : Response) : Bool :=
  response.status == 503 && s.form.isNone && !s.retried && (retryDelay response).isSome

/-- What an answer leads to: another request, or the end of the call. -/
def receive (call : FetchCall) (s : FetchState) (response : Response) (now : ℤ) :
    FetchState ⊕ Except Error SourceDocument :=
  match receiveSession cookieLib s response now with
  | .error error => .inr (.error error)
  | .ok session =>
    if resends s response then .inl { s with session, retried := true }
    else if isRedirect response.status then
      match redirect urlLib call { s with session } response with
      | .ok s => .inl s
      | .error error => .inr (.error error)
    else .inr (readDocument call.kind s.url response)

/-- The body of the two loops of `fetch`. -/
def loops (http : SourceHttp) (call : FetchCall) :
    Dialogue FetchState Request (Except Error Response) (Except Error SourceDocument) where
  request s now :=
    match do checkUrl http call s; buildRequest cookieLib headerLib call s now with
    | .ok request => .ok request
    | .error error => .error (.error error)
  answer s answer now :=
    match answer with
    | .error error => .inr (.error error)
    | .ok response => receive urlLib cookieLib call s response now

/-- `fetch`: the requests it sends and what it returns. -/
def fetch (http : SourceHttp) (call : FetchCall) (url : Url) (form : Option String)
    (session : Option SourceSession) (exchanges : List (Exchange (Except Error Response))) :
    List (Sent FetchState Request (Except Error Response)) ×
      Option (Except Error SourceDocument) :=
  match checkCall http call url form session with
  | .error error => ([], some (.error error))
  | .ok _ => (loops urlLib cookieLib headerLib http call).run exchanges { url, form, session }

end SourceHttp

end Qbutt.Http
