import Qbutt.Http.Source

/-!
# Media requests

`Resources`: the headers and cookie sessions of a playback descriptor, and `Resources.fetch`, which
follows redirects with them as a dialogue with the servers.
-/

namespace Qbutt.Http

open Rust

inductive MediaGatewayError where
  | source
  | invalidDescriptor
  deriving DecidableEq

/-- A playback descriptor; its headers come in the order of their names. -/
structure PlaybackMedia where
  url : Url
  headers : List (String × String)
  cookies : List BrowserCookie
  audioUrl : Option Url := none
  subtitleUrls : List Url := []

/-- The addresses of the descriptor. -/
def PlaybackMedia.sources (media : PlaybackMedia) : List Url :=
  media.url :: media.audioUrl.toList ++ media.subtitleUrls

structure Resources where
  origin : Origin
  headers : List (String × String)
  sessions : List SourceSession

/-- The variables of `fetch`; `redirects` is the variable of its loop. -/
structure MediaState where
  redirects : ℕ := 0
  target : Url

def hopHeader (name : String) : Bool :=
  ["connection", "keep-alive", "proxy-authenticate", "proxy-authorization", "proxy-connection",
    "te", "trailer", "transfer-encoding", "upgrade"].any fun excluded =>
    eqIgnoreAsciiCase name.toList excluded

def publicHeader (name : String) : Bool :=
  ["user-agent", "referer", "origin", "accept", "accept-language"].contains name

namespace Resources

variable (urlLib : UrlLib) (cookieLib : CookieLib) (headerLib : HeaderLib)

def addressHeader (name value : String) : Except MediaGatewayError String :=
  if eqIgnoreAsciiCase name.toList "referer" || eqIgnoreAsciiCase name.toList "origin" then
    match urlLib.parse value with
    | none => .error .invalidDescriptor
    | some url =>
      match validateMediaUrl url with
      | .error _ => .error .invalidDescriptor
      | .ok _ =>
        let url := urlLib.withoutQuery url
        .ok (if eqIgnoreAsciiCase name.toList "origin" then urlLib.asciiSerialization url.origin
          else url.text)
  else .ok value

/-- The headers of a descriptor that are not sent. -/
def excludedHeader (name : String) : Bool :=
  hopHeader name || ["host", "accept-encoding", "content-length", "range"].any
    (eqIgnoreAsciiCase name.toList ·)

/-- A header of the descriptor as it is sent. -/
def convertHeader (name value : String) : Except MediaGatewayError (String × String) := do
  let value ← addressHeader urlLib name value
  match headerLib.headerName name with
  | none => throw .invalidDescriptor
  | some name =>
    require (headerLib.headerValue value) .invalidDescriptor
    return (name, value)

/-- Take a header of the descriptor over. -/
def playbackHeader (result : List (String × String)) (header : String × String) :
    Except MediaGatewayError (List (String × String)) :=
  if eqIgnoreAsciiCase header.1.toList "cookie" then .error .invalidDescriptor
  else if excludedHeader header.1 then .ok result
  else do
    let converted ← convertHeader urlLib headerLib header.1 header.2
    require (!(result.map Prod.fst).contains converted.1) .invalidDescriptor
    return result ++ [converted]

def playbackHeaders (headers : List (String × String)) :
    Except MediaGatewayError (List (String × String)) :=
  headers.foldlM (playbackHeader urlLib headerLib) []

/-- The cookies of the descriptor that are valid for a source of an origin. -/
def cookiesOf (media : PlaybackMedia) (url : Url) : List BrowserCookie :=
  media.cookies.filter fun cookie =>
    media.sources.any fun source => source.origin.same url.origin && cookie.validFor source

def sessionsOf (media : PlaybackMedia) (now : ℤ) :
    Except MediaGatewayError (List SourceSession) :=
  media.sources.foldlM (fun sessions url =>
    if sessions.any fun session => session.origin.same url.origin then .ok sessions
    else if (cookiesOf media url).isEmpty then .ok sessions
    else
      match SourceSession.forMedia cookieLib url (cookiesOf media url) now with
      | .error _ => .error .invalidDescriptor
      | .ok session => .ok (sessions ++ [session])) []

def withClient (media : PlaybackMedia) (now : ℤ) : Except MediaGatewayError Resources := do
  let sessions ← sessionsOf cookieLib media now
  let headers ← playbackHeaders urlLib headerLib media.headers
  return { origin := media.url.origin, headers, sessions }

/-- The headers of the descriptor that go to an address. -/
def headersFor (resources : Resources) (target : Url) : List (String × String) :=
  resources.headers.filter fun header =>
    target.origin.same resources.origin || publicHeader header.1

def sessionFor (resources : Resources) (target : Url) : Option SourceSession :=
  resources.sessions.find? fun session => session.origin.same target.origin

/-- The cookies of the session of an address, if it has one. -/
def applySession (resources : Resources) (request : Request) (target : Url) (now : ℤ) :
    Except MediaGatewayError Request :=
  match resources.sessionFor target with
  | none => .ok request
  | some session =>
    (session.apply cookieLib headerLib request target now).mapError fun _ => .invalidDescriptor

def buildRequest (resources : Resources) (method : String) (range : Option String) (target : Url)
    (now : ℤ) : Except MediaGatewayError Request := do
  let request : Request := { method, url := target, headers := headersFor resources target }
  let request ← applySession cookieLib headerLib resources request target now
  return request.addHeaders (("accept-encoding", "identity") ::
    range.toList.map fun range => ("range", range))

/-- What an answer leads to: a request to another address, or the end of the call. -/
def receive (s : MediaState) (response : Response) :
    MediaState ⊕ Except MediaGatewayError (Response × Url) :=
  if SourceHttp.isRedirect response.status then
    if s.redirects = 5 then .inr (.error .source)
    else
      match (response.location.bind HeaderValue.toStr).bind (urlLib.join s.target) with
      | none => .inr (.error .source)
      | some next =>
        if s.target.scheme = "https" ∧ next.scheme ≠ "https" then .inr (.error .invalidDescriptor)
        else .inl { redirects := s.redirects + 1, target := next }
  else if !(200 ≤ response.status && response.status < 300) && response.status != 416 then
    .inr (.error .source)
  else .inr (.ok (response, s.target))

/-- The body of the loop of `fetch`. -/
def loop (resources : Resources) (method : String) (range : Option String) :
    Dialogue MediaState Request (Except Error Response)
      (Except MediaGatewayError (Response × Url)) where
  request s now :=
    match validateMediaUrl s.target with
    | .error _ => .error (.error .invalidDescriptor)
    | .ok _ =>
      match buildRequest cookieLib headerLib resources method range s.target now with
      | .error error => .error (.error error)
      | .ok request => .ok request
  answer s answer _ :=
    match answer with
    | .error _ => .inr (.error .source)
    | .ok response => receive urlLib s response

/-- `fetch`: the requests it sends and what it returns. -/
def fetch (resources : Resources) (target : Url) (method : String) (range : Option String)
    (exchanges : List (Exchange (Except Error Response))) :
    List (Sent MediaState Request (Except Error Response)) ×
      Option (Except MediaGatewayError (Response × Url)) :=
  (loop urlLib cookieLib headerLib resources method range).run exchanges { target }

end Resources

end Qbutt.Http
