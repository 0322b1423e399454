import Mathlib.Algebra.GroupWithZero.Nat
import Mathlib.Algebra.Order.Ring.Rat
import Mathlib.Data.List.Sort
import Qbutt.Algorithm.Except
import Qbutt.Rust.Str

/-!
# Addresses

What the sources read of an address (`Url`: the accessors of the parsed address; the parser itself is
`UrlLib`), and the checks every address passes before a connection is made: `validateMediaUrl`, and
`validateHttpsUrl` for catalog sources.
-/

namespace Qbutt.Http

structure Ipv4Addr where
  a : UInt8
  b : UInt8
  c : UInt8
  d : UInt8
  deriving DecidableEq

structure Ipv6Addr where
  s0 : UInt16
  s1 : UInt16
  s2 : UInt16
  s3 : UInt16
  s4 : UInt16
  s5 : UInt16
  s6 : UInt16
  s7 : UInt16
  deriving DecidableEq

inductive Host where
  | domain (name : String)
  | ipv4 (address : Ipv4Addr)
  | ipv6 (address : Ipv6Addr)
  deriving DecidableEq

structure TupleOrigin where
  scheme : String
  host : Host
  port : UInt16
  deriving DecidableEq

/-- `url::Origin`; `none` is a unique origin, which is equal to no other one. -/
abbrev Origin := Option TupleOrigin

/-- `==` of two origins. -/
def Origin.same : Origin → Origin → Bool
  | some origin, some origin' => origin = origin'
  | _, _ => false

/-- `Url`, by its accessors. -/
structure Url where
  /-- `as_str` -/
  text : String
  scheme : String
  username : String
  password : Option String
  host : Option Host
  hostStr : Option String
  portOrKnownDefault : Option UInt16
  path : String
  fragment : Option String
  origin : Origin
  deriving DecidableEq

/-- The functions of the `url` crate that make addresses. -/
structure UrlLib where
  parse : String → Option Url
  join : Url → String → Option Url
  /-- `set_query(None)` and `set_fragment(None)` -/
  withoutQuery : Url → Url
  asciiSerialization : Origin → String

/-- The errors of source requests. -/
inductive Error where
  | timeout
  | network
  | unsafeAddress
  | responseTooLarge
  | invalidRedirect
  | invalidResponse (reason : String)
  | httpStatus (status : ℕ)
  deriving DecidableEq

def require {ε : Type} (condition : Bool) (error : ε) : Except ε Unit :=
  if condition then .ok () else .error error

/-- `public_address` of an `IpAddr::V4`. -/
def Ipv4Addr.publicAddress (address : Ipv4Addr) : Bool :=
  let a := address.a
  let b := address.b
  !(a == 0 || a == 10 || a == 127 || 224 ≤ a || (a == 169 && b == 254) ||
    (a == 172 && (16 ≤ b && b ≤ 31)) || (a == 192 && b == 168) ||
    (a == 100 && (64 ≤ b && b ≤ 127)))

def Ipv6Addr.toIpv4Mapped (address : Ipv6Addr) : Option Ipv4Addr :=
  if address.s0 = 0 ∧ address.s1 = 0 ∧ address.s2 = 0 ∧ address.s3 = 0 ∧ address.s4 = 0 ∧
      address.s5 = 0xffff then
    some ⟨(address.s6 >>> 8).toUInt8, address.s6.toUInt8, (address.s7 >>> 8).toUInt8,
      address.s7.toUInt8⟩
  else none

/-- `public_address` of an `IpAddr::V6`. -/
def Ipv6Addr.publicAddress (address : Ipv6Addr) : Bool :=
  match address.toIpv4Mapped with
  | some mapped => mapped.publicAddress
  | none => address.s0 &&& 0xe000 == 0x2000

def validateMediaUrl (url : Url) : Except Error Unit :=
  let valid := (url.scheme == "http" || url.scheme == "https") && url.username.isEmpty &&
    url.password.isNone && url.fragment.isNone && url.portOrKnownDefault.any (· != 0) &&
    match url.host with
    | some (.domain _) => true
    | some (.ipv4 address) => address.publicAddress
    | some (.ipv6 address) => address.publicAddress
    | none => false
  require valid .unsafeAddress

def validateHttpsUrl (url : Url) : Except Error Unit := do
  validateMediaUrl url
  require (url.scheme == "https") .unsafeAddress

end Qbutt.Http

/-!
## Source sessions

`SourceSession`: the cookies of a source and the authorization value that goes with its origin.  The
cookie crates are `CookieLib`; the clock is read once for each request and once for each answer.
-/

namespace Qbutt.Http

open Rust

/-- `header::HeaderValue` of an answer: its text where `to_str` gives one, else its length. -/
inductive HeaderValue where
  | text (value : String)
  | bytes (length : ℕ)
  deriving DecidableEq

/-- `len`. -/
def HeaderValue.length : HeaderValue → ℕ
  | text value => byteLength value
  | bytes length => length

def HeaderValue.toStr : HeaderValue → Option String
  | text value => some value
  | bytes _ => none

/-- The checks of the `http` crate; a header name is kept in lower case. -/
structure HeaderLib where
  /-- `HeaderName::from_bytes` -/
  headerName : String → Option String
  headerName_lowercase : ∀ text name, headerName text = some name →
    name.toList = toAsciiLowercase text.toList
  /-- whether `HeaderValue::from_str` succeeds -/
  headerValue : String → Bool

/-- A request as it is built, with its headers in the order they were added. -/
structure Request where
  method : String
  url : Url
  headers : List (String × String) := []
  body : Option String := none
  deriving DecidableEq

namespace Request

/-- `RequestBuilder::header`, for each of the headers. -/
def addHeaders (request : Request) (headers : List (String × String)) : Request :=
  { request with headers := request.headers ++ headers }

def header (request : Request) (name value : String) : Request :=
  request.addHeaders [(name, value)]

variable (request : Request) (headers : List (String × String)) (name value : String)

@[simp] theorem addHeaders_url : (request.addHeaders headers).url = request.url := rfl

@[simp] theorem addHeaders_body : (request.addHeaders headers).body = request.body := rfl

@[simp] theorem addHeaders_headers :
    (request.addHeaders headers).headers = request.headers ++ headers := rfl

@[simp] theorem header_url : (request.header name value).url = request.url := rfl

@[simp] theorem header_body : (request.header name value).body = request.body := rfl

@[simp] theorem header_headers :
    (request.header name value).headers = request.headers ++ [(name, value)] := rfl

end Request

structure BrowserCookie where
  name : String
  value : String
  domain : String
  path : String
  secure : Bool
  hostOnly : Bool
  httpOnly : Option Bool
  /-- `none` inside is a number that is not finite -/
  expirationDate : Option (Option ℚ)
  deriving DecidableEq

namespace BrowserCookie

def MAX_SESSION_COOKIES : ℕ := 512

def MAX_SESSION_BYTES : ℕ := 256 * 1024

/-- `token` of the browser's checks. -/
def token (value : String) (max : ℕ) : Bool :=
  !value.isEmpty && byteLength value ≤ max &&
    value.toList.all fun c => isAsciiAlphanumeric c || "!#$%&'*+-.^_`|~".toList.contains c

def validFor (cookie : BrowserCookie) (url : Url) : Bool :=
  let domain := toAsciiLowercase (trimStartMatches cookie.domain.toList ['.'])
  let host := (url.hostStr.getD "").toList
  let path := cookie.path.toList
  let urlPath := url.path.toList
  (cookie.name.isEmpty || token cookie.name 256) && byteLength cookie.value ≤ 16 * 1024 &&
    !cookie.value.toList.any isControl && !domain.isEmpty &&
    byteLength (String.ofList domain) ≤ 253 &&
    (host == domain || (!cookie.hostOnly && ('.' :: domain).isSuffixOf host)) &&
    ['/'].isPrefixOf path && byteLength cookie.path ≤ 2048 && !path.any isControl &&
    (urlPath == path || (path.isPrefixOf urlPath &&
      (['/'].isSuffixOf path || urlPath[path.length]? == some '/'))) &&
    (!cookie.secure || url.scheme == "https") &&
    match cookie.expirationDate with
    | none => true
    | some date => date.any (0 ≤ ·)

end BrowserCookie

/-- `cookie::Cookie` as a session builds it from a cookie of a browser. -/
structure RawCookie where
  name : String
  value : String
  path : String
  secure : Bool
  httpOnly : Bool
  domain : Option String := none
  deriving DecidableEq

structure Cookie where
  name : String
  value : String
  /-- `value_trimmed`: the value without quotes around it -/
  valueTrimmed : String
  domain : Option String
  path : String
  secure : Bool
  httpOnly : Bool
  /-- `CookieExpiration::AtUtc`, in nanoseconds; `none` is `SessionEnd` -/
  expires : Option ℤ
  deriving DecidableEq

def Cookie.isExpired (cookie : Cookie) (now : ℤ) : Bool := cookie.expires.any (· ≤ now)

/-- The cookie crates. -/
structure CookieLib where
  /-- `Cookie::try_from_raw_cookie` -/
  tryFromRawCookie : RawCookie → Url → Option Cookie
  /-- `Cookie::parse`, which reads the clock for `Max-Age` -/
  parse : String → Url → ℤ → Option Cookie
  /-- `Cookie::matches` -/
  matchesUrl : Cookie → Url → Bool
  /-- `from_unix_timestamp_nanos` of seconds -/
  fromUnixTimestamp : Option ℚ → Option ℤ

def MAX_COOKIE_BYTES : ℕ := 16 * 1024

def MAX_COOKIE_HEADER_BYTES : ℕ := 64 * 1024

structure SourceSession where
  origin : Origin
  userAgent : Option String := none
  cookies : List Cookie := []
  authorization : Option String := none
  deriving DecidableEq

namespace SourceSession

variable (cookieLib : CookieLib) (headerLib : HeaderLib)

def isAsciiGraphic (c : Char) : Bool := 0x21 ≤ c.toNat && c.toNat ≤ 0x7e

def cookieBytes (cookie : Cookie) : ℕ :=
  byteLength cookie.name + byteLength cookie.value + cookie.domain.elim 0 byteLength +
    byteLength cookie.path

def store (session : SourceSession) (cookie : Cookie) (now : ℤ) : Except Error SourceSession :=
  if cookie.name.isEmpty ||
      cookie.name.toList.any (fun c =>
        !isAsciiGraphic c || "()<>@,;:\\\"/[]?=\x7b\x7d".toList.contains c) ||
      cookie.valueTrimmed.toList.any fun c =>
        !isAsciiGraphic c || "\",;\\".toList.contains c then
    .ok session
  else
    let cookies := session.cookies.filter fun old =>
      let sameKey := old.domain == cookie.domain && old.path == cookie.path &&
        old.name == cookie.name
      !old.isExpired now && !sameKey
    if cookie.isExpired now then .ok { session with cookies := cookies }
    else
      let bytes := ((cookies ++ [cookie]).map cookieBytes).sum
      if cookies.length = BrowserCookie.MAX_SESSION_COOKIES ||
          BrowserCookie.MAX_SESSION_BYTES < bytes then
        .error .responseTooLarge
      else .ok { session with cookies := cookies ++ [cookie] }

def importCookie (url : Url) (browser : BrowserCookie) : Except Error Cookie :=
  let raw : RawCookie :=
    { name := browser.name, value := browser.value, path := browser.path,
      secure := browser.secure, httpOnly := browser.httpOnly.getD false,
      domain := if browser.hostOnly then none else some browser.domain }
  match cookieLib.tryFromRawCookie raw url with
  | none => .error (.invalidResponse "invalid browser cookie")
  | some cookie =>
    match browser.expirationDate with
    | none => .ok cookie
    | some date =>
      match cookieLib.fromUnixTimestamp date with
      | none => .error (.invalidResponse "invalid browser cookie expiry")
      | some expiry => .ok { cookie with expires := some expiry }

def importBrowserCookies (session : SourceSession) (url : Url) (cookies : List BrowserCookie)
    (now : ℤ) : Except Error SourceSession :=
  cookies.foldlM
    (fun session browser => do session.store (← importCookie cookieLib url browser) now) session

def forMedia (origin : Url) (cookies : List BrowserCookie) (now : ℤ) :
    Except Error SourceSession := do
  validateMediaUrl origin
  importBrowserCookies cookieLib { origin := origin.origin } origin cookies now

/-- The cookie header: the cookies as pairs, up to a limit. -/
def cookieHeader (cookies : List Cookie) : Except Error String :=
  cookies.foldlM (fun header cookie =>
    let header := (if header.isEmpty then header else header ++ "; ") ++ cookie.name ++ "=" ++
      cookie.value
    if MAX_COOKIE_HEADER_BYTES < byteLength header then .error .responseTooLarge
    else .ok header) ""

/-- The cookies that are sent to an address, those with the longest paths first. -/
def cookiesFor (session : SourceSession) (url : Url) (now : ℤ) : List Cookie :=
  (session.cookies.filter fun cookie =>
      !cookie.isExpired now && cookieLib.matchesUrl cookie url).insertionSort
    fun cookie cookie' => byteLength cookie'.path ≤ byteLength cookie.path

/-- The headers of a request to an address, besides the cookies. -/
def ownHeaders (session : SourceSession) (url : Url) : List (String × String) :=
  (if url.origin.same session.origin then
      session.authorization.toList.map fun authorization => ("authorization", authorization)
    else []) ++
    session.userAgent.toList.map fun userAgent => ("user-agent", userAgent)

def apply (session : SourceSession) (request : Request) (url : Url) (now : ℤ) :
    Except Error Request := do
  let header ← cookieHeader (session.cookiesFor cookieLib url now)
  require (headerLib.headerValue header) (.invalidResponse "invalid source cookie")
  return (request.header "cookie" header).addHeaders (session.ownHeaders url)

/-- `receive`, of the `Set-Cookie` headers of an answer. -/
def receive (session : SourceSession) (headers : List HeaderValue) (url : Url) (now : ℤ) :
    Except Error SourceSession :=
  headers.foldlM (fun session header =>
    if MAX_COOKIE_BYTES < header.length then .error .responseTooLarge
    else
      match header.toStr.bind (cookieLib.parse · url now) with
      | none => .ok session
      | some cookie => session.store cookie now) session

end SourceSession

end Qbutt.Http
