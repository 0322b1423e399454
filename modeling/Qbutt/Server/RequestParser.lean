import Qbutt.Algorithm.Framing
import Qbutt.Algorithm.Table
import Qbutt.Qt.ByteArray

/-!
# Requests of the Web interface

`Http::RequestParser`: what it reads of the data that have arrived.  The text functions of Qt that
it calls are `QtText`.
-/

namespace Qbutt.Server

open QByteArray

structure QtText where
  /-- `QString::fromUtf8` -/
  fromUtf8 : Bytes → String
  /-- `QByteArray::fromPercentEncoding` -/
  fromPercentEncoding : Bytes → Bytes
  /-- `QString::toLower` -/
  toLower : String → String
  /-- `QString::toInt` -/
  toInt : String → Option ℤ
  /-- `QUrlQuery::queryItems`, fully decoded -/
  queryItems : String → List (String × String)

structure UploadedFile where
  filename : String
  type : String
  data : Bytes
  deriving DecidableEq

structure Request where
  version : String := ""
  method : String := ""
  path : String := ""
  headers : Table String String := ∅
  query : Table String Bytes := ∅
  posts : Table String String := ∅
  files : List UploadedFile := []
  deriving DecidableEq

def CRLF : Bytes := [13, 10]

def EOH : Bytes := [13, 10, 13, 10]

def HEADER_CONTENT_LENGTH : String := "content-length"

def HEADER_CONTENT_TYPE : String := "content-type"

def HEADER_CONTENT_DISPOSITION : String := "content-disposition"

def CONTENT_TYPE_FORM_ENCODED : String := "application/x-www-form-urlencoded"

def CONTENT_TYPE_FORM_DATA : String := "multipart/form-data"

def MAX_CONTENT_SIZE : ℕ := 64 * 1024 * 1024

/-- Why a request is not handled; the method is reported for the first reason. -/
inductive Malformed where
  | badMethod (request : Request)
  | badRequest
  deriving DecidableEq

abbrev ParseResult := Parsed Request Malformed

namespace RequestParser

variable (qt : QtText)

def isLatin1Space (b : UInt8) : Bool := isSpace b || b == 0x85 || b == 0xa0

def isDigit (b : UInt8) : Bool := 48 ≤ b && b ≤ 57

def isUpper (b : UInt8) : Bool := 65 ≤ b && b ≤ 90

/-- `replace('+', ' ')`. -/
def plusToSpace (data : Bytes) : Bytes := data.map fun b => if b = 43 then 32 else b

def viewWithoutEndingWith (data str : Bytes) : Bytes :=
  if str.isSuffixOf data then data.take (data.length - str.length) else data

def parseHeaderLine (line : Bytes) : Option (String × String) :=
  match indexOf (ofText ":") line with
  | none => none
  | some i =>
    if i = 0 then none
    else some (qt.toLower (fromLatin1 (trimmed (line.take i))),
      fromLatin1 (trimmed (line.drop (i + 1))))

def parseQueryParam (query : Table String Bytes) (param : Bytes) : Table String Bytes :=
  match indexOf (ofText "=") param with
  | none => query
  | some i =>
    if i = 0 then query
    else
      AList.insert (qt.fromUtf8 (plusToSpace (qt.fromPercentEncoding (param.take i))))
        (plusToSpace (qt.fromPercentEncoding (param.drop (i + 1)))) query

def parseRequestLine (request : Request) (line : Bytes) : Option Request :=
  match splitToViews line (ofText " ") true with
  | [method, url, version] =>
    if !method.all isUpper then none
    else
      let sepPos := indexOf (ofText "?") url
      let pathComponent := match sepPos with
        | none => url
        | some i => url.take i
      let query := match sepPos with
        | none => request.query
        | some i =>
          (splitToViews (url.drop (i + 1)) (ofText "&")).foldl (parseQueryParam qt) request.query
      if version.length = 8 ∧ (ofText "HTTP/").isPrefixOf version ∧ version[5]?.any isDigit ∧
          version[6]? = some 46 ∧ version[7]?.any isDigit then
        some { request with
          method := fromLatin1 method
          path := qt.fromUtf8 (qt.fromPercentEncoding pathComponent)
          query := query
          version := fromLatin1 (version.drop 5) }
      else none
  | _ => none

/-- Put the continuations of lines behind them. -/
def requestLines : List Bytes → List Bytes → List Bytes
  | done, [] => done
  | done, line :: lines =>
    if line.head?.any isLatin1Space && !done.isEmpty then
      requestLines (done.dropLast ++ [(done.getLast?.getD []) ++ line]) lines
    else requestLines (done ++ [line]) lines

def parseHeaderLines (request : Request) (lines : List Bytes) : Option Request :=
  lines.foldlM (fun request line => do
    let (name, value) ← parseHeaderLine qt line
    return { request with headers := AList.insert name value request.headers }) request

def parseStartLines (data : Bytes) : Option Request :=
  match requestLines [] (splitToViews data CRLF) with
  | [] => none
  | line :: lines => do
    let request ← parseRequestLine qt {} line
    parseHeaderLines qt request lines

/-- The directives of a content disposition. -/
def parseDirective (headers : Table String String) (directive : Bytes) : Table String String :=
  match indexOf (ofText "=") directive with
  | none => headers
  | some i =>
    AList.insert (qt.toLower (fromLatin1 (trimmed (directive.take i))))
      (fromLatin1 (unquote 34 (trimmed (directive.drop (i + 1))))) headers

def parsePartHeaders (lines : List Bytes) : Option (Table String String) :=
  lines.foldlM (fun headers line => do
    let (name, value) ← parseHeaderLine qt line
    if name = HEADER_CONTENT_DISPOSITION then
      return (splitToViews line (ofText ";")).foldl (parseDirective qt) headers
    else return AList.insert name value headers) ∅

def parseFormData (request : Request) (data : Bytes) : Option Request := do
  let eohPos ← indexOf EOH data
  let payload := viewWithoutEndingWith (data.drop (eohPos + EOH.length)) CRLF
  let headers ← parsePartHeaders qt (splitToViews (data.take eohPos) CRLF)
  match headers.lookup "filename" with
  | some filename =>
    let type := (headers.lookup HEADER_CONTENT_TYPE).getD ""
    return { request with files := request.files ++ [⟨filename, type, payload⟩] }
  | none =>
    let name ← headers.lookup "name"
    return { request with posts := AList.insert name (qt.fromUtf8 payload) request.posts }

def parsePostMessage (request : Request) (data : Bytes) : Option Request :=
  let contentType := ((request.headers.lookup HEADER_CONTENT_TYPE).getD "").toList
  let contentTypeLower := (qt.toLower (String.ofList contentType)).toList
  if CONTENT_TYPE_FORM_ENCODED.toList.isPrefixOf contentTypeLower then
    let pairs := qt.queryItems (qt.fromUtf8 (plusToSpace data))
    some { request with
      posts := pairs.foldl (fun posts pair => AList.insert pair.1 pair.2 posts) request.posts }
  else if CONTENT_TYPE_FORM_DATA.toList.isPrefixOf contentTypeLower then do
    let idx ← indexOf "boundary=".toList contentType
    let delimiter := toLatin1 (String.ofList (unquote '"' (contentType.drop (idx + 9))))
    if delimiter.isEmpty then failure
    let multipart := splitToViews data (ofText "--" ++ delimiter ++ CRLF)
    let last ← multipart.getLast?
    let endDelimiter := ofText "--" ++ delimiter ++ ofText "--" ++ CRLF
    (multipart.dropLast ++ [viewWithoutEndingWith last endDelimiter]).foldlM (parseFormData qt)
      request
  else none

/-- `parseContentLength`; a length that is no number is -1. -/
def parseContentLength (request : Request) : ℤ :=
  match request.headers.lookup HEADER_CONTENT_LENGTH with
  | none => 0
  | some rawValue => (qt.toInt rawValue).getD (-1)

def parseBody (request : Request) (headerLength : ℕ) (data : Bytes) : ParseResult :=
  if request.method = "GET" ∨ request.method = "HEAD" then .ok request headerLength
  else if request.method = "POST" then
    let contentLength := parseContentLength qt request
    if contentLength < 0 then .bad .badRequest
    else if (MAX_CONTENT_SIZE : ℤ) < contentLength then .bad .badRequest
    else if 0 < contentLength then
      let httpBodyView := (data.drop headerLength).take contentLength.toNat
      if httpBodyView.length < contentLength then .incomplete
      else
        match parsePostMessage qt request httpBodyView with
        | none => .bad .badRequest
        | some request => .ok request (headerLength + contentLength.toNat)
    else .ok request (headerLength + contentLength.toNat)
  else .bad (.badMethod request)

def doParse (data : Bytes) : ParseResult :=
  match indexOf EOH data with
  | none => .incomplete
  | some headerEnd =>
    match parseStartLines qt (data.take headerEnd) with
    | none => .bad .badRequest
    | some request => parseBody qt request (headerEnd + EOH.length) data

end RequestParser

end Qbutt.Server

/-!
## Connections of the Web interface

`Http::Connection`: the data that a socket delivers, the requests that are given to the handler and
the answers that close the connection.  The answers of the handler are left out.
-/

namespace Qbutt.Server

/-- `bufferLimit`: 1.1 times the greatest content, as an integer. -/
def bufferLimit : ℕ := 73819750

/-- What a connection does with the data. -/
inductive Output where
  /-- `processRequest` -/
  | request (request : Request)
  /-- an answer behind which the socket is closed -/
  | reject (status : ℕ)
  deriving DecidableEq

structure Connection where
  receivedData : Bytes := []
  closed : Bool := false
  deriving DecidableEq

def handled (request : Request) : Request :=
  if request.method = "HEAD" then { request with method := "GET" } else request

def Malformed.status : Malformed → ℕ
  | .badMethod _ => 501
  | .badRequest => 400

namespace Connection

variable (qt : QtText)

def readLoop : ℕ → Bytes → List Output × Connection
  | 0, data => ([], { receivedData := data })
  | fuel + 1, data =>
    if data.isEmpty then ([], { receivedData := data })
    else
      match RequestParser.doParse qt data with
      | .incomplete =>
        if bufferLimit < data.length then ([.reject 413], { receivedData := data, closed := true })
        else ([], { receivedData := data })
      | .bad error => ([.reject error.status], { receivedData := data, closed := true })
      | .ok request frameSize =>
        let result := readLoop fuel (data.drop frameSize)
        (.request (handled request) :: result.1, result.2)

/-- `read`, when the socket has delivered some bytes.  A closed socket delivers none. -/
def read (connection : Connection) (bytes : Bytes) : List Output × Connection :=
  if connection.closed then ([], connection)
  else
    let data := connection.receivedData ++ bytes
    readLoop qt data.length data

/-- What a connection does with the data that the socket delivers in pieces. -/
def run (connection : Connection) : List Bytes → List Output × Connection
  | [] => ([], connection)
  | bytes :: rest =>
    let first := connection.read qt bytes
    let result := first.2.run rest
    (first.1 ++ result.1, result.2)

end Connection

end Qbutt.Server
