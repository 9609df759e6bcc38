/-
# `HttpRequest` and `HttpResponse`

`sevent/net/http/HttpRequest.cpp`, `sevent/net/http/HttpResponse.cpp`, and the
members of `sevent/net/http/HttpParser.cpp` that they call.

A message holds a `shared_ptr` to an `HttpParser` and a few members of its own:
the version, the method and the URL of a request, the version and the status of
a response.  Headers, parameters and body are in the parser, so that two copies
of a message share them; `duplicate` makes a parser of its own for the copy.
`buildString` prints the members of the message, `toString` and the getters what
the parser has read.

A parser is an entry of a `Heap`, and a message knows its address.  The class
`MessageFields` is what requests and responses do differently.  `HttpParser`'s
`http_errno` and `HttpParser::toString`, which is not called, are left out.
-/

import Sevent.Lib.OrderedMap
import Sevent.Net.Http.HttpParserExecute
import Mathlib.Data.List.Lex
import Mathlib.Logic.Function.Basic

namespace Sevent
namespace Net
namespace Http

/-! ### `HttpParser` -/

/-- What `CaseInsensitiveLess` compares, as numbers. -/
def stricmpOrder (s : Bytes) : List ℕ := (stricmpKey s).map UInt8.toNat

/-- `HttpParser::Map`, in the order in which it is iterated. -/
abbrev HeaderMap := OrderedMap stricmpOrder Bytes

/-- The members of `HttpParser`. -/
structure ParserObject where
  request : Bool
  state : Status
  parsed : ℕ
  body : Bytes
  fieldTmp : Bytes
  urlFields : UrlField → Bytes
  headers : HeaderMap
  params : HeaderMap
  parser : CParser

/-- What the getters of a message return. -/
structure Getters where
  isKeepAlive : Bool
  httpMajor : ℕ
  httpMinor : ℕ
  getMethod : HttpMethod
  getUrl : UrlField → Bytes
  getBody : Bytes
  getHeader : Bytes → Bytes
  getParam : Bytes → Bytes

namespace ParserObject

/-- The constructor. -/
def new (isrequest : Bool) : ParserObject where
  request := isrequest
  state := .ready
  parsed := 0
  body := []
  fieldTmp := []
  urlFields _ := []
  headers := .empty
  params := .empty
  parser := http_parser_init isrequest

/-- `HttpParser::copy`. -/
def copy (other : ParserObject) : ParserObject where
  request := other.request
  state := other.state
  parsed := other.parsed
  body := other.body
  fieldTmp := other.fieldTmp
  urlFields := other.urlFields
  headers := other.headers
  params := other.params
  parser := other.parser

/-- `getSchema`, `getHost` and so on; `nullStr` in a response. -/
def getUrl (p : ParserObject) (uf : UrlField) : Bytes := if p.request then p.urlFields uf else []

/-- The value, and the parser after `headers[key]`. -/
def getHeader (p : ParserObject) (key : Bytes) : Bytes × ParserObject :=
  (p.headers.lookup [] key, { p with headers := p.headers.touch [] key })

/-- The value, and the parser after `params[key]`. -/
def getParam (p : ParserObject) (key : Bytes) : Bytes × ParserObject :=
  (p.params.lookup [] key, { p with params := p.params.touch [] key })

/-- `HttpParser::setBody`. -/
def setBody (p : ParserObject) (val : Bytes) : ParserObject := { p with body := val }

/-- `HttpParser::setHeader`. -/
def setHeader (p : ParserObject) (key val : Bytes) : ParserObject :=
  { p with headers := p.headers.set key val }

/-- What the getters of a parser give. -/
def getters (p : ParserObject) : Getters where
  isKeepAlive := http_should_keep_alive p.parser
  httpMajor := p.parser.http_major
  httpMinor := p.parser.http_minor
  getMethod := p.parser.method
  getUrl := p.getUrl
  getBody := p.body
  getHeader key := (p.getHeader key).1
  getParam key := (p.getParam key).1

/-- The loop over the headers in `buildString` and `toString`. -/
def headerLines (p : ParserObject) : Bytes :=
  p.headers.entries.flatMap fun item => item.1 ++ text ": " ++ item.2 ++ text "\r\n"

/-- The end of `buildString`. -/
def builtLines (p : ParserObject) : Bytes :=
  p.headerLines ++
    (if p.body.length ≠ 0 then text "Content-Length: " ++ to_string p.body.length ++ text "\r\n"
    else []) ++
    text "\r\n" ++ p.body

/-- The end of `toString`. -/
def parsedLines (p : ParserObject) : Bytes := p.headerLines ++ text "\r\n" ++ p.body

end ParserObject

/-! ### The heap -/

/-- The parsers that exist; the addresses below `size` have been given away. -/
structure Heap where
  parsers : ℕ → ParserObject
  size : ℕ

namespace Heap

/-- `make_shared<HttpParser>`: the address and the heap. -/
def alloc (w : Heap) (p : ParserObject) : ℕ × Heap :=
  (w.size, { parsers := Function.update w.parsers w.size p, size := w.size + 1 })

/-- A change of the parser at an address. -/
def modify (w : Heap) (address : ℕ) (f : ParserObject → ParserObject) : Heap :=
  { w with parsers := Function.update w.parsers address (f (w.parsers address)) }

end Heap

/-! ### Messages -/

/-- A message, with the members of its class in `own`. -/
structure HttpMessage (F : Type) where
  parser : ℕ
  own : F

/-- The first lines of `buildString` and `toString`; the latter is made of the
`http_parser` and the URL. -/
class MessageFields (F : Type) where
  builtLine : F → Bytes
  parsedLine : CParser → (UrlField → Bytes) → Bytes

/-- A call of a setter; the setters of a member of the message change `own`. -/
inductive Setter (F : Type)
  | setBody (val : Bytes)
  | setHeader (key val : Bytes)
  | own (f : F → F)

/-- A call of a getter. -/
inductive Getter
  | getHeader (key : Bytes)
  | getParam (key : Bytes)
  | getBody
  | getUrl (uf : UrlField)
  | isKeepAlive
  | httpMajor
  | httpMinor
  | getMethod
  deriving DecidableEq, Repr

/-- The parser after a call of a getter. -/
def Getter.read (p : ParserObject) : Getter → ParserObject
  | .getHeader key => (p.getHeader key).2
  | .getParam key => (p.getParam key).2
  | .getBody | .getUrl _ | .isKeepAlive | .httpMajor | .httpMinor | .getMethod => p

/-- The results of `buildString`, `toString` and the getters. -/
structure Results where
  buildString : Bytes
  toString : Bytes
  getters : Getters

namespace HttpMessage

variable {F : Type}

/-- The parser of the message exists. -/
def Valid (m : HttpMessage F) (w : Heap) : Prop := m.parser < w.size

instance (m : HttpMessage F) (w : Heap) : Decidable (m.Valid w) :=
  inferInstanceAs (Decidable (m.parser < w.size))

/-- What a setter does: to the parser that the message holds, and that its
copies share, or to the members of the message. -/
def set (w : Heap) (m : HttpMessage F) : Setter F → Heap × HttpMessage F
  | .setBody val => (w.modify m.parser fun p => p.setBody val, m)
  | .setHeader key val => (w.modify m.parser fun p => p.setHeader key val, m)
  | .own f => (w, { m with own := f m.own })

/-- Calls of setters, in order. -/
def sets (w : Heap) (m : HttpMessage F) : List (Setter F) → Heap × HttpMessage F
  | [] => (w, m)
  | s :: calls => (m.set w s).2.sets (m.set w s).1 calls

/-- `duplicate`: the heap and the copy.  `own` are the members that the
constructor with a `shared_ptr` leaves in the copy. -/
def duplicate (w : Heap) (m : HttpMessage F) (own : F) : Heap × HttpMessage F :=
  ((w.alloc (w.parsers m.parser).copy).2, ⟨(w.alloc (w.parsers m.parser).copy).1, own⟩)

variable [MessageFields F]

/-- `buildString`: the line of the members, then the lines of the parser. -/
def buildString (w : Heap) (m : HttpMessage F) : Bytes :=
  MessageFields.builtLine m.own ++ text "\r\n" ++ (w.parsers m.parser).builtLines

/-- `toString`: the line and the lines as the parser has read them. -/
def toString (w : Heap) (m : HttpMessage F) : Bytes :=
  MessageFields.parsedLine F (w.parsers m.parser).parser (w.parsers m.parser).getUrl ++
    text "\r\n" ++ (w.parsers m.parser).parsedLines

/-- What a user can see of a message. -/
def results (w : Heap) (m : HttpMessage F) : Results where
  buildString := m.buildString w
  toString := m.toString w
  getters := (w.parsers m.parser).getters

end HttpMessage

/-! ### `HttpRequest` -/

/-- The members of `HttpRequest` but the parser. -/
structure RequestFields where
  httpVersion : HttpVersion
  httpMethod : HttpMethod
  url : Bytes
  deriving DecidableEq, Repr

/-- `HttpRequest`. -/
abbrev HttpRequest := HttpMessage RequestFields

namespace HttpRequest

/-- The first line of `buildString`. -/
def builtLine (f : RequestFields) : Bytes :=
  methodToString f.httpMethod ++ text " " ++ (f.url ++ text " ") ++ versionToString f.httpVersion

/-- A part of the URL after a text, where it is not empty. -/
def part (before value after : Bytes) : Bytes :=
  if value.length ≠ 0 then before ++ value ++ after else []

/-- The first line of `toString`. -/
def parsedLine (parser : CParser) (url : UrlField → Bytes) : Bytes :=
  methodToString parser.method ++ text " " ++
    part [] (url .UF_SCHEMA) (text "://") ++
    part [] (url .UF_USERINFO) (text "@") ++
    part [] (url .UF_HOST) [] ++
    part (text ":") (url .UF_PORT) [] ++
    part [] (url .UF_PATH) [] ++
    part (text "?") (url .UF_QUERY) [] ++
    text " HTTP/" ++ to_string parser.http_major ++ text "." ++ to_string parser.http_minor

instance : MessageFields RequestFields := ⟨builtLine, parsedLine⟩

/-- `HttpRequest(HttpVersion, HttpMethod)`. -/
def new (w : Heap) (version : HttpVersion) (method : HttpMethod) : Heap × HttpRequest :=
  ((w.alloc (.new true)).2, ⟨(w.alloc (.new true)).1, version, method, []⟩)

/-- `HttpRequest::setHttpVersion`. -/
def setHttpVersion (version : HttpVersion) : Setter RequestFields :=
  .own fun f => { f with httpVersion := version }

/-- `HttpRequest::setHttpMethod`. -/
def setHttpMethod (method : HttpMethod) : Setter RequestFields :=
  .own fun f => { f with httpMethod := method }

/-- `HttpRequest::setUrl`. -/
def setUrl (val : Bytes) : Setter RequestFields := .own fun f => { f with url := val }

/-- `HttpRequest::duplicate`: the constructor with a `shared_ptr` sets neither
the version nor the method, which are what the `memory` held. -/
def duplicate (w : Heap) (r : HttpRequest) (memory : HttpVersion × HttpMethod) :
    Heap × HttpRequest :=
  HttpMessage.duplicate w r ⟨memory.1, memory.2, []⟩

end HttpRequest

/-! ### `HttpResponse` -/

/-- The members of `HttpResponse` but the parser. -/
structure ResponseFields where
  httpVersion : HttpVersion
  httpStatus : HttpStatus
  deriving DecidableEq, Repr

/-- `HttpResponse`. -/
abbrev HttpResponse := HttpMessage ResponseFields

/-- The statuses of `HTTP_STATUS_MAP`. -/
def HttpStatus.all : List HttpStatus :=
  [.HTTP_STATUS_CONTINUE, .HTTP_STATUS_SWITCHING_PROTOCOLS, .HTTP_STATUS_PROCESSING,
   .HTTP_STATUS_OK, .HTTP_STATUS_CREATED, .HTTP_STATUS_ACCEPTED,
   .HTTP_STATUS_NON_AUTHORITATIVE_INFORMATION, .HTTP_STATUS_NO_CONTENT, .HTTP_STATUS_RESET_CONTENT,
   .HTTP_STATUS_PARTIAL_CONTENT, .HTTP_STATUS_MULTI_STATUS, .HTTP_STATUS_ALREADY_REPORTED,
   .HTTP_STATUS_IM_USED, .HTTP_STATUS_MULTIPLE_CHOICES, .HTTP_STATUS_MOVED_PERMANENTLY,
   .HTTP_STATUS_FOUND, .HTTP_STATUS_SEE_OTHER, .HTTP_STATUS_NOT_MODIFIED, .HTTP_STATUS_USE_PROXY,
   .HTTP_STATUS_TEMPORARY_REDIRECT, .HTTP_STATUS_PERMANENT_REDIRECT, .HTTP_STATUS_BAD_REQUEST,
   .HTTP_STATUS_UNAUTHORIZED, .HTTP_STATUS_PAYMENT_REQUIRED, .HTTP_STATUS_FORBIDDEN,
   .HTTP_STATUS_NOT_FOUND, .HTTP_STATUS_METHOD_NOT_ALLOWED, .HTTP_STATUS_NOT_ACCEPTABLE,
   .HTTP_STATUS_PROXY_AUTHENTICATION_REQUIRED, .HTTP_STATUS_REQUEST_TIMEOUT, .HTTP_STATUS_CONFLICT,
   .HTTP_STATUS_GONE, .HTTP_STATUS_LENGTH_REQUIRED, .HTTP_STATUS_PRECONDITION_FAILED,
   .HTTP_STATUS_PAYLOAD_TOO_LARGE, .HTTP_STATUS_URI_TOO_LONG, .HTTP_STATUS_UNSUPPORTED_MEDIA_TYPE,
   .HTTP_STATUS_RANGE_NOT_SATISFIABLE, .HTTP_STATUS_EXPECTATION_FAILED,
   .HTTP_STATUS_MISDIRECTED_REQUEST, .HTTP_STATUS_UNPROCESSABLE_ENTITY, .HTTP_STATUS_LOCKED,
   .HTTP_STATUS_FAILED_DEPENDENCY, .HTTP_STATUS_UPGRADE_REQUIRED,
   .HTTP_STATUS_PRECONDITION_REQUIRED, .HTTP_STATUS_TOO_MANY_REQUESTS,
   .HTTP_STATUS_REQUEST_HEADER_FIELDS_TOO_LARGE, .HTTP_STATUS_UNAVAILABLE_FOR_LEGAL_REASONS,
   .HTTP_STATUS_INTERNAL_SERVER_ERROR, .HTTP_STATUS_NOT_IMPLEMENTED, .HTTP_STATUS_BAD_GATEWAY,
   .HTTP_STATUS_SERVICE_UNAVAILABLE, .HTTP_STATUS_GATEWAY_TIMEOUT,
   .HTTP_STATUS_HTTP_VERSION_NOT_SUPPORTED, .HTTP_STATUS_VARIANT_ALSO_NEGOTIATES,
   .HTTP_STATUS_INSUFFICIENT_STORAGE, .HTTP_STATUS_LOOP_DETECTED, .HTTP_STATUS_NOT_EXTENDED,
   .HTTP_STATUS_NETWORK_AUTHENTICATION_REQUIRED]

/-- `http_status_str` of a number. -/
def http_status_str (code : ℕ) : Bytes :=
  ((HttpStatus.all.find? fun s => s.code = code).map HttpStatus.http_status_str).getD
    (text "<unknown>")

namespace HttpResponse

/-- The first line of `buildString`. -/
def builtLine (f : ResponseFields) : Bytes :=
  versionToString f.httpVersion ++ text " " ++
    (to_string f.httpStatus.code ++ text " " ++ statusdToString f.httpStatus)

/-- The first line of `toString`. -/
def parsedLine (parser : CParser) (_url : UrlField → Bytes) : Bytes :=
  text "HTTP/" ++ to_string parser.http_major ++ text "." ++ to_string parser.http_minor ++
    text " " ++ to_string parser.status_code ++ text " " ++ http_status_str parser.status_code

instance : MessageFields ResponseFields := ⟨builtLine, parsedLine⟩

/-- `HttpResponse(HttpVersion, HttpStatus)`. -/
def new (w : Heap) (version : HttpVersion) (status : HttpStatus) : Heap × HttpResponse :=
  ((w.alloc (.new false)).2, ⟨(w.alloc (.new false)).1, version, status⟩)

/-- `HttpResponse::setHttpVersion`. -/
def setHttpVersion (version : HttpVersion) : Setter ResponseFields :=
  .own fun f => { f with httpVersion := version }

/-- `HttpResponse::setHttpStatus`. -/
def setHttpStatus (status : HttpStatus) : Setter ResponseFields :=
  .own fun f => { f with httpStatus := status }

/-- `HttpResponse::duplicate`, where neither the version nor the status is set. -/
def duplicate (w : Heap) (r : HttpResponse) (memory : HttpVersion × HttpStatus) :
    Heap × HttpResponse :=
  HttpMessage.duplicate w r ⟨memory.1, memory.2⟩

end HttpResponse

end Http
end Net
end Sevent
