/-
# `HttpParser` and `HttpCodec::onMessage`

`sevent/net/http/HttpParser.cpp`, `sevent/net/http/HttpCodec.cpp`.

`HttpCodec::onMessage` lets the connection's `HttpParser` parse the readable
bytes of the input buffer, message by message.  A complete message is retrieved
and its parser given to `handleMessage`.  Of an incomplete message nothing is
retrieved: the parser is reset and parses the message again from its first byte
when more bytes have come.

`http_parser_execute` is the environment: `scan data` are the callbacks that a
parser at the beginning of a message makes for `data` as long as they return 0,
the bytes read, and the error it finds itself.  `execute` makes the callbacks
until one of them fails or pauses the parser.

`HttpParser::reset` calls `empty()`, which only tests, where `clear()` would
empty: no member but the `http_parser` changes.

`parsed` is only returned by `getParsed`, which nobody calls, and the second
`execute` of `onMessage`, for the end of the file, needs the context `onClose`
that only `HttpResponseCodec::onClose` sets.  Both are left out.
-/

import Sevent.Lib.KeyMap
import Sevent.Net.Http.ParseUrl

namespace Sevent
namespace Net
namespace Http

/-! ### `http_parser` -/

/-- The callbacks that are given a piece of the message. -/
inductive DataCb
  | on_url
  | on_status
  | on_header_field
  | on_header_value
  | on_body
  deriving DecidableEq, Repr

/-- The other callbacks. -/
inductive NotifyCb
  | on_message_begin
  | on_headers_complete
  | on_message_complete
  | on_chunk_header
  | on_chunk_complete
  deriving DecidableEq, Repr

/-- A call of a callback. -/
inductive Callback
  | data (cb : DataCb) (text : Bytes)
  | notify (cb : NotifyCb)
  deriving DecidableEq, Repr

/-- `enum http_errno`: the codes of this model, and those that the parser finds
itself. -/
inductive HttpErrno
  | HPE_OK
  | HPE_PAUSED
  | HPE_CB (cb : DataCb)
  | HPE_INVALID (code : ℕ)
  deriving DecidableEq, Repr

/-- What `http_parser_execute` does from the beginning of a message, if no
callback fails. -/
structure Scan where
  callbacks : List Callback
  count : ℕ
  http_errno : HttpErrno
  deriving DecidableEq, Repr

/-! ### `HttpParser` -/

/-- `tolower` of the C locale. -/
def tolower (c : UInt8) : UInt8 := if 'A'.toUInt8 ≤ c ∧ c ≤ 'Z'.toUInt8 then c + 32 else c

/-- What `CaseInsensitiveLess` compares: the bytes of the C string, in lower case. -/
def stricmpKey (s : Bytes) : Bytes := (s.takeWhile (· != 0)).map tolower

/-- `HttpParser::Map`. -/
abbrev Map := KeyMap Bytes Bytes Bytes

/-- `HttpParser::Status`. -/
inductive Status
  | ready
  | parsing
  | completed
  deriving DecidableEq, Repr

/-- What `onMessage` hands over with a parser. -/
@[ext]
structure Content where
  urlFields : UrlField → Bytes
  headers : Map
  params : Map
  body : Bytes

def Content.empty : Content where
  urlFields _ := []
  headers := KeyMap.empty
  params := KeyMap.empty
  body := []

/-- `HttpParser`, with the error of its `http_parser`.  In a response the vector
`urlFields` has no entries, and they are not used. -/
structure HttpParser extends Content where
  request : Bool
  state : Status
  fieldTmp : Bytes
  http_errno : HttpErrno

namespace HttpParser

/-- The constructor. -/
def init (isrequest : Bool) : HttpParser where
  toContent := Content.empty
  request := isrequest
  state := .ready
  fieldTmp := []
  http_errno := .HPE_OK

/-- The loop of `parseQueryParam`: the keys and values, in order. -/
def queryPairs (str : Bytes) : List (Bytes × Bytes) :=
  match _hkey : str.dropWhile (· != '='.toUInt8) with
  | [] | [_] => []
  | _ :: rest =>
    let key := str.takeWhile (· != '='.toUInt8)
    let value := rest.takeWhile (· != '&'.toUInt8)
    let pair := if key = [] then [] else [(key, value)]
    match _hvalue : rest.dropWhile (· != '&'.toUInt8) with
    | [] => pair
    | _ :: next => pair ++ queryPairs next
termination_by str.length
decreasing_by
  have hstr := (List.dropWhile_suffix (l := str) (· != '='.toUInt8)).length_le
  have hrest := (List.dropWhile_suffix (l := rest) (· != '&'.toUInt8)).length_le
  rw [_hkey, List.length_cons] at hstr
  rw [_hvalue, List.length_cons] at hrest
  omega

def parseQueryParam (params : Map) (str : Bytes) : Map := params.setAll stricmpKey (queryPairs str)

/-- Returns the parser and the value that `on_url` returns. -/
def on_url (p : HttpParser) (text : Bytes) : HttpParser × ℕ :=
  match http_parser_parse_url text false with
  | none => (p, 1)
  | some u =>
    if p.request then
      ({ p with
        urlFields := fun uf => ((u uf).map (slice text)).getD (p.urlFields uf)
        params := match u .UF_QUERY with
          | some d => parseQueryParam p.params (slice text d)
          | none => p.params }, 0)
    else (p, 0)

def on_header_field (p : HttpParser) (text : Bytes) : HttpParser := { p with fieldTmp := text }

def on_header_value (p : HttpParser) (text : Bytes) : HttpParser :=
  { p with headers := p.headers.set stricmpKey p.fieldTmp text }

def on_body (p : HttpParser) (text : Bytes) : HttpParser := { p with body := p.body ++ text }

/-- Pauses the parser too. -/
def on_message_complete (p : HttpParser) : HttpParser :=
  { p with state := .completed, http_errno := .HPE_PAUSED }

/-- A call of a callback by `http_parser_execute`; one that returns nonzero is
an error. -/
def call (p : HttpParser) : Callback → HttpParser
  | .data .on_url text =>
    match p.on_url text with
    | (p, 0) => p
    | (p, _) => { p with http_errno := .HPE_CB .on_url }
  | .data .on_header_field text => p.on_header_field text
  | .data .on_header_value text => p.on_header_value text
  | .data .on_body text => p.on_body text
  | .notify .on_message_complete => p.on_message_complete
  | .data .on_status _ | .notify _ => p

/-- The callbacks of a call of `http_parser_execute`, until the parser is in an
error state or paused, and the error that the parser finds itself after them. -/
def runCallbacks (p : HttpParser) : List Callback → HttpErrno → HttpParser
  | [], http_errno => { p with http_errno := http_errno }
  | cb :: cbs, http_errno =>
    let p := p.call cb
    if p.http_errno = .HPE_OK then p.runCallbacks cbs http_errno else p

/-- `http_parser_pause(&parser, 0)`. -/
def unpause (p : HttpParser) : HttpParser :=
  if p.http_errno = .HPE_PAUSED then { p with http_errno := .HPE_OK } else p

/-- Returns the parser and the bytes parsed.  The latter are not those of
`http_parser_execute` where a callback fails, when `onMessage` does not look at
them. -/
def execute (scan : Bytes → Scan) (p : HttpParser) (data : Bytes) : HttpParser × ℕ :=
  let p := unpause { p with state := .parsing }
  if p.http_errno = .HPE_OK then
    let s := scan data
    (p.runCallbacks s.callbacks s.http_errno, s.count)
  else (p, 0)

def isComplete (p : HttpParser) : Bool := p.state = .completed

def getErr (p : HttpParser) : HttpErrno := if p.state = .completed then .HPE_OK else p.http_errno

/-- Empties nothing. -/
def reset (p : HttpParser) : HttpParser := { p with http_errno := .HPE_OK }

end HttpParser

/-! ### `HttpCodec` -/

/-- A connection: its input buffer, the parser in its context, and whether
`onMessage` has called `shutdown`. -/
structure Conn where
  inputBuf : Bytes
  parser : HttpParser
  shutdown : Bool

namespace HttpCodec

/-- The state after `HttpCodec::onConnection`. -/
def onConnection (isRequest : Bool) : Conn where
  inputBuf := []
  parser := HttpParser.init isRequest
  shutdown := false

/-- The loop of `onMessage`, with a bound on its rounds.  Returns `parserList`. -/
def parseLoop (scan : Bytes → Scan) (isRequest : Bool) : ℕ → Conn → Conn × List HttpParser
  | 0, conn => (conn, [])
  | fuel + 1, conn =>
    if conn.inputBuf = [] then (conn, [])
    else
      let (parser, parsed) := conn.parser.execute scan conn.inputBuf
      if parser.isComplete then
        -- `swap` leaves a new parser in the context
        let r := parseLoop scan isRequest fuel
          { conn with inputBuf := conn.inputBuf.drop parsed, parser := HttpParser.init isRequest }
        (r.1, parser :: r.2)
      else
        ({ conn with
          parser := parser.reset
          shutdown := conn.shutdown || parser.getErr != .HPE_OK }, [])

/-- `HttpCodec::onMessage`.  Every complete message takes a byte at least, so
there are no more rounds than bytes. -/
def onMessage (scan : Bytes → Scan) (isRequest : Bool) (conn : Conn) : Conn × List HttpParser :=
  parseLoop scan isRequest conn.inputBuf.length conn

/-- Reads that are appended to the input buffer, each followed by `onMessage`,
and the parsers of all calls of `handleMessage` in order. -/
def run (scan : Bytes → Scan) (isRequest : Bool) : Conn → List Bytes → Conn × List HttpParser
  | conn, [] => (conn, [])
  | conn, data :: reads =>
    let r := onMessage scan isRequest { conn with inputBuf := conn.inputBuf ++ data }
    let r' := run scan isRequest r.1 reads
    (r'.1, r.2 ++ r'.2)

end HttpCodec
end Http
end Net
end Sevent
