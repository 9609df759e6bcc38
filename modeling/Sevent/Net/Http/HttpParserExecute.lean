/-
# `http_parser_execute`

`sevent/net/http/http-parser/http_parser.c` (with `HTTP_PARSER_STRICT`).

One byte after the other goes through the `switch` over the states; a branch of
it is a function here, and `goto reexecute` is a call of the next one.  The
states of a URL, and `s_dead`, are those of `parse_url_char`.  At most one mark
is set at a time, as the code asserts; it is kept with the text since it was
set.

Two branches loop over the header field and its value.  There `inner` is the
distance `p - start`, which is counted only when the loop ends, and `round` the
distance in the loop inside `h_general`: that loop stops after `max_header_size`
bytes, and the byte after them is skipped.  The bytes of a body are taken one by
one instead of at once.

The type `HTTP_BOTH` and its two states, which `HttpParser` never asks for, and
`allow_chunked_length` and `lenient_http_headers`, which nobody sets, are left
out.  `on_headers_complete` returns 0, so that nobody sets `F_SKIPBODY` either.
After an error the parser is not used again, and a header state that is only
stored on the way out is not told apart from one that is stored at once.
-/

import Mathlib.Algebra.Order.Ring.Nat
import Sevent.Net.Http.Http
import Sevent.Net.Http.HttpCodec

namespace Sevent
namespace Net
namespace Http

/-! ### Characters -/

def CR : UInt8 := 13
def LF : UInt8 := 10

/-- `tokens`, where a character that is not in a token is 0. -/
def TOKEN (c : UInt8) : UInt8 :=
  if IS_ALPHA c then LOWER c
  else if IS_NUM c || oneOf ['!', '#', '$', '%', '&', '\'', '*', '+', '-', '.', '^', '_', '`', '|',
    '~'] c then c
  else 0

/-- What a header's value may consist of. -/
def IS_HEADER_CHAR (ch : UInt8) : Bool := ch == CR || ch == LF || ch == 9 || 31 < ch && ch != 127

/-- `unhex`. -/
def unhex (ch : UInt8) : Option ℕ :=
  if IS_NUM ch then some (ch.toNat - 48)
  else if IS_HEX ch then some ((LOWER ch).toNat - 87)
  else none

/-! ### `struct http_parser` -/

/-- `enum http_parser_type`. -/
inductive ParserType
  | HTTP_REQUEST
  | HTTP_RESPONSE
  deriving DecidableEq, Repr

/-- `enum flags`. -/
structure Flags where
  F_CHUNKED : Bool
  F_CONNECTION_KEEP_ALIVE : Bool
  F_CONNECTION_CLOSE : Bool
  F_CONNECTION_UPGRADE : Bool
  F_TRAILING : Bool
  F_UPGRADE : Bool
  F_SKIPBODY : Bool
  F_CONTENTLENGTH : Bool
  deriving DecidableEq, Repr

/-- No flag set, as for a new message. -/
def Flags.zero : Flags := ⟨false, false, false, false, false, false, false, false⟩

/-- `enum state`. -/
inductive ParseState
  | url (s : UrlState)
  | s_start_res
  | s_res_H
  | s_res_HT
  | s_res_HTT
  | s_res_HTTP
  | s_res_http_major
  | s_res_http_dot
  | s_res_http_minor
  | s_res_http_end
  | s_res_first_status_code
  | s_res_status_code
  | s_res_status_start
  | s_res_status
  | s_res_line_almost_done
  | s_start_req
  | s_req_method
  | s_req_http_start
  | s_req_http_H
  | s_req_http_HT
  | s_req_http_HTT
  | s_req_http_HTTP
  | s_req_http_I
  | s_req_http_IC
  | s_req_http_major
  | s_req_http_dot
  | s_req_http_minor
  | s_req_http_end
  | s_req_line_almost_done
  | s_header_field_start
  | s_header_field
  | s_header_value_discard_ws
  | s_header_value_discard_ws_almost_done
  | s_header_value_discard_lws
  | s_header_value_start
  | s_header_value
  | s_header_value_lws
  | s_header_almost_done
  | s_chunk_size_start
  | s_chunk_size
  | s_chunk_parameters
  | s_chunk_size_almost_done
  | s_headers_almost_done
  | s_headers_done
  | s_chunk_data
  | s_chunk_data_almost_done
  | s_chunk_data_done
  | s_body_identity
  | s_body_identity_eof
  | s_message_done
  deriving DecidableEq, Repr

/-- The states in which the bytes read are counted against `max_header_size`:
all but those of a body. -/
def PARSING_HEADER : ParseState → Bool
  | .s_chunk_data | .s_chunk_data_almost_done | .s_chunk_data_done | .s_body_identity
  | .s_body_identity_eof | .s_message_done => false
  | _ => true

/-- `enum header_states`. -/
inductive HeaderState
  | h_general
  | h_C
  | h_CO
  | h_CON
  | h_matching_connection
  | h_matching_proxy_connection
  | h_matching_content_length
  | h_matching_transfer_encoding
  | h_matching_upgrade
  | h_connection
  | h_content_length
  | h_content_length_num
  | h_content_length_ws
  | h_transfer_encoding
  | h_upgrade
  | h_matching_transfer_encoding_token_start
  | h_matching_transfer_encoding_chunked
  | h_matching_transfer_encoding_token
  | h_matching_connection_token_start
  | h_matching_connection_keep_alive
  | h_matching_connection_close
  | h_matching_connection_upgrade
  | h_matching_connection_token
  | h_transfer_encoding_chunked
  | h_connection_keep_alive
  | h_connection_close
  | h_connection_upgrade
  deriving DecidableEq, Repr

/-- The errors of `enum http_errno` that `http_parser_execute` finds. -/
inductive ParseError
  | HPE_INVALID_EOF_STATE
  | HPE_HEADER_OVERFLOW
  | HPE_CLOSED_CONNECTION
  | HPE_INVALID_VERSION
  | HPE_INVALID_STATUS
  | HPE_INVALID_METHOD
  | HPE_INVALID_URL
  | HPE_LF_EXPECTED
  | HPE_INVALID_HEADER_TOKEN
  | HPE_INVALID_CONTENT_LENGTH
  | HPE_UNEXPECTED_CONTENT_LENGTH
  | HPE_INVALID_CHUNK_SIZE
  | HPE_INVALID_CONSTANT
  | HPE_STRICT
  | HPE_INVALID_TRANSFER_ENCODING
  deriving DecidableEq, Repr

/-- The number of an error. -/
def ParseError.code : ParseError → ℕ
  | .HPE_INVALID_EOF_STATE => 11
  | .HPE_HEADER_OVERFLOW => 12
  | .HPE_CLOSED_CONNECTION => 13
  | .HPE_INVALID_VERSION => 14
  | .HPE_INVALID_STATUS => 15
  | .HPE_INVALID_METHOD => 16
  | .HPE_INVALID_URL => 17
  | .HPE_LF_EXPECTED => 23
  | .HPE_INVALID_HEADER_TOKEN => 24
  | .HPE_INVALID_CONTENT_LENGTH => 25
  | .HPE_UNEXPECTED_CONTENT_LENGTH => 26
  | .HPE_INVALID_CHUNK_SIZE => 27
  | .HPE_INVALID_CONSTANT => 28
  | .HPE_STRICT => 30
  | .HPE_INVALID_TRANSFER_ENCODING => 33

/-- The greatest value of a `uint64_t`, which `content_length` has while no
length is known. -/
def ULLONG_MAX : ℕ := 2 ^ 64 - 1

/-- `struct http_parser`, without `http_errno` and `data`. -/
structure CParser where
  type : ParserType
  flags : Flags
  state : ParseState
  header_state : HeaderState
  index : ℕ
  uses_transfer_encoding : Bool
  nread : ℕ
  content_length : ℕ
  http_major : ℕ
  http_minor : ℕ
  status_code : ℕ
  method : HttpMethod
  upgrade : Bool
  deriving DecidableEq, Repr

/-- `http_parser_init`. -/
def http_parser_init (isrequest : Bool) : CParser where
  type := if isrequest then .HTTP_REQUEST else .HTTP_RESPONSE
  flags := .zero
  state := if isrequest then .s_start_req else .s_start_res
  header_state := .h_general
  index := 0
  uses_transfer_encoding := false
  nread := 0
  content_length := 0
  http_major := 0
  http_minor := 0
  status_code := 0
  method := .HTTP_DELETE
  upgrade := false

/-- Whether the message ends with the connection: a response of which neither
the status code nor the headers tell the length of the body. -/
def http_message_needs_eof (parser : CParser) : Bool :=
  if parser.type = .HTTP_REQUEST then false
  else if parser.status_code / 100 = 1 ∨ parser.status_code = 204 ∨ parser.status_code = 304 ∨
    parser.flags.F_SKIPBODY then false
  else if parser.uses_transfer_encoding ∧ ¬ parser.flags.F_CHUNKED then true
  else if parser.flags.F_CHUNKED ∨ parser.content_length ≠ ULLONG_MAX then false
  else true

/-- Whether another message may follow on the connection: since version 1.1
unless it says `close`, before it if it says `keep-alive`, and never if the
message ends with the connection. -/
def http_should_keep_alive (parser : CParser) : Bool :=
  if 0 < parser.http_major ∧ 0 < parser.http_minor then
    !parser.flags.F_CONNECTION_CLOSE && !http_message_needs_eof parser
  else parser.flags.F_CONNECTION_KEEP_ALIVE && !http_message_needs_eof parser

/-- The state in which the next message of the connection begins. -/
def start_state (parser : CParser) : ParseState :=
  if parser.type = .HTTP_REQUEST then .s_start_req else .s_start_res

/-- The state behind a message: a new message, or `s_dead` on a connection that
is not kept alive, where any further byte but a line end is an error. -/
def NEW_MESSAGE (parser : CParser) : ParseState :=
  if http_should_keep_alive parser then start_state parser else .url .s_dead

/-! ### The local variables -/

/-- The parser and the local variables of `http_parser_execute`, with the
callbacks made so far. -/
structure Exec where
  parser : CParser
  nread : ℕ
  pos : ℕ
  mark : Option (DataCb × Bytes)
  inner : Option ℕ
  round : ℕ
  calls : List (Callback × CParser × ℕ)

/-- A call that goes on with the next byte, or has returned. -/
abbrev Outcome := Except (Run CParser) Exec

namespace Exec

/-- `UPDATE_STATE`. -/
def UPDATE_STATE (x : Exec) (s : ParseState) : Exec := { x with parser.state := s }

/-- `MARK`: the text of a callback begins here, unless it has begun already. -/
def MARK (x : Exec) (cb : DataCb) : Exec :=
  match x.mark with
  | some _ => x
  | none => { x with mark := some (cb, []) }

/-- `SET_ERRNO(e)` and `RETURN(p - data)`. -/
def fail (x : Exec) (e : ParseError) : Outcome :=
  .error ⟨x.calls, { x.parser with nread := x.nread }, x.pos, some e.code⟩

/-- `RETURN(V)`. -/
def RETURN (x : Exec) (V : ℕ) : Outcome :=
  .error ⟨x.calls, { x.parser with nread := x.nread }, V, none⟩

/-- `CALLBACK_NOTIFY_(cb, ER)`.  The call ends there if the parser is paused. -/
def CALLBACK_NOTIFY (x : Exec) (cb : NotifyCb) (ER : ℕ) : Exec :=
  { x with calls := x.calls ++ [(.notify cb, x.parser, ER)] }

/-- `CALLBACK_DATA_` for the mark that is set.  The call ends there if the
callback fails, and `nread` is saved. -/
def CALLBACK_DATA (x : Exec) (ER : ℕ) : Exec :=
  match x.mark with
  | some (cb, text) =>
    { x with
      mark := none
      calls := x.calls ++ [(.data cb text, { x.parser with nread := x.nread }, ER)] }
  | none => x

/-- `COUNT_HEADER_SIZE`: the counter is a `uint32_t`, and the call fails when it
passes the limit. -/
def COUNT_HEADER_SIZE (max_header_size : ℕ) (x : Exec) (V : ℕ) : Outcome :=
  let x := { x with nread := (x.nread + V) % 2 ^ 32 }
  if max_header_size < x.nread then x.fail .HPE_HEADER_OVERFLOW else .ok x

/-- The text after the mark grows by the current byte. -/
def extend (x : Exec) (ch : UInt8) : Exec :=
  { x with mark := x.mark.map fun m => (m.1, m.2 ++ [ch]) }

/-- `p++`. -/
def advance (x : Exec) (ch : UInt8) : Exec := { x.extend ch with pos := x.pos + 1 }

/-- Where the code wants one character and has an error for the others. -/
def expect (x : Exec) (c ch : UInt8) (e : ParseError) (s : ParseState) : Outcome :=
  if ch = c then .ok (x.UPDATE_STATE s) else x.fail e

/-- What `s_start_req` and `s_start_res` clear. -/
def clear (x : Exec) : Exec :=
  { x with
    parser.flags := .zero
    parser.uses_transfer_encoding := false
    parser.content_length := ULLONG_MAX }

/-! ### The end of a message -/

/-- The end of a body, and of a message without one. -/
def s_message_done (x : Exec) (_ch : UInt8) : Outcome :=
  let x := (x.UPDATE_STATE (NEW_MESSAGE x.parser)).CALLBACK_NOTIFY .on_message_complete (x.pos + 1)
  if x.parser.upgrade then x.RETURN (x.pos + 1) else .ok x

/-- A byte of a body with a length, and its end at the last one. -/
def s_body_identity (x : Exec) (ch : UInt8) : Outcome :=
  let x := x.MARK .on_body
  let x := { x with parser.content_length := x.parser.content_length - 1 }
  if x.parser.content_length = 0 then
    (((x.UPDATE_STATE .s_message_done).extend ch).CALLBACK_DATA x.pos).s_message_done ch
  else .ok x

/-! ### The end of the headers -/

/-- Behind the headers: whether the connection is upgraded, and how the end of
the body is found. -/
def s_headers_done (x : Exec) (ch : UInt8) : Outcome :=
  if ch ≠ LF then x.fail .HPE_STRICT
  else
    let x := { x with nread := 0, parser.nread := 0 }
    let p := x.parser
    let hasBody := p.flags.F_CHUNKED || 0 < p.content_length && p.content_length != ULLONG_MAX
    let complete :=
      (x.UPDATE_STATE (NEW_MESSAGE p)).CALLBACK_NOTIFY .on_message_complete (x.pos + 1)
    if p.upgrade && (p.method = .HTTP_CONNECT || p.flags.F_SKIPBODY || !hasBody) then
      complete.RETURN (x.pos + 1)
    else if p.flags.F_SKIPBODY then .ok complete
    else if p.flags.F_CHUNKED then .ok (x.UPDATE_STATE .s_chunk_size_start)
    else if p.uses_transfer_encoding then
      if p.type = .HTTP_REQUEST then x.fail .HPE_INVALID_TRANSFER_ENCODING
      else .ok (x.UPDATE_STATE .s_body_identity_eof)
    else if p.content_length = 0 then .ok complete
    else if p.content_length ≠ ULLONG_MAX then .ok (x.UPDATE_STATE .s_body_identity)
    else if http_message_needs_eof p then .ok (x.UPDATE_STATE .s_body_identity_eof)
    else .ok complete

/-- The line feed of the empty line behind the headers, or behind the trailer. -/
def s_headers_almost_done (x : Exec) (ch : UInt8) : Outcome :=
  if ch ≠ LF then x.fail .HPE_STRICT
  else if x.parser.flags.F_TRAILING then
    ((x.UPDATE_STATE .s_message_done).CALLBACK_NOTIFY .on_chunk_complete x.pos).s_message_done ch
  -- an error whether the coding is `chunked` or not
  else if x.parser.uses_transfer_encoding && x.parser.flags.F_CONTENTLENGTH then
    x.fail .HPE_UNEXPECTED_CONTENT_LENGTH
  else
    let x := x.UPDATE_STATE .s_headers_done
    let upgrade :=
      if x.parser.flags.F_UPGRADE && x.parser.flags.F_CONNECTION_UPGRADE then
        decide (x.parser.type = .HTTP_REQUEST ∨ x.parser.status_code = 101)
      else decide (x.parser.method = .HTTP_CONNECT)
    let x := { x with parser.upgrade := upgrade }
    (x.CALLBACK_NOTIFY .on_headers_complete x.pos).s_headers_done ch

end Exec

/-! ### Header fields -/

/-- The headers and values that the parser reads for itself. -/
def CONNECTION : Bytes := text "connection"
def PROXY_CONNECTION : Bytes := text "proxy-connection"
def CONTENT_LENGTH : Bytes := text "content-length"
def TRANSFER_ENCODING : Bytes := text "transfer-encoding"
def UPGRADE : Bytes := text "upgrade"
def CHUNKED : Bytes := text "chunked"
def KEEP_ALIVE : Bytes := text "keep-alive"
def CLOSE : Bytes := text "close"

namespace CParser

/-- The next character against a word: `miss` when it is another one, `hit` at
the end of the word. -/
def matchWord (p : CParser) (word : Bytes) (c : UInt8) (hit miss : HeaderState) : CParser :=
  let p := { p with index := p.index + 1 }
  if word.length < p.index ∨ word[p.index]? ≠ some c then { p with header_state := miss }
  else if p.index + 1 = word.length then { p with header_state := hit }
  else p

/-- The header state after the first character of a field. -/
def fieldStart (p : CParser) (c : UInt8) : CParser :=
  { p with
    index := 0
    header_state :=
      if c = 'c'.toUInt8 then .h_C
      else if c = 'p'.toUInt8 then .h_matching_proxy_connection
      else if c = 't'.toUInt8 then .h_matching_transfer_encoding
      else if c = 'u'.toUInt8 then .h_matching_upgrade
      else .h_general }

/-- The `switch` of `s_header_field`; `c` is the token of a character. -/
def fieldChar (p : CParser) (c : UInt8) : CParser :=
  match p.header_state with
  | .h_C =>
    { p with
      index := p.index + 1
      header_state := if c = 'o'.toUInt8 then .h_CO else .h_general }
  | .h_CO =>
    { p with
      index := p.index + 1
      header_state := if c = 'n'.toUInt8 then .h_CON else .h_general }
  | .h_CON =>
    { p with
      index := p.index + 1
      header_state :=
        if c = 'n'.toUInt8 then .h_matching_connection
        else if c = 't'.toUInt8 then .h_matching_content_length
        else .h_general }
  | .h_matching_connection => p.matchWord CONNECTION c .h_connection .h_general
  | .h_matching_proxy_connection => p.matchWord PROXY_CONNECTION c .h_connection .h_general
  | .h_matching_content_length => p.matchWord CONTENT_LENGTH c .h_content_length .h_general
  | .h_matching_transfer_encoding =>
    let p := p.matchWord TRANSFER_ENCODING c .h_transfer_encoding .h_general
    { p with
      uses_transfer_encoding :=
        p.uses_transfer_encoding || p.header_state == .h_transfer_encoding }
  | .h_matching_upgrade => p.matchWord UPGRADE c .h_upgrade .h_general
  -- a space is no token
  | .h_connection | .h_content_length | .h_transfer_encoding | .h_upgrade =>
    { p with header_state := .h_general }
  | _ => p

/-- What `s_header_value_start` makes of the header state, except for
`h_content_length`. -/
def valueStart (p : CParser) (c : UInt8) : CParser :=
  let p := { p with index := 0 }
  match p.header_state with
  | .h_upgrade => { p with flags.F_UPGRADE := true, header_state := .h_general }
  | .h_transfer_encoding =>
    { p with
      header_state :=
        if c = 'c'.toUInt8 then .h_matching_transfer_encoding_chunked
        else .h_matching_transfer_encoding_token }
  | .h_connection =>
    { p with
      header_state :=
        if c = 'k'.toUInt8 then .h_matching_connection_keep_alive
        else if c = 'c'.toUInt8 then .h_matching_connection_close
        else if c = 'u'.toUInt8 then .h_matching_connection_upgrade
        else .h_matching_connection_token }
  | .h_matching_transfer_encoding_token_start | .h_content_length_ws
  | .h_matching_connection_token_start => p
  | _ => { p with header_state := .h_general }

/-- The flag of a header state that has matched a word. -/
def finishHeader (p : CParser) : CParser :=
  match p.header_state with
  | .h_connection_keep_alive => { p with flags.F_CONNECTION_KEEP_ALIVE := true }
  | .h_connection_close => { p with flags.F_CONNECTION_CLOSE := true }
  | .h_transfer_encoding_chunked => { p with flags.F_CHUNKED := true }
  | .h_connection_upgrade => { p with flags.F_CONNECTION_UPGRADE := true }
  | _ => p

/-- The `switch` of `s_header_value`, except for the states of `Content-Length`. -/
def valueChar (p : CParser) (ch : UInt8) : CParser :=
  let c := LOWER ch
  match p.header_state with
  -- "Shouldn't get here."
  | .h_connection | .h_transfer_encoding => p
  | .h_matching_transfer_encoding_token_start =>
    { p with
      header_state :=
        if c = 'c'.toUInt8 then .h_matching_transfer_encoding_chunked
        else if TOKEN c ≠ 0 then .h_matching_transfer_encoding_token
        else if c = 32 ∨ c = 9 then p.header_state
        else .h_general }
  | .h_matching_transfer_encoding_chunked =>
    p.matchWord CHUNKED c .h_transfer_encoding_chunked .h_matching_transfer_encoding_token
  | .h_matching_transfer_encoding_token =>
    if ch = ','.toUInt8 then
      { p with header_state := .h_matching_transfer_encoding_token_start, index := 0 }
    else p
  | .h_matching_connection_token_start =>
    { p with
      header_state :=
        if c = 'k'.toUInt8 then .h_matching_connection_keep_alive
        else if c = 'c'.toUInt8 then .h_matching_connection_close
        else if c = 'u'.toUInt8 then .h_matching_connection_upgrade
        else if TOKEN c ≠ 0 then .h_matching_connection_token
        else if c = 32 ∨ c = 9 then p.header_state
        else .h_general }
  | .h_matching_connection_keep_alive =>
    p.matchWord KEEP_ALIVE c .h_connection_keep_alive .h_matching_connection_token
  | .h_matching_connection_close =>
    p.matchWord CLOSE c .h_connection_close .h_matching_connection_token
  | .h_matching_connection_upgrade =>
    p.matchWord UPGRADE c .h_connection_upgrade .h_matching_connection_token
  | .h_matching_connection_token =>
    if ch = ','.toUInt8 then
      { p with header_state := .h_matching_connection_token_start, index := 0 }
    else p
  | .h_transfer_encoding_chunked =>
    if ch ≠ 32 then { p with header_state := .h_matching_transfer_encoding_token } else p
  | .h_connection_keep_alive | .h_connection_close | .h_connection_upgrade =>
    if ch = ','.toUInt8 then
      { p.finishHeader with header_state := .h_matching_connection_token_start, index := 0 }
    else if ch ≠ 32 then { p with header_state := .h_matching_connection_token }
    else p
  | _ => { p with header_state := .h_general }

end CParser

namespace Exec

/-- The first byte of a header line: the letter tells which of the special names
it may be. -/
def s_header_field_start (x : Exec) (ch : UInt8) : Outcome :=
  if ch = CR then .ok (x.UPDATE_STATE .s_headers_almost_done)
  else if ch = LF then (x.UPDATE_STATE .s_headers_almost_done).s_headers_almost_done ch
  else if TOKEN ch = 0 then x.fail .HPE_INVALID_HEADER_TOKEN
  else
    let x := (x.MARK .on_header_field).UPDATE_STATE .s_header_field
    .ok { x with parser := x.parser.fieldStart (TOKEN ch) }

/-- The end of a loop over a header field or value. -/
def leave (max_header_size : ℕ) (x : Exec) (k : ℕ) : Outcome :=
  COUNT_HEADER_SIZE max_header_size { x with inner := none, round := 0 } k

/-- One round of the loop, where `p - start` is `k`. -/
def s_header_field (max_header_size : ℕ) (x : Exec) (k : ℕ) (ch : UInt8) : Outcome :=
  if TOKEN ch ≠ 0 then
    .ok { x with parser := x.parser.fieldChar (TOKEN ch), inner := some (k + 1) }
  else
    (x.leave max_header_size k).bind fun x =>
      if ch = ':'.toUInt8 then
        .ok ((x.UPDATE_STATE .s_header_value_discard_ws).CALLBACK_DATA (x.pos + 1))
      else x.fail .HPE_INVALID_HEADER_TOKEN

/-- The first byte of a header's value; that of `Content-Length` has to be a
digit, and the header the first of its name. -/
def s_header_value_start (x : Exec) (ch : UInt8) : Outcome :=
  let x := (x.MARK .on_header_value).UPDATE_STATE .s_header_value
  if x.parser.header_state = .h_content_length then
    if !IS_NUM ch then x.fail .HPE_INVALID_CONTENT_LENGTH
    else if x.parser.flags.F_CONTENTLENGTH then x.fail .HPE_UNEXPECTED_CONTENT_LENGTH
    else
      .ok { x with
        parser.index := 0
        parser.flags.F_CONTENTLENGTH := true
        parser.content_length := ch.toNat - 48
        parser.header_state := .h_content_length_num }
  else .ok { x with parser := x.parser.valueStart (LOWER ch) }

/-- Blanks between the colon and the value. -/
def s_header_value_discard_ws (x : Exec) (ch : UInt8) : Outcome :=
  if ch = 32 ∨ ch = 9 then .ok x
  else if ch = CR then .ok (x.UPDATE_STATE .s_header_value_discard_ws_almost_done)
  else if ch = LF then .ok (x.UPDATE_STATE .s_header_value_discard_lws)
  else x.s_header_value_start ch

/-- Behind the carriage return of a header line. -/
def s_header_almost_done (x : Exec) (ch : UInt8) : Outcome :=
  x.expect LF ch .HPE_LF_EXPECTED .s_header_value_lws

/-- The `switch` of `s_header_value`. -/
def valueChar (x : Exec) (ch : UInt8) : Outcome :=
  match x.parser.header_state with
  | .h_general => .ok { x with round := x.round + 1 }
  | .h_content_length | .h_content_length_num =>
    if ch = 32 then
      .ok { x with
        parser.header_state :=
          if x.parser.header_state = .h_content_length then .h_content_length
          else .h_content_length_ws }
    else
      let x := { x with parser.header_state := .h_content_length_num }
      if !IS_NUM ch then x.fail .HPE_INVALID_CONTENT_LENGTH
      else if (ULLONG_MAX - 10) / 10 < x.parser.content_length then
        x.fail .HPE_INVALID_CONTENT_LENGTH
      else .ok { x with parser.content_length := x.parser.content_length * 10 + (ch.toNat - 48) }
  | .h_content_length_ws => if ch = 32 then .ok x else x.fail .HPE_INVALID_CONTENT_LENGTH
  | _ => .ok { x with parser := x.parser.valueChar ch }

/-- One round of the loop, where `p - start` is `k`. -/
def s_header_value (max_header_size : ℕ) (x : Exec) (k : ℕ) (ch : UInt8) : Outcome :=
  -- the loop inside has ended at `pe`, and the outer one goes to the next byte
  if 0 < x.round ∧ x.round = max_header_size then
    .ok { x with round := 0, inner := some (k + 1) }
  else if ch = CR then
    ((x.UPDATE_STATE .s_header_almost_done).CALLBACK_DATA (x.pos + 1)).leave max_header_size k
  else if ch = LF then
    ((x.UPDATE_STATE .s_header_almost_done).leave max_header_size k).bind fun x =>
      (x.CALLBACK_DATA x.pos).s_header_almost_done ch
  else if !IS_HEADER_CHAR ch then x.fail .HPE_INVALID_HEADER_TOKEN
  else (x.valueChar ch).map fun x => { x with inner := some (k + 1) }

/-- The first byte of the line behind a header: a blank continues the value,
anything else begins the next header. -/
def s_header_value_lws (x : Exec) (ch : UInt8) : Outcome :=
  if ch = 32 ∨ ch = 9 then
    let x := if x.parser.header_state = .h_content_length_num then
      { x with parser.header_state := .h_content_length_ws } else x
    (x.UPDATE_STATE .s_header_value_start).s_header_value_start ch
  else
    let x := { x with parser := x.parser.finishHeader }
    (x.UPDATE_STATE .s_header_field_start).s_header_field_start ch

/-- The same behind a header whose line has had no value yet; the value is empty
if this line does not give one. -/
def s_header_value_discard_lws (x : Exec) (ch : UInt8) : Outcome :=
  if ch = 32 ∨ ch = 9 then .ok (x.UPDATE_STATE .s_header_value_discard_ws)
  else if x.parser.header_state = .h_content_length then x.fail .HPE_INVALID_CONTENT_LENGTH
  else
    let x := { x with parser := x.parser.finishHeader }
    let x := (x.MARK .on_header_value).UPDATE_STATE .s_header_field_start
    (x.CALLBACK_DATA x.pos).s_header_field_start ch

/-! ### The first line -/

/-- The first byte of a response, an `H`; empty lines in front of it are passed
over. -/
def s_start_res (x : Exec) (ch : UInt8) : Outcome :=
  if ch = CR ∨ ch = LF then .ok x
  else if ch = 'H'.toUInt8 then
    .ok ((x.clear.UPDATE_STATE .s_res_H).CALLBACK_NOTIFY .on_message_begin (x.pos + 1))
  else x.clear.fail .HPE_INVALID_CONSTANT

/-- A digit of the version. -/
def version (x : Exec) (ch : UInt8) (set : ℕ → CParser) (s : ParseState) : Outcome :=
  if !IS_NUM ch then x.fail .HPE_INVALID_VERSION
  else .ok ({ x with parser := set (ch.toNat - 48) }.UPDATE_STATE s)

/-- The blanks behind the version, and the first digit of the status code. -/
def s_res_first_status_code (x : Exec) (ch : UInt8) : Outcome :=
  if !IS_NUM ch then if ch = 32 then .ok x else x.fail .HPE_INVALID_STATUS
  else .ok ({ x with parser.status_code := ch.toNat - 48 }.UPDATE_STATE .s_res_status_code)

/-- The reason phrase up to the end of the line. -/
def s_res_status (x : Exec) (ch : UInt8) : Outcome :=
  if ch = CR then .ok ((x.UPDATE_STATE .s_res_line_almost_done).CALLBACK_DATA (x.pos + 1))
  else if ch = LF then .ok ((x.UPDATE_STATE .s_header_field_start).CALLBACK_DATA (x.pos + 1))
  else .ok x

/-- The first byte of the reason phrase, which may be the end of the line. -/
def s_res_status_start (x : Exec) (ch : UInt8) : Outcome :=
  let x := { (x.MARK .on_status).UPDATE_STATE .s_res_status with parser.index := 0 }
  if ch = CR ∨ ch = LF then x.s_res_status ch else .ok x

/-- The status code, at most 999, up to a blank or the end of the line. -/
def s_res_status_code (x : Exec) (ch : UInt8) : Outcome :=
  if !IS_NUM ch then
    if ch = 32 then .ok (x.UPDATE_STATE .s_res_status_start)
    else if ch = CR ∨ ch = LF then (x.UPDATE_STATE .s_res_status_start).s_res_status_start ch
    else x.fail .HPE_INVALID_STATUS
  else
    let x := { x with parser.status_code := x.parser.status_code * 10 + (ch.toNat - 48) }
    if 999 < x.parser.status_code then x.fail .HPE_INVALID_STATUS else .ok x

/-- The method that a first character stands for. -/
def firstMethods : List (Char × HttpMethod) :=
  [('A', .HTTP_ACL), ('B', .HTTP_BIND), ('C', .HTTP_CONNECT), ('D', .HTTP_DELETE),
    ('G', .HTTP_GET), ('H', .HTTP_HEAD), ('L', .HTTP_LOCK), ('M', .HTTP_MKCOL),
    ('N', .HTTP_NOTIFY), ('O', .HTTP_OPTIONS), ('P', .HTTP_POST), ('R', .HTTP_REPORT),
    ('S', .HTTP_SUBSCRIBE), ('T', .HTTP_TRACE), ('U', .HTTP_UNLOCK)]

/-- The first byte of a request, a letter that begins a method; empty lines in
front of it are passed over. -/
def s_start_req (x : Exec) (ch : UInt8) : Outcome :=
  if ch = CR ∨ ch = LF then .ok x
  else if !IS_ALPHA ch then x.clear.fail .HPE_INVALID_METHOD
  else
    match firstMethods.find? fun e => e.1.toUInt8 == ch with
    | none =>
      { x.clear with parser.method := .HTTP_DELETE, parser.index := 1 }.fail .HPE_INVALID_METHOD
    | some (_, method) =>
      let x := { x.clear with parser.method := method, parser.index := 1 }
      .ok ((x.UPDATE_STATE .s_req_method).CALLBACK_NOTIFY .on_message_begin (x.pos + 1))

/-- The methods that another one turns into at a character. -/
def nextMethods : List (HttpMethod × ℕ × Char × HttpMethod) :=
  [(.HTTP_POST, 1, 'U', .HTTP_PUT), (.HTTP_POST, 1, 'A', .HTTP_PATCH),
    (.HTTP_POST, 1, 'R', .HTTP_PROPFIND), (.HTTP_PUT, 2, 'R', .HTTP_PURGE),
    (.HTTP_CONNECT, 1, 'H', .HTTP_CHECKOUT), (.HTTP_CONNECT, 2, 'P', .HTTP_COPY),
    (.HTTP_MKCOL, 1, 'O', .HTTP_MOVE), (.HTTP_MKCOL, 1, 'E', .HTTP_MERGE),
    (.HTTP_MKCOL, 1, '-', .HTTP_MSEARCH), (.HTTP_MKCOL, 2, 'A', .HTTP_MKACTIVITY),
    (.HTTP_MKCOL, 3, 'A', .HTTP_MKCALENDAR), (.HTTP_SUBSCRIBE, 1, 'E', .HTTP_SEARCH),
    (.HTTP_SUBSCRIBE, 1, 'O', .HTTP_SOURCE), (.HTTP_REPORT, 2, 'B', .HTTP_REBIND),
    (.HTTP_PROPFIND, 4, 'P', .HTTP_PROPPATCH), (.HTTP_LOCK, 1, 'I', .HTTP_LINK),
    (.HTTP_UNLOCK, 2, 'S', .HTTP_UNSUBSCRIBE), (.HTTP_UNLOCK, 2, 'B', .HTTP_UNBIND),
    (.HTTP_UNLOCK, 3, 'I', .HTTP_UNLINK)]

/-- The letters of the method, each compared with the method that has been read
so far; the table of changes lists where another one may branch off. -/
def s_req_method (x : Exec) (ch : UInt8) : Outcome :=
  let matcher := x.parser.method.http_method_str
  let next (x : Exec) : Exec := { x with parser.index := x.parser.index + 1 }
  if ch = 0 then x.fail .HPE_INVALID_METHOD
  else if ch = 32 ∧ matcher[x.parser.index]? = none then
    .ok (next (x.UPDATE_STATE (.url .s_req_spaces_before_url)))
  else if matcher[x.parser.index]? = some ch then .ok (next x)
  else
    match nextMethods.find? fun e =>
      e.1 == x.parser.method && e.2.1 == x.parser.index && e.2.2.1.toUInt8 == ch with
    | none => x.fail .HPE_INVALID_METHOD
    | some (_, _, _, method) => .ok (next { x with parser.method := method })

/-- The next character of a URL. -/
def urlChar (x : Exec) (s : UrlState) (ch : UInt8) : Outcome :=
  let x := x.UPDATE_STATE (.url (parse_url_char s ch))
  if parse_url_char s ch = .s_dead then x.fail .HPE_INVALID_URL else .ok x

/-- The states of a URL, and `s_dead`. -/
def url (x : Exec) (s : UrlState) (ch : UInt8) : Outcome :=
  match s with
  | .s_dead => if ch = CR ∨ ch = LF then .ok x else x.fail .HPE_CLOSED_CONNECTION
  | .s_req_spaces_before_url =>
    if ch = 32 then .ok x
    else
      (x.MARK .on_url).urlChar
        (if x.parser.method = .HTTP_CONNECT then .s_req_server_start else s) ch
  | .s_req_schema | .s_req_schema_slash | .s_req_schema_slash_slash | .s_req_server_start =>
    if ch = 32 ∨ ch = CR ∨ ch = LF then x.fail .HPE_INVALID_URL else x.urlChar s ch
  | _ =>
    if ch = 32 then .ok ((x.UPDATE_STATE .s_req_http_start).CALLBACK_DATA (x.pos + 1))
    else if ch = CR ∨ ch = LF then
      let x := { x with parser.http_major := 0, parser.http_minor := 9 }
      .ok ((x.UPDATE_STATE (if ch = CR then .s_req_line_almost_done
        else .s_header_field_start)).CALLBACK_DATA (x.pos + 1))
    else x.urlChar s ch

/-- Behind the request target: blanks, and the `H` of the version, or the `I` of
the one method that has `ICE` there. -/
def s_req_http_start (x : Exec) (ch : UInt8) : Outcome :=
  if ch = 32 then .ok x
  else if ch = 'H'.toUInt8 then .ok (x.UPDATE_STATE .s_req_http_H)
  else if ch = 'I'.toUInt8 ∧ x.parser.method = .HTTP_SOURCE then .ok (x.UPDATE_STATE .s_req_http_I)
  else x.fail .HPE_INVALID_CONSTANT

/-- The end of the request line. -/
def s_req_http_end (x : Exec) (ch : UInt8) : Outcome :=
  if ch = CR then .ok (x.UPDATE_STATE .s_req_line_almost_done)
  else if ch = LF then .ok (x.UPDATE_STATE .s_header_field_start)
  else x.fail .HPE_INVALID_VERSION

/-! ### Chunks -/

/-- The first digit of a chunk's length, in hexadecimal. -/
def s_chunk_size_start (x : Exec) (ch : UInt8) : Outcome :=
  match unhex ch with
  | none => x.fail .HPE_INVALID_CHUNK_SIZE
  | some digit => .ok ({ x with parser.content_length := digit }.UPDATE_STATE .s_chunk_size)

/-- The further digits of a chunk's length, checked against the overflow of 64
bits. -/
def s_chunk_size (x : Exec) (ch : UInt8) : Outcome :=
  if ch = CR then .ok (x.UPDATE_STATE .s_chunk_size_almost_done)
  else
    match unhex ch with
    | none =>
      if ch = ';'.toUInt8 ∨ ch = 32 then .ok (x.UPDATE_STATE .s_chunk_parameters)
      else x.fail .HPE_INVALID_CHUNK_SIZE
    | some digit =>
      if (ULLONG_MAX - 16) / 16 < x.parser.content_length then x.fail .HPE_INVALID_CONTENT_LENGTH
      else .ok { x with parser.content_length := x.parser.content_length * 16 + digit }

/-- Extensions behind a chunk's length, which are not read. -/
def s_chunk_parameters (x : Exec) (ch : UInt8) : Outcome :=
  .ok (if ch = CR then x.UPDATE_STATE .s_chunk_size_almost_done else x)

/-- The end of a chunk's first line; length 0 is the last chunk, and the trailer
follows. -/
def s_chunk_size_almost_done (x : Exec) (ch : UInt8) : Outcome :=
  if ch ≠ LF then x.fail .HPE_STRICT
  else
    let x := { x with nread := 0, parser.nread := 0 }
    let x := if x.parser.content_length = 0 then
      { x with parser.flags.F_TRAILING := true }.UPDATE_STATE .s_header_field_start
      else x.UPDATE_STATE .s_chunk_data
    .ok (x.CALLBACK_NOTIFY .on_chunk_header (x.pos + 1))

/-- A byte of a chunk's data. -/
def s_chunk_data (x : Exec) (_ch : UInt8) : Outcome :=
  let x := x.MARK .on_body
  let x := { x with parser.content_length := x.parser.content_length - 1 }
  .ok (if x.parser.content_length = 0 then x.UPDATE_STATE .s_chunk_data_almost_done else x)

/-- The carriage return behind a chunk's data. -/
def s_chunk_data_almost_done (x : Exec) (ch : UInt8) : Outcome :=
  if ch ≠ CR then x.fail .HPE_STRICT
  else .ok ((x.UPDATE_STATE .s_chunk_data_done).CALLBACK_DATA (x.pos + 1))

/-- The line feed behind a chunk's data. -/
def s_chunk_data_done (x : Exec) (ch : UInt8) : Outcome :=
  if ch ≠ LF then x.fail .HPE_STRICT
  else
    let x := { x with nread := 0, parser.nread := 0 }
    .ok ((x.UPDATE_STATE .s_chunk_size_start).CALLBACK_NOTIFY .on_chunk_complete (x.pos + 1))

/-! ### The loop -/

/-- The `switch` over the states. -/
def switch (max_header_size : ℕ) (x : Exec) (ch : UInt8) : Outcome :=
  match x.parser.state with
  | .url s => x.url s ch
  | .s_start_res => x.s_start_res ch
  | .s_res_H => x.expect 'T'.toUInt8 ch .HPE_STRICT .s_res_HT
  | .s_res_HT => x.expect 'T'.toUInt8 ch .HPE_STRICT .s_res_HTT
  | .s_res_HTT => x.expect 'P'.toUInt8 ch .HPE_STRICT .s_res_HTTP
  | .s_res_HTTP => x.expect '/'.toUInt8 ch .HPE_STRICT .s_res_http_major
  | .s_res_http_major => x.version ch (fun d => { x.parser with http_major := d }) .s_res_http_dot
  | .s_res_http_dot => x.expect '.'.toUInt8 ch .HPE_INVALID_VERSION .s_res_http_minor
  | .s_res_http_minor => x.version ch (fun d => { x.parser with http_minor := d }) .s_res_http_end
  | .s_res_http_end => x.expect 32 ch .HPE_INVALID_VERSION .s_res_first_status_code
  | .s_res_first_status_code => x.s_res_first_status_code ch
  | .s_res_status_code => x.s_res_status_code ch
  | .s_res_status_start => x.s_res_status_start ch
  | .s_res_status => x.s_res_status ch
  | .s_res_line_almost_done => x.expect LF ch .HPE_STRICT .s_header_field_start
  | .s_start_req => x.s_start_req ch
  | .s_req_method => x.s_req_method ch
  | .s_req_http_start => x.s_req_http_start ch
  | .s_req_http_H => x.expect 'T'.toUInt8 ch .HPE_STRICT .s_req_http_HT
  | .s_req_http_HT => x.expect 'T'.toUInt8 ch .HPE_STRICT .s_req_http_HTT
  | .s_req_http_HTT => x.expect 'P'.toUInt8 ch .HPE_STRICT .s_req_http_HTTP
  | .s_req_http_I => x.expect 'C'.toUInt8 ch .HPE_STRICT .s_req_http_IC
  | .s_req_http_IC => x.expect 'E'.toUInt8 ch .HPE_STRICT .s_req_http_HTTP
  | .s_req_http_HTTP => x.expect '/'.toUInt8 ch .HPE_STRICT .s_req_http_major
  | .s_req_http_major => x.version ch (fun d => { x.parser with http_major := d }) .s_req_http_dot
  | .s_req_http_dot => x.expect '.'.toUInt8 ch .HPE_INVALID_VERSION .s_req_http_minor
  | .s_req_http_minor => x.version ch (fun d => { x.parser with http_minor := d }) .s_req_http_end
  | .s_req_http_end => x.s_req_http_end ch
  | .s_req_line_almost_done => x.expect LF ch .HPE_LF_EXPECTED .s_header_field_start
  | .s_header_field_start => x.s_header_field_start ch
  | .s_header_field => x.s_header_field max_header_size 0 ch
  | .s_header_value_discard_ws => x.s_header_value_discard_ws ch
  | .s_header_value_discard_ws_almost_done =>
    x.expect LF ch .HPE_STRICT .s_header_value_discard_lws
  | .s_header_value_discard_lws => x.s_header_value_discard_lws ch
  | .s_header_value_start => x.s_header_value_start ch
  | .s_header_value => x.s_header_value max_header_size 0 ch
  | .s_header_value_lws => x.s_header_value_lws ch
  | .s_header_almost_done => x.s_header_almost_done ch
  | .s_chunk_size_start => x.s_chunk_size_start ch
  | .s_chunk_size => x.s_chunk_size ch
  | .s_chunk_parameters => x.s_chunk_parameters ch
  | .s_chunk_size_almost_done => x.s_chunk_size_almost_done ch
  | .s_headers_almost_done => x.s_headers_almost_done ch
  | .s_headers_done => x.s_headers_done ch
  | .s_chunk_data => x.s_chunk_data ch
  | .s_chunk_data_almost_done => x.s_chunk_data_almost_done ch
  | .s_chunk_data_done => x.s_chunk_data_done ch
  | .s_body_identity => x.s_body_identity ch
  | .s_body_identity_eof => .ok (x.MARK .on_body)
  | .s_message_done => x.s_message_done ch

/-- What is done with a byte. -/
def step (max_header_size : ℕ) (x : Exec) (ch : UInt8) : Outcome :=
  match x.inner with
  | some k =>
    if x.parser.state = .s_header_field then x.s_header_field max_header_size k ch
    else x.s_header_value max_header_size k ch
  | none =>
    if PARSING_HEADER x.parser.state then
      (x.COUNT_HEADER_SIZE max_header_size 1).bind fun x => x.switch max_header_size ch
    else x.switch max_header_size ch

/-- After the last byte: a loop is left, and a text that has a mark is given to
its callback. -/
def finish (max_header_size : ℕ) (x : Exec) : Run CParser :=
  let counted : Outcome := match x.inner with
    | some k => { x with pos := x.pos - 1 }.leave max_header_size (k - 1)
    | none => .ok x
  match counted with
  | .error r => r
  | .ok y =>
    let y := y.CALLBACK_DATA x.pos
    ⟨y.calls, { y.parser with nread := y.nread }, x.pos, none⟩

/-- The loop over the bytes. -/
def run (max_header_size : ℕ) : Exec → Bytes → Run CParser
  | x, [] => x.finish max_header_size
  | x, ch :: data =>
    match x.step max_header_size ch with
    | .error r => r
    | .ok x => run max_header_size (x.advance ch) data

/-- The mark that is set when a call begins. -/
def markOf : ParseState → Option DataCb
  | .s_header_field => some .on_header_field
  | .s_header_value => some .on_header_value
  | .s_res_status => some .on_status
  | .url .s_dead | .url .s_req_spaces_before_url => none
  | .url _ => some .on_url
  | _ => none

/-- The local variables at the beginning of a call; a mark that the state
implies is set at its first byte. -/
def init (parser : CParser) : Exec where
  parser := parser
  nread := parser.nread
  pos := 0
  mark := (markOf parser.state).map fun cb => (cb, [])
  inner := none
  round := 0
  calls := []

end Exec

/-- `http_parser_execute`, on a parser without an error. -/
def http_parser_execute (max_header_size : ℕ) (parser : CParser) (data : Bytes) : Run CParser :=
  if data = [] then
    match parser.state with
    | .s_body_identity_eof => ⟨[(.notify .on_message_complete, parser, 0)], parser, 0, none⟩
    | .url .s_dead | .s_start_res | .s_start_req => ⟨[], parser, 0, none⟩
    | _ => ⟨[], parser, 1, some ParseError.HPE_INVALID_EOF_STATE.code⟩
  else (Exec.init parser).run max_header_size data

/-- `HTTP_MAX_HEADER_SIZE`. -/
def HTTP_MAX_HEADER_SIZE : UInt32 := 80 * 1024

/-- The library, with the value of its variable `max_header_size`. -/
def httpParser (max_header_size : UInt32) : Library CParser where
  http_parser_init := http_parser_init
  http_parser_execute := http_parser_execute max_header_size.toNat
  http_should_keep_alive := http_should_keep_alive

end Http
end Net
end Sevent
