/-
# `http_parser_parse_url`

`sevent/net/http/http-parser/http_parser.c` (with `HTTP_PARSER_STRICT`).

A URL is read character by character through the states of `parse_url_char`;
the state after a character says which component it belongs to.  Afterwards the
host is taken apart into user information, host and port.  Offsets and lengths
of the components are `uint16_t` and wrap around in longer URLs.

The states are those of `enum state` that occur in a URL.  The numeric port in
`http_parser_url` is not read by anyone and is left out; that it has to fit 16
bits is kept, computed in an `unsigned long` as the code does.
-/

import Mathlib.Logic.Function.Basic
import Mathlib.Data.Nat.Notation
import Mathlib.Data.Int.Notation

namespace Sevent
namespace Net
namespace Http

/-- Bytes received from a connection. -/
abbrev Bytes := List UInt8

/-- The bytes of an ASCII text. -/
def text (s : String) : Bytes := s.toList.map Char.toUInt8

/-- `enum http_parser_url_fields`. -/
inductive UrlField
  | UF_SCHEMA
  | UF_HOST
  | UF_PORT
  | UF_PATH
  | UF_QUERY
  | UF_FRAGMENT
  | UF_USERINFO
  deriving DecidableEq, Repr

/-- An entry of `field_data`. -/
structure FieldData where
  off : UInt16
  len : UInt16
  deriving DecidableEq, Repr

/-- `struct http_parser_url`: the components whose bit is set in `field_set`. -/
abbrev ParsedUrl := UrlField → Option FieldData

/-! ### Character classes -/

/-- A letter in lower case. -/
def LOWER (c : UInt8) : UInt8 := c ||| 0x20

/-- A letter, in either case. -/
def IS_ALPHA (c : UInt8) : Bool := 'a'.toUInt8 ≤ LOWER c && LOWER c ≤ 'z'.toUInt8

/-- A decimal digit. -/
def IS_NUM (c : UInt8) : Bool := '0'.toUInt8 ≤ c && c ≤ '9'.toUInt8

/-- A letter or a digit. -/
def IS_ALPHANUM (c : UInt8) : Bool := IS_ALPHA c || IS_NUM c

/-- A hexadecimal digit, in either case. -/
def IS_HEX (c : UInt8) : Bool := IS_NUM c || 'a'.toUInt8 ≤ LOWER c && LOWER c ≤ 'f'.toUInt8

/-- Is the byte one of these characters? -/
def oneOf (chars : List Char) (c : UInt8) : Bool := chars.any fun d => d.toUInt8 == c

/-- The marks that may stand in a URL unescaped. -/
def IS_MARK (c : UInt8) : Bool := oneOf ['-', '_', '.', '!', '~', '*', '\'', '(', ')'] c

/-- What may stand in the user part of a server. -/
def IS_USERINFO_CHAR (c : UInt8) : Bool :=
  IS_ALPHANUM c || IS_MARK c || oneOf ['%', ';', ':', '&', '=', '+', '$', ','] c

/-- What may stand in a host name, in strict mode. -/
def IS_HOST_CHAR (c : UInt8) : Bool := IS_ALPHANUM c || oneOf ['.', '-'] c

/-- `normal_url_char`: the printable characters but `#` and `?`. -/
def IS_URL_CHAR (c : UInt8) : Bool := 33 ≤ c && c ≤ 126 && !oneOf ['#', '?'] c

/-! ### The components -/

/-- The states of `enum state` that occur in a URL. -/
inductive UrlState
  | s_dead
  | s_req_spaces_before_url
  | s_req_schema
  | s_req_schema_slash
  | s_req_schema_slash_slash
  | s_req_server_start
  | s_req_server
  | s_req_server_with_at
  | s_req_path
  | s_req_query_string_start
  | s_req_query_string
  | s_req_fragment_start
  | s_req_fragment
  deriving DecidableEq, Repr

open UrlState

/-- The branch for `s_req_server_start` and `s_req_server`, which
`s_req_server_with_at` falls into. -/
def parse_server_char (ch : UInt8) : UrlState :=
  if oneOf ['/'] ch then s_req_path
  else if oneOf ['?'] ch then s_req_query_string_start
  else if oneOf ['@'] ch then s_req_server_with_at
  else if IS_USERINFO_CHAR ch || oneOf ['[', ']'] ch then s_req_server
  else s_dead

/-- `parse_url_char`: the state after one more character of a URL. -/
def parse_url_char (s : UrlState) (ch : UInt8) : UrlState :=
  -- space, CR, LF, and in strict mode tab and form feed
  if ch = 32 ∨ ch = 13 ∨ ch = 10 ∨ ch = 9 ∨ ch = 12 then s_dead
  else
    match s with
    | s_req_spaces_before_url =>
      if oneOf ['/', '*'] ch then s_req_path else if IS_ALPHA ch then s_req_schema else s_dead
    | s_req_schema =>
      if IS_ALPHA ch then s_req_schema
      else if oneOf [':'] ch then s_req_schema_slash
      else s_dead
    | s_req_schema_slash => if oneOf ['/'] ch then s_req_schema_slash_slash else s_dead
    | s_req_schema_slash_slash => if oneOf ['/'] ch then s_req_server_start else s_dead
    | s_req_server_with_at => if oneOf ['@'] ch then s_dead else parse_server_char ch
    | s_req_server_start | s_req_server => parse_server_char ch
    | s_req_path =>
      if IS_URL_CHAR ch then s_req_path
      else if oneOf ['?'] ch then s_req_query_string_start
      else if oneOf ['#'] ch then s_req_fragment_start
      else s_dead
    | s_req_query_string_start | s_req_query_string =>
      if IS_URL_CHAR ch then s_req_query_string
      else if oneOf ['?'] ch then s_req_query_string
      else if oneOf ['#'] ch then s_req_fragment_start
      else s_dead
    | s_req_fragment_start =>
      if IS_URL_CHAR ch then s_req_fragment
      else if oneOf ['?'] ch then s_req_fragment
      else if oneOf ['#'] ch then s_req_fragment_start
      else s_dead
    | s_req_fragment =>
      if IS_URL_CHAR ch then s_req_fragment
      else if oneOf ['?', '#'] ch then s_req_fragment
      else s_dead
    | s_dead => s_dead

/-- The component that a character belongs to, by the state after it; `none`
for the delimiters. -/
def fieldOf : UrlState → Option UrlField
  | s_req_schema => some .UF_SCHEMA
  | s_req_server | s_req_server_with_at => some .UF_HOST
  | s_req_path => some .UF_PATH
  | s_req_query_string => some .UF_QUERY
  | s_req_fragment => some .UF_FRAGMENT
  | _ => none

/-- `field_data[uf].len++`. -/
def incLen (u : ParsedUrl) (uf : UrlField) : ParsedUrl :=
  Function.update u uf ((u uf).map fun d => { d with len := d.len + 1 })

/-- A component with this entry, its bit set. -/
def put (u : ParsedUrl) (uf : UrlField) (d : FieldData) : ParsedUrl :=
  Function.update u uf (some d)

/-- The loop of `http_parser_parse_url`, from position `pos` on.  Returns the
components and `found_at`. -/
def urlLoop : Bytes → ℕ → UrlState → Option UrlField → Bool → ParsedUrl → Option (ParsedUrl × Bool)
  | [], _, _, _, found_at, u => some (u, found_at)
  | ch :: rest, pos, s, old_uf, found_at, u =>
    let s := parse_url_char s ch
    if s = s_dead then none
    else
      match fieldOf s with
      | none => urlLoop rest (pos + 1) s old_uf found_at u
      | some uf =>
        let found_at := found_at || s == s_req_server_with_at
        if old_uf = some uf then urlLoop rest (pos + 1) s old_uf found_at (incLen u uf)
        else
          urlLoop rest (pos + 1) s (some uf) found_at
            (put u uf { off := UInt16.ofNat pos, len := 1 })

/-! ### The host -/

/-- `enum http_host_state`. -/
inductive HostState
  | s_http_host_dead
  | s_http_userinfo_start
  | s_http_userinfo
  | s_http_host_start
  | s_http_host_v6_start
  | s_http_host
  | s_http_host_v6
  | s_http_host_v6_end
  | s_http_host_v6_zone_start
  | s_http_host_v6_zone
  | s_http_host_port_start
  | s_http_host_port
  deriving DecidableEq, Repr

open HostState

/-- `http_parse_host_char`: the state after one more character of the server
part. -/
def http_parse_host_char (s : HostState) (ch : UInt8) : HostState :=
  match s with
  | s_http_userinfo | s_http_userinfo_start =>
    if oneOf ['@'] ch then s_http_host_start
    else if IS_USERINFO_CHAR ch then s_http_userinfo
    else s_http_host_dead
  | s_http_host_start =>
    if oneOf ['['] ch then s_http_host_v6_start
    else if IS_HOST_CHAR ch then s_http_host
    else s_http_host_dead
  | s_http_host =>
    if IS_HOST_CHAR ch then s_http_host
    else if oneOf [':'] ch then s_http_host_port_start
    else s_http_host_dead
  | s_http_host_v6_end => if oneOf [':'] ch then s_http_host_port_start else s_http_host_dead
  | s_http_host_v6 =>
    if oneOf [']'] ch then s_http_host_v6_end
    else if IS_HEX ch || oneOf [':', '.'] ch then s_http_host_v6
    else if oneOf ['%'] ch then s_http_host_v6_zone_start
    else s_http_host_dead
  | s_http_host_v6_start =>
    if IS_HEX ch || oneOf [':', '.'] ch then s_http_host_v6 else s_http_host_dead
  | s_http_host_v6_zone =>
    if oneOf [']'] ch then s_http_host_v6_end
    else if IS_ALPHANUM ch || oneOf ['%', '.', '-', '_', '~'] ch then s_http_host_v6_zone
    else s_http_host_dead
  | s_http_host_v6_zone_start =>
    if IS_ALPHANUM ch || oneOf ['%', '.', '-', '_', '~'] ch then s_http_host_v6_zone
    else s_http_host_dead
  | s_http_host_port | s_http_host_port_start =>
    if IS_NUM ch then s_http_host_port else s_http_host_dead
  | s_http_host_dead => s_http_host_dead

/-- The effect of one character of the host on the components. -/
def hostField (u : ParsedUrl) (s new_s : HostState) (pos : ℕ) : ParsedUrl :=
  let off := UInt16.ofNat pos
  match new_s with
  | s_http_host | s_http_host_v6 =>
    let u := if s ≠ new_s then
      Function.update u .UF_HOST ((u .UF_HOST).map fun d => { d with off := off }) else u
    incLen u .UF_HOST
  | s_http_host_v6_zone_start | s_http_host_v6_zone => incLen u .UF_HOST
  | s_http_host_port =>
    let u := if s ≠ new_s then put u .UF_PORT { off := off, len := 0 } else u
    incLen u .UF_PORT
  | s_http_userinfo =>
    let u := if s ≠ new_s then put u .UF_USERINFO { off := off, len := 0 } else u
    incLen u .UF_USERINFO
  | _ => u

/-- The loop of `http_parse_host`, from position `pos` on. -/
def hostLoop : Bytes → ℕ → HostState → ParsedUrl → Option (HostState × ParsedUrl)
  | [], _, s, u => some (s, u)
  | ch :: rest, pos, s, u =>
    let new_s := http_parse_host_char s ch
    if new_s = s_http_host_dead then none
    else hostLoop rest (pos + 1) new_s (hostField u s new_s pos)

/-- `http_parse_host` may end in these states. -/
def hostEnds : HostState → Bool
  | s_http_host_start | s_http_host_v6_start | s_http_host_v6 | s_http_host_v6_zone_start
  | s_http_host_v6_zone | s_http_host_port_start | s_http_userinfo | s_http_userinfo_start => false
  | _ => true

/-- The bytes of a component. -/
def slice (buf : Bytes) (d : FieldData) : Bytes := (buf.drop d.off.toNat).take d.len.toNat

/-- `http_parse_host`, for a URL with a host. -/
def http_parse_host (buf : Bytes) (u : ParsedUrl) (host : FieldData) (found_at : Bool) :
    Option ParsedUrl :=
  let s := if found_at then s_http_userinfo_start else s_http_host_start
  match hostLoop (slice buf host) host.off.toNat s (put u .UF_HOST { host with len := 0 }) with
  | some (s, u) => if hostEnds s then some u else none
  | none => none

/-- The check of the port: `v` is an `unsigned long` and a `char` is signed. -/
def portFits : Bytes → ℤ → Bool
  | [], _ => true
  | ch :: rest, v =>
    let digit : ℤ := (if ch < 128 then (ch.toNat : ℤ) else ch.toNat - 256) - 48
    let v := (v * 10 + digit) % 2 ^ 64
    if v > 0xffff then false else portFits rest v

/-- `http_parser_parse_url`; `none` where it returns 1. -/
def http_parser_parse_url (buf : Bytes) (is_connect : Bool) : Option ParsedUrl :=
  if buf = [] then none
  else
    match urlLoop buf 0 (if is_connect then s_req_server_start else s_req_spaces_before_url) none
      false (fun _ => none) with
    | none => none
    | some (u, found_at) =>
      if (u .UF_SCHEMA).isSome && (u .UF_HOST).isNone then none
      else
        let parsed :=
          match u .UF_HOST with
          | some host => http_parse_host buf u host found_at
          | none => some u
        match parsed with
        | none => none
        | some u =>
          if is_connect && !((u .UF_HOST).isSome && (u .UF_PORT).isSome &&
              (u .UF_SCHEMA).isNone && (u .UF_PATH).isNone && (u .UF_QUERY).isNone &&
              (u .UF_FRAGMENT).isNone && (u .UF_USERINFO).isNone) then none
          else
            match u .UF_PORT with
            | some port => if portFits (slice buf port) 0 then some u else none
            | none => some u

end Http
end Net
end Sevent
