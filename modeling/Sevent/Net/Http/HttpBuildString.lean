/-
# Built messages parse back

`HttpRequest::buildString`, `HttpResponse::buildString` and
`HttpParser::execute`, on one whole message and a new parser.

`buildString` adds a `Content-Length` for a body that is not empty, and looks at
no header that was set.  `Framed` says where that is enough: then the message
parses back (`buildString_parsesBack`), with the headers that were set and the
length that was added (`SameHeaders`).  Of a response with neither a body nor a
length the parser waits for the end of the file (`response_without_length`), and
a length that is there twice is an error (`length_twice`), as is a control
character in a value (`not_text`).
-/

import Mathlib.Data.List.TakeWhile
import Sevent.Net.Http.HttpDuplicate
import Sevent.Net.Http.HttpParserMessage

namespace Sevent
namespace Net
namespace Http

/-! ### The texts -/

/-- For a token, the parser compares the same bytes as `CaseInsensitiveLess`. -/
theorem token_eq_tolower {c : UInt8} (h : TOKEN c ≠ 0) : c ≠ 0 ∧ TOKEN c = tolower c := by
  revert h
  have hall : ∀ n : Fin 256, TOKEN (UInt8.ofFin n) ≠ 0 →
      UInt8.ofFin n ≠ 0 ∧ TOKEN (UInt8.ofFin n) = tolower (UInt8.ofFin n) := by decide +kernel
  exact hall c.toFin

/-- A name of token characters is told apart by the parser as `stricmp` does. -/
theorem map_token {name : Bytes} (h : ∀ ch ∈ name, TOKEN ch ≠ 0) :
    name.map TOKEN = stricmpKey name := by
  have hall : name.takeWhile (· != 0) = name :=
    List.takeWhile_eq_self_iff.2 fun c hc => bne_iff_ne.2 (token_eq_tolower (h c hc)).1
  unfold stricmpKey
  rw [hall]
  exact List.map_congr_left fun c hc => (token_eq_tolower (h c hc)).2

/-- Two names have one place in the map exactly when `stricmp` finds them equal. -/
theorem stricmpOrder_inj {a b : Bytes} :
    stricmpOrder a = stricmpOrder b ↔ stricmpKey a = stricmpKey b :=
  (List.map_injective_iff.2 fun _ _ => UInt8.toNat_inj.1).eq_iff

/-- `std::to_string` writes a numeral. -/
theorem to_string_eq (n : ℕ) :
    to_string n = Numeral.write 10 (fun d => (Nat.digitChar d).toUInt8) n := by
  unfold to_string
  rw [← Numeral.write_digitChar (by decide), Numeral.write, Numeral.write, List.map_reverse,
    List.map_map]
  rfl

/-- A decimal digit is read as its value. -/
theorem numValue_digit {d : ℕ} (h : d < 10) :
    CParser.numValue (Nat.digitChar d).toUInt8 = some d := by
  have hall : ∀ d : Fin 10, CParser.numValue (Nat.digitChar d).toUInt8 = some (d : ℕ) := by
    decide
  exact hall ⟨d, h⟩

/-- **The length that is added** reads back. -/
theorem read_to_string (n : ℕ) : Numeral.read 10 CParser.numValue (to_string n) = some n := by
  rw [to_string_eq]
  exact Numeral.read_write (by decide) (fun d hd => numValue_digit hd) n

/-- A numeral is a value that a header may have. -/
theorem isValue_to_string (n : ℕ) : Exec.IsValue (to_string n) := by
  have hall : ∀ d : Fin 10, Exec.ValueByte (Nat.digitChar d).toUInt8 ∧
      (Nat.digitChar d).toUInt8 ≠ 32 ∧ (Nat.digitChar d).toUInt8 ≠ 9 := by
    decide
  have hdigit : ∀ ch ∈ to_string n, Exec.ValueByte ch ∧ ch ≠ 32 ∧ ch ≠ 9 := by
    intro ch hch
    rw [to_string_eq, Numeral.write, List.mem_reverse] at hch
    obtain ⟨d, hd, rfl⟩ := List.mem_map.1 hch
    exact hall ⟨d, Numeral.digits_lt (by decide) hd⟩
  exact ⟨fun ch hch => (hdigit ch hch).1, fun ch hch => (hdigit ch (List.mem_of_mem_head? hch)).2⟩

/-! ### The first lines -/

variable {M : UInt32} {isRequest : Bool} {q : CParser} {line : Bytes} {first : Callback} {y : Exec}
  {p : ParserObject}

/-- A request that `http_parser` can read: with a URL that
`http_parser_parse_url` accepts. -/
structure RequestFields.Legal (f : RequestFields) : Prop where
  version : f.httpVersion ≠ .HTTP_2_0
  method : f.httpMethod ≠ .HTTP_CONNECT
  url : (http_parser_parse_url f.url false).isSome = true

/-- A response with a body of its own. -/
structure ResponseFields.Legal (f : ResponseFields) : Prop where
  version : f.httpVersion ≠ .HTTP_2_0
  status : f.httpStatus.code / 100 ≠ 1 ∧ f.httpStatus.code ≠ 204 ∧ f.httpStatus.code ≠ 304

/-- A URL that is alive has no blanks. -/
theorem urlByte_of_alive {s : UrlState} {url : Bytes} (h : Exec.urlEnd s url ≠ .s_dead) :
    ∀ ch ∈ url, Exec.UrlByte ch := by
  intro ch hch
  obtain ⟨a, b, rfl⟩ := List.append_of_mem hch
  by_contra hno
  refine h ?_
  have hdead : parse_url_char (Exec.urlEnd s a) ch = .s_dead := by
    unfold Exec.UrlByte at hno
    unfold parse_url_char
    refine if_pos ?_
    by_contra hblank
    simp only [not_or] at hblank
    exact hno ⟨hblank.1, hblank.2.1, hblank.2.2.1⟩
  have hsplit : Exec.urlEnd s (a ++ ch :: b) =
      Exec.urlEnd (parse_url_char (Exec.urlEnd s a) ch) b := by
    unfold Exec.urlEnd
    rw [List.foldl_append, List.foldl_cons]
  rw [hsplit, hdead]
  exact Exec.urlEnd_dead b

/-- The first line of a legal request is read whole, and `on_url` is told the
request target. -/
theorem lineRead_request (M : UInt32) {f : RequestFields} (hf : f.Legal) :
    ∃ y, LineRead M true (HttpRequest.builtLine f ++ text "\r\n") (.data .on_url f.url) y ∧
      y.parser.method = f.httpMethod := by
  have hends := Exec.urlEnds_of_accepted hf.url
  have halive : Exec.urlEnd .s_req_spaces_before_url f.url ≠ .s_dead := by
    intro hdead
    rw [hdead] at hends
    cases hends
  have hne : f.url ≠ [] := by
    intro hnil
    have hurl := hf.url
    rw [hnil] at hurl
    cases hurl
  obtain ⟨y, hread, hbegun, hmethod, hstatus⟩ := Exec.reads_requestLine M.toNat_lt hf.version
    hf.method hne (urlByte_of_alive halive) hends
  have hline : HttpRequest.builtLine f ++ text "\r\n" = methodToString f.httpMethod ++ [32] ++
      (f.url ++ ([32] ++ (versionToString f.httpVersion ++ Exec.CRLF))) := by
    have hblank : text " " = [32] := rfl
    have hend : text "\r\n" = Exec.CRLF := rfl
    unfold HttpRequest.builtLine
    rw [hblank, hend]
    simp only [List.append_assoc]
  refine ⟨y, ⟨?_, hbegun, .inl ⟨f.url, rfl, hf.url⟩, ?_, ?_⟩, hmethod⟩
  · rw [hline]
    exact hread
  · rw [hmethod]
    exact hf.method
  · rw [hstatus]
    decide

/-- The first line of a legal response is read whole, and `on_status` is told
the reason phrase. -/
theorem lineRead_response (M : UInt32) {f : ResponseFields} (hf : f.Legal) :
    ∃ y, LineRead M false (HttpResponse.builtLine f ++ text "\r\n")
        (.data .on_status (statusdToString f.httpStatus)) y ∧
      y.parser.status_code = f.httpStatus.code := by
  obtain ⟨y, hread, hbegun, hstatus, hmethod⟩ :=
    Exec.reads_statusLine M.toNat_lt hf.version f.httpStatus
  have hline : HttpResponse.builtLine f ++ text "\r\n" = versionToString f.httpVersion ++ [32] ++
      (to_string f.httpStatus.code ++ [32] ++ (statusdToString f.httpStatus ++ Exec.CRLF)) := by
    have hblank : text " " = [32] := rfl
    have hend : text "\r\n" = Exec.CRLF := rfl
    unfold HttpResponse.builtLine
    rw [hblank, hend]
    simp only [List.append_assoc]
  refine ⟨y, ⟨?_, hbegun, .inr ⟨_, rfl⟩, ?_, ?_⟩, hstatus⟩
  · rw [hline]
    exact hread
  · rw [hmethod]
    exact nofun
  · rw [hstatus]
    exact hf.status

/-! ### The headers -/

/-- The headers in the text. -/
def sentHeaders (p : ParserObject) : List (Bytes × Bytes) :=
  p.headers.entries ++
    if p.body = [] then [] else [(text "Content-Length", to_string p.body.length)]

/-- The lines behind the first one: the headers, the empty line, the body. -/
theorem builtLines_eq (p : ParserObject) :
    p.builtLines = (sentHeaders p).flatMap headerLine ++ CR :: LF :: p.body := by
  have hend : text "\r\n" = [CR, LF] := rfl
  have hlength : text "Content-Length: " ++ to_string p.body.length ++ text "\r\n" =
      [(text "Content-Length", to_string p.body.length)].flatMap headerLine := by
    have hname : text "Content-Length: " = text "Content-Length" ++ text ": " := by decide +kernel
    rw [hname, List.flatMap_singleton]
    rfl
  have hheaders : p.headerLines = p.headers.entries.flatMap headerLine := rfl
  unfold ParserObject.builtLines sentHeaders
  rw [hheaders, hlength, hend, List.flatMap_append]
  by_cases hbody : p.body = []
  · rw [if_neg (by rw [hbody]; exact fun h => h rfl), if_pos hbody]
    simp
  · rw [if_pos (by rwa [Ne, List.length_eq_zero_iff]), if_neg hbody]
    simp

/-- What `buildString` builds: the first line, the headers with the length that
it adds, the body. -/
theorem buildString_eq {F : Type} [MessageFields F] (w : Heap) (m : HttpMessage F) :
    m.buildString w = messageBytes (MessageFields.builtLine m.own ++ text "\r\n")
      (sentHeaders (w.parsers m.parser)) (w.parsers m.parser).body := by
  unfold HttpMessage.buildString messageBytes
  rw [builtLines_eq]

/-- The parsed headers are those that were set, with the length that
`buildString` adds. -/
def SameHeaders (headers : HeaderMap) (body : Bytes) (parsed : Map) : Prop :=
  ∀ key : Bytes, parsed (stricmpKey key) =
    if body ≠ [] ∧ stricmpKey key = CONTENT_LENGTH then
      some (text "Content-Length", to_string body.length)
    else headers.find (stricmpOrder key)

/-- The name of the header that is added, as the parser compares it. -/
theorem contentLength_key : stricmpKey (text "Content-Length") = CONTENT_LENGTH := by
  decide +kernel

/-- The name of the header that is added is a token. -/
theorem contentLength_token : text "Content-Length" ≠ [] ∧
    ∀ ch ∈ text "Content-Length", TOKEN ch ≠ 0 := by decide +kernel

/-- The name of the header that is added, as the parser matches it. -/
theorem contentLength_map : (text "Content-Length").map TOKEN = CONTENT_LENGTH :=
  (map_token contentLength_token.2).trans contentLength_key

/-- No two headers of a map have the same name. -/
theorem nodup_entries (headers : HeaderMap) :
    (headers.entries.map fun e => stricmpKey e.1).Nodup := by
  refine List.pairwise_map.2 (headers.sorted.imp fun {a b} hlt heq => ?_)
  exact hlt.ne (stricmpOrder_inj.2 heq)

/-- **The headers that are parsed** are those of the text. -/
theorem sameHeaders_of_sent {p : ParserObject}
    (hlength : p.body ≠ [] → ∀ e ∈ p.headers.entries, stricmpKey e.1 ≠ CONTENT_LENGTH) :
    SameHeaders p.headers p.body (KeyMap.setAll stricmpKey .empty (sentHeaders p)) := by
  have hnodup : ((sentHeaders p).map fun e => stricmpKey e.1).Nodup := by
    unfold sentHeaders
    rw [List.map_append]
    split
    case isTrue =>
      rw [List.map_nil, List.append_nil]
      exact nodup_entries p.headers
    case isFalse hbody =>
      refine List.nodup_append.2 ⟨nodup_entries p.headers, List.nodup_singleton _, ?_⟩
      intro x hx y hy
      obtain ⟨e, he, rfl⟩ := List.mem_map.1 hx
      obtain rfl := List.mem_singleton.1 hy
      exact fun heq => hlength hbody e he (heq.trans contentLength_key)
  have hfound : ∀ e ∈ sentHeaders p,
      KeyMap.setAll stricmpKey .empty (sentHeaders p) (stricmpKey e.1) = some e := fun e he =>
    KeyMap.setAll_apply_of_mem hnodup (fun _ _ => rfl) he
  intro key
  split
  case isTrue hkey =>
    have hadded : (text "Content-Length", to_string p.body.length) ∈ sentHeaders p := by
      unfold sentHeaders
      rw [if_neg hkey.1]
      exact List.mem_append_right _ List.mem_cons_self
    rw [hkey.2, ← contentLength_key]
    exact hfound _ hadded
  case isFalse hkey =>
    cases hfind : p.headers.find (stricmpOrder key) with
    | some e =>
      obtain ⟨he, hfold⟩ := OrderedMap.findEntry_some hfind
      rw [← stricmpOrder_inj.1 hfold]
      exact hfound e (List.mem_append_left _ he)
    | none =>
      refine KeyMap.setAll_apply_of_ne fun e he heq => ?_
      rcases List.mem_append.1 he with he | he
      · have hmem := OrderedMap.findEntry_of_mem p.headers.sorted he
        rw [stricmpOrder_inj.2 heq] at hmem
        cases hfind.symm.trans hmem
      · split at he
        case isTrue => cases he
        case isFalse hbody =>
          obtain rfl := List.mem_singleton.1 he
          exact hkey ⟨hbody, heq.symm.trans contentLength_key⟩

/-! ### The calls -/

/-- A token, but not `Transfer-Encoding`. -/
structure IsName (key : Bytes) : Prop where
  nonempty : key ≠ []
  token : ∀ ch ∈ key, TOKEN ch ≠ 0
  encoding : stricmpKey key ≠ TRANSFER_ENCODING

/-- A call that the message is built with: a value stays in its line and does
not begin with a blank, and a body is a `std::string`. -/
def Setter.Legal {F : Type} : Setter F → Prop
  | .setHeader key val => IsName key ∧ Exec.IsValue val
  | .setBody val => val.length < 2 ^ 63
  | .own _ => True

/-- What such calls leave in a parser. -/
structure WellSet (p : ParserObject) : Prop where
  headers : ∀ e ∈ p.headers.entries, IsName e.1 ∧ Exec.IsValue e.2
  body : p.body.length < 2 ^ 63

/-- A legal setter keeps the headers well set. -/
theorem wellSet_set {F : Type} {w : Heap} {m : HttpMessage F} {s : Setter F} (hs : s.Legal)
    (h : WellSet (w.parsers m.parser)) :
    WellSet ((m.set w s).1.parsers (m.set w s).2.parser) := by
  cases s with
  | setBody val =>
    unfold HttpMessage.set Heap.modify
    dsimp only
    rw [Function.update_self]
    exact ⟨h.headers, hs⟩
  | setHeader key val =>
    unfold HttpMessage.set Heap.modify
    dsimp only
    rw [Function.update_self]
    exact ⟨OrderedMap.forall_setEntries h.headers hs.1 hs.2, h.body⟩
  | own f => exact h

/-- Legal setters keep the headers well set. -/
theorem wellSet_sets {F : Type} {w : Heap} {m : HttpMessage F} {calls : List (Setter F)}
    (hcalls : ∀ c ∈ calls, c.Legal) (h : WellSet (w.parsers m.parser)) :
    WellSet ((m.sets w calls).1.parsers (m.sets w calls).2.parser) := by
  induction calls generalizing w m with
  | nil => exact h
  | cons c calls ih =>
    exact ih (fun c' hc' => hcalls c' (List.mem_cons_of_mem _ hc'))
      (wellSet_set (hcalls c List.mem_cons_self) h)

/-- A message after its constructor has no headers. -/
theorem wellSet_alloc (w : Heap) (isRequest : Bool) :
    WellSet ((w.alloc (.new isRequest)).2.parsers (w.alloc (.new isRequest)).1) := by
  unfold Heap.alloc
  dsimp only
  rw [Function.update_self]
  exact ⟨fun e he => absurd he List.not_mem_nil, Nat.two_pow_pos 63⟩

/-- Every header that is sent is one that can be read. -/
theorem isHeader_of_wellSet (h : WellSet p) : ∀ item ∈ sentHeaders p, IsHeader item := by
  intro item hitem
  rcases List.mem_append.1 hitem with hitem | hitem
  · obtain ⟨hname, hvalue⟩ := h.headers item hitem
    exact ⟨hname.nonempty, hname.token, hvalue⟩
  · split at hitem
    case isTrue => cases hitem
    case isFalse =>
      obtain rfl := List.mem_singleton.1 hitem
      exact ⟨contentLength_token.1, contentLength_token.2, isValue_to_string _⟩

/-- A header that is not about the length. -/
theorem isOrdinary_of_wellSet (h : WellSet p) {e : Bytes × Bytes} (he : e ∈ p.headers.entries)
    (hlength : stricmpKey e.1 ≠ CONTENT_LENGTH) : CParser.IsOrdinary e := by
  have hname := (h.headers e he).1
  refine ⟨hname.nonempty, ?_, ?_⟩
  · rw [map_token hname.token]
    exact hlength
  · rw [map_token hname.token]
    exact hname.encoding

/-! ### Framing -/

/-- Where the headers that were set leave it to `buildString` to say how long
the body is, or say that there is none. -/
structure Framed (isRequest : Bool) (p : ParserObject) : Prop where
  /-- The bytes of a value but the first can stand in a header. -/
  value : ∀ e ∈ p.headers.entries, stricmpKey e.1 ≠ CONTENT_LENGTH →
    ∀ ch ∈ e.2.tail, IS_HEADER_CHAR ch = true
  /-- The parser takes such a name for `Transfer-Encoding`. -/
  encoding : ∀ e ∈ p.headers.entries, ¬ TRANSFER_ENCODING <+: stricmpKey e.1
  length : ∀ e ∈ p.headers.entries, stricmpKey e.1 = CONTENT_LENGTH →
    p.body = [] ∧ e.2 ≠ [] ∧ ∀ ch ∈ e.2, ch = '0'.toUInt8
  response : isRequest = false → p.body = [] →
    ∃ e ∈ p.headers.entries, stricmpKey e.1 = CONTENT_LENGTH

/-- The message parses back: one message is complete at the last byte, with the
body and the headers of the built one. -/
structure ParsesBack (max_header_size : UInt32) (isRequest : Bool) (data : Bytes)
    (p : ParserObject) : Prop where
  complete : (parse max_header_size isRequest data).parser.isComplete = true
  one : completions (parseRun max_header_size isRequest data) = 1
  count : (parse max_header_size isRequest data).count = data.length
  body : (parse max_header_size isRequest data).parser.body = p.body
  headers : SameHeaders p.headers p.body (parse max_header_size isRequest data).parser.headers

/-- Under `Framed` a header other than the length is plain text to the parser. -/
theorem isText_of_framed (hf : Framed isRequest p) {e : Bytes × Bytes} (he : e ∈ p.headers.entries)
    (hlength : stricmpKey e.1 ≠ CONTENT_LENGTH) : CParser.isText e = true :=
  List.all_eq_true.2 (hf.value e he hlength)

/-- Under `Framed` no header is taken for a transfer encoding. -/
theorem not_likeEncoding (h : WellSet p) (hf : Framed isRequest p) {e : Bytes × Bytes}
    (he : e ∈ p.headers.entries) : ¬ CParser.LikeEncoding e := by
  unfold CParser.LikeEncoding
  rw [map_token (h.headers e he).1.token]
  exact hf.encoding e he

/-- One header is about the length, if any. -/
theorem split_length (headers : HeaderMap) {e : Bytes × Bytes} (he : e ∈ headers.entries)
    (hlength : stricmpKey e.1 = CONTENT_LENGTH) : ∃ a b, headers.entries = a ++ e :: b ∧
      ∀ f ∈ a ++ b, f ∈ headers.entries ∧ stricmpKey f.1 ≠ CONTENT_LENGTH := by
  obtain ⟨a, b, hab⟩ := List.append_of_mem he
  have hnodup := nodup_entries headers
  rw [hab, List.map_append, List.map_cons] at hnodup
  refine ⟨a, b, hab, fun f hf => ⟨?_, fun heq => ?_⟩⟩
  · rw [hab]
    rcases List.mem_append.1 hf with hf | hf
    · exact List.mem_append_left _ hf
    · exact List.mem_append_right _ (List.mem_cons_of_mem _ hf)
  · have hmid := List.nodup_middle.1 hnodup
    refine (List.nodup_cons.1 hmid).1 ?_
    rw [← List.map_append, hlength, ← heq]
    exact List.mem_map_of_mem hf

/-- The parser after headers that are no error. -/
structure Announces (p q : CParser) (body : Bytes) : Prop where
  plain : Plain q
  method : q.method = p.method
  status : q.status_code = p.status_code
  length : body ≠ [] → q.flags.F_CONTENTLENGTH = true ∧ q.content_length = body.length ∧
    body.length < ULLONG_MAX

/-- The first line says nothing about the length. -/
theorem LineRead.flag (h : LineRead M isRequest line first y) :
    y.parser.flags.F_CONTENTLENGTH = false := by
  rw [h.begun.flags]
  rfl

/-- The length that is added must be the only one. -/
theorem lines_added_twice (hp : WellSet p) {e : Bytes × Bytes} (he : e ∈ p.headers.entries)
    (hlength : stricmpKey e.1 = CONTENT_LENGTH) (hbody : p.body ≠ []) (r : CParser) :
    r.lines (sentHeaders p) = none := by
  obtain ⟨a, b, hab, hothers⟩ := split_length p.headers he hlength
  unfold sentHeaders
  rw [if_neg hbody, hab]
  refine CParser.lines_length_twice (fun f hf => ?_) ?_ contentLength_map
  · obtain ⟨hmem, hne⟩ := hothers f (List.mem_append_right _ hf)
    exact isOrdinary_of_wellSet hp hmem hne
  · rw [map_token (hp.headers e he).1.token]
    exact hlength

/-- **Headers that are no error** say how long the body is. -/
theorem LineRead.announces (h : LineRead M isRequest line first y) (hp : WellSet p)
    (hq : y.parser.lines (sentHeaders p) = some q) : Announces y.parser q p.body := by
  have hitems : ∀ item ∈ sentHeaders p, item.1 ≠ [] ∧ item.1.map TOKEN ≠ TRANSFER_ENCODING := by
    intro item hitem
    obtain ⟨hne, hname, -⟩ := isHeader_of_wellSet hp item hitem
    refine ⟨hne, ?_⟩
    rcases List.mem_append.1 hitem with he | hadded
    · rw [map_token hname]
      exact (hp.headers item he).1.encoding
    · split at hadded
      case isTrue => cases hadded
      case isFalse =>
        obtain rfl := List.mem_singleton.1 hadded
        rw [contentLength_map]
        decide +kernel
  obtain ⟨n, b, hframing⟩ := CParser.framing_lines hitems hq
  obtain ⟨hplain, hmethod, hstatus⟩ := plain_of_framing h.plain hframing
  refine ⟨hplain, hmethod, hstatus, fun hbody => ?_⟩
  have hmax : (2 : ℕ) ^ 63 < ULLONG_MAX := by decide
  have hordinary : ∀ e ∈ p.headers.entries, CParser.IsOrdinary e := fun e he =>
    isOrdinary_of_wellSet hp he fun heq =>
      absurd ((lines_added_twice hp he heq hbody y.parser).symm.trans hq) nofun
  have hname : ((text "Content-Length", to_string p.body.length) : Bytes × Bytes).1.map TOKEN =
      CONTENT_LENGTH := contentLength_map
  obtain ⟨r, hr, -, hlines⟩ := CParser.lines_length (b := []) h.flag hordinary
    (fun _ he => absurd he List.not_mem_nil) hname (read_to_string _) hp.body
  have hsent : sentHeaders p = p.headers.entries ++
      (text "Content-Length", to_string p.body.length) :: [] := by
    unfold sentHeaders
    rw [if_neg hbody]
  rw [hsent, hlines] at hq
  split at hq
  case isFalse => cases hq
  case isTrue =>
    obtain rfl := Option.some.inj hq
    exact ⟨congrArg CParser.Framing.F_CONTENTLENGTH hr,
      congrArg CParser.Framing.content_length hr, hp.body.trans hmax⟩

/-- **Which messages complete**: those whose head fits, whose headers are no
error and say how long the body is. -/
theorem LineRead.complete_iff (h : LineRead M isRequest line first y) (hp : WellSet p)
    (hlen : (messageBytes line (sentHeaders p) p.body).length < 2 ^ 32 + p.body.length) :
    (parse M isRequest (messageBytes line (sentHeaders p) p.body)).parser.isComplete = true ↔
      (messageBytes line (sentHeaders p) p.body).length ≤ M.toNat + p.body.length ∧
        ∃ q, y.parser.lines (sentHeaders p) = some q ∧ q.Delivers p.body := by
  have hitems := isHeader_of_wellSet hp
  constructor
  · intro hcomplete
    have hincomplete : ¬ NoneComplete
        (parseRun M isRequest (messageBytes line (sentHeaders p) p.body)).callbacks := fun hnone =>
      Bool.false_ne_true ((parse_incomplete hnone).symm.trans hcomplete)
    have hfit : (messageBytes line (sentHeaders p) p.body).length ≤ M.toNat + p.body.length := by
      by_contra hlong
      exact hincomplete (h.fails hitems hlen (.inl (Nat.lt_of_not_le hlong)))
    refine ⟨hfit, ?_⟩
    cases hq : y.parser.lines (sentHeaders p) with
    | none => exact absurd (h.fails hitems hlen (.inr hq)) hincomplete
    | some q =>
      have hannounces := h.announces hp hq
      refine ⟨q, rfl, ?_⟩
      by_contra hno
      exact hincomplete ((h.run hitems hq hannounces.plain hfit hannounces.length).2 hno)
  · rintro ⟨hfit, q, hq, hdelivers⟩
    have hannounces := h.announces hp hq
    exact (parse_complete ((h.run hitems hq hannounces.plain hfit hannounces.length).1 hdelivers)
      (h.passes _ _)).1

/-- **A response with neither a body nor a length** waits for the end of the
file. -/
theorem LineRead.response_without_length (h : LineRead M false line first y) (hp : WellSet p)
    (hlen : (messageBytes line (sentHeaders p) p.body).length < 2 ^ 32 + p.body.length)
    (hbody : p.body = []) (hlength : ∀ e ∈ p.headers.entries, stricmpKey e.1 ≠ CONTENT_LENGTH) :
    (parse M false (messageBytes line (sentHeaders p) p.body)).parser.isComplete = false := by
  rw [← Bool.not_eq_true, h.complete_iff hp hlen]
  rintro ⟨-, q, hq, hdelivers⟩
  obtain ⟨r, hr, -, hlines⟩ := CParser.lines_ordinary y.parser p.headers.entries
    fun e he => isOrdinary_of_wellSet hp he (hlength e he)
  unfold sentHeaders at hq
  rw [if_pos hbody, List.append_nil, hlines] at hq
  split at hq
  case isFalse => cases hq
  case isTrue =>
    obtain rfl := Option.some.inj hq
    have htype : r.type = .HTTP_RESPONSE :=
      (congrArg CParser.Framing.type hr).trans h.begun.type
    have hmax : r.content_length = ULLONG_MAX :=
      (congrArg CParser.Framing.content_length hr).trans h.begun.content_length
    unfold CParser.Delivers at hdelivers
    rw [if_pos hbody] at hdelivers
    rcases hdelivers.2 with ⟨hupgrades, -⟩ | ⟨-, hzero | ⟨-, hrequest⟩⟩
    · unfold CParser.upgrades at hupgrades
      rw [htype] at hupgrades
      simp at hupgrades
    · rw [hmax] at hzero
      cases hzero
    · rw [htype] at hrequest
      cases hrequest

/-- **A body, and a length that was set**: the length is there twice. -/
theorem LineRead.length_twice (h : LineRead M isRequest line first y) (hp : WellSet p)
    (hlen : (messageBytes line (sentHeaders p) p.body).length < 2 ^ 32 + p.body.length)
    (hbody : p.body ≠ []) {e : Bytes × Bytes} (he : e ∈ p.headers.entries)
    (hlength : stricmpKey e.1 = CONTENT_LENGTH) :
    (parse M isRequest (messageBytes line (sentHeaders p) p.body)).parser.isComplete = false := by
  rw [← Bool.not_eq_true, h.complete_iff hp hlen]
  rintro ⟨-, q, hq, -⟩
  exact absurd ((lines_added_twice hp he hlength hbody y.parser).symm.trans hq) nofun

/-- A control character in a value, after its first byte. -/
theorem LineRead.not_text (h : LineRead M isRequest line first y) (hp : WellSet p)
    (hlen : (messageBytes line (sentHeaders p) p.body).length < 2 ^ 32 + p.body.length)
    {e : Bytes × Bytes} (he : e ∈ p.headers.entries) (hlength : stricmpKey e.1 ≠ CONTENT_LENGTH)
    (htext : CParser.isText e = false) :
    (parse M isRequest (messageBytes line (sentHeaders p) p.body)).parser.isComplete = false := by
  rw [← Bool.not_eq_true, h.complete_iff hp hlen]
  rintro ⟨-, q, hq, -⟩
  have hnone : y.parser.lines (sentHeaders p) = none :=
    CParser.lines_not_text y.parser (isOrdinary_of_wellSet hp he hlength) htext
      (List.mem_append_left _ he)
  exact absurd (hnone.symm.trans hq) nofun

/-! ### Framed messages -/

/-- With one length, which is that of the body. -/
theorem LineRead.one_length (h : LineRead M isRequest line first y) (hp : WellSet p)
    (hf : Framed isRequest p) {a b : List (Bytes × Bytes)} {item : Bytes × Bytes}
    (hothers : ∀ e ∈ a ++ b, e ∈ p.headers.entries ∧ stricmpKey e.1 ≠ CONTENT_LENGTH)
    (hname : item.1.map TOKEN = CONTENT_LENGTH)
    (hvalue : Numeral.read 10 CParser.numValue item.2 = some p.body.length) :
    ∃ q, y.parser.lines (a ++ item :: b) = some q ∧ q.Delivers p.body := by
  have hordinary : ∀ e ∈ a ++ b, CParser.IsOrdinary e := fun e he =>
    isOrdinary_of_wellSet hp (hothers e he).1 (hothers e he).2
  obtain ⟨q, hframing, huses, hq⟩ := CParser.lines_length (p := y.parser) h.flag
    (fun e he => hordinary e (List.mem_append_left _ he))
    (fun e he => hordinary e (List.mem_append_right _ he)) hname hvalue hp.body
  rw [if_pos (List.all_eq_true.2 fun e he =>
    isText_of_framed hf (hothers e he).1 (hothers e he).2)] at hq
  have hnone : q.uses_transfer_encoding = false :=
    (huses fun e he => not_likeEncoding hp hf (hothers e he).1).trans
      h.begun.uses_transfer_encoding
  have hlength : q.content_length = p.body.length :=
    congrArg CParser.Framing.content_length hframing
  refine ⟨q, hq, ?_⟩
  unfold CParser.Delivers
  split
  case isTrue hbody =>
    rw [hbody] at hlength
    exact ⟨fun hboth => Bool.false_ne_true (hnone.symm.trans hboth.1), .inr ⟨hnone, .inl hlength⟩⟩
  case isFalse => exact hnone

/-- A request with neither a body nor a length. -/
theorem LineRead.no_length (h : LineRead M true line first y) (hp : WellSet p)
    (hf : Framed true p) (hbody : p.body = [])
    (hlength : ∀ e ∈ p.headers.entries, stricmpKey e.1 ≠ CONTENT_LENGTH) :
    ∃ q, y.parser.lines p.headers.entries = some q ∧ q.Delivers p.body := by
  obtain ⟨q, hframing, huses, hlines⟩ := CParser.lines_ordinary y.parser p.headers.entries
    fun e he => isOrdinary_of_wellSet hp he (hlength e he)
  rw [if_pos (List.all_eq_true.2 fun e he => isText_of_framed hf he (hlength e he))] at hlines
  have hnone : q.uses_transfer_encoding = false :=
    (huses fun e he => not_likeEncoding hp hf he).trans h.begun.uses_transfer_encoding
  have htype : q.type = .HTTP_REQUEST :=
    (congrArg CParser.Framing.type hframing).trans h.begun.type
  have hmax : q.content_length = ULLONG_MAX :=
    (congrArg CParser.Framing.content_length hframing).trans h.begun.content_length
  refine ⟨q, hlines, ?_⟩
  unfold CParser.Delivers
  rw [if_pos hbody]
  exact ⟨fun hboth => Bool.false_ne_true (hnone.symm.trans hboth.1),
    .inr ⟨hnone, .inr ⟨hmax, htype⟩⟩⟩

/-- **The headers of a framed message** say how long its body is. -/
theorem LineRead.framed (h : LineRead M isRequest line first y) (hp : WellSet p)
    (hf : Framed isRequest p) :
    ∃ q, y.parser.lines (sentHeaders p) = some q ∧ q.Delivers p.body := by
  unfold sentHeaders
  split
  case isTrue hbody =>
    rw [List.append_nil]
    by_cases hlength : ∃ e ∈ p.headers.entries, stricmpKey e.1 = CONTENT_LENGTH
    · obtain ⟨e, he, hkey⟩ := hlength
      obtain ⟨a, b, hab, hothers⟩ := split_length p.headers he hkey
      obtain ⟨-, hne, hzeros⟩ := hf.length e he hkey
      rw [hab]
      refine h.one_length hp hf hothers ?_ ?_
      · rw [map_token (hp.headers e he).1.token]
        exact hkey
      · rw [hbody]
        exact Numeral.read_zeros (by decide) hne hzeros
    · cases isRequest with
      | true => exact h.no_length hp hf hbody fun e he heq => hlength ⟨e, he, heq⟩
      | false => exact absurd (hf.response rfl hbody) hlength
  case isFalse hbody =>
    refine h.one_length hp hf (fun e he => ?_) contentLength_map (read_to_string _)
    rw [List.append_nil] at he
    exact ⟨he, fun heq => hbody (hf.length e he heq).1⟩

/-- **A framed message parses back.** -/
theorem LineRead.parsesBack (h : LineRead M isRequest line first y) (hp : WellSet p)
    (hf : Framed isRequest p)
    (hfit : (messageBytes line (sentHeaders p) p.body).length ≤ M.toNat + p.body.length) :
    ParsesBack M isRequest (messageBytes line (sentHeaders p) p.body) p ∧
      (parse M isRequest (messageBytes line (sentHeaders p) p.body)).parser.parser.method =
        y.parser.method ∧
      (parse M isRequest (messageBytes line (sentHeaders p) p.body)).parser.parser.status_code =
        y.parser.status_code := by
  obtain ⟨q, hq, hdelivers⟩ := h.framed hp hf
  have hannounces := h.announces hp hq
  have hrun := (h.run (isHeader_of_wellSet hp) hq hannounces.plain hfit hannounces.length).1
    hdelivers
  obtain ⟨hcomplete, hcount, hone, hbody, hheaders, hmethod, hstatus⟩ :=
    parse_complete hrun (h.passes _ _)
  obtain ⟨hbodyOf, hpairs⟩ := h.texts (sentHeaders p) p.body
  refine ⟨⟨hcomplete, hone, hcount, hbody.trans hbodyOf, ?_⟩, hmethod.trans hannounces.method,
    hstatus.trans hannounces.status⟩
  rw [hheaders, hpairs]
  exact sameHeaders_of_sent fun hne e he heq => hne (hf.length e he heq).1

/-! ### Requests and responses -/

/-- A request after its constructor and some calls. -/
def builtRequest (w : Heap) (version : HttpVersion) (method : HttpMethod)
    (calls : List (Setter RequestFields)) : Heap × HttpRequest :=
  (HttpRequest.new w version method).2.sets (HttpRequest.new w version method).1 calls

/-- A response after its constructor and some calls. -/
def builtResponse (w : Heap) (version : HttpVersion) (status : HttpStatus)
    (calls : List (Setter ResponseFields)) : Heap × HttpResponse :=
  (HttpResponse.new w version status).2.sets (HttpResponse.new w version status).1 calls

/-- The head of a message is no longer than the parser allows. -/
def Fits (max_header_size : UInt32) (data : Bytes) (p : ParserObject) : Prop :=
  data.length ≤ max_header_size.toNat + p.body.length

/-- **Built messages parse back**, when their head fits and they are framed: the
parser completes one message, which it reads to its end, with the method or the
status, the body and the headers that were set.  The setters may come in any number
and order. -/
theorem buildString_parsesBack (max_header_size : UInt32) (w : Heap) (version : HttpVersion) :
    (∀ (method : HttpMethod) (calls : List (Setter RequestFields)),
      let r := builtRequest w version method calls
      let p := r.1.parsers r.2.parser
      (∀ c ∈ calls, c.Legal) → r.2.own.Legal → Framed true p →
        Fits max_header_size (r.2.buildString r.1) p →
      ParsesBack max_header_size true (r.2.buildString r.1) p ∧
        (parse max_header_size true (r.2.buildString r.1)).parser.parser.method =
          r.2.own.httpMethod) ∧
    ∀ (status : HttpStatus) (calls : List (Setter ResponseFields)),
      let r := builtResponse w version status calls
      let p := r.1.parsers r.2.parser
      (∀ c ∈ calls, c.Legal) → r.2.own.Legal → Framed false p →
        Fits max_header_size (r.2.buildString r.1) p →
      ParsesBack max_header_size false (r.2.buildString r.1) p ∧
        (parse max_header_size false (r.2.buildString r.1)).parser.parser.status_code =
          r.2.own.httpStatus.code := by
  constructor
  · intro method calls r p hcalls hown hframed hfits
    have hset : WellSet p := wellSet_sets hcalls (wellSet_alloc w true)
    obtain ⟨y, hline, hmethod⟩ := lineRead_request max_header_size hown
    have hbytes := buildString_eq r.1 r.2
    unfold Fits at hfits
    rw [hbytes] at hfits ⊢
    obtain ⟨hback, hparsed, -⟩ := hline.parsesBack hset hframed hfits
    exact ⟨hback, hparsed.trans hmethod⟩
  · intro status calls r p hcalls hown hframed hfits
    have hset : WellSet p := wellSet_sets hcalls (wellSet_alloc w false)
    obtain ⟨y, hline, hstatus⟩ := lineRead_response max_header_size hown
    have hbytes := buildString_eq r.1 r.2
    unfold Fits at hfits
    rw [hbytes] at hfits ⊢
    obtain ⟨hback, -, hparsed⟩ := hline.parsesBack hset hframed hfits
    exact ⟨hback, hparsed.trans hstatus⟩

/-- A body and one header, which is about neither the length nor the coding. -/
theorem framed_singleton {e : Bytes × Bytes} (hentries : p.headers.entries = [e])
    (hvalue : ∀ ch ∈ e.2.tail, IS_HEADER_CHAR ch = true) (hbody : p.body ≠ [])
    (hencoding : ¬ TRANSFER_ENCODING <+: stricmpKey e.1)
    (hlength : stricmpKey e.1 ≠ CONTENT_LENGTH) : Framed isRequest p where
  value f hf _ := by
    obtain rfl := List.mem_singleton.1 (hentries ▸ hf)
    exact hvalue
  encoding f hf := by
    obtain rfl := List.mem_singleton.1 (hentries ▸ hf)
    exact hencoding
  length f hf heq := by
    obtain rfl := List.mem_singleton.1 (hentries ▸ hf)
    exact absurd heq hlength
  response _ hnil := absurd hnil hbody

/-- `HttpRequest request(HTTP_1_1, HTTP_POST); request.setUrl("/chunked_w_content_length");
request.setHeader("Host", "example.com"); request.setBody("request msg\r\n");` -/
def testHttpRequest : Heap × HttpRequest :=
  builtRequest Heap.none .HTTP_1_1 .HTTP_POST
    [HttpRequest.setUrl (text "/chunked_w_content_length"),
      .setHeader (text "Host") (text "example.com"), .setBody (text "request msg\r\n")]

/-- `HttpResponse response(HTTP_1_1, HTTP_STATUS_OK); response.setHeader("Content-Type",
"text/html; charset=UTF-8"); response.setBody("reponse msg\r\n");` -/
def testHttpResponse : Heap × HttpResponse :=
  builtResponse Heap.none .HTTP_1_1 .HTTP_STATUS_OK
    [.setHeader (text "Content-Type") (text "text/html; charset=UTF-8"),
      .setBody (text "reponse msg\r\n")]

/-- The two messages of the test parse back. -/
theorem buildString_parsesBack_test :
    ParsesBack HTTP_MAX_HEADER_SIZE true (testHttpRequest.2.buildString testHttpRequest.1)
      (testHttpRequest.1.parsers testHttpRequest.2.parser) ∧
    ParsesBack HTTP_MAX_HEADER_SIZE false (testHttpResponse.2.buildString testHttpResponse.1)
      (testHttpResponse.1.parsers testHttpResponse.2.parser) := by
  have hboth := buildString_parsesBack HTTP_MAX_HEADER_SIZE Heap.none .HTTP_1_1
  constructor
  · have hentries : (testHttpRequest.1.parsers testHttpRequest.2.parser).headers.entries =
        [(text "Host", text "example.com")] := by decide +kernel
    have hname : IsName (text "Host") := ⟨by decide +kernel, by decide +kernel, by decide +kernel⟩
    have hvalue : Exec.IsValue (text "example.com") := ⟨by decide +kernel, by decide +kernel⟩
    have hbody : (text "request msg\r\n").length < 2 ^ 63 := by decide +kernel
    refine (hboth.1 .HTTP_POST _ ?_ ⟨by decide +kernel, by decide +kernel, by decide +kernel⟩
      (framed_singleton hentries (by decide +kernel) (by decide +kernel) (by decide +kernel)
        (by decide +kernel)) ?_).1
    · simp only [List.forall_mem_cons]
      exact ⟨trivial, ⟨hname, hvalue⟩, hbody, fun _ hc => absurd hc List.not_mem_nil⟩
    · unfold Fits
      decide +kernel
  · have hentries : (testHttpResponse.1.parsers testHttpResponse.2.parser).headers.entries =
        [(text "Content-Type", text "text/html; charset=UTF-8")] := by decide +kernel
    have hname : IsName (text "Content-Type") :=
      ⟨by decide +kernel, by decide +kernel, by decide +kernel⟩
    have hvalue : Exec.IsValue (text "text/html; charset=UTF-8") :=
      ⟨by decide +kernel, by decide +kernel⟩
    have hbody : (text "reponse msg\r\n").length < 2 ^ 63 := by decide +kernel
    refine (hboth.2 .HTTP_STATUS_OK _ ?_ ⟨by decide +kernel, by decide +kernel⟩
      (framed_singleton hentries (by decide +kernel) (by decide +kernel) (by decide +kernel)
        (by decide +kernel)) ?_).1
    · simp only [List.forall_mem_cons]
      exact ⟨⟨hname, hvalue⟩, hbody, fun _ hc => absurd hc List.not_mem_nil⟩
    · unfold Fits
      decide +kernel

/-- **Not all messages parse back**: a response with an empty body and no headers
does not, as nothing in it tells the parser where its body ends. -/
theorem response_not_parsedBack :
    ¬ ∀ (version : HttpVersion) (status : HttpStatus) (calls : List (Setter ResponseFields)),
      let r := builtResponse Heap.none version status calls
      (∀ c ∈ calls, c.Legal) → r.2.own.Legal →
        ParsesBack HTTP_MAX_HEADER_SIZE false (r.2.buildString r.1)
          (r.1.parsers r.2.parser) := by
  intro h
  let r := builtResponse Heap.none .HTTP_1_1 .HTTP_STATUS_OK []
  have hown : r.2.own.Legal := ⟨nofun, by decide⟩
  have hset : WellSet (r.1.parsers r.2.parser) := wellSet_alloc Heap.none false
  obtain ⟨y, hline, -⟩ := lineRead_response HTTP_MAX_HEADER_SIZE hown
  have hback := h .HTTP_1_1 .HTTP_STATUS_OK [] (fun _ hc => absurd hc List.not_mem_nil) hown
  have hcomplete := hback.complete
  rw [buildString_eq] at hcomplete
  have hentries : (r.1.parsers r.2.parser).headers.entries = [] := by decide +kernel
  have hno := hline.response_without_length hset (by decide +kernel) (by decide +kernel)
    fun e he => absurd (hentries ▸ he) List.not_mem_nil
  exact Bool.false_ne_true (hno.symm.trans hcomplete)

end Http
end Net
end Sevent
