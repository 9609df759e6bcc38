/-
# A whole message in a new `HttpParser`

`parse` is `HttpParser::execute` with the `http_parser` of `HttpParserExecute`,
on a new parser.  A message is a first line that has been read (`LineRead`), its
header lines and its body (`messageBytes`); `LineRead.run` and `LineRead.fails`
say which callbacks are made, and `parse_complete` and `parse_incomplete` what
they leave in the parser.
-/

import Sevent.Net.Http.HttpParserEnd
import Sevent.Net.Http.HttpParserHeaders

namespace Sevent
namespace Net
namespace Http

/-! ### A new parser -/

/-- A new `HttpParser` after the bytes. -/
def parse (max_header_size : UInt32) (isRequest : Bool) (data : Bytes) : Codec.Executed CParser :=
  (Codec.Parser.init (httpParser max_header_size) isRequest).execute (httpParser max_header_size)
    data

/-- What `http_parser_execute` does in it. -/
def parseRun (max_header_size : UInt32) (isRequest : Bool) (data : Bytes) : Run CParser :=
  (httpParser max_header_size).http_parser_execute (http_parser_init isRequest) data

/-- How many messages are complete. -/
def completions (r : Run CParser) : ℕ :=
  r.callbacks.countP fun e => e.1 = .notify .on_message_complete

/-- The parser when `http_parser_execute` is called. -/
def started (isRequest : Bool) : HttpParser := { HttpParser.init isRequest with state := .parsing }

variable {M : UInt32} {isRequest : Bool} {data body : Bytes} {cbs : List Callback} {n : ℕ}
  {q : CParser} {hs : List (Bytes × Bytes)}

theorem parse_eq (M : UInt32) (isRequest : Bool) (data : Bytes) : parse M isRequest data =
    { Codec.Parser.runCallbacks (started isRequest) (parseRun M isRequest data)
        (parseRun M isRequest data).callbacks with
      pauses := .HPE_OK :: (Codec.Parser.runCallbacks (started isRequest)
        (parseRun M isRequest data) (parseRun M isRequest data).callbacks).pauses } := rfl

/-- The callbacks of a message are all made, and the last one pauses the parser. -/
theorem runCallbacks_complete {p : HttpParser} (hp : p.http_errno = .HPE_OK) (r : Run CParser)
    {calls : List (Callback × CParser × ℕ)} (hcalls : ∀ e ∈ calls, Passes e.1) (parser : CParser)
    (n : ℕ) : Codec.Parser.runCallbacks p r
        (calls ++ [(.notify .on_message_complete, parser, n)]) =
      ⟨{ ((calls.map Prod.fst).foldl HttpParser.call p).on_message_complete with parser := parser },
        n, [.HPE_OK]⟩ := by
  induction calls generalizing p with
  | nil =>
    have hpaused : (p.call (.notify .on_message_complete)).http_errno ≠ .HPE_OK := nofun
    rw [List.nil_append, Codec.Parser.runCallbacks]
    dsimp only
    rw [if_neg hpaused, if_pos rfl, hp]
    rfl
  | cons e calls ih =>
    obtain ⟨cb, parser', n'⟩ := e
    have hcb : Passes cb := hcalls _ List.mem_cons_self
    have hok := p.call_passes cb hcb hp
    have hne : cb ≠ .notify .on_message_complete := by
      rintro rfl
      exact hcb
    have hrest := ih hok fun e he => hcalls e (List.mem_cons_of_mem _ he)
    rw [List.cons_append, Codec.Parser.runCallbacks]
    dsimp only
    rw [if_pos hok, if_neg hne, hrest]
    rfl

/-- **What a complete message leaves in a new parser.** -/
theorem parse_complete (h : Completes (parseRun M isRequest data) cbs n q)
    (hcbs : ∀ cb ∈ cbs, Passes cb) :
    (parse M isRequest data).parser.isComplete = true ∧ (parse M isRequest data).count = n ∧
      completions (parseRun M isRequest data) = 1 ∧
      (parse M isRequest data).parser.body = bodyOf cbs ∧
      (parse M isRequest data).parser.headers =
        KeyMap.setAll stricmpKey .empty (headerPairs [] cbs) ∧
      (parse M isRequest data).parser.parser.method = q.method ∧
      (parse M isRequest data).parser.parser.status_code = q.status_code := by
  obtain ⟨calls, parser, hcalls, rfl, hmethod, hstatus⟩ := h
  have hpasses : ∀ e ∈ calls, Passes e.1 := fun e he => hcbs e.1 (List.mem_map_of_mem he)
  have hrun := runCallbacks_complete (p := started isRequest) rfl (parseRun M isRequest data)
    hpasses parser n
  have hone : completions (parseRun M isRequest data) = 1 := by
    have hnone : calls.countP (fun e => decide (e.1 = .notify .on_message_complete)) = 0 := by
      refine List.countP_eq_zero.2 fun e he => ?_
      rw [decide_eq_true_eq]
      intro heq
      have hno := hpasses e he
      rw [heq] at hno
      exact hno
    unfold completions
    rw [hcalls, List.countP_append, hnone]
    rfl
  rw [parse_eq, hcalls, hrun]
  refine ⟨rfl, rfl, hone, ?_, ?_, hmethod, hstatus⟩
  · exact (HttpParser.foldl_call_body _ _).trans (List.nil_append _)
  · exact HttpParser.foldl_call_headers _ _

/-- Without the last callback the message is not complete. -/
theorem parse_incomplete (h : NoneComplete (parseRun M isRequest data).callbacks) :
    (parse M isRequest data).parser.isComplete = false := by
  have hends := (Codec.runCallbacks_spec (p := started isRequest) rfl rfl
    (parseRun M isRequest data) (parseRun M isRequest data).callbacks).1
  rw [parse_eq]
  cases hends with
  | complete _ _ hcount =>
    obtain ⟨e, he, hcomplete, -⟩ := hcount
    exact absurd hcomplete (h e he)
  | parsing hstate _ _ =>
    unfold Codec.Parser.isComplete HttpParser.isComplete
    dsimp only
    rw [hstate]
    rfl

/-! ### A message with its headers -/

/-- The first line of a message has been read, and its callback does not stop
the parser. -/
structure LineRead (M : UInt32) (isRequest : Bool) (line : Bytes) (first : Callback)
    (y : Exec) : Prop where
  reads : Exec.Reads M.toNat (.init (http_parser_init isRequest)) line y
  begun : Exec.Begun y isRequest [.notify .on_message_begin, first]
  first : (∃ url, first = .data .on_url url ∧ (http_parser_parse_url url false).isSome = true) ∨
    ∃ reason, first = .data .on_status reason
  method : y.parser.method ≠ .HTTP_CONNECT
  status : y.parser.status_code / 100 ≠ 1 ∧ y.parser.status_code ≠ 204 ∧ y.parser.status_code ≠ 304

variable {line : Bytes} {first : Callback} {y : Exec}

/-- The callbacks of a message. -/
def messageCalls (first : Callback) (hs : List (Bytes × Bytes)) (body : Bytes) : List Callback :=
  [.notify .on_message_begin, first] ++ hs.flatMap headerCallbacks ++
    [.notify .on_headers_complete] ++ Exec.bodyCalls body

/-- The bytes of a message. -/
def messageBytes (line : Bytes) (hs : List (Bytes × Bytes)) (body : Bytes) : Bytes :=
  line ++ (hs.flatMap headerLine ++ CR :: LF :: body)

theorem LineRead.quiet (h : LineRead M isRequest line first y) :
    .notify .on_message_complete ∉ [Callback.notify .on_message_begin, first] := by
  rcases h.first with ⟨url, rfl, -⟩ | ⟨reason, rfl⟩ <;> simp

theorem LineRead.plain (h : LineRead M isRequest line first y) : Plain y.parser :=
  ⟨by rw [h.begun.flags]; rfl, by rw [h.begun.flags]; rfl, by rw [h.begun.flags]; rfl, h.method,
    h.status⟩

theorem LineRead.lineStart (h : LineRead M isRequest line first y) :
    Exec.LineStart y y.parser [.notify .on_message_begin, first] := by
  have hparser : y.parser = y.parser.inState .s_header_field_start := by
    rw [← h.begun.state]
    rfl
  refine ⟨h.begun.inner, by rw [h.begun.state]; rfl, fun M ch _ _ => ?_⟩
  refine ⟨{ y with nread := y.nread + 1 }, ⟨hparser, h.begun.mark, h.begun.inner, h.begun.round,
    h.begun.calls, h.quiet⟩, rfl, rfl, ?_⟩
  unfold Exec.switch
  rw [h.begun.state]

/-- The parser reads the whole of it. -/
theorem parseRun_message (M : UInt32) (isRequest : Bool) (line : Bytes) (hs : List (Bytes × Bytes))
    (body : Bytes) : parseRun M isRequest (messageBytes line hs body) =
      (Exec.init (http_parser_init isRequest)).run M.toNat (messageBytes line hs body) := by
  refine if_neg fun hnil => ?_
  unfold messageBytes at hnil
  simp at hnil

theorem length_messageBytes (line : Bytes) (hs : List (Bytes × Bytes)) (body : Bytes) :
    (messageBytes line hs body).length =
      line.length + (hs.flatMap headerLine).length + 2 + body.length := by
  unfold messageBytes
  simp only [List.length_append, List.length_cons]
  omega

theorem LineRead.nread (h : LineRead M isRequest line first y) :
    y.nread = line.length ∧ y.pos = line.length := by
  refine ⟨h.reads.nread.trans ?_, h.reads.pos.trans ?_⟩ <;> cases isRequest <;>
    exact Nat.zero_add _

/-- What decides how the body is read is that of the first line and of the
length. -/
theorem plain_of_framing {p : CParser} {b : Bool} (hp : Plain p)
    (h : q.framing = { p.framing with content_length := n, F_CONTENTLENGTH := b }) :
    Plain q ∧ q.method = p.method ∧ q.status_code = p.status_code := by
  have hmethod : q.method = p.method := congrArg CParser.Framing.method h
  have hstatus : q.status_code = p.status_code := congrArg CParser.Framing.status_code h
  refine ⟨⟨(congrArg CParser.Framing.F_CHUNKED h).trans hp.chunked,
    (congrArg CParser.Framing.F_TRAILING h).trans hp.trailing,
    (congrArg CParser.Framing.F_SKIPBODY h).trans hp.skipbody, ?_, ?_⟩, hmethod, hstatus⟩
  · rw [hmethod]
    exact hp.method
  · rw [hstatus]
    exact hp.status

/-- **A message that fits** completes at its last byte, or not at all. -/
theorem LineRead.run (h : LineRead M isRequest line first y)
    (hitems : ∀ item ∈ hs, IsHeader item) (hq : y.parser.lines hs = some q) (hplain : Plain q)
    (hfit : (messageBytes line hs body).length ≤ M.toNat + body.length)
    (hbody : body ≠ [] → q.flags.F_CONTENTLENGTH = true ∧ q.content_length = body.length ∧
      body.length < ULLONG_MAX) :
    (q.Delivers body → Completes (parseRun M isRequest (messageBytes line hs body))
      (messageCalls first hs body) (messageBytes line hs body).length q) ∧
    (¬ q.Delivers body →
      NoneComplete (parseRun M isRequest (messageBytes line hs body)).callbacks) := by
  obtain ⟨hnread, hpos⟩ := h.nread
  have hlen := length_messageBytes line hs body
  have hfit' : y.nread + (hs.flatMap headerLine).length + 2 ≤ M.toNat := by omega
  have hcount : (messageBytes line hs body).length =
      y.pos + (hs.flatMap headerLine).length + 2 + body.length := by rw [hlen, hpos]
  rw [parseRun_message, hcount]
  exact Exec.run_headers M.toNat_lt h.reads h.lineStart hitems hfit' hq hplain hbody

/-- **A message with an error in its headers** does not complete. -/
theorem LineRead.fails (h : LineRead M isRequest line first y)
    (hitems : ∀ item ∈ hs, IsHeader item)
    (hlen : (messageBytes line hs body).length < 2 ^ 32 + body.length)
    (hbad : M.toNat + body.length < (messageBytes line hs body).length ∨
      y.parser.lines hs = none) :
    NoneComplete (parseRun M isRequest (messageBytes line hs body)).callbacks := by
  have hnread := h.nread.1
  rw [length_messageBytes] at hlen hbad
  have hnone : NoneComplete (Exec.init (http_parser_init isRequest)).calls :=
    fun _ he => absurd he List.not_mem_nil
  have hbad' : M.toNat < y.nread + (hs.flatMap headerLine).length + 2 ∨
      y.parser.lines hs = none := hbad.imp_left fun hlong => by omega
  rw [parseRun_message]
  exact Exec.noneComplete_headers M.toNat_lt h.reads h.lineStart hitems hnone (by omega) hbad'

/-- The field name of a value is the one before it. -/
theorem headerPairs_lines (field : Bytes) {rest : List Callback}
    (hrest : ∀ g, headerPairs g rest = []) :
    headerPairs field (hs.flatMap headerCallbacks ++ rest) = hs := by
  induction hs generalizing field with
  | nil => exact hrest field
  | cons item hs ih => exact congrArg (item :: ·) (ih item.1)

theorem bodyOf_lines (hs : List (Bytes × Bytes)) : bodyOf (hs.flatMap headerCallbacks) = [] := by
  induction hs with
  | nil => rfl
  | cons item hs ih => exact ih

theorem LineRead.passes (h : LineRead M isRequest line first y) (hs : List (Bytes × Bytes))
    (body : Bytes) : ∀ cb ∈ messageCalls first hs body, Passes cb := by
  have hlines : ∀ cb ∈ hs.flatMap headerCallbacks, Passes cb := by
    intro cb hcb
    obtain ⟨item, -, hmem⟩ := List.mem_flatMap.1 hcb
    rcases List.mem_cons.1 hmem with rfl | hmem
    · trivial
    · obtain rfl := List.mem_singleton.1 hmem
      trivial
  have hbody : ∀ cb ∈ Exec.bodyCalls body, Passes cb := by
    unfold Exec.bodyCalls
    intro cb hcb
    split at hcb
    case isTrue => cases hcb
    case isFalse =>
      obtain rfl := List.mem_singleton.1 hcb
      trivial
  have hfirst : Passes first := by
    rcases h.first with ⟨url, rfl, hurl⟩ | ⟨reason, rfl⟩
    · exact hurl
    · trivial
  unfold messageCalls
  refine List.forall_mem_append.2 ⟨List.forall_mem_append.2 ⟨List.forall_mem_append.2
    ⟨?_, hlines⟩, ?_⟩, hbody⟩
  · exact List.forall_mem_cons.2 ⟨trivial, List.forall_mem_singleton.2 hfirst⟩
  · exact List.forall_mem_singleton.2 trivial

/-- The texts of a message are its headers and its body. -/
theorem LineRead.texts (h : LineRead M isRequest line first y) (hs : List (Bytes × Bytes))
    (body : Bytes) : bodyOf (messageCalls first hs body) = body ∧
      headerPairs [] (messageCalls first hs body) = hs := by
  have hbody : bodyOf (Exec.bodyCalls body) = body := by
    unfold Exec.bodyCalls
    split
    case isTrue hnil => rw [hnil]; rfl
    case isFalse => exact List.append_nil body
  have hrest : ∀ g, headerPairs g ([.notify .on_headers_complete] ++ Exec.bodyCalls body) = [] := by
    intro g
    unfold Exec.bodyCalls
    split <;> rfl
  have hfirst : bodyOf [Callback.notify .on_message_begin, first] = [] ∧
      ∀ rest, headerPairs [] ([Callback.notify .on_message_begin, first] ++ rest) =
        headerPairs [] rest := by
    rcases h.first with ⟨url, rfl, -⟩ | ⟨reason, rfl⟩ <;> exact ⟨rfl, fun rest => rfl⟩
  constructor
  · unfold messageCalls bodyOf at *
    simp only [List.flatMap_append, hfirst.1, hbody]
    rw [show (hs.flatMap headerCallbacks).flatMap Callback.body = [] from bodyOf_lines hs]
    rfl
  · unfold messageCalls
    rw [List.append_assoc, List.append_assoc, hfirst.2]
    exact headerPairs_lines [] hrest

end Http
end Net
end Sevent
