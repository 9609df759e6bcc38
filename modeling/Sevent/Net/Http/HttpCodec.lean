/-
# `HttpCodec` with the state of `http_parser`

`sevent/net/http/HttpCodec.cpp`, `sevent/net/http/HttpParser.cpp`,
`sevent/net/http/HttpResponseCodec.cpp`.

In `Net/Http/HttpParser` a parser is always at the beginning of a message when
it is run.  Here the `http_parser` keeps what earlier calls have left in it, and
may be run a second time on an end of file: `HttpResponseCodec::onClose` sets
the context `onClose` and calls `onMessage` once more, and there `execute` is
called with no bytes when the parser does not keep the connection alive.

`http_parser.c` is the parameter `Library`.  Every call of `http_parser_pause`
is logged with the `http_errno` it finds, as that function asserts that it finds
no error.  The lemmas here are about one round of the loop of `onMessage`: how
many bytes a complete message takes (`attempt_count`), and when a pause finds an
error (`clean_attempt`).
-/

import Sevent.Lib.Run
import Sevent.Net.Http.Message

namespace Sevent
namespace Net
namespace Http

/-- What a call of `http_parser_execute` does: the callbacks that it makes, each
with the parser and the result when the call ends there, and how it ends when no
callback fails or pauses the parser. -/
structure Run (P : Type*) where
  callbacks : List (Callback × P × ℕ)
  parser : P
  count : ℕ
  error : Option ℕ

/-- The functions of `http_parser.h` on a `http_parser` without its
`http_errno`; `http_parser_execute` on one that has no error. -/
structure Library (P : Type*) where
  http_parser_init : Bool → P
  http_parser_execute : P → Bytes → Run P
  http_should_keep_alive : P → Bool

/-- The error that `http_parser_execute` ends with by itself. -/
def errnoOf : Option ℕ → HttpErrno
  | none => .HPE_OK
  | some code => .HPE_INVALID code

/-- What the codec relies on, for a parser that has just been initialized: where
a message completes in some bytes, at least one of them has been parsed and at
most all, and without an error and a complete message all have been parsed. -/
structure Library.Sound {P : Type*} (lib : Library P) (isRequest : Bool) : Prop where
  complete : ∀ data ≠ [],
    ∀ e ∈ (lib.http_parser_execute (lib.http_parser_init isRequest) data).callbacks,
      e.1 = .notify .on_message_complete → 1 ≤ e.2.2 ∧ e.2.2 ≤ data.length
  rest : ∀ data,
    (∀ e ∈ (lib.http_parser_execute (lib.http_parser_init isRequest) data).callbacks,
      e.1 ≠ .notify .on_message_complete) →
    (lib.http_parser_execute (lib.http_parser_init isRequest) data).error = none →
      (lib.http_parser_execute (lib.http_parser_init isRequest) data).count = data.length

namespace Codec

variable {P : Type*}

/-- `HttpParser` with its `http_parser`. -/
structure Parser (P : Type*) extends HttpParser where
  parser : P

/-- The parser after a call of `execute`, its result, and what the calls of
`http_parser_pause` have found. -/
structure Executed (P : Type*) where
  parser : Parser P
  count : ℕ
  pauses : List HttpErrno

namespace Parser

/-- The constructor. -/
def init (lib : Library P) (isrequest : Bool) : Parser P :=
  { HttpParser.init isrequest with parser := lib.http_parser_init isrequest }

/-- `HttpParser::isComplete`. -/
def isComplete (p : Parser P) : Bool := p.toHttpParser.isComplete

/-- `HttpParser::isParsing`. -/
def isParsing (p : Parser P) : Bool := p.state = .parsing

/-- `HttpParser::reset`: the state, the error and the `http_parser` are as in a
new parser, and the contents stay. -/
def reset (lib : Library P) (p : Parser P) : Parser P :=
  { p.toHttpParser.reset with parser := lib.http_parser_init p.request }

/-- The callbacks of a call of `http_parser_execute`, up to the first that fails
or pauses the parser. -/
def runCallbacks (p : HttpParser) (r : Run P) : List (Callback × P × ℕ) → Executed P
  | [] => ⟨{ p with http_errno := errnoOf r.error, parser := r.parser }, r.count, []⟩
  | (cb, parser, count) :: cbs =>
    let q := p.call cb
    let pauses := if cb = .notify .on_message_complete then [p.http_errno] else []
    if q.http_errno = .HPE_OK then
      let e := runCallbacks q r cbs
      { e with pauses := pauses ++ e.pauses }
    else ⟨{ q with parser := parser }, count, pauses⟩

/-- What `execute` does before `http_parser_execute`. -/
def start (p : Parser P) : HttpParser :=
  HttpParser.unpause { p.toHttpParser with state := .parsing }

/-- `HttpParser::execute`. -/
def execute (lib : Library P) (p : Parser P) (data : Bytes) : Executed P :=
  if p.start.http_errno = .HPE_OK then
    let r := lib.http_parser_execute p.parser data
    let e := runCallbacks p.start r r.callbacks
    { e with pauses := p.http_errno :: e.pauses }
  else ⟨{ p.start with parser := p.parser }, 0, [p.http_errno]⟩

/-- The calls of `execute` in one round of `onMessage`: the second one is for
the end of the file. -/
def attempt (lib : Library P) (onClose : Bool) (p : Parser P) (data : Bytes) : Executed P :=
  let e := p.execute lib data
  if onClose && !lib.http_should_keep_alive e.parser.parser then
    let e' := e.parser.execute lib []
    { parser := e'.parser, count := e.count, pauses := e.pauses ++ e'.pauses }
  else e

end Parser

/-- A connection: its input buffer, the contexts `HttpParser` and `onClose`,
whether `onMessage` has called `shutdown`, the messages handed over with the
bytes retrieved for each, and what `http_parser_pause` has found so far. -/
structure Conn (P : Type*) where
  inputBuf : Bytes
  parser : Parser P
  onClose : Bool
  shutdown : Bool
  handed : List (Bytes × HttpParser)
  pauses : List HttpErrno

/-- `HttpCodec::onConnection`. -/
def onConnection (lib : Library P) (isRequest : Bool) : Conn P where
  inputBuf := []
  parser := .init lib isRequest
  onClose := false
  shutdown := false
  handed := []
  pauses := []

/-- The loop of `HttpCodec::onMessage`, `none` when it takes more rounds than
the bound.  Returns `parserList`, each with the bytes retrieved for it. -/
def parseLoop (lib : Library P) (isRequest : Bool) :
    ℕ → Conn P → Option (Conn P × List (Bytes × HttpParser))
  | 0, _ => none
  | fuel + 1, conn =>
    if conn.inputBuf = [] then some (conn, [])
    else
      let e := conn.parser.attempt lib conn.onClose conn.inputBuf
      let conn := { conn with pauses := conn.pauses ++ e.pauses }
      if e.parser.isComplete then
        (parseLoop lib isRequest fuel
          { conn with
            inputBuf := conn.inputBuf.drop e.count
            parser := .init lib isRequest }).map fun r =>
          (r.1, (conn.inputBuf.take e.count, e.parser.toHttpParser) :: r.2)
      else
        some ({ conn with
          parser := e.parser.reset lib
          shutdown := conn.shutdown || e.parser.getErr != .HPE_OK }, [])

/-- `HttpCodec::onMessage`.  The bound is never reached. -/
def onMessage (lib : Library P) (isRequest : Bool) (conn : Conn P) : Option (Conn P) :=
  (parseLoop lib isRequest (conn.inputBuf.length + 1) conn).map fun r =>
    { r.1 with handed := r.1.handed ++ r.2 }

/-- `HttpResponseCodec::onClose`; `HttpRequestCodec` has none. -/
def onClose (lib : Library P) (isRequest : Bool) (conn : Conn P) : Option (Conn P) :=
  if isRequest then some conn
  else if conn.parser.isParsing then onMessage lib isRequest { conn with onClose := true }
  else some conn

/-- What happens to a connection: bytes come into the buffer, and the two
callbacks are called. -/
inductive Call
  | input (data : Bytes)
  | onMessage
  | onClose
  deriving DecidableEq, Repr

/-- What a call does to the connection; `none` is a loop that comes to its
bound. -/
def step (lib : Library P) (isRequest : Bool) (conn : Conn P) : Call → Option (Conn P)
  | .input data => some { conn with inputBuf := conn.inputBuf ++ data }
  | .onMessage => onMessage lib isRequest conn
  | .onClose => onClose lib isRequest conn

/-! ### Parsers that differ in their contents only -/

/-- Nothing that decides the outcome of `http_parser_execute` differs. -/
structure Same (p q : HttpParser) : Prop where
  state : p.state = q.state
  http_errno : p.http_errno = q.http_errno

/-- A callback keeps two parsers the same that only differ in their contents. -/
theorem Same.call {p q : HttpParser} (h : Same p q) (cb : Callback) :
    Same (p.call cb) (q.call cb) := by
  obtain ⟨hstate, herrno⟩ := h
  rcases cb with ⟨_ | _ | _ | _ | _, text⟩ | _ | _ | _ | _ | _
  case data.on_url =>
    cases hurl : http_parser_parse_url text false with
    | none =>
      rw [p.call_url_none hurl, q.call_url_none hurl]
      exact ⟨hstate, rfl⟩
    | some u =>
      constructor <;> cases hp : p.request <;> cases hq : q.request <;>
        simp [HttpParser.call, HttpParser.on_url, hurl, hp, hq, hstate, herrno]
  all_goals constructor <;> first | rfl | exact hstate | exact herrno

/-- The same outcome of a call of `execute`. -/
structure Alike (e e' : Executed P) : Prop where
  same : Same e.parser.toHttpParser e'.parser.toHttpParser
  parser : e.parser.parser = e'.parser.parser
  count : e.count = e'.count
  pauses : e.pauses = e'.pauses

/-- A round of callbacks ends alike for two parsers that only differ in their
contents. -/
theorem alike_runCallbacks {p q : HttpParser} (h : Same p q) (r : Run P)
    (cbs : List (Callback × P × ℕ)) :
    Alike (Parser.runCallbacks p r cbs) (Parser.runCallbacks q r cbs) := by
  induction cbs generalizing p q with
  | nil => exact ⟨⟨h.state, rfl⟩, rfl, rfl, rfl⟩
  | cons e cbs ih =>
    obtain ⟨cb, parser, count⟩ := e
    have hcall := h.call cb
    unfold Parser.runCallbacks
    dsimp only
    rw [h.http_errno, hcall.http_errno]
    by_cases hok : (q.call cb).http_errno = .HPE_OK
    · rw [if_pos hok, if_pos hok]
      have hrest := ih hcall
      exact ⟨hrest.same, hrest.parser, hrest.count, congrArg (List.append _) hrest.pauses⟩
    · rw [if_neg hok, if_neg hok]
      exact ⟨⟨hcall.state, hcall.http_errno⟩, rfl, rfl, rfl⟩

/-- A round begins with the parser parsing, and a pause of an earlier round
taken back. -/
theorem start_spec (p : Parser P) : p.start.state = .parsing ∧
    p.start.http_errno = if p.http_errno = .HPE_PAUSED then .HPE_OK else p.http_errno := by
  unfold Parser.start HttpParser.unpause
  dsimp only
  split_ifs <;> exact ⟨rfl, rfl⟩

/-- Two parsers with the same error begin a round the same. -/
theorem same_start {p q : Parser P} (herrno : p.http_errno = q.http_errno) :
    Same p.start q.start := by
  refine ⟨(start_spec p).1.trans (start_spec q).1.symm, ?_⟩
  rw [(start_spec p).2, (start_spec q).2, herrno]

/-- The contents of a parser do not show in a call of `execute`. -/
theorem alike_execute (lib : Library P) {p q : Parser P} (herrno : p.http_errno = q.http_errno)
    (hparser : p.parser = q.parser) (data : Bytes) :
    Alike (p.execute lib data) (q.execute lib data) := by
  have hsame := same_start herrno
  unfold Parser.execute
  rw [hsame.http_errno, herrno, hparser]
  by_cases hok : q.start.http_errno = .HPE_OK
  · have hrun := alike_runCallbacks hsame (lib.http_parser_execute q.parser data)
      (lib.http_parser_execute q.parser data).callbacks
    rw [if_pos hok, if_pos hok]
    exact ⟨hrun.same, hrun.parser, hrun.count, congrArg (List.cons _) hrun.pauses⟩
  · rw [if_neg hok, if_neg hok]
    exact ⟨hsame, rfl, rfl, rfl⟩

/-- A round ends alike for two parsers with the same error and the same
`http_parser`, whatever their contents are. -/
theorem alike_attempt (lib : Library P) (onClose : Bool) {p q : Parser P}
    (herrno : p.http_errno = q.http_errno) (hparser : p.parser = q.parser) (data : Bytes) :
    Alike (p.attempt lib onClose data) (q.attempt lib onClose data) := by
  have hfirst := alike_execute lib herrno hparser data
  have hsecond := alike_execute lib hfirst.same.http_errno hfirst.parser []
  unfold Parser.attempt
  dsimp only
  rw [hfirst.parser]
  split_ifs
  · refine ⟨hsecond.same, hsecond.parser, hfirst.count, ?_⟩
    dsimp only
    rw [hfirst.pauses, hsecond.pauses]
  · exact hfirst

/-! ### How a call of `execute` ends -/

/-- With a complete message and a paused parser, or still parsing: then the
parser is not paused, and without an error the whole of `http_parser_execute`
has run and met no end of a message. -/
inductive Ends (r : Run P) (cbs : List (Callback × P × ℕ)) (e : Executed P) : Prop
  | complete (hstate : e.parser.state = .completed) (herrno : e.parser.http_errno = .HPE_PAUSED)
      (hcount : ∃ x ∈ cbs, x.1 = .notify .on_message_complete ∧ e.count = x.2.2)
  | parsing (hstate : e.parser.state = .parsing) (herrno : e.parser.http_errno ≠ .HPE_PAUSED)
      (hrest : e.parser.http_errno = .HPE_OK →
        (∀ x ∈ cbs, x.1 ≠ .notify .on_message_complete) ∧ r.error = none ∧ e.count = r.count)

/-- A callback other than `on_message_complete` does not pause the parser. -/
theorem call_not_paused (p : HttpParser) {cb : Callback} (hcb : cb ≠ .notify .on_message_complete)
    (hp : p.http_errno = .HPE_OK) : (p.call cb).http_errno ≠ .HPE_PAUSED := by
  rcases cb with ⟨_ | _ | _ | _ | _, text⟩ | _ | _ | _ | _ | _
  case data.on_url =>
    cases hurl : http_parser_parse_url text false with
    | none => simp [p.call_url_none hurl]
    | some u => cases hr : p.request <;> simp [HttpParser.call, HttpParser.on_url, hurl, hr, hp]
  case notify.on_message_complete => exact absurd rfl hcb
  all_goals simp [HttpParser.call, HttpParser.on_header_field, HttpParser.on_header_value,
    HttpParser.on_body, hp]

/-- How the callbacks of a round end: at the first that fails or pauses the
parser, or with all of them. -/
theorem runCallbacks_spec {p : HttpParser} (hstate : p.state = .parsing)
    (hp : p.http_errno = .HPE_OK) (r : Run P) (cbs : List (Callback × P × ℕ)) :
    Ends r cbs (Parser.runCallbacks p r cbs) ∧
      ∀ x ∈ (Parser.runCallbacks p r cbs).pauses, x = .HPE_OK := by
  induction cbs generalizing p with
  | nil =>
    refine ⟨.parsing hstate ?_ fun herrno => ⟨by simp, ?_, rfl⟩, by simp [Parser.runCallbacks]⟩
    · rcases hr : r.error with _ | code <;> simp [Parser.runCallbacks, hr, errnoOf]
    · rcases hr : r.error with _ | code
      · rfl
      · simp [Parser.runCallbacks, hr, errnoOf] at herrno
  | cons x cbs ih =>
    obtain ⟨cb, parser, count⟩ := x
    unfold Parser.runCallbacks
    dsimp only
    by_cases hcb : cb = .notify .on_message_complete
    · subst hcb
      have hpaused : (p.call (.notify .on_message_complete)).http_errno = .HPE_PAUSED := rfl
      rw [if_neg (by rw [hpaused]; exact HttpErrno.noConfusion), if_pos rfl]
      exact ⟨.complete rfl hpaused ⟨_, List.mem_cons_self, rfl, rfl⟩, by simp [hp]⟩
    · have hcall := p.call_state cb hcb
      rw [if_neg hcb]
      by_cases hok : (p.call cb).http_errno = .HPE_OK
      · rw [if_pos hok]
        obtain ⟨hends, hpauses⟩ := ih (hcall.trans hstate) hok
        refine ⟨?_, hpauses⟩
        cases hends with
        | complete hs he hc =>
          obtain ⟨x, hx, hcomplete, hcount⟩ := hc
          exact .complete hs he ⟨x, List.mem_cons_of_mem _ hx, hcomplete, hcount⟩
        | parsing hs he hrest =>
          refine .parsing hs he fun herrno => ?_
          obtain ⟨hnone, herr, hcount⟩ := hrest herrno
          exact ⟨List.forall_mem_cons.2 ⟨hcb, hnone⟩, herr, hcount⟩
      · rw [if_neg hok]
        refine ⟨.parsing (hcall.trans hstate) (call_not_paused p hcb hp) fun herrno => ?_, by simp⟩
        exact absurd herrno hok

/-- A call of `execute` on a parser that has no error once it is unpaused. -/
theorem execute_spec (lib : Library P) {p : Parser P} (hp : p.start.http_errno = .HPE_OK)
    (data : Bytes) :
    Ends (lib.http_parser_execute p.parser data)
        (lib.http_parser_execute p.parser data).callbacks (p.execute lib data) ∧
      ∀ x ∈ (p.execute lib data).pauses, x = p.http_errno ∨ x = .HPE_OK := by
  unfold Parser.execute
  rw [if_pos hp]
  obtain ⟨hends, hpauses⟩ := runCallbacks_spec (start_spec p).1 hp
    (lib.http_parser_execute p.parser data) (lib.http_parser_execute p.parser data).callbacks
  refine ⟨?_, List.forall_mem_cons.2 ⟨Or.inl rfl, fun x hx => Or.inr (hpauses x hx)⟩⟩
  cases hends with
  | complete hs he hc => exact .complete hs he hc
  | parsing hs he hrest => exact .parsing hs he hrest

/-- On a parser with an error `execute` does nothing. -/
theorem execute_of_error (lib : Library P) {p : Parser P} (hok : p.http_errno ≠ .HPE_OK)
    (hpaused : p.http_errno ≠ .HPE_PAUSED) (data : Bytes) :
    (p.execute lib data).parser.state = .parsing ∧
      (p.execute lib data).parser.http_errno = p.http_errno ∧
      (p.execute lib data).pauses = [p.http_errno] := by
  have hstart : p.start.http_errno = p.http_errno := by
    rw [(start_spec p).2, if_neg hpaused]
  unfold Parser.execute
  rw [if_neg (hstart ▸ hok)]
  exact ⟨(start_spec p).1, hstart, rfl⟩

/-! ### One round of the loop -/

/-- `http_parser_pause` has found no error. -/
def Clean (pauses : List HttpErrno) : Prop := ∀ x ∈ pauses, x = .HPE_OK ∨ x = .HPE_PAUSED

/-- A new parser fails in these bytes, and `onMessage` calls `execute` again all
the same, for the end of the file. -/
def Stuck (lib : Library P) (isRequest onClose : Bool) (data : Bytes) : Prop :=
  let e := (Parser.init lib isRequest).execute lib data
  onClose = true ∧ data ≠ [] ∧ lib.http_should_keep_alive e.parser.parser = false ∧
    e.parser.http_errno ≠ .HPE_OK ∧ e.parser.http_errno ≠ .HPE_PAUSED

/-- The pauses of two rounds are clean when those of each are. -/
theorem clean_append {a b : List HttpErrno} : Clean (a ++ b) ↔ Clean a ∧ Clean b :=
  List.forall_mem_append

/-- A parser without an error other than a pause begins a round without one. -/
theorem start_errno (p : Parser P) (h : p.http_errno = .HPE_OK ∨ p.http_errno = .HPE_PAUSED) :
    p.start.http_errno = .HPE_OK := by
  rw [(start_spec p).2]
  rcases h with h | h
  · rw [if_neg (h ▸ HttpErrno.noConfusion), h]
  · rw [if_pos h]

/-- A call of such a parser finds nothing but a running or a paused one to
pause. -/
theorem clean_execute (lib : Library P) (p : Parser P)
    (h : p.http_errno = .HPE_OK ∨ p.http_errno = .HPE_PAUSED) (data : Bytes) :
    Clean (p.execute lib data).pauses := by
  intro x hx
  rcases (execute_spec lib (start_errno p h) data).2 x hx with rfl | rfl
  · exact h
  · exact Or.inl rfl

section Round

variable {lib : Library P} {isRequest : Bool} (hlib : lib.Sound isRequest) (onClose : Bool)
  {data : Bytes} (hdata : data ≠ [])
include hlib hdata

/-- A message that completes takes a byte at least. -/
theorem attempt_count
    (hcomplete : ((Parser.init lib isRequest).attempt lib onClose data).parser.isComplete = true) :
    1 ≤ ((Parser.init lib isRequest).attempt lib onClose data).count ∧
      ((Parser.init lib isRequest).attempt lib onClose data).count ≤ data.length := by
  have hfirst := (execute_spec lib (start_errno (Parser.init lib isRequest) (Or.inl rfl)) data).1
  have hlen := List.length_pos_iff.2 hdata
  have hcount : ((Parser.init lib isRequest).attempt lib onClose data).count =
      ((Parser.init lib isRequest).execute lib data).count := by
    unfold Parser.attempt
    dsimp only
    split_ifs <;> rfl
  rw [hcount]
  cases hfirst with
  | complete _ _ hc =>
    obtain ⟨x, hx, hmem, hcount⟩ := hc
    rw [hcount]
    exact hlib.complete data hdata x hx hmem
  | parsing hs he hrest =>
    by_cases hok : ((Parser.init lib isRequest).execute lib data).parser.http_errno = .HPE_OK
    · -- only the end of the file completes it
      obtain ⟨hnone, herr, hcount⟩ := hrest hok
      rw [hcount.trans (hlib.rest data hnone herr)]
      exact ⟨hlen, Nat.le_refl _⟩
    · have hstate : ((Parser.init lib isRequest).attempt lib onClose data).parser.state =
          .parsing := by
        unfold Parser.attempt
        dsimp only
        split_ifs
        · exact (execute_of_error lib hok he []).1
        · exact hs
      exact absurd (of_decide_eq_true hcomplete) (by rw [hstate]; exact Status.noConfusion)

omit hlib in
/-- When `http_parser_pause` finds an error in a round. -/
theorem clean_attempt : Clean ((Parser.init lib isRequest).attempt lib onClose data).pauses ↔
    ¬ Stuck lib isRequest onClose data := by
  have hclean := clean_execute lib (Parser.init lib isRequest) (Or.inl rfl) data
  unfold Stuck
  by_cases hagain : onClose = true ∧ lib.http_should_keep_alive
      ((Parser.init lib isRequest).execute lib data).parser.parser = false
  · have hpauses : ((Parser.init lib isRequest).attempt lib onClose data).pauses =
        ((Parser.init lib isRequest).execute lib data).pauses ++
          (((Parser.init lib isRequest).execute lib data).parser.execute lib []).pauses := by
      simp [Parser.attempt, hagain.1, hagain.2]
    rw [hpauses, clean_append]
    by_cases herr : ((Parser.init lib isRequest).execute lib data).parser.http_errno ≠ .HPE_OK ∧
        ((Parser.init lib isRequest).execute lib data).parser.http_errno ≠ .HPE_PAUSED
    · refine iff_of_false (fun h => ?_) (not_not.2 ⟨hagain.1, hdata, hagain.2, herr⟩)
      have hsecond := h.2
      rw [(execute_of_error lib herr.1 herr.2 []).2.2] at hsecond
      exact (hsecond _ List.mem_cons_self).elim herr.1 herr.2
    · refine iff_of_true ⟨hclean, clean_execute lib _ ?_ []⟩ fun h => herr h.2.2.2
      by_contra hnone
      exact herr (not_or.1 hnone)
  · have hsame : (Parser.init lib isRequest).attempt lib onClose data =
        (Parser.init lib isRequest).execute lib data := by
      unfold Parser.attempt
      refine if_neg fun h => hagain ?_
      rw [Bool.and_eq_true, Bool.not_eq_true'] at h
      exact h
    rw [hsame]
    exact iff_of_true hclean fun h => hagain ⟨h.1, h.2.2.1⟩

omit hlib hdata in
/-- A round that completes a message is not stuck. -/
theorem not_stuck_of_complete
    (hcomplete : ((Parser.init lib isRequest).attempt lib onClose data).parser.isComplete = true) :
    ¬ Stuck lib isRequest onClose data := by
  rintro ⟨hon, -, hkeep, hok, hpaused⟩
  have hstate : ((Parser.init lib isRequest).attempt lib onClose data).parser.state =
      .parsing := by
    unfold Parser.attempt
    dsimp only
    rw [hon, hkeep]
    exact (execute_of_error lib hok hpaused []).1
  exact absurd (of_decide_eq_true hcomplete) (by rw [hstate]; exact Status.noConfusion)

end Round

end Codec

end Http
end Net
end Sevent
