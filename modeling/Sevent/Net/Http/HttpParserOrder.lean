/-
# The order of the callbacks

`sevent/net/http/http-parser/http_parser.c`.

Whatever bytes `http_parser_execute` is given, in however many calls, it makes
its callbacks in the order of a message: `Phase.next` is what may come next.
So a header value comes after a field name, no header comes after
`on_headers_complete` but those of the trailer, and `on_message_complete` ends a
message that `on_message_begin` has begun.

`InPhase` says which phases belong to a state of the parser and the mark that is
set, and every branch of the `switch` keeps it (`holds_switch`), so a whole call
does (`called_run`), and the next one begins in a phase that fits again.

The same induction counts bytes: a message completes after at least one byte of
the call and at most all, and a call without an error and a complete message
takes all of them.  That is what `HttpCodec` relies on (`sound_httpParser`).
-/

import Sevent.Net.Http.HttpFraming
import Sevent.Net.Http.HttpParserFields
import Sevent.Net.Http.HttpParserFirstLine

namespace Sevent
namespace Net
namespace Http

/-! ### Phases of a message -/

/-- Where the callbacks of a message are; the headers after the chunks are the
trailer. -/
inductive Phase
  | idle
  | line
  | field (trailer : Bool)
  | value (trailer : Bool)
  | body
  | identity
  | chunk
  | chunk_data
  | chunk_done
  deriving DecidableEq, Repr

/-- The callbacks that may come next. -/
def Phase.next : Phase → Callback → Option Phase
  | .idle, .notify .on_message_begin => some .line
  | .line, .data .on_url _ => some .line
  | .line, .data .on_status _ => some .line
  | .line, .data .on_header_field _ => some (.field false)
  | .chunk, .data .on_header_field _ => some (.field true)
  | .field t, .data .on_header_field _ => some (.field t)
  | .value t, .data .on_header_field _ => some (.field t)
  | .field t, .data .on_header_value _ => some (.value t)
  | .value t, .data .on_header_value _ => some (.value t)
  | .line, .notify .on_headers_complete => some .body
  | .value false, .notify .on_headers_complete => some .body
  | .body, .data .on_body _ => some .identity
  | .identity, .data .on_body _ => some .identity
  | .body, .notify .on_chunk_header => some .chunk
  | .chunk_done, .notify .on_chunk_header => some .chunk
  | .chunk, .data .on_body _ => some .chunk_data
  | .chunk_data, .data .on_body _ => some .chunk_data
  | .chunk_data, .notify .on_chunk_complete => some .chunk_done
  | .chunk, .notify .on_chunk_complete => some .chunk_done
  | .value true, .notify .on_chunk_complete => some .chunk_done
  | .body, .notify .on_message_complete => some .idle
  | .identity, .notify .on_message_complete => some .idle
  | .chunk_done, .notify .on_message_complete => some .idle
  | _, _ => none

/-- The phase after some callbacks; `none` when one of them is out of order. -/
def Phase.after (ph : Phase) (cbs : List Callback) : Option Phase := cbs.foldlM Phase.next ph

/-- The phase behind two parts of the callbacks is that behind the second, begun
where the first one ends. -/
theorem Phase.after_append (ph : Phase) (a b : List Callback) :
    ph.after (a ++ b) = (ph.after a).bind fun ph => ph.after b := List.foldlM_append ..

/-- Before the first header of a section. -/
def Starts (trailer : Bool) (ph : Phase) : Prop :=
  ph = (if trailer then .chunk else .line) ∨ ph = .value trailer

/-- The phases that belong to a state with the flag `F_TRAILING` and a mark. -/
def InPhase (s : ParseState) (t : Bool) (m : Option DataCb) (ph : Phase) : Prop :=
  match s with
  | .s_start_req | .s_start_res | .url .s_dead => m = none ∧ ph = .idle
  | .url .s_req_spaces_before_url | .s_res_H | .s_res_HT | .s_res_HTT | .s_res_HTTP
  | .s_res_http_major | .s_res_http_dot | .s_res_http_minor | .s_res_http_end
  | .s_res_first_status_code | .s_res_status_code | .s_res_status_start | .s_res_line_almost_done
  | .s_req_method | .s_req_http_start | .s_req_http_H | .s_req_http_HT | .s_req_http_HTT
  | .s_req_http_HTTP | .s_req_http_I | .s_req_http_IC | .s_req_http_major | .s_req_http_dot
  | .s_req_http_minor | .s_req_http_end | .s_req_line_almost_done =>
    m = none ∧ ph = .line ∧ t = false
  | .url _ => m = some .on_url ∧ ph = .line ∧ t = false
  | .s_res_status => m = some .on_status ∧ ph = .line ∧ t = false
  | .s_header_field_start | .s_headers_almost_done => m = none ∧ Starts t ph
  | .s_header_field => m = some .on_header_field ∧ (Starts t ph ∨ ph = .field t)
  | .s_header_value_discard_ws | .s_header_value_discard_ws_almost_done
  | .s_header_value_discard_lws => m = none ∧ ph = .field t
  | .s_header_value_start => m = none ∧ (ph = .field t ∨ ph = .value t)
  | .s_header_value => m = some .on_header_value ∧ (ph = .field t ∨ ph = .value t)
  | .s_header_almost_done | .s_header_value_lws => m = none ∧ ph = .value t
  | .s_headers_done => m = none ∧ ph = .body
  | .s_body_identity | .s_body_identity_eof =>
    (m = none ∨ m = some .on_body) ∧ (ph = .body ∨ ph = .identity)
  | .s_message_done => m = none ∧ (ph = .identity ∨ ph = .chunk_done)
  | .s_chunk_size_start | .s_chunk_size | .s_chunk_parameters | .s_chunk_size_almost_done =>
    m = none ∧ (ph = .body ∨ ph = .chunk_done)
  | .s_chunk_data => (m = none ∨ m = some .on_body) ∧ (ph = .chunk ∨ ph = .chunk_data)
  | .s_chunk_data_almost_done =>
    m = some .on_body ∧ (ph = .chunk ∨ ph = .chunk_data) ∨ m = none ∧ ph = .chunk_data
  | .s_chunk_data_done => m = none ∧ ph = .chunk_data

namespace Exec

/-! ### What every step keeps -/

/-- What has been called since the phase `ph₀`, when `n` bytes are done. -/
structure Course (ph₀ : Phase) (n : ℕ) (x : Exec) (ph : Phase) : Prop where
  after : ph₀.after (x.calls.map Prod.fst) = some ph
  bound : ∀ e ∈ x.calls, e.2.2 ≤ n ∧ (e.1 = .notify .on_message_complete → 1 ≤ e.2.2)

/-- What a call has made in order. -/
structure Ordered (ph₀ : Phase) (n : ℕ) (calls : List (Callback × CParser × ℕ)) : Prop where
  after : (ph₀.after (calls.map Prod.fst)).isSome = true
  bound : ∀ e ∈ calls, e.2.2 ≤ n ∧ (e.1 = .notify .on_message_complete → 1 ≤ e.2.2)

/-- The state, the flag `F_TRAILING` and the mark fit the phase. -/
def FitsAt (x : Exec) (ph : Phase) : Prop :=
  InPhase x.parser.state x.parser.flags.F_TRAILING (x.mark.map Prod.fst) ph

/-- The invariant, at the byte `pos`, when the callbacks may count up to `n`. -/
structure Inv (ph₀ : Phase) (n : ℕ) (x : Exec) (ph : Phase) : Prop extends
    Course ph₀ n x ph where
  fits : x.FitsAt ph

/-- A loop is only left open in the two states that have one. -/
def InLoop (x : Exec) : Prop :=
  x.inner = none ∨ x.parser.state = .s_header_field ∨ x.parser.state = .s_header_value

/-- A parser that a call may begin with in the phase after some callbacks. -/
def Again (ph₀ : Phase) (r : Run CParser) : Prop :=
  ∃ ph, ph₀.after (r.callbacks.map Prod.fst) = some ph ∧
    InPhase r.parser.state r.parser.flags.F_TRAILING (markOf r.parser.state) ph

/-- A step from the byte `pos` keeps the invariant: it stays at the byte, or ends
the call there or after it, without an error only after a complete message. -/
def Holds (ph₀ : Phase) (pos : ℕ) : Outcome → Prop
  | .ok y => (∃ ph, Inv ph₀ (pos + 1) y ph) ∧ y.pos = pos ∧ y.InLoop
  | .error r => Ordered ph₀ (pos + 1) r.callbacks ∧ r.count ≤ pos + 1 ∧
    (r.error = none → ¬ NoneComplete r.callbacks ∧ Again ph₀ r)

variable {M n : ℕ} {ph₀ ph ph' : Phase} {x y : Exec} {ch : UInt8} {p : CParser} {cb : DataCb}
  {t : Bytes}

/-- Callbacks that have come to some phase have all been in order. -/
theorem Course.ordered (h : Course ph₀ n x ph) : Ordered ph₀ n x.calls :=
  ⟨by rw [h.after]; rfl, h.bound⟩

/-- A course that keeps a bound on the counts of its callbacks keeps any greater
one. -/
theorem Course.mono {m : ℕ} (h : Course ph₀ n x ph) (hle : n ≤ m) : Course ph₀ m x ph :=
  ⟨h.after, fun e he => ⟨(h.bound e he).1.trans hle, (h.bound e he).2⟩⟩

/-- Another call, at a byte that may be counted. -/
theorem Course.call (h : Course ph₀ n x ph) {e : Callback × CParser × ℕ}
    (hnext : ph.next e.1 = some ph') (hle : e.2.2 ≤ n)
    (hcomplete : e.1 = .notify .on_message_complete → 1 ≤ e.2.2)
    (hy : y.calls = x.calls ++ [e]) : Course ph₀ n y ph' where
  after := by
    rw [hy, List.map_append, Phase.after_append, h.after]
    refine (congrArg (fun o => o.bind some) hnext).trans ?_
    rfl
  bound := by
    rw [hy]
    intro f hf
    rcases List.mem_append.1 hf with hf | hf
    · exact h.bound f hf
    · obtain rfl := List.mem_singleton.1 hf
      exact ⟨hle, hcomplete⟩

/-- A notification continues the course when the phase admits it;
`on_message_complete` has to have at least one byte of the call in front of it. -/
theorem Course.notify (h : Course ph₀ n x ph) (hy : y.calls = x.calls) {cb : NotifyCb} {ER : ℕ}
    (hnext : ph.next (.notify cb) = some ph') (hle : ER ≤ n)
    (hcomplete : cb = .on_message_complete → 1 ≤ ER) :
    Course ph₀ n (y.CALLBACK_NOTIFY cb ER) ph' :=
  h.call hnext hle (fun heq => hcomplete (Callback.notify.inj heq)) (by rw [← hy]; rfl)

/-- A data callback continues the course when the phase admits the data that is
marked, and takes the mark away. -/
theorem Course.data (h : Course ph₀ n x ph) {ER : ℕ} (hmark : x.mark = some (cb, t))
    (hnext : ph.next (.data cb t) = some ph') (hle : ER ≤ n) :
    Course ph₀ n (x.CALLBACK_DATA ER) ph' ∧ (x.CALLBACK_DATA ER).mark = none := by
  unfold CALLBACK_DATA
  rw [hmark]
  exact ⟨h.call hnext hle (fun heq => Callback.noConfusion heq) rfl, rfl⟩

/-- The course is one of the callbacks only, so whatever else a step writes does
not matter. -/
theorem Course.of_calls (h : Course ph₀ n x ph) (hy : y.calls = x.calls) : Course ph₀ n y ph :=
  ⟨by rw [hy]; exact h.after, by rw [hy]; exact h.bound⟩

/-- What the invariant says of a parser that is known to be in a state. -/
theorem Inv.fits_of {s : ParseState} (h : Inv ph₀ n x ph) (hst : x.parser.state = s) :
    InPhase s x.parser.flags.F_TRAILING (x.mark.map Prod.fst) ph := hst ▸ h.fits

/-- A byte is taken without a return of the call: the callbacks are in order,
the new state belongs to the phase, and no byte was skipped. -/
theorem holds_ok {pos : ℕ} (h : Course ph₀ (pos + 1) y ph) (hfits : y.FitsAt ph)
    (hpos : y.pos = pos) (hin : y.inner = none) : Holds ph₀ pos (.ok y) :=
  ⟨⟨ph, h, hfits⟩, hpos, .inl hin⟩

/-- An error returns with the callbacks that were made, none of them behind the
byte. -/
theorem holds_fail (h : Course ph₀ (x.pos + 1) x ph) (e : ParseError) :
    Holds ph₀ x.pos (x.fail e) := ⟨h.ordered, Nat.le_succ _, nofun⟩

/-- A byte that has to be the expected one makes no callback, whether it is or
not. -/
theorem holds_expect {c : UInt8} {e : ParseError} {s : ParseState}
    (h : Course ph₀ (x.pos + 1) x ph) (hin : x.inner = none)
    (hfits : InPhase s x.parser.flags.F_TRAILING (x.mark.map Prod.fst) ph) :
    Holds ph₀ x.pos (x.expect c ch e s) := by
  unfold expect
  split
  · exact holds_ok (h.of_calls rfl) hfits rfl hin
  · exact holds_fail h e

/-- Where some bytes are counted first. -/
theorem holds_count {V : ℕ} {f : Exec → Outcome} (h : Course ph₀ (x.pos + 1) x ph)
    (hf : ∀ nread, Holds ph₀ x.pos (f { x with nread := nread })) :
    Holds ph₀ x.pos ((x.COUNT_HEADER_SIZE M V).bind f) := by
  unfold COUNT_HEADER_SIZE
  dsimp only
  split
  · exact holds_fail (x := { x with nread := (x.nread + V) % 2 ^ 32 }) (h.of_calls rfl) _
  · exact hf _

/-- What is read in an inner loop is left with the same callbacks, so what the
switch does then may be looked at by itself. -/
theorem holds_leave {k : ℕ} {f : Exec → Outcome} (h : Course ph₀ (x.pos + 1) x ph)
    (hf : ∀ nread, Holds ph₀ x.pos (f { x with inner := none, round := 0, nread := nread })) :
    Holds ph₀ x.pos ((x.leave M k).bind f) :=
  holds_count (x := { x with inner := none, round := 0 }) (h.of_calls rfl) hf

/-! ### The end of a message -/

/-- The state for a new message, whatever the flags were, belongs to the phase
before a message and begins with no mark. -/
theorem fits_newMessage (p : CParser) (t : Bool) :
    InPhase (NEW_MESSAGE p) t none .idle ∧ markOf (NEW_MESSAGE p) = none := by
  unfold NEW_MESSAGE start_state
  split_ifs <;> exact ⟨⟨rfl, rfl⟩, rfl⟩

/-- What may end with a complete message. -/
theorem next_complete (hph : ph = .body ∨ ph = .identity ∨ ph = .chunk_done) :
    ph.next (.notify .on_message_complete) = some .idle := by
  rcases hph with rfl | rfl | rfl <;> rfl

/-- `on_message_complete`, and the state after it. -/
theorem complete_course (h : Course ph₀ (x.pos + 1) x ph) (hin : x.inner = none)
    (hm : x.mark = none) (hph : ph = .body ∨ ph = .identity ∨ ph = .chunk_done) :
    Holds ph₀ x.pos (.ok ((x.UPDATE_STATE (NEW_MESSAGE x.parser)).CALLBACK_NOTIFY
      .on_message_complete (x.pos + 1))) ∧
    Holds ph₀ x.pos (((x.UPDATE_STATE (NEW_MESSAGE x.parser)).CALLBACK_NOTIFY
      .on_message_complete (x.pos + 1)).RETURN (x.pos + 1)) := by
  have hcourse : Course ph₀ (x.pos + 1) ((x.UPDATE_STATE (NEW_MESSAGE x.parser)).CALLBACK_NOTIFY
      .on_message_complete (x.pos + 1)) .idle :=
    h.notify (y := x.UPDATE_STATE (NEW_MESSAGE x.parser)) rfl (next_complete hph) le_rfl
      fun _ => Nat.succ_pos _
  obtain ⟨hfits, hagain⟩ := fits_newMessage x.parser x.parser.flags.F_TRAILING
  refine ⟨holds_ok hcourse ?_ rfl hin, hcourse.ordered, le_rfl, fun _ =>
    ⟨fun hnone => ?_, .idle, hcourse.after, hagain ▸ hfits⟩⟩
  · have hmark : ((x.UPDATE_STATE (NEW_MESSAGE x.parser)).CALLBACK_NOTIFY
        .on_message_complete (x.pos + 1)).mark = none := hm
    unfold FitsAt
    rw [hmark]
    exact hfits
  · exact hnone _ (List.mem_append_right _ List.mem_cons_self) rfl

/-- The end of a message, with the body that goes on to the end of the
connection or with the chunks: `on_message_complete`, and what may come next is
a new message. -/
theorem holds_message_done (ch : UInt8) (h : Course ph₀ (x.pos + 1) x ph) (hin : x.inner = none)
    (hm : x.mark = none) (hph : ph = .identity ∨ ph = .chunk_done) :
    Holds ph₀ x.pos (x.s_message_done ch) := by
  obtain ⟨hok, hreturn⟩ := complete_course h hin hm (.inr hph)
  unfold s_message_done
  dsimp only
  split
  · exact hreturn
  · exact hok

/-- Behind the headers: the message is complete at once, or a body follows, in
the phase of its encoding. -/
theorem holds_headers_done (h : Course ph₀ (x.pos + 1) x .body) (hin : x.inner = none)
    (hm : x.mark = none) :
    Holds ph₀ x.pos (x.s_headers_done ch) := by
  unfold s_headers_done
  split
  · exact holds_fail h _
  · have hzero : Course ph₀ (x.pos + 1) { x with nread := 0, parser.nread := 0 } .body :=
      h.of_calls rfl
    have hnone : (Option.map Prod.fst x.mark : Option DataCb) = none := by rw [hm]; rfl
    obtain ⟨hok, hreturn⟩ := complete_course
      (x := { x with nread := 0, parser.nread := 0 }) hzero hin hm (.inl rfl)
    have hbody : ∀ s, InPhase s x.parser.flags.F_TRAILING none .body →
        Holds ph₀ x.pos (.ok (({ x with nread := 0, parser.nread := 0 } : Exec).UPDATE_STATE s)) :=
      fun s hs => holds_ok (hzero.of_calls rfl) (by
        unfold FitsAt UPDATE_STATE
        dsimp only
        rw [hnone]
        exact hs) rfl hin
    dsimp only
    split_ifs
    · exact hreturn
    · exact hok
    · exact hbody _ ⟨rfl, .inl rfl⟩
    · exact holds_fail (x := { x with nread := 0, parser.nread := 0 }) hzero _
    · exact hbody _ ⟨.inl rfl, .inl rfl⟩
    · exact hok
    · exact hbody _ ⟨.inl rfl, .inl rfl⟩
    · exact hbody _ ⟨.inl rfl, .inl rfl⟩
    · exact hok

/-- Without a trailer, what ends the headers is `on_headers_complete`. -/
theorem next_headers_complete (h : Starts false ph) :
    ph.next (.notify .on_headers_complete) = some .body := by
  rcases h with rfl | rfl <;> rfl

/-- With a trailer, what ends the headers is the end of the last chunk. -/
theorem next_trailer (h : Starts true ph) :
    ph.next (.notify .on_chunk_complete) = some .chunk_done := by
  rcases h with rfl | rfl <;> rfl

/-- The line feed behind the headers: of the trailer it completes the chunks, of
the message it completes the headers. -/
theorem holds_headers_almost_done (h : Course ph₀ (x.pos + 1) x ph) (hin : x.inner = none)
    (hm : x.mark = none) (hph : Starts x.parser.flags.F_TRAILING ph) :
    Holds ph₀ x.pos (x.s_headers_almost_done ch) := by
  unfold s_headers_almost_done
  split
  · exact holds_fail h _
  · split
    case isTrue htrailing =>
      rw [htrailing] at hph
      have hnotify : Course ph₀ (x.pos + 1) ((x.UPDATE_STATE .s_message_done).CALLBACK_NOTIFY
          .on_chunk_complete x.pos) .chunk_done :=
        h.notify (y := x.UPDATE_STATE .s_message_done) rfl (next_trailer hph) (Nat.le_succ _) nofun
      exact holds_message_done _ hnotify hin hm (.inr rfl)
    case isFalse htrailing =>
      rw [Bool.not_eq_true] at htrailing
      rw [htrailing] at hph
      split
      · exact holds_fail h _
      · have hnotify : ∀ p : CParser, Course ph₀ (x.pos + 1)
            (({ x with parser := p } : Exec).CALLBACK_NOTIFY .on_headers_complete x.pos) .body :=
          fun p => h.notify (y := { x with parser := p }) rfl (next_headers_complete hph)
            (Nat.le_succ _) nofun
        exact holds_headers_done (hnotify _) hin hm

/-! ### Headers -/

/-- A byte of a special header's name leaves the flag of the trailer as it is. -/
theorem trailing_matchWord (p : CParser) (word : Bytes) (c : UInt8) (hit miss : HeaderState) :
    (p.matchWord word c hit miss).flags.F_TRAILING = p.flags.F_TRAILING := by
  unfold CParser.matchWord
  dsimp only
  split_ifs <;> rfl

/-- A byte of a header's name leaves the flag of the trailer as it is. -/
theorem trailing_fieldChar (p : CParser) (c : UInt8) :
    (p.fieldChar c).flags.F_TRAILING = p.flags.F_TRAILING := by
  unfold CParser.fieldChar
  cases p.header_state <;> first | rfl | exact trailing_matchWord ..

/-- The first byte of a header's value leaves the flag of the trailer as it is. -/
theorem trailing_valueStart (p : CParser) (c : UInt8) :
    (p.valueStart c).flags.F_TRAILING = p.flags.F_TRAILING := by
  unfold CParser.valueStart
  dsimp only
  cases p.header_state <;> rfl

/-- The end of a header sets what `Connection` and `Transfer-Encoding` say,
never the flag of the trailer. -/
theorem trailing_finishHeader (p : CParser) :
    p.finishHeader.flags.F_TRAILING = p.flags.F_TRAILING := by
  unfold CParser.finishHeader
  cases p.header_state <;> rfl

/-- A further byte of a header's value leaves the flag of the trailer as it is. -/
theorem trailing_valueChar (p : CParser) (c : UInt8) :
    (p.valueChar c).flags.F_TRAILING = p.flags.F_TRAILING := by
  unfold CParser.valueChar
  dsimp only
  cases p.header_state <;> dsimp only <;> first
    | rfl
    | exact trailing_matchWord ..
    | (split_ifs <;> first | rfl | exact trailing_finishHeader p)

/-- A further byte of a header's value leaves the state as it is. -/
theorem valueChar_state (p : CParser) (c : UInt8) : (p.valueChar c).state = p.state :=
  CParser.state_of_inState (f := fun p => p.valueChar c) p
    fun p s => CParser.valueChar_inState p s c

/-- The first byte of a header's value leaves the state as it is; the switch
sets it. -/
theorem valueStart_state (p : CParser) (c : UInt8) : (p.valueStart c).state = p.state :=
  CParser.state_of_inState (f := fun p => p.valueStart c) p
    fun p s => CParser.valueStart_inState p s c

/-- A field name may come where the headers begin, and go on behind a part of
it. -/
theorem next_field {t : Bool} (h : Starts t ph ∨ ph = .field t) (name : Bytes) :
    ph.next (.data .on_header_field name) = some (.field t) := by
  rcases h with (rfl | rfl) | rfl
  · cases t <;> rfl
  · rfl
  · rfl

/-- A value may come behind the field name, and go on behind a part of it. -/
theorem next_value {t : Bool} (h : ph = .field t ∨ ph = .value t) (v : Bytes) :
    ph.next (.data .on_header_value v) = some (.value t) := by
  rcases h with rfl | rfl <;> rfl

/-- A mark is set where there was none. -/
theorem mark_none (hm : x.mark.map Prod.fst = none) (cb : DataCb) :
    (x.MARK cb).mark.map Prod.fst = some cb := by
  unfold MARK
  rw [Option.map_eq_none_iff.1 hm]
  rfl

/-- A mark is no callback. -/
theorem MARK_calls (x : Exec) (cb : DataCb) : (x.MARK cb).calls = x.calls := by
  unfold MARK
  split <;> rfl

/-- A mark is set where the call reads. -/
theorem MARK_pos (x : Exec) (cb : DataCb) : (x.MARK cb).pos = x.pos := by
  unfold MARK
  split <;> rfl

/-- A mark leaves the inner loop as it is. -/
theorem MARK_inner (x : Exec) (cb : DataCb) : (x.MARK cb).inner = x.inner := by
  unfold MARK
  split <;> rfl

/-- A mark is a local of the call, not a field of the parser. -/
theorem parser_MARK (x : Exec) (cb : DataCb) : (x.MARK cb).parser = x.parser := by
  unfold MARK
  split <;> rfl

/-- What a mark fits. -/
theorem fitsAt_mark {s : ParseState} (hm : x.mark.map Prod.fst = none)
    (hs : y.parser.state = s) (ht : y.parser.flags.F_TRAILING = x.parser.flags.F_TRAILING)
    (hy : y.mark = (x.MARK cb).mark) (hfits : InPhase s x.parser.flags.F_TRAILING (some cb) ph) :
    y.FitsAt ph := by
  unfold FitsAt
  rw [hs, ht, hy, mark_none hm]
  exact hfits

/-- The callback for a mark that is set. -/
theorem Course.flush (h : Course ph₀ n x ph) (hm : x.mark.map Prod.fst = some cb) {ER : ℕ}
    (hnext : ∀ t, ph.next (.data cb t) = some ph') (hle : ER ≤ n) :
    Course ph₀ n (x.CALLBACK_DATA ER) ph' ∧ (x.CALLBACK_DATA ER).mark = none := by
  obtain ⟨⟨cb', t⟩, hmark, hcb⟩ := Option.map_eq_some_iff.1 hm
  obtain rfl : cb' = cb := hcb
  exact h.data hmark (hnext t) hle

/-- A data callback does not move what is read. -/
theorem CALLBACK_DATA_pos (x : Exec) (ER : ℕ) : (x.CALLBACK_DATA ER).pos = x.pos := by
  unfold CALLBACK_DATA
  split <;> rfl

/-- A data callback leaves the inner loop as it is. -/
theorem CALLBACK_DATA_inner (x : Exec) (ER : ℕ) : (x.CALLBACK_DATA ER).inner = x.inner := by
  unfold CALLBACK_DATA
  split <;> rfl

/-- A data callback takes the mark, and leaves the parser as it is. -/
theorem parser_CALLBACK_DATA (x : Exec) (ER : ℕ) : (x.CALLBACK_DATA ER).parser = x.parser := by
  unfold CALLBACK_DATA
  split <;> rfl

/-- After a callback for the mark. -/
theorem fitsAt_flushed {ER : ℕ} {s : ParseState} (hm : (x.CALLBACK_DATA ER).mark = none)
    (hs : x.parser.state = s) (hfits : InPhase s x.parser.flags.F_TRAILING none ph) :
    (x.CALLBACK_DATA ER).FitsAt ph := by
  unfold FitsAt
  rw [hm, parser_CALLBACK_DATA, hs]
  exact hfits

/-- The first byte of a header, or of the line end behind the headers. -/
theorem holds_header_field_start (h : Course ph₀ (x.pos + 1) x ph) (hin : x.inner = none)
    (hm : x.mark.map Prod.fst = none) (hph : Starts x.parser.flags.F_TRAILING ph) :
    Holds ph₀ x.pos (x.s_header_field_start ch) := by
  unfold s_header_field_start
  split_ifs
  · exact holds_ok (y := x.UPDATE_STATE .s_headers_almost_done) (h.of_calls rfl) ⟨hm, hph⟩ rfl
      hin
  · exact holds_headers_almost_done (x := x.UPDATE_STATE .s_headers_almost_done) (h.of_calls rfl)
      hin (Option.map_eq_none_iff.1 hm) hph
  · exact holds_fail h _
  · refine holds_ok (h.of_calls (MARK_calls x _)) ?_ (MARK_pos x _) ((MARK_inner x _).trans hin)
    refine fitsAt_mark (s := .s_header_field) hm rfl ?_ rfl ⟨rfl, .inl hph⟩
    exact congrArg (fun p => p.flags.F_TRAILING) (parser_MARK x .on_header_field)

/-- The bytes of a field name up to the colon, `on_header_field` at its end: one
round of the inner loop for each byte. -/
theorem holds_header_field (h : Course ph₀ (x.pos + 1) x ph)
    (hst : x.parser.state = .s_header_field)
    (hm : x.mark.map Prod.fst = some .on_header_field)
    (hph : Starts x.parser.flags.F_TRAILING ph ∨ ph = .field x.parser.flags.F_TRAILING) (k : ℕ) :
    Holds ph₀ x.pos (x.s_header_field M k ch) := by
  unfold s_header_field
  split
  · refine ⟨⟨ph, h.of_calls rfl, ?_⟩, rfl, .inr (.inl ((CParser.fieldChar_state _ _).trans hst))⟩
    unfold FitsAt
    dsimp only
    rw [CParser.fieldChar_state, trailing_fieldChar, hst]
    exact ⟨hm, hph⟩
  · refine holds_leave h fun nread => ?_
    split
    · have hcourse : Course ph₀ (x.pos + 1) (({ x with inner := none, round := 0, nread := nread } :
          Exec).UPDATE_STATE .s_header_value_discard_ws) ph := h.of_calls rfl
      obtain ⟨hdata, hnone⟩ := hcourse.flush hm (next_field hph) le_rfl
      exact holds_ok hdata (fitsAt_flushed hnone rfl ⟨rfl, rfl⟩) (CALLBACK_DATA_pos _ _)
        (CALLBACK_DATA_inner _ _)
    · exact holds_fail (x := { x with inner := none, round := 0, nread := nread })
        (h.of_calls rfl) _

/-- The first byte of a value, of which the mark is set. -/
theorem holds_header_value_start (h : Course ph₀ (x.pos + 1) x ph) (hin : x.inner = none)
    (hm : x.mark.map Prod.fst = none)
    (hph : ph = .field x.parser.flags.F_TRAILING ∨ ph = .value x.parser.flags.F_TRAILING) :
    Holds ph₀ x.pos (x.s_header_value_start ch) := by
  have hcalls := MARK_calls x .on_header_value
  have hpos := MARK_pos x .on_header_value
  have hcourse : Course ph₀ (x.pos + 1) (x.MARK .on_header_value) ph := h.of_calls hcalls
  have hfail : ∀ e, Holds ph₀ x.pos
      (((x.MARK .on_header_value).UPDATE_STATE .s_header_value).fail e) :=
    fun e => ⟨hcalls ▸ h.ordered, hpos ▸ Nat.le_succ _, nofun⟩
  have hinner : (x.MARK .on_header_value).inner = none := (MARK_inner _ _).trans hin
  have htrailing : (x.MARK .on_header_value).parser.flags.F_TRAILING =
      x.parser.flags.F_TRAILING := by rw [parser_MARK]
  unfold s_header_value_start
  dsimp only
  split_ifs
  · exact hfail _
  · exact hfail _
  · exact holds_ok (h.of_calls hcalls)
      (fitsAt_mark (s := .s_header_value) hm rfl htrailing rfl ⟨rfl, hph⟩) hpos hinner
  · refine holds_ok (h.of_calls hcalls) (fitsAt_mark (s := .s_header_value) hm ?_ ?_ rfl
      ⟨rfl, hph⟩) hpos hinner
    · exact valueStart_state _ _
    · exact (trailing_valueStart _ _).trans htrailing

/-- A blank in front of a value is passed over, and so is a line end, behind
which the value may go on. -/
theorem holds_header_value_discard_ws (h : Course ph₀ (x.pos + 1) x ph) (hin : x.inner = none)
    (hst : x.parser.state = .s_header_value_discard_ws)
    (hm : x.mark.map Prod.fst = none) (hph : ph = .field x.parser.flags.F_TRAILING) :
    Holds ph₀ x.pos (x.s_header_value_discard_ws ch) := by
  unfold s_header_value_discard_ws
  split_ifs
  · refine holds_ok h ?_ rfl hin
    unfold FitsAt
    rw [hst]
    exact ⟨hm, hph⟩
  · exact holds_ok (y := x.UPDATE_STATE .s_header_value_discard_ws_almost_done) (h.of_calls rfl)
      ⟨hm, hph⟩ rfl hin
  · exact holds_ok (y := x.UPDATE_STATE .s_header_value_discard_lws) (h.of_calls rfl)
      ⟨hm, hph⟩ rfl hin
  · exact holds_header_value_start h hin hm (.inl hph)

/-- A byte of a value changes neither the state nor the flag of the trailer, nor
the callbacks that are made. -/
theorem valueChar_keeps (hok : x.valueChar ch = .ok y) : y.parser.state = x.parser.state ∧
    y.parser.flags.F_TRAILING = x.parser.flags.F_TRAILING ∧ y.mark = x.mark ∧ y.calls = x.calls ∧
    y.pos = x.pos := by
  unfold valueChar at hok
  dsimp only at hok
  split at hok
  · cases hok
    exact ⟨rfl, rfl, rfl, rfl, rfl⟩
  · split_ifs at hok <;> cases hok <;> exact ⟨rfl, rfl, rfl, rfl, rfl⟩
  · split_ifs at hok <;> cases hok <;> exact ⟨rfl, rfl, rfl, rfl, rfl⟩
  · split_ifs at hok <;> cases hok
    exact ⟨rfl, rfl, rfl, rfl, rfl⟩
  · cases hok
    exact ⟨valueChar_state _ _, trailing_valueChar _ _, rfl, rfl, rfl⟩

/-- A value that cannot be read, such as a `Content-Length` that is no number,
returns with the callbacks made before it. -/
theorem valueChar_error {r : Run CParser} (herror : x.valueChar ch = .error r) :
    r.callbacks = x.calls ∧ r.count = x.pos ∧ r.error ≠ none := by
  unfold valueChar at herror
  dsimp only at herror
  split at herror
  · cases herror
  · split_ifs at herror <;> cases herror <;> exact ⟨rfl, rfl, nofun⟩
  · split_ifs at herror <;> cases herror <;> exact ⟨rfl, rfl, nofun⟩
  · split_ifs at herror
    cases herror
    exact ⟨rfl, rfl, nofun⟩
  · cases herror

/-- The bytes of a value up to the line end, `on_header_value` there: one round
of the inner loop for each byte. -/
theorem holds_header_value (h : Course ph₀ (x.pos + 1) x ph)
    (hst : x.parser.state = .s_header_value)
    (hm : x.mark.map Prod.fst = some .on_header_value)
    (hph : ph = .field x.parser.flags.F_TRAILING ∨ ph = .value x.parser.flags.F_TRAILING)
    (k : ℕ) : Holds ph₀ x.pos (x.s_header_value M k ch) := by
  have hfits : x.FitsAt ph := by
    unfold FitsAt
    rw [hst]
    exact ⟨hm, hph⟩
  have hend : ∀ y : Exec, y.calls = x.calls → y.mark = x.mark →
      y.parser = { x.parser with state := .s_header_almost_done } → ∀ ER ≤ x.pos + 1,
      Course ph₀ (x.pos + 1) (y.CALLBACK_DATA ER) (.value x.parser.flags.F_TRAILING) ∧
        (y.CALLBACK_DATA ER).mark = none := by
    intro y hcalls hmark hp ER hle
    exact Course.flush (h.of_calls hcalls) (by rw [hmark]; exact hm) (next_value hph) hle
  unfold s_header_value
  split_ifs
  · exact ⟨⟨ph, h.of_calls rfl, hfits⟩, rfl, .inr (.inr hst)⟩
  · obtain ⟨hcourse, hnone⟩ := hend (x.UPDATE_STATE .s_header_almost_done) rfl rfl rfl (x.pos + 1)
      le_rfl
    have hp := parser_CALLBACK_DATA (x.UPDATE_STATE .s_header_almost_done) (x.pos + 1)
    have hpos : ((x.UPDATE_STATE .s_header_almost_done).CALLBACK_DATA (x.pos + 1)).pos = x.pos :=
      CALLBACK_DATA_pos _ _
    generalize (x.UPDATE_STATE .s_header_almost_done).CALLBACK_DATA (x.pos + 1) = y at *
    have hleave : (y.leave M k).bind Except.ok = y.leave M k := by
      cases y.leave M k <;> rfl
    rw [← hleave, ← hpos]
    refine holds_leave (hpos ▸ hcourse) fun nread =>
      holds_ok ((hpos ▸ hcourse).of_calls rfl) ?_ rfl rfl
    unfold FitsAt
    dsimp only
    rw [hp, hnone]
    exact ⟨rfl, rfl⟩
  · refine holds_leave (x := x.UPDATE_STATE .s_header_almost_done) (h.of_calls rfl)
      fun nread => ?_
    obtain ⟨hcourse, hnone⟩ := hend { x.UPDATE_STATE .s_header_almost_done with
      inner := none, round := 0, nread := nread } rfl rfl rfl x.pos (Nat.le_succ _)
    have hp := parser_CALLBACK_DATA { x.UPDATE_STATE .s_header_almost_done with
      inner := none, round := 0, nread := nread } x.pos
    have hpos : (({ x.UPDATE_STATE .s_header_almost_done with
      inner := none, round := 0, nread := nread } : Exec).CALLBACK_DATA x.pos).pos = x.pos :=
      CALLBACK_DATA_pos _ _
    have hexpect : Holds ph₀ (({ x.UPDATE_STATE .s_header_almost_done with
        inner := none, round := 0, nread := nread } : Exec).CALLBACK_DATA x.pos).pos
        ((({ x.UPDATE_STATE .s_header_almost_done with
          inner := none, round := 0, nread := nread } : Exec).CALLBACK_DATA
            x.pos).s_header_almost_done ch) := by
      refine holds_expect (by rw [hpos]; exact hcourse) (CALLBACK_DATA_inner _ _) ?_
      rw [hp, hnone]
      exact ⟨rfl, rfl⟩
    rw [hpos] at hexpect
    exact hexpect
  · exact holds_fail h _
  · cases hchar : x.valueChar ch with
    | ok y =>
      obtain ⟨hs, ht, hmark, hcalls, hpos⟩ := valueChar_keeps hchar
      refine ⟨⟨ph, h.of_calls hcalls, ?_⟩, hpos, .inr (.inr (hs.trans hst))⟩
      unfold FitsAt at hfits ⊢
      dsimp only
      rw [hs, ht, hmark]
      exact hfits
    | error r =>
      obtain ⟨hcalls, hcount, herror⟩ := valueChar_error hchar
      exact ⟨hcalls ▸ h.ordered, hcount ▸ Nat.le_succ _, fun hnone => absurd hnone herror⟩

/-- Behind a line end of a value: the value goes on in the next line, or the
header is over. -/
theorem holds_header_value_lws (h : Course ph₀ (x.pos + 1) x ph) (hin : x.inner = none)
    (hm : x.mark.map Prod.fst = none) (hph : ph = .value x.parser.flags.F_TRAILING) :
    Holds ph₀ x.pos (x.s_header_value_lws ch) := by
  unfold s_header_value_lws
  split
  · dsimp only
    split
    · exact holds_header_value_start (x := ({ x with
          parser.header_state := .h_content_length_ws } : Exec).UPDATE_STATE .s_header_value_start)
        (h.of_calls rfl) hin hm (.inr hph)
    · exact holds_header_value_start (x := x.UPDATE_STATE .s_header_value_start)
        (h.of_calls rfl) hin hm (.inr hph)
  · have ht := trailing_finishHeader x.parser
    refine holds_header_field_start (x := ({ x with parser := x.parser.finishHeader } :
      Exec).UPDATE_STATE .s_header_field_start) (h.of_calls rfl) hin hm ?_
    unfold UPDATE_STATE
    dsimp only
    rw [ht]
    exact .inr hph

/-- Behind a line end in front of a value: the value may still come, and if none
comes it is empty, which `on_header_value` is told. -/
theorem holds_header_value_discard_lws (h : Course ph₀ (x.pos + 1) x ph) (hin : x.inner = none)
    (hm : x.mark.map Prod.fst = none) (hph : ph = .field x.parser.flags.F_TRAILING) :
    Holds ph₀ x.pos (x.s_header_value_discard_lws ch) := by
  unfold s_header_value_discard_lws
  split_ifs
  · exact holds_ok (y := x.UPDATE_STATE .s_header_value_discard_ws) (h.of_calls rfl) ⟨hm, hph⟩
      rfl hin
  · exact holds_fail h _
  · have ht := trailing_finishHeader x.parser
    let y : Exec := ({ x with parser := x.parser.finishHeader } : Exec).MARK .on_header_value
    have hmark : y.mark.map Prod.fst = some .on_header_value :=
      mark_none (x := { x with parser := x.parser.finishHeader }) hm .on_header_value
    have hy : Course ph₀ (x.pos + 1) (y.UPDATE_STATE .s_header_field_start) ph :=
      h.of_calls (MARK_calls _ _)
    have hypos : y.pos = x.pos := MARK_pos _ _
    obtain ⟨hcourse, hnone⟩ := hy.flush hmark (next_value (.inl hph)) (Nat.le_succ x.pos)
    have hzpos : ((y.UPDATE_STATE .s_header_field_start).CALLBACK_DATA x.pos).pos = x.pos :=
      (CALLBACK_DATA_pos _ _).trans hypos
    have hp := parser_CALLBACK_DATA (y.UPDATE_STATE .s_header_field_start) x.pos
    have hyp : y.parser = x.parser.finishHeader := parser_MARK _ _
    have hstart : Holds ph₀ ((y.UPDATE_STATE .s_header_field_start).CALLBACK_DATA x.pos).pos
        (((y.UPDATE_STATE .s_header_field_start).CALLBACK_DATA x.pos).s_header_field_start ch) := by
      refine holds_header_field_start (by rw [hzpos]; exact hcourse)
        ((CALLBACK_DATA_inner _ _).trans ((MARK_inner _ _).trans hin)) (by rw [hnone]; rfl) ?_
      rw [hp]
      unfold UPDATE_STATE
      dsimp only
      rw [hyp, ht]
      exact .inr rfl
    rw [hzpos] at hstart
    have hpos : (y.UPDATE_STATE .s_header_field_start).pos = x.pos := hypos
    show Holds ph₀ x.pos (((y.UPDATE_STATE .s_header_field_start).CALLBACK_DATA
      (y.UPDATE_STATE .s_header_field_start).pos).s_header_field_start ch)
    rw [hpos]
    exact hstart

/-! ### The first line -/

/-- Where a branch only changes the parser. -/
theorem holds_with_state (h : Course ph₀ (x.pos + 1) x ph) (hin : x.inner = none)
    (ht : p.flags.F_TRAILING = x.parser.flags.F_TRAILING)
    (hfits : InPhase p.state x.parser.flags.F_TRAILING (x.mark.map Prod.fst) ph) :
    Holds ph₀ x.pos (.ok { x with parser := p }) := by
  refine holds_ok (h.of_calls rfl) ?_ rfl hin
  unfold FitsAt
  dsimp only
  rw [ht]
  exact hfits

/-- Where a branch changes the parser and makes the callback for the mark. -/
theorem holds_flush (h : Course ph₀ (x.pos + 1) x ph) (hin : x.inner = none)
    (hm : x.mark.map Prod.fst = some cb) (hnext : ∀ t, ph.next (.data cb t) = some ph')
    (ht : p.flags.F_TRAILING = x.parser.flags.F_TRAILING)
    (hfits : InPhase p.state x.parser.flags.F_TRAILING none ph') :
    Holds ph₀ x.pos (.ok (({ x with parser := p } : Exec).CALLBACK_DATA (x.pos + 1))) := by
  have hcourse : Course ph₀ (x.pos + 1) { x with parser := p } ph := h.of_calls rfl
  obtain ⟨hdata, hnone⟩ := hcourse.flush hm hnext (le_refl (x.pos + 1))
  refine holds_ok hdata (fitsAt_flushed hnone rfl ?_) (CALLBACK_DATA_pos _ _)
    ((CALLBACK_DATA_inner _ _).trans hin)
  dsimp only
  rw [ht]
  exact hfits

/-- Where a branch changes the parser and makes another callback. -/
theorem holds_notify {cb : NotifyCb} (h : Course ph₀ (x.pos + 1) x ph) (hin : x.inner = none)
    (hnext : ph.next (.notify cb) = some ph') (hcb : cb ≠ .on_message_complete) {nread : ℕ}
    (hfits : InPhase p.state p.flags.F_TRAILING (x.mark.map Prod.fst) ph') :
    Holds ph₀ x.pos (.ok
      (({ x with parser := p, nread := nread } : Exec).CALLBACK_NOTIFY cb (x.pos + 1))) :=
  holds_ok (h.notify (y := { x with parser := p, nread := nread }) rfl hnext le_rfl
    fun heq => absurd heq hcb) hfits rfl hin

/-- Where a branch changes nothing. -/
theorem holds_stay (h : Inv ph₀ (x.pos + 1) x ph) (hin : x.inner = none) :
    Holds ph₀ x.pos (.ok x) := holds_ok h.toCourse h.fits rfl hin

/-- The first byte of a response: `on_message_begin`. -/
theorem holds_start_res (h : Inv ph₀ (x.pos + 1) x ph) (hin : x.inner = none)
    (hm : x.mark.map Prod.fst = none) (hph : ph = .idle) : Holds ph₀ x.pos (x.s_start_res ch) := by
  subst hph
  unfold s_start_res
  split_ifs
  · exact holds_stay h hin
  · exact holds_notify (p := { x.clear.parser with state := .s_res_H }) h.toCourse hin rfl
      (show NotifyCb.on_message_begin ≠ _ from nofun) ⟨hm, rfl, rfl⟩
  · exact holds_fail (x := x.clear) (h.toCourse.of_calls rfl) _

/-- The first byte of a request: `on_message_begin`. -/
theorem holds_start_req (h : Inv ph₀ (x.pos + 1) x ph) (hin : x.inner = none)
    (hm : x.mark.map Prod.fst = none) (hph : ph = .idle) : Holds ph₀ x.pos (x.s_start_req ch) := by
  subst hph
  unfold s_start_req
  split_ifs
  · exact holds_stay h hin
  · exact holds_fail (x := x.clear) (h.toCourse.of_calls rfl) _
  · split
    · exact holds_fail (x := { x.clear with parser.method := .HTTP_DELETE, parser.index := 1 })
        (h.toCourse.of_calls rfl) _
    · exact holds_notify (p := { x.clear.parser with
        method := _, index := 1, state := .s_req_method }) h.toCourse hin rfl
        (show NotifyCb.on_message_begin ≠ _ from nofun) ⟨hm, rfl, rfl⟩

/-- A digit of the version makes no callback. -/
theorem holds_version {set : ℕ → CParser} {s : ParseState} (h : Course ph₀ (x.pos + 1) x ph)
    (hin : x.inner = none) (ht : ∀ d, (set d).flags = x.parser.flags)
    (hfits : InPhase s x.parser.flags.F_TRAILING (x.mark.map Prod.fst) ph) :
    Holds ph₀ x.pos (x.version ch set s) := by
  unfold version
  split
  · exact holds_fail h _
  · exact holds_with_state (p := { set (ch.toNat - 48) with state := s }) h hin
      (congrArg Flags.F_TRAILING (ht _)) hfits

/-- The first digit of the status code makes no callback. -/
theorem holds_res_first_status_code (h : Inv ph₀ (x.pos + 1) x ph) (hin : x.inner = none)
    (hfits : InPhase .s_res_status_code x.parser.flags.F_TRAILING (x.mark.map Prod.fst) ph) :
    Holds ph₀ x.pos (x.s_res_first_status_code ch) := by
  unfold s_res_first_status_code
  split_ifs
  · exact holds_stay h hin
  · exact holds_fail h.toCourse _
  · exact holds_with_state (p := { x.parser with
      status_code := ch.toNat - 48, state := .s_res_status_code }) h.toCourse hin rfl hfits

/-- The reason phrase: `on_status` at the line end. -/
theorem holds_res_status (h : Course ph₀ (x.pos + 1) x ph) (hin : x.inner = none)
    (hst : x.parser.state = .s_res_status) (hm : x.mark.map Prod.fst = some .on_status)
    (hph : ph = .line) (ht : x.parser.flags.F_TRAILING = false) :
    Holds ph₀ x.pos (x.s_res_status ch) := by
  subst hph
  have hnone : Starts x.parser.flags.F_TRAILING .line := by
    rw [ht]
    exact .inl rfl
  unfold s_res_status
  split_ifs
  · exact holds_flush (p := { x.parser with state := .s_res_line_almost_done }) h hin hm
      (fun _ => rfl) rfl ⟨rfl, rfl, ht⟩
  · exact holds_flush (p := { x.parser with state := .s_header_field_start }) h hin hm
      (fun _ => rfl) rfl ⟨rfl, hnone⟩
  · refine holds_ok h ?_ rfl hin
    unfold FitsAt
    rw [hst]
    exact ⟨hm, rfl, ht⟩

/-- The first byte of the reason phrase sets its mark; if there is none,
`on_status` is told an empty one. -/
theorem holds_res_status_start (h : Course ph₀ (x.pos + 1) x ph) (hin : x.inner = none)
    (hm : x.mark.map Prod.fst = none) (hph : ph = .line)
    (ht : x.parser.flags.F_TRAILING = false) : Holds ph₀ x.pos (x.s_res_status_start ch) := by
  have hpos := MARK_pos x .on_status
  have ht' : (x.MARK .on_status).parser.flags.F_TRAILING = false := by rw [parser_MARK, ht]
  have hinner : (x.MARK .on_status).inner = none := (MARK_inner _ _).trans hin
  unfold s_res_status_start
  dsimp only
  split
  · have hcourse : Course ph₀ ((x.MARK .on_status).pos + 1)
        { (x.MARK .on_status).UPDATE_STATE .s_res_status with parser.index := 0 } ph := by
      rw [hpos]
      exact h.of_calls (MARK_calls _ _)
    exact hpos ▸ holds_res_status hcourse hinner rfl (mark_none hm _) hph ht'
  · exact holds_ok (h.of_calls (MARK_calls _ _)) (fitsAt_mark (s := .s_res_status) hm rfl
      (by rw [ht]; exact ht') rfl ⟨rfl, hph, ht⟩) hpos hinner

/-- A digit of the status code, or the blank or line end behind it, makes no
callback. -/
theorem holds_res_status_code (h : Inv ph₀ (x.pos + 1) x ph) (hin : x.inner = none)
    (hst : x.parser.state = .s_res_status_code) (hm : x.mark.map Prod.fst = none)
    (hph : ph = .line) (ht : x.parser.flags.F_TRAILING = false) :
    Holds ph₀ x.pos (x.s_res_status_code ch) := by
  unfold s_res_status_code
  split_ifs
  · exact holds_with_state (p := { x.parser with state := .s_res_status_start }) h.toCourse hin rfl
      ⟨hm, hph, ht⟩
  · exact holds_res_status_start (x := x.UPDATE_STATE .s_res_status_start)
      (h.toCourse.of_calls rfl) hin hm hph ht
  · exact holds_fail h.toCourse _
  · dsimp only
    split_ifs
    · exact holds_fail (x := { x with parser.status_code := _ }) (h.toCourse.of_calls rfl) _
    · refine holds_with_state h.toCourse hin rfl ?_
      dsimp only
      rw [hst]
      exact ⟨hm, hph, ht⟩

/-- A letter of the method makes no callback, and a wrong one returns. -/
theorem holds_req_method (h : Course ph₀ (x.pos + 1) x ph) (hin : x.inner = none)
    (hst : x.parser.state = .s_req_method) (hm : x.mark.map Prod.fst = none) (hph : ph = .line)
    (ht : x.parser.flags.F_TRAILING = false) : Holds ph₀ x.pos (x.s_req_method ch) := by
  unfold s_req_method
  dsimp only
  split_ifs
  · exact holds_fail h _
  · exact holds_with_state (p := { x.parser with
      state := .url .s_req_spaces_before_url, index := x.parser.index + 1 }) h hin rfl
      ⟨hm, hph, ht⟩
  · refine holds_with_state (p := { x.parser with index := x.parser.index + 1 }) h hin rfl ?_
    dsimp only
    rw [hst]
    exact ⟨hm, hph, ht⟩
  · split
    · exact holds_fail h _
    · refine holds_with_state
        (p := { x.parser with method := _, index := x.parser.index + 1 }) h hin
        rfl ?_
      dsimp only
      rw [hst]
      exact ⟨hm, hph, ht⟩

/-- What fits in a URL. -/
theorem fits_url {s : UrlState} (hdead : s ≠ .s_dead) (hspaces : s ≠ .s_req_spaces_before_url)
    (t : Bool) (m : Option DataCb) :
    InPhase (.url s) t m ph ↔ m = some .on_url ∧ ph = .line ∧ t = false := by
  cases s <;> first
    | exact Iff.rfl
    | exact absurd rfl hdead
    | exact absurd rfl hspaces

/-- A character of the request target makes no callback. -/
theorem holds_urlChar {s : UrlState} (h : Course ph₀ (x.pos + 1) x ph) (hin : x.inner = none)
    (hm : x.mark.map Prod.fst = some .on_url) (hph : ph = .line)
    (ht : x.parser.flags.F_TRAILING = false) : Holds ph₀ x.pos (x.urlChar s ch) := by
  unfold urlChar
  dsimp only
  split
  · exact holds_fail (x := x.UPDATE_STATE (.url (parse_url_char s ch))) (h.of_calls rfl) _
  case isFalse hdead =>
    exact holds_with_state (p := { x.parser with state := .url (parse_url_char s ch) }) h hin rfl
      ((fits_url hdead (parse_url_char_ne _ _) _ _).2 ⟨hm, hph, ht⟩)

/-- The states that a URL may end in. -/
theorem holds_url_end {s : UrlState} (h : Course ph₀ (x.pos + 1) x ph) (hin : x.inner = none)
    (hm : x.mark.map Prod.fst = some .on_url) (hph : ph = .line)
    (ht : x.parser.flags.F_TRAILING = false) : Holds ph₀ x.pos
      (if ch = 32 then .ok ((x.UPDATE_STATE .s_req_http_start).CALLBACK_DATA (x.pos + 1))
      else if ch = CR ∨ ch = LF then
        let x := { x with parser.http_major := 0, parser.http_minor := 9 }
        .ok ((x.UPDATE_STATE (if ch = CR then .s_req_line_almost_done
          else .s_header_field_start)).CALLBACK_DATA (x.pos + 1))
      else x.urlChar s ch) := by
  subst hph
  have hstarts : Starts x.parser.flags.F_TRAILING .line := by
    rw [ht]
    exact .inl rfl
  have hflush : ∀ p : CParser, p.flags.F_TRAILING = x.parser.flags.F_TRAILING →
      InPhase p.state x.parser.flags.F_TRAILING none .line →
      Holds ph₀ x.pos (.ok (({ x with parser := p } : Exec).CALLBACK_DATA (x.pos + 1))) :=
    fun p => holds_flush h hin hm fun _ => rfl
  split_ifs
  · exact hflush { x.parser with state := .s_req_http_start } rfl ⟨rfl, rfl, ht⟩
  · exact hflush { x.parser with
      http_major := 0, http_minor := 9, state := .s_req_line_almost_done } rfl ⟨rfl, rfl, ht⟩
  · exact hflush { x.parser with
      http_major := 0, http_minor := 9, state := .s_header_field_start } rfl ⟨rfl, hstarts⟩
  · exact holds_urlChar h hin hm rfl ht

/-- The states that it may not end in. -/
theorem holds_url_schema {s : UrlState} (h : Course ph₀ (x.pos + 1) x ph) (hin : x.inner = none)
    (hm : x.mark.map Prod.fst = some .on_url) (hph : ph = .line)
    (ht : x.parser.flags.F_TRAILING = false) : Holds ph₀ x.pos
      (if ch = 32 ∨ ch = CR ∨ ch = LF then x.fail .HPE_INVALID_URL else x.urlChar s ch) := by
  split
  · exact holds_fail h _
  · exact holds_urlChar h hin hm hph ht

/-- A byte of the request target: one more character, or the blank or line end
behind it, where `on_url` is called. -/
theorem holds_url {s : UrlState} (h : Inv ph₀ (x.pos + 1) x ph) (hin : x.inner = none)
    (hst : x.parser.state = .url s) : Holds ph₀ x.pos (x.url s ch) := by
  have hfits := h.fits_of hst
  unfold url
  cases s with
  | s_dead =>
    dsimp only
    split
    · exact holds_stay h hin
    · exact holds_fail h.toCourse _
  | s_req_spaces_before_url =>
    obtain ⟨hm, hph, ht⟩ := hfits
    dsimp only
    split
    · exact holds_stay h hin
    · have hcourse : Course ph₀ ((x.MARK .on_url).pos + 1) (x.MARK .on_url) ph := by
        rw [MARK_pos]
        exact h.toCourse.of_calls (MARK_calls _ _)
      exact MARK_pos x .on_url ▸ holds_urlChar hcourse ((MARK_inner _ _).trans hin)
        (mark_none hm _) hph (by rw [parser_MARK, ht])
  | _ =>
    obtain ⟨hm, hph, ht⟩ := hfits
    first
    | exact holds_url_schema h.toCourse hin hm hph ht
    | exact holds_url_end h.toCourse hin hm hph ht

/-- The byte in front of the version makes no callback. -/
theorem holds_req_http_start (h : Inv ph₀ (x.pos + 1) x ph) (hin : x.inner = none)
    (hfits : InPhase .s_req_http_H x.parser.flags.F_TRAILING (x.mark.map Prod.fst) ph) :
    Holds ph₀ x.pos (x.s_req_http_start ch) := by
  unfold s_req_http_start
  split_ifs
  · exact holds_stay h hin
  · exact holds_with_state (p := { x.parser with state := .s_req_http_H }) h.toCourse hin rfl hfits
  · exact holds_with_state (p := { x.parser with state := .s_req_http_I }) h.toCourse hin rfl hfits
  · exact holds_fail h.toCourse _

/-- What fits after the first line. -/
theorem fits_line (h : InPhase .s_req_line_almost_done x.parser.flags.F_TRAILING
    (x.mark.map Prod.fst) ph) :
    InPhase .s_header_field_start x.parser.flags.F_TRAILING (x.mark.map Prod.fst) ph := by
  obtain ⟨hm, hph, ht⟩ := h
  rw [ht]
  exact ⟨hm, .inl hph⟩

/-- The end of the request line makes no callback. -/
theorem holds_req_http_end (h : Course ph₀ (x.pos + 1) x ph) (hin : x.inner = none)
    (hfits : InPhase .s_req_line_almost_done x.parser.flags.F_TRAILING (x.mark.map Prod.fst) ph) :
    Holds ph₀ x.pos (x.s_req_http_end ch) := by
  unfold s_req_http_end
  split_ifs
  · exact holds_with_state (p := { x.parser with state := .s_req_line_almost_done }) h hin rfl hfits
  · exact holds_with_state (p := { x.parser with state := .s_header_field_start }) h hin rfl
      (fits_line hfits)
  · exact holds_fail h _

/-! ### Bodies -/

/-- The first digit of a chunk's length. -/
theorem holds_chunk_size_start (h : Course ph₀ (x.pos + 1) x ph) (hin : x.inner = none)
    (hfits : InPhase .s_chunk_size x.parser.flags.F_TRAILING (x.mark.map Prod.fst) ph) :
    Holds ph₀ x.pos (x.s_chunk_size_start ch) := by
  unfold s_chunk_size_start
  split
  · exact holds_fail h _
  case h_2 digit _ =>
    exact holds_with_state
      (p := { x.parser with content_length := digit, state := .s_chunk_size }) h
      hin rfl hfits

/-- A further digit of a chunk's length, or what ends it. -/
theorem holds_chunk_size (h : Course ph₀ (x.pos + 1) x ph) (hin : x.inner = none)
    (hst : x.parser.state = .s_chunk_size)
    (hfits : InPhase .s_chunk_size x.parser.flags.F_TRAILING (x.mark.map Prod.fst) ph) :
    Holds ph₀ x.pos (x.s_chunk_size ch) := by
  unfold s_chunk_size
  split
  · exact holds_with_state (p := { x.parser with state := .s_chunk_size_almost_done }) h hin
      rfl hfits
  · split
    · split
      · exact holds_with_state (p := { x.parser with state := .s_chunk_parameters }) h hin rfl hfits
      · exact holds_fail h _
    · split
      · exact holds_fail h _
      · refine holds_with_state h hin rfl ?_
        dsimp only
        rw [hst]
        exact hfits

/-- What stands behind a chunk's length is passed over. -/
theorem holds_chunk_parameters (h : Inv ph₀ (x.pos + 1) x ph) (hin : x.inner = none)
    (hfits : InPhase .s_chunk_size x.parser.flags.F_TRAILING (x.mark.map Prod.fst) ph) :
    Holds ph₀ x.pos (x.s_chunk_parameters ch) := by
  unfold s_chunk_parameters
  split
  · exact holds_with_state (p := { x.parser with state := .s_chunk_size_almost_done })
      h.toCourse hin
      rfl hfits
  · exact holds_stay h hin

/-- The end of the line with a chunk's length: `on_chunk_header`, and the data
or the trailer follows. -/
theorem holds_chunk_size_almost_done (h : Course ph₀ (x.pos + 1) x ph) (hin : x.inner = none)
    (hm : x.mark.map Prod.fst = none) (hph : ph = .body ∨ ph = .chunk_done) :
    Holds ph₀ x.pos (x.s_chunk_size_almost_done ch) := by
  have hnext : ph.next (.notify .on_chunk_header) = some .chunk := by
    rcases hph with rfl | rfl <;> rfl
  have hheader : NotifyCb.on_chunk_header ≠ .on_message_complete := nofun
  unfold s_chunk_size_almost_done
  split
  · exact holds_fail h _
  · dsimp only
    split_ifs
    · exact holds_notify (p := { x.parser with
        nread := 0, flags.F_TRAILING := true, state := .s_header_field_start }) h hin hnext hheader
        ⟨hm, .inl rfl⟩
    · exact holds_notify (p := { x.parser with nread := 0, state := .s_chunk_data }) h hin hnext
        hheader ⟨.inl hm, .inl rfl⟩

/-- What a mark fits that may be set already. -/
theorem fits_body (hm : x.mark.map Prod.fst = none ∨ x.mark.map Prod.fst = some .on_body) :
    (x.MARK .on_body).mark.map Prod.fst = some .on_body := by
  rcases hm with hm | hm
  · exact mark_none hm _
  · unfold MARK
    obtain ⟨m, hmark, -⟩ := Option.map_eq_some_iff.1 hm
    rw [hmark] at hm ⊢
    exact (congrArg (Option.map Prod.fst) hmark).trans hm

/-- The data of a chunk, as much of it as the call has: `on_body` at its end. -/
theorem holds_chunk_data (h : Course ph₀ (x.pos + 1) x ph) (hin : x.inner = none)
    (hst : x.parser.state = .s_chunk_data)
    (hm : x.mark.map Prod.fst = none ∨ x.mark.map Prod.fst = some .on_body)
    (hph : ph = .chunk ∨ ph = .chunk_data) : Holds ph₀ x.pos (x.s_chunk_data ch) := by
  have hstay : (x.MARK .on_body).parser.state = .s_chunk_data := by rw [parser_MARK, hst]
  unfold s_chunk_data
  dsimp only
  refine holds_ok (h.of_calls ?_) ?_ ?_ ?_
  · split_ifs <;> exact MARK_calls _ _
  · unfold FitsAt
    split_ifs
    · exact .inl ⟨fits_body hm, hph⟩
    · dsimp only
      rw [hstay]
      exact ⟨.inr (fits_body hm), hph⟩
  · split_ifs <;> exact MARK_pos _ _
  · split_ifs <;> exact (MARK_inner _ _).trans hin

/-- `on_body` with the rest of a chunk, if there is one. -/
theorem holds_chunk_data_almost_done (h : Course ph₀ (x.pos + 1) x ph) (hin : x.inner = none)
    (hfits : InPhase .s_chunk_data_almost_done x.parser.flags.F_TRAILING (x.mark.map Prod.fst) ph) :
    Holds ph₀ x.pos (x.s_chunk_data_almost_done ch) := by
  unfold s_chunk_data_almost_done
  split
  · exact holds_fail h _
  · rcases hfits with ⟨hm, hph⟩ | ⟨hm, rfl⟩
    · have hstay : InPhase .s_chunk_data_done x.parser.flags.F_TRAILING none .chunk_data :=
        ⟨rfl, rfl⟩
      refine holds_flush (p := { x.parser with state := .s_chunk_data_done }) h hin hm
        (fun _ => ?_) rfl hstay
      rcases hph with rfl | rfl <;> rfl
    · have hmark := Option.map_eq_none_iff.1 hm
      have hdata : (x.UPDATE_STATE .s_chunk_data_done).CALLBACK_DATA (x.pos + 1) =
          x.UPDATE_STATE .s_chunk_data_done := by
        unfold CALLBACK_DATA UPDATE_STATE
        dsimp only
        rw [hmark]
      rw [hdata]
      exact holds_with_state (p := { x.parser with state := .s_chunk_data_done }) h hin rfl
        ⟨hm, rfl⟩

/-- The line end behind a chunk's data: `on_chunk_complete`. -/
theorem holds_chunk_data_done (h : Course ph₀ (x.pos + 1) x ph) (hin : x.inner = none)
    (hm : x.mark.map Prod.fst = none) (hph : ph = .chunk_data) :
    Holds ph₀ x.pos (x.s_chunk_data_done ch) := by
  subst hph
  have hcomplete : NotifyCb.on_chunk_complete ≠ .on_message_complete := nofun
  unfold s_chunk_data_done
  split
  · exact holds_fail h _
  · exact holds_notify (p := { x.parser with nread := 0, state := .s_chunk_size_start }) h hin rfl
      hcomplete ⟨hm, .inr rfl⟩

/-- A body with a length, as much of it as the call has: `on_body`, and at its
last byte `on_message_complete`. -/
theorem holds_body_identity (h : Course ph₀ (x.pos + 1) x ph) (hin : x.inner = none)
    (hst : x.parser.state = .s_body_identity)
    (hm : x.mark.map Prod.fst = none ∨ x.mark.map Prod.fst = some .on_body)
    (hph : ph = .body ∨ ph = .identity) : Holds ph₀ x.pos (x.s_body_identity ch) := by
  have hstay : (x.MARK .on_body).parser.state = .s_body_identity := by rw [parser_MARK, hst]
  have hnext : ∀ t, ph.next (.data .on_body t) = some .identity := by
    intro t
    rcases hph with rfl | rfl <;> rfl
  have hcourse := h.of_calls (MARK_calls x .on_body)
  have hpos := MARK_pos x .on_body
  have hinner := (MARK_inner x .on_body).trans hin
  have hmark := fits_body hm
  unfold s_body_identity
  dsimp only
  generalize x.MARK .on_body = y at *
  rw [← hpos] at hcourse ⊢
  split
  · obtain ⟨hdata, hnone⟩ := Course.flush (x := ({ y with
        parser.content_length := y.parser.content_length - 1,
        parser.state := .s_message_done } : Exec).extend ch)
      (hcourse.of_calls rfl) (by
        unfold extend
        rw [Option.map_map]
        exact hmark) hnext (Nat.le_succ y.pos)
    have hdone := holds_message_done ch (hdata.mono (by
      rw [CALLBACK_DATA_pos]
      exact le_rfl)) ((CALLBACK_DATA_inner _ _).trans hinner) hnone (.inl rfl)
    rw [CALLBACK_DATA_pos] at hdone
    exact hdone
  · refine holds_ok (hcourse.of_calls rfl) ?_ rfl hinner
    unfold FitsAt
    dsimp only
    rw [hstay]
    exact ⟨.inr hmark, hph⟩

/-- A body up to the end of the connection takes all that is left of the call. -/
theorem holds_body_identity_eof (h : Course ph₀ (x.pos + 1) x ph) (hin : x.inner = none)
    (hst : x.parser.state = .s_body_identity_eof)
    (hm : x.mark.map Prod.fst = none ∨ x.mark.map Prod.fst = some .on_body)
    (hph : ph = .body ∨ ph = .identity) : Holds ph₀ x.pos (.ok (x.MARK .on_body)) := by
  refine holds_ok (h.of_calls (MARK_calls _ _)) ?_ (MARK_pos _ _) ((MARK_inner _ _).trans hin)
  unfold FitsAt
  rw [parser_MARK, hst]
  exact ⟨.inr (fits_body hm), hph⟩

/-! ### The loop -/

/-- **A branch of the `switch`.** -/
theorem holds_switch (h : Inv ph₀ (x.pos + 1) x ph) (hin : x.inner = none) :
    Holds ph₀ x.pos (x.switch M ch) := by
  have hc := h.toCourse
  unfold switch
  cases hst : x.parser.state with
  | url s => exact holds_url h hin hst
  | s_start_res => exact holds_start_res h hin (h.fits_of hst).1 (h.fits_of hst).2
  | s_start_req => exact holds_start_req h hin (h.fits_of hst).1 (h.fits_of hst).2
  | s_res_status_code =>
    obtain ⟨hm, hph, ht⟩ := h.fits_of hst
    exact holds_res_status_code h hin hst hm hph ht
  | s_res_status_start =>
    obtain ⟨hm, hph, ht⟩ := h.fits_of hst
    exact holds_res_status_start hc hin hm hph ht
  | s_res_status =>
    obtain ⟨hm, hph, ht⟩ := h.fits_of hst
    exact holds_res_status hc hin hst hm hph ht
  | s_req_method =>
    obtain ⟨hm, hph, ht⟩ := h.fits_of hst
    exact holds_req_method hc hin hst hm hph ht
  | s_res_first_status_code => exact holds_res_first_status_code h hin (h.fits_of hst :)
  | s_req_http_start => exact holds_req_http_start h hin (h.fits_of hst :)
  | s_req_http_end => exact holds_req_http_end hc hin (h.fits_of hst :)
  | s_res_http_major | s_res_http_minor | s_req_http_major | s_req_http_minor =>
    exact holds_version hc hin (fun _ => rfl) (h.fits_of hst :)
  | s_res_line_almost_done | s_req_line_almost_done =>
    exact holds_expect hc hin (fits_line (h.fits_of hst :))
  | s_header_field_start =>
    exact holds_header_field_start hc hin (h.fits_of hst).1 (h.fits_of hst).2
  | s_header_field => exact holds_header_field hc hst (h.fits_of hst).1 (h.fits_of hst).2 0
  | s_header_value_discard_ws =>
    exact holds_header_value_discard_ws hc hin hst (h.fits_of hst).1 (h.fits_of hst).2
  | s_header_value_discard_lws =>
    exact holds_header_value_discard_lws hc hin (h.fits_of hst).1 (h.fits_of hst).2
  | s_header_value_start =>
    exact holds_header_value_start hc hin (h.fits_of hst).1 (h.fits_of hst).2
  | s_header_value => exact holds_header_value hc hst (h.fits_of hst).1 (h.fits_of hst).2 0
  | s_header_value_lws => exact holds_header_value_lws hc hin (h.fits_of hst).1 (h.fits_of hst).2
  | s_chunk_size_start => exact holds_chunk_size_start hc hin (h.fits_of hst :)
  | s_chunk_size => exact holds_chunk_size hc hin hst (h.fits_of hst)
  | s_chunk_parameters => exact holds_chunk_parameters h hin (h.fits_of hst :)
  | s_chunk_size_almost_done =>
    exact holds_chunk_size_almost_done hc hin (h.fits_of hst).1 (h.fits_of hst).2
  | s_headers_almost_done =>
    exact holds_headers_almost_done hc hin (Option.map_eq_none_iff.1 (h.fits_of hst).1)
      (h.fits_of hst).2
  | s_headers_done =>
    obtain ⟨hm, rfl⟩ := h.fits_of hst
    exact holds_headers_done hc hin (Option.map_eq_none_iff.1 hm)
  | s_chunk_data => exact holds_chunk_data hc hin hst (h.fits_of hst).1 (h.fits_of hst).2
  | s_chunk_data_almost_done => exact holds_chunk_data_almost_done hc hin (h.fits_of hst)
  | s_chunk_data_done => exact holds_chunk_data_done hc hin (h.fits_of hst).1 (h.fits_of hst).2
  | s_body_identity => exact holds_body_identity hc hin hst (h.fits_of hst).1 (h.fits_of hst).2
  | s_body_identity_eof =>
    exact holds_body_identity_eof hc hin hst (h.fits_of hst).1 (h.fits_of hst).2
  | s_message_done =>
    obtain ⟨hm, hph⟩ := h.fits_of hst
    exact holds_message_done _ hc hin (Option.map_eq_none_iff.1 hm) hph
  | _ => exact holds_expect hc hin (h.fits_of hst :)

/-- The invariant with a greater bound on the counts. -/
theorem Inv.mono {m : ℕ} (h : Inv ph₀ n x ph) (hle : n ≤ m) : Inv ph₀ m x ph :=
  ⟨h.toCourse.mono hle, h.fits⟩

/-- **What is done with a byte.** -/
theorem holds_step (ch : UInt8) (h : Inv ph₀ x.pos x ph) (hloop : x.InLoop) :
    Holds ph₀ x.pos (x.step M ch) := by
  have h := h.mono (Nat.le_succ x.pos)
  unfold step
  split
  case h_1 k hinner =>
    have hstates := hloop.resolve_left (by rw [hinner]; exact nofun)
    split
    case isTrue hst =>
      exact holds_header_field h.toCourse hst (h.fits_of hst).1 (h.fits_of hst).2 k
    case isFalse hfield =>
      have hst := hstates.resolve_left hfield
      exact holds_header_value h.toCourse hst (h.fits_of hst).1 (h.fits_of hst).2 k
  case h_2 hinner =>
    split
    · exact holds_count h.toCourse fun nread =>
        holds_switch (x := { x with nread := nread }) ⟨h.toCourse.of_calls rfl, h.fits⟩ hinner
    · exact holds_switch h hinner

/-- The next byte is read with the invariant as it was. -/
theorem Inv.advance (h : Inv ph₀ (x.pos + 1) x ph) (ch : UInt8) :
    Inv ph₀ (x.advance ch).pos (x.advance ch) ph := by
  refine ⟨h.toCourse.of_calls rfl, ?_⟩
  have hmark : (x.advance ch).mark.map Prod.fst = x.mark.map Prod.fst := by
    unfold Exec.advance extend
    rw [Option.map_map]
    rfl
  have hfits := h.fits
  unfold FitsAt at hfits ⊢
  rw [hmark]
  exact hfits

end Exec

open Exec

/-! ### A call -/

/-- How a call ends that has begun in the phase `ph₀`: in order, and without an
error so that another one may follow.  Without an error and a complete message
it has taken all bytes. -/
structure Called (ph₀ : Phase) (len : ℕ) (r : Run CParser) : Prop extends
    Ordered ph₀ len r.callbacks where
  count : r.count ≤ len
  all : r.error = none → NoneComplete r.callbacks → r.count = len
  again : r.error = none → Again ph₀ r

namespace Exec

variable {M n : ℕ} {ph₀ ph : Phase} {x : Exec}

/-- A call that returns in the middle of its bytes. -/
theorem called_of_error {len : ℕ} {r : Run CParser} (h : Holds ph₀ n (.error r))
    (hle : n + 1 ≤ len) : Called ph₀ len r := by
  obtain ⟨hordered, hcount, hend⟩ := h
  refine ⟨⟨hordered.after, fun e he => ?_⟩, hcount.trans hle, fun hnone hcalls => ?_,
    fun hnone => (hend hnone).2⟩
  · exact ⟨(hordered.bound e he).1.trans hle, (hordered.bound e he).2⟩
  · exact absurd hcalls (hend hnone).1

/-- A state without a mark begins a call without one. -/
theorem fits_markOf {s : ParseState} {t : Bool} (h : InPhase s t none ph) : markOf s = none := by
  cases s with
  | url s => cases s <;> first | rfl | exact absurd h.1 nofun
  | s_res_status | s_header_field | s_header_value => exact absurd h.1 nofun
  | _ => rfl

/-- The callback for a mark at the end of a call is in order, and the next call
may go on. -/
theorem fits_flush {s : ParseState} {t : Bool} {cb : DataCb} (h : InPhase s t (some cb) ph)
    (text : Bytes) : ∃ ph', ph.next (.data cb text) = some ph' ∧ InPhase s t (markOf s) ph' := by
  cases s with
  | url s =>
    cases s with
    | s_dead | s_req_spaces_before_url => exact absurd h.1 nofun
    | _ =>
      obtain ⟨hm, rfl, ht⟩ := h
      cases hm
      exact ⟨.line, rfl, rfl, rfl, ht⟩
  | s_res_status =>
    obtain ⟨hm, rfl, ht⟩ := h
    cases hm
    exact ⟨.line, rfl, rfl, rfl, ht⟩
  | s_header_field =>
    obtain ⟨hm, hph⟩ := h
    cases hm
    exact ⟨.field t, next_field hph text, rfl, .inr rfl⟩
  | s_header_value =>
    obtain ⟨hm, hph⟩ := h
    cases hm
    exact ⟨.value t, next_value hph text, rfl, .inr rfl⟩
  | s_body_identity | s_body_identity_eof =>
    obtain ⟨hm | hm, rfl | rfl⟩ := h <;> cases hm <;> exact ⟨.identity, rfl, .inl rfl, .inr rfl⟩
  | s_chunk_data =>
    obtain ⟨hm | hm, rfl | rfl⟩ := h <;> cases hm <;> exact ⟨.chunk_data, rfl, .inl rfl, .inr rfl⟩
  | s_chunk_data_almost_done =>
    obtain ⟨hm, rfl | rfl⟩ | ⟨hm, -⟩ := h <;> cases hm <;>
      exact ⟨.chunk_data, rfl, .inr ⟨rfl, rfl⟩⟩
  | _ => exact absurd h.1 nofun

/-- After the last byte. -/
theorem called_flush (h : Inv ph₀ n x ph) :
    Called ph₀ n ⟨(x.CALLBACK_DATA n).calls,
      { (x.CALLBACK_DATA n).parser with nread := (x.CALLBACK_DATA n).nread }, n, none⟩ := by
  have hfits := h.fits
  unfold FitsAt at hfits
  have hend : ∃ ph', Course ph₀ n (x.CALLBACK_DATA n) ph' ∧
      InPhase x.parser.state x.parser.flags.F_TRAILING (markOf x.parser.state) ph' := by
    rcases hmark : x.mark with _ | ⟨cb, text⟩
    · have hdata : x.CALLBACK_DATA n = x := by
        unfold CALLBACK_DATA
        rw [hmark]
      rw [hmark] at hfits
      rw [hdata, fits_markOf hfits]
      exact ⟨ph, h.toCourse, hfits⟩
    · rw [hmark] at hfits
      obtain ⟨ph', hnext, hagain⟩ := fits_flush hfits text
      exact ⟨ph', (h.toCourse.data hmark hnext le_rfl).1, hagain⟩
  obtain ⟨ph', hcourse, hagain⟩ := hend
  refine ⟨hcourse.ordered, le_rfl, fun _ _ => rfl, fun _ => ⟨ph', hcourse.after, ?_⟩⟩
  dsimp only
  rw [parser_CALLBACK_DATA]
  exact hagain

/-- The end of a call: the data that is marked is told to the next one as a part
of its own. -/
theorem called_finish (h : Inv ph₀ x.pos x ph) : Called ph₀ x.pos (x.finish M) := by
  unfold finish
  cases hinner : x.inner with
  | none => exact called_flush h
  | some k =>
    dsimp only
    unfold leave COUNT_HEADER_SIZE
    dsimp only
    split
    case h_1 r herror =>
      split at herror
      · cases herror
        exact ⟨h.ordered, Nat.sub_le _ _, nofun, nofun⟩
      · cases herror
    case h_2 y hok =>
      split at hok
      · cases hok
      · cases hok
        exact called_flush ⟨h.toCourse.of_calls rfl, h.fits⟩

/-- **A call in the middle**: from a state that fits, whatever bytes follow. -/
theorem called_run (data : Bytes) (h : Inv ph₀ x.pos x ph) (hloop : x.InLoop) :
    Called ph₀ (x.pos + data.length) (x.run M data) := by
  induction data generalizing x ph with
  | nil => exact called_finish h
  | cons ch data ih =>
    have hstep := holds_step (M := M) ch h hloop
    have hlen : x.pos + (ch :: data).length = x.pos + 1 + data.length := by
      rw [List.length_cons]
      omega
    unfold run
    cases hx : x.step M ch with
    | error r =>
      rw [hx] at hstep
      exact called_of_error hstep (by omega)
    | ok y =>
      rw [hx] at hstep
      obtain ⟨⟨ph', hinv⟩, hpos, hin⟩ := hstep
      have hrest := ih (x := y.advance ch) (Inv.advance (hpos ▸ hinv) ch) hin
      rw [hlen, ← hpos]
      exact hrest

end Exec

/-- The phase after a call that has begun in a fitting state. -/
theorem called_execute (M : ℕ) {p : CParser} {ph : Phase}
    (h : InPhase p.state p.flags.F_TRAILING (markOf p.state) ph) {data : Bytes}
    (hdata : data ≠ []) :
    Called ph data.length (http_parser_execute M p data) := by
  have hmark : ((markOf p.state).map fun cb => (cb, ([] : Bytes))).map Prod.fst =
      markOf p.state := by
    rw [Option.map_map]
    exact congrFun Option.map_id _
  have hcourse : Exec.Course ph (Exec.init p).pos (Exec.init p) ph :=
    ⟨rfl, fun e he => absurd he List.not_mem_nil⟩
  have hinit : Inv ph (Exec.init p).pos (Exec.init p) ph := by
    refine ⟨hcourse, ?_⟩
    unfold FitsAt Exec.init
    dsimp only
    rw [hmark]
    exact h
  unfold http_parser_execute
  rw [if_neg hdata]
  have hrun := called_run (M := M) data hinit (.inl rfl)
  rwa [show (Exec.init p).pos = 0 from rfl, Nat.zero_add] at hrun

/-! ### Calls one after the other -/

/-- The callbacks of calls with successive bytes, up to the first error. -/
def feed (M : ℕ) : CParser → List Bytes → List Callback
  | _, [] => []
  | p, data :: reads =>
    let r := http_parser_execute M p data
    r.callbacks.map Prod.fst ++ if r.error = none then feed M r.parser reads else []

/-- A new parser is before a message, without a mark. -/
theorem fits_init (isRequest : Bool) :
    InPhase (http_parser_init isRequest).state (http_parser_init isRequest).flags.F_TRAILING
      (markOf (http_parser_init isRequest).state) .idle := by
  cases isRequest <;> exact ⟨rfl, rfl⟩

/-- The call for the end of the file completes a body that has no length. -/
theorem after_eof (M : ℕ) {p : CParser} {ph : Phase}
    (h : InPhase p.state p.flags.F_TRAILING (markOf p.state) ph) :
    (ph.after (feed M p [[]])).isSome = true := by
  have hfeed : feed M p [[]] = (http_parser_execute M p []).callbacks.map Prod.fst := by
    unfold feed feed
    dsimp only
    rw [ite_self, List.append_nil]
  rw [hfeed]
  unfold http_parser_execute
  rw [if_pos rfl]
  split
  case h_1 hst =>
    rw [hst] at h
    obtain ⟨-, rfl | rfl⟩ := h <;> rfl
  all_goals rfl

/-- The reads of a connection, one call after the other and the last one empty,
keep all callbacks in order. -/
theorem after_feed (M : ℕ) (reads : List Bytes) (hne : ∀ data ∈ reads, data ≠ []) {p : CParser}
    {ph : Phase} (h : InPhase p.state p.flags.F_TRAILING (markOf p.state) ph) :
    (ph.after (feed M p (reads ++ [[]]))).isSome = true := by
  induction reads generalizing p ph with
  | nil => exact after_eof M h
  | cons data reads ih =>
    have hcall := called_execute M h (hne data List.mem_cons_self)
    rw [List.cons_append]
    unfold feed
    dsimp only
    by_cases herror : (http_parser_execute M p data).error = none
    · obtain ⟨ph', hafter, hagain⟩ := hcall.again herror
      rw [if_pos herror, Phase.after_append, hafter]
      exact ih (fun d hd => hne d (List.mem_cons_of_mem _ hd)) hagain
    · rw [if_neg herror, List.append_nil]
      exact hcall.after

/-- **The callbacks come in the order of a message.**  For a new parser, any limit on
the size of a head, any bytes in any calls that give it some, and an end of the file:
the sequence of all callbacks is one that the states of a message allow. -/
theorem callback_order (M : ℕ) (isRequest : Bool) (reads : List Bytes)
    (hne : ∀ data ∈ reads, data ≠ []) :
    (Phase.idle.after (feed M (http_parser_init isRequest) (reads ++ [[]]))).isSome = true :=
  after_feed M reads hne (fits_init isRequest)

/-- A header in two pieces. -/
theorem callback_order_two :
    (Phase.idle.after (feed 80 (http_parser_init true)
      ([text "GET / HTTP/1.1\r\nHo", text "st: a\r\n\r\n"] ++ [[]]))).isSome = true :=
  callback_order 80 true [text "GET / HTTP/1.1\r\nHo", text "st: a\r\n\r\n"] (by
    simp only [List.mem_cons, List.not_mem_nil, or_false, forall_eq_or_imp, forall_eq]
    exact ⟨by decide +kernel, by decide +kernel⟩)

/-! ### What `HttpCodec` relies on -/

/-- The real parser is sound in the sense of the codec: it completes a message
within the bytes of the call, and without a message or an error it takes all of
them. -/
theorem sound_httpParser (M : UInt32) (isRequest : Bool) : (httpParser M).Sound isRequest where
  complete data hdata e he hcomplete := by
    have hcall := called_execute M.toNat (fits_init isRequest) hdata
    exact ⟨(hcall.bound e he).2 hcomplete, (hcall.bound e he).1⟩
  rest data hcalls herror := by
    by_cases hdata : data = []
    · subst hdata
      cases isRequest <;> rfl
    · exact (called_execute M.toNat (fits_init isRequest) hdata).all herror hcalls

/-- **The codec with `http_parser`.**  What the codec relies on is so of the
parser it has, whatever the limit of the headers.  So every history of a
connection goes through, and the bytes of the messages handed over and those of
the buffer are the bytes received. -/
theorem codec_keeps_bytes (M : UInt32) (isRequest : Bool) :
    (httpParser M).Sound isRequest ∧ ∀ calls, ∃ conn,
      Transition.run (Codec.step (httpParser M) isRequest)
        (Codec.onConnection (httpParser M) isRequest) calls = some conn ∧
      conn.delivered ++ conn.inputBuf = Codec.received calls := by
  have hlib := sound_httpParser M isRequest
  refine ⟨hlib, fun calls => ?_⟩
  have hinit : Codec.Fresh (httpParser M) isRequest
      (Codec.onConnection (httpParser M) isRequest).parser := Codec.fresh_init _ isRequest
  obtain ⟨conn, hrun, -, hbytes⟩ := Codec.run_total hlib calls hinit
  exact ⟨conn, hrun, hbytes⟩

end Http
end Net
end Sevent
