/-
# What `HttpCodec::onMessage` takes out of the buffer

`Frames` cuts the bytes of a buffer into complete messages and a tail, by new
parsers alone.  The parser of a connection is not a new one: earlier calls have
left contents in it, and `reset` does not empty them.  But its `http_parser` has
been initialized whenever a round begins (`Fresh`), and that decides where a
message ends.  So the loop of `onMessage` comes to its end and takes out the
messages of `Frames` (`parseLoop_total`), and over any history no byte is lost
or handed over twice (`http_framing`).

As long as the connection is open the loop is that of `Net/Http/HttpParser`
(`parseLoop_refines`).
-/

import Sevent.Net.Http.HttpCodec

namespace Sevent
namespace Net
namespace Http
namespace Codec

open Transition

variable {P : Type*}

/-- The messages at the front of the bytes, each the bytes that a new parser
takes to complete, and the tail, in which a new parser does not complete. -/
inductive Frames (lib : Library P) (isRequest onClose : Bool) : Bytes → List Bytes → Bytes → Prop
  | tail {rest : Bytes} (h : rest = [] ∨
      ((Parser.init lib isRequest).attempt lib onClose rest).parser.isComplete = false) :
    Frames lib isRequest onClose rest [] rest
  | message {rest t : Bytes} {ms : List Bytes} (hne : rest ≠ [])
      (hcomplete : ((Parser.init lib isRequest).attempt lib onClose rest).parser.isComplete = true)
      (h : Frames lib isRequest onClose
        (rest.drop ((Parser.init lib isRequest).attempt lib onClose rest).count) ms t) :
    Frames lib isRequest onClose rest
      (rest.take ((Parser.init lib isRequest).attempt lib onClose rest).count :: ms) t

variable {lib : Library P} {isRequest : Bool} {onClose : Bool} {conn : Conn P}

/-- Messages and tail are the bytes. -/
theorem Frames.flatten_append {rest t : Bytes} {ms : List Bytes}
    (h : Frames lib isRequest onClose rest ms t) : ms.flatten ++ t = rest := by
  induction h with
  | tail _ => rfl
  | message _ _ _ ih => rw [List.flatten_cons, List.append_assoc, ih, List.take_append_drop]

/-- There is one way to cut the bytes. -/
theorem Frames.unique {rest t t' : Bytes} {ms ms' : List Bytes}
    (h : Frames lib isRequest onClose rest ms t) (h' : Frames lib isRequest onClose rest ms' t') :
    ms = ms' ∧ t = t' := by
  induction h generalizing ms' t' with
  | tail hrest =>
    cases h' with
    | tail _ => exact ⟨rfl, rfl⟩
    | message hne hcomplete _ =>
      rcases hrest with hnil | hnot
      · exact absurd hnil hne
      · exact absurd (hcomplete.symm.trans hnot) Bool.noConfusion
  | message hne hcomplete _ ih =>
    cases h' with
    | tail hrest =>
      rcases hrest with hnil | hnot
      · exact absurd hnil hne
      · exact absurd (hcomplete.symm.trans hnot) Bool.noConfusion
    | message _ _ h' =>
      obtain ⟨hms, ht⟩ := ih h'
      exact ⟨congrArg _ hms, ht⟩

/-! ### The parser at the beginning of a round -/

/-- Nothing of earlier calls is left in the `http_parser`. -/
structure Fresh (lib : Library P) (isRequest : Bool) (p : Parser P) : Prop where
  http_errno : p.http_errno = .HPE_OK
  parser : p.parser = lib.http_parser_init isRequest
  request : p.request = isRequest

/-- The parser of a new connection is fresh. -/
theorem fresh_init (lib : Library P) (isRequest : Bool) :
    Fresh lib isRequest (.init lib isRequest) := ⟨rfl, rfl, rfl⟩

/-- No callback changes whether the parser is for requests. -/
theorem runCallbacks_request (p : HttpParser) (r : Run P) (cbs : List (Callback × P × ℕ)) :
    (Parser.runCallbacks p r cbs).parser.request = p.request := by
  induction cbs generalizing p with
  | nil => rfl
  | cons x cbs ih =>
    have hcall := p.call_request x.1
    unfold Parser.runCallbacks
    dsimp only
    by_cases hok : (p.call x.1).http_errno = .HPE_OK
    · rw [if_pos hok]
      exact (ih _).trans hcall
    · rw [if_neg hok]
      exact hcall

/-- A new round is for the same kind of message. -/
theorem start_request (p : Parser P) : p.start.request = p.request := by
  unfold Parser.start HttpParser.unpause
  split_ifs <;> rfl

/-- A call of the parser is for the same kind of message. -/
theorem execute_request (lib : Library P) (p : Parser P) (data : Bytes) :
    (p.execute lib data).parser.request = p.request := by
  unfold Parser.execute
  split_ifs
  · exact (runCallbacks_request _ _ _).trans (start_request p)
  · exact start_request p

/-- A round is for the same kind of message. -/
theorem attempt_request (lib : Library P) (onClose : Bool) (p : Parser P) (data : Bytes) :
    (p.attempt lib onClose data).parser.request = p.request := by
  unfold Parser.attempt
  dsimp only
  split_ifs
  · exact (execute_request _ _ _).trans (execute_request _ _ _)
  · exact execute_request _ _ _

/-- A round that completes no message leaves the parser initialized. -/
theorem fresh_reset {p : Parser P} (h : p.request = isRequest) :
    Fresh lib isRequest (p.reset lib) :=
  ⟨rfl, congrArg lib.http_parser_init h, h⟩

/-! ### The loop -/

/-- What the loop leaves, with the messages it returns. -/
structure Looped (lib : Library P) (isRequest : Bool) (conn conn' : Conn P)
    (parserList : List (Bytes × HttpParser)) : Prop where
  frames : Frames lib isRequest conn.onClose conn.inputBuf (parserList.map Prod.fst)
    conn'.inputBuf
  fresh : Fresh lib isRequest conn'.parser
  onClose : conn'.onClose = conn.onClose
  handed : conn'.handed = conn.handed
  pauses : Clean conn'.pauses ↔
    Clean conn.pauses ∧ ¬ Stuck lib isRequest conn.onClose conn'.inputBuf

/-- The calls of `execute` in the next round. -/
def Conn.round (conn : Conn P) (lib : Library P) : Executed P :=
  conn.parser.attempt lib conn.onClose conn.inputBuf

/-- The connection after a round that completes a message. -/
def Conn.taken (conn : Conn P) (lib : Library P) (isRequest : Bool) : Conn P :=
  { conn with
    inputBuf := conn.inputBuf.drop (conn.round lib).count
    parser := .init lib isRequest
    pauses := conn.pauses ++ (conn.round lib).pauses }

/-- The connection after one that does not. -/
def Conn.kept (conn : Conn P) (lib : Library P) : Conn P :=
  { conn with
    parser := (conn.round lib).parser.reset lib
    shutdown := conn.shutdown || (conn.round lib).parser.getErr != .HPE_OK
    pauses := conn.pauses ++ (conn.round lib).pauses }

/-- With nothing in the buffer the loop of `onMessage` is over. -/
theorem parseLoop_nil (hnil : conn.inputBuf = []) {fuel : ℕ} (hfuel : 0 < fuel) :
    parseLoop lib isRequest fuel conn = some (conn, []) := by
  obtain ⟨fuel, rfl⟩ := Nat.exists_eq_succ_of_ne_zero (Nat.ne_zero_of_lt hfuel)
  exact if_pos hnil

/-- A round with a complete message hands it over and goes on with the bytes
behind it and a parser that was reset. -/
theorem parseLoop_taken (hne : conn.inputBuf ≠ [])
    (h : (conn.round lib).parser.isComplete = true) (fuel : ℕ) :
    parseLoop lib isRequest (fuel + 1) conn =
      (parseLoop lib isRequest fuel (conn.taken lib isRequest)).map fun r =>
        (r.1, (conn.inputBuf.take (conn.round lib).count,
          (conn.round lib).parser.toHttpParser) :: r.2) := by
  rw [parseLoop, if_neg hne]
  exact if_pos h

/-- A round without a complete message is the last one; its bytes stay. -/
theorem parseLoop_kept (hne : conn.inputBuf ≠ [])
    (h : ¬ (conn.round lib).parser.isComplete = true) (fuel : ℕ) :
    parseLoop lib isRequest (fuel + 1) conn = some (conn.kept lib, []) := by
  rw [parseLoop, if_neg hne]
  exact if_neg h

section Rounds

variable (hfresh : Fresh lib isRequest conn.parser)
include hfresh

/-- The parser of the connection does what a new one would do. -/
theorem alike_round : Alike (conn.round lib)
    ((Parser.init lib isRequest).attempt lib conn.onClose conn.inputBuf) :=
  alike_attempt lib conn.onClose hfresh.http_errno hfresh.parser conn.inputBuf

/-- Whether a round completes a message is what a new parser would find. -/
theorem isComplete_round : (conn.round lib).parser.isComplete =
    ((Parser.init lib isRequest).attempt lib conn.onClose conn.inputBuf).parser.isComplete :=
  congrArg (fun s => decide (s = Status.completed)) (alike_round hfresh).same.state

/-- A round pauses the library exactly when a new parser would get stuck there. -/
theorem clean_round (hne : conn.inputBuf ≠ []) :
    Clean (conn.round lib).pauses ↔ ¬ Stuck lib isRequest conn.onClose conn.inputBuf := by
  rw [(alike_round hfresh).pauses]
  exact clean_attempt conn.onClose hne

/-- The loop over an empty buffer is over at once. -/
theorem Looped.nil (hnil : conn.inputBuf = []) : Looped lib isRequest conn conn [] :=
  ⟨.tail (Or.inl hnil), hfresh, rfl, rfl, (and_iff_left fun hstuck => hstuck.2.1 hnil).symm⟩

/-- The loop over bytes without a complete message leaves them. -/
theorem Looped.kept (hne : conn.inputBuf ≠ [])
    (h : ¬ (conn.round lib).parser.isComplete = true) :
    Looped lib isRequest conn (conn.kept lib) [] where
  frames := .tail (Or.inr ((isComplete_round hfresh).symm.trans (Bool.eq_false_iff.2 h)))
  fresh := fresh_reset ((attempt_request lib _ _ _).trans hfresh.request)
  onClose := rfl
  handed := rfl
  pauses := clean_append.trans (and_congr_right fun _ => clean_round hfresh hne)

/-- The loop over bytes that begin with a complete message: that one, and the
loop over what is behind it. -/
theorem Looped.taken (hne : conn.inputBuf ≠ [])
    (h : (conn.round lib).parser.isComplete = true) {conn' : Conn P}
    {parserList : List (Bytes × HttpParser)}
    (hrest : Looped lib isRequest (conn.taken lib isRequest) conn' parserList) :
    Looped lib isRequest conn conn' ((conn.inputBuf.take (conn.round lib).count,
      (conn.round lib).parser.toHttpParser) :: parserList) where
  frames := by
    have hframes := hrest.frames
    dsimp only [Conn.taken] at hframes
    rw [(alike_round hfresh).count] at hframes
    rw [List.map_cons, (alike_round hfresh).count]
    exact .message hne ((isComplete_round hfresh).symm.trans h) hframes
  fresh := hrest.fresh
  onClose := hrest.onClose
  handed := hrest.handed
  pauses := by
    have hinit := (isComplete_round hfresh).symm.trans h
    have hpauses := (clean_round hfresh hne).2 (not_stuck_of_complete conn.onClose hinit)
    have hclean : Clean (conn.taken lib isRequest).pauses ↔ Clean conn.pauses :=
      clean_append.trans (and_iff_left hpauses)
    rw [hrest.pauses, hclean]
    rfl

/-- A complete message makes the buffer shorter. -/
theorem length_taken (hlib : lib.Sound isRequest) (hne : conn.inputBuf ≠ [])
    (h : (conn.round lib).parser.isComplete = true) :
    (conn.taken lib isRequest).inputBuf.length < conn.inputBuf.length := by
  have hcount := attempt_count hlib conn.onClose hne ((isComplete_round hfresh).symm.trans h)
  rw [← (alike_round hfresh).count] at hcount
  show (conn.inputBuf.drop _).length < _
  rw [List.length_drop]
  omega

end Rounds

/-- **The loop comes to its end**, with any bound above the number of bytes, and
takes out the messages at the front of the buffer. -/
theorem parseLoop_total (hlib : lib.Sound isRequest) (conn : Conn P)
    (hfresh : Fresh lib isRequest conn.parser) :
    ∃ conn' parserList,
      (∀ fuel, conn.inputBuf.length < fuel →
        parseLoop lib isRequest fuel conn = some (conn', parserList)) ∧
      Looped lib isRequest conn conn' parserList := by
  induction hn : conn.inputBuf.length using Nat.strongRecOn generalizing conn with
  | ind n ih =>
    subst hn
    by_cases hnil : conn.inputBuf = []
    · exact ⟨conn, [], fun _ hfuel => parseLoop_nil hnil (Nat.zero_lt_of_lt hfuel),
        Looped.nil hfresh hnil⟩
    by_cases h : (conn.round lib).parser.isComplete = true
    · have hlen := length_taken hfresh hlib hnil h
      obtain ⟨conn', parserList, hrun, hrest⟩ :=
        ih _ hlen (conn.taken lib isRequest) (fresh_init lib isRequest) rfl
      refine ⟨conn', _, fun fuel hfuel => ?_, Looped.taken hfresh hnil h hrest⟩
      obtain ⟨fuel, rfl⟩ := Nat.exists_eq_succ_of_ne_zero (Nat.ne_zero_of_lt hfuel)
      rw [Nat.succ_eq_add_one, parseLoop_taken hnil h fuel, hrun fuel (by omega)]
      rfl
    · refine ⟨conn.kept lib, [], fun fuel hfuel => ?_, Looped.kept hfresh hnil h⟩
      obtain ⟨fuel, rfl⟩ := Nat.exists_eq_succ_of_ne_zero (Nat.ne_zero_of_lt hfuel)
      exact parseLoop_kept hnil h fuel

/-! ### Whole histories -/

/-- The bytes that came. -/
def received : List Call → Bytes
  | [] => []
  | .input data :: calls => data ++ received calls
  | _ :: calls => received calls

/-- The bytes of the messages handed over. -/
def Conn.delivered (conn : Conn P) : Bytes := (conn.handed.map Prod.fst).flatten

/-- `onMessage` comes back: it hands the messages over that `Frames` cuts off,
keeps the tail, and has a fresh parser for the next call. -/
theorem onMessage_total (hlib : lib.Sound isRequest) (hfresh : Fresh lib isRequest conn.parser) :
    ∃ conn' parserList, onMessage lib isRequest conn = some conn' ∧
      conn'.handed = conn.handed ++ parserList ∧
      Frames lib isRequest conn.onClose conn.inputBuf (parserList.map Prod.fst) conn'.inputBuf ∧
      Fresh lib isRequest conn'.parser ∧
      (Clean conn'.pauses ↔
        Clean conn.pauses ∧ ¬ Stuck lib isRequest conn.onClose conn'.inputBuf) := by
  obtain ⟨conn', parserList, hrun, hspec⟩ := parseLoop_total hlib conn hfresh
  refine ⟨{ conn' with handed := conn'.handed ++ parserList }, parserList, ?_, ?_, hspec.frames,
    hspec.fresh, hspec.pauses⟩
  · unfold onMessage
    rw [hrun _ (Nat.lt_succ_self _)]
    rfl
  · exact congrArg (· ++ parserList) hspec.handed

/-- **One call** goes through, leaves the parser initialized, and keeps the
bytes. -/
theorem step_total (hlib : lib.Sound isRequest) (hfresh : Fresh lib isRequest conn.parser)
    (call : Call) :
    ∃ conn', step lib isRequest conn call = some conn' ∧ Fresh lib isRequest conn'.parser ∧
      conn'.delivered ++ conn'.inputBuf =
        conn.delivered ++ conn.inputBuf ++ received [call] := by
  have hmessage : ∀ conn₀ : Conn P, Fresh lib isRequest conn₀.parser →
      ∃ conn', onMessage lib isRequest conn₀ = some conn' ∧ Fresh lib isRequest conn'.parser ∧
        conn'.delivered ++ conn'.inputBuf = conn₀.delivered ++ conn₀.inputBuf := by
    intro conn₀ hfresh₀
    obtain ⟨conn', parserList, hrun, hhanded, hframes, hfresh', -⟩ := onMessage_total hlib hfresh₀
    refine ⟨conn', hrun, hfresh', ?_⟩
    rw [Conn.delivered, hhanded, List.map_append, List.flatten_append, List.append_assoc,
      hframes.flatten_append]
    rfl
  cases call with
  | input data => exact ⟨_, rfl, hfresh, by simp [received, Conn.delivered]⟩
  | onMessage =>
    obtain ⟨conn', hrun, hfresh', hbytes⟩ := hmessage conn hfresh
    exact ⟨conn', hrun, hfresh', by simp [received, hbytes]⟩
  | onClose =>
    show ∃ conn', onClose lib isRequest conn = some conn' ∧ _
    unfold onClose
    split_ifs
    · exact ⟨conn, rfl, hfresh, by simp [received]⟩
    · obtain ⟨conn', hrun, hfresh', hbytes⟩ := hmessage { conn with onClose := true } hfresh
      exact ⟨conn', hrun, hfresh', by simpa [received, Conn.delivered] using hbytes⟩
    · exact ⟨conn, rfl, hfresh, by simp [received]⟩

/-- What has been received is what came with the first call and with those after
it. -/
theorem received_cons (call : Call) (calls : List Call) :
    received (call :: calls) = received [call] ++ received calls := by
  cases call <;> simp [received]

/-- Any history of calls goes through, and ends with a fresh parser again. -/
theorem run_total (hlib : lib.Sound isRequest) (calls : List Call)
    (hfresh : Fresh lib isRequest conn.parser) :
    ∃ conn', run (step lib isRequest) conn calls = some conn' ∧
      Fresh lib isRequest conn'.parser ∧
      conn'.delivered ++ conn'.inputBuf =
        conn.delivered ++ conn.inputBuf ++ received calls := by
  induction calls generalizing conn with
  | nil => exact ⟨conn, rfl, hfresh, by simp [received]⟩
  | cons call calls ih =>
    obtain ⟨conn₁, hstep, hfresh₁, hbytes₁⟩ := step_total hlib hfresh call
    obtain ⟨conn', hrun, hfresh', hbytes'⟩ := ih hfresh₁
    refine ⟨conn', run_cons_eq_some.2 ⟨conn₁, hstep, hrun⟩, hfresh', ?_⟩
    rw [hbytes', hbytes₁, received_cons call calls, List.append_assoc]

/-- **Framing conserves bytes and terminates.**  Every history of a connection
goes through, and then the bytes of the messages handed over and those of the
buffer are the bytes received.  And whatever the buffer holds then, with or
without the context `onClose`, `onMessage` comes to its end: it takes out the
complete messages at the front, each the bytes of one completed call of
`execute`, hands them over, and leaves the tail. -/
theorem http_framing (hlib : lib.Sound isRequest) (calls : List Call) :
    ∃ conn, run (step lib isRequest) (onConnection lib isRequest) calls = some conn ∧
      conn.delivered ++ conn.inputBuf = received calls ∧
      ∀ (buf : Bytes) (eof : Bool), ∃ conn' parserList,
        (∀ fuel, buf.length < fuel →
          parseLoop lib isRequest fuel { conn with inputBuf := buf, onClose := eof } =
            some (conn', parserList)) ∧
        onMessage lib isRequest { conn with inputBuf := buf, onClose := eof } =
          some { conn' with handed := conn.handed ++ parserList } ∧
        (parserList.map Prod.fst).flatten ++ conn'.inputBuf = buf ∧
        Frames lib isRequest eof buf (parserList.map Prod.fst) conn'.inputBuf := by
  have hinit : Fresh lib isRequest (onConnection lib isRequest).parser :=
    fresh_init lib isRequest
  obtain ⟨conn, hrun, hfresh, hbytes⟩ := run_total hlib calls hinit
  refine ⟨conn, hrun, hbytes, fun buf eof => ?_⟩
  obtain ⟨conn', parserList, hloop, hspec⟩ := parseLoop_total hlib
    { conn with inputBuf := buf, onClose := eof } hfresh
  refine ⟨conn', parserList, hloop, ?_, hspec.frames.flatten_append, hspec.frames⟩
  unfold onMessage
  rw [hloop _ (Nat.lt_succ_self _), ← hspec.handed]
  rfl

/-- The bytes up to the end of the headers. -/
def headersEnd : Bytes → Option ℕ
  | 13 :: 10 :: 13 :: 10 :: _ => some 4
  | _ :: rest => (headersEnd rest).map (· + 1)
  | [] => none

/-- What `http_parser` does with requests that have neither headers nor a body:
`GET / HTTP/1.1`, and an empty line. -/
def plainRequests : Library Unit where
  http_parser_init _ := ()
  http_parser_execute _ data :=
    match headersEnd data with
    | some n =>
      { callbacks := [(.notify .on_message_begin, (), 1), (.data .on_url ['/'.toUInt8], (), 6),
          (.notify .on_headers_complete, (), n - 1), (.notify .on_message_complete, (), n)]
        parser := ()
        count := n
        error := none }
    | none =>
      { callbacks := [(.notify .on_message_begin, (), 1), (.data .on_url ['/'.toUInt8], (), 6)]
        parser := ()
        count := data.length
        error := none }
  http_should_keep_alive _ := true

/-- The end of the headers is within the bytes, and not at their beginning. -/
theorem headersEnd_le {data : Bytes} {n : ℕ} (h : headersEnd data = some n) :
    1 ≤ n ∧ n ≤ data.length := by
  induction data using headersEnd.induct generalizing n with
  | case1 rest =>
    rw [headersEnd, Option.some.injEq] at h
    simp only [List.length_cons]
    omega
  | case2 b rest hne ih =>
    rw [headersEnd] at h
    · obtain ⟨k, hk, rfl⟩ := Option.map_eq_some_iff.1 h
      have hle := ih hk
      rw [List.length_cons]
      omega
    · exact hne
  | case3 => cases h

/-- The example of a library, plain requests that end with an empty line, is
sound. -/
theorem plainRequests_sound : plainRequests.Sound true := by
  constructor
  · intro data _ e he hcomplete
    unfold plainRequests at he
    dsimp only at he
    cases hend : headersEnd data with
    | none =>
      simp only [hend, List.mem_cons, List.not_mem_nil, or_false] at he
      rcases he with rfl | rfl
      · cases hcomplete
      · cases hcomplete
    | some n =>
      have hle := headersEnd_le hend
      simp only [hend, List.mem_cons, List.not_mem_nil, or_false] at he
      rcases he with rfl | rfl | rfl | rfl
      · cases hcomplete
      · cases hcomplete
      · cases hcomplete
      · exact hle
  · intro data hnone _
    unfold plainRequests at hnone ⊢
    dsimp only at hnone ⊢
    cases hend : headersEnd data with
    | none => rfl
    | some n =>
      simp only [hend] at hnone
      exact absurd rfl (hnone (.notify .on_message_complete, (), n) (by simp))

/-- A request that comes in two reads. -/
theorem http_framing_plainRequests : ∃ conn,
    run (step plainRequests true) (onConnection plainRequests true)
      [.input "GET / HTTP/1.1".toUTF8.toList, .onMessage, .input [13, 10, 13, 10], .onMessage] =
        some conn ∧
      conn.delivered ++ conn.inputBuf =
        received [.input "GET / HTTP/1.1".toUTF8.toList, .onMessage, .input [13, 10, 13, 10],
          .onMessage] := by
  obtain ⟨conn, hrun, hbytes, -⟩ := http_framing plainRequests_sound
    [.input "GET / HTTP/1.1".toUTF8.toList, .onMessage, .input [13, 10, 13, 10], .onMessage]
  exact ⟨conn, hrun, hbytes⟩

/-! ### A connection that is open -/

/-- The environment of `Net/Http/HttpParser` for this library. -/
def scan (lib : Library P) (isRequest : Bool) (data : Bytes) : Scan :=
  let r := lib.http_parser_execute (lib.http_parser_init isRequest) data
  { callbacks := r.callbacks.map Prod.fst
    count := ((Parser.init lib isRequest).execute lib data).count
    http_errno := errnoOf r.error }

/-- The connection as `Net/Http/HttpParser` has it. -/
def Conn.base (conn : Conn P) : Http.Conn where
  inputBuf := conn.inputBuf
  parser := conn.parser.toHttpParser
  shutdown := conn.shutdown

/-- What a round makes of the contents is what the model of `HttpParser` makes
of the same callbacks. -/
theorem runCallbacks_base (p : HttpParser) (r : Run P) (cbs : List (Callback × P × ℕ)) :
    (Parser.runCallbacks p r cbs).parser.toHttpParser =
      p.runCallbacks (cbs.map Prod.fst) (errnoOf r.error) := by
  induction cbs generalizing p with
  | nil => rfl
  | cons x cbs ih =>
    rw [List.map_cons, HttpParser.runCallbacks]
    unfold Parser.runCallbacks
    dsimp only
    by_cases hok : (p.call x.1).http_errno = .HPE_OK
    · rw [if_pos hok, if_pos hok]
      exact ih _
    · rw [if_neg hok, if_neg hok]

/-- A call of the codec's parser is a call of the model of `HttpParser` over the
callbacks of the library. -/
theorem execute_base {p : Parser P} (h : Fresh lib isRequest p) (data : Bytes) :
    ((p.execute lib data).parser.toHttpParser, (p.execute lib data).count) =
      p.toHttpParser.execute (scan lib isRequest) data := by
  have hcount := (alike_execute lib (q := .init lib isRequest) h.http_errno h.parser data).count
  have hstart := start_errno p (Or.inl h.http_errno)
  have hparser : (p.execute lib data).parser.toHttpParser =
      p.start.runCallbacks (scan lib isRequest data).callbacks
        (scan lib isRequest data).http_errno := by
    unfold Parser.execute
    rw [if_pos hstart, h.parser]
    exact runCallbacks_base _ _ _
  rw [hparser, hcount]
  exact (if_pos hstart).symm

/-- **While the connection is open**, the loop is that of `Net/Http/HttpParser`. -/
theorem parseLoop_refines (fuel : ℕ) (conn : Conn P) (hfresh : Fresh lib isRequest conn.parser)
    (hopen : conn.onClose = false) {conn' : Conn P} {parserList : List (Bytes × HttpParser)}
    (hrun : parseLoop lib isRequest fuel conn = some (conn', parserList)) :
    HttpCodec.parseLoop (scan lib isRequest) isRequest fuel conn.base =
      (conn'.base, parserList.map Prod.snd) := by
  induction fuel generalizing conn parserList with
  | zero => cases hrun
  | succ fuel ih =>
    have hround : conn.round lib = conn.parser.execute lib conn.inputBuf := by
      simp [Conn.round, Parser.attempt, hopen]
    have hexec := execute_base hfresh conn.inputBuf
    rw [← hround] at hexec
    rw [HttpCodec.parseLoop]
    by_cases hne : conn.inputBuf ≠ []
    · have hne' : conn.base.inputBuf ≠ [] := hne
      have hexec' : conn.base.parser.execute (scan lib isRequest) conn.base.inputBuf =
        ((conn.round lib).parser.toHttpParser, (conn.round lib).count) := hexec.symm
      rw [if_neg hne', hexec']
      dsimp only
      by_cases h : (conn.round lib).parser.isComplete = true
      · rw [parseLoop_taken hne h] at hrun
        obtain ⟨⟨conn'', rest⟩, hrest, heq⟩ := Option.map_eq_some_iff.1 hrun
        obtain ⟨rfl, rfl⟩ := Prod.mk.inj heq
        have hih := ih (conn.taken lib isRequest) (fresh_init lib isRequest) hopen hrest
        have hbase : (conn.round lib).parser.toHttpParser.isComplete = true := h
        rw [if_pos hbase]
        exact congrArg (fun r => (r.1, (conn.round lib).parser.toHttpParser :: r.2)) hih
      · rw [parseLoop_kept hne h] at hrun
        obtain ⟨rfl, rfl⟩ := Prod.mk.inj (Option.some.inj hrun)
        have hbase : ¬ (conn.round lib).parser.toHttpParser.isComplete = true := h
        rw [if_neg hbase]
        rfl
    · have hnil : conn.inputBuf = [] := not_not.1 hne
      rw [parseLoop_nil hnil (Nat.succ_pos fuel)] at hrun
      obtain ⟨rfl, rfl⟩ := Prod.mk.inj (Option.some.inj hrun)
      exact if_pos hnil

end Codec
end Http
end Net
end Sevent
