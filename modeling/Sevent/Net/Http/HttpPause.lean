/-
# What `http_parser_pause` finds

`sevent/net/http/HttpParser.cpp`, `sevent/net/http/HttpResponseCodec.cpp`,
`sevent/net/http/http-parser/http_parser.c`.

`HttpParser::execute` unpauses the parser first, and `http_parser_pause` asserts
that it finds no error.  At the beginning of a round it never does, since `reset`
and a new parser clear the error.  But when the connection is closed, `onMessage`
calls `execute` a second time in the same round when the parser does not keep
the connection alive, also when the first call has failed.

`pause_iff` says when that happens: when a response is closed after bytes in
which a new parser fails before it knows a reason to keep the connection alive.
-/

import Sevent.Net.Http.HttpParserOrder

namespace Sevent
namespace Net
namespace Http
namespace Codec

open Transition

variable {P : Type*} {lib : Library P} {isRequest : Bool} {conn : Conn P}

/-- No assert of `http_parser_pause` has failed. -/
def PausesOk (conn : Conn P) : Prop := Clean conn.pauses

/-- The tail of the buffer is not stuck. -/
def TailOk (lib : Library P) (isRequest onClose : Bool) (inputBuf : Bytes) : Prop :=
  ∀ ms t, Frames lib isRequest onClose inputBuf ms t → ¬ Stuck lib isRequest onClose t

/-- The condition on a call: what `onMessage` leaves in the buffer is not stuck. -/
def Good (lib : Library P) (isRequest : Bool) (conn : Conn P) : Call → Prop
  | .input _ => True
  | .onMessage => TailOk lib isRequest conn.onClose conn.inputBuf
  | .onClose => isRequest = false → conn.parser.isParsing = true →
    TailOk lib isRequest true conn.inputBuf

/-- What good calls keep. -/
structure Inv (lib : Library P) (isRequest : Bool) (conn : Conn P) : Prop where
  fresh : Fresh lib isRequest conn.parser
  pauses : PausesOk conn

/-- A call of `onMessage` that begins without a failed assert ends without one
exactly when the tail is not stuck. -/
theorem onMessage_pauses (hlib : lib.Sound isRequest) (conn : Conn P)
    (h : Inv lib isRequest conn) :
    ∃ conn', onMessage lib isRequest conn = some conn' ∧ Fresh lib isRequest conn'.parser ∧
      (PausesOk conn' ↔ TailOk lib isRequest conn.onClose conn.inputBuf) := by
  obtain ⟨conn', parserList, hrun, -, hframes, hfresh, hpauses⟩ := onMessage_total hlib h.fresh
  refine ⟨conn', hrun, hfresh, hpauses.trans ((and_iff_right h.pauses).trans ?_)⟩
  constructor
  · intro hnot ms t ht
    rwa [(ht.unique hframes).2]
  · exact fun hok => hok _ _ hframes

theorem onClose_request (hrequest : isRequest = true) :
    onClose lib isRequest conn = some conn := if_pos hrequest

theorem onClose_parsing (hresponse : isRequest = false) (hparsing : conn.parser.isParsing = true) :
    onClose lib isRequest conn = onMessage lib isRequest { conn with onClose := true } := by
  subst hresponse
  exact if_pos hparsing

theorem onClose_idle (hresponse : isRequest = false) (hidle : ¬ conn.parser.isParsing = true) :
    onClose lib isRequest conn = some conn := by
  subst hresponse
  exact if_neg hidle

/-- Good calls keep the invariant. -/
theorem inv_step (hlib : lib.Sound isRequest) (conn : Conn P) (call : Call) (conn' : Conn P)
    (h : Inv lib isRequest conn) (hgood : Good lib isRequest conn call)
    (hstep : step lib isRequest conn call = some conn') : Inv lib isRequest conn' := by
  cases call with
  | input data =>
    obtain rfl := Option.some.inj hstep
    exact ⟨h.fresh, h.pauses⟩
  | onMessage =>
    obtain ⟨conn₁, hrun, hfresh, hpauses⟩ := onMessage_pauses hlib conn h
    obtain rfl := Option.some.inj (hrun.symm.trans hstep)
    exact ⟨hfresh, hpauses.2 hgood⟩
  | onClose =>
    by_cases hrequest : isRequest = true
    · obtain rfl := Option.some.inj ((onClose_request hrequest).symm.trans hstep)
      exact h
    · have hresponse := Bool.eq_false_iff.2 hrequest
      by_cases hparsing : conn.parser.isParsing = true
      · obtain ⟨conn₁, hrun, hfresh, hpauses⟩ :=
          onMessage_pauses hlib { conn with onClose := true } ⟨h.fresh, h.pauses⟩
        have hclose := (onClose_parsing hresponse hparsing).trans hrun
        obtain rfl := Option.some.inj (hclose.symm.trans hstep)
        exact ⟨hfresh, hpauses.2 (hgood hresponse hparsing)⟩
      · obtain rfl := Option.some.inj ((onClose_idle hresponse hparsing).symm.trans hstep)
        exact h

/-- Every other call makes an assert fail. -/
theorem not_pausesOk_of_not_good (hlib : lib.Sound isRequest) (conn : Conn P) (call : Call)
    (h : Inv lib isRequest conn) (hgood : ¬ Good lib isRequest conn call) :
    ∃ conn', step lib isRequest conn call = some conn' ∧ ¬ PausesOk conn' := by
  cases call with
  | input data => exact absurd trivial hgood
  | onMessage =>
    obtain ⟨conn', hrun, -, hpauses⟩ := onMessage_pauses hlib conn h
    exact ⟨conn', hrun, fun hok => hgood (hpauses.1 hok)⟩
  | onClose =>
    obtain ⟨hresponse, hbad⟩ := Classical.not_imp.1 hgood
    obtain ⟨hparsing, hbad⟩ := Classical.not_imp.1 hbad
    obtain ⟨conn', hrun, -, hpauses⟩ :=
      onMessage_pauses hlib { conn with onClose := true } ⟨h.fresh, h.pauses⟩
    exact ⟨conn', (onClose_parsing hresponse hparsing).trans hrun, fun hok => hbad (hpauses.1 hok)⟩

/-- **When the asserts hold.**  Over every history of a connection,
`http_parser_pause` finds no error if and only if no callback is called, in the
context `onClose`, on a buffer whose tail is stuck. -/
theorem pause_iff (hlib : lib.Sound isRequest) (calls : List Call) :
    Always (step lib isRequest) PausesOk (onConnection lib isRequest) calls ↔
      Steps (step lib isRequest) (Good lib isRequest) (onConnection lib isRequest) calls :=
  always_iff_steps (inv_step hlib) (fun _ h => h.pauses) (not_pausesOk_of_not_good hlib)
    ⟨fresh_init lib isRequest, fun _ hx => absurd hx List.not_mem_nil⟩

/-- The first letter of a status line comes, and the connection is closed. -/
theorem pause_iff_statusLine :
    Always (step (httpParser HTTP_MAX_HEADER_SIZE) false) PausesOk
        (onConnection (httpParser HTTP_MAX_HEADER_SIZE) false)
        [.input ['H'.toUInt8], .onMessage, .onClose] ↔
      Steps (step (httpParser HTTP_MAX_HEADER_SIZE) false)
        (Good (httpParser HTTP_MAX_HEADER_SIZE) false)
        (onConnection (httpParser HTTP_MAX_HEADER_SIZE) false)
        [.input ['H'.toUInt8], .onMessage, .onClose] :=
  pause_iff (sound_httpParser HTTP_MAX_HEADER_SIZE false) _

/-- **A letter is enough.**  A response codec receives `G`, which is an error,
and the connection is closed: `onClose` runs the parser on the same byte again,
and unpauses it after the error. -/
theorem pause_in_error :
    ((run (step (httpParser HTTP_MAX_HEADER_SIZE) false)
      (onConnection (httpParser HTTP_MAX_HEADER_SIZE) false)
      [.input ['G'.toUInt8], .onMessage, .onClose]).map Conn.pauses) =
        some [.HPE_OK, .HPE_OK, .HPE_INVALID 28] ∧
    ¬ Always (step (httpParser HTTP_MAX_HEADER_SIZE) false) PausesOk
      (onConnection (httpParser HTTP_MAX_HEADER_SIZE) false)
      [.input ['G'.toUInt8], .onMessage, .onClose] := by
  refine ⟨rfl, fun h => ?_⟩
  have hlast : PausesOk _ := h.last (t := _) rfl
  rcases hlast (.HPE_INVALID 28) (by decide) with h | h <;> cases h

end Codec
end Http
end Net
end Sevent
