/-
# The end of a message

What `http_parser_execute` does after the last header line, when the bytes end
with the body.  `Completes` says that the call makes some callbacks and then
`on_message_complete`, at the last byte; otherwise it ends without it.

`Headed.ends` is about a message without a body, `Headed.reads_body` about one
whose body has the length that was announced, and `run_headers` about the header
lines and the end together.
-/

import Sevent.Net.Http.HttpParserLines

namespace Sevent
namespace Net
namespace Http

/-- The callbacks of the call: those of `cbs`, and a complete message at the
byte before `n`.  The method and the status are those of `p`. -/
def Completes (r : Run CParser) (cbs : List Callback) (n : ℕ) (p : CParser) : Prop :=
  ∃ calls parser, r.callbacks = calls ++ [(.notify .on_message_complete, parser, n)] ∧
    calls.map Prod.fst = cbs ∧ parser.method = p.method ∧ parser.status_code = p.status_code

/-- What no header changes here. -/
structure Plain (p : CParser) : Prop where
  chunked : p.flags.F_CHUNKED = false
  trailing : p.flags.F_TRAILING = false
  skipbody : p.flags.F_SKIPBODY = false
  method : p.method ≠ .HTTP_CONNECT
  status : p.status_code / 100 ≠ 1 ∧ p.status_code ≠ 204 ∧ p.status_code ≠ 304

namespace CParser

/-- What `upgrade` is after the headers. -/
def upgrades (p : CParser) : Bool :=
  p.flags.F_UPGRADE && p.flags.F_CONNECTION_UPGRADE && p.type = .HTTP_REQUEST

/-- A body is announced. -/
def hasBody (p : CParser) : Bool := 0 < p.content_length && p.content_length != ULLONG_MAX

/-- A message without a body is complete. -/
def Ends (p : CParser) : Prop :=
  ¬ (p.uses_transfer_encoding = true ∧ p.flags.F_CONTENTLENGTH = true) ∧
    (p.upgrades = true ∧ p.hasBody = false ∨
      p.uses_transfer_encoding = false ∧ (p.content_length = 0 ∨
        p.content_length = ULLONG_MAX ∧ p.type = .HTTP_REQUEST))

/-- The message is complete with this body. -/
def Delivers (p : CParser) (body : Bytes) : Prop :=
  if body = [] then p.Ends else p.uses_transfer_encoding = false

end CParser

namespace Exec

variable {M : ℕ} {x y z : Exec} {ch : UInt8} {bs pre body : Bytes} {p q : CParser}
  {cbs : List Callback}

/-! ### The body -/

/-- At the last byte. -/
theorem run_nil (hinner : x.inner = none) (hmark : x.mark = none) :
    x.run M [] = ⟨x.calls, { x.parser with nread := x.nread }, x.pos, none⟩ := by
  rw [run]
  unfold finish CALLBACK_DATA
  rw [hinner]
  dsimp only
  rw [hmark]

/-- The states of a body are not counted. -/
theorem step_body (hinner : x.inner = none) (hst : x.parser.state = .s_body_identity) :
    x.step M ch = x.s_body_identity ch := by
  unfold step switch
  rw [hinner]
  dsimp only
  rw [hst]
  rfl

/-- The callback at the end of a message, after the last byte. -/
theorem completes_done {w : Exec} (hinner : w.inner = none) (hmark : w.mark = none)
    (hstep : x.step M ch = w.s_message_done ch) :
    Completes (x.run M [ch]) (w.calls.map Prod.fst) (w.pos + 1) w.parser := by
  unfold s_message_done at hstep
  dsimp only at hstep
  split at hstep
  case isTrue =>
    rw [run_cons_error hstep]
    exact ⟨w.calls, _, rfl, rfl, rfl, rfl⟩
  case isFalse =>
    have hnil := run_nil (M := M) (x := ((w.UPDATE_STATE (NEW_MESSAGE w.parser)).CALLBACK_NOTIFY
      .on_message_complete (w.pos + 1)).advance ch) hinner (by
        unfold advance extend CALLBACK_NOTIFY UPDATE_STATE
        dsimp only
        rw [hmark]
        rfl)
    rw [run_cons_ok hstep, hnil]
    exact ⟨w.calls, _, rfl, rfl, rfl, rfl⟩

/-- **The body**, byte by byte. -/
theorem completes_identity {t : Bytes} (hinner : x.inner = none)
    (hst : x.parser.state = .s_body_identity) (hmark : x.mark.getD (.on_body, []) = (.on_body, t))
    (hbody : body ≠ []) (hlength : x.parser.content_length = body.length) :
    Completes (x.run M body) (x.calls.map Prod.fst ++ [.data .on_body (t ++ body)])
      (x.pos + body.length) x.parser := by
  induction body generalizing x t with
  | nil => exact absurd rfl hbody
  | cons c body ih =>
    have hstep : x.step M c = _ := step_body hinner hst
    unfold s_body_identity at hstep
    rw [MARK_eq, hmark] at hstep
    dsimp only at hstep
    rw [List.length_cons] at hlength
    cases body with
    | nil =>
      have hzero : x.parser.content_length - 1 = 0 := by
        rw [hlength]
        rfl
      rw [if_pos hzero] at hstep
      have hdone := completes_done (w := { x with
          parser.content_length := x.parser.content_length - 1
          parser.state := .s_message_done
          mark := none
          calls := x.calls ++ [(.data .on_body (t ++ [c]), { x.parser with
            content_length := x.parser.content_length - 1
            state := .s_message_done
            nread := x.nread }, x.pos)] }) hinner rfl hstep
      rw [List.map_append] at hdone
      exact hdone
    | cons c' body =>
      have hmore : ¬ x.parser.content_length - 1 = 0 := by
        rw [hlength, List.length_cons]
        omega
      rw [if_neg hmore] at hstep
      have hrest := ih (x := ({ x with
          parser.content_length := x.parser.content_length - 1
          mark := some (.on_body, t) } : Exec).advance c) (t := t ++ [c]) hinner hst rfl
        (List.cons_ne_nil _ _) (by dsimp only [advance, extend]; rw [hlength]; rfl)
      rw [run_cons_ok hstep]
      unfold advance extend at hrest ⊢
      dsimp only at hrest ⊢
      rw [List.append_assoc] at hrest
      have hpos : x.pos + (c :: c' :: body).length = x.pos + 1 + (c' :: body).length := by
        rw [List.length_cons]
        omega
      rw [hpos]
      exact hrest

/-! ### The last line of the headers -/

/-- After the headers, with the parser that the callback gets. -/
structure Headed (x : Exec) (q : CParser) (cbs : List Callback) : Prop where
  parser : x.parser = { q with state := .s_headers_done, upgrade := q.upgrades }
  mark : x.mark = none
  inner : x.inner = none
  calls : x.calls.map Prod.fst = cbs
  quiet : .notify .on_message_complete ∉ cbs

theorem upgrade_eq (hq : Plain q) :
    (if q.flags.F_UPGRADE && q.flags.F_CONNECTION_UPGRADE then
        decide (q.type = .HTTP_REQUEST ∨ q.status_code = 101)
      else decide (q.method = .HTTP_CONNECT)) = q.upgrades := by
  unfold CParser.upgrades
  have hstatus : q.status_code ≠ 101 := by
    have := hq.status.1
    omega
  split
  case isTrue hflags => simp [hflags, hstatus]
  case isFalse hflags => simp [hflags, hq.method]

theorem At.switch_almost_done (h : At x .s_headers_almost_done q cbs) (hq : Plain q) :
    x.switch M LF =
      if q.uses_transfer_encoding && q.flags.F_CONTENTLENGTH then
        x.fail .HPE_UNEXPECTED_CONTENT_LENGTH
      else ({ x with
        parser := { q with state := .s_headers_done, upgrade := q.upgrades }
        calls := x.calls ++ [(.notify .on_headers_complete,
          { q with state := .s_headers_done, upgrade := q.upgrades }, x.pos)] }
        : Exec).s_headers_done LF := by
  have hswitch : x.switch M LF = x.s_headers_almost_done LF := by
    unfold switch
    rw [h.parser]
    rfl
  have htrailing : ¬ (q.inState .s_headers_almost_done).flags.F_TRAILING = true :=
    fun ht => Bool.false_ne_true (hq.trailing.symm.trans ht)
  rw [hswitch]
  unfold s_headers_almost_done
  rw [if_neg (not_not.2 rfl), h.parser, if_neg htrailing, ← upgrade_eq hq]
  refine if_congr Iff.rfl rfl ?_
  unfold UPDATE_STATE CALLBACK_NOTIFY
  dsimp only
  rw [h.parser]
  rfl

/-- Both kinds of length are an error. -/
theorem At.dies_almost_done (h : At x .s_headers_almost_done q cbs) (hq : Plain q)
    (hboth : q.uses_transfer_encoding = true ∧ q.flags.F_CONTENTLENGTH = true)
    (hn : x.nread + 1 < 2 ^ 32) : Dies M x (LF :: bs) := by
  have hx : At { x with nread := x.nread + 1 } .s_headers_almost_done q cbs :=
    ⟨h.parser, h.mark, h.inner, h.round, h.calls, h.quiet⟩
  have hswitch := hx.switch_almost_done (M := M) hq
  rw [if_pos (Bool.and_eq_true_iff.2 hboth)] at hswitch
  exact dies_fail h.inner (by rw [h.parser]; rfl) hn hswitch id

/-- Otherwise the headers are complete. -/
theorem At.run_almost_done (h : At x .s_headers_almost_done q cbs) (hq : Plain q)
    (hboth : ¬ (q.uses_transfer_encoding = true ∧ q.flags.F_CONTENTLENGTH = true))
    (hle : x.nread + 1 ≤ M) (hn : x.nread + 1 < 2 ^ 32) :
    ∃ y, Headed y q (cbs ++ [.notify .on_headers_complete]) ∧ y.pos = x.pos ∧
      x.step M LF = y.s_headers_done LF := by
  have hx : At { x with nread := x.nread + 1 } .s_headers_almost_done q cbs :=
    ⟨h.parser, h.mark, h.inner, h.round, h.calls, h.quiet⟩
  have hswitch := hx.switch_almost_done (M := M) hq
  rw [if_neg (mt Bool.and_eq_true_iff.1 hboth)] at hswitch
  have hstep : x.step M LF = if M < x.nread + 1 then _ else _ :=
    step_none h.inner (by rw [h.parser]; rfl) hn
  rw [if_neg (by omega), hswitch] at hstep
  refine ⟨{ x with
    parser := { q with state := .s_headers_done, upgrade := q.upgrades }
    nread := x.nread + 1
    calls := x.calls ++ [(.notify .on_headers_complete,
      { q with state := .s_headers_done, upgrade := q.upgrades }, x.pos)] },
    ⟨rfl, h.mark, h.inner, ?_, ?_⟩, rfl, hstep⟩
  · dsimp only
    rw [List.map_append, h.calls]
    rfl
  · rw [List.mem_append, List.mem_singleton]
    exact fun hmem => hmem.elim h.quiet nofun

/-! ### What follows the headers -/

/-- After the last `LF`, in a state that reads on. -/
def after (x : Exec) (s : ParseState) : Exec :=
  { x with nread := 0, parser.nread := 0, parser.state := s }

/-- The message is complete without a body. -/
def finished (x : Exec) : Exec :=
  ((x.after (NEW_MESSAGE { x.parser with nread := 0 })).CALLBACK_NOTIFY .on_message_complete
    (x.pos + 1))

/-- Without any length a response goes on to the end of the file. -/
theorem needs_eof_iff (hq : Plain q) (hte : q.uses_transfer_encoding = false)
    (hmax : q.content_length = ULLONG_MAX) {n : ℕ} {s : ParseState} {u : Bool} :
    http_message_needs_eof { q with nread := n, state := s, upgrade := u } = true ↔
      q.type ≠ .HTTP_REQUEST := by
  obtain ⟨h1, h2, h3⟩ := hq.status
  unfold http_message_needs_eof
  dsimp only
  by_cases ht : q.type = .HTTP_REQUEST
  · rw [if_pos ht]
    exact iff_of_false Bool.false_ne_true (not_not.2 ht)
  · have hno : ¬ (q.status_code / 100 = 1 ∨ q.status_code = 204 ∨ q.status_code = 304 ∨
        q.flags.F_SKIPBODY = true) := by
      simp [h1, h2, h3, hq.skipbody]
    have hlength : ¬ (q.flags.F_CHUNKED = true ∨ q.content_length ≠ ULLONG_MAX) := by
      simp [hq.chunked, hmax]
    rw [if_neg ht, if_neg hno, if_neg (by simp [hte]), if_neg hlength]
    exact iff_of_true rfl ht

/-- **The branches of `s_headers_done`.** -/
theorem Headed.headers_done (h : Headed x q cbs) (hq : Plain q) : x.s_headers_done LF =
    if q.upgrades && !q.hasBody then x.finished.RETURN (x.pos + 1)
    else if q.uses_transfer_encoding then
      if q.type = .HTTP_REQUEST then
        ({ x with nread := 0, parser.nread := 0 } : Exec).fail .HPE_INVALID_TRANSFER_ENCODING
      else .ok (x.after .s_body_identity_eof)
    else if q.content_length = 0 then .ok x.finished
    else if q.content_length ≠ ULLONG_MAX then .ok (x.after .s_body_identity)
    else if q.type ≠ .HTTP_REQUEST then .ok (x.after .s_body_identity_eof)
    else .ok x.finished := by
  obtain ⟨parser, nread, pos, mark, inner, round, calls⟩ := x
  obtain rfl : parser = _ := h.parser
  have hbody : (q.upgrades && (decide (q.method = .HTTP_CONNECT) || q.flags.F_SKIPBODY ||
      !(q.flags.F_CHUNKED || decide (0 < q.content_length) && q.content_length != ULLONG_MAX))) =
        (q.upgrades && !q.hasBody) := by
    rw [decide_eq_false hq.method, hq.skipbody, hq.chunked]
    rfl
  have hskip : ¬ q.flags.F_SKIPBODY = true :=
    fun ht => Bool.false_ne_true (hq.skipbody.symm.trans ht)
  have hchunked : ¬ q.flags.F_CHUNKED = true :=
    fun ht => Bool.false_ne_true (hq.chunked.symm.trans ht)
  unfold s_headers_done
  rw [if_neg (not_not.2 rfl)]
  dsimp only
  rw [hbody, if_neg hskip, if_neg hchunked]
  refine if_congr Iff.rfl rfl ?_
  split
  case isTrue => rfl
  case isFalse hte =>
    refine if_congr Iff.rfl rfl ?_
    by_cases hmax : q.content_length ≠ ULLONG_MAX
    · rw [if_pos hmax, if_pos hmax]
      rfl
    · rw [if_neg hmax, if_neg hmax]
      exact if_congr (needs_eof_iff hq (Bool.eq_false_iff.2 hte) (not_not.1 hmax)) rfl rfl

theorem Headed.noneComplete (h : Headed x q cbs) : NoneComplete x.calls :=
  noneComplete_iff.2 (h.calls ▸ h.quiet)

theorem Headed.finished_run (h : Headed y q cbs) (hstep : x.step M ch = .ok y.finished) :
    Completes (x.run M [ch]) cbs (y.pos + 1) q := by
  have hnil := run_nil (M := M) (x := y.finished.advance ch) h.inner (by
    unfold advance extend finished after CALLBACK_NOTIFY
    dsimp only
    rw [h.mark]
    rfl)
  rw [run_cons_ok hstep, hnil]
  refine ⟨y.calls, { y.parser with
    nread := 0, state := NEW_MESSAGE { y.parser with nread := 0 } }, rfl, h.calls, ?_, ?_⟩ <;>
    rw [h.parser]

/-- A state that reads on finds nothing more. -/
theorem Headed.after_run (h : Headed y q cbs) {s : ParseState}
    (hstep : x.step M ch = .ok (y.after s)) : NoneComplete (x.run M [ch]).callbacks := by
  have hnil := run_nil (M := M) (x := (y.after s).advance ch) h.inner (by
    unfold advance extend after
    dsimp only
    rw [h.mark]
    rfl)
  rw [run_cons_ok hstep, hnil]
  exact h.noneComplete

/-- **A message without a body** is complete where `Ends` says so. -/
theorem Headed.ends (h : Headed y q cbs) (hq : Plain q)
    (hstep : x.step M LF = y.s_headers_done LF) :
    (q.upgrades = true ∧ q.hasBody = false ∨ q.uses_transfer_encoding = false ∧
        (q.content_length = 0 ∨ q.content_length = ULLONG_MAX ∧ q.type = .HTTP_REQUEST) →
      Completes (x.run M [LF]) cbs (y.pos + 1) q) ∧
    (¬ (q.upgrades = true ∧ q.hasBody = false ∨ q.uses_transfer_encoding = false ∧
        (q.content_length = 0 ∨ q.content_length = ULLONG_MAX ∧ q.type = .HTTP_REQUEST)) →
      NoneComplete (x.run M [LF]).callbacks) := by
  rw [h.headers_done hq] at hstep
  split at hstep
  case isTrue hup =>
    rw [Bool.and_eq_true, Bool.not_eq_true'] at hup
    refine ⟨fun _ => ?_, fun hnot => absurd (.inl hup) hnot⟩
    rw [run_cons_error hstep]
    refine ⟨y.calls, { y.parser with
      nread := 0, state := NEW_MESSAGE { y.parser with nread := 0 } }, rfl, h.calls, ?_, ?_⟩ <;>
      rw [h.parser]
  case isFalse hup =>
    rw [Bool.and_eq_true, Bool.not_eq_true'] at hup
    split at hstep
    case isTrue hte =>
      refine ⟨fun hends => ?_, fun _ => ?_⟩
      · rcases hends with hends | ⟨hends, -⟩
        · exact absurd hends hup
        · exact absurd (hends.symm.trans hte) Bool.false_ne_true
      · split at hstep
        case isTrue =>
          rw [run_cons_error hstep]
          exact h.noneComplete
        case isFalse => exact h.after_run hstep
    case isFalse hte =>
      have hte' := Bool.eq_false_iff.2 hte
      split at hstep
      case isTrue hzero =>
        exact ⟨fun _ => h.finished_run hstep, fun hnot => absurd (.inr ⟨hte', .inl hzero⟩) hnot⟩
      case isFalse hzero =>
        split at hstep
        case isTrue hlength =>
          refine ⟨fun hends => ?_, fun _ => h.after_run hstep⟩
          rcases hends with hends | ⟨-, hends | ⟨hends, -⟩⟩
          · exact absurd hends hup
          · exact absurd hends hzero
          · exact absurd hends hlength
        case isFalse hlength =>
          split at hstep
          case isTrue htype =>
            refine ⟨fun hends => ?_, fun _ => h.after_run hstep⟩
            rcases hends with hends | ⟨-, hends | ⟨-, hends⟩⟩
            · exact absurd hends hup
            · exact absurd hends hzero
            · exact absurd hends htype
          case isFalse htype =>
            refine ⟨fun _ => h.finished_run hstep, fun hnot => absurd ?_ hnot⟩
            exact .inr ⟨hte', .inr ⟨not_not.1 hlength, not_not.1 htype⟩⟩

/-- **A body** of the announced length. -/
theorem Headed.reads_body (h : Headed y q cbs) (hq : Plain q)
    (hte : q.uses_transfer_encoding = false) (hbody : body ≠ [])
    (hlength : q.content_length = body.length) (hmax : body.length < ULLONG_MAX)
    (hstep : x.step M LF = y.s_headers_done LF) : Completes (x.run M (LF :: body))
      (cbs ++ [.data .on_body body]) (y.pos + 1 + body.length) q := by
  have hpos := List.length_pos_iff.2 hbody
  have hhas : q.hasBody = true := by
    unfold CParser.hasBody
    rw [hlength, Bool.and_eq_true, decide_eq_true_eq, bne_iff_ne]
    exact ⟨hpos, Nat.ne_of_lt hmax⟩
  rw [h.headers_done hq, hhas, if_neg (by simp), hte, if_neg (by simp), if_neg (by omega),
    if_pos (by omega)] at hstep
  have hread := completes_identity (M := M) (x := (y.after .s_body_identity).advance LF) (t := [])
    h.inner rfl (by
      unfold advance extend after
      dsimp only
      rw [h.mark]
      rfl) hbody (by
      unfold advance extend after
      dsimp only
      rw [h.parser]
      exact hlength)
  obtain ⟨calls, parser, hcalls, hcbs, hmethod, hstatus⟩ := hread
  rw [run_cons_ok hstep]
  refine ⟨calls, parser, hcalls, hcbs.trans ?_, hmethod.trans ?_, hstatus.trans ?_⟩
  · unfold advance extend after
    dsimp only
    rw [h.calls]
    rfl
  · unfold advance extend after
    dsimp only
    rw [h.parser]
  · unfold advance extend after
    dsimp only
    rw [h.parser]

/-- The `CR` of the last line. -/
theorem LineStart.reads_end (hM : M < 2 ^ 32) (h : LineStart x q cbs) :
    ∃ y, Reads M x [CR] y ∧ At y .s_headers_almost_done q cbs := by
  obtain ⟨z, hz, hn, hpos, hswitch⟩ := h.next M CR (by decide) (by decide)
  have hread := reads_byte (y := z.UPDATE_STATE .s_headers_almost_done) hM h.inner h.parsing
    (hswitch.trans (if_pos rfl)) hn hpos fun _ => hz.noneComplete
  refine ⟨_, hread, ?_, ?_, hz.inner, hz.round, hz.calls, hz.quiet⟩
  · unfold advance extend UPDATE_STATE
    dsimp only
    rw [hz.parser]
    rfl
  · unfold advance extend UPDATE_STATE
    dsimp only
    rw [hz.mark]
    rfl

/-- The callbacks of a body. -/
def bodyCalls (body : Bytes) : List Callback := if body = [] then [] else [.data .on_body body]

section Whole

variable (hM : M < 2 ^ 32) (hpre : Reads M x pre y) (hy : LineStart y p cbs)
  {hs : List (Bytes × Bytes)} (hitems : ∀ item ∈ hs, IsHeader item)
include hM hpre hy hitems

/-- The last `LF` after the header lines. -/
theorem reads_headers (hq : p.lines hs = some q) :
    ∃ z, Reads M x (pre ++ hs.flatMap headerLine ++ [CR]) z ∧
      At z .s_headers_almost_done q (cbs ++ hs.flatMap headerCallbacks) := by
  obtain ⟨z, hlines, hz⟩ := reads_lines hM hpre hy hs hitems hq
  obtain ⟨w, hend, hw⟩ := hz.reads_end hM
  exact ⟨w, hlines.trans hend, hw⟩

/-- **Headers that are too long**, or one of which is an error. -/
theorem noneComplete_headers (hx : NoneComplete x.calls)
    (hn : y.nread + (hs.flatMap headerLine).length + 2 < 2 ^ 32)
    (hbad : M < y.nread + (hs.flatMap headerLine).length + 2 ∨ p.lines hs = none) :
    NoneComplete (x.run M (pre ++ (hs.flatMap headerLine ++ CR :: LF :: body))).callbacks := by
  cases hq : p.lines hs with
  | none =>
    exact (dies_lines hM hpre hy hs hitems hq (by omega)).run hx
  | some q =>
    have hlong := hbad.resolve_right (by rw [hq]; exact nofun)
    obtain ⟨z, hread, hz⟩ := reads_headers hM hpre hy hitems hq
    have hnz := hread.nread
    rw [List.length_append, List.length_append, ← Nat.add_assoc, ← Nat.add_assoc,
      ← hpre.nread, List.length_singleton] at hnz
    have hdies : Dies M z (LF :: body) := by
      intro hz' rest
      rw [List.cons_append, run_cons_error (r := _)
        ((step_none hz.inner (by rw [hz.parser]; rfl) (by omega)).trans (if_pos (by omega)))]
      exact hz'
    have hall := (hread.append_dies (by omega) hdies).run hx
    rwa [List.append_assoc, List.append_assoc] at hall

/-- **A message whose headers fit.** -/
theorem run_headers (hfit : y.nread + (hs.flatMap headerLine).length + 2 ≤ M)
    (hq : p.lines hs = some q) (hplain : Plain q)
    (hbody : body ≠ [] → q.flags.F_CONTENTLENGTH = true ∧ q.content_length = body.length ∧
      body.length < ULLONG_MAX) :
    (q.Delivers body → Completes (x.run M (pre ++ (hs.flatMap headerLine ++ CR :: LF :: body)))
      (cbs ++ hs.flatMap headerCallbacks ++ [.notify .on_headers_complete] ++ bodyCalls body)
      (y.pos + (hs.flatMap headerLine).length + 2 + body.length) q) ∧
    (¬ q.Delivers body →
      NoneComplete (x.run M (pre ++ (hs.flatMap headerLine ++ CR :: LF :: body))).callbacks) := by
  obtain ⟨z, hread, hz⟩ := reads_headers hM hpre hy hitems hq
  have hnz := hread.nread
  have hpz := hread.pos
  rw [List.length_append, List.length_append, ← Nat.add_assoc, ← Nat.add_assoc,
    ← hpre.nread, List.length_singleton] at hnz
  rw [List.length_append, List.length_append, ← Nat.add_assoc, ← Nat.add_assoc,
    ← hpre.pos, List.length_singleton] at hpz
  have hrun : x.run M (pre ++ (hs.flatMap headerLine ++ CR :: LF :: body)) =
      z.run M (LF :: body) := by
    rw [← hread.goes (by omega), List.append_assoc, List.append_assoc]
    rfl
  rw [hrun]
  by_cases hboth : q.uses_transfer_encoding = true ∧ q.flags.F_CONTENTLENGTH = true
  · have hdies : Dies M z (LF :: body) := hz.dies_almost_done hplain hboth (by omega)
    refine ⟨fun hdelivers => ?_, fun _ => hdies.run hz.noneComplete⟩
    unfold CParser.Delivers at hdelivers
    split at hdelivers
    · exact absurd hboth hdelivers.1
    · exact absurd (hdelivers.symm.trans hboth.1) Bool.false_ne_true
  · obtain ⟨w, hw, hpos, hstep⟩ := hz.run_almost_done (M := M) hplain hboth (by omega) (by omega)
    unfold CParser.Delivers bodyCalls
    by_cases hnil : body = []
    · subst hnil
      rw [if_pos rfl, if_pos rfl, List.append_nil]
      obtain ⟨hyes, hno⟩ := hw.ends hplain hstep
      have hcount : w.pos + 1 =
          y.pos + (hs.flatMap headerLine).length + 2 + ([] : Bytes).length := by
        rw [hpos, hpz]
        rfl
      rw [← hcount]
      exact ⟨fun hends => hyes hends.2, fun hnot => hno fun h => hnot ⟨hboth, h⟩⟩
    · rw [if_neg hnil, if_neg hnil]
      obtain ⟨hlength, hn, hmax⟩ := hbody hnil
      have hte : q.uses_transfer_encoding = false :=
        Bool.eq_false_iff.2 fun hte => hboth ⟨hte, hlength⟩
      have hcount : w.pos + 1 + body.length =
          y.pos + (hs.flatMap headerLine).length + 2 + body.length := by
        rw [hpos, hpz]
      rw [← hcount]
      exact ⟨fun _ => hw.reads_body hplain hte hnil hn hmax hstep, fun hnot => absurd hte hnot⟩

end Whole

end Exec
end Http
end Net
end Sevent
