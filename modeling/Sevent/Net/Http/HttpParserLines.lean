/-
# The header lines of a message

What `http_parser_execute` makes of one header line and of all of them.  A line
changes the parser by `CParser.line`, which leaves the loops and the counting
out: `LineStart.reads_line` says that the line is read where `line` has a
result, and `LineStart.dies_line` that the call ends without a complete message
where it has none.  `reads_lines` and `dies_lines` say it of any number of
lines.
-/

import Sevent.Net.Http.HttpParserLoops

namespace Sevent
namespace Net
namespace Http

namespace Exec

variable {M : ℕ} {x y z : Exec} {ch : UInt8} {bs v : Bytes} {p q : CParser}

/-! ### A line -/

/-- Outside the loops and the texts, in some state, with a parser that is given
up to its state. -/
structure At (x : Exec) (s : ParseState) (p : CParser) (cbs : List Callback) : Prop where
  parser : x.parser = p.inState s
  mark : x.mark = none
  inner : x.inner = none
  round : x.round = 0
  calls : x.calls.map Prod.fst = cbs
  quiet : .notify .on_message_complete ∉ cbs

/-- At the end of a line: the next byte is that of a field, unless it is a
blank. -/
structure LineStart (x : Exec) (p : CParser) (cbs : List Callback) : Prop where
  inner : x.inner = none
  parsing : PARSING_HEADER x.parser.state = true
  next : ∀ M ch, ch ≠ 32 → ch ≠ 9 → ∃ z, At z .s_header_field_start p cbs ∧
    z.nread = x.nread + 1 ∧ z.pos = x.pos ∧
    ({ x with nread := x.nread + 1 } : Exec).switch M ch = z.s_header_field_start ch

variable {cbs : List Callback}

/-- Calls without the end of a message are such by their names. -/
theorem noneComplete_iff {calls : List (Callback × CParser × ℕ)} :
    NoneComplete calls ↔ .notify .on_message_complete ∉ calls.map Prod.fst := by
  unfold NoneComplete
  rw [List.mem_map]
  constructor
  · rintro h ⟨e, he, hcomplete⟩
    exact h e he hcomplete
  · exact fun h e he hcomplete => h ⟨e, he, hcomplete⟩

/-- Where the parser is known to be quiet, no call so far was the end of a
message. -/
theorem At.noneComplete {s : ParseState} (h : At x s p cbs) : NoneComplete x.calls :=
  noneComplete_iff.2 (h.calls ▸ h.quiet)

/-- A text is handed over. -/
theorem quiet_concat (h : .notify .on_message_complete ∉ cbs) (cb : DataCb) (text : Bytes) :
    .notify .on_message_complete ∉ cbs ++ [Callback.data cb text] := by
  rw [List.mem_append, List.mem_singleton]
  exact fun hmem => hmem.elim h nofun

/-- A character of a token is no blank and ends no line. -/
theorem token_ne {ch : UInt8} (h : TOKEN ch ≠ 0) : ch ≠ 32 ∧ ch ≠ 9 ∧ ch ≠ CR ∧ ch ≠ LF := by
  refine ⟨?_, ?_, ?_, ?_⟩ <;> rintro rfl <;> exact absurd rfl h

/-- **A name** and the colon after it. -/
theorem LineStart.reads_name (hM : M < 2 ^ 32) (h : LineStart x p cbs) {name : Bytes}
    (hne : name ≠ []) (hname : ∀ ch ∈ name, TOKEN ch ≠ 0) :
    ∃ y, Reads M x (name ++ [':'.toUInt8]) y ∧
      At y .s_header_value_discard_ws (p.field name) (cbs ++ [.data .on_header_field name]) := by
  obtain ⟨c, w, rfl⟩ := List.exists_cons_of_ne_nil hne
  obtain ⟨hsp, htab, hcr, hlf⟩ := token_ne (hname c List.mem_cons_self)
  obtain ⟨z, hz, hn, hpos, hswitch⟩ := h.next M c hsp htab
  let y : Exec := { z with
    parser := (p.fieldStart (TOKEN c)).inState .s_header_field
    mark := some (.on_header_field, []) }
  have hstart : z.s_header_field_start c = .ok y := by
    unfold s_header_field_start
    rw [if_neg hcr, if_neg hlf, if_neg (hname c List.mem_cons_self), MARK_eq, hz.mark]
    unfold UPDATE_STATE
    dsimp only
    rw [hz.parser]
    rfl
  have hbyte := reads_byte hM h.inner h.parsing (hswitch.trans hstart) hn hpos
    fun _ => hz.noneComplete
  obtain ⟨parser, ER, hrest⟩ := reads_field (w := w) (t := [c]) (x := y.advance c) hM rfl
    hz.inner hz.round rfl fun ch hch => hname ch (List.mem_cons_of_mem _ hch)
  refine ⟨_, hbyte.trans hrest, ?_, rfl, hz.inner, hz.round, ?_, quiet_concat hz.quiet _ _⟩
  · unfold advance extend
    dsimp only
    rw [CParser.foldl_fieldChar_inState]
    rfl
  · unfold advance extend
    dsimp only
    rw [List.map_append, hz.calls]
    rfl

/-- A byte that leads to another state and does nothing else. -/
theorem At.reads_byte (hM : M < 2 ^ 32) {s s' : ParseState} (h : At x s p cbs)
    (hs : PARSING_HEADER s = true)
    (hswitch : ∀ z : Exec, z.parser = p.inState s → z.switch M ch = .ok (z.UPDATE_STATE s')) :
    ∃ y, Reads M x [ch] y ∧ At y s' p cbs := by
  have hnext := hswitch { x with nread := x.nread + 1 } h.parser
  refine ⟨_, Exec.reads_byte hM h.inner (by rw [h.parser]; exact hs) hnext rfl rfl id, ?_, ?_,
    h.inner, h.round, h.calls, h.quiet⟩
  · have hp := congrArg (fun q => q.inState s') h.parser
    exact hp
  · unfold advance extend UPDATE_STATE
    dsimp only
    rw [h.mark]
    rfl

/-- The blank after the colon. -/
theorem At.reads_blank (hM : M < 2 ^ 32) (h : At x .s_header_value_discard_ws p cbs) :
    ∃ y, Reads M x [32] y ∧ At y .s_header_value_discard_ws p cbs := by
  refine h.reads_byte hM rfl fun z hz => ?_
  obtain ⟨parser, nread, pos, mark, inner, round, calls⟩ := z
  obtain rfl : parser = _ := hz
  rfl

/-- No blank follows the line end, so that the value was empty: the header is
finished, unless it is a length. -/
theorem At.switch_discard_lws (h : At x .s_header_value_discard_lws p cbs) (hsp : ch ≠ 32)
    (htab : ch ≠ 9) : x.switch M ch =
      if p.header_state = .h_content_length then x.fail .HPE_INVALID_CONTENT_LENGTH
      else ({ x with
        parser := p.finishHeader.inState .s_header_field_start
        calls := x.calls ++ [(.data .on_header_value [],
          { p.finishHeader with state := .s_header_field_start, nread := x.nread }, x.pos)] }
        : Exec).s_header_field_start ch := by
  have hswitch : x.switch M ch = x.s_header_value_discard_lws ch := by
    unfold switch
    rw [h.parser]
    rfl
  rw [hswitch]
  unfold s_header_value_discard_lws
  rw [if_neg (not_or.2 ⟨hsp, htab⟩), h.parser, CParser.inState_header_state]
  refine if_congr Iff.rfl rfl ?_
  dsimp only
  rw [MARK_eq]
  unfold UPDATE_STATE CALLBACK_DATA
  dsimp only
  rw [h.mark, CParser.finishHeader_inState]
  rfl

/-- The end of a line without a value. -/
theorem At.reads_empty (hM : M < 2 ^ 32) (h : At x .s_header_value_discard_ws p cbs) :
    ∃ y, Reads M x CRLF y ∧ At y .s_header_value_discard_lws p cbs := by
  obtain ⟨y, hcr, hy⟩ : ∃ y, Reads M x [CR] y ∧
      At y .s_header_value_discard_ws_almost_done p cbs :=
    h.reads_byte hM rfl fun z hz => by
      unfold switch
      rw [hz]
      rfl
  obtain ⟨z, hlf, hz⟩ : ∃ z, Reads M y [LF] z ∧ At z .s_header_value_discard_lws p cbs :=
    hy.reads_byte hM rfl fun z hz => by
      unfold switch
      rw [hz]
      rfl
  exact ⟨z, hcr.trans hlf, hz⟩

/-- **A line without a value.** -/
theorem At.lineStart_empty (h : At x .s_header_value_discard_lws p cbs)
    (hp : p.header_state ≠ .h_content_length) :
    LineStart x p.finishHeader (cbs ++ [.data .on_header_value []]) := by
  refine ⟨h.inner, by rw [h.parser]; rfl, fun M ch hsp htab => ?_⟩
  have hx : At { x with nread := x.nread + 1 } .s_header_value_discard_lws p cbs :=
    ⟨h.parser, h.mark, h.inner, h.round, h.calls, h.quiet⟩
  have hswitch := hx.switch_discard_lws (M := M) hsp htab
  rw [if_neg hp] at hswitch
  refine ⟨{ x with
    parser := p.finishHeader.inState .s_header_field_start
    nread := x.nread + 1
    calls := x.calls ++ [(.data .on_header_value [],
      { p.finishHeader with state := .s_header_field_start, nread := x.nread + 1 }, x.pos)] },
    ?_, rfl, rfl, hswitch⟩
  refine ⟨rfl, h.mark, h.inner, h.round, ?_, quiet_concat h.quiet _ _⟩
  dsimp only
  rw [List.map_append, h.calls]
  rfl

/-- A `Content-Length` without a value. -/
theorem At.dies_empty (h : At x .s_header_value_discard_lws p cbs)
    (hp : p.header_state = .h_content_length) (hsp : ch ≠ 32) (htab : ch ≠ 9)
    (hn : x.nread + 1 < 2 ^ 32) : Dies M x (ch :: bs) := by
  have hx : At { x with nread := x.nread + 1 } .s_header_value_discard_lws p cbs :=
    ⟨h.parser, h.mark, h.inner, h.round, h.calls, h.quiet⟩
  have hswitch := hx.switch_discard_lws (M := M) hsp htab
  rw [if_pos hp] at hswitch
  exact dies_fail h.inner (by rw [h.parser]; rfl) hn hswitch id

/-- The end of a line with a value. -/
theorem At.lineStart (h : At x .s_header_value_lws p cbs) : LineStart x p.finishHeader cbs := by
  refine ⟨h.inner, by rw [h.parser]; rfl, fun M ch hsp htab => ?_⟩
  refine ⟨{ x with
    parser := p.finishHeader.inState .s_header_field_start
    nread := x.nread + 1 }, ⟨rfl, h.mark, h.inner, h.round, h.calls, h.quiet⟩, rfl, rfl, ?_⟩
  have hswitch : ({ x with nread := x.nread + 1 } : Exec).switch M ch =
      ({ x with nread := x.nread + 1 } : Exec).s_header_value_lws ch := by
    unfold switch
    rw [h.parser]
    rfl
  rw [hswitch]
  unfold s_header_value_lws UPDATE_STATE
  rw [if_neg (not_or.2 ⟨hsp, htab⟩)]
  dsimp only
  rw [h.parser, CParser.finishHeader_inState]
  rfl

/-- The first byte of a value. -/
theorem At.switch_value (h : At x .s_header_value_discard_ws p cbs) (hsp : ch ≠ 32) (htab : ch ≠ 9)
    (hch : ValueByte ch) : x.switch M ch = x.s_header_value_start ch := by
  have hswitch : x.switch M ch = x.s_header_value_discard_ws ch := by
    unfold switch
    rw [h.parser]
    rfl
  rw [hswitch]
  unfold s_header_value_discard_ws
  rw [if_neg (not_or.2 ⟨hsp, htab⟩), if_neg hch.1, if_neg hch.2]

/-- What the first byte of a value does. -/
theorem At.value_start (h : At x .s_header_value_discard_ws p cbs) :
    x.s_header_value_start ch =
      let y : Exec := { x with
        parser := p.inState .s_header_value, mark := some (.on_header_value, []) }
      if p.header_state = .h_content_length then
        if !IS_NUM ch then y.fail .HPE_INVALID_CONTENT_LENGTH
        else if p.flags.F_CONTENTLENGTH then y.fail .HPE_UNEXPECTED_CONTENT_LENGTH
        else
          .ok { y with
            parser.index := 0
            parser.flags.F_CONTENTLENGTH := true
            parser.content_length := ch.toNat - 48
            parser.header_state := .h_content_length_num }
      else .ok { y with parser := (p.valueStart (LOWER ch)).inState .s_header_value } := by
  unfold s_header_value_start UPDATE_STATE
  rw [MARK_eq, h.mark]
  dsimp only
  rw [h.parser, ← CParser.valueStart_inState]
  rfl

/-- The first character of a value where the parser takes it. -/
theorem At.value_some (h : At x .s_header_value_discard_ws p cbs) (hq : p.valueFirst ch = some q) :
    x.s_header_value_start ch = .ok { x with
      parser := q.inState .s_header_value, mark := some (.on_header_value, []) } := by
  rw [h.value_start]
  unfold CParser.valueFirst at hq
  dsimp only
  split at hq
  case isTrue hp =>
    rw [if_pos hp]
    split at hq
    case isTrue => cases hq
    case isFalse hno =>
      obtain ⟨hnum, hlength⟩ := not_or.1 (mt Bool.or_eq_true_iff.2 hno)
      rw [if_neg hnum, if_neg hlength, ← Option.some.inj hq]
      rfl
  case isFalse hp =>
    rw [if_neg hp, ← Option.some.inj hq]

/-- The first character of a value where the parser refuses it. -/
theorem At.value_none (h : At x .s_header_value_discard_ws p cbs) (hq : p.valueFirst ch = none) :
    ∃ z e, x.s_header_value_start ch = fail z e ∧ z.calls = x.calls := by
  rw [h.value_start]
  unfold CParser.valueFirst at hq
  dsimp only
  split at hq
  case isTrue hp =>
    rw [if_pos hp]
    split at hq
    case isTrue hor =>
      by_cases hnum : (!IS_NUM ch) = true
      · rw [if_pos hnum]
        exact ⟨_, _, rfl, rfl⟩
      · rw [if_neg hnum, if_pos ((Bool.or_eq_true_iff.1 hor).resolve_left hnum)]
        exact ⟨_, _, rfl, rfl⟩
    case isFalse => cases hq
  case isFalse => cases hq

/-- The bytes of a value: the first one is no blank. -/
structure IsValue (v : Bytes) : Prop where
  bytes : ∀ ch ∈ v, ValueByte ch
  first : ∀ ch ∈ v.head?, ch ≠ 32 ∧ ch ≠ 9

/-- All characters of a value may stand in one. -/
theorem IsValue.tail {c : UInt8} {v : Bytes} (h : IsValue (c :: v)) : ∀ ch ∈ v, ValueByte ch :=
  fun ch hch => h.bytes ch (List.mem_cons_of_mem _ hch)

/-- **A value** and the end of its line. -/
theorem At.reads_value (hM : M < 2 ^ 32) (h : At x .s_header_value_discard_ws p cbs)
    (hv : IsValue v) (hq : p.value v = some q) : ∃ y, Reads M x (v ++ CRLF) y ∧
      LineStart y q.finishHeader (cbs ++ [.data .on_header_value v]) := by
  cases v with
  | nil =>
    obtain ⟨y, hread, hy⟩ := h.reads_empty hM
    unfold CParser.value at hq
    dsimp only at hq
    split at hq
    case isTrue => cases hq
    case isFalse hp =>
      obtain rfl := Option.some.inj hq
      exact ⟨y, hread, hy.lineStart_empty hp⟩
  | cons c v =>
    obtain ⟨hsp, htab⟩ := hv.first c rfl
    rw [CParser.value_cons] at hq
    obtain ⟨q₀, hfirst, hrest⟩ := Option.bind_eq_some_iff.1 hq
    have hx : At { x with nread := x.nread + 1 } .s_header_value_discard_ws p cbs :=
      ⟨h.parser, h.mark, h.inner, h.round, h.calls, h.quiet⟩
    let y : Exec := { x with
      parser := q₀.inState .s_header_value
      nread := x.nread + 1
      mark := some (.on_header_value, []) }
    have hswitch : ({ x with nread := x.nread + 1 } : Exec).switch M c = .ok y :=
      (hx.switch_value hsp htab (hv.bytes c List.mem_cons_self)).trans (hx.value_some hfirst)
    have hbyte := Exec.reads_byte hM h.inner (by rw [h.parser]; rfl) hswitch rfl rfl id
    have hnext : v.foldlM CParser.valueNext (y.advance c).parser =
        some (q.inState .s_header_value) := by
      refine (CParser.foldlM_valueNext_inState q₀ _ v).trans ?_
      rw [hrest]
      rfl
    obtain ⟨parser, ER, hread⟩ := Exec.reads_value (x := y.advance c) (t := [c]) hM rfl h.inner
      h.round rfl hv.tail hnext
    refine ⟨_, hbyte.trans hread, At.lineStart ⟨rfl, rfl, h.inner, h.round, ?_,
      quiet_concat h.quiet _ _⟩⟩
    dsimp only [y, advance, extend]
    rw [List.map_append, h.calls]
    rfl

/-- **A value that is an error**, with the first byte of the next line. -/
theorem At.dies_value (hM : M < 2 ^ 32) (h : At x .s_header_value_discard_ws p cbs)
    (hv : IsValue v) (hq : p.value v = none) (hsp : ch ≠ 32) (htab : ch ≠ 9)
    (hn : x.nread + v.length + 3 < 2 ^ 32) : Dies M x (v ++ (CRLF ++ ch :: bs)) := by
  cases v with
  | nil =>
    obtain ⟨y, hread, hy⟩ := h.reads_empty hM
    unfold CParser.value at hq
    dsimp only at hq
    split at hq
    case isTrue hp =>
      have hny := hread.nread
      have hlen : CRLF.length = 2 := rfl
      rw [List.length_nil] at hn
      exact hread.append_dies (by omega) (hy.dies_empty hp hsp htab (by omega))
    case isFalse => cases hq
  | cons c v =>
    obtain ⟨hsp', htab'⟩ := hv.first c rfl
    rw [List.length_cons] at hn
    have hx : At { x with nread := x.nread + 1 } .s_header_value_discard_ws p cbs :=
      ⟨h.parser, h.mark, h.inner, h.round, h.calls, h.quiet⟩
    have hswitch := hx.switch_value (M := M) hsp' htab' (hv.bytes c List.mem_cons_self)
    cases hfirst : p.valueFirst c with
    | none =>
      obtain ⟨z, e, hstart, hcalls⟩ := hx.value_none hfirst
      refine dies_fail h.inner (by rw [h.parser]; rfl) (by omega) (hswitch.trans hstart) ?_
      rw [hcalls]
      exact id
    | some q₀ =>
      let y : Exec := { x with
        parser := q₀.inState .s_header_value
        nread := x.nread + 1
        mark := some (.on_header_value, []) }
      have hbyte := Exec.reads_byte (y := y) hM h.inner (by rw [h.parser]; rfl)
        (hswitch.trans (hx.value_some hfirst)) rfl rfl id
      have hnone : v.foldlM CParser.valueNext q₀ = none := by
        rw [CParser.value_cons, hfirst] at hq
        exact hq
      have hnext : v.foldlM CParser.valueNext (y.advance c).parser = none := by
        refine (CParser.foldlM_valueNext_inState q₀ _ v).trans ?_
        rw [hnone]
        rfl
      have hdies : Dies M (y.advance c) (v ++ CR :: LF :: ch :: bs) :=
        Exec.dies_value rfl h.inner h.round hv.tail
          (by dsimp only [y, advance, extend]; omega) hnext
      exact hbyte.append_dies (by dsimp only [y, advance, extend]; omega) hdies

end Exec

/-! ### The lines -/

/-- The line of a header. -/
def headerLine (item : Bytes × Bytes) : Bytes := item.1 ++ text ": " ++ item.2 ++ text "\r\n"

/-- The callbacks of a header. -/
def headerCallbacks (item : Bytes × Bytes) : List Callback :=
  [.data .on_header_field item.1, .data .on_header_value item.2]

/-- A name of token characters, and a value that goes into one line and does not
start with a blank. -/
structure IsHeader (item : Bytes × Bytes) : Prop where
  nonempty : item.1 ≠ []
  name : ∀ ch ∈ item.1, TOKEN ch ≠ 0
  value : Exec.IsValue item.2

namespace Exec

variable {M : ℕ} {x y z : Exec} {ch : UInt8} {bs pre : Bytes} {p q : CParser} {cbs : List Callback}
  {item : Bytes × Bytes} {hs : List (Bytes × Bytes)}

/-- A header line in the parts that the parser goes through. -/
theorem headerLine_eq (item : Bytes × Bytes) :
    headerLine item = item.1 ++ [':'.toUInt8] ++ ([32] ++ (item.2 ++ CRLF)) := by
  unfold headerLine
  have hcolon : text ": " = [':'.toUInt8] ++ [32] := rfl
  have hend : text "\r\n" = CRLF := rfl
  rw [hcolon, hend]
  simp only [List.append_assoc]

/-- The length of a header line. -/
theorem length_headerLine (item : Bytes × Bytes) :
    (headerLine item).length = item.1.length + item.2.length + 4 := by
  rw [headerLine_eq]
  simp only [List.length_append, List.length_singleton]
  have hlen : CRLF.length = 2 := rfl
  omega

/-- **A line is read.** -/
theorem LineStart.reads_line (hM : M < 2 ^ 32) (h : LineStart x p cbs) (hitem : IsHeader item)
    (hq : p.line item.1 item.2 = some q) :
    ∃ y, Reads M x (headerLine item) y ∧ LineStart y q (cbs ++ headerCallbacks item) := by
  obtain ⟨q₀, hvalue, rfl⟩ := Option.map_eq_some_iff.1 hq
  obtain ⟨y₁, hname, hy₁⟩ := h.reads_name hM hitem.nonempty hitem.name
  obtain ⟨y₂, hblank, hy₂⟩ := hy₁.reads_blank hM
  obtain ⟨y₃, hrest, hy₃⟩ := hy₂.reads_value hM hitem.value hvalue
  refine ⟨y₃, ?_, ?_⟩
  · rw [headerLine_eq]
    exact hname.trans (hblank.trans hrest)
  · rwa [List.append_assoc] at hy₃

/-- **A line that is an error**, with the first byte of the next one. -/
theorem LineStart.dies_line (hM : M < 2 ^ 32) (h : LineStart x p cbs) (hitem : IsHeader item)
    (hq : p.line item.1 item.2 = none) (hsp : ch ≠ 32) (htab : ch ≠ 9)
    (hn : x.nread + (headerLine item).length + 1 < 2 ^ 32) :
    Dies M x (headerLine item ++ ch :: bs) := by
  have hvalue : (p.field item.1).value item.2 = none := Option.map_eq_none_iff.1 hq
  obtain ⟨y₁, hname, hy₁⟩ := h.reads_name hM hitem.nonempty hitem.name
  obtain ⟨y₂, hblank, hy₂⟩ := hy₁.reads_blank hM
  rw [length_headerLine] at hn
  have hn₁ : y₁.nread = x.nread + (item.1.length + 1) := by
    rw [hname.nread, List.length_append]
    rfl
  have hn₂ : y₂.nread = y₁.nread + 1 := hblank.nread
  have hdies : Dies M y₂ (item.2 ++ (CRLF ++ ch :: bs)) :=
    hy₂.dies_value hM hitem.value hvalue hsp htab (by omega)
  have hline : headerLine item ++ ch :: bs = item.1 ++ [':'.toUInt8] ++
      ([32] ++ (item.2 ++ (CRLF ++ ch :: bs))) := by
    rw [headerLine_eq]
    simp only [List.append_assoc]
  rw [hline]
  exact hname.append_dies (by omega) (hblank.append_dies (by omega) hdies)

/-- **The lines are read**, after what has been read before. -/
theorem reads_lines (hM : M < 2 ^ 32) (hpre : Reads M x pre y) (hy : LineStart y p cbs)
    (hs : List (Bytes × Bytes)) (hitems : ∀ item ∈ hs, IsHeader item) (hq : p.lines hs = some q) :
    ∃ z, Reads M x (pre ++ hs.flatMap headerLine) z ∧
      LineStart z q (cbs ++ hs.flatMap headerCallbacks) := by
  induction hs generalizing pre y p cbs with
  | nil =>
    obtain rfl := Option.some.inj hq
    refine ⟨y, ?_, ?_⟩
    · rwa [List.flatMap_nil, List.append_nil]
    · rwa [List.flatMap_nil, List.append_nil]
  | cons item hs ih =>
    have hq' : (p.line item.1 item.2).bind (fun p => p.lines hs) = some q := hq
    obtain ⟨p', hline, hrest⟩ := Option.bind_eq_some_iff.1 hq'
    obtain ⟨y', hread, hy'⟩ := hy.reads_line hM (hitems item List.mem_cons_self) hline
    obtain ⟨z, hread', hz⟩ := ih (hpre.trans hread) hy'
      (fun item hitem => hitems item (List.mem_cons_of_mem _ hitem)) hrest
    refine ⟨z, ?_, ?_⟩
    · rwa [List.append_assoc] at hread'
    · rwa [List.append_assoc] at hz

/-- **Lines one of which is an error**, with the first byte after them. -/
theorem dies_lines (hM : M < 2 ^ 32) (hpre : Reads M x pre y) (hy : LineStart y p cbs)
    (hs : List (Bytes × Bytes)) (hitems : ∀ item ∈ hs, IsHeader item) (hq : p.lines hs = none)
    (hn : y.nread + (hs.flatMap headerLine).length + 1 < 2 ^ 32) :
    Dies M x (pre ++ (hs.flatMap headerLine ++ CR :: bs)) := by
  induction hs generalizing pre y p cbs with
  | nil => cases hq
  | cons item hs ih =>
    have hitem := hitems item List.mem_cons_self
    have hrest : ∀ item ∈ hs, IsHeader item :=
      fun item hitem => hitems item (List.mem_cons_of_mem _ hitem)
    have hq' : (p.line item.1 item.2).bind (fun p => p.lines hs) = none := hq
    rw [List.flatMap_cons, List.length_append] at hn
    rw [List.flatMap_cons, List.append_assoc]
    cases hline : p.line item.1 item.2 with
    | none =>
      -- the next line starts with a token, and the end of the headers with `CR`
      have hnext : ∃ ch cs, hs.flatMap headerLine ++ CR :: bs = ch :: cs ∧ ch ≠ 32 ∧ ch ≠ 9 := by
        cases hs with
        | nil => exact ⟨CR, bs, rfl, by decide, by decide⟩
        | cons item' hs =>
          obtain ⟨hne, hname, -⟩ := hrest item' List.mem_cons_self
          obtain ⟨c, w, hw⟩ := List.exists_cons_of_ne_nil hne
          obtain ⟨hsp, htab, -⟩ := token_ne (hname c (hw ▸ List.mem_cons_self))
          refine ⟨c, w ++ [':'.toUInt8] ++ ([32] ++ (item'.2 ++ CRLF)) ++ hs.flatMap headerLine ++
            CR :: bs, ?_, hsp, htab⟩
          rw [List.flatMap_cons, headerLine_eq, hw]
          rfl
      obtain ⟨ch, cs, hcs, hsp, htab⟩ := hnext
      rw [hcs]
      exact hpre.append_dies (by omega)
        (hy.dies_line hM hitem hline hsp htab (by omega))
    | some p' =>
      rw [hline] at hq'
      obtain ⟨y', hread, hy'⟩ := hy.reads_line hM hitem hline
      have hn' := hread.nread
      have hdies := ih (hpre.trans hread) hy' hrest hq' (by omega)
      rwa [List.append_assoc] at hdies

end Exec
end Http
end Net
end Sevent
