/-
# What the headers do to the parser

A header line changes the parser by `CParser.line`, the branches of
`http_parser_execute` for its characters without the loops and the counting
around them, and some lines by `CParser.lines`.

None of these looks at the `state` of the parser or changes it, which belongs to
the loops: they commute with `inState`, and keep the state they are given.
-/

import Sevent.Net.Http.HttpParserExecute

namespace Sevent
namespace Net
namespace Http

namespace CParser

/-- The parser after the name of a header. -/
def field (p : CParser) : Bytes → CParser
  | [] => p
  | c :: w => (w.map TOKEN).foldl fieldChar (p.fieldStart (TOKEN c))

/-- The parser after the first byte of a value; `none` is an error. -/
def valueFirst (p : CParser) (ch : UInt8) : Option CParser :=
  if p.header_state = .h_content_length then
    if !IS_NUM ch || p.flags.F_CONTENTLENGTH then none
    else some { p with
      index := 0
      flags.F_CONTENTLENGTH := true
      content_length := ch.toNat - 48
      header_state := .h_content_length_num }
  else some (p.valueStart (LOWER ch))

/-- The parser after another byte of a value. -/
def valueNext (p : CParser) (ch : UInt8) : Option CParser :=
  if !IS_HEADER_CHAR ch then none
  else
    match p.header_state with
    | .h_content_length | .h_content_length_num =>
      if ch = 32 then
        some { p with
          header_state :=
            if p.header_state = .h_content_length then .h_content_length else .h_content_length_ws }
      else if !IS_NUM ch || decide ((ULLONG_MAX - 10) / 10 < p.content_length) then none
      else some { p with
        header_state := .h_content_length_num
        content_length := p.content_length * 10 + (ch.toNat - 48) }
    | .h_content_length_ws => if ch = 32 then some p else none
    | _ => some (p.valueChar ch)

/-- The parser after a value. -/
def value (p : CParser) : Bytes → Option CParser
  | [] => if p.header_state = .h_content_length then none else some p
  | ch :: v => (p.valueFirst ch).bind fun p => v.foldlM valueNext p

/-- A value that is not empty: its first byte, then the others. -/
theorem value_cons (p : CParser) (ch : UInt8) (v : Bytes) :
    p.value (ch :: v) = (p.valueFirst ch).bind fun p => v.foldlM valueNext p := rfl

/-- The parser after a header. -/
def line (p : CParser) (name v : Bytes) : Option CParser :=
  ((p.field name).value v).map finishHeader

/-- The parser after some headers. -/
def lines (p : CParser) (hs : List (Bytes × Bytes)) : Option CParser :=
  hs.foldlM (fun p h => p.line h.1 h.2) p

/-- The same parser in another state. -/
def inState (p : CParser) (s : ParseState) : CParser := { p with state := s }

variable (p : CParser) (s : ParseState) (c ch : UInt8)

/-- The state of the header is another field than the state of the parser. -/
@[simp]
theorem inState_header_state : (p.inState s).header_state = p.header_state := rfl

/-- A letter that is matched does not see the state. -/
theorem matchWord_inState (word : Bytes) (hit miss : HeaderState) :
    (p.inState s).matchWord word c hit miss = (p.matchWord word c hit miss).inState s := by
  unfold matchWord inState
  dsimp only
  split_ifs <;> rfl

/-- A letter of a field name does not see the state. -/
theorem fieldChar_inState : (p.inState s).fieldChar c = (p.fieldChar c).inState s := by
  unfold fieldChar
  rw [inState_header_state]
  cases p.header_state <;> first | rfl | exact matchWord_inState .. | skip
  dsimp only
  rw [matchWord_inState]
  rfl

/-- A field name does not see the state. -/
theorem foldl_fieldChar_inState (w : Bytes) :
    w.foldl fieldChar (p.inState s) = (w.foldl fieldChar p).inState s := by
  induction w generalizing p with
  | nil => rfl
  | cons c w ih => rw [List.foldl_cons, List.foldl_cons, fieldChar_inState, ih]

/-- The first byte of a value does not see the state. -/
theorem valueStart_inState : (p.inState s).valueStart c = (p.valueStart c).inState s := by
  unfold valueStart
  dsimp only
  rw [inState_header_state]
  cases p.header_state <;> rfl

/-- The end of a header does not see the state. -/
theorem finishHeader_inState : (p.inState s).finishHeader = p.finishHeader.inState s := by
  unfold finishHeader
  rw [inState_header_state]
  cases p.header_state <;> rfl

/-- A further byte of a value does not see the state. -/
theorem valueChar_inState : (p.inState s).valueChar ch = (p.valueChar ch).inState s := by
  unfold valueChar
  dsimp only
  rw [inState_header_state]
  cases p.header_state <;> dsimp only <;> first
    | rfl
    | exact matchWord_inState ..
    | (split_ifs <;> first | rfl | (rw [finishHeader_inState]; rfl))

/-- A byte of a value, taken or refused, does not see the state. -/
theorem valueNext_inState :
    (p.inState s).valueNext ch = (p.valueNext ch).map fun p => p.inState s := by
  unfold valueNext
  rw [inState_header_state]
  split
  · rfl
  · cases p.header_state <;> dsimp only <;> first
      | exact congrArg some (valueChar_inState p s ch)
      | (split_ifs <;> first | rfl | contradiction)

/-- A value, taken or refused, does not see the state. -/
theorem foldlM_valueNext_inState (v : Bytes) :
    v.foldlM valueNext (p.inState s) = (v.foldlM valueNext p).map fun p => p.inState s := by
  induction v generalizing p with
  | nil => rfl
  | cons ch v ih =>
    rw [List.foldlM_cons, List.foldlM_cons, valueNext_inState]
    cases p.valueNext ch with
    | none => rfl
    | some q => exact ih q

/-- A function that works in every state leaves the state alone. -/
theorem state_of_inState {f : CParser → CParser}
    (h : ∀ p s, f (p.inState s) = (f p).inState s) : (f p).state = p.state := by
  have hp := congrArg CParser.state (h p p.state)
  exact hp

variable {p} in
/-- What does not see the state does not change it. -/
theorem state_of_inState_some {f : CParser → Option CParser} {q : CParser}
    (h : ∀ p s, f (p.inState s) = (f p).map fun p => p.inState s) (hq : f p = some q) :
    q.state = p.state := by
  have hp := h p p.state
  rw [show p.inState p.state = p from rfl, hq] at hp
  have hstate := congrArg CParser.state (Option.some.inj hp)
  exact hstate

/-- A letter of a field name keeps the state. -/
theorem fieldChar_state : (p.fieldChar c).state = p.state :=
  state_of_inState (f := fun p => p.fieldChar c) p fun p s => fieldChar_inState p s c

/-- A field name keeps the state. -/
theorem foldl_fieldChar_state (w : Bytes) : (w.foldl fieldChar p).state = p.state :=
  state_of_inState (f := fun p => w.foldl fieldChar p) p fun p s => foldl_fieldChar_inState p s w

variable {p} in
/-- A byte of a value that is taken keeps the state. -/
theorem valueNext_state {q : CParser} (h : p.valueNext ch = some q) : q.state = p.state :=
  state_of_inState_some (f := fun p => p.valueNext ch) (fun p s => valueNext_inState p s ch) h

variable {p} in
/-- A value that is taken keeps the state. -/
theorem foldlM_valueNext_state {q : CParser} {v : Bytes} (h : v.foldlM valueNext p = some q) :
    q.state = p.state :=
  state_of_inState_some (f := fun p => v.foldlM valueNext p)
    (fun p s => foldlM_valueNext_inState p s v) h

end CParser

end Http
end Net
end Sevent
