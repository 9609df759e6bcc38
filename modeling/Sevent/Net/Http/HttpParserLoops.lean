/-
# The loops over a header

What `http_parser_execute` makes of the rest of a field name (`reads_field`) and
of a value with the end of its line (`reads_value`, `dies_value`).

Both loops count their bytes when they are left, and the loop inside the one
over a value skips a byte after `max_header_size` rounds.  Neither shows where
the headers fit: a loop that has more bytes than that ends in an error when it
counts them (`InValue.doomed`).
-/

import Sevent.Net.Http.HttpParserFields
import Sevent.Net.Http.HttpParserFirstLine

namespace Sevent
namespace Net
namespace Http

namespace Exec

variable {M k : ℕ} {x y z : Exec} {ch : UInt8} {bs cs v w : Bytes} {p q : CParser}

/-! ### The loops -/

/-- The branch of a field name does not look at the loop it is in; it is told
the round. -/
theorem s_header_field_inner (i : Option ℕ) :
    ({ x with inner := i } : Exec).s_header_field M k ch = x.s_header_field M k ch := rfl

/-- The branch of a value does not look at the loop it is in; it is told the
round. -/
theorem s_header_value_inner (i : Option ℕ) :
    ({ x with inner := i } : Exec).s_header_value M k ch = x.s_header_value M k ch := by
  have hchar : (({ x with inner := i } : Exec).valueChar ch).map
        (fun y => { y with inner := some (k + 1) }) =
      (x.valueChar ch).map fun y => { y with inner := some (k + 1) } := by
    unfold valueChar
    dsimp only
    cases x.parser.header_state <;> first | rfl | (dsimp only; split_ifs <;> rfl)
  have hdata : ({ x with inner := i, parser.state := .s_header_almost_done }.CALLBACK_DATA
        (x.pos + 1)).leave M k =
      ({ x with parser.state := .s_header_almost_done }.CALLBACK_DATA (x.pos + 1)).leave M k := by
    unfold CALLBACK_DATA
    dsimp only
    cases x.mark <;> rfl
  unfold s_header_value
  rw [hchar]
  exact if_congr Iff.rfl rfl (if_congr Iff.rfl hdata rfl)

/-- A loop is entered: the first byte is counted, and the others later. -/
theorem run_enter (hinner : x.inner = none)
    (hst : x.parser.state = .s_header_field ∨ x.parser.state = .s_header_value)
    (hn : x.nread + 1 < 2 ^ 32) : x.run M (ch :: bs) =
      if M < x.nread + 1 then
        ⟨x.calls, { x.parser with nread := x.nread + 1 }, x.pos,
          some (ParseError.code .HPE_HEADER_OVERFLOW)⟩
      else { x with nread := x.nread + 1, inner := some 0 }.run M (ch :: bs) := by
  have hparsing : PARSING_HEADER x.parser.state = true := by
    rcases hst with hst | hst <;> rw [hst] <;> rfl
  have hstep : x.step M ch = if M < x.nread + 1 then _ else _ := step_none hinner hparsing hn
  have hloop : { x with nread := x.nread + 1 }.switch M ch =
      { x with nread := x.nread + 1, inner := some 0 }.step M ch := by
    unfold switch step
    rcases hst with hst | hst
    · rw [hst]
      exact (s_header_field_inner (x := { x with nread := x.nread + 1 }) (some 0)).symm
    · rw [hst]
      exact (s_header_value_inner (x := { x with nread := x.nread + 1 }) (some 0)).symm
  split
  case isTrue hlt =>
    rw [if_pos hlt] at hstep
    rw [run, hstep]
    rfl
  case isFalse hle =>
    rw [if_neg hle, hloop] at hstep
    rw [run, run, hstep]

/-- The rounds of the loop over a field. -/
theorem run_field {cb : DataCb} {t : Bytes} (hst : x.parser.state = .s_header_field)
    (hinner : x.inner = some k) (hmark : x.mark = some (cb, t)) (hw : ∀ ch ∈ w, TOKEN ch ≠ 0) :
    x.run M (w ++ bs) = ({ x with
      parser := (w.map TOKEN).foldl CParser.fieldChar x.parser
      pos := x.pos + w.length
      mark := some (cb, t ++ w)
      inner := some (k + w.length) } : Exec).run M bs := by
  induction w generalizing x k t with
  | nil =>
    obtain ⟨parser, nread, pos, mark, inner, round, calls⟩ := x
    cases hinner
    cases hmark
    rw [List.append_nil]
    rfl
  | cons c w ih =>
    have hstep : x.step M c =
        .ok { x with parser := x.parser.fieldChar (TOKEN c), inner := some (k + 1) } := by
      unfold step
      rw [hinner]
      dsimp only
      rw [if_pos hst]
      exact if_pos (hw c List.mem_cons_self)
    have hstate : (x.parser.fieldChar (TOKEN c)).state = .s_header_field :=
      (CParser.fieldChar_state x.parser _).trans hst
    have hrest := ih (x := ({ x with
        parser := x.parser.fieldChar (TOKEN c), inner := some (k + 1) } : Exec).advance c)
      (t := t ++ [c]) hstate rfl (by unfold advance extend; dsimp only; rw [hmark]; rfl)
      fun ch hch => hw ch (List.mem_cons_of_mem _ hch)
    rw [List.cons_append, run_cons_ok hstep, hrest]
    unfold advance extend
    simp only [List.map_cons, List.foldl_cons, List.length_cons, List.append_assoc,
      List.singleton_append, Nat.add_assoc, Nat.add_comm 1]

/-- The end of a loop. -/
theorem leave_eq (x : Exec) (k : ℕ) (hn : x.nread + k < 2 ^ 32) : x.leave M k =
    if M < x.nread + k then
      ({ x with inner := none, round := 0, nread := x.nread + k } : Exec).fail .HPE_HEADER_OVERFLOW
    else .ok { x with inner := none, round := 0, nread := x.nread + k } := by
  unfold leave COUNT_HEADER_SIZE
  dsimp only
  rw [Nat.mod_eq_of_lt hn]

/-- A loop that is left with more bytes than fit is left with an error. -/
theorem leave_error (hlt : M < x.nread + k) (hn : x.nread + k < 2 ^ 32) :
    ∃ r, x.leave M k = .error r ∧ r.callbacks = x.calls := by
  rw [leave_eq x k hn, if_pos hlt]
  exact ⟨_, rfl, rfl⟩

/-- **The rest of a field** and the colon after it. -/
theorem reads_field (hM : M < 2 ^ 32) {t : Bytes} (hst : x.parser.state = .s_header_field)
    (hinner : x.inner = none) (hround : x.round = 0) (hmark : x.mark = some (.on_header_field, t))
    (hw : ∀ ch ∈ w, TOKEN ch ≠ 0) : ∃ parser ER, Reads M x (w ++ [':'.toUInt8]) { x with
      parser := ((w.map TOKEN).foldl CParser.fieldChar x.parser).inState .s_header_value_discard_ws
      nread := x.nread + (w.length + 1)
      pos := x.pos + (w.length + 1)
      mark := none
      calls := x.calls ++ [(.data .on_header_field (t ++ w), parser, ER)] } := by
  have hcons : ∃ c cs, ∀ rest, w ++ [':'.toUInt8] ++ rest = c :: (cs ++ rest) := by
    cases w with
    | nil => exact ⟨_, [], fun rest => rfl⟩
    | cons c w => exact ⟨c, w ++ [':'.toUInt8], fun rest => rfl⟩
  obtain ⟨c, cs, hcons⟩ := hcons
  -- the state at the colon
  let z : Exec := { x with
    parser := (w.map TOKEN).foldl CParser.fieldChar x.parser
    nread := x.nread + 1
    pos := x.pos + w.length
    mark := some (.on_header_field, t ++ w)
    inner := some (0 + w.length) }
  have hstate : z.parser.state = .s_header_field :=
    (CParser.foldl_fieldChar_state x.parser _).trans hst
  have hloop : x.nread + 1 ≤ M → ∀ rest, x.run M (w ++ [':'.toUInt8] ++ rest) =
      z.run M (':'.toUInt8 :: rest) := by
    intro hle rest
    rw [hcons, run_enter hinner (.inl hst) (by omega), if_neg (by omega), ← hcons,
      List.append_assoc]
    exact run_field (x := { x with nread := x.nread + 1, inner := some 0 }) hst rfl hmark hw
  have hcolon : z.step M ':'.toUInt8 = (z.leave M w.length).bind fun x =>
      .ok ((x.UPDATE_STATE .s_header_value_discard_ws).CALLBACK_DATA (x.pos + 1)) := by
    have hstep : z.step M ':'.toUInt8 = if z.parser.state = .s_header_field then
        z.s_header_field M (0 + w.length) ':'.toUInt8
      else z.s_header_value M (0 + w.length) ':'.toUInt8 := rfl
    rw [hstep, if_pos hstate, Nat.zero_add]
    rfl
  refine ⟨{ z.parser with state := .s_header_value_discard_ws, nread := x.nread + 1 + w.length },
    x.pos + w.length + 1, ?_, ?_, fun hx => ?_, fun hle rest => ?_, fun hlt hlt' hx rest => ?_⟩
  · rw [List.length_append, List.length_singleton]
  · rw [List.length_append, List.length_singleton]
  · refine noneComplete_append.2 ⟨hx, fun e he => ?_⟩
    rw [List.mem_singleton.1 he]
    exact nofun
  · dsimp only at hle
    have hleave := leave_eq (M := M) z w.length (by dsimp only [z]; omega)
    rw [if_neg (by dsimp only [z]; omega)] at hleave
    rw [hloop (by omega), run_cons_ok (hcolon.trans (by rw [hleave]; rfl))]
    unfold advance extend UPDATE_STATE CALLBACK_DATA
    dsimp only [z, Option.map_none]
    rw [hinner, hround, Nat.add_assoc, Nat.add_comm 1, Nat.add_assoc]
    rfl
  · dsimp only at hlt hlt'
    rcases Nat.lt_or_ge M (x.nread + 1) with hfirst | hfirst
    · rw [hcons, run_enter hinner (.inl hst) (by omega), if_pos hfirst]
      exact hx
    · have hleave := leave_eq (M := M) z w.length (by dsimp only [z]; omega)
      rw [if_pos (by dsimp only [z]; omega)] at hleave
      rw [hloop hfirst, run_cons_error (hcolon.trans (by rw [hleave]; rfl))]
      exact hx

/-! ### A value -/

/-- What a value takes may stand in a header. -/
theorem isHeaderChar_of_next (h : p.valueNext ch = some q) : IS_HEADER_CHAR ch = true := by
  unfold CParser.valueNext at h
  cases hch : IS_HEADER_CHAR ch with
  | true => rfl
  | false =>
    rw [hch] at h
    cases h

/-- A byte that a value takes is one more round at most of the inner loop. -/
theorem valueChar_some (h : x.parser.valueNext ch = some p) :
    ∃ r ≤ x.round + 1, x.valueChar ch = .ok { x with parser := p, round := r } := by
  have hch := isHeaderChar_of_next h
  unfold CParser.valueNext at h
  rw [hch, if_neg (by decide)] at h
  unfold valueChar
  cases hs : x.parser.header_state with
  | h_general =>
    rw [hs] at h
    obtain rfl : x.parser = p := by
      refine Eq.trans ?_ (Option.some.inj h)
      unfold CParser.valueChar
      dsimp only
      rw [hs]
      dsimp only
      rw [← hs]
    exact ⟨x.round + 1, Nat.le_refl _, rfl⟩
  | h_content_length | h_content_length_num =>
    rw [hs] at h
    refine ⟨x.round, Nat.le_succ _, ?_⟩
    dsimp only at h ⊢
    by_cases hsp : ch = 32
    · rw [if_pos hsp] at h ⊢
      rw [← Option.some.inj h]
    · rw [if_neg hsp] at h ⊢
      split at h
      case isTrue => cases h
      case isFalse hno =>
        rw [Bool.or_eq_true, not_or, decide_eq_true_eq] at hno
        rw [if_neg hno.1, if_neg hno.2, ← Option.some.inj h]
  | h_content_length_ws =>
    rw [hs] at h
    refine ⟨x.round, Nat.le_succ _, ?_⟩
    dsimp only at h ⊢
    split at h
    case isTrue hsp => rw [if_pos hsp, ← Option.some.inj h]
    case isFalse => cases h
  | _ =>
    rw [hs] at h
    exact ⟨x.round, Nat.le_succ _, by rw [← Option.some.inj h]⟩

/-- A byte that a value refuses, though it may stand in a header, ends the call
with an error. -/
theorem valueChar_none (hch : IS_HEADER_CHAR ch = true) (h : x.parser.valueNext ch = none) :
    ∃ z e, x.valueChar ch = fail z e ∧ z.calls = x.calls := by
  unfold CParser.valueNext at h
  rw [hch, if_neg (by decide)] at h
  unfold valueChar
  cases hs : x.parser.header_state with
  | h_content_length | h_content_length_num =>
    rw [hs] at h
    dsimp only at h ⊢
    by_cases hsp : ch = 32
    · rw [if_pos hsp] at h
      cases h
    · rw [if_neg hsp] at h ⊢
      split at h
      case isFalse => cases h
      case isTrue hor =>
        rw [Bool.or_eq_true, decide_eq_true_eq] at hor
        by_cases hnum : (!IS_NUM ch) = true
        · rw [if_pos hnum]
          exact ⟨_, _, rfl, rfl⟩
        · rw [if_neg hnum, if_pos (hor.resolve_left hnum)]
          exact ⟨_, _, rfl, rfl⟩
  | h_content_length_ws =>
    rw [hs] at h
    dsimp only at h ⊢
    split at h
    case isTrue => cases h
    case isFalse hsp =>
      rw [if_neg hsp]
      exact ⟨_, _, rfl, rfl⟩
  | _ =>
    rw [hs] at h
    cases h

/-- The byte is skipped, whatever it is. -/
def Skips (M : ℕ) (x : Exec) : Prop := 0 < x.round ∧ x.round = M

instance (M : ℕ) (x : Exec) : Decidable (Skips M x) := inferInstanceAs (Decidable (_ ∧ _))

/-- In the loop over a value. -/
structure InValue (x : Exec) (k : ℕ) : Prop where
  state : x.parser.state = .s_header_value
  inner : x.inner = some k

/-- In the middle of a value a byte goes to its branch. -/
theorem InValue.step (h : InValue x k) : x.step M ch = x.s_header_value M k ch := by
  unfold Exec.step
  rw [h.inner]
  dsimp only
  rw [if_neg (by rw [h.state]; exact nofun)]

/-- In the middle of a value the byte behind a full inner loop is skipped. -/
theorem InValue.step_skips (h : InValue x k) (hskip : Skips M x) :
    x.step M ch = .ok { x with round := 0, inner := some (k + 1) } :=
  h.step.trans (if_pos hskip)

/-- The end of a line does not come up in its value. -/
def ValueByte (ch : UInt8) : Prop := ch ≠ CR ∧ ch ≠ LF

instance (ch : UInt8) : Decidable (ValueByte ch) := inferInstanceAs (Decidable (_ ∧ _))

/-- In the middle of a value any other byte is looked at. -/
theorem InValue.step_byte (h : InValue x k) (hskip : ¬ Skips M x) (hch : ValueByte ch) :
    x.step M ch = if !IS_HEADER_CHAR ch then x.fail .HPE_INVALID_HEADER_TOKEN
      else (x.valueChar ch).map fun x => { x with inner := some (k + 1) } :=
  h.step.trans ((if_neg hskip).trans ((if_neg hch.1).trans (if_neg hch.2)))

/-- A byte that the value takes, in the middle of it. -/
theorem InValue.step_some (h : InValue x k) (hskip : ¬ Skips M x) (hch : ValueByte ch)
    (hnext : x.parser.valueNext ch = some p) : ∃ r ≤ x.round + 1,
      x.step M ch = .ok { x with parser := p, round := r, inner := some (k + 1) } := by
  obtain ⟨r, hr, hchar⟩ := valueChar_some hnext
  refine ⟨r, hr, ?_⟩
  rw [h.step_byte hskip hch, isHeaderChar_of_next hnext, hchar]
  rfl

/-- A byte that the value refuses, in the middle of it. -/
theorem InValue.step_none (h : InValue x k) (hskip : ¬ Skips M x) (hch : ValueByte ch)
    (hnext : x.parser.valueNext ch = none) :
    ∃ z e, x.step M ch = fail z e ∧ z.calls = x.calls := by
  rw [h.step_byte hskip hch]
  cases hheader : IS_HEADER_CHAR ch with
  | false => exact ⟨x, _, rfl, rfl⟩
  | true =>
    obtain ⟨z, e, hchar, hcalls⟩ := valueChar_none hheader hnext
    rw [hchar]
    exact ⟨z, e, rfl, hcalls⟩

/-- **The rounds of the loop over a value**, while no byte can be skipped. -/
theorem InValue.run {cb : DataCb} {t : Bytes} (h : InValue x k) (bs : Bytes)
    (hmark : x.mark = some (cb, t)) (hround : x.round ≤ k) (hk : k + v.length ≤ M)
    (hv : ∀ ch ∈ v, ValueByte ch) (hnext : v.foldlM CParser.valueNext x.parser = some p) :
    ∃ r ≤ k + v.length, x.run M (v ++ bs) = ({ x with
      parser := p
      pos := x.pos + v.length
      mark := some (cb, t ++ v)
      inner := some (k + v.length)
      round := r } : Exec).run M bs := by
  induction v generalizing x k t with
  | nil =>
    refine ⟨x.round, hround, ?_⟩
    obtain ⟨parser, nread, pos, mark, inner, round, calls⟩ := x
    cases h.inner
    cases hmark
    cases hnext
    rw [List.append_nil]
    rfl
  | cons c v ih =>
    rw [List.length_cons] at hk ⊢
    rw [List.foldlM_cons] at hnext
    obtain ⟨q, hq, hrest⟩ := Option.bind_eq_some_iff.1 hnext
    have hskip : ¬ Skips M x := fun hskip => by
      have := hskip.2
      omega
    obtain ⟨r, hr, hstep⟩ := h.step_some hskip (hv c List.mem_cons_self) hq
    have hrun := ih (x := ({ x with
        parser := q, round := r, inner := some (k + 1) } : Exec).advance c) (t := t ++ [c])
      ⟨(CParser.valueNext_state c hq).trans h.state, rfl⟩
      (by unfold advance extend; dsimp only; rw [hmark]; rfl)
      (by dsimp only [advance, extend]; omega) (by omega)
      (fun ch hch => hv ch (List.mem_cons_of_mem _ hch)) hrest
    obtain ⟨r', hr', hrun⟩ := hrun
    refine ⟨r', by omega, ?_⟩
    rw [List.cons_append, run_cons_ok hstep, hrun]
    unfold advance extend
    simp only [List.append_assoc, List.singleton_append, Nat.add_assoc, Nat.add_comm 1]

/-- A value in which a byte is an error. -/
theorem InValue.dies (h : InValue x k) (hround : x.round ≤ k) (hk : k + v.length ≤ M)
    (hv : ∀ ch ∈ v, ValueByte ch) (hnext : v.foldlM CParser.valueNext x.parser = none) :
    Dies M x (v ++ bs) := by
  induction v generalizing x k with
  | nil => cases hnext
  | cons c v ih =>
    intro hx rest
    rw [List.length_cons] at hk
    have hskip : ¬ Skips M x := fun hskip => by
      have := hskip.2
      omega
    have hch := hv c List.mem_cons_self
    rw [List.foldlM_cons] at hnext
    cases hq : x.parser.valueNext c with
    | none =>
      obtain ⟨z, e, hstep, hcalls⟩ := h.step_none hskip hch hq
      rw [List.cons_append, List.cons_append, run_cons_error hstep]
      exact hcalls ▸ hx
    | some q =>
      rw [hq] at hnext
      obtain ⟨r, hr, hstep⟩ := h.step_some hskip hch hq
      rw [List.cons_append, List.cons_append, run_cons_ok hstep]
      exact ih (x := ({ x with parser := q, round := r, inner := some (k + 1) } : Exec).advance c)
        ⟨(CParser.valueNext_state c hq).trans h.state, rfl⟩
        (by dsimp only [advance, extend]; omega) (by omega)
        (fun ch hch => hv ch (List.mem_cons_of_mem _ hch)) hnext hx rest

/-- The end of the line after a value, where the headers are too long. -/
theorem InValue.doomed_end (h : InValue x k) (hlt : M < x.nread + k)
    (hn : x.nread + k + 1 < 2 ^ 32) : Dies M x (CR :: LF :: bs) := by
  intro hx rest
  by_cases hskip : Skips M x
  · -- the `CR` is skipped, and the `LF` is not
    rw [List.cons_append, run_cons_ok (h.step_skips hskip)]
    have hloop : InValue (({ x with round := 0, inner := some (k + 1) } : Exec).advance CR)
        (k + 1) := ⟨h.state, rfl⟩
    obtain ⟨r, hleave, hcalls⟩ := leave_error (M := M) (k := k + 1)
      (x := (({ x with round := 0, inner := some (k + 1) } : Exec).advance CR).UPDATE_STATE
        .s_header_almost_done) (by dsimp only [UPDATE_STATE, advance, extend]; omega)
      (by dsimp only [UPDATE_STATE, advance, extend]; omega)
    have hstep : (({ x with round := 0, inner := some (k + 1) } : Exec).advance CR).step M LF =
        .error r := by
      rw [hloop.step]
      unfold s_header_value
      rw [if_neg (fun hskip => Nat.lt_irrefl 0 hskip.1), if_neg (by decide), if_pos rfl, hleave]
      rfl
    rw [List.cons_append, run_cons_error hstep, hcalls]
    exact hx
  · have hquiet := ((Quiet.refl x).update .s_header_almost_done).data (x.pos + 1)
    obtain ⟨r, hleave, hcalls⟩ := leave_error (M := M) (k := k)
      (x := (x.UPDATE_STATE .s_header_almost_done).CALLBACK_DATA (x.pos + 1))
      (by rw [hquiet.nread]; exact hlt) (by rw [hquiet.nread]; omega)
    have hstep : x.step M CR = .error r := h.step.trans ((if_neg hskip).trans hleave)
    rw [List.cons_append, run_cons_error hstep, hcalls]
    exact hquiet.calls hx

/-- **A value that is too long.** -/
theorem InValue.doomed (h : InValue x k) (hlt : M < x.nread + k + v.length)
    (hn : x.nread + k + v.length + 1 < 2 ^ 32) (hv : ∀ ch ∈ v, ValueByte ch) :
    Dies M x (v ++ CR :: LF :: bs) := by
  induction v generalizing x k with
  | nil => exact h.doomed_end hlt hn
  | cons c v ih =>
    intro hx rest
    rw [List.length_cons] at hlt hn
    have hch := hv c List.mem_cons_self
    have hrest : ∀ ch ∈ v, ValueByte ch := fun ch hch => hv ch (List.mem_cons_of_mem _ hch)
    rw [List.cons_append, List.cons_append]
    by_cases hskip : Skips M x
    · rw [run_cons_ok (h.step_skips hskip)]
      exact ih (x := ({ x with round := 0, inner := some (k + 1) } : Exec).advance c)
        ⟨h.state, rfl⟩ (by dsimp only [advance, extend]; omega)
        (by dsimp only [advance, extend]; omega) hrest hx rest
    · cases hq : x.parser.valueNext c with
      | none =>
        obtain ⟨z, e, hstep, hcalls⟩ := h.step_none hskip hch hq
        rw [run_cons_error hstep]
        exact hcalls ▸ hx
      | some q =>
        obtain ⟨r, hr, hstep⟩ := h.step_some hskip hch hq
        rw [run_cons_ok hstep]
        exact ih (x := ({ x with parser := q, round := r, inner := some (k + 1) } : Exec).advance c)
          ⟨(CParser.valueNext_state c hq).trans h.state, rfl⟩
          (by dsimp only [advance, extend]; omega) (by dsimp only [advance, extend]; omega)
          hrest hx rest

section
variable {t : Bytes} (hM : M < 2 ^ 32) (hst : x.parser.state = .s_header_value)
  (hinner : x.inner = none) (hround : x.round = 0) (hmark : x.mark = some (.on_header_value, t))
  (hv : ∀ ch ∈ v, ValueByte ch)
include hst hinner

/-- The loop over a value is entered. -/
theorem run_value_enter (hn : x.nread + 1 < 2 ^ 32) (hle : x.nread + 1 ≤ M) :
    x.run M (v ++ CR :: LF :: bs) =
      ({ x with nread := x.nread + 1, inner := some 0 } : Exec).run M (v ++ CR :: LF :: bs) := by
  cases v with
  | nil => rw [List.nil_append, run_enter hinner (.inr hst) hn, if_neg (by omega)]
  | cons c v => rw [List.cons_append, run_enter hinner (.inr hst) hn, if_neg (by omega)]

/-- Headers that do not fit any more when a value begins end the call, whatever
the value is. -/
theorem dies_value_enter (hn : x.nread + 1 < 2 ^ 32) (hlt : M < x.nread + 1) :
    Dies M x (v ++ CR :: LF :: bs) := by
  intro hx rest
  cases v with
  | nil =>
    rw [List.nil_append, List.cons_append, run_enter hinner (.inr hst) hn, if_pos hlt]
    exact hx
  | cons c v =>
    rw [List.cons_append, List.cons_append, run_enter hinner (.inr hst) hn, if_pos hlt]
    exact hx

include hround hv

/-- A value that is an error, up to the end of its line. -/
theorem dies_value (hn : x.nread + v.length + 2 < 2 ^ 32)
    (hnext : v.foldlM CParser.valueNext x.parser = none) : Dies M x (v ++ CR :: LF :: bs) := by
  rcases Nat.lt_or_ge M (x.nread + 1) with hfirst | hfirst
  · exact dies_value_enter hst hinner (by omega) hfirst
  intro hx rest
  have hloop : InValue { x with nread := x.nread + 1, inner := some 0 } 0 := ⟨hst, rfl⟩
  rw [List.append_assoc, List.cons_append, List.cons_append,
    run_value_enter hst hinner (by omega) hfirst]
  rcases Nat.lt_or_ge M (x.nread + 1 + v.length) with hlong | hlong
  · exact (hloop.doomed (by dsimp only; omega) (by dsimp only; omega) hv).run hx
  · exact (hloop.dies (by dsimp only; omega) (by omega) hv hnext).run hx

include hM hmark

/-- **The rest of a value** and the end of its line. -/
theorem reads_value (hnext : v.foldlM CParser.valueNext x.parser = some p) :
    ∃ parser ER, Reads M x (v ++ CRLF) { x with
      parser := p.inState .s_header_value_lws
      nread := x.nread + (v.length + 2)
      pos := x.pos + (v.length + 2)
      mark := none
      calls := x.calls ++ [(.data .on_header_value (t ++ v), parser, ER)] } := by
  have hloop : InValue { x with nread := x.nread + 1, inner := some 0 } 0 := ⟨hst, rfl⟩
  -- the state before the `LF`
  let y : Exec := { x with
    parser := p.inState .s_header_almost_done
    nread := x.nread + 1 + v.length
    pos := x.pos + v.length + 1
    mark := none
    calls := x.calls ++ [(.data .on_header_value (t ++ v),
      { p with state := .s_header_almost_done, nread := x.nread + 1 }, x.pos + v.length + 1)] }
  have hline : x.nread + 1 + v.length ≤ M → ∀ rest,
      x.run M (v ++ CR :: LF :: rest) = y.run M (LF :: rest) := by
    intro hle rest
    have hlen : 0 + v.length ≤ M := by omega
    obtain ⟨r, hr, hrun⟩ := hloop.run (CR :: LF :: rest) hmark (by dsimp only; omega) hlen hv hnext
    rw [run_value_enter hst hinner (by omega) (by omega), hrun, Nat.zero_add]
    let z : Exec := { x with
      parser := p
      nread := x.nread + 1
      pos := x.pos + v.length
      mark := some (.on_header_value, t ++ v)
      inner := some v.length
      round := r }
    have hend : z.InValue v.length := ⟨(CParser.foldlM_valueNext_state hnext).trans hst, rfl⟩
    have hskip : ¬ Skips M z := fun hskip => by
      have hr' : r = M := hskip.2
      omega
    have hleave := leave_eq (M := M) ((z.UPDATE_STATE .s_header_almost_done).CALLBACK_DATA
      (z.pos + 1)) v.length (by dsimp only [z, UPDATE_STATE, CALLBACK_DATA]; omega)
    rw [if_neg (by dsimp only [z, UPDATE_STATE, CALLBACK_DATA]; omega)] at hleave
    have hstep := hend.step.trans ((if_neg hskip).trans ((if_pos rfl).trans hleave))
    have hy : z.run M (CR :: LF :: rest) = _ := run_cons_ok hstep
    unfold advance extend at hy
    dsimp only [z, UPDATE_STATE, CALLBACK_DATA, Option.map_none] at hy
    rw [hy, ← hinner, ← hround]
    rfl
  have hbyte : Reads M y [LF] { y with
      parser := p.inState .s_header_value_lws
      nread := x.nread + 1 + v.length + 1
      pos := x.pos + v.length + 1 + 1 } :=
    reads_byte (y := { y with
        parser := p.inState .s_header_value_lws, nread := x.nread + 1 + v.length + 1 })
      hM hinner rfl rfl rfl rfl id
  refine ⟨{ p with state := .s_header_almost_done, nread := x.nread + 1 }, x.pos + v.length + 1,
    ?_, ?_, fun hx => ?_, fun hle rest => ?_, fun hlt hlt' hx rest => ?_⟩
  · rw [List.length_append]
    rfl
  · rw [List.length_append]
    rfl
  · refine noneComplete_append.2 ⟨hx, fun e he => ?_⟩
    rw [List.mem_singleton.1 he]
    exact nofun
  · dsimp only at hle
    have hgoes := hbyte.goes (by dsimp only; omega) rest
    rw [List.append_assoc]
    refine (hline (by omega) rest).trans (hgoes.trans ?_)
    have hn : x.nread + 1 + v.length + 1 = x.nread + (v.length + 2) := by omega
    rw [hn]
    rfl
  · dsimp only at hlt hlt'
    rw [List.append_assoc]
    rcases Nat.lt_or_ge M (x.nread + 1) with hfirst | hfirst
    · exact (dies_value_enter hst hinner (by omega) hfirst).run hx
    rcases Nat.lt_or_ge M (x.nread + 1 + v.length) with hlong | hlong
    · refine (congrArg (fun r => NoneComplete r.callbacks)
        (run_value_enter hst hinner (by omega) hfirst)).mpr ?_
      exact (hloop.doomed (by dsimp only; omega) (by dsimp only; omega) hv).run hx
    · have hline := hline hlong rest
      refine (congrArg (fun r => NoneComplete r.callbacks) hline).mpr ?_
      refine hbyte.dies (by dsimp only; omega) (by dsimp only; omega) ?_ rest
      refine noneComplete_append.2 ⟨hx, fun e he => ?_⟩
      rw [List.mem_singleton.1 he]
      exact nofun

end

end Exec
end Http
end Net
end Sevent
