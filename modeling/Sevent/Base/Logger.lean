/-
# Log records

`LogEvent` and `DefaultLogProcessor` of `sevent/base/Logger.cpp`.

A log statement makes a `LogEvent`, whose `initStream` puts the time, the thread,
the level and perhaps an error into the stream of the thread; then come the
values; the destructor puts ` - file:line` and a newline behind them, gives the
text of the stream to the appender and resets the stream.  Each of these is an
operand of `<<`, and one that finds no room is left out without a trace: the
newline needs 2 bytes, the line number 32.

`record_terminated_iff` says when a record ends with its ` - file:line` and the
newline: when no string that is streamed has a negative length as an `int`, and
as many bytes as the file name has and 36 more remain for the destructor.
-/

import Sevent.Base.LogStreamSpec

namespace Sevent
namespace Base

open Bytes Transition LogStream

namespace LogStream

variable {Double : Type} {format : Double → List UInt8}

/-! ### Room -/

/-- How many bytes of the stream are filled after operands, `n` before. -/
def fill (format : Double → List UInt8) (n : ℕ) (os : List (Operand Double)) : ℕ :=
  os.foldl (fun (n : ℕ) (o : Operand Double) =>
    if o.need < samllBufferSize - n then n + (o.put format).length else n) n

/-- Operands that all find room, where `r` bytes remain. -/
def AllFit (format : Double → List UInt8) : ℤ → List (Operand Double) → Prop
  | _, [] => True
  | r, o :: os => 0 ≤ o.need ∧ o.need < r ∧ o.put format = o.text format ∧
      AllFit format (r - (o.text format).length) os

variable (format) in
/-- What is put into the stream is the beginning of the text. -/
theorem isPrefix_put (o : Operand Double) : o.put format <+: o.text format := by
  cases o with
  | cstr str =>
    cases str with
    | none => exact List.prefix_rfl
    | some v => exact List.take_prefix _ v
  | string v => exact List.take_prefix _ v
  | _ => exact List.prefix_rfl

variable (format) in
/-- A text is made of every sequence without a negative length, and of no other. -/
theorem exists_run_insertText_iff (t : List UInt8) {os : List (Operand Double)} :
    (∃ t', run (insertText format) t os = some t') ↔ ∀ o ∈ os, 0 ≤ o.need := by
  induction os generalizing t with
  | nil => exact iff_of_true ⟨t, rfl⟩ fun o ho => absurd ho List.not_mem_nil
  | cons o os ih =>
    rw [List.forall_mem_cons, run_cons, insertText]
    split
    case isTrue hneg =>
      refine iff_of_false (fun h => ?_) fun h => absurd h.1 (not_le.2 hneg)
      obtain ⟨t', ht'⟩ := h
      cases ht'
    case isFalse h0 =>
      rw [and_iff_right (not_lt.1 h0)]
      split
      case isTrue => exact ih _
      case isFalse => exact ih _

/-- A sequence of operands is defined exactly when none of their lengths is negative. -/
theorem Ok.exists_run_iff (hformat : ∀ v, (format v).length ≤ 19) {s : LogStream} (h : s.Ok)
    (os : List (Operand Double)) :
    (∃ s', run (insert format) s os = some s') ↔ ∀ o ∈ os, 0 ≤ o.need := by
  rw [← exists_run_insertText_iff format s.text]
  constructor
  · rintro ⟨s', hs'⟩
    exact ⟨s'.text, (h.run_text hformat hs').2.1⟩
  · rintro ⟨t, ht⟩
    obtain ⟨s', hs', -⟩ := (h.run_iff hformat).2 ht
    exact ⟨s', hs'⟩

/-- `fill` counts the bytes of the text. -/
theorem length_run_insertText {os : List (Operand Double)} {t t' : List UInt8}
    (h : run (insertText format) t os = some t') : t'.length = fill format t.length os := by
  induction os generalizing t with
  | nil => rw [← Option.some.inj h]; rfl
  | cons o os ih =>
    obtain ⟨t₁, ht₁, hrun⟩ := run_cons_eq_some.1 h
    rw [ih hrun, fill, fill, List.foldl_cons]
    unfold insertText at ht₁
    split_ifs at ht₁ with hneg hroom
    · rw [← Option.some.inj ht₁, if_pos hroom, List.length_append]
    · rw [← Option.some.inj ht₁, if_neg hroom]

/-- No operand adds more than its text. -/
theorem length_run_le {os : List (Operand Double)} {t t' : List UInt8}
    (h : run (insertText format) t os = some t') :
    t'.length ≤ t.length + (os.flatMap fun o => o.text format).length := by
  induction os generalizing t with
  | nil => rw [← Option.some.inj h]; rfl
  | cons o os ih =>
    obtain ⟨t₁, ht₁, hrun⟩ := run_cons_eq_some.1 h
    have hle := ih hrun
    have hput := (isPrefix_put format o).length_le
    rw [List.flatMap_cons, List.length_append]
    unfold insertText at ht₁
    split_ifs at ht₁ with hneg hroom
    · rw [← Option.some.inj ht₁, List.length_append] at hle
      omega
    · rw [← Option.some.inj ht₁] at hle
      omega

/-- Nothing arrives where no operand finds room. -/
theorem run_insertText_eq_self {os : List (Operand Double)} {t : List UInt8}
    (h : ∀ o ∈ os, 0 ≤ o.need ∧ samllBufferSize - t.length ≤ o.need) :
    run (insertText format) t os = some t := by
  induction os with
  | nil => rfl
  | cons o os ih =>
    obtain ⟨h0, hroom⟩ := h o List.mem_cons_self
    refine run_cons_eq_some.2 ⟨t, ?_, ih fun o ho => h o (List.mem_cons_of_mem _ ho)⟩
    rw [insertText, if_neg (not_lt.2 h0), if_neg (not_lt.2 hroom)]

/-- **All of the text arrives exactly when every operand finds room.** -/
theorem run_insertText_append_iff (hformat : ∀ v, (format v).length ≤ 19)
    {os : List (Operand Double)} (hempty : ∀ o ∈ os, o.text format = [] → o.need = 0)
    {t : List UInt8} (ht : t.length < samllBufferSize) :
    run (insertText format) t os = some (t ++ os.flatMap fun o => o.text format) ↔
      AllFit format (samllBufferSize - t.length) os := by
  induction os generalizing t with
  | nil => exact iff_of_true (congrArg some (List.append_nil t).symm) trivial
  | cons o os ih =>
    have htail : ∀ t : List UInt8, t.length < samllBufferSize → _ := fun t ht =>
      ih (fun o ho => hempty o (List.mem_cons_of_mem _ ho)) (t := t) ht
    rw [List.flatMap_cons, ← List.append_assoc, AllFit]
    constructor
    · intro h
      obtain ⟨t₁, ht₁, hrun⟩ := run_cons_eq_some.1 h
      have hle := length_run_le hrun
      have hput := isPrefix_put format o
      rw [List.length_append, List.length_append] at hle
      unfold insertText at ht₁
      split_ifs at ht₁ with hneg hroom
      · obtain rfl := Option.some.inj ht₁
        rw [List.length_append] at hle
        have hall : o.put format = o.text format := hput.eq_of_length_le (by omega)
        have hlen := length_put_le hformat (not_lt.1 hneg)
        rw [hall] at hrun hlen
        have hfit := (htail _ (by rw [List.length_append]; omega)).1 hrun
        rw [List.length_append] at hfit
        refine ⟨not_lt.1 hneg, hroom, hall, ?_⟩
        convert hfit using 1
        push_cast
        omega
      · obtain rfl := Option.some.inj ht₁
        have hnil : o.text format = [] := List.length_eq_zero_iff.1 (by omega)
        have hzero := hempty o List.mem_cons_self hnil
        omega
    · rintro ⟨h0, hroom, hall, hfit⟩
      have hlen := length_put_le hformat h0
      rw [hall] at hlen
      have hstep : insertText format t o = some (t ++ o.text format) := by
        rw [insertText, if_neg (not_lt.2 h0), if_pos hroom, hall]
      refine run_cons_eq_some.2 ⟨_, hstep, (htail _ (by rw [List.length_append]; omega)).2 ?_⟩
      rw [List.length_append]
      convert hfit using 1
      push_cast
      omega

end LogStream

/-- `Logger::Level`. -/
inductive Level
  | TRACE
  | DEBUG
  | INFO
  | WARN
  | ERROR_
  | FATAL
  deriving DecidableEq

/-- `LogLevelName`. -/
def LogLevelName : Level → List UInt8
  | .TRACE => "TRACE ".toUTF8.toList
  | .DEBUG => "DEBUG ".toUTF8.toList
  | .INFO => "INFO  ".toUTF8.toList
  | .WARN => "WARN  ".toUTF8.toList
  | .ERROR_ => "ERROR ".toUTF8.toList
  | .FATAL => "FATAL ".toUTF8.toList

theorem length_LogLevelName (l : Level) : (LogLevelName l).length = 6 := by
  cases l <;> decide +kernel

/-- The members of `LogEvent`, with the text that `formatTime` gives for its time and
`strerror_tl` for its error. -/
structure LogEvent where
  path : List UInt8
  slash : UInt8
  line : IntegerType.int.Value
  level : Level
  errNum : IntegerType.int.Value
  time : StreamItem
  threadId : List UInt8
  strerror : List UInt8

namespace LogEvent

variable {Double : Type}

/-- The constructor stores what follows the last slash of the path, `/` or, on Windows,
`\\`. -/
def file (logEv : LogEvent) : List UInt8 :=
  (logEv.path.reverse.takeWhile (· ≠ logEv.slash)).reverse

/-- `DefaultLogProcessor::beforeMsgToStream`. -/
def beforeMsgToStream (logEv : LogEvent) : List (Operand Double) :=
  [.item logEv.time, .char ' '.toUInt8, .string logEv.threadId,
    .item ⟨LogLevelName logEv.level, by rw [length_LogLevelName]; decide⟩] ++
  if logEv.errNum.1 ≠ 0 then
    [.cstr (some logEv.strerror), .cstr (some "(errno=".toUTF8.toList),
      .integer .int logEv.errNum, .cstr (some ") ".toUTF8.toList)]
  else []

/-- `DefaultLogProcessor::afterMsgToStream`. -/
def afterMsgToStream (logEv : LogEvent) : List (Operand Double) :=
  [.item ⟨" - ".toUTF8.toList, by decide +kernel⟩, .cstr (some logEv.file), .char ':'.toUInt8,
    .integer .int logEv.line, .char '\n'.toUInt8]

/-- What the destructor gives to the appender, for the stream that `initStream` and the
values have left. -/
def record (format : Double → List UInt8) (logEv : LogEvent) (s : LogStream) :
    Option (List UInt8) :=
  (run (insert format) s logEv.afterMsgToStream).map text

/-- A log statement with its values: the stream it leaves, reset.  After a `FATAL` record
the program ends. -/
def log (format : Double → List UInt8) (s : LogStream) (st : LogEvent × List (Operand Double)) :
    Option LogStream :=
  (run (insert format) s (st.1.beforeMsgToStream ++ st.2 ++ st.1.afterMsgToStream)).bind fun s =>
    if st.1.level = .FATAL then none else some { s with cur := 0 }

/-- ` - file:line` and the newline. -/
def suffix (logEv : LogEvent) : List UInt8 :=
  " - ".toUTF8.toList ++ logEv.file ++ ":".toUTF8.toList ++ convert logEv.line.1 ++
    "\n".toUTF8.toList

/-- The record is what has been streamed, and behind it ` - file:line` and the newline. -/
def Terminated (format : Double → List UInt8) (s : LogStream)
    (st : LogEvent × List (Operand Double)) : Prop :=
  ∃ s' bytes, run (insert format) s (st.1.beforeMsgToStream ++ st.2) = some s' ∧
    st.1.record format s' = some bytes ∧
    bytes = s'.text ++ st.1.suffix ∧ bytes.getLast? = some '\n'.toUInt8

/-- The condition on a log statement: no string has a negative length as an `int`, and
there is room for the suffix. -/
def RoomForSuffix (format : Double → List UInt8) (st : LogEvent × List (Operand Double)) : Prop :=
  (∀ o ∈ st.1.beforeMsgToStream ++ st.2, 0 ≤ o.need) ∧
    fill format 0 (st.1.beforeMsgToStream ++ st.2) + st.1.file.length + 36 ≤ samllBufferSize

variable {format : Double → List UInt8} {logEv : LogEvent}

theorem length_dash : " - ".toUTF8.toList.length = 3 := by decide +kernel

variable (format) in
theorem flatMap_afterMsgToStream :
    (logEv.afterMsgToStream.flatMap fun o : Operand Double => o.text format) = logEv.suffix := by
  have hcolon : ":".toUTF8.toList = [':'.toUInt8] := by decide +kernel
  have hnewline : "\n".toUTF8.toList = ['\n'.toUInt8] := by decide +kernel
  rw [suffix, hcolon, hnewline]
  simp only [afterMsgToStream, List.flatMap_cons, List.flatMap_nil, Operand.text,
    List.append_nil, List.append_assoc]

/-- What the destructor needs: 3 bytes, the file name, 1 byte and 32 for the line number,
of which enough are left for the newline. -/
theorem allFit_afterMsgToStream {r : ℤ} (hr : r ≤ samllBufferSize) :
    AllFit format r logEv.afterMsgToStream ↔ logEv.file.length + 36 ≤ r := by
  have hline := length_convert_le logEv.line
  unfold samllBufferSize at hr
  simp only [afterMsgToStream, AllFit, Operand.need, Operand.put, Operand.text, length_dash,
    List.length_singleton, and_true, true_and]
  constructor
  · rintro ⟨-, -, h0, hroom, hfile, -, hcolon, -, hnum, -, hnewline⟩
    have hlen := congrArg List.length hfile
    rw [List.length_take] at hlen
    unfold maxNumericSize at hnum
    omega
  · intro hroom
    have heq : toInt logEv.file.length = logEv.file.length := (toInt_eq_iff _).2 (by omega)
    unfold maxNumericSize
    simp only [heq, Int.toNat_natCast, List.take_length, true_and]
    omega

/-- Nothing but an empty file name is an empty operand. -/
theorem need_of_text_eq_nil : ∀ o ∈ (logEv.afterMsgToStream : List (Operand Double)),
    o.text format = [] → o.need = 0 := by
  intro o ho hnil
  simp only [afterMsgToStream, List.mem_cons, List.not_mem_nil, or_false] at ho
  rcases ho with rfl | rfl | rfl | rfl | rfl
  · exact absurd (length_dash.symm.trans (congrArg List.length hnil)) (by decide)
  · rw [Operand.need, show logEv.file = [] from hnil]
    rfl
  · cases hnil
  · have hne := Numeral.write_ne_nil 10 (fun d => zero (d : ℕ)) logEv.line.1.natAbs
    rw [Operand.text, convert_eq, Numeral.writeSigned, List.append_eq_nil_iff] at hnil
    exact absurd hnil.2 hne
  · cases hnil

theorem getLast?_append_suffix (t : List UInt8) :
    (t ++ logEv.suffix).getLast? = some '\n'.toUInt8 := by
  have hnewline : "\n".toUTF8.toList = ['\n'.toUInt8] := by decide +kernel
  rw [suffix, hnewline, ← List.append_assoc, List.getLast?_append, List.getLast?_singleton]
  rfl

/-- **One record** ends with its suffix exactly when there is room for it. -/
theorem terminated_iff (hformat : ∀ v, (format v).length ≤ 19) {s : LogStream} (h : s.Ok)
    (h0 : s.cur = 0) (st : LogEvent × List (Operand Double)) :
    Terminated format s st ↔ RoomForSuffix format st := by
  have htext : s.text = [] := by rw [text, h0, List.take_zero]
  have hempty : ∀ o ∈ (st.1.afterMsgToStream : List (Operand Double)),
      o.text format = [] → o.need = 0 := need_of_text_eq_nil
  constructor
  · rintro ⟨s', bytes, hs', hbytes, hsuffix, -⟩
    have hok := ok_run hformat h hs'
    have hrun := (h.run_iff hformat).1 ⟨s', hs', hok, rfl⟩
    rw [htext] at hrun
    obtain ⟨s'', hs'', rfl⟩ := Option.map_eq_some_iff.1 hbytes
    have hrest := (hok.run_iff hformat).1 ⟨s'', hs'', ok_run hformat hok hs'', hsuffix⟩
    rw [← flatMap_afterMsgToStream format, run_insertText_append_iff hformat hempty
      (hok.length_text ▸ hok.cur_lt), allFit_afterMsgToStream (by omega)] at hrest
    refine ⟨(exists_run_insertText_iff format []).1 ⟨_, hrun⟩, ?_⟩
    have hfill := length_run_insertText hrun
    rw [List.length_nil] at hfill
    omega
  · rintro ⟨h0, hroom⟩
    obtain ⟨t, ht⟩ := (exists_run_insertText_iff format []).2 h0
    have hfill := length_run_insertText ht
    rw [← htext] at ht
    obtain ⟨s', hs', hok, rfl⟩ := (h.run_iff hformat).2 ht
    rw [List.length_nil] at hfill
    have hrest := (run_insertText_append_iff hformat hempty (hok.length_text ▸ hok.cur_lt)).2
      (allFit_afterMsgToStream (by omega) |>.2 (by omega))
    rw [flatMap_afterMsgToStream] at hrest
    obtain ⟨s'', hs'', -, htext'⟩ := (hok.run_iff hformat).2 hrest
    refine ⟨s', _, hs', congrArg (Option.map text) hs'', htext', ?_⟩
    rw [htext', getLast?_append_suffix]

/-- **Every record of a sequence of log statements ends with ` - file:line` and a
newline** if and only if there is room for the suffix in each of them, behind the
prefix and the operands that fitted: what has no room is dropped whole. -/
theorem record_terminated_iff (hformat : ∀ v, (format v).length ≤ 19) {memory : List UInt8}
    (hmem : memory.length = samllBufferSize) (sts : List (LogEvent × List (Operand Double))) :
    Steps (log format) (Terminated format) (fresh memory) sts ↔
      Steps (log format) (fun _ st => RoomForSuffix format st) (fresh memory) sts := by
  refine steps_congr (fun s st s' (h : s.Ok ∧ s.cur = 0) hs' => ?_)
    (fun s st h => terminated_iff hformat h.1 h.2 st) ⟨⟨hmem, Nat.zero_lt_succ _⟩, rfl⟩
  obtain ⟨t, ht, hreset⟩ := Option.bind_eq_some_iff.1 hs'
  have hok := ok_run hformat h.1 ht
  obtain ⟨-, hs'⟩ := Option.ite_none_left_eq_some.1 hreset
  obtain rfl := Option.some.inj hs'
  exact ⟨⟨hok.size, Nat.zero_lt_succ _⟩, rfl⟩

/-- `LOG_INFO` on line 7 of `src/a.cpp`. -/
def infoEvent : LogEvent where
  path := "src/a.cpp".toUTF8.toList
  slash := '/'.toUInt8
  line := ⟨7, by decide⟩
  level := .INFO
  errNum := ⟨0, by decide⟩
  time := ⟨"20220330 16:39:14".toUTF8.toList, by decide +kernel⟩
  threadId := "1 ".toUTF8.toList
  strerror := []

/-- `LOG_INFO << "hi" << 5.0`. -/
theorem record_terminated_info :
    Steps (log formatIntegral) (Terminated formatIntegral) (fresh (List.replicate 4000 0))
      [(infoEvent, [.string "hi".toUTF8.toList, .double ⟨5, by decide⟩])] :=
  (record_terminated_iff length_formatIntegral List.length_replicate _).2
    ⟨⟨by decide +kernel, by decide +kernel⟩, fun _ _ => trivial⟩

/-- `LOG_INFO << std::string(3973, 'a')`: one byte remains behind the text, the
destructor finds no room for the suffix and adds nothing, and the record ends with an
`a`. -/
theorem record_not_terminated :
    ∃ s bytes, run (insert formatIntegral) (fresh (List.replicate 4000 0))
        (infoEvent.beforeMsgToStream ++ [.string (List.replicate 3973 'a'.toUInt8)]) = some s ∧
      infoEvent.record formatIntegral s = some bytes ∧ bytes.getLast? = some 'a'.toUInt8 := by
  obtain ⟨v, hv⟩ : ∃ v, v = List.replicate 3973 'a'.toUInt8 := ⟨_, rfl⟩
  have hlen : v.length = 3973 := by rw [hv, List.length_replicate]
  have hok : (fresh (List.replicate 4000 0)).Ok :=
    ⟨List.length_replicate, Nat.zero_lt_succ _⟩
  obtain ⟨t, ht⟩ : ∃ t, t = "20220330 16:39:14 1 INFO  ".toUTF8.toList := ⟨_, rfl⟩
  have htlen : t.length = 26 := by rw [ht]; decide +kernel
  have hbefore : run (insertText formatIntegral) [] infoEvent.beforeMsgToStream = some t := by
    rw [ht]
    decide +kernel
  have hstring : insertText formatIntegral t (.string v) = some (t ++ v) := by
    have hneed : (Operand.string v : Operand IntegralDouble).need = 3973 := by
      rw [Operand.need, hlen]
      decide
    have hput : (Operand.string v : Operand IntegralDouble).put formatIntegral = v := by
      rw [Operand.put, hlen]
      exact List.take_of_length_le hlen.le
    rw [insertText, hneed, hput, htlen]
    rfl
  have hbody : run (insertText formatIntegral) [] (infoEvent.beforeMsgToStream ++ [.string v]) =
      some (t ++ v) :=
    run_append_eq_some.2 ⟨t, hbefore, run_cons_eq_some.2 ⟨t ++ v, hstring, rfl⟩⟩
  obtain ⟨s, hs, hsok, hstext⟩ := (hok.run_iff length_formatIntegral).2 hbody
  have hafter : run (insertText formatIntegral) s.text infoEvent.afterMsgToStream =
      some s.text := by
    refine run_insertText_eq_self ?_
    rw [hstext, List.length_append, htlen, hlen]
    decide +kernel
  obtain ⟨s', hs', -, htext'⟩ := (hsok.run_iff length_formatIntegral).2 hafter
  refine ⟨s, s.text, hv ▸ hs, ?_, ?_⟩
  · rw [record, hs', Option.map_some, htext']
  · rw [hstext, List.getLast?_append, hv, List.getLast?_replicate]
    rfl

end LogEvent
end Base
end Sevent
