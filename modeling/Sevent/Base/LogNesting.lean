/-
# Log statements inside of log statements

The thread-local `LogEvent::stream` in `sevent/base/Logger.cpp`.

A `LogEvent` exists from the start of its statement to the end, and the operand of
a statement may itself execute statements: `LOG_INFO << f()` evaluates `f()` after
`initStream`.  All of them put their text into the one stream of the thread, and
each destructor gives all of that text to the appender and resets the stream.

A thread starts and finishes events, innermost first, and streams values for the
innermost.  `id` numbers the events, and two things are kept for the statements
only: the values an event has streamed, and the event that put each byte of the
text (`owners`).  A record is the event's own when its bytes are those that a
stream of its own would have given, and all of them were put by it.

`ownRecords_iff` says that all records are the events' own exactly when no event
starts while another exists, and no string has a negative length as an `int`.
-/

import Sevent.Base.Logger

namespace Sevent
namespace Base

open Transition LogStream LogEvent

/-- A `LogEvent` that exists, with the values that have been streamed for it. -/
structure OpenEvent (Double : Type) where
  id : ℕ
  logEv : LogEvent
  values : List (Operand Double)

/-- The stream of a thread, its events, the innermost first, how many have been started,
and which event put each byte of the text. -/
structure LogThread (Double : Type) where
  stream : LogStream
  events : List (OpenEvent Double)
  started : ℕ
  owners : List ℕ

/-- What a thread does. -/
inductive LogAction (Double : Type)
  | start (logEv : LogEvent)
  | value (o : Operand Double)
  | finish

namespace LogThread

variable {Double : Type}

/-- The owners of the text after the event `id` has put something into the stream. -/
def owned (t : LogThread Double) (s : LogStream) (id : ℕ) : List ℕ :=
  t.owners ++ List.replicate (s.cur - t.stream.cur) id

/-- A step of a thread; `none` where it is undefined, where there is no event, and after a
`FATAL` record. -/
def step (format : Double → List UInt8) (t : LogThread Double) :
    LogAction Double → Option (LogThread Double)
  | .start logEv =>
    (run (insert format) t.stream logEv.beforeMsgToStream).map fun s =>
      { stream := s
        events := { id := t.started, logEv, values := [] } :: t.events
        started := t.started + 1
        owners := t.owned s t.started }
  | .value o =>
    match t.events with
    | [] => none
    | e :: events =>
      (insert format t.stream o).map fun s =>
        { t with
          stream := s
          events := { e with values := e.values ++ [o] } :: events
          owners := t.owned s e.id }
  | .finish =>
    match t.events with
    | [] => none
    | e :: events =>
      (run (insert format) t.stream e.logEv.afterMsgToStream).bind fun s =>
        if e.logEv.level = .FATAL then none
        else some { t with stream := { s with cur := 0 }, events := events, owners := [] }

/-- The record that `finish` gives to the appender, each byte with its owner. -/
def emitted (format : Double → List UInt8) (t : LogThread Double) : Option (List (UInt8 × ℕ)) :=
  match t.events with
  | [] => none
  | e :: _ =>
    (run (insert format) t.stream e.logEv.afterMsgToStream).map fun s =>
      s.text.zip (t.owned s e.id)

/-- The record that the event would give from a stream of its own. -/
def OpenEvent.privateRecord (format : Double → List UInt8) (e : OpenEvent Double) :
    Option (List UInt8) :=
  (run (insert format) (fresh (List.replicate samllBufferSize 0))
    (e.logEv.beforeMsgToStream ++ e.values ++ e.logEv.afterMsgToStream)).map text

/-- What is promised of a step: it is defined, and a record is the event's own. -/
def Own (format : Double → List UInt8) (t : LogThread Double) : LogAction Double → Prop
  | .finish => ∃ e events bytes, t.events = e :: events ∧
      OpenEvent.privateRecord format e = some bytes ∧
      emitted format t = some (bytes.map fun b => (b, e.id))
  | a => (step format t a).isSome

/-- The condition on a step: an event starts where there is none, and no length is
negative. -/
def Flat (t : LogThread Double) : LogAction Double → Prop
  | .start logEv => t.events = [] ∧
      ∀ o ∈ (logEv.beforeMsgToStream : List (Operand Double)), 0 ≤ o.need
  | .value o => 0 ≤ o.need
  | .finish => ∀ e ∈ t.events.head?,
      ∀ o ∈ (e.logEv.afterMsgToStream : List (Operand Double)), 0 ≤ o.need

/-- Properly nested: with `n` events at the beginning and none in the end, and values only
where there is an event. -/
def Nested : ℕ → List (LogAction Double) → Prop
  | n, [] => n = 0
  | n, .start _ :: is => Nested (n + 1) is
  | n, .value _ :: is => 0 < n ∧ Nested n is
  | n, .finish :: is => 0 < n ∧ Nested (n - 1) is

/-- A thread that has no event yet. -/
def idle (memory : List UInt8) : LogThread Double :=
  { stream := fresh memory, events := [], started := 0, owners := [] }

variable {format : Double → List UInt8} {t t' : LogThread Double}

theorem events_start {logEv : LogEvent} (h : step format t (.start logEv) = some t') :
    t'.events = { id := t.started, logEv, values := [] } :: t.events := by
  obtain ⟨s, -, rfl⟩ := Option.map_eq_some_iff.1 h
  rfl

theorem events_value {e : OpenEvent Double} {events : List (OpenEvent Double)} {o : Operand Double}
    (hevents : t.events = e :: events) (h : step format t (.value o) = some t') :
    t'.events = { e with values := e.values ++ [o] } :: events := by
  simp only [step, hevents] at h
  obtain ⟨s, -, rfl⟩ := Option.map_eq_some_iff.1 h
  rfl

/-! ### A byte of another event -/

/-- The text begins with a byte that was not put by the innermost event. -/
structure Foreign (t : LogThread Double) : Prop where
  ok : t.stream.Ok
  length : t.owners.length = t.stream.cur
  first : ∃ e events i owners, t.events = e :: events ∧ t.owners = i :: owners ∧
    i < t.started ∧ e.id ≠ i

/-- The owners after an event has put something into the stream. -/
theorem owned_of_le (hlen : t.owners.length = t.stream.cur) {s : LogStream}
    (hle : t.stream.cur ≤ s.cur) (id : ℕ) : (t.owned s id).length = s.cur := by
  rw [owned, List.length_append, List.length_replicate, hlen]
  omega

theorem Foreign.start (hformat : ∀ v, (format v).length ≤ 19) (h : Foreign t) {logEv : LogEvent}
    (ht' : step format t (.start logEv) = some t') : Foreign t' := by
  obtain ⟨s, hs, rfl⟩ := Option.map_eq_some_iff.1 ht'
  obtain ⟨hok, -, hle⟩ := h.ok.run_text hformat hs
  obtain ⟨e, events, i, owners, hevents, howners, hi, hne⟩ := h.first
  exact ⟨hok, owned_of_le h.length hle _, _, _, i, _, rfl, by
    rw [owned, howners, List.cons_append], Nat.lt_succ_of_lt hi, hi.ne'⟩

theorem Foreign.value (hformat : ∀ v, (format v).length ≤ 19) (h : Foreign t)
    {o : Operand Double} (ht' : step format t (.value o) = some t') : Foreign t' := by
  obtain ⟨e, events, i, owners, hevents, howners, hi, hne⟩ := h.first
  simp only [step, hevents] at ht'
  obtain ⟨s, hs, rfl⟩ := Option.map_eq_some_iff.1 ht'
  obtain ⟨hok, -, hle⟩ := h.ok.run_text hformat ((run_singleton _ _).trans hs)
  exact ⟨hok, owned_of_le h.length hle _, _, _, i, _, rfl, by
    rw [owned, howners, List.cons_append], hi, hne⟩

/-- The next record has that byte in front. -/
theorem Foreign.not_own_finish (hformat : ∀ v, (format v).length ≤ 19) (h : Foreign t) :
    ¬ Own format t .finish := by
  rintro ⟨e', events', bytes, hevents', -, hrecord⟩
  obtain ⟨e, events, i, owners, hevents, howners, -, hne⟩ := h.first
  rw [hevents, List.cons.injEq] at hevents'
  obtain ⟨rfl, -⟩ := hevents'
  simp only [emitted, hevents] at hrecord
  obtain ⟨s, hs, hzip⟩ := Option.map_eq_some_iff.1 hrecord
  obtain ⟨hok, -, hle⟩ := h.ok.run_text hformat hs
  have hpos : 0 < s.text.length := by
    rw [hok.length_text]
    have hlen := h.length
    rw [howners, List.length_cons] at hlen
    omega
  obtain ⟨c, text, htext⟩ := List.exists_cons_of_length_pos hpos
  rw [owned, howners, List.cons_append, htext, List.zip_cons_cons] at hzip
  cases bytes with
  | nil => cases hzip
  | cons b bytes =>
    rw [List.map_cons, List.cons.injEq, Prod.mk.injEq] at hzip
    exact hne hzip.1.2.symm

/-- **Once a byte is foreign**, a properly nested thread comes to a record that is not the
event's own. -/
theorem Foreign.not_steps (hformat : ∀ v, (format v).length ≤ 19) {is : List (LogAction Double)}
    (h : Foreign t) (hnested : Nested t.events.length is) :
    ¬ Steps (step format) (Own format) t is := by
  induction is generalizing t with
  | nil =>
    obtain ⟨e, events, -, -, hevents, -⟩ := h.first
    rw [hevents] at hnested
    cases hnested
  | cons a is ih =>
    rintro ⟨hown, hrest⟩
    cases a with
    | start logEv =>
      obtain ⟨t', ht'⟩ := Option.isSome_iff_exists.1 hown
      refine ih (h.start hformat ht') ?_ (hrest t' ht')
      rw [events_start ht']
      exact hnested
    | value o =>
      obtain ⟨t', ht'⟩ := Option.isSome_iff_exists.1 hown
      refine ih (h.value hformat ht') ?_ (hrest t' ht')
      obtain ⟨e, events, -, -, hevents, -⟩ := h.first
      rw [events_value hevents ht']
      rw [hevents] at hnested
      exact hnested.2
    | finish => exact h.not_own_finish hformat hown

/-! ### Bytes of one event -/

/-- There is no event and no text, or one event, whose own text this is. -/
structure Alone (format : Double → List UInt8) (t : LogThread Double) : Prop where
  ok : t.stream.Ok
  own : (t.events = [] ∧ t.stream.cur = 0 ∧ t.owners = []) ∨
    ∃ e, t.events = [e] ∧ e.id < t.started ∧ t.stream.text ≠ [] ∧
      run (insertText format) [] (e.logEv.beforeMsgToStream ++ e.values) = some t.stream.text ∧
      t.owners = List.replicate t.stream.cur e.id

/-- An event that has started has put something into the stream: the space behind the
time, if not the time. -/
theorem before_ne_nil {logEv : LogEvent} {text : List UInt8}
    (h : run (insertText format) [] logEv.beforeMsgToStream = some text) : text ≠ [] := by
  rw [beforeMsgToStream, List.cons_append, List.cons_append] at h
  obtain ⟨t₁, -, h₁⟩ := run_cons_eq_some.1 h
  obtain ⟨t₂, ht₂, h₂⟩ := run_cons_eq_some.1 h₁
  have hpre := prefix_run_insertText h₂
  rintro rfl
  obtain rfl := List.prefix_nil.1 hpre
  cases t₁ with
  | nil =>
    have hspace : insertText format [] (.char ' '.toUInt8) = some [' '.toUInt8] := rfl
    rw [hspace] at ht₂
    cases ht₂
  | cons c t₁ => exact absurd (prefix_run_insertText ((run_singleton _ _).trans ht₂)) (by simp)

theorem Alone.start (hformat : ∀ v, (format v).length ≤ 19) (h : Alone format t)
    {logEv : LogEvent} (hflat : Flat t (.start logEv)) :
    ∃ t', step format t (.start logEv) = some t' ∧ Alone format t' ∧
      t'.events.length = t.events.length + 1 := by
  obtain ⟨s, hs⟩ := (h.ok.exists_run_iff hformat _).2 hflat.2
  obtain ⟨hok, htext, hle⟩ := h.ok.run_text hformat hs
  have hstream : t.stream.text = [] ∧ t.owners = [] ∧ t.stream.cur = 0 := by
    rcases h.own with ⟨-, hcur, howners⟩ | ⟨e, hevents, -⟩
    · exact ⟨by rw [text, hcur, List.take_zero], howners, hcur⟩
    · rw [hflat.1] at hevents
      cases hevents
  rw [hstream.1] at htext
  have hstep : step format t (.start logEv) = some
      { stream := s
        events := { id := t.started, logEv, values := [] } :: t.events
        started := t.started + 1
        owners := t.owned s t.started } := by
    rw [step, hs]
    rfl
  refine ⟨_, hstep, ⟨hok, Or.inr ⟨_, congrArg _ hflat.1, Nat.lt_succ_self t.started,
    before_ne_nil htext, ?_, ?_⟩⟩, rfl⟩
  · show run (insertText format) [] (logEv.beforeMsgToStream ++ []) = some s.text
    rw [List.append_nil]
    exact htext
  · show t.owned s t.started = List.replicate s.cur t.started
    rw [owned, hstream.2.1, hstream.2.2, List.nil_append, Nat.sub_zero]

/-- A text with one owner. -/
theorem zip_replicate (text : List UInt8) (id : ℕ) :
    text.zip (List.replicate text.length id) = text.map fun b => (b, id) := by
  induction text with
  | nil => rfl
  | cons b text ih =>
    rw [List.length_cons, List.replicate_succ, List.zip_cons_cons, ih, List.map_cons]

/-- The owners of the text of one event. -/
theorem owned_eq_replicate {s : LogStream} {id : ℕ}
    (howners : t.owners = List.replicate t.stream.cur id) (hle : t.stream.cur ≤ s.cur) :
    t.owned s id = List.replicate s.cur id := by
  rw [owned, howners, List.replicate_append_replicate, Nat.add_sub_cancel' hle]

theorem Alone.value (hformat : ∀ v, (format v).length ≤ 19) (h : Alone format t)
    (hne : 0 < t.events.length) {o : Operand Double} (hflat : Flat t (.value o)) :
    ∃ t', step format t (.value o) = some t' ∧ Alone format t' ∧
      t'.events.length = t.events.length := by
  rcases h.own with ⟨hevents, -⟩ | ⟨e, hevents, hid, htext, hrun, howners⟩
  · rw [hevents] at hne
    cases hne
  obtain ⟨s, hs⟩ := (h.ok.exists_run_iff hformat [o]).2 fun _ ho =>
    List.mem_singleton.1 ho ▸ hflat
  obtain ⟨hok, hstep, hle⟩ := h.ok.run_text hformat hs
  rw [run_singleton] at hs
  have hval : step format t (.value o) = some
      { t with
        stream := s
        events := [{ e with values := e.values ++ [o] }]
        owners := t.owned s e.id } := by
    simp only [step, hevents, hs, Option.map_some]
  refine ⟨_, hval, ⟨hok, Or.inr ⟨_, rfl, hid, ?_, ?_, ?_⟩⟩, ?_⟩
  · intro hnil
    exact htext (List.prefix_nil.1 (hnil ▸ prefix_run_insertText hstep))
  · rw [← List.append_assoc]
    exact run_append_eq_some.2 ⟨_, hrun, hstep⟩
  · exact owned_eq_replicate howners hle
  · rw [hevents]
    rfl

/-- The record is the event's own. -/
theorem Alone.finish (hformat : ∀ v, (format v).length ≤ 19) (h : Alone format t)
    (hne : 0 < t.events.length) (hflat : Flat t .finish) :
    Own format t .finish ∧ ∀ t', step format t .finish = some t' →
      Alone format t' ∧ t'.events.length = t.events.length - 1 := by
  rcases h.own with ⟨hevents, -⟩ | ⟨e, hevents, hid, htext, hrun, howners⟩
  · rw [hevents] at hne
    cases hne
  obtain ⟨s, hs⟩ := (h.ok.exists_run_iff hformat _).2 (hflat e (by rw [hevents]; rfl))
  obtain ⟨hok, hstep, hle⟩ := h.ok.run_text hformat hs
  have hfresh : (fresh (List.replicate samllBufferSize 0)).Ok :=
    ⟨List.length_replicate, Nat.zero_lt_succ _⟩
  obtain ⟨s', hs', -, htext'⟩ := (hfresh.run_iff hformat).2
    (run_append_eq_some.2 ⟨_, hrun, hstep⟩)
  constructor
  · refine ⟨e, [], s.text, hevents, ?_, ?_⟩
    · rw [OpenEvent.privateRecord, hs', Option.map_some, htext']
    · simp only [emitted, hevents, hs, Option.map_some]
      rw [owned_eq_replicate howners hle, ← hok.length_text, zip_replicate]
  · intro t' ht'
    simp only [step, hevents, hs, Option.bind_some] at ht'
    obtain ⟨-, ht'⟩ := Option.ite_none_left_eq_some.1 ht'
    rw [← Option.some.inj ht', hevents]
    exact ⟨⟨⟨hok.size, Nat.zero_lt_succ _⟩, Or.inl ⟨rfl, rfl, rfl⟩⟩, rfl⟩

/-- An event that starts inside of another leaves a byte of that in front. -/
theorem Alone.foreign_of_start (hformat : ∀ v, (format v).length ≤ 19) (h : Alone format t)
    (hne : t.events ≠ []) {logEv : LogEvent} (ht' : step format t (.start logEv) = some t') :
    Foreign t' := by
  rcases h.own with ⟨hevents, -⟩ | ⟨e, hevents, hid, htext, hrun, howners⟩
  · exact absurd hevents hne
  obtain ⟨s, hs, rfl⟩ := Option.map_eq_some_iff.1 ht'
  obtain ⟨hok, -, hle⟩ := h.ok.run_text hformat hs
  have hlen : t.owners.length = t.stream.cur := by rw [howners, List.length_replicate]
  obtain ⟨n, hn⟩ : ∃ n, t.stream.cur = n + 1 := by
    have hpos := List.length_pos_iff.2 htext
    rw [h.ok.length_text] at hpos
    exact Nat.exists_eq_add_one.2 hpos
  have howned : t.owned s t.started =
      e.id :: (List.replicate n e.id ++ List.replicate (s.cur - (n + 1)) t.started) := by
    rw [owned, howners, hn, List.replicate_succ, List.cons_append]
  exact ⟨hok, owned_of_le hlen hle _, _, _, e.id, _, rfl, howned, Nat.lt_succ_of_lt hid, hid.ne'⟩

/-- **One step** that is not flat leads to a record that is not the event's own. -/
theorem Alone.flat_of_steps (hformat : ∀ v, (format v).length ≤ 19) (h : Alone format t)
    {a : LogAction Double} {is : List (LogAction Double)}
    (hnested : Nested t.events.length (a :: is))
    (hsteps : Steps (step format) (Own format) t (a :: is)) : Flat t a := by
  cases a with
  | start logEv =>
    obtain ⟨t', ht'⟩ := Option.isSome_iff_exists.1 hsteps.1
    obtain ⟨s, hs, -⟩ := Option.map_eq_some_iff.1 ht'
    refine ⟨?_, (h.ok.exists_run_iff hformat _).1 ⟨s, hs⟩⟩
    by_contra hne
    refine (h.foreign_of_start hformat hne ht').not_steps hformat ?_ (hsteps.2 t' ht')
    rw [events_start ht']
    exact hnested
  | value o =>
    obtain ⟨t', ht'⟩ := Option.isSome_iff_exists.1 hsteps.1
    obtain ⟨e, events, hevents⟩ := List.exists_cons_of_length_pos hnested.1
    simp only [step, hevents] at ht'
    obtain ⟨s, hs, -⟩ := Option.map_eq_some_iff.1 ht'
    exact (h.ok.exists_run_iff hformat [o]).1 ⟨s, (run_singleton _ _).trans hs⟩ o
      List.mem_cons_self
  | finish =>
    obtain ⟨e, events, bytes, hevents, -, hrecord⟩ := hsteps.1
    simp only [emitted, hevents] at hrecord
    obtain ⟨s, hs, -⟩ := Option.map_eq_some_iff.1 hrecord
    intro e' he'
    rw [hevents] at he'
    obtain rfl := Option.some.inj he'
    exact (h.ok.exists_run_iff hformat _).1 ⟨s, hs⟩

/-- **One step** that is flat is as promised, and leaves one event or none. -/
theorem Alone.own_of_flat (hformat : ∀ v, (format v).length ≤ 19) (h : Alone format t)
    {a : LogAction Double} {is : List (LogAction Double)}
    (hnested : Nested t.events.length (a :: is)) (hflat : Flat t a) :
    Own format t a ∧ ∀ t', step format t a = some t' →
      Alone format t' ∧ Nested t'.events.length is := by
  cases a with
  | start logEv =>
    obtain ⟨t', ht', halone, hlen⟩ := h.start hformat hflat
    refine ⟨Option.isSome_iff_exists.2 ⟨t', ht'⟩, fun u hu => ?_⟩
    obtain rfl := Option.some.inj (ht'.symm.trans hu)
    exact ⟨halone, hlen ▸ hnested⟩
  | value o =>
    obtain ⟨t', ht', halone, hlen⟩ := h.value hformat hnested.1 hflat
    refine ⟨Option.isSome_iff_exists.2 ⟨t', ht'⟩, fun u hu => ?_⟩
    obtain rfl := Option.some.inj (ht'.symm.trans hu)
    exact ⟨halone, hlen ▸ hnested.2⟩
  | finish =>
    obtain ⟨hown, hnext⟩ := h.finish hformat hnested.1 hflat
    exact ⟨hown, fun u hu => ⟨(hnext u hu).1, (hnext u hu).2 ▸ hnested.2⟩⟩

theorem alone_idle {memory : List UInt8} (hmem : memory.length = samllBufferSize) :
    Alone format (idle memory) :=
  ⟨⟨hmem, Nat.zero_lt_succ _⟩, Or.inl ⟨rfl, rfl, rfl⟩⟩

/-- **Every record is its event's own** if and only if no event starts inside of
another and no length is negative: for every properly nested run of a thread, to any
depth and with any operands. -/
theorem ownRecords_iff (hformat : ∀ v, (format v).length ≤ 19) {memory : List UInt8}
    (hmem : memory.length = samllBufferSize) {is : List (LogAction Double)}
    (hnested : Nested 0 is) :
    Steps (step format) (Own format) (idle memory) is ↔
      Steps (step format) Flat (idle memory) is := by
  have halone : Alone format (idle memory) := alone_idle hmem
  change Nested (idle memory : LogThread Double).events.length is at hnested
  generalize (idle memory : LogThread Double) = t at halone hnested
  induction is generalizing t with
  | nil => exact Iff.rfl
  | cons a is ih =>
    by_cases hflat : Flat t a
    · obtain ⟨hown, hnext⟩ := halone.own_of_flat hformat hnested hflat
      rw [Steps, Steps, and_iff_right hown, and_iff_right hflat]
      exact forall₂_congr fun t' ht' => ih t' (hnext t' ht').1 (hnext t' ht').2
    · exact iff_of_false (fun h => hflat (halone.flat_of_steps hformat hnested h))
        fun h => hflat h.1

/-- `LOG_INFO << "hi"`. -/
theorem ownRecords_hi :
    Steps (step formatIntegral) (Own formatIntegral) (idle (List.replicate 4000 0))
      [.start infoEvent, .value (.string "hi".toUTF8.toList), .finish] := by
  have hnested : Nested 0 [LogAction.start infoEvent,
      .value (.string "hi".toUTF8.toList : Operand IntegralDouble), .finish] :=
    ⟨Nat.one_pos, Nat.one_pos, rfl⟩
  have hvalue : 0 ≤ (.string "hi".toUTF8.toList : Operand IntegralDouble).need := by
    decide +kernel
  refine (ownRecords_iff length_formatIntegral List.length_replicate hnested).2
    ⟨⟨rfl, by decide +kernel⟩, fun t ht =>
      ⟨hvalue, fun u hu => ⟨fun e he => ?_, fun _ _ => trivial⟩⟩⟩
  rw [events_value (events_start ht) hu] at he
  obtain rfl := Option.some.inj he
  decide +kernel

/-- `LOG_INFO << f()`, where `f` logs: both events write to the one stream of the
thread, and the inner record begins with the text of the outer one. -/
theorem inner_record_not_own :
    ¬ Steps (step formatIntegral) (Own formatIntegral) (idle (List.replicate 4000 0))
      [.start infoEvent, .start infoEvent, .finish, .finish] := by
  intro h
  have halone : Alone formatIntegral (idle (List.replicate 4000 0)) :=
    alone_idle List.length_replicate
  have hflat : Flat (idle (List.replicate 4000 0)) (.start infoEvent : LogAction IntegralDouble) :=
    ⟨rfl, by decide +kernel⟩
  obtain ⟨t, ht, halone', hlen⟩ := halone.start length_formatIntegral hflat
  have hnested : Nested t.events.length
      ([.start infoEvent, .finish, .finish] : List (LogAction IntegralDouble)) := by
    rw [hlen]
    exact ⟨Nat.two_pos, Nat.one_pos, rfl⟩
  have hnone := (halone'.flat_of_steps length_formatIntegral hnested (h.2 t ht)).1
  rw [hnone] at hlen
  cases hlen

end LogThread
end Base
end Sevent
