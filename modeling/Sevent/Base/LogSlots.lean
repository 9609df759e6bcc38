/-
# The slots of `LogAsynAppender`

`sevent/base/LogAsynAppender.cpp`: the four `unique_ptr` of the appender and of
its writing thread, and the two vectors of them.

A buffer goes around through five places, and every move leaves a null pointer
behind.  Here a vector can hold null pointers too, and each critical section is
the sequence of its statements: `none` stands for a null pointer that is
dereferenced, and for `back()` of an empty vector.  An act is `enabled` by the
place of the writing thread alone, so that a run cannot step around such a use.
A line can have any length: one that does not fit into an empty buffer takes the
next buffer all the same.

The argument is a count.  A null `nextBuffer` stands for a buffer in
`buffersHolder`.  So after the swap `buffers_bak` has as many buffers at least
as the writing thread is short of (`owed`), and at most two are ever missing:
the two that the overload rule leaves are enough.

`step_slots` connects this to the appender: a step of it is a step of its slots.
-/

import Sevent.Base.LogAsynAppenderSpec

namespace Sevent
namespace Base

open LogAsynAppender Transition

/-- The pointers of an appender and of `process`. -/
structure LogSlots where
  buffersLimit : ℕ
  running : Bool
  curBuffer : Option Buffer
  nextBuffer : Option Buffer
  buffersHolder : List (Option Buffer)
  place : Place
  curbuf_bak : Option Buffer
  nextbuf_bak : Option Buffer
  buffers_bak : List (Option Buffer)
  deriving DecidableEq

namespace LogSlots

/-- The constructor. -/
def init (limit : ℤ) : LogSlots where
  buffersLimit := limitOf limit
  running := false
  curBuffer := some .empty
  nextBuffer := some .empty
  buffersHolder := []
  place := .idle
  curbuf_bak := none
  nextbuf_bak := none
  buffers_bak := []

/-- `LogAsynAppender::append`. -/
def append (s : LogSlots) (log : List UInt8) : Option LogSlots := do
  let cur ← s.curBuffer
  if log.length < cur.remain then
    some { s with curBuffer := some (cur.append log) }
  else
    let s := { s with buffersHolder := s.buffersHolder ++ [s.curBuffer], curBuffer := none }
    let s :=
      if s.nextBuffer.isSome then { s with curBuffer := s.nextBuffer, nextBuffer := none }
      else { s with curBuffer := some .empty }
    let cur ← s.curBuffer
    some { s with curBuffer := some (cur.append log) }

/-- The critical section of `process` after the wait. -/
def swap (s : LogSlots) : LogSlots :=
  let s := { s with buffersHolder := s.buffersHolder ++ [s.curBuffer], curBuffer := none }
  let s := { s with curBuffer := s.curbuf_bak, curbuf_bak := none }
  let s := { s with buffers_bak := s.buffersHolder, buffersHolder := s.buffers_bak }
  let s :=
    if s.nextBuffer.isNone then { s with nextBuffer := s.nextbuf_bak, nextbuf_bak := none }
    else s
  { s with place := .swapped }

/-- `std::vector::resize`, with null pointers for what is new. -/
def resize (v : List (Option Buffer)) (n : ℕ) : List (Option Buffer) :=
  v.take n ++ List.replicate (n - v.length) none

/-- The test of the limit. -/
def testLimit (s : LogSlots) : LogSlots :=
  { s with
    place := .writing 0
    buffers_bak :=
      if s.buffersLimit < s.buffers_bak.length then resize s.buffers_bak 2 else s.buffers_bak }

/-- `if (!bak) { bak = std::move(buffers_bak.back()); bak->reset(); buffers_bak.pop_back(); }` -/
def takeBack (bak : Option Buffer) (buffers_bak : List (Option Buffer)) :
    Option (Option Buffer × List (Option Buffer)) :=
  if bak.isSome then some (bak, buffers_bak)
  else do
    let bak ← buffers_bak.getLast?
    let _ ← bak
    some (some .empty, buffers_bak.dropLast)

/-- The end of an iteration. -/
def restore (s : LogSlots) : Option LogSlots := do
  let (curbuf_bak, buffers_bak) ← takeBack s.curbuf_bak s.buffers_bak
  let (nextbuf_bak, _) ← takeBack s.nextbuf_bak buffers_bak
  some { s with
    place := .testRunning
    curbuf_bak := curbuf_bak
    nextbuf_bak := nextbuf_bak
    buffers_bak := [] }

/-- Where an act can occur. -/
def enabled (s : LogSlots) : Act → Bool
  | .append _ | .setLimit _ | .flush => true
  | .start => s.place = .idle
  | .stop => s.running
  | .testRunning => s.place = .testRunning
  | .lock => s.place = .lock
  | .wake => s.place = .waiting
  | .testLimit _ => s.place = .swapped
  | .write =>
    match s.place with
    | .writing written => written < s.buffers_bak.length
    | _ => false
  | .restore => s.place = .writing s.buffers_bak.length
  | .join => s.place = .exited

/-- What an act does. -/
def effect (s : LogSlots) : Act → Option LogSlots
  | .append log => s.append log
  | .setLimit limit => some { s with buffersLimit := limitOf limit }
  | .flush => some s
  | .start =>
    some { s with
      running := true
      place := .testRunning
      curbuf_bak := some .empty
      nextbuf_bak := some .empty
      buffers_bak := [] }
  | .stop => some { s with running := false }
  | .testRunning => some { s with place := if s.running then .lock else .exited }
  | .lock => some (if s.buffersHolder = [] then { s with place := .waiting } else s.swap)
  | .wake => s.curBuffer.map fun cur =>
      if cur.isEmpty then { s with place := .testRunning } else s.swap
  | .testLimit _ => some s.testLimit
  | .write =>
    match s.place with
    | .writing written => do
      let buffer ← s.buffers_bak[written]?
      let _ ← buffer
      some { s with place := .writing (written + 1) }
    | _ => none
  | .restore => s.restore
  | .join => some { s with place := .idle }

/-- One act. -/
def step (s : LogSlots) (act : Act) : Option LogSlots :=
  if s.enabled act then s.effect act else none

/-! ### The count -/

/-- How many buffers the writing thread is short of. -/
def owed (s : LogSlots) : ℕ := [s.curbuf_bak, s.nextbuf_bak].count none

/-- What the writing thread has: both spare buffers until its swap, and after it
enough full ones to make them good. -/
def SparesAt (s : LogSlots) : Place → Prop
  | .idle | .exited => True
  | .testRunning | .lock | .waiting => s.owed = 0 ∧ s.buffers_bak = []
  | .swapped | .writing _ => s.owed ≤ s.buffers_bak.length

/-- Null pointers are where they should be. -/
structure Filled (s : LogSlots) : Prop where
  current : s.curBuffer ≠ none
  next : s.nextBuffer = none → s.buffersHolder ≠ []
  holder : none ∉ s.buffersHolder
  bak : none ∉ s.buffers_bak
  spares : s.SparesAt s.place
  limit : 4 ≤ s.buffersLimit

variable {s s' : LogSlots}

/-- There are two spare buffers, so that no more than two are owed. -/
theorem owed_le_two (s : LogSlots) : s.owed ≤ 2 := List.count_le_length

/-- Nothing is owed exactly when both spare buffers are there. -/
theorem owed_eq_zero : s.owed = 0 ↔ s.curbuf_bak ≠ none ∧ s.nextbuf_bak ≠ none := by
  rw [owed, List.count_eq_zero]
  simp [eq_comm]

/-- Without the first spare buffer, one is owed or two. -/
theorem owed_of_none (hcur : s.curbuf_bak = none) :
    s.owed = if s.nextbuf_bak = none then 2 else 1 := by
  rw [owed, hcur]
  split
  case isTrue hnext => rw [hnext]; rfl
  case isFalse hnext => simp [hnext]

/-! ### The steps -/

/-- What `append` does: it fills the current buffer, or puts it away and goes on
with another one. -/
theorem append_cases {cur : Buffer} (hcur : s.curBuffer = some cur) (log : List UInt8) :
    s.append log = some { s with curBuffer := some (cur.append log) } ∨
      ∃ next : Buffer, s.append log = some { s with
        buffersHolder := s.buffersHolder ++ [some cur]
        curBuffer := some (next.append log)
        nextBuffer := none } := by
  unfold append
  rw [hcur]
  dsimp only [Option.bind_eq_bind, Option.bind_some]
  split
  case isTrue => exact .inl rfl
  case isFalse =>
    right
    cases hnext : s.nextBuffer with
    | none => exact ⟨.empty, by simp⟩
    | some next => exact ⟨next, by simp⟩

/-- **An append keeps the slots filled**, with a line of any length. -/
theorem Filled.append (h : s.Filled) (log : List UInt8) :
    ∃ s', s.append log = some s' ∧ s'.Filled := by
  obtain ⟨cur, hcur⟩ := Option.ne_none_iff_exists'.1 h.current
  rcases append_cases hcur log with hfill | ⟨next, hpush⟩
  · exact ⟨_, hfill, Option.some_ne_none _, h.next, h.holder, h.bak, h.spares, h.limit⟩
  · refine ⟨_, hpush, Option.some_ne_none _, fun _ => ?_, ?_, h.bak, h.spares, h.limit⟩
    · exact List.append_ne_nil_of_right_ne_nil _ (List.cons_ne_nil _ _)
    · simpa using h.holder

/-- The swap where the second spare buffer is needed. -/
theorem swap_of_none (hnext : s.nextBuffer = none) : s.swap = { s with
    curBuffer := s.curbuf_bak
    nextBuffer := s.nextbuf_bak
    buffersHolder := s.buffers_bak
    place := .swapped
    curbuf_bak := none
    nextbuf_bak := none
    buffers_bak := s.buffersHolder ++ [s.curBuffer] } := by
  simp [swap, hnext]

/-- The swap where the second spare buffer stays with the writing thread. -/
theorem swap_of_ne_none (hnext : s.nextBuffer ≠ none) : s.swap = { s with
    curBuffer := s.curbuf_bak
    buffersHolder := s.buffers_bak
    place := .swapped
    curbuf_bak := none
    buffers_bak := s.buffersHolder ++ [s.curBuffer] } := by
  simp [swap, hnext]

/-- **The swap keeps the slots filled**: what the writing thread gives away, it has
got back in `buffers_bak`. -/
theorem Filled.swap (h : s.Filled) (howed : s.owed = 0) (hbak : s.buffers_bak = []) :
    s.swap.Filled := by
  obtain ⟨hcurbak, hnextbak⟩ := owed_eq_zero.1 howed
  have hholder : none ∉ s.buffersHolder ++ [s.curBuffer] := by
    simpa [eq_comm] using ⟨h.holder, h.current⟩
  have hnil : none ∉ s.buffers_bak := by
    rw [hbak]
    exact List.not_mem_nil
  have hlen : (s.buffersHolder ++ [s.curBuffer]).length = s.buffersHolder.length + 1 :=
    List.length_append
  by_cases hnext : s.nextBuffer = none
  · have hpos := List.length_pos_iff.2 (h.next hnext)
    rw [swap_of_none hnext]
    refine ⟨hcurbak, fun hnone => absurd hnone hnextbak, hnil, hholder, ?_, h.limit⟩
    simp only [SparesAt]
    rw [owed_of_none rfl, if_pos rfl, hlen]
    omega
  · rw [swap_of_ne_none hnext]
    refine ⟨hcurbak, fun hnone => absurd hnone hnext, hnil, hholder, ?_, h.limit⟩
    simp only [SparesAt]
    rw [owed_of_none rfl, if_neg hnextbak, hlen]
    omega

/-- **The overload rule leaves enough.** -/
theorem Filled.testLimit (h : s.Filled) (howed : s.owed ≤ s.buffers_bak.length) :
    s.testLimit.Filled := by
  have htwo := s.owed_le_two
  have hlimit := h.limit
  unfold LogSlots.testLimit
  split
  case isTrue hover =>
    have hresize : resize s.buffers_bak 2 = s.buffers_bak.take 2 := by
      rw [resize, Nat.sub_eq_zero_of_le (by omega), List.replicate_zero, List.append_nil]
    refine ⟨h.current, h.next, h.holder, ?_, ?_, h.limit⟩
    · rw [hresize]
      exact fun hmem => h.bak (List.mem_of_mem_take hmem)
    · show s.owed ≤ _
      rw [hresize, List.length_take]
      omega
  case isFalse => exact ⟨h.current, h.next, h.holder, h.bak, howed, h.limit⟩

/-- A buffer that is not null is given back, from a vector that is not empty if one is
missing. -/
theorem takeBack_spec {bak : Option Buffer} {v : List (Option Buffer)} (hv : none ∉ v)
    (hlen : bak = none → v ≠ []) :
    ∃ b : Buffer, takeBack bak v = some (some b, if bak = none then v.dropLast else v) := by
  unfold takeBack
  cases bak with
  | some b => exact ⟨b, by simp⟩
  | none =>
    have hne := hlen rfl
    obtain ⟨b, hb⟩ : ∃ b, v.getLast hne = some b :=
      Option.ne_none_iff_exists'.1 fun hnone => hv (hnone ▸ List.getLast_mem hne)
    exact ⟨.empty, by simp [List.getLast?_eq_some_getLast hne, hb]⟩

/-- `buffers_bak` at the second refill. -/
def remaining (s : LogSlots) : List (Option Buffer) :=
  if s.curbuf_bak = none then s.buffers_bak.dropLast else s.buffers_bak

/-- What is owed is there, at each of the two refills. -/
theorem ne_nil_of_owed (howed : s.owed ≤ s.buffers_bak.length) :
    (s.curbuf_bak = none → s.buffers_bak ≠ []) ∧ (s.nextbuf_bak = none → s.remaining ≠ []) := by
  constructor
  · intro hcur hnil
    rw [owed_of_none hcur, hnil] at howed
    split at howed <;> simp at howed
  · intro hnext hnil
    unfold remaining at hnil
    split at hnil
    case isTrue hcur =>
      rw [owed_of_none hcur, if_pos hnext] at howed
      have hlen := congrArg List.length hnil
      rw [List.length_dropLast, List.length_nil] at hlen
      omega
    case isFalse hcur =>
      have hzero : s.owed = 0 := by
        rw [hnil] at howed
        exact Nat.le_zero.1 howed
      exact (owed_eq_zero.1 hzero).2 hnext

/-- **The spare buffers come back.** -/
theorem Filled.restore (h : s.Filled) (howed : s.owed ≤ s.buffers_bak.length) :
    ∃ s', s.restore = some s' ∧ s'.Filled := by
  obtain ⟨hcur, hnext⟩ := ne_nil_of_owed howed
  have hremaining : none ∉ s.remaining := by
    unfold remaining
    split
    case isTrue => exact fun hmem => h.bak (List.dropLast_subset _ hmem)
    case isFalse => exact h.bak
  obtain ⟨curbuf, hcurbuf⟩ := takeBack_spec h.bak hcur
  obtain ⟨nextbuf, hnextbuf⟩ := takeBack_spec hremaining hnext
  refine ⟨{ s with
    place := .testRunning
    curbuf_bak := some curbuf
    nextbuf_bak := some nextbuf
    buffers_bak := [] }, ?_, h.current, h.next, h.holder, List.not_mem_nil, ⟨rfl, rfl⟩, h.limit⟩
  unfold LogSlots.restore
  rw [hcurbuf]
  change (takeBack s.nextbuf_bak s.remaining).bind _ = _
  rw [hnextbuf]
  rfl

/-- A step that leaves the pointers alone. -/
theorem Filled.congr {p : Place} (h : s.Filled) (hspares : s.SparesAt p) :
    Filled { s with place := p } :=
  ⟨h.current, h.next, h.holder, h.bak, hspares, h.limit⟩

/-- **No act meets a null pointer where the writing thread's place allows it**, and
none leaves one where it should not be. -/
theorem Filled.effect (h : s.Filled) {act : Act} (henabled : s.enabled act = true) :
    ∃ s', s.effect act = some s' ∧ s'.Filled := by
  have hspares := h.spares
  cases act with
  | append log => exact h.append log
  | setLimit limit =>
    exact ⟨_, rfl, h.current, h.next, h.holder, h.bak, hspares, four_le_limitOf limit⟩
  | flush => exact ⟨s, rfl, h⟩
  | start =>
    exact ⟨_, rfl, h.current, h.next, h.holder, List.not_mem_nil, ⟨rfl, rfl⟩, h.limit⟩
  | stop => exact ⟨_, rfl, h.current, h.next, h.holder, h.bak, hspares, h.limit⟩
  | testRunning =>
    rw [of_decide_eq_true henabled] at hspares
    refine ⟨_, rfl, h.congr ?_⟩
    split
    case isTrue => exact hspares
    case isFalse => exact trivial
  | lock =>
    rw [of_decide_eq_true henabled] at hspares
    refine ⟨_, rfl, ?_⟩
    split
    case isTrue => exact h.congr hspares
    case isFalse => exact h.swap hspares.1 hspares.2
  | wake =>
    rw [of_decide_eq_true henabled] at hspares
    obtain ⟨cur, hcur⟩ := Option.ne_none_iff_exists'.1 h.current
    refine ⟨_, congrArg (Option.map _) hcur, ?_⟩
    dsimp only
    split
    case isTrue => exact h.congr hspares
    case isFalse => exact h.swap hspares.1 hspares.2
  | testLimit timestamp =>
    rw [of_decide_eq_true henabled] at hspares
    exact ⟨_, rfl, h.testLimit hspares⟩
  | write =>
    cases hplace : s.place with
    | writing written =>
      have hlt : written < s.buffers_bak.length := by simpa [enabled, hplace] using henabled
      obtain ⟨b, hb⟩ : ∃ b, s.buffers_bak[written] = some b :=
        Option.ne_none_iff_exists'.1 fun hnone => h.bak (hnone ▸ List.getElem_mem hlt)
      rw [hplace] at hspares
      refine ⟨{ s with place := .writing (written + 1) }, ?_, h.congr hspares⟩
      simp [LogSlots.effect, hplace, List.getElem?_eq_getElem hlt, hb]
    | _ => simp [enabled, hplace] at henabled
  | restore =>
    rw [of_decide_eq_true henabled] at hspares
    exact h.restore hspares
  | join => exact ⟨_, rfl, h.congr trivial⟩

/-- The slots are filled when the appender is made. -/
theorem filled_init (limit : ℤ) : (init limit).Filled where
  current := Option.some_ne_none _
  next := fun hnone => absurd hnone (Option.some_ne_none _)
  holder := List.not_mem_nil
  bak := List.not_mem_nil
  spares := trivial
  limit := four_le_limitOf limit

/-- Every step keeps the slots filled. -/
theorem Filled.step (h : s.Filled) {act : Act} (hs' : s.step act = some s') : s'.Filled := by
  obtain ⟨henabled, heffect⟩ := Option.ite_none_right_eq_some.1 hs'
  obtain ⟨t, ht, hfilled⟩ := h.effect henabled
  rw [heffect] at ht
  rw [Option.some.inj ht]
  exact hfilled

/-- What the code relies on at any time: `curBuffer` is there for an append and for
the test whether it is empty, a missing `nextBuffer` means that a buffer waits, both
spare buffers are there at the top of an iteration, `back()` at its end is that of a
vector with an element, and nothing else that can occur meets a null pointer. -/
structure NeverNull (s : LogSlots) : Prop where
  current : s.curBuffer ≠ none
  next : s.nextBuffer = none → s.buffersHolder ≠ []
  spares : s.place = .testRunning → s.curbuf_bak ≠ none ∧ s.nextbuf_bak ≠ none
  back : ∀ written, s.place = .writing written →
    (s.curbuf_bak = none → s.buffers_bak ≠ []) ∧ (s.nextbuf_bak = none → s.remaining ≠ [])
  effect : ∀ act, s.enabled act = true → (s.effect act).isSome = true

/-- Filled slots give all that the code relies on. -/
theorem Filled.neverNull (h : s.Filled) : s.NeverNull where
  current := h.current
  next := h.next
  spares := fun hplace => by
    have hspares := h.spares
    rw [hplace] at hspares
    exact owed_eq_zero.1 hspares.1
  back := fun written hplace => by
    have hspares := h.spares
    rw [hplace] at hspares
    exact ne_nil_of_owed hspares
  effect := fun act henabled => by
    obtain ⟨s', hs', -⟩ := h.effect henabled
    rw [hs']
    rfl

/-- **No slot is empty when it is used.**  In every state of every run, with lines of
any length appended between any two steps of the writing thread, and any number of
iterations over the limit. -/
theorem slots_never_null (limit : ℤ) (acts : List Act) :
    Always step NeverNull (init limit) acts :=
  (always_invariant (fun _ _ _ h hs' => Filled.step h hs') (filled_init limit)).mono
    fun _ h => h.neverNull

/-! ### The slots of an appender -/

/-- The slots of an appender. -/
def ofAppender (a : LogAsynAppender) : LogSlots where
  buffersLimit := a.buffersLimit
  running := a.running
  curBuffer := a.curBuffer
  nextBuffer := a.nextBuffer
  buffersHolder := a.buffersHolder.map some
  place := a.place
  curbuf_bak := a.curbuf_bak
  nextbuf_bak := a.nextbuf_bak
  buffers_bak := a.buffers_bak.map some

variable {a a' : LogAsynAppender}

/-- The swap of the slots is that of the appender. -/
theorem ofAppender_swap (h : Buffers a) : (ofAppender a).swap = ofAppender a.swap := by
  obtain ⟨cur, hcur, -⟩ := h.current
  cases hnext : a.nextBuffer with
  | none =>
    rw [swap_of_none hnext]
    simp [ofAppender, LogAsynAppender.swap, hcur, hnext]
  | some next =>
    rw [swap_of_ne_none (by simp [ofAppender, hnext])]
    simp [ofAppender, LogAsynAppender.swap, hcur, hnext]

/-- The test of the limit, on the slots, is that of the appender; the text that
it writes is not in the slots. -/
theorem ofAppender_testLimit (h : Buffers a) (timestamp : List UInt8) :
    (ofAppender a).testLimit = ofAppender (a.testLimit timestamp) := by
  have hlimit := h.limit
  unfold LogSlots.testLimit LogAsynAppender.testLimit
  dsimp only
  by_cases hover : a.buffersLimit < a.buffers_bak.length
  · simp [ofAppender, resize, hover]
    omega
  · simp [ofAppender, hover]

/-- A buffer is taken back from a vector of slots as it is from the vector of
buffers. -/
theorem takeBack_map_some (bak : Option Buffer) (v : List Buffer) :
    takeBack bak (v.map some) =
      (LogAsynAppender.takeBack bak v).map fun r => (r.1, r.2.map some) := by
  unfold takeBack LogAsynAppender.takeBack
  cases bak with
  | some b => rfl
  | none =>
    rcases List.eq_nil_or_concat' v with rfl | ⟨v, b, rfl⟩
    · rfl
    · simp

/-- What the writing thread does at the end of an iteration, on the slots, is
what the appender does. -/
theorem ofAppender_restore (a : LogAsynAppender) :
    (ofAppender a).restore = a.restore.map ofAppender := by
  unfold LogSlots.restore LogAsynAppender.restore
  change (takeBack a.curbuf_bak (a.buffers_bak.map some)).bind _ = _
  rw [takeBack_map_some]
  cases LogAsynAppender.takeBack a.curbuf_bak a.buffers_bak with
  | none => rfl
  | some r =>
    change (takeBack a.nextbuf_bak (r.2.map some)).bind _ = Option.map ofAppender (Option.map _ _)
    rw [takeBack_map_some]
    cases LogAsynAppender.takeBack a.nextbuf_bak r.2 with
    | none => rfl
    | some r' => rfl

/-- An act that the place of the writing thread allows. -/
theorem step_of_place {act : Act} {s t : LogSlots} (henabled : s.enabled act = true)
    (heffect : s.effect act = some t) : s.step act = some t := by
  rw [LogSlots.step, if_pos henabled, heffect]

/-- **A step of an appender is a step of its slots.** -/
theorem step_ofAppender {act : Act} (h : Buffers a)
    (hs' : LogAsynAppender.step a act = some a') :
    step (ofAppender a) act = some (ofAppender a') := by
  have hspares := h.spares
  cases act with
  | append log =>
    cases step_cases hs' with
    | fill hcur hroom =>
      refine step_of_place rfl ?_
      simp [LogSlots.effect, LogSlots.append, ofAppender, hcur, hroom]
    | push hcur hfull hlog hnext =>
      refine step_of_place rfl ?_
      rcases hnext with hnext | ⟨hnext, rfl⟩ <;>
        simp [LogSlots.effect, LogSlots.append, ofAppender, hcur, hnext, not_lt.2 hfull]
  | setLimit | flush =>
    rw [← Option.some.inj hs']
    rfl
  | start =>
    obtain ⟨hplace, rfl⟩ := Option.ite_some_none_eq_some.1 hs'
    rw [hplace] at hspares
    have hbak : a.buffers_bak = [] := hspares
    exact step_of_place (decide_eq_true hplace) (by simp [LogSlots.effect, ofAppender, hbak])
  | stop =>
    obtain ⟨hrunning, rfl⟩ := Option.ite_some_none_eq_some.1 hs'
    exact step_of_place hrunning rfl
  | testRunning =>
    obtain ⟨hplace, hs'⟩ := Option.ite_none_right_eq_some.1 hs'
    refine step_of_place (decide_eq_true hplace) ?_
    split at hs'
    case isTrue hrunning =>
      rw [← Option.some.inj hs']
      simp [LogSlots.effect, ofAppender, hrunning]
    case isFalse hrunning =>
      rw [← Option.some.inj hs']
      simp [LogSlots.effect, ofAppender, hrunning]
  | lock =>
    obtain ⟨hplace, hs'⟩ := Option.ite_none_right_eq_some.1 hs'
    refine step_of_place (decide_eq_true hplace) ?_
    split at hs'
    case isTrue hholder =>
      rw [← Option.some.inj hs']
      simp [LogSlots.effect, ofAppender, hholder]
    case isFalse hholder =>
      rw [← Option.some.inj hs', ← ofAppender_swap h]
      simp [LogSlots.effect, ofAppender, hholder]
  | wake =>
    obtain ⟨hplace, hs'⟩ := Option.ite_none_right_eq_some.1 hs'
    obtain ⟨cur, hcur, rfl⟩ := Option.map_eq_some_iff.1 hs'
    refine step_of_place (decide_eq_true hplace) ((congrArg (Option.map _) hcur).trans ?_)
    dsimp only [Option.map_some]
    split
    case isTrue => rfl
    case isFalse => rw [ofAppender_swap h]
  | testLimit timestamp =>
    obtain ⟨hplace, rfl⟩ := Option.ite_some_none_eq_some.1 hs'
    refine step_of_place (decide_eq_true hplace) ?_
    rw [← ofAppender_testLimit h]
    rfl
  | write =>
    cases step_cases hs' with
    | write hplace hbuffer =>
      obtain ⟨hlt, -⟩ := List.getElem?_eq_some_iff.1 hbuffer
      refine step_of_place (by simp [enabled, ofAppender, hplace, hlt]) ?_
      simp [LogSlots.effect, ofAppender, hplace, hlt]
  | restore =>
    obtain ⟨hplace, hs'⟩ := Option.ite_none_right_eq_some.1 hs'
    refine step_of_place (by simp [enabled, ofAppender, hplace]) ?_
    exact (ofAppender_restore a).trans (congrArg (Option.map ofAppender) hs')
  | join =>
    obtain ⟨hplace, rfl⟩ := Option.ite_some_none_eq_some.1 hs'
    exact step_of_place (decide_eq_true hplace) rfl

/-- A run of an appender is one of its slots. -/
theorem run_ofAppender {limit : ℤ} {acts : List Act}
    (hrun : run LogAsynAppender.step (LogAsynAppender.init limit) acts = some a) :
    run step (init limit) acts = some (ofAppender a) :=
  run_map ofAppender (fun _ _ _ h hs' => h.step (step_cases hs'))
    (fun _ _ _ h hs' => step_ofAppender h hs') (buffers_init limit) hrun

end LogSlots
end Base
end Sevent
