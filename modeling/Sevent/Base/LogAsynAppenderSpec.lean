/-
# `LogAsynAppender`: what is written, and what `stop` leaves behind

At every moment the lists the writing thread has taken, then `buffersHolder`,
then `curBuffer` are the appended lines, packed whole and in order into buffers,
and what was written, then what is still to write of the running iteration, is
what was taken, but for the lists over the limit, which are cut to a notice and
two buffers (`log_stream_intact`).  The four buffers go around without a null
pointer: a missing `nextBuffer` means that a full buffer waits, so a list that
has to give two buffers back has two.

`process` tests `running` at its top only.  What was appended since the last
swap is written if the thread is inside the iteration, before its swap, and is
left in memory if the thread has still to test `running`, or is writing
(`stop_writes_all_iff`).
-/

import Sevent.Base.LogAsynAppender
import Sevent.Lib.Packing
import Sevent.Lib.Run

namespace Sevent
namespace Base
namespace LogAsynAppender

open Transition Packing

variable {a a' : LogAsynAppender}

/-! ### The stream -/

/-- The calls of `LogFile::write`. -/
def writes (a : LogAsynAppender) : List (List UInt8) :=
  a.output.filterMap fun o => match o with
    | .write log => some log
    | .flush => none

/-- The buffers of the running iteration that are still to write. -/
def unwritten (a : LogAsynAppender) : List (List UInt8) :=
  match a.place with
  | .writing written => (a.buffers_bak.drop written).map FixedBuffer.content
  | _ => []

/-- The list that was taken and whose length has not been tested. -/
def taken (a : LogAsynAppender) : List (List UInt8) :=
  match a.place with
  | .swapped => a.buffers_bak.map FixedBuffer.content
  | _ => []

/-- What the appending threads have left to the writing thread. -/
def pending (a : LogAsynAppender) : List (List UInt8) :=
  a.buffersHolder.map FixedBuffer.content ++ a.curBuffer.toList.map FixedBuffer.content

/-- The stream is intact: the lists taken so far, `buffersHolder` and
`curBuffer` are all appended lines in order, each line whole in one buffer; and
what was written, with what is still to write, is what was taken, cut where a
list is over the limit. -/
structure Intact (a : LogAsynAppender) : Prop where
  packed : Packed a.appended
    (a.iterations.flatMap Iteration.buffers ++ a.taken ++ a.pending)
  written : a.writes ++ a.unwritten = a.iterations.flatMap Iteration.written

/-- The steps of an appender, one constructor for each outcome. -/
inductive Step (a : LogAsynAppender) : Act → LogAsynAppender → Prop
  | fill {log : List UInt8} {cur : Buffer} : a.curBuffer = some cur → log.length < cur.remain →
      Step a (.append log)
        { a with appended := a.appended ++ [log], curBuffer := some (cur.append log) }
  | push {log : List UInt8} {cur next : Buffer} : a.curBuffer = some cur →
      cur.remain ≤ log.length → log.length < largeBufferSize →
      (a.nextBuffer = some next ∨ a.nextBuffer = none ∧ next = .empty) →
      Step a (.append log) { a with
        appended := a.appended ++ [log]
        buffersHolder := a.buffersHolder ++ [cur]
        curBuffer := some (next.append log)
        nextBuffer := none }
  | setLimit {limit : ℤ} : Step a (.setLimit limit) { a with buffersLimit := limitOf limit }
  | flush : Step a .flush { a with output := a.output ++ [.flush] }
  | start : a.place = .idle → Step a .start { a with
      running := true
      place := .testRunning
      curbuf_bak := some .empty
      nextbuf_bak := some .empty }
  | stop : a.running = true → Step a .stop { a with running := false }
  | loop : a.place = .testRunning → a.running = true → Step a .testRunning { a with place := .lock }
  | exit : a.place = .testRunning → a.running = false →
      Step a .testRunning { a with place := .exited, output := a.output ++ [.flush] }
  | wait : a.place = .lock → a.buffersHolder = [] → Step a .lock { a with place := .waiting }
  | nothing {cur : Buffer} : a.place = .waiting → a.curBuffer = some cur → cur.content = [] →
      Step a .wake { a with place := .testRunning }
  | swapFull : a.place = .lock → Step a .lock a.swap
  | swapWaited : a.place = .waiting → Step a .wake a.swap
  | testLimit {timestamp : List UInt8} : a.place = .swapped →
      Step a (.testLimit timestamp) (a.testLimit timestamp)
  | write {written : ℕ} {buffer : Buffer} : a.place = .writing written →
      a.buffers_bak[written]? = some buffer →
      Step a .write { a with
        place := .writing (written + 1)
        output := a.output ++ [.write buffer.content] }
  | restore {a' : LogAsynAppender} : a.place = .writing a.buffers_bak.length →
      a.restore = some a' → Step a .restore a'
  | join : a.place = .exited → Step a .join { a with place := .idle }

/-- What a call of `append` does. -/
theorem step_append {log : List UInt8} (h : step a (.append log) = some a') :
    Step a (.append log) a' := by
  obtain ⟨hlog, h⟩ := Option.ite_none_right_eq_some.1 h
  obtain ⟨cur, hcur, rfl⟩ := Option.map_eq_some_iff.1 h
  dsimp only
  split
  · next hroom => exact .fill hcur hroom
  · next hfull =>
      split
      · next hnext => exact .push hcur (by omega) hlog (.inl hnext)
      · next hnext =>
          rw [hnext]
          exact .push hcur (by omega) hlog (.inr ⟨hnext, rfl⟩)

/-- What an action does, one case for each place of the writing thread. -/
theorem step_cases {act : Act} (h : step a act = some a') : Step a act a' := by
  rcases act with log | limit | _ | _ | _ | _ | _ | _ | timestamp | _ | _ | _
  · exact step_append h
  · obtain rfl := Option.some.inj h
    exact .setLimit
  · obtain rfl := Option.some.inj h
    exact .flush
  · obtain ⟨hplace, rfl⟩ := Option.ite_some_none_eq_some.1 h
    exact .start hplace
  · obtain ⟨hrunning, rfl⟩ := Option.ite_some_none_eq_some.1 h
    exact .stop hrunning
  · obtain ⟨hplace, h⟩ := Option.ite_none_right_eq_some.1 h
    split at h
    · next hrunning =>
        obtain rfl := Option.some.inj h
        exact .loop hplace hrunning
    · next hrunning =>
        obtain rfl := Option.some.inj h
        exact .exit hplace (by simpa using hrunning)
  · obtain ⟨hplace, h⟩ := Option.ite_none_right_eq_some.1 h
    split at h
    · next hholder =>
        obtain rfl := Option.some.inj h
        exact .wait hplace hholder
    · obtain rfl := Option.some.inj h
      exact .swapFull hplace
  · obtain ⟨hplace, h⟩ := Option.ite_none_right_eq_some.1 h
    obtain ⟨cur, hcur, rfl⟩ := Option.map_eq_some_iff.1 h
    split
    · next hempty => exact .nothing hplace hcur (List.isEmpty_iff.1 hempty)
    · exact .swapWaited hplace
  · obtain ⟨hplace, rfl⟩ := Option.ite_some_none_eq_some.1 h
    exact .testLimit hplace
  · simp only [step] at h
    split at h
    · next hplace =>
        obtain ⟨buffer, hbuffer, rfl⟩ := Option.map_eq_some_iff.1 h
        exact .write hplace hbuffer
    · simp at h
  · obtain ⟨hplace, h⟩ := Option.ite_none_right_eq_some.1 h
    exact .restore hplace h
  · obtain ⟨hplace, rfl⟩ := Option.ite_some_none_eq_some.1 h
    exact .join hplace

/-! ### The four buffers -/

/-- Where the spare buffers of the writing thread are: with the thread, or given
away for a list that is long enough to give them back. -/
def SparesAt (a : LogAsynAppender) : Place → Prop
  | .idle | .exited => a.buffers_bak = []
  | .testRunning | .lock | .waiting =>
    a.buffers_bak = [] ∧ a.curbuf_bak = some .empty ∧ a.nextbuf_bak = some .empty
  | .swapped | .writing _ =>
    a.curbuf_bak = none ∧ (a.nextbuf_bak = none ∨ a.nextbuf_bak = some .empty) ∧
      a.buffers_bak ≠ [] ∧ (a.nextbuf_bak = none → 2 ≤ a.buffers_bak.length)

/-- The buffers go around: there is always a current one, the next one is empty,
and where it is missing a full one waits. -/
structure Buffers (a : LogAsynAppender) : Prop where
  current : ∃ cur, a.curBuffer = some cur ∧ (cur.content = [] → a.buffersHolder = [])
  next : a.nextBuffer = none ∧ a.buffersHolder ≠ [] ∨ a.nextBuffer = some .empty
  spares : a.SparesAt a.place
  limit : 4 ≤ a.buffersLimit

/-- The limit of a list is never below the two buffers that are kept and the two
that go back. -/
theorem four_le_limitOf (limit : ℤ) : 4 ≤ limitOf limit := by
  unfold limitOf
  split <;> omega

/-- A line that fits is appended whole. -/
@[simp]
theorem content_append_of_lt {size : ℕ} {b : FixedBuffer size} {buf : List UInt8}
    (h : buf.length < b.remain) : (b.append buf).content = b.content ++ buf := by
  simp [FixedBuffer.append, h]

/-- An empty buffer has no content. -/
@[simp]
theorem content_empty {size : ℕ} [NeZero size] :
    (FixedBuffer.empty : FixedBuffer size).content = [] :=
  rfl

/-- A buffer has room for its last byte at least. -/
theorem remain_pos {size : ℕ} (b : FixedBuffer size) : 0 < b.remain :=
  Nat.sub_pos_of_lt b.room

/-- The content of a buffer with one line. -/
theorem content_empty_append {log : List UInt8} (h : log.length < largeBufferSize) :
    ((FixedBuffer.empty : Buffer).append log).content = log :=
  content_append_of_lt (by simpa [FixedBuffer.remain] using h)

/-- The four buffers at the start. -/
theorem buffers_init (limit : ℤ) : Buffers (init limit) where
  current := ⟨_, rfl, fun _ => rfl⟩
  next := .inr rfl
  spares := rfl
  limit := four_le_limitOf limit

/-- The spares do not see what the appending threads do. -/
theorem SparesAt.congr {p : Place} (h : a.SparesAt p) (hbuffers : a'.buffers_bak = a.buffers_bak)
    (hcur : a'.curbuf_bak = a.curbuf_bak) (hnext : a'.nextbuf_bak = a.nextbuf_bak) :
    a'.SparesAt p := by
  unfold SparesAt at h ⊢
  rwa [hbuffers, hcur, hnext]

/-- **The spare buffers come back.** -/
theorem Buffers.restore (h : Buffers a) {written : ℕ} (hplace : a.place = .writing written) :
    a.restore = some { a with
      place := .testRunning
      curbuf_bak := some .empty
      nextbuf_bak := some .empty
      buffers_bak := []
      output := a.output ++ [.flush] } := by
  have hspares := h.spares
  rw [hplace] at hspares
  obtain ⟨hcur, hnext, hne, htwo⟩ := hspares
  unfold LogAsynAppender.restore
  rcases hnext with hnext | hnext
  · have hlen := htwo hnext
    have hne' : a.buffers_bak.dropLast ≠ [] := by
      intro hnil
      have hzero := congrArg List.length hnil
      simp only [List.length_dropLast, List.length_nil] at hzero
      omega
    simp [takeBack, hcur, hnext, hne, hne']
  · simp [takeBack, hcur, hnext, hne]

/-- What is in `buffersHolder` and in `curBuffer` fills one buffer at least, and
two where `nextBuffer` is missing. -/
theorem Buffers.swap (h : Buffers a) (hplace : a.place = .lock ∨ a.place = .waiting) :
    Buffers a.swap := by
  have hspares : a.buffers_bak = [] ∧ a.curbuf_bak = some .empty ∧ a.nextbuf_bak = some .empty := by
    have hspares := h.spares
    rcases hplace with hplace | hplace <;> rw [hplace] at hspares <;> exact hspares
  obtain ⟨hbuffers, hcurbak, hnextbak⟩ := hspares
  obtain ⟨cur, hcur, -⟩ := h.current
  constructor
  · exact ⟨_, hcurbak, fun _ => hbuffers⟩
  · refine .inr ?_
    rcases h.next with ⟨hnext, -⟩ | hnext <;> simp [LogAsynAppender.swap, hnext, hnextbak]
  · refine ⟨rfl, ?_, ?_, ?_⟩
    · rcases h.next with ⟨hnext, -⟩ | hnext <;> simp [LogAsynAppender.swap, hnext, hnextbak]
    · simp [LogAsynAppender.swap, hcur]
    · rcases h.next with ⟨hnext, hholder⟩ | hnext
      · intro _
        have hpos := List.length_pos_iff.2 hholder
        simp only [LogAsynAppender.swap, hcur, Option.toList_some, List.length_append,
          List.length_singleton]
        omega
      · simp [LogAsynAppender.swap, hnext, hnextbak]
  · exact h.limit

/-- The test of the limit keeps the buffers: the cut list has two still to give
back. -/
theorem Buffers.testLimit (h : Buffers a) (timestamp : List UInt8) (hplace : a.place = .swapped) :
    Buffers (a.testLimit timestamp) := by
  have hspares := h.spares
  rw [hplace] at hspares
  obtain ⟨hcur, hnext, hne, htwo⟩ := hspares
  have hlimit := h.limit
  unfold LogAsynAppender.testLimit
  dsimp only
  split
  · next hover =>
      refine ⟨h.current, h.next, ⟨hcur, hnext, ?_, fun _ => ?_⟩, h.limit⟩
      · simpa using hne
      · simp only [List.length_take]
        omega
  · exact ⟨h.current, h.next, ⟨hcur, hnext, hne, htwo⟩, h.limit⟩

/-- **Every step keeps the buffers going.** -/
theorem Buffers.step {act : Act} (hstep : Step a act a') (h : Buffers a) : Buffers a' := by
  have hspares := h.spares
  cases hstep with
  | @fill log cur hcur hroom =>
    refine ⟨⟨_, rfl, fun hempty => ?_⟩, h.next, hspares, h.limit⟩
    obtain ⟨cur', hcur', hfirst⟩ := h.current
    obtain rfl := Option.some.inj (hcur.symm.trans hcur')
    rw [content_append_of_lt hroom] at hempty
    exact hfirst (List.append_eq_nil_iff.1 hempty).1
  | @push log cur next hcur hfull hlog hnext =>
    have hpos : 0 < log.length := Nat.lt_of_lt_of_le (remain_pos cur) hfull
    refine ⟨⟨_, rfl, fun hempty => ?_⟩, .inl ⟨rfl, by simp⟩, hspares, h.limit⟩
    have hcontent : next = .empty := by
      rcases hnext with hnext | ⟨-, hnext⟩
      · rcases h.next with ⟨hnone, -⟩ | hsome
        · simp [hnone] at hnext
        · exact Option.some.inj (hnext.symm.trans hsome)
      · exact hnext
    rw [hcontent, content_empty_append hlog] at hempty
    simp [hempty] at hpos
  | setLimit => exact ⟨h.current, h.next, hspares, four_le_limitOf _⟩
  | flush => exact ⟨h.current, h.next, hspares, h.limit⟩
  | start hplace =>
    rw [hplace] at hspares
    exact ⟨h.current, h.next, ⟨hspares, rfl, rfl⟩, h.limit⟩
  | stop _ => exact ⟨h.current, h.next, hspares, h.limit⟩
  | loop hplace _ | wait hplace _ | nothing hplace _ _ =>
    rw [hplace] at hspares
    exact ⟨h.current, h.next, hspares, h.limit⟩
  | exit hplace _ =>
    rw [hplace] at hspares
    exact ⟨h.current, h.next, hspares.1, h.limit⟩
  | swapFull hplace => exact h.swap (.inl hplace)
  | swapWaited hplace => exact h.swap (.inr hplace)
  | testLimit hplace => exact h.testLimit _ hplace
  | write hplace _ =>
    rw [hplace] at hspares
    exact ⟨h.current, h.next, hspares, h.limit⟩
  | restore hplace hrestore =>
    obtain rfl := Option.some.inj ((h.restore hplace).symm.trans hrestore)
    exact ⟨h.current, h.next, ⟨rfl, rfl, rfl⟩, h.limit⟩
  | join hplace =>
    rw [hplace] at hspares
    exact ⟨h.current, h.next, hspares, h.limit⟩

/-! ### What is written -/

/-- A flush writes nothing. -/
theorem writes_flush : writes { a with output := a.output ++ [.flush] } = a.writes := by
  simp [writes]

/-- At the start nothing was appended and nothing written. -/
theorem intact_init (limit : ℤ) : Intact (init limit) where
  packed := Packed.nil.opened
  written := rfl

/-- A step that moves no line and calls no write. -/
theorem Intact.congr (h : Intact a) (happended : a'.appended = a.appended)
    (hiterations : a'.iterations = a.iterations) (htaken : a'.taken = a.taken)
    (hpending : a'.pending = a.pending) (hwrites : a'.writes = a.writes)
    (hunwritten : a'.unwritten = a.unwritten) : Intact a' := by
  refine ⟨?_, ?_⟩
  · rw [happended, hiterations, htaken, hpending]
    exact h.packed
  · rw [hwrites, hunwritten, hiterations]
    exact h.written

/-- The swap takes what was appended over to the writing thread, with none of it
left behind. -/
theorem Intact.swap (h : Intact a) (hb : Buffers a)
    (hplace : a.place = .lock ∨ a.place = .waiting) : Intact a.swap := by
  have hspares : a.buffers_bak = [] ∧ a.curbuf_bak = some .empty := by
    have hspares := hb.spares
    rcases hplace with hplace | hplace <;> rw [hplace] at hspares <;>
      exact ⟨hspares.1, hspares.2.1⟩
  obtain ⟨hbuffers, hcurbak⟩ := hspares
  have hopened := h.packed.opened
  have hwritten := h.written
  refine ⟨?_, ?_⟩
  · rcases hplace with hplace | hplace <;>
      simpa [taken, pending, hplace, LogAsynAppender.swap, hbuffers, hcurbak] using hopened
  · rcases hplace with hplace | hplace <;>
      simpa [unwritten, writes, hplace, LogAsynAppender.swap] using hwritten

/-- The test of the limit cuts a list that is too long, and tells the notice
apart from the lines. -/
theorem Intact.testLimit (h : Intact a) (timestamp : List UInt8) (hplace : a.place = .swapped) :
    Intact (a.testLimit timestamp) := by
  have hpacked := h.packed
  have hwritten := h.written
  unfold LogAsynAppender.testLimit
  dsimp only
  split
  · next hover =>
      refine ⟨?_, ?_⟩
      · simpa [taken, pending, hplace] using hpacked
      · simpa [unwritten, writes, hplace, Iteration.written, hover] using hwritten
  · next hfits =>
      refine ⟨?_, ?_⟩
      · simpa [taken, pending, hplace] using hpacked
      · simpa [unwritten, writes, hplace, Iteration.written, hfits] using hwritten

/-- The write of one buffer moves it from what is still to write to what was
written. -/
theorem Intact.write (h : Intact a) {written : ℕ} {buffer : Buffer}
    (hplace : a.place = .writing written) (hbuffer : a.buffers_bak[written]? = some buffer) :
    Intact { a with
      place := .writing (written + 1)
      output := a.output ++ [.write buffer.content] } := by
  have hpacked := h.packed
  have hwritten := h.written
  obtain ⟨hlt, rfl⟩ := List.getElem?_eq_some_iff.1 hbuffer
  refine ⟨?_, ?_⟩
  · simpa [taken, pending, hplace] using hpacked
  · simp only [unwritten, hplace, List.drop_eq_getElem_cons hlt, List.map_cons] at hwritten
    simpa [unwritten, writes] using hwritten

/-- **Every step keeps the stream intact.** -/
theorem Intact.step {act : Act} (hstep : Step a act a') (hb : Buffers a) (h : Intact a) :
    Intact a' := by
  have hpacked := h.packed
  cases hstep with
  | @fill log cur hcur hroom =>
    refine ⟨?_, h.written⟩
    have hfill : Packed a.appended
        ((a.iterations.flatMap Iteration.buffers ++ a.taken ++
          a.buffersHolder.map FixedBuffer.content) ++ [cur.content]) := by
      simpa [pending, hcur] using hpacked
    simpa [pending, taken, content_append_of_lt hroom] using hfill.fill log
  | @push log cur next hcur hfull hlog hnext =>
    have hcontent : next = .empty := by
      rcases hnext with hnext | ⟨-, hnext⟩
      · rcases hb.next with ⟨hnone, -⟩ | hsome
        · simp [hnone] at hnext
        · exact Option.some.inj (hnext.symm.trans hsome)
      · exact hnext
    refine ⟨?_, h.written⟩
    simpa [pending, taken, hcur, hcontent, content_empty_append hlog] using hpacked.push log
  | setLimit => exact h.congr rfl rfl rfl rfl rfl rfl
  | flush => exact h.congr rfl rfl rfl rfl writes_flush rfl
  | start hplace =>
    exact h.congr rfl rfl (by simp [taken, hplace]) rfl rfl (by simp [unwritten, hplace])
  | stop _ => exact h.congr rfl rfl rfl rfl rfl rfl
  | loop hplace _ | wait hplace _ | nothing hplace _ _ | join hplace =>
    exact h.congr rfl rfl (by simp [taken, hplace]) rfl rfl (by simp [unwritten, hplace])
  | exit hplace _ =>
    exact h.congr rfl rfl (by simp [taken, hplace]) rfl writes_flush (by simp [unwritten, hplace])
  | swapFull hplace => exact h.swap hb (.inl hplace)
  | swapWaited hplace => exact h.swap hb (.inr hplace)
  | testLimit hplace => exact h.testLimit _ hplace
  | write hplace hbuffer => exact h.write hplace hbuffer
  | restore hplace hrestore =>
    obtain rfl := Option.some.inj ((hb.restore hplace).symm.trans hrestore)
    exact h.congr rfl rfl (by simp [taken, hplace]) rfl writes_flush (by simp [unwritten, hplace])

/-- The bytes of the stream where no list was over the limit. -/
theorem Intact.flatten_eq (h : Intact a)
    (hfits : ∀ it ∈ a.iterations, it.buffers.length ≤ it.buffersLimit) :
    (a.writes ++ a.unwritten ++ a.taken ++ a.pending).flatten = a.appended.flatten := by
  have hsame : a.iterations.flatMap Iteration.written = a.iterations.flatMap Iteration.buffers := by
    refine List.flatMap_congr fun it hit => ?_
    unfold Iteration.written
    rw [if_neg (by have := hfits it hit; omega)]
  rw [h.written, hsame]
  exact h.packed.flatten_eq

/-- What holds of an appender at any time: the stream is intact, it is the
appended bytes where no list was over the limit, and neither `append` nor the
end of an iteration meets a null pointer or an empty vector. -/
structure LogStream (a : LogAsynAppender) : Prop where
  intact : Intact a
  bytes : (∀ it ∈ a.iterations, it.buffers.length ≤ it.buffersLimit) →
    (a.writes ++ a.unwritten ++ a.taken ++ a.pending).flatten = a.appended.flatten
  append : ∀ log, (a.append log).isSome = true
  restore : ∀ written, a.place = .writing written → a.restore.isSome = true

/-- **The log stream is intact**, in every state of every run, with lines appended
between any two steps of the writing thread.  What is written, and what still waits,
is the appended lines in their order; only the limit on waiting buffers drops some,
whole buffers at a time and with a notice in their place. -/
theorem log_stream_intact (limit : ℤ) (acts : List Act) :
    Always step LogStream (init limit) acts := by
  refine (always_invariant (fun a act a' (h : Buffers a ∧ Intact a) hstep => ?_)
    ⟨buffers_init limit, intact_init limit⟩).mono fun a h => ?_
  · exact ⟨h.1.step (step_cases hstep), h.2.step (step_cases hstep) h.1⟩
  · obtain ⟨cur, hcur, -⟩ := h.1.current
    refine ⟨h.2, h.2.flatten_eq, fun log => ?_, fun written hplace => ?_⟩
    · simp [LogAsynAppender.append, hcur]
    · simp [h.1.restore hplace]

/-! ### Stopping -/

/-- Whatever is pending now is taken before the thread ends: it is past the test
of `running`, with its swap still to come, or nothing is pending. -/
def Ready (a : LogAsynAppender) : Prop :=
  a.place = .lock ∨ a.place = .waiting ∨ a.pending.flatten = []

/-- All appended bytes are in the lists that were taken, these were written but
for what the limit drops, and a flush came last. -/
structure AllWritten (a : LogAsynAppender) : Prop where
  lines : (a.iterations.flatMap Iteration.buffers).flatten = a.appended.flatten
  written : a.writes = a.iterations.flatMap Iteration.written
  flushed : a.output.getLast? = some .flush

/-- The acts of others between `stop` and the end of its `join`: no `append` and
no `start`. -/
def Act.quiet : Act → Bool
  | .append _ => false
  | .start => false
  | _ => true

/-- Being ready depends on the place and on what is pending. -/
theorem ready_congr (hplace : a'.place = a.place) (hpending : a'.pending = a.pending) :
    Ready a' ↔ Ready a := by
  unfold Ready
  rw [hplace, hpending]

/-- Outside the iteration, or past its swap, nothing changes until the end. -/
theorem ready_move (hplace : a.place ≠ .lock ∧ a.place ≠ .waiting)
    (hplace' : a'.place ≠ .lock ∧ a'.place ≠ .waiting) (hpending : a'.pending = a.pending) :
    Ready a' ↔ Ready a := by
  unfold Ready
  rw [hpending]
  simp [hplace, hplace']

/-- The swap takes everything. -/
theorem ready_swap (hb : Buffers a) (hplace : a.place = .lock ∨ a.place = .waiting) :
    Ready a.swap ↔ Ready a := by
  have hspares : a.buffers_bak = [] ∧ a.curbuf_bak = some .empty := by
    have hspares := hb.spares
    rcases hplace with hplace | hplace <;> rw [hplace] at hspares <;>
      exact ⟨hspares.1, hspares.2.1⟩
  have hpending : a.swap.pending.flatten = [] := by
    simp [pending, LogAsynAppender.swap, hspares.1, hspares.2]
  exact iff_of_true (.inr (.inr hpending)) (hplace.imp_right .inl)

/-- **After `stop`, a step neither makes the appender ready nor unready.** -/
theorem ready_step {act : Act} (hstep : Step a act a') (hquiet : act.quiet = true) (hb : Buffers a)
    (hrunning : a.running = false) : a'.running = false ∧ (Ready a' ↔ Ready a) := by
  cases hstep with
  | fill _ _ | push _ _ _ _ | start _ => simp [Act.quiet] at hquiet
  | setLimit | flush => exact ⟨hrunning, ready_congr rfl rfl⟩
  | stop hrun => simp [hrunning] at hrun
  | loop _ hrun => simp [hrunning] at hrun
  | exit hplace _ => exact ⟨hrunning, ready_move (by simp [hplace]) (by simp) rfl⟩
  | wait hplace _ => exact ⟨hrunning, iff_of_true (.inr (.inl rfl)) (.inl hplace)⟩
  | nothing hplace hcur hempty =>
    -- with an empty `curBuffer` nothing is pending
    refine ⟨hrunning, iff_of_true (.inr (.inr ?_)) (.inr (.inl hplace))⟩
    obtain ⟨cur, hcur', hholder⟩ := hb.current
    obtain rfl := Option.some.inj (hcur.symm.trans hcur')
    simp [pending, hcur, hempty, hholder hempty]
  | swapFull hplace => exact ⟨hrunning, ready_swap hb (.inl hplace)⟩
  | swapWaited hplace => exact ⟨hrunning, ready_swap hb (.inr hplace)⟩
  | testLimit hplace =>
    unfold LogAsynAppender.testLimit
    dsimp only
    split
    · exact ⟨hrunning, ready_move (by simp [hplace]) (by simp) rfl⟩
    · exact ⟨hrunning, ready_move (by simp [hplace]) (by simp) rfl⟩
  | write hplace _ => exact ⟨hrunning, ready_move (by simp [hplace]) (by simp) rfl⟩
  | restore hplace hrestore =>
    obtain rfl := Option.some.inj ((hb.restore hplace).symm.trans hrestore)
    exact ⟨hrunning, ready_move (by simp [hplace]) (by simp) rfl⟩
  | join hplace => exact ⟨hrunning, ready_move (by simp [hplace]) (by simp) rfl⟩

/-- In a run after the stop without a call of `append`, the writing thread ends
with everything written exactly if it would have at the start of the run. -/
theorem ready_run {acts : List Act} (hquiet : ∀ act ∈ acts, act.quiet = true) (hb : Buffers a)
    (hrunning : a.running = false) (hrun : run step a acts = some a') : Ready a' ↔ Ready a := by
  induction acts generalizing a with
  | nil =>
    obtain rfl := Option.some.inj hrun
    exact Iff.rfl
  | cons act acts ih =>
    obtain ⟨b, hstep, hrest⟩ := run_cons_eq_some.1 hrun
    have hcases := step_cases hstep
    obtain ⟨hrunning', hready⟩ := ready_step hcases (hquiet act List.mem_cons_self) hb hrunning
    exact (ih (fun c hc => hquiet c (List.mem_cons_of_mem _ hc)) (hb.step hcases) hrunning'
      hrest).trans hready

/-- The thread flushes last. -/
def Flushed (a : LogAsynAppender) : Prop := a.place = .exited → a.output.getLast? = some .flush

/-- Every step keeps it, for the thread exits only behind its last flush. -/
theorem flushed_step {act : Act} (hstep : Step a act a') (hb : Buffers a) (h : Flushed a) :
    Flushed a' := by
  cases hstep with
  | fill _ _ | push _ _ _ _ | setLimit | stop _ => exact h
  | flush | exit _ _ => exact fun _ => List.getLast?_concat
  | start _ | loop _ _ | wait _ _ | nothing _ _ _ | swapFull _ | swapWaited _
  | write _ _ | join _ =>
    exact fun hplace => by simp [LogAsynAppender.swap] at hplace
  | testLimit _ =>
    unfold LogAsynAppender.testLimit
    dsimp only
    split <;> exact fun hplace => by simp at hplace
  | restore hplace hrestore =>
    obtain rfl := Option.some.inj ((hb.restore hplace).symm.trans hrestore)
    exact fun hplace => by simp at hplace

/-- What every run keeps. -/
theorem invariants (limit : ℤ) {acts : List Act} (hrun : run step (init limit) acts = some a) :
    Buffers a ∧ Intact a ∧ Flushed a := by
  have hinv : Always step (fun a => Buffers a ∧ Intact a ∧ Flushed a) (init limit) acts := by
    refine always_invariant (fun a act a' h hstep => ?_)
      ⟨buffers_init limit, intact_init limit, fun hplace => by simp [init] at hplace⟩
    have hcases := step_cases hstep
    exact ⟨h.1.step hcases, h.2.1.step hcases h.1, flushed_step hcases h.1 h.2.2⟩
  exact hinv.last hrun

/-- Once the thread has exited, all is written exactly where nothing is pending. -/
theorem allWritten_iff (h : Intact a) (hplace : a.place = .idle)
    (hflushed : a.output.getLast? = some .flush) :
    AllWritten a ↔ a.pending.flatten = [] := by
  have hlines := h.packed.flatten_eq
  have hwritten := h.written
  have htaken : a.taken = [] := by simp [taken, hplace]
  have hunwritten : a.unwritten = [] := by simp [unwritten, hplace]
  rw [htaken, List.append_nil, List.flatten_append] at hlines
  rw [hunwritten, List.append_nil] at hwritten
  constructor
  · intro hall
    rw [← hall.lines] at hlines
    exact List.append_right_eq_self.1 hlines
  · intro hnil
    rw [hnil, List.append_nil] at hlines
    exact ⟨hlines, hwritten, hflushed⟩

/-- **When stopping loses nothing.**  For every run up to `stop`, and every
order of the thread's steps until `stop` has joined it, all appended lines are
written before the last flush, but for what the limit drops, if and only if the
thread was inside its iteration and before its swap when `stop` was called, or
nothing was pending. -/
theorem stop_writes_all_iff (limit : ℤ) {before after : List Act} {s t : LogAsynAppender}
    (hbefore : run step (init limit) before = some s)
    (hafter : run step s (.stop :: (after ++ [.join])) = some t)
    (hquiet : ∀ act ∈ after, act.quiet = true) : AllWritten t ↔ Ready s := by
  obtain ⟨hb, -, -⟩ := invariants limit hbefore
  obtain ⟨s₁, hstop, hrest⟩ := run_cons_eq_some.1 hafter
  obtain ⟨u, hu, hjoin⟩ := run_append_eq_some.1 hrest
  obtain ⟨hrun, rfl⟩ := Option.ite_some_none_eq_some.1 hstop
  obtain ⟨-, -, hflushed⟩ := invariants limit
    (run_append_eq_some.2 ⟨s, hbefore, run_cons_eq_some.2 ⟨_, hstop, hu⟩⟩)
  obtain ⟨-, hintact, -⟩ := invariants limit (run_append_eq_some.2 ⟨s, hbefore, hafter⟩)
  obtain ⟨t', hstep, ht⟩ := run_cons_eq_some.1 hjoin
  obtain rfl := Option.some.inj ht
  obtain ⟨hplace, rfl⟩ := Option.ite_some_none_eq_some.1 hstep
  have hb₁ := hb.step (step_cases hstop)
  have hready : Ready u ↔ Ready s := (ready_run hquiet hb₁ rfl hu).trans (ready_congr rfl rfl)
  rw [allWritten_iff hintact rfl (hflushed hplace), ← hready]
  simp [Ready, hplace, pending]

/-- A line that is appended while the thread is writing, and `stop` after it:
the thread comes to the test of `running` and ends. -/
def appendWhileWriting : List Act :=
  [.start, .testRunning, .lock, .append [65], .wake, .append [66]]

/-- The line of the running iteration is written, the one after it is not: `stop`
lets the writing thread leave its loop with a line in the current buffer, and nobody
writes that one. -/
theorem stop_loses_line : ∃ s t, run step (init 25) appendWhileWriting = some s ∧
    run step s [.stop, .testLimit [], .write, .restore, .testRunning, .join] = some t ∧
    t.appended = [[65], [66]] ∧ t.writes = [[65]] ∧ ¬ AllWritten t := by
  refine ⟨_, _, rfl, rfl, by decide, by decide, fun h => ?_⟩
  exact absurd h.lines (by decide)

/-- A line that is appended while the thread waits is written. -/
theorem stop_writes_line : ∃ t, AllWritten t ∧ run step (init 25)
    [.start, .testRunning, .lock, .append [65], .stop, .wake, .testLimit [], .write, .restore,
      .testRunning, .join] = some t := by
  refine ⟨_, (@stop_writes_all_iff 25 [.start, .testRunning, .lock, .append [65]]
    [.wake, .testLimit [], .write, .restore, .testRunning] _ _ rfl rfl (by decide)).2
    (.inr (.inl rfl)), rfl⟩

end LogAsynAppender
end Base
end Sevent
