/-
# The output stream of a connection is intact

Three sending functions and two draining ones share `outputBuf` and the write
interest, the interest can be switched by the user, and sends of other threads
come through the task queue.  `StreamOk` is what holds between them: as long as
the connection is not disconnected and no write has failed with `EPIPE` or
`ECONNRESET`, the bytes the kernel has accepted, followed by `outputBuf`, are
the payloads of the executed sends.

`stream_intact` says so for every run, and that the sends of one thread are
executed in the order in which the thread issued them, each at most once.
-/

import Sevent.Net.TcpConnectionSpec
import Sevent.Lib.Run
import Sevent.Lib.Fifo

namespace Sevent
namespace Net
namespace TcpConnection

open Transition Fifo

/-- The thread that issued a send. -/
def sender (p : Tag × List UInt8) : Option ℕ := p.1.thread

/-- The output of a connection is intact. -/
structure StreamOk (w : TcpConnection) : Prop where
  /-- Nothing is lost, duplicated, interleaved or reordered. -/
  stream : w.state ≠ .disconnected → ¬ Broken w.log →
    written w.log ++ w.outputBuf = payloads (executed w.log)
  /-- Each thread's sends: those executed, then those queued, are those issued. -/
  fifo : Ledger sender (w.state ≠ .disconnected) (sends w.log) (queued w.loop.tasks)
    (executed w.log)
  /-- The sends carry distinct numbers. -/
  numbered : (sends w.log).map (fun p => p.1.serial) = List.range w.accepted

/-- What a run keeps: the sends in the queue come from other threads. -/
structure StreamInv (w : TcpConnection) : Prop extends StreamOk w where
  foreign : ∀ p ∈ queued w.loop.tasks, sender p ≠ none

variable {w w' : TcpConnection}

/-! ### The abstract stream -/

section OutputStream

variable {o : OutputStream} {data : List UInt8} {r : WriteResult}

/-- A send that is taken executes none but itself. -/
theorem executed_push : executed (o.push data r).2 = [] := by
  unfold OutputStream.push
  split
  · split
    · rfl
    · split <;> rfl
  · rfl

/-- A send that is taken calls no `send`. -/
theorem sends_push : sends (o.push data r).2 = [] := by
  unfold OutputStream.push
  split
  · split
    · rfl
    · split <;> rfl
  · rfl

/-- A flush executes no send. -/
theorem executed_flush : executed (o.flush r).2 = [] := by
  unfold OutputStream.flush
  split
  · split
    · rfl
    · split <;> rfl
  · rfl

/-- A flush calls no `send`. -/
theorem sends_flush : sends (o.flush r).2 = [] := by
  unfold OutputStream.flush
  split
  · split
    · rfl
    · split <;> rfl
  · rfl

/-- What one `send` writes and leaves waiting is what waited, then its payload. -/
theorem written_push (o : OutputStream) (data : List UInt8) (r : WriteResult)
    (h : ¬ Broken (o.push data r).2) :
    written (o.push data r).2 ++ (o.push data r).1.pending = o.pending ++ data := by
  unfold OutputStream.push at h ⊢
  split
  case isTrue hnil =>
    rw [if_pos hnil] at h
    cases r with
    | accepted n => simp [written, hnil.2]
    | failed e =>
      by_cases he : dealErr e = true
      · exact absurd ⟨e, he, by simp [he]⟩ h
      · simp [written, he, hnil.2]
  case isFalse => simp [written]

/-- What a flush has written, and what it leaves, is what was pending. -/
theorem written_flush : written (o.flush r).2 ++ (o.flush r).1.pending = o.pending := by
  unfold OutputStream.flush
  split
  · cases r with
    | accepted n => simp [written]
    | failed e => by_cases he : dealErr e = true <;> simp [written, he]
  · simp [written]

end OutputStream

/-! ### Steps -/

/-- A log that grows by acts which neither send nor write keeps the stream. -/
theorem StreamInv.of_log (h : StreamInv w) {l : List Act} (hlog : w'.log = w.log ++ l)
    (hwritten : written l = []) (hexecuted : executed l = []) (hsends : sends l = [])
    (hbuf : w'.outputBuf = w.outputBuf) (hacc : w'.accepted = w.accepted)
    (hqueued : queued w'.loop.tasks = queued w.loop.tasks)
    (hstate : w'.state ≠ .disconnected → w.state ≠ .disconnected) : StreamInv w' := by
  have hexec : executed w'.log = executed w.log := by
    rw [hlog, executed_append, hexecuted, List.append_nil]
  have hsend : sends w'.log = sends w.log := by
    rw [hlog, sends_append, hsends, List.append_nil]
  refine ⟨⟨fun hd hb => ?_, ?_, ?_⟩, ?_⟩
  · rw [hexec, hlog, written_append, hwritten, List.append_nil, hbuf]
    exact h.stream (hstate hd) fun hb' => hb (hlog ▸ hb'.append l)
  · rw [hsend, hqueued, hexec]
    exact h.fifo.mono hstate
  · rw [hsend, hacc]
    exact h.numbered
  · rw [hqueued]
    exact h.foreign

/-- A function that neither sends nor writes keeps the stream. -/
theorem StreamInv.of_plain (h : StreamInv w) (hplain : Plain w w')
    (hstate : w'.state ≠ .disconnected → w.state ≠ .disconnected) : StreamInv w' := by
  obtain ⟨l, hl, hlp⟩ := hplain.log
  exact h.of_log hl (written_of_plain hlp) (executed_of_plain hlp) (sends_of_plain hlp)
    hplain.outputBuf hplain.accepted hplain.queued hstate

/-- The stream part for a sending function that executes `sent` and writes
`acts`. -/
theorem stream_of_sent {o : OutputStream} {acts : List Act} {sent : List (Tag × List UInt8)}
    (hsent : Sent w w' o acts) (hexec : executed acts = sent)
    (hacts : ¬ Broken acts → written acts ++ o.pending = w.outputBuf ++ payloads sent)
    (h : w.state ≠ .disconnected → ¬ Broken w.log →
      written w.log ++ w.outputBuf = payloads (executed w.log))
    (hd : w'.state ≠ .disconnected) (hb : ¬ Broken w'.log) :
    written w'.log ++ w'.outputBuf = payloads (executed w'.log) := by
  have hbuf : w'.outputBuf = o.pending := congrArg OutputStream.pending hsent.output
  rw [hsent.log] at hb ⊢
  have hold : ¬ Broken w.log := fun hb' => hb (hb'.append acts)
  have hnew : ¬ Broken acts := fun ⟨e, he, hm⟩ => hb ⟨e, he, List.mem_append_right _ hm⟩
  calc written (w.log ++ acts) ++ w'.outputBuf
      = written w.log ++ (written acts ++ o.pending) := by
        rw [written_append, hbuf, List.append_assoc]
    _ = (written w.log ++ w.outputBuf) ++ payloads sent := by
        rw [hacts hnew, List.append_assoc]
    _ = payloads (executed (w.log ++ acts)) := by
        rw [h (hsent.state ▸ hd) hold, executed_append, hexec, payloads_append]

/-- A drain keeps the stream. -/
theorem StreamInv.of_drain (h : StreamInv w) {o : OutputStream} {acts : List Act}
    (hsent : Sent w w' o acts) (hexec : executed acts = []) (hsends : sends acts = [])
    (hacts : written acts ++ o.pending = w.outputBuf) : StreamInv w' := by
  have hlog : executed w'.log = executed w.log := by
    rw [hsent.log, executed_append, hexec, List.append_nil]
  have hlog' : sends w'.log = sends w.log := by
    rw [hsent.log, sends_append, hsends, List.append_nil]
  refine ⟨⟨stream_of_sent hsent hexec (fun _ => by simpa [payloads] using hacts) h.stream,
    ?_, ?_⟩, ?_⟩
  · rw [hlog, hlog', hsent.queued, hsent.state]
    exact h.fifo
  · rw [hlog', hsent.accepted]
    exact h.numbered
  · rw [hsent.queued]
    exact h.foreign

/-- The acts of one executed send. -/
theorem push_acts (w : TcpConnection) (tag : Tag) (data : List UInt8) (r : WriteResult) :
    executed (.execute tag data :: (w.output.push data r).2) = [(tag, data)] ∧
      sends (.execute tag data :: (w.output.push data r).2) = [] := by
  constructor
  · change (tag, data) :: executed (w.output.push data r).2 = [(tag, data)]
    rw [executed_push]
  · exact sends_push

/-- A send that is taken keeps the stream, unless its write breaks the
connection: its payload is written or behind what was pending. -/
theorem push_stream (w : TcpConnection) (tag : Tag) (data : List UInt8) (r : WriteResult)
    (h : ¬ Broken (.execute tag data :: (w.output.push data r).2)) :
    written (.execute tag data :: (w.output.push data r).2) ++ (w.output.push data r).1.pending =
      w.outputBuf ++ payloads [(tag, data)] := by
  have hpush := written_push w.output data r fun ⟨e, he, hm⟩ =>
    h ⟨e, he, List.mem_cons_of_mem _ hm⟩
  rw [payloads_singleton]
  exact hpush

/-- A send that comes from the front of the queue is executed, or dropped after
the close. -/
theorem StreamInv.of_queued {tag : Tag} {data : List UInt8} {q : TaskQueue Task}
    (h : StreamInv w) (hq : queued w.loop.tasks = (tag, data) :: queued q.tasks)
    (r : WriteResult) : StreamInv ({ w with loop := q }.sendInLoop tag data r) := by
  have hfifo := h.fifo
  have hforeign := h.foreign
  rw [hq] at hfifo hforeign
  have hrest : ∀ p ∈ queued q.tasks, sender p ≠ none := fun p hp =>
    hforeign p (List.mem_cons_of_mem _ hp)
  by_cases hstate : w.state = .disconnected
  · have hdrop : { w with loop := q }.sendInLoop tag data r = { w with loop := q } := by
      unfold sendInLoop
      rw [if_pos hstate]
    rw [hdrop]
    exact ⟨⟨h.stream, hfifo.drop fun hd => hd hstate, h.numbered⟩, hrest⟩
  · have hsent := sendInLoop_output (w := { w with loop := q }) hstate tag data r
    obtain ⟨hexec, hsends⟩ := push_acts { w with loop := q } tag data r
    refine ⟨⟨stream_of_sent hsent hexec (push_stream { w with loop := q } tag data r) h.stream,
      ?_, ?_⟩, ?_⟩
    · rw [hsent.log, hsent.queued, hsent.state, executed_append, sends_append, hexec, hsends,
        List.append_nil]
      exact hfifo.serve
    · rw [hsent.log, hsent.accepted, sends_append, hsends, List.append_nil]
      exact h.numbered
    · rw [hsent.queued]
      exact hrest

/-- The stream part when a send is accepted. -/
theorem stream_accept (h : StreamInv w) (thread : Option ℕ) (data : List UInt8)
    (hd : (w.accept thread data).1.state ≠ .disconnected)
    (hb : ¬ Broken (w.accept thread data).1.log) :
    written (w.accept thread data).1.log ++ (w.accept thread data).1.outputBuf =
      payloads (executed (w.accept thread data).1.log) := by
  have hlog : (w.accept thread data).1.log = w.log ++ [.send (w.accept thread data).2 data] := rfl
  have hbuf : (w.accept thread data).1.outputBuf = w.outputBuf := rfl
  have hold : ¬ Broken w.log := fun hb' => hb (hlog ▸ hb'.append _)
  have hwritten : written [Act.send (w.accept thread data).2 data] = [] := rfl
  have hexec : executed [Act.send (w.accept thread data).2 data] = [] := rfl
  rw [hlog, hbuf, written_append, executed_append, hwritten, hexec, List.append_nil,
    List.append_nil]
  exact h.stream hd hold

/-- A send of the loop's own thread is accepted and executed at once. -/
theorem StreamInv.of_direct (h : StreamInv w) (hstate : w.state ≠ .disconnected)
    (data : List UInt8) (r : WriteResult) :
    StreamInv ((w.accept none data).1.sendInLoop (w.accept none data).2 data r) := by
  have hstate' : (w.accept none data).1.state ≠ .disconnected := hstate
  have hsent := sendInLoop_output hstate' (w.accept none data).2 data r
  obtain ⟨hexec, hsends⟩ := push_acts (w.accept none data).1 (w.accept none data).2 data r
  have hlog : (w.accept none data).1.log = w.log ++ [.send (w.accept none data).2 data] := rfl
  have hnew : sends [Act.send (w.accept none data).2 data] = [((w.accept none data).2, data)] := rfl
  have hold : executed [Act.send (w.accept none data).2 data] = [] := rfl
  refine ⟨⟨stream_of_sent hsent hexec (push_stream _ _ data r)
    (stream_accept h none data), ?_, ?_⟩, ?_⟩
  · rw [hsent.log, hsent.queued, hsent.state, executed_append, sends_append, hexec, hsends, hlog,
      executed_append, sends_append, hold, hnew, List.append_nil, List.append_nil]
    exact h.fifo.direct fun p hp => h.foreign p hp
  · rw [hsent.log, hsent.accepted, sends_append, hsends, hlog, sends_append, hnew,
      List.append_nil, List.map_append, h.numbered]
    exact (List.range_succ).symm
  · rw [hsent.queued]
    exact h.foreign

/-- A send of another thread is accepted and queued. -/
theorem StreamInv.of_foreign (h : StreamInv w) {thread : ℕ} {data : List UInt8} {t : Task}
    (ht : queued [t] = [((w.accept (some thread) data).2, data)]) :
    StreamInv ((w.accept (some thread) data).1.queueInLoop t) := by
  have hlog : (w.accept (some thread) data).1.log =
      w.log ++ [.send (w.accept (some thread) data).2 data] := rfl
  have hnew : sends [Act.send (w.accept (some thread) data).2 data] =
      [((w.accept (some thread) data).2, data)] := rfl
  have hold : executed [Act.send (w.accept (some thread) data).2 data] = [] := rfl
  have htasks : queued ((w.accept (some thread) data).1.queueInLoop t).loop.tasks =
      queued w.loop.tasks ++ [((w.accept (some thread) data).2, data)] := by
    rw [← ht, ← queued_append, queueInLoop_loop, TaskQueue.tasks_queueInLoop]
    rfl
  refine ⟨⟨stream_accept h (some thread) data, ?_, ?_⟩, ?_⟩
  · rw [htasks, queueInLoop_log, hlog, executed_append, sends_append, hold, hnew, List.append_nil]
    exact h.fifo.enqueue _
  · rw [queueInLoop_log, hlog, sends_append, hnew, List.map_append, h.numbered]
    exact (List.range_succ).symm
  · rw [htasks]
    intro p hp
    rcases List.mem_append.1 hp with hp | hp
    · exact h.foreign p hp
    · rw [List.mem_singleton.1 hp]
      exact Option.some_ne_none thread

/-- Sending what is pending keeps the stream. -/
theorem streamInv_sendOutputBuf (h : StreamInv w) (r : WriteResult) :
    StreamInv (w.sendOutputBufInLoop r) := by
  by_cases hstate : w.state = .disconnected
  · have hsame : w.sendOutputBufInLoop r = w := by
      unfold sendOutputBufInLoop
      rw [if_pos hstate]
    rw [hsame]
    exact h
  · exact h.of_drain (sendOutputBufInLoop_output hstate r) executed_flush sends_flush written_flush

/-- `shutdownInLoop` only changes the state and half-closes. -/
theorem streamInv_shutdownInLoop (h : StreamInv w) (mark : ℕ) :
    StreamInv (w.shutdownInLoop mark) := by
  unfold shutdownInLoop
  split
  case isTrue hstate =>
    have hlive : w.state ≠ .disconnected := by
      rw [hstate]
      decide
    dsimp only
    split
    · exact h.of_log (l := [.shutdown mark]) rfl rfl rfl rfl rfl rfl rfl fun _ => hlive
    · exact h.of_log (l := [.shutdown mark, .shutdownWrite w.outputBuf]) (by simp) rfl rfl rfl rfl
        rfl rfl fun _ => hlive
  case isFalse => exact h

section Closing

variable {onClose : TcpConnection → TcpConnection} (hquiet : Quiet onClose)
include hquiet

/-- A close keeps the stream; what is pending is given up with it. -/
theorem streamInv_handleClose (h : StreamInv w) : StreamInv (w.handleClose onClose) :=
  h.of_plain (plain_handleClose hquiet w) fun hd => absurd (handleClose_state hquiet w) hd

/-- `removeItself` keeps the stream. -/
theorem streamInv_removeItself (h : StreamInv w) : StreamInv (w.removeItself onClose) :=
  h.of_plain (plain_removeItself hquiet w) fun hd => absurd (removeItself_state hquiet w) hd

/-- A close by force keeps the stream. -/
theorem streamInv_forceCloseInLoop (h : StreamInv w) : StreamInv (w.forceCloseInLoop onClose) := by
  refine h.of_plain (plain_forceCloseInLoop hquiet w) fun hd => ?_
  rcases forceCloseInLoop_state hquiet w with hsame | hclosed
  · rwa [hsame] at hd
  · exact absurd hclosed hd

/-- Reading keeps the stream of the output. -/
theorem streamInv_handleRead (h : StreamInv w) (r : ReadResult) :
    StreamInv (w.handleRead r onClose) := by
  unfold handleRead
  split
  · exact h
  · cases r with
    | data b bytes =>
      have hread : Plain w { w with inputBuf := w.inputBuf ++ b :: bytes } :=
        Plain.of_eq rfl rfl rfl rfl
      dsimp only
      split
      · exact h.of_plain (hread.emit rfl) fun hd => hd
      · exact h.of_plain hread fun hd => hd
    | eof => exact streamInv_handleClose hquiet h
    | failed => exact h

/-- A write of the loop keeps the stream. -/
theorem streamInv_handleWrite (h : StreamInv w) (r : WriteResult) :
    StreamInv (w.handleWrite r onClose) := by
  by_cases hstate : w.state = .disconnected
  · unfold handleWrite
    rwa [if_pos hstate]
  by_cases hwant : w.channel.isEnableWrite = true
  · cases r with
    | accepted n =>
      have hdrain : written [Act.write (w.outputBuf.take n)] ++ (w.output.drain n).pending =
          w.outputBuf := by
        simp [written, OutputStream.drain, output]
      have hsent := handleWrite_output hstate hwant n onClose
      split at hsent
      · exact h.of_drain hsent rfl rfl hdrain
      · exact h.of_drain hsent rfl rfl hdrain
    | failed e =>
      have herr : StreamInv (w.emit (.writeErr e)) :=
        h.of_log (l := [.writeErr e]) rfl rfl rfl rfl rfl rfl rfl fun hd => hd
      unfold handleWrite
      rw [if_neg hstate, if_pos hwant]
      exact streamInv_handleClose hquiet herr
  · unfold handleWrite
    rwa [if_neg hstate, if_neg hwant]

/-- A public method called in the loop's thread keeps the stream. -/
theorem streamInv_callInLoop (h : StreamInv w) (r : WriteResult) (c : Call) :
    StreamInv (w.callInLoop r onClose c) := by
  have hlive : ∀ {s : State}, w.state = s → s ≠ .disconnected → w.state ≠ .disconnected :=
    fun he hs => he ▸ hs
  cases c with
  | send data =>
    simp only [callInLoop]
    split
    case isTrue hc => exact h.of_direct (hlive hc (by decide)) data r
    case isFalse => exact h
  | sendBuffer buf | sendBufferMove buf =>
    simp only [callInLoop, sendInLoopBuf_fst]
    split
    case isTrue hc => exact h.of_direct (hlive hc (by decide)) buf r
    case isFalse => exact h
  | sendOutputBuf =>
    simp only [callInLoop]
    split
    · exact streamInv_sendOutputBuf h r
    · exact h
  | shutdown =>
    simp only [callInLoop]
    split
    · exact streamInv_shutdownInLoop h w.accepted
    · exact h
  | forceClose =>
    simp only [callInLoop]
    split
    · exact streamInv_forceCloseInLoop hquiet h
    · exact h
  | forceCloseDelay =>
    simp only [callInLoop]
    split
    · exact h.of_plain (Plain.of_eq rfl rfl rfl rfl) fun hd => hd
    · exact h
  | enableRead => exact h.of_plain (silent_enableReadInLoop w).plain fun hd =>
      (silent_enableReadInLoop w).state ▸ hd
  | disableRead => exact h.of_plain (silent_disableReadInLoop w).plain fun hd =>
      (silent_disableReadInLoop w).state ▸ hd
  | enableWrite => exact h.of_plain (silent_enableWriteInLoop w).plain fun hd =>
      (silent_enableWriteInLoop w).state ▸ hd
  | disableWrite => exact h.of_plain (silent_disableWriteInLoop w).plain fun hd =>
      (silent_disableWriteInLoop w).state ▸ hd
  | setHighWaterMark bytes => exact h.of_plain (Plain.of_eq rfl rfl rfl rfl) fun hd => hd
  | setTcpHandler handler => exact h.of_plain (Plain.of_eq rfl rfl rfl rfl) fun hd => hd

/-- A task that does not send keeps the stream. -/
theorem streamInv_runTask (h : StreamInv w) (r : WriteResult) {t : Task}
    (ht : t.plain = true) : StreamInv (w.runTask r onClose t) := by
  cases t with
  | sendInLoopStr tag data => cases ht
  | sendInLoopBuf tag buf => cases ht
  | sendOutputBufInLoop => exact streamInv_sendOutputBuf h r
  | shutdownInLoop mark => exact streamInv_shutdownInLoop h mark
  | forceCloseInLoop => exact streamInv_forceCloseInLoop hquiet h
  | enableReadInLoop => exact streamInv_callInLoop hquiet h r .enableRead
  | disableReadInLoop => exact streamInv_callInLoop hquiet h r .disableRead
  | enableWriteInLoop => exact streamInv_callInLoop hquiet h r .enableWrite
  | disableWriteInLoop => exact streamInv_callInLoop hquiet h r .disableWrite
  | removeItself => exact streamInv_removeItself hquiet h
  | onWriteComplete => exact h.of_plain ((Plain.refl w).emit rfl) fun hd => hd
  | onHighWaterMark len => exact h.of_plain ((Plain.refl w).emit rfl) fun hd => hd
  | tie => exact h

/-- The next task of the queue keeps the stream. -/
theorem streamInv_nextTask (h : StreamInv w) (r : WriteResult) {t : Task} {q : TaskQueue Task}
    (hnext : w.loop.nextTask = some (t, q)) :
    StreamInv ({ w with loop := q }.runTask r onClose t) := by
  have htasks : queued w.loop.tasks = queued [t] ++ queued q.tasks := by
    rw [TaskQueue.tasks_nextTask hnext, ← queued_append, List.singleton_append]
  by_cases ht : t.plain = true
  · have hnil : queued [t] = [] := queued_of_plain (by simpa using ht)
    have hq : StreamInv { w with loop := q } :=
      h.of_log (l := []) (by simp) rfl rfl rfl rfl rfl (by rw [htasks, hnil]; rfl) fun hd => hd
    exact streamInv_runTask hquiet hq r ht
  · cases t with
    | sendInLoopStr tag data => exact h.of_queued htasks r
    | sendInLoopBuf tag buf =>
      simp only [runTask, sendInLoopBuf_fst]
      exact h.of_queued htasks r
    | _ => exact absurd rfl ht

end Closing

/-- A public method called from another thread keeps the stream. -/
theorem streamInv_callForeign (h : StreamInv w) (thread : ℕ) (seen : State) (c : Call) :
    StreamInv (w.callForeign thread seen c) := by
  have hqueue : ∀ {t : Task}, t.plain = true → StreamInv (w.queueInLoop t) := fun ht =>
    h.of_plain ((Plain.refl w).queueInLoop ht) fun hd => hd
  cases c with
  | send data | sendBuffer data =>
    simp only [callForeign]
    split
    · exact h.of_foreign rfl
    · exact h
  | sendBufferMove buf =>
    simp only [callForeign]
    split
    · exact h.of_foreign rfl
    · exact h
  | sendOutputBuf | shutdown | forceClose =>
    simp only [callForeign]
    split
    · exact hqueue rfl
    · exact h
  | forceCloseDelay =>
    simp only [callForeign]
    split
    · exact h.of_plain (Plain.of_eq rfl rfl rfl rfl) fun hd => hd
    · exact h
  | enableRead | disableRead | enableWrite | disableWrite => exact hqueue rfl
  | setHighWaterMark bytes => exact h
  | setTcpHandler handler => exact h

/-- **Every step keeps the stream.** -/
theorem streamInv_step (w : TcpConnection) (i : Input) (w' : TcpConnection) (h : StreamInv w)
    (hstep : step w i = some w') : StreamInv w' := by
  cases i with
  | onConnection =>
    simp only [step] at hstep
    split at hstep
    case isFalse => cases hstep
    case isTrue hc =>
      obtain rfl := Option.some.inj hstep
      have hlive : w.state ≠ .disconnected := by
        rw [hc]
        decide
      have hplain : Plain w { w with state := .connected }.enableReadEvent :=
        Plain.of_eq rfl rfl rfl rfl
      split
      · exact h.of_plain (hplain.emit rfl) fun _ => hlive
      · exact h.of_plain hplain fun _ => hlive
  | handleRead r onClose =>
    obtain rfl := Option.some.inj hstep
    exact streamInv_handleRead (quiet_runOnClose onClose) h r
  | handleWrite r onClose =>
    obtain rfl := Option.some.inj hstep
    exact streamInv_handleWrite (quiet_runOnClose onClose) h r
  | handleClose onClose =>
    obtain rfl := Option.some.inj hstep
    exact streamInv_handleClose (quiet_runOnClose onClose) h
  | handleError =>
    obtain rfl := Option.some.inj hstep
    exact h
  | call c r onClose =>
    obtain rfl := Option.some.inj hstep
    exact streamInv_callInLoop (quiet_runOnClose onClose) h r c
  | foreign thread seen c =>
    simp only [step] at hstep
    split at hstep
    case isFalse => cases hstep
    case isTrue =>
      obtain rfl := Option.some.inj hstep
      exact streamInv_callForeign h thread seen c
  | teardown onClose =>
    obtain rfl := Option.some.inj hstep
    exact streamInv_removeItself (quiet_runOnClose onClose) h
  | foreignTeardown =>
    obtain rfl := Option.some.inj hstep
    exact h.of_plain ((Plain.refl w).queueInLoop rfl) fun hd => hd
  | delayedForceClose onClose =>
    simp only [step] at hstep
    split at hstep
    case isFalse => cases hstep
    case isTrue =>
      obtain rfl := Option.some.inj hstep
      have hfired : StreamInv { w with delayed := w.delayed - 1 } :=
        h.of_plain (Plain.of_eq rfl rfl rfl rfl) fun hd => hd
      exact streamInv_forceCloseInLoop (quiet_runOnClose onClose) hfired
  | swapTasks =>
    obtain ⟨q, hq, rfl⟩ := Option.map_eq_some_iff.1 hstep
    exact h.of_log (l := []) (by simp) rfl rfl rfl rfl rfl
      (by rw [TaskQueue.tasks_swapTasks hq]) fun hd => hd
  | nextTask r onClose =>
    obtain ⟨⟨t, q⟩, hq, rfl⟩ := Option.map_eq_some_iff.1 hstep
    exact streamInv_nextTask (quiet_runOnClose onClose) h r hq
  | endTasks =>
    obtain ⟨q, hq, rfl⟩ := Option.map_eq_some_iff.1 hstep
    exact h.of_log (l := []) (by simp) rfl rfl rfl rfl rfl
      (by rw [TaskQueue.tasks_endTasks hq]) fun hd => hd
  | otherUpdate c ch | otherRemove c ch =>
    simp only [step] at hstep
    split at hstep
    case isFalse => cases hstep
    case isTrue =>
      obtain rfl := Option.some.inj hstep
      exact h.of_plain (Plain.of_eq rfl rfl rfl rfl) fun hd => hd

/-- A connection that has just been made has sent nothing. -/
theorem streamInv_init (self : ChanId) (sockfd : ℕ) (connId : ℤ) (handler : Bool) :
    StreamInv (init self sockfd connId handler) :=
  ⟨⟨fun _ _ => rfl, Ledger.nil, rfl⟩, fun _ hp => absurd hp List.not_mem_nil⟩

/-- **The output stream is intact.**  In every state of every run: while the
connection is not disconnected and no write has failed with `EPIPE` or
`ECONNRESET`, the bytes the kernel has accepted and then `outputBuf` are the
payloads of the executed sends, in execution order; and each thread's sends are
executed in the order in which it issued them, none twice. -/
theorem stream_intact (self : ChanId) (sockfd : ℕ) (connId : ℤ) (handler : Bool)
    (is : List Input) : Always step StreamOk (init self sockfd connId handler) is :=
  (always_invariant streamInv_step (streamInv_init self sockfd connId handler)).mono
    fun _ h => h.toStreamOk

end TcpConnection
end Net
end Sevent
