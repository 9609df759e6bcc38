/-
# What the functions of a connection do to its output

The functions of `TcpConnection` share `outputBuf`, the write interest and the
task queue.  This file says once what each of them does there.

`OutputStream` is what a connection is for on its sending side: pending bytes,
and whether the loop waits for the descriptor to become writable.  `push` takes
the payload of one `send`, `flush` tries to write the pending bytes.  The three
sending functions refine them (`sendInLoop_output`, `sendInLoopBuf_output`,
`sendOutputBufInLoop_output`).

Everything else is `Plain`: it neither sends nor writes, it leaves the pending
bytes alone, and what it logs and queues is a callback or a close.
-/

import Sevent.Net.TcpConnection

namespace Sevent
namespace Net
namespace TcpConnection

/-! ### The parts of a log and of a queue -/

/-- The bytes that the kernel has accepted. -/
def written (log : List Act) : List UInt8 :=
  log.flatMap fun a => match a with
    | .write data => data
    | _ => []

/-- The sends that were executed, in execution order. -/
def executed (log : List Act) : List (Tag × List UInt8) :=
  log.filterMap fun a => match a with
    | .execute tag data => some (tag, data)
    | _ => none

/-- The calls of `send` that were accepted, in order. -/
def sends (log : List Act) : List (Tag × List UInt8) :=
  log.filterMap fun a => match a with
    | .send tag data => some (tag, data)
    | _ => none

/-- The sends among the tasks. -/
def queued (tasks : List Task) : List (Tag × List UInt8) :=
  tasks.filterMap fun t => match t with
    | .sendInLoopStr tag data => some (tag, data)
    | .sendInLoopBuf tag buf => some (tag, buf)
    | _ => none

/-- The payloads of a list of sends, one after the other. -/
def payloads (l : List (Tag × List UInt8)) : List UInt8 := l.flatMap Prod.snd

/-- A write has failed with `EPIPE` or `ECONNRESET`. -/
def Broken (log : List Act) : Prop := ∃ e, dealErr e = true ∧ Act.writeErr e ∈ log

/-- What is written in two parts of a log. -/
@[simp]
theorem written_append (l l' : List Act) : written (l ++ l') = written l ++ written l' :=
  List.flatMap_append

/-- What is executed in two parts of a log. -/
@[simp]
theorem executed_append (l l' : List Act) : executed (l ++ l') = executed l ++ executed l' :=
  List.filterMap_append

/-- What is sent in two parts of a log. -/
@[simp]
theorem sends_append (l l' : List Act) : sends (l ++ l') = sends l ++ sends l' :=
  List.filterMap_append

/-- The sends in two parts of a queue. -/
@[simp]
theorem queued_append (l l' : List Task) : queued (l ++ l') = queued l ++ queued l' :=
  List.filterMap_append

/-- The payloads of two lists of sends. -/
@[simp]
theorem payloads_append (l l' : List (Tag × List UInt8)) :
    payloads (l ++ l') = payloads l ++ payloads l' :=
  List.flatMap_append

/-- The payload of one send. -/
@[simp]
theorem payloads_singleton (p : Tag × List UInt8) : payloads [p] = p.2 := by
  simp [payloads]

/-- A connection that was broken once stays so. -/
theorem Broken.append {l : List Act} (h : Broken l) (l' : List Act) : Broken (l ++ l') := by
  obtain ⟨e, he, hl⟩ := h
  exact ⟨e, he, List.mem_append_left _ hl⟩

/-- A callback or a close: nothing is sent, written or shut down. -/
def Act.plain : Act → Bool
  | .send .. | .execute .. | .write _ | .writeErr _ | .shutdown _ | .shutdownWrite _ => false
  | _ => true

/-- A task that does not send. -/
def Task.plain : Task → Bool
  | .sendInLoopStr .. | .sendInLoopBuf .. => false
  | _ => true

/-- Plain entries of a log are no writes. -/
theorem written_of_plain {l : List Act} (h : ∀ a ∈ l, a.plain = true) : written l = [] := by
  refine List.flatMap_eq_nil_iff.2 fun a ha => ?_
  have := h a ha
  cases a <;> simp_all [Act.plain]

/-- Plain entries of a log are no executions of a send. -/
theorem executed_of_plain {l : List Act} (h : ∀ a ∈ l, a.plain = true) : executed l = [] := by
  refine List.filterMap_eq_nil_iff.2 fun a ha => ?_
  have := h a ha
  cases a <;> simp_all [Act.plain]

/-- Plain entries of a log are no calls of `send`. -/
theorem sends_of_plain {l : List Act} (h : ∀ a ∈ l, a.plain = true) : sends l = [] := by
  refine List.filterMap_eq_nil_iff.2 fun a ha => ?_
  have := h a ha
  cases a <;> simp_all [Act.plain]

/-- Plain tasks are no sends. -/
theorem queued_of_plain {l : List Task} (h : ∀ t ∈ l, t.plain = true) : queued l = [] := by
  refine List.filterMap_eq_nil_iff.2 fun t ht => ?_
  have := h t ht
  cases t <;> simp_all [Task.plain]

/-! ### Functions that do not send -/

/-- `w'` comes from `w` without sending or writing. -/
structure Plain (w w' : TcpConnection) : Prop where
  outputBuf : w'.outputBuf = w.outputBuf
  accepted : w'.accepted = w.accepted
  log : ∃ l, w'.log = w.log ++ l ∧ ∀ a ∈ l, a.plain = true
  tasks : ∃ ts, w'.loop.tasks = w.loop.tasks ++ ts ∧ ∀ t ∈ ts, t.plain = true

namespace Plain

variable {w w' w'' : TcpConnection}

/-- Only fields that the output does not depend on have changed. -/
theorem of_eq (hbuf : w'.outputBuf = w.outputBuf) (hacc : w'.accepted = w.accepted)
    (hlog : w'.log = w.log) (htasks : w'.loop = w.loop) : Plain w w' :=
  ⟨hbuf, hacc, ⟨[], by simp [hlog]⟩, ⟨[], by simp [htasks]⟩⟩

/-- A function that does nothing is plain. -/
theorem refl (w : TcpConnection) : Plain w w := of_eq rfl rfl rfl rfl

/-- Two plain functions, one after the other. -/
theorem trans (h : Plain w w') (h' : Plain w' w'') : Plain w w'' := by
  obtain ⟨l, hl, hlp⟩ := h.log
  obtain ⟨l', hl', hlp'⟩ := h'.log
  obtain ⟨ts, hts, htsp⟩ := h.tasks
  obtain ⟨ts', hts', htsp'⟩ := h'.tasks
  refine ⟨h'.outputBuf.trans h.outputBuf, h'.accepted.trans h.accepted,
    ⟨l ++ l', by rw [hl', hl, List.append_assoc], ?_⟩,
    ⟨ts ++ ts', by rw [hts', hts, List.append_assoc], ?_⟩⟩
  · intro a ha
    exact (List.mem_append.1 ha).elim (hlp a) (hlp' a)
  · intro t ht
    exact (List.mem_append.1 ht).elim (htsp t) (htsp' t)

/-- An entry of the log that is neither a write nor a send keeps a function
plain. -/
theorem emit (h : Plain w w') {a : Act} (ha : a.plain = true) : Plain w (w'.emit a) :=
  h.trans ⟨rfl, rfl, ⟨[a], by simp, by simpa using ha⟩, ⟨[], by simp⟩⟩

/-- A task that is no send keeps a function plain. -/
theorem queueInLoop (h : Plain w w') {t : Task} (ht : t.plain = true) :
    Plain w (w'.queueInLoop t) :=
  h.trans ⟨rfl, rfl, ⟨[], by simp⟩, ⟨[t], by simp, by simpa using ht⟩⟩

/-- An update of the channel's events sends nothing. -/
theorem updateEvent (h : Plain w w') (events : Events) : Plain w (w'.updateEvent events) :=
  h.trans (of_eq rfl rfl rfl rfl)

/-- The removal of the channel sends nothing. -/
theorem remove (h : Plain w w') : Plain w w'.remove := h.trans (of_eq rfl rfl rfl rfl)

/-- A plain function writes nothing. -/
theorem written (h : Plain w w') : written w'.log = TcpConnection.written w.log := by
  obtain ⟨l, hl, hlp⟩ := h.log
  rw [hl, written_append, written_of_plain hlp, List.append_nil]

/-- A plain function executes no send. -/
theorem executed (h : Plain w w') : executed w'.log = TcpConnection.executed w.log := by
  obtain ⟨l, hl, hlp⟩ := h.log
  rw [hl, executed_append, executed_of_plain hlp, List.append_nil]

/-- A plain function calls no `send`. -/
theorem sends (h : Plain w w') : sends w'.log = TcpConnection.sends w.log := by
  obtain ⟨l, hl, hlp⟩ := h.log
  rw [hl, sends_append, sends_of_plain hlp, List.append_nil]

/-- A plain function leaves the queued sends as they are. -/
theorem queued (h : Plain w w') : queued w'.loop.tasks = TcpConnection.queued w.loop.tasks := by
  obtain ⟨ts, hts, htsp⟩ := h.tasks
  rw [hts, queued_append, queued_of_plain htsp, List.append_nil]

/-- A plain function does not meet the errors that break a connection. -/
theorem broken (h : Plain w w') : Broken w'.log ↔ Broken w.log := by
  obtain ⟨l, hl, hlp⟩ := h.log
  rw [hl]
  refine ⟨fun ⟨e, he, hm⟩ => ⟨e, he, ?_⟩, fun hb => hb.append l⟩
  rcases List.mem_append.1 hm with hm | hm
  · exact hm
  · exact absurd (hlp _ hm) (by simp [Act.plain])

end Plain

variable {w : TcpConnection}

/-! ### Functions that only change the interest -/

/-- The poller's tables agree with the status of the connection's channel, and
its descriptor, while open, is registered for no other channel. -/
def Registered (w : TcpConnection) : Prop :=
  w.poller.Tracks w.self w.channel ∧
    (0 ≤ w.channel.fd → w.poller.Free w.self w.channel.fd)

/-- Updating the events of a registered channel registers it again, with the
poller's knowledge of it up to date. -/
theorem Registered.updateEvent (h : w.Registered) (hfd : 0 ≤ w.channel.fd) (events : Events) :
    (w.updateEvent events).Registered := by
  obtain ⟨htracks, hfree⟩ := h.1.updateChannel (h.2 hfd) events
  exact ⟨htracks, fun _ => by simpa using hfree⟩

/-- `w'` comes from `w` by changes of the read and write interest and of the two
settings. -/
structure Silent (w w' : TcpConnection) : Prop where
  plain : Plain w w'
  state : w'.state = w.state
  self : w'.self = w.self
  fd : w'.channel.fd = w.channel.fd
  registered : w.Registered → w'.Registered

namespace Silent

variable {w w' w'' : TcpConnection}

/-- A function that does nothing is silent. -/
theorem refl (w : TcpConnection) : Silent w w := ⟨Plain.refl w, rfl, rfl, rfl, fun h => h⟩

/-- Two silent functions, one after the other. -/
theorem trans (h : Silent w w') (h' : Silent w' w'') : Silent w w'' :=
  ⟨h.plain.trans h'.plain, h'.state.trans h.state, h'.self.trans h.self, h'.fd.trans h.fd,
    h'.registered ∘ h.registered⟩

/-- One update of the mask, together with new flags. -/
theorem update (hfd : ¬ w.channel.fd < 0) (events : Events) (isRead isWrite : Bool) :
    Silent w { w.updateEvent events with isRead := isRead, isWrite := isWrite } :=
  ⟨Plain.of_eq rfl rfl rfl rfl, rfl, rfl, by simp, fun h => h.updateEvent (Int.not_lt.1 hfd) events⟩

end Silent

/-- Reading is none of the output's business. -/
theorem silent_enableReadInLoop (w : TcpConnection) : Silent w w.enableReadInLoop := by
  unfold enableReadInLoop
  split_ifs with hfd
  · exact Silent.refl w
  · exact Silent.update hfd _ _ _
  · exact Silent.refl w

/-- Reading is none of the output's business. -/
theorem silent_disableReadInLoop (w : TcpConnection) : Silent w w.disableReadInLoop := by
  unfold disableReadInLoop
  split_ifs with hfd
  · exact Silent.refl w
  · exact Silent.update hfd _ _ _
  · exact Silent.refl w

/-- The interest in writing changes, and what is pending does not. -/
theorem silent_enableWriteInLoop (w : TcpConnection) : Silent w w.enableWriteInLoop := by
  unfold enableWriteInLoop
  split_ifs with hfd
  · exact Silent.refl w
  · exact Silent.update hfd _ _ _
  · exact Silent.refl w

/-- The interest in writing changes, and what is pending does not. -/
theorem silent_disableWriteInLoop (w : TcpConnection) : Silent w w.disableWriteInLoop := by
  unfold disableWriteInLoop
  split_ifs with hfd
  · exact Silent.refl w
  · exact Silent.update hfd _ _ _
  · exact Silent.refl w

/-- **After the close, a call of the loop's thread only changes the interest or
a setting.** -/
theorem silent_callInLoop (h : w.state = .disconnected) (r : WriteResult)
    (onClose : TcpConnection → TcpConnection) (c : Call) : Silent w (w.callInLoop r onClose c) := by
  cases c with
  | enableRead => exact silent_enableReadInLoop w
  | disableRead => exact silent_disableReadInLoop w
  | enableWrite => exact silent_enableWriteInLoop w
  | disableWrite => exact silent_disableWriteInLoop w
  | setHighWaterMark bytes => exact ⟨Plain.of_eq rfl rfl rfl rfl, rfl, rfl, rfl, fun h => h⟩
  | setTcpHandler handler => exact ⟨Plain.of_eq rfl rfl rfl rfl, rfl, rfl, rfl, fun h => h⟩
  | _ =>
    simp only [callInLoop, h, reduceCtorEq, or_self, ↓reduceIte]
    exact Silent.refl w

/-- What user code calls from `onClose` is silent: the connection is closed
already, so its methods do nothing but queue. -/
theorem silent_runOnClose (calls : List Call) (h : w.state = .disconnected) :
    Silent w (runOnClose calls w) := by
  unfold runOnClose
  induction calls generalizing w with
  | nil => exact Silent.refl w
  | cons c calls ih =>
    have hc := silent_callInLoop h (.accepted 0) (fun w => w) c
    exact hc.trans (ih (hc.state.trans h))

/-! ### Closing -/

/-- What the rest of the file asks of the handler's `onClose`. -/
def Quiet (onClose : TcpConnection → TcpConnection) : Prop :=
  ∀ w : TcpConnection, w.state = .disconnected → Silent w (onClose w)

/-- What user code calls from `onClose` sends nothing that counts, whichever
calls these are. -/
theorem quiet_runOnClose (calls : List Call) : Quiet (runOnClose calls) :=
  fun _ h => silent_runOnClose calls h

section Closing

variable {onClose : TcpConnection → TcpConnection} (hquiet : Quiet onClose)
include hquiet

/-- `removeItself` up to `Channel::remove`. -/
theorem silent_onClose (w : TcpConnection) (h : w.state = .disconnected) :
    Silent w (if w.tcpHandler then onClose (w.emit .onClose) else w) := by
  split
  · have hemit : Silent w (w.emit .onClose) :=
      ⟨(Plain.refl w).emit rfl, rfl, rfl, rfl, fun h => h⟩
    exact hemit.trans (hquiet _ h)
  · exact Silent.refl w

/-- `removeItself` is plain: it logs a state and a callback, and queues nothing
that sends. -/
theorem plain_removeItself (w : TcpConnection) : Plain w (w.removeItself onClose) := by
  have hsilent := silent_onClose hquiet { w with state := .disconnected } rfl
  have hstate : Plain w { w with state := .disconnected } := Plain.of_eq rfl rfl rfl rfl
  exact (hstate.trans hsilent.plain).remove

/-- `removeItself` leaves the connection disconnected, whatever user code does
in `onClose`. -/
theorem removeItself_state (w : TcpConnection) :
    (w.removeItself onClose).state = .disconnected :=
  (silent_onClose hquiet { w with state := .disconnected } rfl).state

/-- `handleClose` is plain. -/
theorem plain_handleClose (w : TcpConnection) : Plain w (w.handleClose onClose) := by
  unfold handleClose
  split
  · exact Plain.refl w
  · exact ((plain_removeItself hquiet w).queueInLoop rfl).emit rfl

/-- `handleClose` leaves the connection disconnected. -/
theorem handleClose_state (w : TcpConnection) :
    (w.handleClose onClose).state = .disconnected := by
  unfold handleClose
  split
  case isTrue h => exact h
  case isFalse => exact removeItself_state hquiet w

/-- `forceCloseInLoop` is plain, since it is `handleClose` or nothing. -/
theorem plain_forceCloseInLoop (w : TcpConnection) : Plain w (w.forceCloseInLoop onClose) := by
  unfold forceCloseInLoop
  split
  · have hstate : Plain w { w with state := .disconnecting } := Plain.of_eq rfl rfl rfl rfl
    have hclose := hstate.trans (plain_handleClose hquiet { w with state := .disconnecting })
    exact (hclose.trans (Plain.of_eq rfl rfl rfl rfl)).emit rfl |>.trans
      (Plain.of_eq rfl rfl rfl rfl)
  · exact Plain.refl w

/-- `forceCloseInLoop` does nothing or disconnects. -/
theorem forceCloseInLoop_state (w : TcpConnection) :
    w.forceCloseInLoop onClose = w ∨ (w.forceCloseInLoop onClose).state = .disconnected := by
  unfold forceCloseInLoop
  split
  · exact Or.inr (handleClose_state hquiet { w with state := .disconnecting })
  · exact Or.inl rfl

end Closing

/-! ### Sending -/

/-- The sending side of a connection: the bytes that wait, and whether the loop
waits for the descriptor to become writable. -/
structure OutputStream where
  want : Bool
  pending : List UInt8
  deriving DecidableEq

namespace OutputStream

/-- The payload of one `send`: written at once when nothing waits, and what is
not written waits.  Second the writes it makes. -/
def push (o : OutputStream) (data : List UInt8) (r : WriteResult) : OutputStream × List Act :=
  if o.want = false ∧ o.pending = [] then
    match r with
    | .accepted n =>
      ({ want := !(data.drop n).isEmpty, pending := data.drop n }, [.write (data.take n)])
    | .failed e =>
      if dealErr e then (o, [.writeErr e])
      else ({ want := !data.isEmpty, pending := data }, [.writeErr e])
  else ({ want := o.want || !data.isEmpty, pending := o.pending ++ data }, [])

/-- A write of the waiting bytes when the loop does not wait for the
descriptor. -/
def flush (o : OutputStream) (r : WriteResult) : OutputStream × List Act :=
  if o.want = false ∧ o.pending ≠ [] then
    match r with
    | .accepted n =>
      ({ want := !(o.pending.drop n).isEmpty, pending := o.pending.drop n },
        [.write (o.pending.take n)])
    | .failed e =>
      if dealErr e then (o, [.writeErr e]) else ({ o with want := true }, [.writeErr e])
  else (o, [])

/-- The kernel takes `n` of the waiting bytes while the loop waits for the
descriptor; it stops waiting when the last of them is taken. -/
def drain (o : OutputStream) (n : ℕ) : OutputStream :=
  { want := o.pending.isEmpty || !(o.pending.drop n).isEmpty, pending := o.pending.drop n }

end OutputStream

/-- The sending side of a connection. -/
def output (w : TcpConnection) : OutputStream :=
  { want := w.channel.isEnableWrite, pending := w.outputBuf }

/-- `w'` has the state and the descriptor of `w`, and its channel is registered
as the status says when that of `w` is. -/
structure Keeps (w w' : TcpConnection) : Prop where
  state : w'.state = w.state
  self : w'.self = w.self
  fd : w'.channel.fd = w.channel.fd
  registered : 0 ≤ w.channel.fd → w.Registered → w'.Registered

namespace Keeps

variable {w w' w'' : TcpConnection}

/-- A function that writes none of these fields keeps them. -/
theorem of_eq (hstate : w'.state = w.state) (hself : w'.self = w.self)
    (hchannel : w'.channel = w.channel) (hpoller : w'.poller = w.poller) : Keeps w w' :=
  ⟨hstate, hself, by rw [hchannel], fun _ h => by
    unfold Registered
    rwa [hself, hchannel, hpoller]⟩

/-- Two functions that keep the fields, one after the other. -/
theorem trans (h : Keeps w w') (h' : Keeps w' w'') : Keeps w w'' :=
  ⟨h'.state.trans h.state, h'.self.trans h.self, h'.fd.trans h.fd, fun hfd hreg =>
    h'.registered (h.fd.symm ▸ hfd) (h.registered hfd hreg)⟩

/-- An update of the channel's events keeps the descriptor, and the registration
if there is one. -/
theorem updateEvent (w : TcpConnection) (events : Events) : Keeps w (w.updateEvent events) :=
  ⟨rfl, rfl, by simp, fun hfd h => h.updateEvent hfd events⟩

end Keeps

/-- `w'` comes from `w` by a sending function that logs `acts` and leaves the
sending side `o`. -/
structure Sent (w w' : TcpConnection) (o : OutputStream) (acts : List Act) : Prop
    extends Keeps w w' where
  accepted : w'.accepted = w.accepted
  output : w'.output = o
  log : w'.log = w.log ++ acts
  tasks : ∃ ts, w'.loop.tasks = w.loop.tasks ++ ts ∧ ∀ t ∈ ts, t.plain = true

namespace Sent

variable {w w' w'' : TcpConnection} {o o' : OutputStream} {acts acts' : List Act}

/-- Two functions that write, one after the other: what the second is given is
what the first leaves. -/
theorem trans (h : Sent w w' o acts) (h' : Sent w' w'' o' acts') :
    Sent w w'' o' (acts ++ acts') := by
  obtain ⟨ts, hts, htsp⟩ := h.tasks
  obtain ⟨ts', hts', htsp'⟩ := h'.tasks
  refine ⟨h.toKeeps.trans h'.toKeeps, h'.accepted.trans h.accepted, h'.output,
    by rw [h'.log, h.log, List.append_assoc], ts ++ ts',
    by rw [hts', hts, List.append_assoc], fun t ht => ?_⟩
  exact (List.mem_append.1 ht).elim (htsp t) (htsp' t)

/-- A function that does nothing writes nothing. -/
theorem refl (w : TcpConnection) : Sent w w w.output [] :=
  ⟨.of_eq rfl rfl rfl rfl, rfl, rfl, by simp, [], by simp⟩

/-- What is logged besides. -/
theorem emit (w : TcpConnection) (a : Act) : Sent w (w.emit a) w.output [a] :=
  ⟨.of_eq rfl rfl rfl rfl, rfl, rfl, rfl, [], by simp⟩

/-- A function that writes queues no sends. -/
theorem queued (h : Sent w w' o acts) :
    queued w'.loop.tasks = TcpConnection.queued w.loop.tasks := by
  obtain ⟨ts, hts, htsp⟩ := h.tasks
  rw [hts, queued_append, queued_of_plain htsp, List.append_nil]

end Sent

/-- The task of `onWriteComplete` is no send. -/
theorem sent_writeComplete (w : TcpConnection) : Sent w w.writeComplete w.output [] := by
  unfold writeComplete
  split
  · exact ⟨.of_eq rfl rfl rfl rfl, rfl, rfl, by simp, [.onWriteComplete], by simp,
      by simp [Task.plain]⟩
  · exact Sent.refl w

/-- The task of `onHighWaterMark` is no send. -/
theorem sent_highWater (w : TcpConnection) (remain : ℕ) :
    Sent w (w.highWater remain) w.output [] := by
  unfold highWater
  dsimp only
  split
  · exact ⟨.of_eq rfl rfl rfl rfl, rfl, rfl, by simp,
      [.onHighWaterMark (w.outputBuf.length + remain)], by simp, by simp [Task.plain]⟩
  · exact Sent.refl w

/-- Asking for the descriptor to become writable changes the interest only. -/
theorem sent_wantWrite (w : TcpConnection) :
    Sent w w.wantWrite { want := true, pending := w.outputBuf } [] := by
  unfold wantWrite
  split
  case isTrue h =>
    refine ⟨.of_eq rfl rfl rfl rfl, rfl, ?_, by simp, [], by simp⟩
    simp [output, h]
  case isFalse =>
    refine ⟨.updateEvent w _, rfl, ?_, by simp [enableWriteEvent], [], by simp [enableWriteEvent]⟩
    simp [output, enableWriteEvent, Channel.isEnableWrite, Events.union, Events.WriteEvent]

/-- The end of the two sending functions: `buf` waits from now on. -/
theorem sent_wait (w : TcpConnection) (remain : ℕ) (buf : List UInt8) :
    Sent w { w.highWater remain with outputBuf := buf }.wantWrite
      { want := true, pending := buf } [] := by
  have hhigh := sent_highWater w remain
  have hbuf : Sent w { w.highWater remain with outputBuf := buf }
      { want := (w.highWater remain).channel.isEnableWrite, pending := buf } [] :=
    ⟨hhigh.toKeeps.trans (.of_eq rfl rfl rfl rfl), hhigh.accepted, rfl, hhigh.log, hhigh.tasks⟩
  exact hbuf.trans (sent_wantWrite _)

/-- A direct write of which the kernel takes `n` bytes. -/
theorem sent_writeDirect (w : TcpConnection) (data : List UInt8) (n : ℕ) :
    Sent w (w.writeDirect data (.accepted n)).1 w.output [.write (data.take n)] := by
  rw [List.take_eq_take_min]
  unfold writeDirect
  dsimp only
  split
  · exact (Sent.emit w _).trans (sent_writeComplete _)
  · exact Sent.emit w _

/-- The second half of the sending functions: what is not written waits. -/
theorem sent_rest {w1 w2 : TcpConnection} {acts : List Act} (data : List UInt8) (n : ℕ)
    (h : Sent w1 w2 { want := false, pending := [] } acts) :
    Sent w1 (if data.length - min n data.length > 0 then
        { w2.highWater (data.length - min n data.length) with
          outputBuf := w2.outputBuf ++ data.drop (min n data.length) }.wantWrite
      else w2) { want := !(data.drop n).isEmpty, pending := data.drop n } acts := by
  have hpend : w2.outputBuf = [] := congrArg OutputStream.pending h.output
  have hlen : data.length - min n data.length = (data.drop n).length := by
    rw [List.drop_eq_drop_min, List.length_drop]
  rw [hlen, hpend, List.nil_append, ← List.drop_eq_drop_min]
  cases hrest : data.drop n with
  | nil => simpa using h
  | cons b rest =>
    have hwait := h.trans (sent_wait w2 (b :: rest).length (b :: rest))
    simpa using hwait

/-- **`sendInLoop` is one `push`.** -/
theorem sendInLoop_output (hstate : w.state ≠ .disconnected) (tag : Tag) (data : List UInt8)
    (r : WriteResult) :
    Sent w (w.sendInLoop tag data r) (w.output.push data r).1
      (.execute tag data :: (w.output.push data r).2) := by
  have hexec := Sent.emit w (.execute tag data)
  generalize hw1 : w.emit (.execute tag data) = w1 at hexec
  have hout : w1.output = w.output := hexec.output
  unfold sendInLoop OutputStream.push
  rw [if_neg hstate]
  simp only [hw1]
  by_cases hdirect : w.output.want = false ∧ w.output.pending = []
  · have hnil : w.output = { want := false, pending := [] } := by
      rw [← hdirect.1, ← hdirect.2]
    have hcond : w1.channel.isEnableWrite = false ∧ w1.outputBuf.length = 0 := by
      rw [← hout] at hdirect
      simpa [output] using hdirect
    rw [if_pos hcond, if_pos hdirect]
    cases r with
    | accepted n =>
      have hwrite := hexec.trans (sent_writeDirect w1 data n)
      rw [hout, hnil] at hwrite
      have hrest := sent_rest data n hwrite
      simpa [writeDirect] using hrest
    | failed e =>
      have herr := hexec.trans (Sent.emit w1 (.writeErr e))
      rw [hout, hnil] at herr
      by_cases he : dealErr e = true
      · simpa [writeDirect, he, hnil] using herr
      · have hrest := sent_rest data 0 herr
        simpa [writeDirect, he] using hrest
  · have hcond : ¬ (w1.channel.isEnableWrite = false ∧ w1.outputBuf.length = 0) := by
      rw [← hout] at hdirect
      simpa [output] using hdirect
    have hpend : w1.outputBuf = w.output.pending := congrArg OutputStream.pending hout
    rw [if_neg hcond, if_neg hdirect]
    cases data with
    | nil =>
      rw [← hout] at hexec ⊢
      simpa using hexec
    | cons b rest =>
      have hwait := hexec.trans (sent_wait w1 (b :: rest).length (w1.outputBuf ++ b :: rest))
      simpa [hpend] using hwait

/-- The swap and the append of `sendInLoopBuf` have the same result. -/
theorem sendInLoopBuf_fst (w : TcpConnection) (tag : Tag) (buf : List UInt8) (r : WriteResult) :
    (w.sendInLoopBuf tag buf r).1 = w.sendInLoop tag buf r := by
  unfold sendInLoopBuf sendInLoop
  split
  · rfl
  · generalize w.emit (.execute tag buf) = w1
    dsimp only
    generalize (if w1.channel.isEnableWrite = false ∧ w1.outputBuf.length = 0 then
      w1.writeDirect buf r else (w1, 0, false)) = direct
    obtain ⟨w2, n, isErr⟩ := direct
    dsimp only
    split
    · split
      case isTrue hempty =>
        rw [List.length_eq_zero_iff.1 hempty, List.nil_append]
      case isFalse =>
        rw [← List.length_drop, List.take_length]
    · rfl

/-- **`sendInLoopBuf` is one `push`.** -/
theorem sendInLoopBuf_output (hstate : w.state ≠ .disconnected) (tag : Tag) (buf : List UInt8)
    (r : WriteResult) :
    Sent w (w.sendInLoopBuf tag buf r).1 (w.output.push buf r).1
      (.execute tag buf :: (w.output.push buf r).2) := by
  rw [sendInLoopBuf_fst]
  exact sendInLoop_output hstate tag buf r

/-- **`sendOutputBufInLoop` is one `flush`.** -/
theorem sendOutputBufInLoop_output (hstate : w.state ≠ .disconnected) (r : WriteResult) :
    Sent w (w.sendOutputBufInLoop r) (w.output.flush r).1 (w.output.flush r).2 := by
  unfold sendOutputBufInLoop OutputStream.flush
  rw [if_neg hstate]
  dsimp only
  by_cases hdirect : w.output.want = false ∧ w.output.pending ≠ []
  · have hcond : w.channel.isEnableWrite = false ∧ w.outputBuf.length > 0 :=
      ⟨hdirect.1, List.length_pos_iff.2 hdirect.2⟩
    rw [if_pos hcond, if_pos hdirect]
    cases r with
    | accepted n =>
      have hwrite := sent_writeDirect w w.outputBuf n
      have hpend : (w.writeDirect w.outputBuf (.accepted n)).1.outputBuf = w.outputBuf :=
        congrArg OutputStream.pending hwrite.output
      have hwant : (w.writeDirect w.outputBuf (.accepted n)).1.channel.isEnableWrite = false :=
        (congrArg OutputStream.want hwrite.output).trans hdirect.1
      have hlen : w.outputBuf.length - min n w.outputBuf.length = (w.outputBuf.drop n).length := by
        rw [List.drop_eq_drop_min, List.length_drop]
      have hdrop : Sent w { (w.writeDirect w.outputBuf (.accepted n)).1 with
          outputBuf := w.outputBuf.drop n } { want := false, pending := w.outputBuf.drop n }
          [.write (w.outputBuf.take n)] :=
        ⟨hwrite.toKeeps.trans (.of_eq rfl rfl rfl rfl), hwrite.accepted, by simp [output, hwant],
          hwrite.log, hwrite.tasks⟩
      have hrest : (w.writeDirect w.outputBuf (.accepted n)).2 =
          (min n w.outputBuf.length, false) := rfl
      simp only [hrest, hpend, hlen, ← List.drop_eq_drop_min, true_and]
      cases hnil : w.outputBuf.drop n with
      | nil => simpa [hnil, output] using hdrop
      | cons b rest =>
        rw [hnil] at hdrop
        have hwait := hdrop.trans (sent_wantWrite _)
        simpa [hnil, output] using hwait
    | failed e =>
      have herr := Sent.emit w (.writeErr e)
      by_cases he : dealErr e = true
      · simpa [writeDirect, he, emit] using herr
      · have hwait := herr.trans (sent_wantWrite _)
        have hpos : 0 < w.outputBuf.length := hcond.2
        simpa [writeDirect, he, hpos, output, emit] using hwait
  · have hcond : ¬ (w.channel.isEnableWrite = false ∧ w.outputBuf.length > 0) :=
      fun h => hdirect ⟨h.1, List.length_pos_iff.1 h.2⟩
    rw [if_neg hcond, if_neg hdirect]
    dsimp only
    split
    case isTrue hpos =>
      -- the loop waits for the descriptor already
      have hwant : w.channel.isEnableWrite = true := by
        by_contra hne
        exact hcond ⟨by simpa using hne, hpos.2⟩
      unfold wantWrite
      rw [if_pos hwant]
      exact Sent.refl w
    case isFalse => exact Sent.refl w

/-- The end of `handleWrite` when nothing is left. -/
theorem sent_drained (hbuf : w.outputBuf = []) :
    Sent w w.drained { want := false, pending := [] }
      (if w.state = .disconnecting then [.shutdownWrite []] else []) := by
  have hdisable : Sent w w.disableWriteEvent { want := false, pending := [] } [] := by
    refine ⟨.updateEvent w _, rfl, ?_, by simp [disableWriteEvent], [], by simp [disableWriteEvent]⟩
    simp [output, disableWriteEvent, Channel.isEnableWrite, Events.diff, Events.WriteEvent, hbuf]
  have hcomplete := hdisable.trans (sent_writeComplete w.disableWriteEvent)
  rw [hdisable.output] at hcomplete
  have hpend : w.disableWriteEvent.writeComplete.outputBuf = [] :=
    congrArg OutputStream.pending hcomplete.output
  unfold drained
  dsimp only
  rw [hcomplete.state, hpend]
  split
  · have hshut := hcomplete.trans (Sent.emit _ (.shutdownWrite []))
    rw [hcomplete.output] at hshut
    exact hshut
  · exact hcomplete

/-- **`handleWrite` is one `drain`**, and half-closes the connection when that
leaves nothing to wait for. -/
theorem handleWrite_output (hstate : w.state ≠ .disconnected)
    (hwant : w.channel.isEnableWrite = true) (n : ℕ)
    (onClose : TcpConnection → TcpConnection) :
    Sent w (w.handleWrite (.accepted n) onClose) (w.output.drain n)
      (.write (w.outputBuf.take n) ::
        if (w.output.drain n).want = false ∧ w.state = .disconnecting then [.shutdownWrite []]
        else []) := by
  have hwrite := Sent.emit w (.write (w.outputBuf.take n))
  unfold handleWrite
  rw [if_neg hstate, if_pos hwant]
  dsimp only
  rw [← List.take_eq_take_min, emit_outputBuf, ← List.drop_eq_drop_min]
  have hdrop : Sent w { w.emit (.write (w.outputBuf.take n)) with outputBuf := w.outputBuf.drop n }
      { want := true, pending := w.outputBuf.drop n } [.write (w.outputBuf.take n)] :=
    ⟨.of_eq rfl rfl rfl rfl, rfl, by simp [output, hwant], hwrite.log, hwrite.tasks⟩
  cases hbuf : w.outputBuf with
  | nil => simpa [OutputStream.drain, output, hbuf, hwant] using hwrite
  | cons b rest =>
    cases n with
    | zero => simpa [OutputStream.drain, output, hbuf, hwant] using hwrite
    | succ n =>
      rw [hbuf, List.drop_succ_cons] at hdrop
      cases hleft : rest.drop n with
      | nil =>
        have hlen : rest.length ≤ n := List.drop_eq_nil_iff.1 hleft
        rw [hleft] at hdrop
        have hdone := hdrop.trans (sent_drained rfl)
        simpa [OutputStream.drain, output, hbuf, hleft, hlen] using hdone
      | cons c left =>
        have hlen : ¬ rest.length ≤ n := fun h => by simp [List.drop_eq_nil_of_le h] at hleft
        simpa [OutputStream.drain, output, hbuf, hleft, hlen] using hdrop

end TcpConnection
end Net
end Sevent
