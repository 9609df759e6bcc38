/-
# What a function of `TcpConnection` can do up to its callback

`sevent/net/TcpConnection.cpp`.

The functions of `Sevent.Net.ConnCalls` fall into few kinds.  Most only write to
the socket, buffer the rest and queue a notification for the handler that is set
(`Io`, for the functions that send: `io_sendInLoop`, `io_sendOutputBufInLoop`,
`io_handleError`), or find the connection closed and do nothing.  `Did` names
the kinds, and `run_did` says of which kind each function is.
-/

import Sevent.Net.ConnCalls

namespace Sevent
namespace Net
namespace Service

/-- Calls of the kernel on the descriptor, but for its `close`. -/
def Act.isIo : Act → Bool
  | .read | .write | .shutdownWrite | .getSocketError => true
  | _ => false

/-- A function that may turn out to have nothing to do. -/
def ConnOp.quiet : ConnOp → Bool
  | .handleClose | .handleError | .handleRead | .handleWrite | .tie => true
  | .sendInLoop _ | .sendOutputBufInLoop | .shutdownInLoop | .forceCloseInLoop | .addTimer => true
  | _ => false

/-- The ends of functions that a callback cuts, and that of `forceCloseInLoop`. -/
def ConnOp.isTail : ConnOp → Bool
  | .channelRemove | .queueTie | .removeConnection | .closeFd => true
  | _ => false

/-- Whether the function comes to `handleClose` of a connection that is not
closed yet. -/
def ConnOp.closes (k : Conn) (ch : Choice) : ConnOp → Bool
  | .handleClose => k.state != .disconnected
  | .handleRead => k.state != .disconnected && ch.read == .eof
  | .handleWrite =>
    k.state != .disconnected && k.events.write &&
      match ch.write with
      | .failed _ => true
      | .accepted _ => false
  | .forceCloseInLoop => k.state == .connected || k.state == .disconnecting
  | _ => false

namespace Outcome

variable {o o' o'' : Outcome}

/-! ### Input and output -/

/-- From `o` to `o'` only the socket and `outputBuf` were used: notifications
are queued for the handler that is set. -/
structure Io (o o' : Outcome) : Prop where
  conn : ∃ e r b, o'.conn = { o.conn with events := e, registered := r, outputBuf := b }
  ops : o'.ops = o.ops
  acts : ∃ as, o'.acts = o.acts ++ as ∧ ∀ a ∈ as, a.isIo = true
  queued : ∃ qs, o'.queued = o.queued ++ qs ∧
    ∀ q ∈ qs, ∃ h, q.boundTo = some h ∧ o.conn.tcpHandler = some h

/-- Nothing done is input and output. -/
theorem Io.refl (o : Outcome) : Io o o :=
  ⟨⟨_, _, _, rfl⟩, rfl, ⟨[], by simp⟩, ⟨[], by simp⟩⟩

/-- Two functions of this kind, one after the other. -/
theorem Io.trans (h : Io o o') (h' : Io o' o'') : Io o o'' := by
  obtain ⟨⟨e, r, b, hc⟩, hops, ⟨as, ha, hio⟩, ⟨qs, hq, hb⟩⟩ := h
  obtain ⟨⟨e', r', b', hc'⟩, hops', ⟨as', ha', hio'⟩, ⟨qs', hq', hb'⟩⟩ := h'
  have hh : o'.conn.tcpHandler = o.conn.tcpHandler := by rw [hc]
  refine ⟨⟨e', r', b', by rw [hc', hc]⟩, hops'.trans hops,
    ⟨as ++ as', by rw [ha', ha, List.append_assoc], ?_⟩,
    ⟨qs ++ qs', by rw [hq', hq, List.append_assoc], ?_⟩⟩
  · intro a hmem
    exact (List.mem_append.1 hmem).elim (hio a) (hio' a)
  · intro q hmem
    rcases List.mem_append.1 hmem with hmem | hmem
    · exact hb q hmem
    · exact hh ▸ hb' q hmem

/-- Input and output leave the state. -/
theorem Io.state (h : Io o o') : o'.conn.state = o.conn.state := by
  obtain ⟨e, r, b, hc⟩ := h.conn
  rw [hc]

/-- A call of the kernel is of this kind. -/
theorem io_emit {a : Act} (ha : a.isIo = true) : Io o (o.emit a) :=
  ⟨⟨_, _, _, rfl⟩, rfl, ⟨[a], rfl, by simpa using ha⟩, ⟨[], by simp⟩⟩

/-- What is buffered is of this kind. -/
theorem io_setOutputBuf (len : ℕ) : Io o (o.setOutputBuf len) :=
  ⟨⟨_, _, _, rfl⟩, rfl, ⟨[], by simp [setOutputBuf]⟩, ⟨[], by simp [setOutputBuf]⟩⟩

/-- A change of the channel's events is of this kind. -/
theorem io_updateEvent (e : Events) : Io o (o.updateEvent e) :=
  ⟨⟨_, _, _, rfl⟩, rfl, ⟨[], by simp⟩, ⟨[], by simp⟩⟩

/-- A task is of this kind when it is a notification bound to the handler that
is set. -/
theorem io_queueInLoop {cb : ConnOp} {h : ℕ} (hcb : cb.boundTo = some h)
    (hh : o.conn.tcpHandler = some h) : Io o (o.queueInLoop cb) :=
  ⟨⟨_, _, _, rfl⟩, rfl, ⟨[], by simp⟩, ⟨[cb], rfl, by simp [hcb, hh]⟩⟩

/-- Queuing `onWriteComplete` is of this kind; without a handler nothing is
queued. -/
theorem io_writeComplete : Io o o.writeComplete := by
  unfold writeComplete
  split
  · next h hh => exact io_queueInLoop rfl hh
  · exact .refl o

/-- Queuing `onHighWaterMark` is of this kind; without a handler nothing is
queued. -/
theorem io_highWater (remain : ℕ) : Io o (o.highWater remain) := by
  simp only [highWater]
  split
  · split
    · next h hh => exact io_queueInLoop rfl hh
    · exact .refl o
  · exact .refl o

/-- Waiting for the descriptor to become writable is of this kind. -/
theorem io_wantWrite : Io o o.wantWrite := by
  unfold wantWrite
  split
  · exact .refl o
  · exact io_updateEvent _

/-- A direct write is of this kind, however it ends. -/
theorem io_writeDirect (len : ℕ) (r : WriteResult) : Io o (o.writeDirect len r).1 := by
  cases r with
  | accepted n =>
    have hw : Io o (o.emit .write) := io_emit rfl
    simp only [writeDirect]
    split
    · exact hw.trans io_writeComplete
    · exact hw
  | failed e => exact io_emit rfl

/-- What is not written is buffered, if no error says that it is no use. -/
theorem io_buffer (isErr : Bool) (remain : ℕ) :
    Io o (if isErr = false ∧ remain > 0 then
      ((o.highWater remain).setOutputBuf (o.conn.outputBuf + remain)).wantWrite else o) := by
  split
  · exact ((io_highWater _).trans (io_setOutputBuf _)).trans io_wantWrite
  · exact .refl o

/-- `sendInLoop` is of this kind. -/
theorem io_sendInLoop (len : ℕ) (r : WriteResult) : Io o (o.sendInLoop len r) := by
  simp only [sendInLoop]
  split
  · exact .refl o
  · split
    · exact (io_writeDirect len r).trans (io_buffer _ _)
    · exact io_buffer false len

/-- `sendOutputBufInLoop` is of this kind. -/
theorem io_sendOutputBufInLoop (r : WriteResult) : Io o (o.sendOutputBufInLoop r) := by
  have hwant (p : Outcome) (P : Prop) [Decidable P] : Io p (if P then p.wantWrite else p) := by
    split
    · exact io_wantWrite
    · exact .refl p
  simp only [sendOutputBufInLoop]
  split
  · exact .refl o
  · split
    · exact ((io_writeDirect _ r).trans (io_setOutputBuf _)).trans (hwant _ _)
    · exact hwant o _

/-- `handleError` is of this kind: it asks for the error of the socket. -/
theorem io_handleError : Io o o.handleError := by
  unfold handleError
  split
  · exact .refl o
  · exact io_emit rfl

/-- What is done when everything has been written is of this kind. -/
theorem io_drained : Io o o.drained := by
  have hw : Io o o.disableWriteEvent.writeComplete := (io_updateEvent _).trans io_writeComplete
  simp only [drained]
  split
  · exact hw.trans (io_emit rfl)
  · exact hw

/-! ### The kinds of functions -/

/-- What a function `op` has done to connection `k`. -/
inductive Did (k : Conn) (ch : Choice) : ConnOp → Outcome → Prop
  | nothing {op : ConnOp} (hq : op.quiet = true) (hc : op.closes k ch = false) :
      Did k ch op (start k)
  | dispatch {revents : Revents} {ops : List ConnOp} (hops : ∀ op ∈ ops, op.isHandler = true) :
      Did k ch (.handleEvent revents) { start k with ops := ops }
  | connect : Did k ch .onConnection ((start k).onConnection ch.script)
  | io {op : ConnOp} {o : Outcome} (hq : op.quiet = true) (hc : op.closes k ch = false)
      (hst : k.state ≠ .disconnected) (h : Io (start k) o) : Did k ch op o
  | message (hst : k.state ≠ .disconnected) :
      Did k ch .handleRead (((start k).emit .read).callback .onMessage ch.script)
  | notify {op : ConnOp} {h : ℕ} {cb : Callback} (hop : op.boundTo = some h)
      (hcb : cb = .onWriteComplete ∨ cb = .onHighWaterMark) :
      Did k ch op { (start k).emit (.callback cb (some h)) with script := ch.script }
  | shutdown {o : Outcome} (hst : k.state = .connected)
      (h : Io ((start k).setTcpState .disconnecting) o) : Did k ch .shutdownInLoop o
  | close {op : ConnOp} {o : Outcome} (hq : op.quiet = true) (hc : op.closes k ch = true)
      (hst : k.state ≠ .disconnected) (h : Io (start k) o) :
      Did k ch op ((o.removeItself ch.script).afterwards .queueTie)
  | forceClose (hst : k.state = .connected ∨ k.state = .disconnecting) :
      Did k ch .forceCloseInLoop (((((start k).setTcpState .disconnecting).removeItself
        ch.script).afterwards .queueTie).afterwards .closeFd)
  | removeItself : Did k ch .removeItself ((start k).removeItself ch.script)
  | channelRemove : Did k ch .channelRemove (start k).channelRemove
  | queueTie : Did k ch .queueTie (start k).queueTie
  | closeFd : Did k ch .closeFd (start k).closeFd

/-- `handleClose` of a connection that is not closed yet closes it. -/
theorem handleClose_of_ne {script : List Call} (h : o.conn.state ≠ .disconnected) :
    o.handleClose script = (o.removeItself script).afterwards .queueTie := if_neg h

/-- What `handleEvent` calls are the handlers of the channel. -/
theorem isHandler_of_mem_handleEvent {k : Conn} {revents : Revents} {op : ConnOp}
    (hop : op ∈ ((start k).handleEvent revents).ops) : op.isHandler = true := by
  obtain ⟨i, p, w, e, hu, n, r⟩ := revents
  simp only [handleEvent] at hop
  split at hop <;> split at hop <;> split at hop <;> split at hop <;>
    simp at hop <;> grind [ConnOp.isHandler]

/-- `Channel::handleEvent` only decides what to call. -/
theorem handleEvent_eq (k : Conn) (revents : Revents) :
    (start k).handleEvent revents =
      { start k with ops := ((start k).handleEvent revents).ops } := by
  simp only [handleEvent]
  split <;> split <;> split <;> split <;> rfl

/-- **What a function can do.** -/
theorem run_did (k : Conn) (ch : Choice) {op : ConnOp} (hop : op ≠ .removeConnection) :
    Did k ch op ((start k).run ch op) := by
  cases op with
  | onConnection => exact .connect
  | handleEvent revents =>
    show Did k ch _ ((start k).handleEvent revents)
    rw [handleEvent_eq]
    exact .dispatch fun op hop => isHandler_of_mem_handleEvent hop
  | handleClose =>
    by_cases hst : k.state = .disconnected
    · rw [show (start k).run ch .handleClose = start k from if_pos hst]
      exact .nothing rfl (by simp [ConnOp.closes, hst])
    · rw [show (start k).run ch .handleClose = _ from handleClose_of_ne hst]
      exact .close rfl (by simp [ConnOp.closes, hst]) hst (.refl _)
  | handleError =>
    by_cases hst : k.state = .disconnected
    · rw [show (start k).run ch .handleError = start k from if_pos hst]
      exact .nothing rfl rfl
    · exact .io rfl rfl hst io_handleError
  | handleRead =>
    by_cases hst : k.state = .disconnected
    · rw [show (start k).run ch .handleRead = start k from if_pos hst]
      exact .nothing rfl (by simp [ConnOp.closes, hst])
    · rw [show (start k).run ch .handleRead = _ from if_neg hst]
      rcases hr : ch.read with ⟨byte, bytes⟩ | _ | _
      · exact .message hst
      · rw [handleClose_of_ne (o := (start k).emit .read) hst]
        exact .close rfl (by simp [ConnOp.closes, hst, hr]) hst (io_emit rfl)
      · exact .io rfl (by simp [ConnOp.closes, hr]) hst ((io_emit rfl).trans io_handleError)
  | handleWrite =>
    by_cases hst : k.state = .disconnected
    · rw [show (start k).run ch .handleWrite = start k from if_pos hst]
      exact .nothing rfl (by simp [ConnOp.closes, hst])
    · rw [show (start k).run ch .handleWrite = _ from if_neg hst]
      by_cases hw : k.events.write = true
      · rw [if_pos (show (start k).conn.events.write = true from hw)]
        rcases hr : ch.write with n | e
        · refine .io rfl (by simp [ConnOp.closes, hr]) hst ?_
          have he : Io (start k) ((start k).emit .write) := io_emit rfl
          dsimp only
          split
          · split
            · exact (he.trans (io_setOutputBuf _)).trans io_drained
            · exact he.trans (io_setOutputBuf _)
          · exact he
        · rw [handleClose_of_ne (o := (start k).emit .write) hst]
          exact .close rfl (by simp [ConnOp.closes, hst, hr, hw]) hst (io_emit rfl)
      · rw [if_neg (show ¬ (start k).conn.events.write = true from hw)]
        exact .nothing rfl (by simp [ConnOp.closes, hw])
  | removeItself => exact .removeItself
  | channelRemove => exact .channelRemove
  | queueTie => exact .queueTie
  | removeConnection => exact absurd rfl hop
  | tie => exact .nothing rfl rfl
  | sendInLoop len =>
    by_cases hst : k.state = .disconnected
    · rw [show (start k).run ch (.sendInLoop len) = start k from if_pos hst]
      exact .nothing rfl rfl
    · exact .io rfl rfl hst (io_sendInLoop len ch.write)
  | sendOutputBufInLoop =>
    by_cases hst : k.state = .disconnected
    · rw [show (start k).run ch .sendOutputBufInLoop = start k from if_pos hst]
      exact .nothing rfl rfl
    · exact .io rfl rfl hst (io_sendOutputBufInLoop ch.write)
  | shutdownInLoop =>
    by_cases hst : k.state = .connected
    · rw [show (start k).run ch .shutdownInLoop = _ from if_pos hst]
      refine .shutdown hst ?_
      split
      · exact .refl _
      · exact io_emit rfl
    · rw [show (start k).run ch .shutdownInLoop = start k from if_neg hst]
      exact .nothing rfl rfl
  | forceCloseInLoop =>
    by_cases hst : k.state = .connected ∨ k.state = .disconnecting
    · rw [show (start k).run ch .forceCloseInLoop = _ from if_pos hst,
        handleClose_of_ne (o := (start k).setTcpState .disconnecting) (by simp)]
      exact .forceClose hst
    · rw [show (start k).run ch .forceCloseInLoop = start k from if_neg hst]
      exact .nothing rfl (by simpa [ConnOp.closes] using hst)
  | closeFd => exact .closeFd
  | addTimer => exact .nothing rfl rfl
  | onWriteComplete h => exact .notify rfl (.inl rfl)
  | onHighWaterMark h len => exact .notify rfl (.inr rfl)

/-- What a function changes of the connection. -/
theorem Did.conn {k : Conn} {ch : Choice} {op : ConnOp} {o : Outcome} (h : Did k ch op o) :
    ∃ st fd e r b, o.conn = { k with
      state := st, fd := fd, events := e, registered := r, outputBuf := b } := by
  cases h with
  | io _ _ _ h =>
    obtain ⟨e, r, b, hc⟩ := h.conn
    exact ⟨_, _, e, r, b, hc⟩
  | shutdown _ h =>
    obtain ⟨e, r, b, hc⟩ := h.conn
    exact ⟨_, _, e, r, b, hc⟩
  | @close op o _ _ _ h =>
    obtain ⟨e, r, b, hc⟩ := h.conn
    refine ⟨.disconnected, k.fd, e, r, b, ?_⟩
    show { o.conn with state := .disconnected } = _
    rw [hc]
    rfl
  | _ => exact ⟨_, _, _, _, _, rfl⟩

/-- The one kind of `removeItself`. -/
theorem Did.eq_removeItself {k : Conn} {ch : Choice} {o : Outcome}
    (h : Did k ch .removeItself o) : o = (start k).removeItself ch.script := by
  cases h with
  | removeItself => rfl
  | nothing hq => simp [ConnOp.quiet] at hq
  | io hq => simp [ConnOp.quiet] at hq
  | close hq => simp [ConnOp.quiet] at hq
  | notify hb => simp [ConnOp.boundTo] at hb

/-- No function changes which connection it is. -/
theorem Did.identity {k : Conn} {ch : Choice} {op : ConnOp} {o : Outcome} (h : Did k ch op o) :
    o.conn.id = k.id ∧ o.conn.loop = k.loop ∧ o.conn.tcpHolder = k.tcpHolder := by
  obtain ⟨st, fd, e, r, b, hc⟩ := h.conn
  rw [hc]
  exact ⟨rfl, rfl, rfl⟩

/-- No function destroys the object that it is called on. -/
theorem Did.destroyed {k : Conn} {ch : Choice} {op : ConnOp} {o : Outcome} (h : Did k ch op o) :
    o.conn.destroyed = k.destroyed := by
  obtain ⟨st, fd, e, r, b, hc⟩ := h.conn
  rw [hc]

/-- No function sets the handler; user code does, by a call of its own. -/
theorem Did.tcpHandler {k : Conn} {ch : Choice} {op : ConnOp} {o : Outcome} (h : Did k ch op o) :
    o.conn.tcpHandler = k.tcpHandler := by
  obtain ⟨st, fd, e, r, b, hc⟩ := h.conn
  rw [hc]

/-- What a function leaves to do: calls of the handlers of an event, and ends. -/
theorem Did.mem_ops {k : Conn} {ch : Choice} {op x : ConnOp} {o : Outcome} (h : Did k ch op o)
    (hx : x ∈ o.ops) : x.isHandler = true ∨ x.isTail = true := by
  cases h with
  | dispatch hops => exact .inl (hops x hx)
  | io _ _ _ h =>
    rw [h.ops] at hx
    simp at hx
  | shutdown _ h =>
    rw [h.ops] at hx
    simp at hx
  | close _ _ _ h =>
    have hops := h.ops
    simp only [afterwards_ops, removeItself_ops, hops, start_ops] at hx
    simp at hx
    rcases hx with rfl | rfl <;> exact .inr rfl
  | forceClose =>
    simp at hx
    rcases hx with rfl | rfl | rfl <;> exact .inr rfl
  | removeItself =>
    simp at hx
    exact .inr (hx ▸ rfl)
  | queueTie =>
    simp at hx
    exact .inr (hx ▸ rfl)
  | nothing => simp at hx
  | connect => simp at hx
  | message => simp at hx
  | notify => simp at hx
  | channelRemove => simp at hx
  | closeFd => simp at hx

/-- What a function queues: notifications for the handler that is set, and the
`tie` of `handleClose`. -/
theorem Did.mem_queued {k : Conn} {ch : Choice} {op x : ConnOp} {o : Outcome} (h : Did k ch op o)
    (hx : x ∈ o.queued) :
    (∃ n, x.boundTo = some n ∧ k.tcpHandler = some n) ∨ x = .tie ∧ op = .queueTie := by
  have hio {o o' : Outcome} (h : Io o o') (ho : o.queued = []) (hx : x ∈ o'.queued) :
      ∃ n, x.boundTo = some n ∧ o.conn.tcpHandler = some n := by
    obtain ⟨qs, hq, hb⟩ := h.queued
    rw [hq, ho, List.nil_append] at hx
    exact hb x hx
  cases h with
  | io _ _ _ h => exact .inl (hio h rfl hx)
  | shutdown _ h => exact .inl (hio h rfl hx)
  | close _ _ _ h => exact .inl (hio h rfl hx)
  | queueTie => exact .inr ⟨by simpa using hx, rfl⟩
  | nothing => simp at hx
  | dispatch => simp at hx
  | connect => simp at hx
  | message => simp at hx
  | notify => simp at hx
  | forceClose => simp at hx
  | removeItself => simp at hx
  | channelRemove => simp at hx
  | closeFd => simp at hx

/-- Which handler a callback of a function goes to: the one that is set, or the
one that the function is bound to. -/
theorem Did.callback {k : Conn} {ch : Choice} {op : ConnOp} {o : Outcome} {cb : Callback}
    {n : ℕ} (h : Did k ch op o) (hmem : .callback cb (some n) ∈ o.acts) :
    k.tcpHandler = some n ∨ op.boundTo = some n := by
  have hio {o o' : Outcome} (h : Io o o') (hmem : .callback cb (some n) ∈ o'.acts) :
      .callback cb (some n) ∈ o.acts := by
    obtain ⟨as, has, hall⟩ := h.acts
    rw [has] at hmem
    refine (List.mem_append.1 hmem).resolve_right fun hm => ?_
    simpa [Act.isIo] using hall _ hm
  cases h with
  | io _ _ _ h => simpa using hio h hmem
  | shutdown _ h => simpa using hio h hmem
  | @close op o _ _ _ h =>
    obtain ⟨e, r, b, hc⟩ := h.conn
    simp [hc] at hmem
    rcases hmem with hmem | hmem
    · simpa using hio h hmem
    · exact .inl hmem.2.symm
  | notify hop hcb =>
    simp at hmem
    exact .inr (hmem.2 ▸ hop)
  | connect =>
    simp at hmem
    exact .inl hmem.2.symm
  | message =>
    simp at hmem
    exact .inl hmem.2.symm
  | forceClose =>
    simp at hmem
    exact .inl hmem.2.symm
  | removeItself =>
    simp at hmem
    exact .inl hmem.2.symm
  | nothing => simp at hmem
  | dispatch => simp at hmem
  | channelRemove => simp at hmem
  | queueTie => simp at hmem
  | closeFd => simp at hmem

/-- No function sets the handler. -/
theorem Did.setTcpHandler_not_mem {k : Conn} {ch : Choice} {op : ConnOp} {o : Outcome}
    {n : Option ℕ} (h : Did k ch op o) : .setTcpHandler n ∉ o.acts := by
  have hio {o o' : Outcome} (h : Io o o') (hnot : .setTcpHandler n ∉ o.acts) :
      .setTcpHandler n ∉ o'.acts := by
    obtain ⟨as, has, hall⟩ := h.acts
    rw [has]
    exact List.not_mem_append hnot fun hm => by simpa [Act.isIo] using hall _ hm
  cases h with
  | io _ _ _ h => exact hio h (by simp)
  | shutdown _ h => exact hio h (by simp)
  | @close op o _ _ _ h => simpa using hio h (by simp)
  | _ => simp

/-- A function that closes the connection goes on with the end of `removeItself`,
and but for `removeItself` itself with that of `handleClose`. -/
theorem Did.closing {k : Conn} {ch : Choice} {op : ConnOp} {o : Outcome} (h : Did k ch op o)
    (hst : k.state ≠ .disconnected) (hst' : o.conn.state = .disconnected) :
    .channelRemove ∈ o.ops ∧ (op = .removeItself ∨ .queueTie ∈ o.ops) := by
  cases h with
  | io _ _ _ h => exact absurd (h.state.symm.trans hst') hst
  | shutdown _ h => exact absurd (h.state.symm.trans hst') (by simp)
  | close => exact ⟨by simp, .inr (by simp)⟩
  | forceClose => exact ⟨by simp, .inr (by simp)⟩
  | removeItself => exact ⟨by simp, .inl rfl⟩
  | connect => simp at hst'
  | _ => exact absurd hst' hst

/-- A closed connection stays closed, and is not added to the poller. -/
theorem Did.closed {k : Conn} {ch : Choice} {op : ConnOp} {o : Outcome} (h : Did k ch op o)
    (hst : k.state = .disconnected) (hop : op ≠ .onConnection) :
    o.conn.state = .disconnected ∧
      (o.conn.registered = true → k.registered = true ∧ op ≠ .channelRemove) := by
  cases h with
  | nothing hq => exact ⟨hst, fun hr => ⟨hr, by rintro rfl; simp [ConnOp.quiet] at hq⟩⟩
  | notify hb => exact ⟨hst, fun hr => ⟨hr, by rintro rfl; simp [ConnOp.boundTo] at hb⟩⟩
  | connect => exact absurd rfl hop
  | io _ _ hne => exact absurd hst hne
  | message hne => exact absurd hst hne
  | shutdown hc => simp [hst] at hc
  | close _ _ hne => exact absurd hst hne
  | forceClose hc => simp [hst] at hc
  | channelRemove => exact ⟨hst, by simp⟩
  | removeItself => exact ⟨rfl, fun hr => ⟨hr, by simp⟩⟩
  | _ => exact ⟨hst, fun hr => ⟨hr, by simp⟩⟩

end Outcome

end Service
end Net
end Sevent
