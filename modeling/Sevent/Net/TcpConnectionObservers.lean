/-
# What `isConnected` and `isReading` say

`isConnected` is `state & connected`.  The states are numbered from 0 on, so the
test takes a disconnected connection (3) for a connected one (1).  `isReading`
is the flag `isRead`, which `enableRead` and `disableRead` keep beside the event
mask of the channel; it starts as true, and a close takes the channel out of the
poller and leaves the flag alone.

Both should tell the truth wherever user code can ask: after `onConnection`,
after every step, inside `onClose` and after it (`Truth`).  `truth_iff` says
when they do: in a run without a close, and in no other.  Until then the state
is `connected` exactly before a shutdown, and the flag, the mask and the poller
agree (`Shown`).
-/

import Sevent.Net.TcpConnectionRegistration

namespace Sevent
namespace Net
namespace TcpConnection

open Transition EpollPoller

/-! ### The observers -/

/-- `TcpConnection::isConnected`. -/
def isConnected (w : TcpConnection) : Bool := w.state.rank &&& State.connected.rank ≠ 0

/-- `TcpConnection::isReading`. -/
def isReading (w : TcpConnection) : Bool := w.isRead

/-- The poller waits for the channel to become readable. -/
def readRegistered (w : TcpConnection) : Bool :=
  match w.poller.interest w.channel.fd with
  | some (c, e) => c = w.self && e.read
  | none => false

/-- The act of `shutdownInLoop`. -/
def Act.shuts : Act → Bool
  | .shutdown _ => true
  | _ => false

/-- A shutdown has taken effect. -/
def shut (w : TcpConnection) : Bool := w.log.any Act.shuts

/-! ### Which steps close -/

/-- `forceCloseInLoop` does not return at once. -/
def forcible (w : TcpConnection) : Bool := w.state = .connected || w.state = .disconnecting

/-- The step runs `removeItself`. -/
def closes (w : TcpConnection) : Input → Bool
  | .handleRead .eof _ | .handleClose _ => w.state ≠ .disconnected
  | .handleWrite (.failed _) _ => w.state ≠ .disconnected && w.channel.isEnableWrite
  | .call .forceClose _ _ => w.forcible
  | .delayedForceClose _ => 0 < w.delayed && w.forcible
  | .teardown _ => true
  | .nextTask _ _ =>
    match w.loop.nextTask with
    | some (.removeItself, _) => true
    | some (.forceCloseInLoop, _) => w.forcible
    | _ => false
  | _ => false

/-- The calls that `onClose` makes if the step closes. -/
def onCloseCalls : Input → List Call
  | .handleRead _ onClose | .handleWrite _ onClose | .handleClose onClose | .teardown onClose
  | .call _ _ onClose | .delayedForceClose onClose | .nextTask _ onClose => onClose
  | _ => []

/-- The connection as `onClose` sees it, at its start and after each of its
calls. -/
def inside (w : TcpConnection) (i : Input) : List TcpConnection :=
  if w.closes i && w.tcpHandler then
    (onCloseCalls i).scanl (fun w c => w.callInLoop (.accepted 0) (fun w => w) c)
      ({ w with state := .disconnected }.emit .onClose)
  else []

/-- A connection that is watched: whether `onConnection` has been delivered,
whether a close has taken effect, and the connection as it could be seen during
and after the last step. -/
structure Watch where
  conn : TcpConnection
  opened : Bool
  closed : Bool
  seen : List TcpConnection

namespace Watch

/-- A connection that has just been made, and could be seen as such. -/
def init (self : ChanId) (sockfd : ℕ) (connId : ℤ) (handler : Bool) : Watch where
  conn := .init self sockfd connId handler
  opened := false
  closed := false
  seen := [.init self sockfd connId handler]

/-- The user has the connection from `onConnection` on, or from `onClose` on. -/
def handed (h : Watch) : Bool := h.opened || h.closed

/-- Only the user calls the public methods. -/
def allowed (h : Watch) : Input → Bool
  | .call _ _ _ | .foreign _ _ _ => h.handed
  | _ => true

/-- `onConnection` is delivered. -/
def opens : Input → Bool
  | .onConnection => true
  | _ => false

/-- One step of the connection, if the user may make it by now, with what could
be seen in it. -/
def move (h : Watch) (i : Input) : Option Watch :=
  if h.allowed i then
    (step h.conn i).map fun w =>
      { conn := w, opened := h.opened || opens i, closed := h.closed || h.conn.closes i
        seen := h.conn.inside i ++ [w] }
  else none

/-- **The observers tell the truth.** -/
structure Truthful (h : Watch) (v : TcpConnection) : Prop where
  isConnected : v.isConnected = true ↔ h.opened = true ∧ v.shut = false ∧ h.closed = false
  isReading : v.isReading = true ↔ v.readRegistered = true

/-- Wherever the user can ask. -/
def Truth (h : Watch) : Prop := h.handed = true → ∀ v ∈ h.seen, h.Truthful v

/-- The condition: the step does not close. -/
def StaysOpen (h : Watch) (i : Input) : Prop := h.conn.closes i = false

end Watch

/-! ### Parts of steps that the observers do not notice -/

variable {w w' w'' : TcpConnection}

/-- `w'` comes from `w` without a change of what the observers read. -/
structure Mild (w w' : TcpConnection) : Prop where
  state : w'.state = w.state
  isRead : w'.isRead = w.isRead
  read : w'.channel.events.read = w.channel.events.read
  index : (w.channel.events.read = true → w.channel.index = normal) →
    w'.channel.events.read = true → w'.channel.index = normal
  log : ∃ l, w'.log = w.log ++ l ∧ ∀ a ∈ l, a.shuts = false

namespace Mild

/-- A function that writes none of these fields is mild. -/
theorem of_eq (hstate : w'.state = w.state) (hread : w'.isRead = w.isRead)
    (hchannel : w'.channel = w.channel) (hlog : w'.log = w.log) : Mild w w' := by
  refine ⟨hstate, hread, by rw [hchannel], fun h => ?_, [], by simp [hlog], by simp⟩
  rw [hchannel]
  exact h

/-- A function that does nothing is mild. -/
theorem refl (w : TcpConnection) : Mild w w := of_eq rfl rfl rfl rfl

/-- Two mild functions, one after the other. -/
theorem trans (h : Mild w w') (h' : Mild w' w'') : Mild w w'' := by
  obtain ⟨l, hl, hls⟩ := h.log
  obtain ⟨l', hl', hls'⟩ := h'.log
  refine ⟨h'.state.trans h.state, h'.isRead.trans h.isRead, h'.read.trans h.read,
    fun hi => h'.index (h.index hi), l ++ l', by rw [hl', hl, List.append_assoc], fun a ha => ?_⟩
  exact (List.mem_append.1 ha).elim (hls a) (hls' a)

/-- An entry of the log other than that of a shutdown. -/
theorem emit (h : Mild w w') {a : Act} (ha : a.shuts = false) : Mild w (w'.emit a) :=
  h.trans ⟨rfl, rfl, rfl, fun hi => hi, [a], by simp, by simpa using ha⟩

/-- A task, whichever it is. -/
theorem queueInLoop (h : Mild w w') (t : Task) : Mild w (w'.queueInLoop t) :=
  h.trans (of_eq rfl rfl rfl rfl)

/-- An update of the mask that leaves the read event alone. -/
theorem updateEvent (h : Mild w w') {events : Events}
    (hread : events.read = w'.channel.events.read) :
    Mild w (w'.updateEvent events) := by
  refine h.trans ⟨rfl, rfl, ?_, fun _ hr => ?_, [], by simp, by simp⟩
  · simpa using hread
  · have he : events ≠ .NoneEvent := by
      rintro rfl
      simp at hr
      cases hr
    exact updateChannel_index_of_event he

/-- A mild function shuts nothing down. -/
theorem shut (h : Mild w w') : w'.shut = w.shut := by
  obtain ⟨l, hl, hls⟩ := h.log
  have hnone : l.any Act.shuts = false := by
    rw [List.any_eq_false]
    exact fun a ha => by simp [hls a ha]
  unfold TcpConnection.shut
  rw [hl, List.any_append, hnone, Bool.or_false]

end Mild

/-- The interest in writing is not what the observers read, and the channel that
it registers is one that reads as before. -/
theorem mild_enableWriteEvent (h : Mild w w') : Mild w w'.enableWriteEvent :=
  h.updateEvent (by simp [Events.union, Events.WriteEvent])

/-- The interest in writing goes; a channel that reads stays registered. -/
theorem mild_disableWriteEvent (h : Mild w w') : Mild w w'.disableWriteEvent :=
  h.updateEvent (by simp [Events.diff, Events.WriteEvent])

/-- The task of `onWriteComplete` is mild. -/
theorem mild_writeComplete (h : Mild w w') : Mild w w'.writeComplete := by
  unfold writeComplete
  split
  · exact h.queueInLoop _
  · exact h

/-- The task of `onHighWaterMark` is mild. -/
theorem mild_highWater (h : Mild w w') (remain : ℕ) : Mild w (w'.highWater remain) := by
  unfold highWater
  dsimp only
  split
  · exact h.queueInLoop _
  · exact h

/-- Waiting for the descriptor to become writable is mild. -/
theorem mild_wantWrite (h : Mild w w') : Mild w w'.wantWrite := by
  unfold wantWrite
  split
  · exact h
  · exact mild_enableWriteEvent h

/-- A write of the descriptor is mild, however it ends. -/
theorem mild_writeDirect (h : Mild w w') (data : List UInt8) (r : WriteResult) :
    Mild w (w'.writeDirect data r).1 := by
  cases r with
  | accepted n =>
    unfold writeDirect
    dsimp only
    split
    · exact mild_writeComplete (h.emit rfl)
    · exact h.emit rfl
  | failed e => exact h.emit rfl

/-- The end of the sending functions. -/
theorem mild_wait (h : Mild w w') (remain : ℕ) (buf : List UInt8) :
    Mild w { w'.highWater remain with outputBuf := buf }.wantWrite :=
  mild_wantWrite ((mild_highWater h remain).trans (.of_eq rfl rfl rfl rfl))

/-- A send is mild. -/
theorem mild_sendInLoop (w : TcpConnection) (tag : Tag) (data : List UInt8) (r : WriteResult) :
    Mild w (w.sendInLoop tag data r) := by
  unfold sendInLoop
  split
  · exact .refl w
  · have hexec : Mild w (w.emit (.execute tag data)) := (Mild.refl w).emit rfl
    dsimp only
    by_cases hdirect : (w.emit (.execute tag data)).channel.isEnableWrite = false ∧
        (w.emit (.execute tag data)).outputBuf.length = 0
    · have hwrite := mild_writeDirect hexec data r
      simp only [if_pos hdirect]
      split
      · exact mild_wait hwrite _ _
      · exact hwrite
    · simp only [if_neg hdirect]
      split
      · exact mild_wait hexec _ _
      · exact hexec

/-- Sending what is pending is mild. -/
theorem mild_sendOutputBufInLoop (w : TcpConnection) (r : WriteResult) :
    Mild w (w.sendOutputBufInLoop r) := by
  unfold sendOutputBufInLoop
  split
  · exact .refl w
  · have hdirect := mild_writeDirect (Mild.refl w) w.outputBuf r
    dsimp only
    by_cases hflush : w.channel.isEnableWrite = false ∧ w.outputBuf.length > 0
    · simp only [if_pos hflush]
      split
      · exact mild_wantWrite (hdirect.trans (.of_eq rfl rfl rfl rfl))
      · exact hdirect.trans (.of_eq rfl rfl rfl rfl)
    · simp only [if_neg hflush]
      split
      · exact mild_wantWrite (.refl w)
      · exact .refl w

/-- What is done when all has been written is mild: the `SHUT_WR` of a shutdown
that has waited is not what the observers read. -/
theorem mild_drained (h : Mild w w') : Mild w w'.drained := by
  unfold drained
  dsimp only
  split
  · exact (mild_writeComplete (mild_disableWriteEvent h)).emit rfl
  · exact mild_writeComplete (mild_disableWriteEvent h)

/-- `handleWrite` where the kernel takes some bytes. -/
theorem mild_handleWrite (w : TcpConnection) (n : ℕ) (onClose : TcpConnection → TcpConnection) :
    Mild w (w.handleWrite (.accepted n) onClose) := by
  unfold handleWrite
  split
  · exact .refl w
  · split
    · have hwrite : Mild w (w.emit (.write (w.outputBuf.take (min n w.outputBuf.length)))) :=
        (Mild.refl w).emit rfl
      dsimp only
      split
      · split
        · exact mild_drained (hwrite.trans (.of_eq rfl rfl rfl rfl))
        · exact hwrite.trans (.of_eq rfl rfl rfl rfl)
      · exact hwrite
    · exact .refl w

/-- `enableWrite` is mild. -/
theorem mild_enableWriteInLoop (w : TcpConnection) : Mild w w.enableWriteInLoop := by
  unfold enableWriteInLoop
  split
  · exact .refl w
  · split
    · exact (mild_enableWriteEvent (.refl w)).trans (.of_eq rfl rfl rfl rfl)
    · exact .refl w

/-- `disableWrite` is mild. -/
theorem mild_disableWriteInLoop (w : TcpConnection) : Mild w w.disableWriteInLoop := by
  unfold disableWriteInLoop
  split
  · exact .refl w
  · split
    · exact (mild_disableWriteEvent (.refl w)).trans (.of_eq rfl rfl rfl rfl)
    · exact .refl w

/-- The acceptance of a send is only logged. -/
theorem mild_accept (w : TcpConnection) (thread : Option ℕ) (data : List UInt8) :
    Mild w (w.accept thread data).1 :=
  ⟨rfl, rfl, rfl, fun hi => hi, [_], rfl, by simp [Act.shuts]⟩

/-- A call from another thread only queues a task. -/
theorem mild_callForeign (w : TcpConnection) (thread : ℕ) (seen : State) (c : Call) :
    Mild w (w.callForeign thread seen c) := by
  have hqueue : ∀ t, Mild w (w.queueInLoop t) := fun t => (Mild.refl w).queueInLoop t
  cases c with
  | send data | sendBuffer data | sendBufferMove data =>
    simp only [callForeign]
    split
    · exact (mild_accept w _ data).queueInLoop _
    · exact .refl w
  | sendOutputBuf | shutdown | forceClose =>
    simp only [callForeign]
    split
    · exact hqueue _
    · exact .refl w
  | forceCloseDelay =>
    simp only [callForeign]
    split
    · exact .of_eq rfl rfl rfl rfl
    · exact .refl w
  | enableRead | disableRead | enableWrite | disableWrite => exact hqueue _
  | setHighWaterMark bytes => exact .refl w
  | setTcpHandler handler => exact .refl w

/-! ### Before a close -/

/-- A connection that is established: it is connected until a shutdown, and the
flag, the mask and the status of the channel agree. -/
structure Shown (w : TcpConnection) : Prop where
  live : w.state = .connected ∧ w.shut = false ∨ w.state = .disconnecting ∧ w.shut = true
  read : w.isRead = w.channel.events.read
  index : w.channel.events.read = true → w.channel.index = normal

/-- A connection that its holder has still to establish. -/
structure Fresh (w : TcpConnection) : Prop where
  state : w.state = .connecting
  shut : w.shut = false
  isRead : w.isRead = true
  events : w.channel.events = .NoneEvent
  tasks : ∀ t ∈ w.loop.tasks, t = .removeItself
  delayed : w.delayed = 0

/-- What is shown stays true over a mild function. -/
theorem Shown.mild (h : Shown w) (hm : Mild w w') : Shown w' := by
  refine ⟨?_, ?_, hm.index h.index⟩
  · rw [hm.state, hm.shut]
    exact h.live
  · rw [hm.isRead, hm.read]
    exact h.read

/-- A connection that shows itself as it is has not been closed. -/
theorem Shown.ne (h : Shown w) : w.state ≠ .disconnected := by
  rcases h.live with ⟨hs, -⟩ | ⟨hs, -⟩ <;> rw [hs] <;> decide

/-- A connection that shows itself as it is could still be closed by force. -/
theorem Shown.forcible (h : Shown w) : w.forcible = true := by
  unfold TcpConnection.forcible
  rcases h.live with ⟨hs, -⟩ | ⟨hs, -⟩ <;> rw [hs] <;> decide

/-- A connection that has not been handed to the user stays so while nothing is
done to it. -/
theorem Fresh.of_eq (h : Fresh w) (hstate : w'.state = w.state) (hlog : w'.shut = w.shut)
    (hread : w'.isRead = w.isRead) (hchannel : w'.channel = w.channel)
    (htasks : ∀ t ∈ w'.loop.tasks, t = .removeItself) (hdelayed : w'.delayed = w.delayed) :
    Fresh w' := by
  refine ⟨hstate.trans h.state, hlog.trans h.shut, hread.trans h.isRead, ?_, htasks,
    hdelayed.trans h.delayed⟩
  rw [hchannel]
  exact h.events

/-- `enableRead` and `disableRead` keep the flag and the mask together. -/
theorem Shown.enableRead (h : Shown w) : Shown w.enableReadInLoop := by
  unfold enableReadInLoop
  split
  · exact h
  · split
    · have hread : (w.channel.events.union .ReadEvent).read = true := Bool.or_true _
      refine ⟨h.live, ?_, fun _ => ?_⟩
      · simp [enableReadEvent, hread]
      · refine updateChannel_index_of_event fun hnone => ?_
        rw [show w.channel.events.union .ReadEvent = .NoneEvent from hnone] at hread
        cases hread
    · exact h

/-- `disableRead` takes the flag and the interest in reading together. -/
theorem Shown.disableRead (h : Shown w) : Shown w.disableReadInLoop := by
  unfold disableReadInLoop
  split
  · exact h
  · split
    · have hread : (w.channel.events.diff .ReadEvent).read = false := Bool.and_false _
      refine ⟨h.live, ?_, fun hr => ?_⟩
      · simp [disableReadEvent, hread]
      · simp [disableReadEvent, hread] at hr
    · exact h

/-- A shutdown, done at once or left for when the pending bytes are written: the
state says so in both cases. -/
theorem Shown.shutdown (h : Shown w) (mark : ℕ) : Shown (w.shutdownInLoop mark) := by
  unfold shutdownInLoop
  split
  · have hshut : Shown ({ w with state := .disconnecting }.emit (.shutdown mark)) :=
      ⟨.inr ⟨rfl, by simp [TcpConnection.shut, Act.shuts]⟩, h.read, h.index⟩
    dsimp only
    split
    · exact hshut
    · exact hshut.mild ((Mild.refl _).emit rfl)
  · exact h

/-- A public method in the loop's thread, `forceClose` apart. -/
theorem Shown.callInLoop (h : Shown w) (r : WriteResult)
    (onClose : TcpConnection → TcpConnection) {c : Call} (hc : c ≠ .forceClose) :
    Shown (w.callInLoop r onClose c) := by
  cases c with
  | send data =>
    simp only [TcpConnection.callInLoop]
    split
    · exact h.mild ((mild_accept w none data).trans (mild_sendInLoop _ _ data r))
    · exact h
  | sendBuffer buf | sendBufferMove buf =>
    simp only [TcpConnection.callInLoop, sendInLoopBuf_fst]
    split
    · exact h.mild ((mild_accept w none buf).trans (mild_sendInLoop _ _ buf r))
    · exact h
  | sendOutputBuf =>
    simp only [TcpConnection.callInLoop]
    split
    · exact h.mild (mild_sendOutputBufInLoop w r)
    · exact h
  | shutdown =>
    simp only [TcpConnection.callInLoop]
    split
    · exact h.shutdown _
    · exact h
  | forceClose => exact absurd rfl hc
  | forceCloseDelay =>
    simp only [TcpConnection.callInLoop]
    split
    · exact h.mild (.of_eq rfl rfl rfl rfl)
    · exact h
  | enableRead => exact h.enableRead
  | disableRead => exact h.disableRead
  | enableWrite => exact h.mild (mild_enableWriteInLoop w)
  | disableWrite => exact h.mild (mild_disableWriteInLoop w)
  | setHighWaterMark bytes => exact h.mild (.of_eq rfl rfl rfl rfl)
  | setTcpHandler handler => exact h.mild (.of_eq rfl rfl rfl rfl)

/-- A task, unless it closes. -/
theorem Shown.runTask (h : Shown w) (r : WriteResult) (onClose : TcpConnection → TcpConnection)
    {t : Task} (hremove : t ≠ .removeItself) (hclose : t ≠ .forceCloseInLoop) :
    Shown (w.runTask r onClose t) := by
  cases t with
  | sendInLoopStr tag data => exact h.mild (mild_sendInLoop w tag data r)
  | sendInLoopBuf tag buf =>
    simp only [TcpConnection.runTask, sendInLoopBuf_fst]
    exact h.mild (mild_sendInLoop w tag buf r)
  | sendOutputBufInLoop => exact h.mild (mild_sendOutputBufInLoop w r)
  | shutdownInLoop mark => exact h.shutdown mark
  | forceCloseInLoop => exact absurd rfl hclose
  | enableReadInLoop => exact h.enableRead
  | disableReadInLoop => exact h.disableRead
  | enableWriteInLoop => exact h.mild (mild_enableWriteInLoop w)
  | disableWriteInLoop => exact h.mild (mild_disableWriteInLoop w)
  | removeItself => exact absurd rfl hremove
  | onWriteComplete => exact h.mild ((Mild.refl w).emit rfl)
  | onHighWaterMark len => exact h.mild ((Mild.refl w).emit rfl)
  | tie => exact h

/-- Bytes that have come change nothing that the observers read. -/
theorem mild_handleRead (w : TcpConnection) (b : UInt8) (bytes : List UInt8)
    (onClose : TcpConnection → TcpConnection) :
    Mild w (w.handleRead (.data b bytes) onClose) := by
  have hread : Mild w { w with inputBuf := w.inputBuf ++ b :: bytes } := .of_eq rfl rfl rfl rfl
  unfold handleRead
  split
  · exact .refl w
  · dsimp only
    split
    · exact hread.emit rfl
    · exact hread

/-- **A step of an established connection that does not close.** -/
theorem Shown.step {i : Input} (h : Shown w) (hi : w.closes i = false)
    (hstep : step w i = some w') : Shown w' := by
  cases i with
  | onConnection =>
    simp only [TcpConnection.step] at hstep
    split at hstep
    case isTrue hc =>
      rcases h.live with ⟨hs, -⟩ | ⟨hs, -⟩ <;> rw [hs] at hc <;> cases hc
    case isFalse => cases hstep
  | handleRead r onClose =>
    obtain rfl := Option.some.inj hstep
    cases r with
    | data b bytes => exact h.mild (mild_handleRead w b bytes _)
    | eof => exact absurd (of_decide_eq_false hi) (not_not.2 h.ne)
    | failed =>
      unfold handleRead
      rw [if_neg h.ne]
      exact h
  | handleWrite r onClose =>
    obtain rfl := Option.some.inj hstep
    cases r with
    | accepted n => exact h.mild (mild_handleWrite w n _)
    | failed e =>
      have hwant : w.channel.isEnableWrite = false := by
        have hlive : decide (w.state ≠ .disconnected) = true := decide_eq_true h.ne
        simp only [closes, hlive, Bool.true_and] at hi
        exact hi
      unfold handleWrite
      rw [if_neg h.ne, if_neg (by simp [hwant])]
      exact h
  | handleClose onClose => exact absurd (of_decide_eq_false hi) (not_not.2 h.ne)
  | handleError =>
    obtain rfl := Option.some.inj hstep
    exact h
  | call c r onClose =>
    obtain rfl := Option.some.inj hstep
    refine h.callInLoop r _ fun hc => ?_
    subst hc
    exact Bool.false_ne_true (hi.symm.trans h.forcible)
  | foreign thread seen c =>
    simp only [TcpConnection.step] at hstep
    split at hstep
    case isTrue =>
      obtain rfl := Option.some.inj hstep
      exact h.mild (mild_callForeign w thread seen c)
    case isFalse => cases hstep
  | teardown onClose => cases hi
  | foreignTeardown =>
    obtain rfl := Option.some.inj hstep
    exact h.mild ((Mild.refl w).queueInLoop _)
  | delayedForceClose onClose =>
    simp only [TcpConnection.step] at hstep
    split at hstep
    case isTrue hpos =>
      simp only [closes, h.forcible, Bool.and_true, decide_eq_false_iff_not] at hi
      exact absurd hpos hi
    case isFalse => cases hstep
  | swapTasks | endTasks =>
    obtain ⟨q, -, rfl⟩ := Option.map_eq_some_iff.1 hstep
    exact h.mild (.of_eq rfl rfl rfl rfl)
  | nextTask r onClose =>
    obtain ⟨⟨t, q⟩, hq, rfl⟩ := Option.map_eq_some_iff.1 hstep
    have hrest : Shown { w with loop := q } := h.mild (.of_eq rfl rfl rfl rfl)
    simp only [closes, hq] at hi
    refine hrest.runTask r _ (fun ht => ?_) fun ht => ?_
    · subst ht
      cases hi
    · subst ht
      exact Bool.false_ne_true (hi.symm.trans h.forcible)
  | otherUpdate c ch =>
    simp only [TcpConnection.step] at hstep
    split at hstep
    case isTrue =>
      obtain rfl := Option.some.inj hstep
      exact h.mild (.of_eq rfl rfl rfl rfl)
    case isFalse => cases hstep
  | otherRemove c ch =>
    simp only [TcpConnection.step] at hstep
    split at hstep
    case isTrue =>
      obtain rfl := Option.some.inj hstep
      exact h.mild (.of_eq rfl rfl rfl rfl)
    case isFalse => cases hstep

/-- `onConnection`. -/
theorem Fresh.onConnection (h : Fresh w) (hstep : TcpConnection.step w .onConnection = some w') :
    Shown w' := by
  simp only [TcpConnection.step, h.state, if_true] at hstep
  have hopen : Shown { w with state := .connected }.enableReadEvent := by
    refine ⟨.inl ⟨rfl, h.shut⟩, ?_, fun _ => ?_⟩
    · simp [enableReadEvent, h.isRead, h.events, Events.union, Events.ReadEvent]
    · refine updateChannel_index_of_event ?_
      dsimp only
      rw [h.events]
      decide
  obtain rfl := Option.some.inj hstep
  split
  · exact hopen.mild ((Mild.refl _).emit rfl)
  · exact hopen

/-- **A step of a connection that is still to be established**, if it neither
establishes nor closes it and is no call of the user. -/
theorem Fresh.step {i : Input} (h : Fresh w) (hi : w.closes i = false)
    (hopens : Watch.opens i = false) (hcall : ∀ c r onClose, i ≠ .call c r onClose)
    (hforeign : ∀ thread seen c, i ≠ .foreign thread seen c) (hstep : step w i = some w') :
    Fresh w' := by
  have hlive : w.state ≠ .disconnected := by rw [h.state]; decide
  have hwant : w.channel.isEnableWrite = false := by
    unfold Channel.isEnableWrite
    rw [h.events]
    rfl
  cases i with
  | onConnection => cases hopens
  | handleRead r onClose =>
    obtain rfl := Option.some.inj hstep
    unfold handleRead
    rw [if_neg hlive]
    cases r with
    | data b bytes =>
      dsimp only
      split
      · refine h.of_eq rfl ?_ rfl rfl h.tasks rfl
        simp [TcpConnection.shut, Act.shuts]
      · exact h.of_eq rfl rfl rfl rfl h.tasks rfl
    | eof => exact absurd (of_decide_eq_false hi) (not_not.2 hlive)
    | failed => exact h
  | handleWrite r onClose =>
    obtain rfl := Option.some.inj hstep
    unfold handleWrite
    rw [if_neg hlive, if_neg (by simp [hwant])]
    exact h
  | handleClose onClose => exact absurd (of_decide_eq_false hi) (not_not.2 hlive)
  | handleError =>
    obtain rfl := Option.some.inj hstep
    exact h
  | call c r onClose => exact absurd rfl (hcall c r onClose)
  | foreign thread seen c => exact absurd rfl (hforeign thread seen c)
  | teardown onClose => cases hi
  | foreignTeardown =>
    obtain rfl := Option.some.inj hstep
    refine h.of_eq rfl rfl rfl rfl (fun t ht => ?_) rfl
    rw [queueInLoop_loop, TaskQueue.tasks_queueInLoop] at ht
    exact (List.mem_append.1 ht).elim (h.tasks t) List.mem_singleton.1
  | delayedForceClose onClose =>
    simp only [TcpConnection.step, h.delayed] at hstep
    cases hstep
  | swapTasks =>
    obtain ⟨q, hq, rfl⟩ := Option.map_eq_some_iff.1 hstep
    refine h.of_eq rfl rfl rfl rfl (fun t ht => h.tasks t ?_) rfl
    rwa [← TaskQueue.tasks_swapTasks hq]
  | endTasks =>
    obtain ⟨q, hq, rfl⟩ := Option.map_eq_some_iff.1 hstep
    refine h.of_eq rfl rfl rfl rfl (fun t ht => h.tasks t ?_) rfl
    rwa [← TaskQueue.tasks_endTasks hq]
  | nextTask r onClose =>
    obtain ⟨⟨t, q⟩, hq, rfl⟩ := Option.map_eq_some_iff.1 hstep
    have ht : t = .removeItself := h.tasks t (by rw [TaskQueue.tasks_nextTask hq]; simp)
    simp only [closes, hq, ht] at hi
    cases hi
  | otherUpdate c ch =>
    simp only [TcpConnection.step] at hstep
    split at hstep
    case isTrue =>
      obtain rfl := Option.some.inj hstep
      exact h.of_eq rfl rfl rfl rfl h.tasks rfl
    case isFalse => cases hstep
  | otherRemove c ch =>
    simp only [TcpConnection.step] at hstep
    split at hstep
    case isTrue =>
      obtain rfl := Option.some.inj hstep
      exact h.of_eq rfl rfl rfl rfl h.tasks rfl
    case isFalse => cases hstep

/-! ### A close -/

/-- A close by force leaves the connection disconnected, whatever user code does
in `onClose`. -/
theorem forceClose_state (h : w.forcible = true) (onClose : List Call) :
    (w.forceCloseInLoop (runOnClose onClose)).state = .disconnected := by
  have hlive : w.state = .connected ∨ w.state = .disconnecting := by
    simpa [forcible] using h
  unfold forceCloseInLoop
  rw [if_pos hlive]
  exact handleClose_state (quiet_runOnClose onClose) { w with state := .disconnecting }

/-- **A step that closes leaves a disconnected connection.** -/
theorem closes_step {i : Input} (h : w.closes i = true) :
    ∃ w', step w i = some w' ∧ w'.state = .disconnected := by
  cases i with
  | handleRead r onClose =>
    cases r with
    | eof =>
      refine ⟨_, rfl, ?_⟩
      unfold handleRead
      rw [if_neg (of_decide_eq_true h)]
      exact handleClose_state (quiet_runOnClose onClose) w
    | _ => cases h
  | handleWrite r onClose =>
    cases r with
    | failed e =>
      obtain ⟨hlive, hwant⟩ := Bool.and_eq_true_iff.1 h
      refine ⟨_, rfl, ?_⟩
      unfold handleWrite
      rw [if_neg (of_decide_eq_true hlive), if_pos hwant]
      exact handleClose_state (quiet_runOnClose onClose) _
    | accepted n => cases h
  | handleClose onClose => exact ⟨_, rfl, handleClose_state (quiet_runOnClose onClose) w⟩
  | call c r onClose =>
    cases c with
    | forceClose =>
      refine ⟨_, rfl, ?_⟩
      have hlive : w.state = .connected ∨ w.state = .disconnecting := by
        simpa [closes, forcible] using h
      simp only [callInLoop, hlive, if_true]
      exact forceClose_state h onClose
    | _ => cases h
  | teardown onClose => exact ⟨_, rfl, removeItself_state (quiet_runOnClose onClose) w⟩
  | delayedForceClose onClose =>
    obtain ⟨hpos, hforce⟩ := Bool.and_eq_true_iff.1 h
    refine ⟨_, if_pos (of_decide_eq_true hpos), ?_⟩
    exact forceClose_state (w := { w with delayed := w.delayed - 1 }) hforce onClose
  | nextTask r onClose =>
    simp only [closes] at h
    split at h
    case h_1 q hq =>
      refine ⟨({ w with loop := q } : TcpConnection).removeItself (runOnClose onClose), ?_,
        removeItself_state (quiet_runOnClose onClose) { w with loop := q }⟩
      simp only [step, hq, Option.map_some]
      rfl
    case h_2 q hq =>
      refine ⟨({ w with loop := q } : TcpConnection).forceCloseInLoop (runOnClose onClose), ?_,
        forceClose_state (w := { w with loop := q }) h onClose⟩
      simp only [step, hq, Option.map_some]
      rfl
    case h_3 => cases h
  | _ => cases h

/-- **A disconnected connection says that it is connected.** -/
theorem isConnected_of_disconnected (h : w.state = .disconnected) : w.isConnected = true := by
  unfold isConnected
  rw [h]
  decide

/-! ### The runs -/

namespace Watch

/-- What a run without a close keeps. -/
structure Inv (h : Watch) : Prop where
  reg : RegInv h.conn
  closed : h.closed = false
  seen : h.seen = [h.conn]
  phase : h.opened = false ∧ Fresh h.conn ∨ h.opened = true ∧ Shown h.conn

variable {h h' : Watch} {i : Input}

/-- The invariant holds of a connection that has just been made. -/
theorem inv_init (self : ChanId) (sockfd : ℕ) (connId : ℤ) (handler : Bool) :
    Inv (Watch.init self sockfd connId handler) :=
  ⟨regInv_init self sockfd connId handler, rfl, rfl,
    .inl ⟨rfl, rfl, rfl, rfl, rfl, fun t ht => (by cases ht), rfl⟩⟩

/-- **The mask of an established connection is what the poller has.** -/
theorem readRegistered_of_shown (hreg : RegInv w) (hshown : Shown w) :
    w.readRegistered = w.channel.events.read := by
  have hiff := hreg.registered.1.interest_iff
  unfold readRegistered
  cases hread : w.channel.events.read with
  | true =>
    rw [(hiff _ _).2 ⟨rfl, hshown.index hread, rfl⟩]
    simp [hread]
  | false =>
    cases hint : w.poller.interest w.channel.fd with
    | none => rfl
    | some p =>
      obtain ⟨c, e⟩ := p
      dsimp only
      by_cases hc : c = w.self
      · subst hc
        rw [((hiff _ _).1 hint).2.2, hread, Bool.and_false]
      · simp [hc]

/-- While nothing has closed, the invariant makes both observers true wherever
the user can ask. -/
theorem Inv.truth (hinv : Inv h) : h.Truth := by
  intro hhanded v hv
  rw [hinv.seen, List.mem_singleton] at hv
  subst hv
  have hopened : h.opened = true := by
    simpa [handed, hinv.closed] using hhanded
  obtain ⟨-, hshown⟩ : h.opened = true ∧ Shown h.conn :=
    hinv.phase.resolve_left fun hfresh => Bool.false_ne_true (hfresh.1.symm.trans hopened)
  refine ⟨?_, ?_⟩
  · unfold isConnected
    rcases hshown.live with ⟨hs, hshut⟩ | ⟨hs, hshut⟩
    · rw [hs, hshut]
      exact iff_of_true (by decide) ⟨hopened, rfl, hinv.closed⟩
    · rw [hs, hshut]
      exact iff_of_false (by decide) fun ht => (by cases ht.2.1)
  · unfold isReading
    rw [hshown.read, readRegistered_of_shown hinv.reg hshown]

/-- A step that does not close is in time: the connection is not disconnected. -/
theorem Inv.ne (hinv : Inv h) : h.conn.state ≠ .disconnected := by
  rcases hinv.phase with ⟨-, hfresh⟩ | ⟨-, hshown⟩
  · rw [hfresh.state]
    decide
  · exact hshown.ne

/-- On a connection that is not closed no switch of its events comes too late. -/
theorem inTime_of_live (hlive : w.state ≠ .disconnected) (i : Input) : w.InTime i := by
  cases i with
  | call c r onClose => exact fun t _ hlate => hlive hlate.1
  | nextTask r onClose => exact fun t q _ hlate => hlive hlate.1
  | _ => trivial

/-- Every step but a close keeps the invariant. -/
theorem Inv.move (hinv : Inv h) (hi : h.StaysOpen i) (hmove : h.move i = some h') : Inv h' := by
  unfold Watch.move at hmove
  split_ifs at hmove with hallowed
  obtain ⟨w', hstep, rfl⟩ := Option.map_eq_some_iff.1 hmove
  have hreg := regInv_step h.conn i w' hinv.reg (inTime_of_live hinv.ne i) hstep
  refine ⟨hreg, ?_, ?_, ?_⟩
  · dsimp only
    rw [hinv.closed, hi]
    rfl
  · have hinside : h.conn.inside i = [] := by
      unfold inside
      rw [hi]
      rfl
    dsimp only
    rw [hinside, List.nil_append]
  · dsimp only
    rcases hinv.phase with ⟨hnew, hfresh⟩ | ⟨hopened, hshown⟩
    · have hhanded : h.handed = false := by
        unfold handed
        rw [hnew, hinv.closed]
        rfl
      rw [hnew, Bool.false_or]
      cases hopens : opens i with
      | true =>
        cases i with
        | onConnection => exact .inr ⟨rfl, hfresh.onConnection hstep⟩
        | _ => cases hopens
      | false =>
        refine .inl ⟨rfl, hfresh.step hi hopens ?_ ?_ hstep⟩
        · rintro c r onClose rfl
          exact Bool.false_ne_true (hhanded.symm.trans hallowed)
        · rintro thread seen c rfl
          exact Bool.false_ne_true (hhanded.symm.trans hallowed)
    · exact .inr ⟨by rw [hopened, Bool.true_or], hshown.step hi hstep⟩

/-- **When the observers tell the truth.**  In a run they do, wherever the user can
ask, if and only if no step of the run closes the connection: `disconnected` has the
bit of `connected`, and nothing takes back that the connection is reading. -/
theorem truth_iff (self : ChanId) (sockfd : ℕ) (connId : ℤ) (handler : Bool) (is : List Input) :
    Always move Truth (Watch.init self sockfd connId handler) is ↔
      Steps move StaysOpen (Watch.init self sockfd connId handler) is := by
  have hkeep : ∀ h i h', Inv h → StaysOpen h i → move h i = some h' → Inv h' :=
    fun h i h' hinv hi hmove => hinv.move hi hmove
  refine always_iff_steps hkeep (fun h hinv => hinv.truth) ?_ (inv_init self sockfd connId handler)
  intro h i hinv hbad
  have hcloses : h.conn.closes i = true := by simpa [StaysOpen] using hbad
  obtain ⟨w', hstep, hstate⟩ := closes_step hcloses
  have hallowed : h.allowed i = true := by
    cases i with
    | call c r onClose =>
      rcases hinv.phase with ⟨-, hfresh⟩ | ⟨hopened, -⟩
      · cases c with
        | forceClose =>
          simp [closes, forcible, hfresh.state] at hcloses
        | _ => cases hcloses
      · unfold allowed handed
        rw [hopened]
        rfl
    | foreign thread seen c => cases hcloses
    | _ => rfl
  refine ⟨{ conn := w', opened := h.opened || opens i, closed := h.closed || h.conn.closes i
            seen := h.conn.inside i ++ [w'] }, ?_, fun htruth => ?_⟩
  · unfold move
    rw [if_pos hallowed, hstep]
    rfl
  · have hclosed : (h.closed || h.conn.closes i) = true := by rw [hcloses, Bool.or_true]
    have hhanded : (h.opened || opens i || (h.closed || h.conn.closes i)) = true := by
      rw [hclosed, Bool.or_true]
    have htold := htruth hhanded w' (by simp)
    obtain ⟨-, -, hopen⟩ := htold.isConnected.1 (isConnected_of_disconnected hstate)
    exact Bool.false_ne_true (hopen.symm.trans hclosed)

/-- The peer closes: inside `onClose` and after it the connection says that it
is connected, and in the end also that it is reading. -/
theorem lies_after_close :
    ∃ h, run move (Watch.init 0 5 1 true) [.onConnection, .handleRead .eof []] = some h ∧
      h.closed = true ∧ h.seen.map isConnected = [true, true] ∧ h.conn.isReading = true ∧
      h.conn.readRegistered = false ∧ ¬ h.Truth := by
  refine ⟨_, rfl, rfl, rfl, rfl, rfl, fun htruth => ?_⟩
  have htold := (htruth rfl _ (List.mem_append_right _ (List.mem_singleton_self _))).isReading
  exact absurd (htold.1 rfl) (by decide)

end Watch

end TcpConnection
end Net
end Sevent
