/-
# A write that fails for the moment

Four functions of a connection write to its descriptor.  Three of them, the
sending ones, ask `dealErr` whether the error is fatal, and keep the bytes and
wait for the descriptor when it is not.  `handleWrite`, which the poller calls
when the descriptor is writable, closes the connection on every error.

`Tolerated` is what a write that fails with `EAGAIN` or `EINTR` should leave.
`transient_iff` shows that the three sending functions do so and `handleWrite`
never does.  The connection is assumed to be `Live`, as a connection that is
not disconnected is in every run (`live_of_run`).
-/

import Sevent.Net.TcpConnectionRegistration

namespace Sevent
namespace Net
namespace TcpConnection

open Transition EpollPoller

/-- The value of `EINTR`, which the code does not name. -/
def EINTR : Errno := .other 4

/-- The write can be tried again later. -/
def Transient (e : Errno) : Prop := e = .EAGAIN ∨ e = EINTR

/-- The functions that write. -/
inductive WriteSite
  | sendInLoop (tag : Tag) (data : List UInt8)
  | sendInLoopBuf (tag : Tag) (buf : List UInt8)
  | sendOutputBufInLoop
  | handleWrite
  deriving DecidableEq

namespace WriteSite

/-- The call, when its write returns `r`. -/
def call (w : TcpConnection) (r : WriteResult) (onClose : TcpConnection → TcpConnection) :
    WriteSite → TcpConnection
  | .sendInLoop tag data => w.sendInLoop tag data r
  | .sendInLoopBuf tag buf => (w.sendInLoopBuf tag buf r).1
  | .sendOutputBufInLoop => w.sendOutputBufInLoop r
  | .handleWrite => w.handleWrite r onClose

/-- The bytes that the call adds. -/
def payload : WriteSite → List UInt8
  | .sendInLoop _ data => data
  | .sendInLoopBuf _ buf => buf
  | .sendOutputBufInLoop | .handleWrite => []

/-- The call gets to its write, by the tests of the code. -/
def Writes (w : TcpConnection) : WriteSite → Prop
  | .sendInLoop _ _ | .sendInLoopBuf _ _ =>
    w.channel.isEnableWrite = false ∧ w.outputBuf.length = 0
  | .sendOutputBufInLoop => w.channel.isEnableWrite = false ∧ w.outputBuf.length > 0
  | .handleWrite => w.channel.isEnableWrite = true

end WriteSite

/-- The connection is not disconnected, its descriptor is open and the poller
knows its channel as the channel's status says. -/
structure Live (w : TcpConnection) : Prop where
  state : w.state ≠ .disconnected
  opened : 0 ≤ w.channel.fd
  registered : w.Registered

/-- A failed write has changed nothing but that the bytes wait: `w'` has the
state of `w`, the bytes that waited and then the new ones, no close was
reported, and the interest set waits for the descriptor to become writable
whenever bytes are pending. -/
structure Tolerated (w : TcpConnection) (payload : List UInt8) (w' : TcpConnection) : Prop where
  state : w'.state = w.state
  pending : w'.outputBuf = w.outputBuf ++ payload
  silent : ∃ l, w'.log = w.log ++ l ∧ ∀ a ∈ l, a ≠ .onClose ∧ ∀ id, a ≠ .removeConnection id
  armed : w'.outputBuf ≠ [] → ∃ events,
    w'.poller.interest w'.channel.fd = some (w'.self, events) ∧ events.write = true

variable {w w' : TcpConnection}

/-! ### Runs -/

/-- No step leaves the state `disconnected`. -/
theorem disconnected_step {i : Input} (h : w.state = .disconnected) (hstep : step w i = some w') :
    w'.state = .disconnected := by
  cases i with
  | onConnection =>
    simp only [step, h, reduceCtorEq, ↓reduceIte] at hstep
  | handleRead r onClose =>
    obtain rfl := Option.some.inj hstep
    unfold TcpConnection.handleRead
    rw [if_pos h]
    exact h
  | handleWrite r onClose =>
    obtain rfl := Option.some.inj hstep
    unfold TcpConnection.handleWrite
    rw [if_pos h]
    exact h
  | handleClose onClose =>
    obtain rfl := Option.some.inj hstep
    exact handleClose_state (quiet_runOnClose onClose) w
  | handleError =>
    obtain rfl := Option.some.inj hstep
    exact h
  | call c r onClose =>
    obtain rfl := Option.some.inj hstep
    rw [(silent_callInLoop h r _ c).state, h]
  | foreign thread seen c =>
    simp only [step] at hstep
    split_ifs at hstep
    obtain rfl := Option.some.inj hstep
    cases c <;> simp only [callForeign] <;> (try split) <;> exact h
  | teardown onClose =>
    obtain rfl := Option.some.inj hstep
    exact removeItself_state (quiet_runOnClose onClose) w
  | foreignTeardown =>
    obtain rfl := Option.some.inj hstep
    exact h
  | delayedForceClose onClose =>
    simp only [step] at hstep
    split_ifs at hstep
    obtain rfl := Option.some.inj hstep
    rcases forceCloseInLoop_state (quiet_runOnClose onClose) { w with delayed := w.delayed - 1 }
      with hsame | hclosed
    · rw [hsame]
      exact h
    · exact hclosed
  | swapTasks | endTasks =>
    obtain ⟨q, -, rfl⟩ := Option.map_eq_some_iff.1 hstep
    exact h
  | nextTask r onClose =>
    obtain ⟨⟨t, q⟩, -, rfl⟩ := Option.map_eq_some_iff.1 hstep
    have hclosed : { w with loop := q }.state = .disconnected := h
    have hquiet := quiet_runOnClose onClose
    generalize { w with loop := q } = v at hclosed
    cases t with
    | sendInLoopStr | sendInLoopBuf | sendOutputBufInLoop =>
      simp only [runTask, sendInLoop, sendInLoopBuf, sendOutputBufInLoop, hclosed, ↓reduceIte]
    | shutdownInLoop mark =>
      simp only [runTask, shutdownInLoop, hclosed, reduceCtorEq, ↓reduceIte]
    | forceCloseInLoop =>
      simp only [runTask, forceCloseInLoop, hclosed, reduceCtorEq, or_self, ↓reduceIte]
    | enableReadInLoop => exact (silent_enableReadInLoop v).state.trans hclosed
    | disableReadInLoop => exact (silent_disableReadInLoop v).state.trans hclosed
    | enableWriteInLoop => exact (silent_enableWriteInLoop v).state.trans hclosed
    | disableWriteInLoop => exact (silent_disableWriteInLoop v).state.trans hclosed
    | removeItself => exact removeItself_state hquiet v
    | onWriteComplete | onHighWaterMark | tie => exact hclosed
  | otherUpdate c ch | otherRemove c ch =>
    simp only [step] at hstep
    split_ifs at hstep
    obtain rfl := Option.some.inj hstep
    exact h

/-- The registration of a connection that is not disconnected. -/
theorem live_step (w : TcpConnection) (i : Input) (w' : TcpConnection)
    (h : w.state ≠ .disconnected → RegInv w) (hstep : step w i = some w') :
    w'.state ≠ .disconnected → RegInv w' := by
  intro hlive'
  have hlive : w.state ≠ .disconnected := fun hd => hlive' (disconnected_step hd hstep)
  refine regInv_step w i w' (h hlive) ?_ hstep
  -- a switch is late only after the close
  cases i <;> first | trivial | exact fun _ _ hl => hlive hl.1 | exact fun _ _ _ hl => hlive hl.1

/-- **In every run, a connection that is not disconnected is live.** -/
theorem live_of_run {self : ChanId} {sockfd : ℕ} {connId : ℤ} {handler : Bool} {is : List Input}
    (hrun : run step (init self sockfd connId handler) is = some w)
    (hstate : w.state ≠ .disconnected) : w.Live := by
  have hall : Always step (fun w => w.state ≠ .disconnected → RegInv w)
      (init self sockfd connId handler) is :=
    always_invariant live_step fun _ => regInv_init self sockfd connId handler
  have hinv := hall.last hrun hstate
  exact ⟨hstate, hinv.opened hstate, hinv.registered⟩

/-! ### The sending functions -/

/-- `wantWrite` arms a channel that did not wait for the descriptor. -/
theorem interest_wantWrite (h : w.Registered) (hfd : 0 ≤ w.channel.fd)
    (hoff : w.channel.isEnableWrite = false) :
    w.wantWrite.poller.interest w.wantWrite.channel.fd =
      some (w.wantWrite.self, w.channel.events.union .WriteEvent) := by
  have hne : w.channel.events.union .WriteEvent ≠ .NoneEvent := by
    simp [Events.union, Events.WriteEvent, Events.NoneEvent]
  have hindex : (w.poller.updateChannel w.self
      { w.channel with events := w.channel.events.union .WriteEvent }).2.index = normal :=
    updateChannel_index_of_event hne
  have hint := updateChannel_interest (e := w.channel.events.union .WriteEvent) h.1 (h.2 hfd)
    w.channel.fd
  rw [if_pos rfl, if_pos hindex] at hint
  unfold wantWrite
  rw [if_neg (by simp [hoff])]
  unfold enableWriteEvent updateEvent
  dsimp only
  rw [updateChannel_fd]
  exact hint

/-- `v` is about to wait: it has the registration of `w`, and `payload` waits
behind what waited in `w`. -/
structure Kept (w : TcpConnection) (payload : List UInt8) (v : TcpConnection) : Prop where
  self : v.self = w.self
  state : v.state = w.state
  channel : v.channel = w.channel
  poller : v.poller = w.poller
  pending : v.outputBuf = w.outputBuf ++ payload
  silent : ∃ l, v.log = w.log ++ l ∧ ∀ a ∈ l, a ≠ .onClose ∧ ∀ id, a ≠ .removeConnection id

/-- When nothing is pending, nothing has to be armed. -/
theorem Kept.tolerated {payload : List UInt8} {v : TcpConnection} (hk : Kept w payload v)
    (hnil : v.outputBuf = []) : Tolerated w payload v :=
  ⟨hk.state, hk.pending, hk.silent, fun hne => absurd hnil hne⟩

/-- Waiting for the descriptor arms the channel. -/
theorem Kept.tolerated_wantWrite {payload : List UInt8} {v : TcpConnection} (h : w.Live)
    (hoff : w.channel.isEnableWrite = false) (hk : Kept w payload v) :
    Tolerated w payload v.wantWrite := by
  have hreg : v.Registered := by
    unfold Registered
    rw [hk.self, hk.channel, hk.poller]
    exact h.registered
  have hfd : 0 ≤ v.channel.fd := hk.channel ▸ h.opened
  have hint := interest_wantWrite hreg hfd (by rw [hk.channel, hoff])
  have hwant := sent_wantWrite v
  obtain ⟨l, hl, hsilent⟩ := hk.silent
  refine ⟨hwant.state.trans hk.state, ?_, ⟨l, ?_, hsilent⟩, fun _ => ⟨_, hint, ?_⟩⟩
  · exact (congrArg OutputStream.pending hwant.output).trans hk.pending
  · rw [hwant.log, List.append_nil, hl]
  · simp [Events.union, Events.WriteEvent]

/-- The two errors are not fatal for `dealErr`. -/
theorem Transient.dealErr {e : Errno} (he : Transient e) : dealErr e = false := by
  rcases he with rfl | rfl <;> rfl

/-- `highWater` only queues a callback. -/
theorem Kept.of_highWater {payload : List UInt8} {v : TcpConnection} {remain : ℕ}
    (hself : v.self = w.self) (hstate : v.state = w.state) (hchannel : v.channel = w.channel)
    (hpoller : v.poller = w.poller) {l : List Act} (hlog : v.log = w.log ++ l)
    (hsilent : ∀ a ∈ l, a ≠ .onClose ∧ ∀ id, a ≠ .removeConnection id) :
    Kept w payload { v.highWater remain with outputBuf := w.outputBuf ++ payload } := by
  unfold highWater
  dsimp only
  split <;> exact ⟨hself, hstate, hchannel, hpoller, rfl, l, hlog, hsilent⟩

/-- **`sendInLoop` keeps its argument** when its write fails for the moment. -/
theorem tolerated_sendInLoop (h : w.Live) (tag : Tag) (data : List UInt8)
    (hwrites : (WriteSite.sendInLoop tag data).Writes w) {e : Errno} (he : Transient e) :
    Tolerated w data (w.sendInLoop tag data (.failed e)) := by
  obtain ⟨hoff, hnil⟩ := hwrites
  have hpending : w.outputBuf = [] := List.length_eq_zero_iff.1 hnil
  have hsilent : ∀ a ∈ [Act.execute tag data, .writeErr e],
      a ≠ .onClose ∧ ∀ id, a ≠ .removeConnection id := by simp
  have hdirect : (w.emit (.execute tag data)).channel.isEnableWrite = false ∧
      (w.emit (.execute tag data)).outputBuf.length = 0 := ⟨hoff, hnil⟩
  unfold TcpConnection.sendInLoop
  rw [if_neg h.state]
  dsimp only
  rw [if_pos hdirect]
  simp only [writeDirect, he.dealErr, true_and, Nat.sub_zero, List.drop_zero]
  split
  case isTrue =>
    have hkept : Kept w data { ((w.emit (.execute tag data)).emit (.writeErr e)).highWater
        data.length with outputBuf := w.outputBuf ++ data } :=
      Kept.of_highWater rfl rfl rfl rfl (l := [.execute tag data, .writeErr e]) (by simp) hsilent
    exact hkept.tolerated_wantWrite h hoff
  case isFalse hempty =>
    have hdata : data = [] := List.length_eq_zero_iff.1 (by omega)
    have hkept : Kept w data ((w.emit (.execute tag data)).emit (.writeErr e)) := by
      refine ⟨rfl, rfl, rfl, rfl, ?_, [.execute tag data, .writeErr e], by simp, hsilent⟩
      rw [hdata, List.append_nil]
      rfl
    exact hkept.tolerated hpending

/-- **`sendOutputBufInLoop` keeps what waits** when its write fails for the
moment. -/
theorem tolerated_sendOutputBufInLoop (h : w.Live)
    (hwrites : WriteSite.sendOutputBufInLoop.Writes w) {e : Errno} (he : Transient e) :
    Tolerated w [] (w.sendOutputBufInLoop (.failed e)) := by
  obtain ⟨hoff, hpos⟩ := hwrites
  have hkept : Kept w [] (w.emit (.writeErr e)) :=
    ⟨rfl, rfl, rfl, rfl, (List.append_nil _).symm, [.writeErr e], rfl, by simp⟩
  have hsame : w.sendOutputBufInLoop (.failed e) = (w.emit (.writeErr e)).wantWrite := by
    unfold TcpConnection.sendOutputBufInLoop
    have hdirect : w.channel.isEnableWrite = false ∧ w.outputBuf.length > 0 := ⟨hoff, hpos⟩
    rw [if_neg h.state]
    simp only [if_pos hdirect, writeDirect, he.dealErr, List.drop_zero, Nat.sub_zero, true_and,
      if_pos hpos]
  rw [hsame]
  exact hkept.tolerated_wantWrite h hoff

/-- **`handleWrite` closes the connection** when its write fails, whatever the
error. -/
theorem handleWrite_failed (hlive : w.state ≠ .disconnected)
    (hwrites : WriteSite.handleWrite.Writes w) (e : Errno)
    {onClose : TcpConnection → TcpConnection} (hquiet : Quiet onClose) :
    (w.handleWrite (.failed e) onClose).state = .disconnected := by
  have hon : w.channel.isEnableWrite = true := hwrites
  unfold TcpConnection.handleWrite
  rw [if_neg hlive, if_pos hon]
  exact handleClose_state hquiet _

/-- **Where a write that fails for the moment is tolerated.**  On every
connection that is not disconnected, with every content of `outputBuf`: a write
that fails with `EAGAIN` or `EINTR` leaves the state, the pending bytes and the
write interest as they should be, without a close, if and only if it was not
issued by `handleWrite`. -/
theorem transient_iff (h : w.Live) (site : WriteSite) (hwrites : site.Writes w) {e : Errno}
    (he : Transient e) (onClose : List Call) :
    Tolerated w site.payload (site.call w (.failed e) (runOnClose onClose)) ↔
      site ≠ .handleWrite := by
  cases site with
  | sendInLoop tag data =>
    exact iff_of_true (tolerated_sendInLoop h tag data hwrites he) (by simp)
  | sendInLoopBuf tag buf =>
    refine iff_of_true ?_ (by simp)
    rw [WriteSite.call, sendInLoopBuf_fst]
    exact tolerated_sendInLoop h tag buf hwrites he
  | sendOutputBufInLoop => exact iff_of_true (tolerated_sendOutputBufInLoop h hwrites he) (by simp)
  | handleWrite =>
    refine iff_of_false (fun ht => ?_) (by simp)
    have hclosed := handleWrite_failed h.state hwrites e (quiet_runOnClose onClose)
    exact h.state (ht.state.symm.trans hclosed)

/-- The hypotheses are satisfiable: the first write of a connection fails with
`EAGAIN`. -/
theorem transient_iff_send :
    ∃ w, run step (init 0 5 1 true) [.onConnection] = some w ∧
      Tolerated w [1, 2]
        (w.sendInLoop { thread := none, serial := 0 } [1, 2] (.failed .EAGAIN)) := by
  have hrun : run step (init 0 5 1 true) [.onConnection] = some _ := rfl
  have hlive := live_of_run hrun (by decide)
  have hiff := transient_iff hlive (.sendInLoop { thread := none, serial := 0 } [1, 2]) ⟨rfl, rfl⟩
    (Or.inl rfl : Transient .EAGAIN) []
  exact ⟨_, hrun, hiff.2 (by decide)⟩

/-- **A full socket closes the connection.**  A connection has sent three bytes,
of which the kernel has taken one; the next write, from the poller, fails with
`EAGAIN`, and the two bytes that wait go with the connection. -/
theorem handleWrite_eagain :
    let is : List Input := [.onConnection, .call (.send [1, 2, 3]) (.accepted 1) []]
    ∃ w, run step (init 0 5 1 true) is = some w ∧ w.state = .connected ∧ w.outputBuf = [2, 3] ∧
      WriteSite.handleWrite.Writes w ∧
      (w.handleWrite (.failed .EAGAIN) (runOnClose [])).state = .disconnected ∧
      ¬ Tolerated w [] (w.handleWrite (.failed .EAGAIN) (runOnClose [])) := by
  refine ⟨_, rfl, rfl, rfl, rfl, rfl, fun ht => ?_⟩
  cases ht.state

end TcpConnection
end Net
end Sevent
