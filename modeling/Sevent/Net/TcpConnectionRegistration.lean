/-
# When a disconnected connection stays out of the poller

`removeItself` takes the channel out of the poller, and the functions that send
or close test the state first.  The four functions that switch the read and the
write interest do not: they test the sign of the descriptor, which only
`forceClose` makes negative.  After any other close the descriptor is open
until the object is destroyed, and `enableRead`, say, puts the channel of a
disconnected connection back into `channelMap` and the interest set
(`enableRead_after_close`).

`registration_iff` shows that this is all: the channel stays out of the poller
in every state of a run if and only if no switch takes effect on a disconnected
connection whose descriptor is open.
-/

import Sevent.Net.TcpConnectionSpec
import Sevent.Lib.Run

namespace Sevent
namespace Net
namespace TcpConnection

open Transition EpollPoller

/-- A disconnected connection is in neither table of the poller. -/
def OutOfPoller (w : TcpConnection) : Prop := w.state = .disconnected → w.poller.Gone w.self

/-- The task is a switch that calls `updateChannel`, by the tests of the code. -/
def switches (w : TcpConnection) : Task → Bool
  | .enableReadInLoop => !w.isRead || !w.channel.isEnableRead
  | .disableReadInLoop => w.isRead || w.channel.isEnableRead
  | .enableWriteInLoop => !w.isWrite || !w.channel.isEnableWrite
  | .disableWriteInLoop => w.isWrite || w.channel.isEnableWrite
  | _ => false

/-- The switch that a public method runs in the loop. -/
def switchOf : Call → Option Task
  | .enableRead => some .enableReadInLoop
  | .disableRead => some .disableReadInLoop
  | .enableWrite => some .enableWriteInLoop
  | .disableWrite => some .disableWriteInLoop
  | _ => none

/-- The task is a switch that takes effect on a disconnected connection whose
descriptor is open. -/
def Late (w : TcpConnection) (t : Task) : Prop :=
  w.state = .disconnected ∧ 0 ≤ w.channel.fd ∧ w.switches t = true

/-- The condition: no switch that the step runs is late. -/
def InTime (w : TcpConnection) : Input → Prop
  | .call c _ _ => ∀ t, switchOf c = some t → ¬ w.Late t
  | .nextTask _ _ => ∀ t q, w.loop.nextTask = some (t, q) → ¬ w.Late t
  | _ => True

/-- What a run of such steps keeps. -/
structure RegInv (w : TcpConnection) : Prop where
  registered : w.Registered
  opened : w.state ≠ .disconnected → 0 ≤ w.channel.fd
  ready : w.state = .disconnected → w.channel.index = EpollPoller.ready

variable {w w' : TcpConnection}

/-- The invariant has a disconnected connection out of the poller. -/
theorem RegInv.outOfPoller (h : RegInv w) : w.OutOfPoller :=
  fun hstate => h.registered.1.gone (h.ready hstate)

/-- A function of an open connection that keeps the registration keeps the
invariant. -/
theorem RegInv.of_keeps (h : RegInv w) (hlive : w.state ≠ .disconnected) (hk : Keeps w w') :
    RegInv w' := by
  refine ⟨hk.registered (h.opened hlive) h.registered, fun _ => ?_, fun hd => ?_⟩
  · rw [hk.fd]
    exact h.opened hlive
  · exact absurd (hk.state ▸ hd) hlive

/-- A function that writes none of these fields keeps the invariant. -/
theorem RegInv.of_eq (h : RegInv w) (hstate : w'.state = w.state) (hself : w'.self = w.self)
    (hchannel : w'.channel = w.channel) (hpoller : w'.poller = w.poller) : RegInv w' := by
  refine ⟨?_, ?_, ?_⟩
  · unfold Registered
    rw [hself, hchannel, hpoller]
    exact h.registered
  · rw [hstate, hchannel]
    exact h.opened
  · rw [hstate, hchannel]
    exact h.ready

/-! ### Closing -/

section Closing

variable {onClose : TcpConnection → TcpConnection} (hquiet : Quiet onClose)
include hquiet

/-- **`removeItself` takes the channel out of the poller**, whatever `onClose`
has switched. -/
theorem regInv_removeItself (h : w.Registered) : RegInv (w.removeItself onClose) := by
  have hsilent := silent_onClose hquiet { w with state := .disconnected } rfl
  have hreg := hsilent.registered h
  have hgone := hreg.1.remove
  refine ⟨⟨hgone.tracks rfl, fun hfd => (hreg.2 hfd).remove⟩,
    fun hd => absurd (removeItself_state hquiet w) hd, fun _ => rfl⟩

/-- `removeItself` leaves the descriptor. -/
theorem removeItself_fd (w : TcpConnection) :
    (w.removeItself onClose).channel.fd = w.channel.fd :=
  (silent_onClose hquiet { w with state := .disconnected } rfl).fd

/-- A close keeps the invariant: it takes the channel out. -/
theorem regInv_handleClose (h : RegInv w) : RegInv (w.handleClose onClose) := by
  unfold handleClose
  split
  · exact h
  · exact (regInv_removeItself hquiet h.registered).of_eq rfl rfl rfl rfl

/-- `handleClose` leaves the descriptor open; only `forceClose` makes it
negative. -/
theorem handleClose_fd (w : TcpConnection) :
    (w.handleClose onClose).channel.fd = w.channel.fd := by
  unfold handleClose
  split
  · rfl
  · exact removeItself_fd hquiet w

/-- A close by force keeps the invariant. -/
theorem regInv_forceCloseInLoop (h : RegInv w) : RegInv (w.forceCloseInLoop onClose) := by
  unfold forceCloseInLoop
  split
  case isTrue hstate =>
    have hlive : w.state ≠ .disconnected := by
      rcases hstate with hs | hs <;> rw [hs] <;> decide
    have hopen := h.opened hlive
    have hclosing : RegInv { w with state := .disconnecting } :=
      ⟨h.registered, fun _ => hopen, fun hd => by cases hd⟩
    have hclosed := regInv_handleClose hquiet hclosing
    have hdisc := handleClose_state hquiet { w with state := .disconnecting }
    have hfd : ({ w with state := .disconnecting }.handleClose onClose).channel.fd =
      w.channel.fd := handleClose_fd hquiet { w with state := .disconnecting }
    have hgone := hclosed.outOfPoller hdisc
    refine ⟨⟨(hgone.closeFd _).tracks (hclosed.ready hdisc), fun hneg => ?_⟩,
      fun hd => absurd hdisc hd, fun _ => hclosed.ready hdisc⟩
    dsimp only [emit_channel] at hneg
    rw [hfd] at hneg
    omega
  case isFalse => exact h

end Closing

/-! ### Switching -/

/-- A switch of a live connection keeps the registration. -/
theorem RegInv.of_silent (h : RegInv w) (hlive : w.state ≠ .disconnected) (hs : Silent w w') :
    RegInv w' :=
  h.of_keeps hlive ⟨hs.state, hs.self, hs.fd, fun _ => hs.registered⟩

/-- What a switch does when it takes effect: one update of the mask. -/
theorem runTask_of_late {t : Task} (h : w.Late t) (r : WriteResult)
    (onClose : TcpConnection → TcpConnection) :
    ∃ events isRead isWrite, w.runTask r onClose t =
      { w.updateEvent events with isRead := isRead, isWrite := isWrite } := by
  obtain ⟨-, hfd, hsw⟩ := h
  have hfd' : ¬ w.channel.fd < 0 := Int.not_lt.2 hfd
  cases t with
  | enableReadInLoop =>
    refine ⟨w.channel.events.union .ReadEvent, true, w.isWrite, ?_⟩
    have hcond : ¬ w.isRead = true ∨ ¬ w.channel.isEnableRead = true := by
      simpa [switches] using hsw
    simp only [runTask, enableReadInLoop, hfd', hcond, ↓reduceIte]
    rfl
  | disableReadInLoop =>
    refine ⟨w.channel.events.diff .ReadEvent, false, w.isWrite, ?_⟩
    have hcond : w.isRead = true ∨ w.channel.isEnableRead = true := by
      simpa [switches] using hsw
    simp only [runTask, disableReadInLoop, hfd', hcond, ↓reduceIte]
    rfl
  | enableWriteInLoop =>
    refine ⟨w.channel.events.union .WriteEvent, w.isRead, true, ?_⟩
    have hcond : ¬ w.isWrite = true ∨ ¬ w.channel.isEnableWrite = true := by
      simpa [switches] using hsw
    simp only [runTask, enableWriteInLoop, hfd', hcond, ↓reduceIte]
    rfl
  | disableWriteInLoop =>
    refine ⟨w.channel.events.diff .WriteEvent, w.isRead, false, ?_⟩
    have hcond : w.isWrite = true ∨ w.channel.isEnableWrite = true := by
      simpa [switches] using hsw
    simp only [runTask, disableWriteInLoop, hfd', hcond, ↓reduceIte]
    rfl
  | _ => cases hsw

/-- **A late switch registers a disconnected connection.** -/
theorem not_outOfPoller_of_late (h : RegInv w) {t : Task} (hlate : w.Late t) (r : WriteResult)
    (onClose : TcpConnection → TcpConnection) : ¬ (w.runTask r onClose t).OutOfPoller := by
  obtain ⟨events, isRead, isWrite, hrun⟩ := runTask_of_late hlate r onClose
  obtain ⟨hstate, hfd, -⟩ := hlate
  rw [hrun]
  exact fun hout => (h.registered.updateEvent hfd events).1.not_gone updateChannel_index_ne
    (hout hstate)

/-- The public switches run in the loop's thread, and as tasks, are the same. -/
theorem callInLoop_switch {c : Call} {t : Task} (h : switchOf c = some t) (r : WriteResult)
    (onClose : TcpConnection → TcpConnection) :
    w.callInLoop r onClose c = w.runTask r onClose t := by
  cases c <;> cases h <;> rfl

/-- A switch that is not late keeps the registration. -/
theorem regInv_switch (h : RegInv w) {c : Call} {t : Task} (hc : switchOf c = some t)
    (hnot : ¬ w.Late t) (r : WriteResult) (onClose : TcpConnection → TcpConnection) :
    RegInv (w.runTask r onClose t) := by
  by_cases hstate : w.state = .disconnected
  · have hsame : w.runTask r onClose t = w := by
      by_cases hfd : w.channel.fd < 0
      · cases c <;> cases hc <;>
          simp [runTask, enableReadInLoop, disableReadInLoop, enableWriteInLoop,
            disableWriteInLoop, hfd]
      · have hsw : w.switches t = false := by
          by_contra hne
          exact hnot ⟨hstate, Int.not_lt.1 hfd, by simpa using hne⟩
        cases c <;> cases hc <;>
          simp_all [switches, runTask, enableReadInLoop, disableReadInLoop, enableWriteInLoop,
            disableWriteInLoop]
    rw [hsame]
    exact h
  · cases c <;> cases hc
    · exact h.of_silent hstate (silent_enableReadInLoop w)
    · exact h.of_silent hstate (silent_disableReadInLoop w)
    · exact h.of_silent hstate (silent_enableWriteInLoop w)
    · exact h.of_silent hstate (silent_disableWriteInLoop w)

/-! ### Steps -/

/-- A send keeps the invariant: it tests the state before it registers for
writing. -/
theorem regInv_sendInLoop (h : RegInv w) (tag : Tag) (data : List UInt8) (r : WriteResult) :
    RegInv (w.sendInLoop tag data r) := by
  by_cases hstate : w.state = .disconnected
  · unfold sendInLoop
    rwa [if_pos hstate]
  · exact h.of_keeps hstate (sendInLoop_output hstate tag data r).toKeeps

/-- Sending what is pending keeps the invariant. -/
theorem regInv_sendOutputBuf (h : RegInv w) (r : WriteResult) :
    RegInv (w.sendOutputBufInLoop r) := by
  by_cases hstate : w.state = .disconnected
  · unfold sendOutputBufInLoop
    rwa [if_pos hstate]
  · exact h.of_keeps hstate (sendOutputBufInLoop_output hstate r).toKeeps

/-- A shutdown keeps the invariant. -/
theorem regInv_shutdownInLoop (h : RegInv w) (mark : ℕ) : RegInv (w.shutdownInLoop mark) := by
  unfold shutdownInLoop
  split
  case isTrue hstate =>
    have hopen : 0 ≤ w.channel.fd := h.opened (by rw [hstate]; decide)
    have hshut : RegInv ({ w with state := .disconnecting }.emit (.shutdown mark)) :=
      ⟨h.registered, fun _ => hopen, fun hd => by cases hd⟩
    dsimp only
    split
    · exact hshut
    · exact hshut.of_eq rfl rfl rfl rfl
  case isFalse => exact h

section Quiet

variable {onClose : TcpConnection → TcpConnection} (hquiet : Quiet onClose)
include hquiet

/-- A write of the loop keeps the invariant. -/
theorem regInv_handleWrite (h : RegInv w) (r : WriteResult) :
    RegInv (w.handleWrite r onClose) := by
  by_cases hstate : w.state = .disconnected
  · unfold handleWrite
    rwa [if_pos hstate]
  by_cases hwant : w.channel.isEnableWrite = true
  · cases r with
    | accepted n => exact h.of_keeps hstate (handleWrite_output hstate hwant n onClose).toKeeps
    | failed e =>
      unfold handleWrite
      rw [if_neg hstate, if_pos hwant]
      exact regInv_handleClose hquiet (h.of_eq rfl rfl rfl rfl)
  · unfold handleWrite
    rwa [if_neg hstate, if_neg hwant]

/-- Reading keeps the invariant; at the end of the file it closes. -/
theorem regInv_handleRead (h : RegInv w) (r : ReadResult) :
    RegInv (w.handleRead r onClose) := by
  unfold handleRead
  split
  · exact h
  · cases r with
    | data b bytes =>
      dsimp only
      split
      · exact h.of_eq rfl rfl rfl rfl
      · exact h.of_eq rfl rfl rfl rfl
    | eof => exact regInv_handleClose hquiet h
    | failed => exact h

/-- A call in the loop's thread keeps the invariant, unless it is a switch that
comes too late. -/
theorem regInv_callInLoop (h : RegInv w) (r : WriteResult) {c : Call}
    (hgood : ∀ t, switchOf c = some t → ¬ w.Late t) : RegInv (w.callInLoop r onClose c) := by
  have haccept : ∀ data, RegInv (w.accept none data).1 := fun _ => h.of_eq rfl rfl rfl rfl
  cases c with
  | send data =>
    simp only [callInLoop]
    split
    · exact regInv_sendInLoop (haccept data) _ data r
    · exact h
  | sendBuffer buf | sendBufferMove buf =>
    simp only [callInLoop, sendInLoopBuf_fst]
    split
    · exact regInv_sendInLoop (haccept buf) _ buf r
    · exact h
  | sendOutputBuf =>
    simp only [callInLoop]
    split
    · exact regInv_sendOutputBuf h r
    · exact h
  | shutdown =>
    simp only [callInLoop]
    split
    · exact regInv_shutdownInLoop h w.accepted
    · exact h
  | forceClose =>
    simp only [callInLoop]
    split
    · exact regInv_forceCloseInLoop hquiet h
    · exact h
  | forceCloseDelay =>
    simp only [callInLoop]
    split
    · exact h.of_eq rfl rfl rfl rfl
    · exact h
  | enableRead => exact regInv_switch (c := .enableRead) h rfl (hgood _ rfl) r onClose
  | disableRead => exact regInv_switch (c := .disableRead) h rfl (hgood _ rfl) r onClose
  | enableWrite => exact regInv_switch (c := .enableWrite) h rfl (hgood _ rfl) r onClose
  | disableWrite => exact regInv_switch (c := .disableWrite) h rfl (hgood _ rfl) r onClose
  | setHighWaterMark bytes => exact h.of_eq rfl rfl rfl rfl
  | setTcpHandler handler => exact h.of_eq rfl rfl rfl rfl

/-- A task keeps the invariant, unless it is a switch that comes too late. -/
theorem regInv_runTask (h : RegInv w) (r : WriteResult) {t : Task} (hgood : ¬ w.Late t) :
    RegInv (w.runTask r onClose t) := by
  cases t with
  | sendInLoopStr tag data => exact regInv_sendInLoop h tag data r
  | sendInLoopBuf tag buf =>
    simp only [runTask, sendInLoopBuf_fst]
    exact regInv_sendInLoop h tag buf r
  | sendOutputBufInLoop => exact regInv_sendOutputBuf h r
  | shutdownInLoop mark => exact regInv_shutdownInLoop h mark
  | forceCloseInLoop => exact regInv_forceCloseInLoop hquiet h
  | enableReadInLoop => exact regInv_switch (c := .enableRead) h rfl hgood r onClose
  | disableReadInLoop => exact regInv_switch (c := .disableRead) h rfl hgood r onClose
  | enableWriteInLoop => exact regInv_switch (c := .enableWrite) h rfl hgood r onClose
  | disableWriteInLoop => exact regInv_switch (c := .disableWrite) h rfl hgood r onClose
  | removeItself => exact regInv_removeItself hquiet h.registered
  | onWriteComplete => exact h.of_eq rfl rfl rfl rfl
  | onHighWaterMark len => exact h.of_eq rfl rfl rfl rfl
  | tie => exact h

end Quiet

/-- A call from another thread touches neither the state nor the poller. -/
theorem regInv_callForeign (h : RegInv w) (thread : ℕ) (seen : State) (c : Call) :
    RegInv (w.callForeign thread seen c) := by
  cases c <;> simp only [callForeign] <;> (try split) <;>
    first | exact h | exact h.of_eq rfl rfl rfl rfl

/-- Calls of other channels keep the registration. -/
theorem RegInv.of_poller (h : RegInv w) {p : EpollPoller ℤ} (ht : p.Tracks w.self w.channel)
    (hf : 0 ≤ w.channel.fd → p.Free w.self w.channel.fd) : RegInv { w with poller := p } :=
  ⟨⟨ht, hf⟩, h.opened, h.ready⟩

/-- Every step in time keeps the registration. -/
theorem regInv_step (w : TcpConnection) (i : Input) (w' : TcpConnection) (h : RegInv w)
    (hgood : w.InTime i) (hstep : step w i = some w') : RegInv w' := by
  cases i with
  | onConnection =>
    simp only [step] at hstep
    split at hstep
    case isFalse => cases hstep
    case isTrue hc =>
      obtain rfl := Option.some.inj hstep
      have hopen : 0 ≤ w.channel.fd := h.opened (by rw [hc]; decide)
      have hconn : RegInv { w with state := .connected } :=
        ⟨h.registered, fun _ => hopen, fun hd => by cases hd⟩
      have henabled : RegInv { w with state := .connected }.enableReadEvent :=
        hconn.of_keeps (fun hd => by cases hd) (Keeps.updateEvent _ _)
      split
      · exact henabled.of_eq rfl rfl rfl rfl
      · exact henabled
  | handleRead r onClose =>
    obtain rfl := Option.some.inj hstep
    exact regInv_handleRead (quiet_runOnClose onClose) h r
  | handleWrite r onClose =>
    obtain rfl := Option.some.inj hstep
    exact regInv_handleWrite (quiet_runOnClose onClose) h r
  | handleClose onClose =>
    obtain rfl := Option.some.inj hstep
    exact regInv_handleClose (quiet_runOnClose onClose) h
  | handleError =>
    obtain rfl := Option.some.inj hstep
    exact h
  | call c r onClose =>
    obtain rfl := Option.some.inj hstep
    exact regInv_callInLoop (quiet_runOnClose onClose) h r hgood
  | foreign thread seen c =>
    simp only [step] at hstep
    split at hstep
    case isFalse => cases hstep
    case isTrue =>
      obtain rfl := Option.some.inj hstep
      exact regInv_callForeign h thread seen c
  | teardown onClose =>
    obtain rfl := Option.some.inj hstep
    exact regInv_removeItself (quiet_runOnClose onClose) h.registered
  | foreignTeardown =>
    obtain rfl := Option.some.inj hstep
    exact h.of_eq rfl rfl rfl rfl
  | delayedForceClose onClose =>
    simp only [step] at hstep
    split at hstep
    case isFalse => cases hstep
    case isTrue =>
      obtain rfl := Option.some.inj hstep
      exact regInv_forceCloseInLoop (quiet_runOnClose onClose) (h.of_eq rfl rfl rfl rfl)
  | swapTasks | endTasks =>
    obtain ⟨q, -, rfl⟩ := Option.map_eq_some_iff.1 hstep
    exact h.of_eq rfl rfl rfl rfl
  | nextTask r onClose =>
    obtain ⟨⟨t, q⟩, hq, rfl⟩ := Option.map_eq_some_iff.1 hstep
    have hrest : RegInv { w with loop := q } := h.of_eq rfl rfl rfl rfl
    exact regInv_runTask (quiet_runOnClose onClose) hrest r (hgood t q hq)
  | otherUpdate c ch =>
    simp only [step] at hstep
    split at hstep
    case isFalse => cases hstep
    case isTrue hc =>
      obtain rfl := Option.some.inj hstep
      exact h.of_poller (h.registered.1.updateChannel_other hc.1 hc.2.2) fun hfd =>
        (h.registered.2 hfd).updateChannel_other hc.2.2
  | otherRemove c ch =>
    simp only [step] at hstep
    split at hstep
    case isFalse => cases hstep
    case isTrue hc =>
      obtain rfl := Option.some.inj hstep
      exact h.of_poller (h.registered.1.remove_other hc.1 hc.2.2) fun hfd =>
        (h.registered.2 hfd).remove_other hc.2.2

/-- A connection that has just been made has the invariant; it is not registered
yet. -/
theorem regInv_init (self : ChanId) (sockfd : ℕ) (connId : ℤ) (handler : Bool) :
    RegInv (init self sockfd connId handler) := by
  refine ⟨⟨gone_empty.tracks rfl, fun _ _ _ hd => by cases hd⟩, fun _ => ?_, fun hd => by cases hd⟩
  exact Int.natCast_nonneg sockfd

/-- **When a disconnected connection stays out of the poller.**  In every run,
the channel of the disconnected connection is in neither table of the poller,
in all states, if and only if no switch of the read or write interest takes
effect on the disconnected connection while its descriptor is open. -/
theorem registration_iff (self : ChanId) (sockfd : ℕ) (connId : ℤ) (handler : Bool)
    (is : List Input) :
    Always step OutOfPoller (init self sockfd connId handler) is ↔
      Steps step InTime (init self sockfd connId handler) is := by
  refine always_iff_steps regInv_step (fun _ h => h.outOfPoller) ?_
    (regInv_init self sockfd connId handler)
  intro w i h hgood
  cases i with
  | call c r onClose =>
    obtain ⟨t, ht⟩ := not_forall.1 hgood
    obtain ⟨hc, hlate⟩ := Classical.not_imp.1 ht
    refine ⟨_, rfl, ?_⟩
    rw [callInLoop_switch hc]
    exact not_outOfPoller_of_late h (not_not.1 hlate) r _
  | nextTask r onClose =>
    obtain ⟨t, ht⟩ := not_forall.1 hgood
    obtain ⟨q, hq⟩ := not_forall.1 ht
    obtain ⟨hnext, hlate⟩ := Classical.not_imp.1 hq
    have hrest : RegInv { w with loop := q } := h.of_eq rfl rfl rfl rfl
    refine ⟨{ w with loop := q }.runTask r (runOnClose onClose) t,
      by simp only [step, hnext, Option.map_some], ?_⟩
    exact not_outOfPoller_of_late hrest (not_not.1 hlate) r _
  | _ => exact absurd trivial hgood

/-- **A late `enableRead`.**  The peer closes, and then the program calls
`enableRead`: the channel of the disconnected connection is registered. -/
theorem enableRead_after_close :
    ∃ w, run step (init 0 5 1 true) [.onConnection, .handleRead .eof [],
        .call .enableRead (.accepted 0) []] = some w ∧
      w.state = .disconnected ∧ w.poller.channelMap 5 = some 0 ∧
      w.poller.interest 5 = some (0, .ReadEvent) ∧ ¬ w.OutOfPoller := by
  refine ⟨_, rfl, rfl, rfl, rfl, fun h => (h rfl).1 5 rfl⟩

end TcpConnection
end Net
end Sevent
