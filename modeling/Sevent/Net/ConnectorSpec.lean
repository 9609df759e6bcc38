/-
# What a step of a connector does to its core

Whatever flags, delays and timers lead to it, a step has one of a few effects
on the core: nothing, one connect attempt, the end of the current attempt
(`release`: it is given up; `establish`: it has become a connection), or a step
of a connection.  `step_core` says so, and it says which steps make an attempt:
the ones that meet `Attempts`.

`Registered` is the part that the claims about a connector share: as long as no
attempt starts while another one is in progress, the connector's channel is in
the poller, for writing and under its own descriptor, exactly while the state
is `connecting`.
-/

import Sevent.Net.Connector

namespace Sevent
namespace Net
namespace Connector

/-- The results of `connect` after which the connector waits. -/
def Errno.inProgress : Errno → Bool
  | .zero | .EINPROGRESS | .EINTR | .EISCONN => true
  | _ => false

/-- The connector waits after the attempt. -/
def Attempt.waits (a : Attempt) : Bool := a.sock && a.err.inProgress

/-- What a step does to the core. -/
inductive Effect
  | none
  | attempt (a : Attempt)
  | release
  | establish
  | connShutdown (id : ℕ)
  | connClose (id : ℕ) (force : Bool)
  | connCloseEnd
  | connDestroy (id : ℕ)

namespace Core

/-- A new descriptor in the channel. -/
def openFd (c : Core) (sock : Bool) : Core :=
  (c.createNBlockfd sock).2.setFdUnSafe (c.createNBlockfd sock).1

/-- The current descriptor is closed. -/
def giveUp (c : Core) : Core := (c.close c.channel.fd).setState .disconnected

/-- `doconnect` when the connector is not stopped. -/
def attempt (c : Core) (a : Attempt) : Core :=
  if a.waits then (c.openFd a.sock).doconnecting else (c.openFd a.sock).giveUp

/-- The end of an attempt without a connection. -/
def release (c : Core) : Core := c.remove.giveUp

/-- The effects; `none` where one cannot happen. -/
def apply (c : Core) : Effect → Option Core
  | .none => some c
  | .attempt a => some (c.attempt a)
  | .release => if c.state = .connecting then some c.release else Option.none
  | .establish =>
    if c.state = .connecting ∧ c.closing = [] then some c.remove.onConnection else Option.none
  | .connShutdown id => some (c.connShutdown id)
  | .connClose id force => some (c.connClose id force)
  | .connCloseEnd => c.connCloseEnd
  | .connDestroy id => c.connDestroy id

/-- A state that is set to itself. -/
theorem setState_self {c : Core} {s : State} (h : c.state = s) : c.setState s = c := by
  subst h
  rfl

end Core

/-- The step makes a connect attempt: it runs `doconnect`, and the connector is
not stopped there. -/
def Attempts (w : Connector) : Input → Prop
  | .connect foreign _ => foreign = false ∧ w.started = false
  | .nextTask _ => w.closing = [] ∧ ∃ q, w.loop.nextTask = some (.connect, q)
  | .fire k _ => w.closing = [] ∧ w.isStop = false ∧ ∃ r, w.takeTimer k = some (.doconnect, r)
  | _ => False

/-- What a step may do: an attempt only where `Attempts` says so, and the end of
a `handleClose` only when `onClose` returns. -/
def Allowed (w : Connector) (i : Input) : Effect → Prop
  | .attempt _ => w.Attempts i
  | .connCloseEnd => i = .connCloseEnd
  | _ => True

/-- An effect that is allowed at any step. -/
def Effect.Plain : Effect → Prop
  | .attempt _ | .connCloseEnd => False
  | _ => True

variable {w w' : Connector} {i : Input} {a : Attempt} {e : Effect}

/-- An effect that is no attempt is allowed of any step. -/
theorem Effect.Plain.allowed (h : e.Plain) : w.Allowed i e := by
  cases e with
  | attempt a => exact h.elim
  | connCloseEnd => exact h.elim
  | _ => trivial

/-! ### The functions, one by one -/

/-- To retry gives the attempt up; the rest of it is the timer. -/
theorem toCore_retry : w.retry.toCore = w.toCore.giveUp := by
  unfold retry
  dsimp only
  split
  · split <;> rfl
  · rfl

/-- `handleError` leaves no attempt in progress. -/
theorem handleError_rest (w : Connector) :
    w.handleError.state ≠ .connecting ∧ w.handleError.closing = w.closing := by
  unfold handleError
  split
  case isTrue =>
    rw [toCore_retry]
    exact ⟨fun hs => (by cases hs), rfl⟩
  case isFalse hs => exact ⟨hs, rfl⟩

/-- What `connect` returned decides whether the connector waits for the socket
or gives the attempt up. -/
theorem toCore_onConnect (sockfd : Fd) (err : Errno) (hfd : w.channel.fd = sockfd) :
    (w.onConnect sockfd err).toCore =
      if err.inProgress then w.toCore.doconnecting else w.toCore.giveUp := by
  subst hfd
  cases err <;> first | rfl | exact toCore_retry

/-- **An attempt.** -/
theorem toCore_doconnect (hstop : w.isStop = false) :
    (w.doconnect a).toCore = w.toCore.attempt a := by
  have hopen : (w.onCore fun c => (c.createNBlockfd a.sock).2.setFdUnSafe
      (w.createNBlockfd a.sock).1).channel.fd = (w.createNBlockfd a.sock).1 := rfl
  unfold doconnect
  dsimp only
  rw [if_pos (by simp [hstop]), toCore_onConnect _ _ hopen]
  unfold Core.attempt Attempt.waits
  cases hsock : a.sock with
  | false => rfl
  | true => cases a.err <;> rfl

/-- A connector that was stopped makes no attempt. -/
theorem doconnect_stopped (hstop : w.isStop = true) : w.doconnect a = w := by
  unfold doconnect
  rw [if_neg (by simp [hstop])]

/-- `connect()` makes an attempt, whatever it resets besides. -/
theorem toCore_connect : (w.connect a).toCore = w.toCore.attempt a := by
  have h := toCore_doconnect (w := { w with isStop := false, retryCur := w.retryCount })
    (a := a) rfl
  unfold connect
  dsimp only
  split
  · exact h
  · exact h

/-- Closing while connecting gives the attempt up. -/
theorem apply_closeOnConnecting (c : Core) (h : c.state = .connecting) :
    c.closeOnConnecting = c.release := by
  unfold Core.closeOnConnecting
  rw [if_pos h]
  rfl

/-- Closing in any other state does nothing. -/
theorem closeOnConnecting_of_ne {c : Core} (h : c.state ≠ .connecting) :
    c.closeOnConnecting = c := if_neg h

/-- A stop call ends the current attempt, or it goes to the connection. -/
theorem stop_effect (c : Core) (f : Core → ℕ → Core) (e : ℕ → Effect)
    (hf : ∀ id, c.apply (e id) = some (f c id)) :
    ∃ e', (e' = .none ∨ e' = .release ∨ ∃ id, e' = e id) ∧
      c.apply e' = some
        (let c := c.closeOnConnecting
        match c.state, c.connection with
        | .connected, some id => f c id
        | _, _ => c) := by
  by_cases hs : c.state = .connecting
  · refine ⟨.release, by simp, ?_⟩
    rw [apply_closeOnConnecting c hs]
    unfold Core.apply
    rw [if_pos hs]
    rfl
  · rw [closeOnConnecting_of_ne hs]
    dsimp only
    split
    case h_1 id _ _ => exact ⟨e id, by simp, hf id⟩
    case h_2 => exact ⟨.none, by simp, rfl⟩

/-- The tasks other than `connect` make no attempt. -/
theorem runTask_effect (w : Connector) (a : Attempt) {task : Task} (htask : task ≠ .connect) :
    ∃ e, w.toCore.apply e = some (w.runTask a task).toCore ∧ e.Plain := by
  cases task with
  | connect => exact absurd rfl htask
  | stopInLoop =>
    obtain ⟨e, he, happ⟩ := stop_effect w.toCore (fun c id => c.connClose id false)
      (.connClose · false) fun id => rfl
    refine ⟨e, happ, ?_⟩
    rcases he with rfl | rfl | ⟨id, rfl⟩ <;> trivial
  | shutdownInLoop =>
    obtain ⟨e, he, happ⟩ := stop_effect w.toCore (fun c id => c.connShutdown id)
      .connShutdown fun id => rfl
    refine ⟨e, happ, ?_⟩
    rcases he with rfl | rfl | ⟨id, rfl⟩ <;> trivial
  | forceCloseInLoop =>
    obtain ⟨e, he, happ⟩ := stop_effect w.toCore (fun c id => c.connClose id true)
      (.connClose · true) fun id => rfl
    refine ⟨e, happ, ?_⟩
    rcases he with rfl | rfl | ⟨id, rfl⟩ <;> trivial

/-- A time-out gives the attempt up, or does nothing to the core. -/
theorem doTimeout_effect (w : Connector) :
    ∃ e, w.toCore.apply e = some w.doTimeout.toCore ∧ e.Plain := by
  unfold doTimeout
  split
  case isFalse => exact ⟨.none, rfl, trivial⟩
  case isTrue h =>
    have hne : w.state ≠ .connected := by
      rw [Bool.and_eq_true] at h
      exact of_decide_eq_true h.2
    by_cases hs : w.state = .connecting
    · refine ⟨.release, ?_, trivial⟩
      unfold Core.apply
      dsimp only [onCore]
      rw [if_pos hs, if_pos hs]
      split <;> rfl
    · have hd : w.toCore.setState .disconnected = w.toCore := by
        refine Core.setState_self ?_
        cases hw : w.state with
        | disconnected => rfl
        | connecting => exact absurd hw hs
        | connected => exact absurd hw hne
      refine ⟨.none, ?_, trivial⟩
      unfold Core.apply
      dsimp only [onCore]
      rw [if_neg hs, hd]
      split <;> rfl

/-- An event of the socket makes the attempt a connection, gives it up, or comes
too late and does nothing. -/
theorem handleWrite_effect (w : Connector) (soError : ℕ) (selfConnect : Bool)
    (hclosing : w.closing = []) :
    ∃ e, w.toCore.apply e = some (w.handleWrite soError selfConnect).toCore ∧ e.Plain := by
  unfold handleWrite
  split
  case isFalse => exact ⟨.none, rfl, trivial⟩
  case isTrue hs =>
    have hrelease : w.toCore.apply .release = some w.toCore.release := if_pos hs
    have hestablish : w.toCore.apply .establish = some w.toCore.remove.onConnection :=
      if_pos ⟨hs, hclosing⟩
    dsimp only
    split
    · exact ⟨.release, by rw [hrelease, toCore_retry]; rfl, trivial⟩
    · split
      · exact ⟨.release, by rw [hrelease, toCore_retry]; rfl, trivial⟩
      · split
        · exact ⟨.establish, hestablish, trivial⟩
        · exact ⟨.release, hrelease, trivial⟩

/-- An error of the socket gives the attempt up, or comes too late and does
nothing. -/
theorem handleError_effect (w : Connector) :
    ∃ e, w.toCore.apply e = some w.handleError.toCore ∧ e.Plain := by
  unfold handleError
  split
  case isFalse => exact ⟨.none, rfl, trivial⟩
  case isTrue hs =>
    refine ⟨.release, ?_, trivial⟩
    rw [toCore_retry]
    exact if_pos hs

/-- A stop from any thread does nothing to the core itself but what its task
does at once. -/
theorem stopCall_effect (w : Connector) (foreign : Bool) {task : Task}
    (htask : task ≠ .connect) :
    ∃ e, w.toCore.apply e = some (w.stopCall foreign task).toCore ∧ e.Plain := by
  cases foreign with
  | true => exact ⟨.none, rfl, trivial⟩
  | false => exact runTask_effect { w with isStop := true } ⟨false, .zero⟩ htask

/-! ### The steps -/

/-- Time passes without an effect on the core. -/
theorem toCore_advance {k : ℕ} (h : w.advance k = some w') : w'.toCore = w.toCore := by
  unfold advance at h
  split at h
  · obtain rfl := Option.some.inj h
    rfl
  · obtain rfl := Option.some.inj h
    rfl
  · cases h

/-- A timer that is taken has no effect on the core before it runs. -/
theorem toCore_takeTimer {k : ℕ} {cb : TimerTask} (h : w.takeTimer k = some (cb, w')) :
    w'.toCore = w.toCore ∧ w'.isStop = w.isStop := by
  unfold takeTimer at h
  split at h
  · split at h
    · cases h
      exact ⟨rfl, rfl⟩
    · cases h
  · cases h

/-- **A step has an effect that it is allowed to have.** -/
theorem step_core (h : step w i = some w') :
    ∃ e, w.toCore.apply e = some w'.toCore ∧ w.Allowed i e := by
  have quiet : ∀ {w₁ : Connector}, w₁.toCore = w.toCore →
      ∃ e, w.toCore.apply e = some w₁.toCore ∧ w.Allowed i e :=
    fun h => ⟨.none, congrArg some h.symm, trivial⟩
  cases i with
  | connect foreign a =>
    simp only [step] at h
    split_ifs at h with hs hf
    · obtain rfl := Option.some.inj h
      exact quiet rfl
    · obtain rfl := Option.some.inj h
      exact quiet rfl
    · obtain rfl := Option.some.inj h
      refine ⟨.attempt a, by rw [toCore_connect]; rfl, ?_, ?_⟩
      · simpa using hf
      · simpa using hs
  | shutdown foreign =>
    obtain rfl := Option.some.inj h
    obtain ⟨e, he, hall⟩ :=
      stopCall_effect { w with started := false } foreign
        (show Task.shutdownInLoop ≠ .connect by simp)
    exact ⟨e, he, hall.allowed⟩
  | forceClose foreign =>
    obtain rfl := Option.some.inj h
    obtain ⟨e, he, hall⟩ :=
      stopCall_effect { w with started := false } foreign
        (show Task.forceCloseInLoop ≠ .connect by simp)
    exact ⟨e, he, hall.allowed⟩
  | stop foreign =>
    obtain rfl := Option.some.inj h
    obtain ⟨e, he, hall⟩ := stopCall_effect w foreign (show Task.stopInLoop ≠ .connect by simp)
    exact ⟨e, he, hall.allowed⟩
  | setRetryCount count =>
    obtain rfl := Option.some.inj h
    exact quiet rfl
  | setTimeout millisecond cb =>
    obtain rfl := Option.some.inj h
    exact quiet rfl
  | advance k => exact quiet (toCore_advance h)
  | swapTasks =>
    simp only [step] at h
    split_ifs at h
    obtain ⟨q, -, rfl⟩ := Option.map_eq_some_iff.1 h
    exact quiet rfl
  | nextTask a =>
    simp only [step] at h
    split_ifs at h with hc
    obtain ⟨⟨task, q⟩, hq, rfl⟩ := Option.map_eq_some_iff.1 h
    by_cases htask : task = .connect
    · subst htask
      refine ⟨.attempt a, ?_, hc, q, hq⟩
      dsimp only [runTask]
      rw [toCore_connect]
      rfl
    · obtain ⟨e, he, hall⟩ := runTask_effect { w with loop := q } a htask
      exact ⟨e, he, hall.allowed⟩
  | endTasks =>
    simp only [step] at h
    split_ifs at h
    obtain ⟨q, -, rfl⟩ := Option.map_eq_some_iff.1 h
    exact quiet rfl
  | tick millisecond =>
    obtain rfl := Option.some.inj h
    exact quiet rfl
  | fire k a =>
    simp only [step] at h
    split_ifs at h with hc
    obtain ⟨⟨cb, r⟩, hr, rfl⟩ := Option.map_eq_some_iff.1 h
    obtain ⟨hcore, hstop⟩ := toCore_takeTimer hr
    cases cb with
    | doconnect =>
      by_cases hs : w.isStop = true
      · refine quiet ?_
        dsimp only [runTimer]
        rw [doconnect_stopped (hstop.trans hs), hcore]
      · have hs' : w.isStop = false := by simpa using hs
        refine ⟨.attempt a, ?_, hc, hs', r, hr⟩
        dsimp only [runTimer]
        rw [toCore_doconnect (hstop.trans hs'), hcore]
        rfl
    | doTimeout =>
      obtain ⟨e, he, hall⟩ := doTimeout_effect r
      rw [hcore] at he
      exact ⟨e, he, hall.allowed⟩
  | handleWrite soError selfConnect =>
    simp only [step] at h
    split_ifs at h with hc
    obtain rfl := Option.some.inj h
    obtain ⟨e, he, hall⟩ := handleWrite_effect w soError selfConnect hc
    exact ⟨e, he, hall.allowed⟩
  | handleError =>
    simp only [step] at h
    split_ifs at h
    obtain rfl := Option.some.inj h
    obtain ⟨e, he, hall⟩ := handleError_effect w
    exact ⟨e, he, hall.allowed⟩
  | connShutdown id =>
    obtain rfl := Option.some.inj h
    exact ⟨.connShutdown id, rfl, trivial⟩
  | connClose id force =>
    obtain rfl := Option.some.inj h
    exact ⟨.connClose id force, rfl, trivial⟩
  | connCloseEnd =>
    obtain ⟨c, hc, rfl⟩ := Option.map_eq_some_iff.1 h
    exact ⟨.connCloseEnd, hc, rfl⟩
  | connDestroy id =>
    obtain ⟨c, hc, rfl⟩ := Option.map_eq_some_iff.1 h
    exact ⟨.connDestroy id, hc, trivial⟩

/-- A step that meets `Attempts` happens, and it makes an attempt. -/
theorem step_attempt (h : w.Attempts i) :
    ∃ a w', step w i = some w' ∧ w'.toCore = w.toCore.attempt a := by
  cases i with
  | connect foreign a =>
    obtain ⟨rfl, hs⟩ := h
    refine ⟨a, _, ?_, toCore_connect (w := { w with started := true })⟩
    simp only [step, hs, Bool.false_eq_true, if_false]
  | nextTask a =>
    obtain ⟨hc, q, hq⟩ := h
    refine ⟨a, _, ?_, toCore_connect (w := { w with loop := q })⟩
    simp only [step, hc, if_true, hq, Option.map_some]
    rfl
  | fire k a =>
    obtain ⟨hc, hs, r, hr⟩ := h
    obtain ⟨hcore, hstop⟩ := toCore_takeTimer hr
    refine ⟨a, r.doconnect a, ?_, ?_⟩
    · simp only [step, hc, if_true, hr, Option.map_some]
      rfl
    · rw [toCore_doconnect (hstop.trans hs), hcore]
  | _ => exact h.elim

/-! ### What the effects change -/

namespace Core

variable {c c' : Core} {sock : Bool} {a : Attempt}

/-- The descriptor that an attempt works on. -/
def newFd (c : Core) (sock : Bool) : Fd := (c.createNBlockfd sock).1

/-- A socket that was made gets the next descriptor. -/
theorem newFd_true : c.newFd true = some c.sockets := rfl

/-- A socket that could not be made has no descriptor. -/
theorem newFd_false : c.newFd false = none := rfl

/-- What opening a socket logs: the socket, if there is one, and that the
channel's descriptor is replaced, with whether the poller has it. -/
theorem openFd_log : (c.openFd sock).log =
    c.log ++ (if sock then [.socket c.sockets] else []) ++
      [.replace c.channel.fd (c.poller.contains c.channel.fd)] := by
  cases sock with
  | true => rfl
  | false =>
    rw [if_neg Bool.false_ne_true, List.append_nil]
    rfl

/-- Opening a socket changes the channel's descriptor and the number of sockets,
and nothing else. -/
theorem openFd_rest (c : Core) (sock : Bool) :
    (c.openFd sock).channel = { c.channel with fd := c.newFd sock } ∧
    (c.openFd sock).poller = c.poller ∧ (c.openFd sock).connection = c.connection ∧
    (c.openFd sock).nextId = c.nextId ∧ (c.openFd sock).conns = c.conns ∧
    (c.openFd sock).closing = c.closing ∧
    (c.openFd sock).sockets = if sock then c.sockets + 1 else c.sockets := by
  cases sock <;> exact ⟨rfl, rfl, rfl, rfl, rfl, rfl, rfl⟩

/-- An attempt that does not wait closes its socket, whether there is one or
not. -/
theorem attempt_log : (c.attempt a).log =
    (c.openFd a.sock).log ++ (if a.waits then [] else [.close (c.newFd a.sock)]) := by
  unfold attempt
  split
  · rw [List.append_nil]
    rfl
  · rw [← show (c.openFd a.sock).channel.fd = c.newFd a.sock by rw [(c.openFd_rest a.sock).1]]
    rfl

/-- An attempt that waits is connecting, and any other is over at once. -/
theorem attempt_state :
    (c.attempt a).state = if a.waits then .connecting else .disconnected := by
  unfold attempt
  split <;> rfl

/-- The descriptor of the channel is the attempt's, even when the attempt is
over. -/
theorem attempt_fd : (c.attempt a).channel.fd = c.newFd a.sock := by
  have h : (c.openFd a.sock).channel.fd = c.newFd a.sock := by rw [(c.openFd_rest a.sock).1]
  unfold attempt
  split
  · exact EpollPoller.updateChannel_fd.trans h
  · exact h

/-- An attempt leaves the connections alone. -/
theorem attempt_rest : (c.attempt a).connection = c.connection ∧
    (c.attempt a).nextId = c.nextId ∧ (c.attempt a).conns = c.conns ∧
    (c.attempt a).closing = c.closing ∧
    (c.attempt a).sockets = if a.sock then c.sockets + 1 else c.sockets := by
  unfold attempt
  split <;> exact (c.openFd_rest a.sock).2.2

/-- A connector that gives up is disconnected. -/
@[simp]
theorem release_state : c.release.state = .disconnected := rfl

/-- A connector that gives up closes its descriptor. -/
@[simp]
theorem release_log : c.release.log = c.log ++ [.close c.channel.fd] := rfl

/-- Releasing the old value of `connection`. -/
theorem dropConnection_rest : c.dropConnection.state = c.state ∧
    c.dropConnection.connection = none ∧ c.dropConnection.nextId = c.nextId ∧
    c.dropConnection.channel = c.channel ∧ c.dropConnection.poller = c.poller ∧
    c.dropConnection.conns = c.conns ∧ c.dropConnection.closing = c.closing ∧
    c.dropConnection.sockets = c.sockets := by
  unfold dropConnection
  split
  case h_1 => exact ⟨rfl, rfl, rfl, rfl, rfl, rfl, rfl, rfl⟩
  case h_2 hn => exact ⟨rfl, hn, rfl, rfl, rfl, rfl, rfl, rfl⟩

/-- What is written when `connection` loses its value. -/
def drops (c : Core) : List Act := (c.connection.map fun id => .drop id (c.alive id)).toList

/-- What a connector drops when it makes another connection: the one that it
had. -/
theorem mem_drops {x : Act} :
    x ∈ c.drops ↔ ∃ id, c.connection = some id ∧ x = .drop id (c.alive id) := by
  unfold drops
  cases c.connection with
  | none => simp
  | some id => simp

/-- Dropping logs the connection that the connector had, if it had one. -/
theorem dropConnection_log : c.dropConnection.log = c.log ++ c.drops := by
  unfold dropConnection drops
  split
  case h_1 id hid => rw [hid]; rfl
  case h_2 hn => rw [hn]; simp

/-- An attempt that has succeeded: the connection takes the descriptor and the
next id, and the connector holds it. -/
theorem establish_rest : c.remove.onConnection.state = .connected ∧
    c.remove.onConnection.connection = some c.nextId ∧
    c.remove.onConnection.nextId = c.nextId + 1 ∧
    c.remove.onConnection.channel.fd = c.channel.fd ∧
    c.remove.onConnection.conns = Function.update c.conns c.nextId
      (some { fd := c.channel.fd, state := .connected, fdClosed := false }) ∧
    c.remove.onConnection.closing = c.closing ∧
    c.remove.onConnection.sockets = c.sockets ∧
    c.remove.onConnection.log = c.log ++ c.drops ++ [.handOver c.channel.fd] := by
  obtain ⟨hstate, -, hnext, hchannel, -, hconns, hclosing, hsockets⟩ :=
    dropConnection_rest (c := c.remove.setState .connected)
  have hlog := dropConnection_log (c := c.remove.setState .connected)
  unfold onConnection
  dsimp only
  rw [hstate, hnext, hchannel, hconns, hclosing, hsockets, hlog]
  exact ⟨rfl, rfl, rfl, rfl, rfl, rfl, rfl, rfl⟩

/-- The end of a connection: the connector holds none, and its channel is as it
was. -/
theorem removeConnection_rest (c : Core) (id : ℕ) : (c.removeConnection id).state = .disconnected ∧
    (c.removeConnection id).connection = none ∧ (c.removeConnection id).nextId = c.nextId ∧
    (c.removeConnection id).channel = c.channel ∧ (c.removeConnection id).poller = c.poller ∧
    (c.removeConnection id).conns = c.conns ∧ (c.removeConnection id).closing = c.closing ∧
    (c.removeConnection id).sockets = c.sockets :=
  ⟨rfl, dropConnection_rest.2⟩

/-- The end of a connection is logged with what the connector held, and whether
it still took itself for connected. -/
theorem removeConnection_log (c : Core) (id : ℕ) : (c.removeConnection id).log =
    c.log ++ c.drops ++
      [.removed id c.connection (c.connection.isSome || c.state ≠ .disconnected)] := by
  rw [← dropConnection_log]
  rfl

/-! ### The registration of the connector's channel -/

/-- The channel is in the poller, for writing and under its own descriptor,
exactly while the state is `connecting`. -/
structure Registered (c : Core) : Prop where
  only : c.poller.Only self
  connecting : c.state = .connecting → c.poller.Tracks self c.channel ∧
    c.channel.index = EpollPoller.normal ∧ c.channel.events = .WriteEvent ∧ c.channel.fd ≠ none
  idle : c.state ≠ .connecting → c.poller.Gone self ∧
    c.channel.index = EpollPoller.ready ∧ c.channel.events = .NoneEvent

/-- The channel's entry in the interest set while the connector waits. -/
theorem Registered.interest (h : c.Registered) (hs : c.state = .connecting) :
    c.poller.interest c.channel.fd = some (self, .WriteEvent) := by
  obtain ⟨htracks, hindex, hevents, -⟩ := h.connecting hs
  exact (htracks.interest_iff _ _).2 ⟨rfl, hindex, hevents.symm⟩

/-- It depends on three fields. -/
theorem Registered.congr (h : c.Registered)
    (hstate : c'.state = .connecting ↔ c.state = .connecting) (hchannel : c'.channel = c.channel)
    (hpoller : c'.poller = c.poller) : c'.Registered := by
  refine ⟨by rw [hpoller]; exact h.only, fun hs => ?_, fun hs => ?_⟩
  · rw [hchannel, hpoller]
    exact h.connecting (hstate.1 hs)
  · rw [hchannel, hpoller]
    exact h.idle fun hc => hs (hstate.2 hc)

/-- A new connector has nothing in the poller. -/
theorem registered_new : Connector.new.Registered :=
  ⟨EpollPoller.only_empty, fun h => (by cases h), fun _ => ⟨EpollPoller.gone_empty, rfl, rfl⟩⟩

/-- **An attempt that starts when no other is in progress.** -/
theorem Registered.attempt (h : c.Registered) (hs : c.state ≠ .connecting) :
    (c.attempt a).Registered := by
  obtain ⟨hgone, hindex, hevents⟩ := h.idle hs
  obtain ⟨hchannel, hpoller, -⟩ := c.openFd_rest a.sock
  unfold Core.attempt
  split
  case isTrue hw =>
    rw [Attempt.waits, Bool.and_eq_true] at hw
    have hfd : (c.openFd a.sock).channel.fd ≠ none := by
      rw [hchannel, hw.1]
      exact Option.some_ne_none _
    have hready : (c.openFd a.sock).channel.index = EpollPoller.ready := by
      rw [hchannel]
      exact hindex
    have hmask : (c.openFd a.sock).channel.events.union .WriteEvent = .WriteEvent := by
      rw [hchannel]
      dsimp only
      rw [hevents]
      rfl
    rw [← hpoller] at hgone
    have honly : (c.openFd a.sock).poller.Only self := by
      rw [hpoller]
      exact h.only
    refine ⟨honly.updateChannel, fun _ => ⟨?_, ?_, ?_, ?_⟩, fun hne => absurd rfl hne⟩
    · exact ((hgone.tracks hready).updateChannel honly.free _).1
    · refine EpollPoller.updateChannel_index_of_event fun hnone => ?_
      cases hmask.symm.trans hnone
    · exact EpollPoller.updateChannel_events.trans hmask
    · have hkeep : (c.openFd a.sock).doconnecting.channel.fd = (c.openFd a.sock).channel.fd :=
        EpollPoller.updateChannel_fd
      rwa [hkeep]
  case isFalse =>
    refine ⟨?_, fun hc => (by cases hc), fun _ => ⟨?_, ?_, ?_⟩⟩
    · unfold giveUp setState close
      rw [hpoller]
      exact h.only.closeFd _
    · unfold giveUp setState close
      rw [hpoller]
      exact hgone.closeFd _
    · unfold giveUp setState close
      rw [hchannel]
      exact hindex
    · unfold giveUp setState close
      rw [hchannel]
      exact hevents

/-- Taking the channel out of the poller. -/
theorem Registered.remove (h : c.Registered) (hs : c.state = .connecting) :
    c.remove.poller.Only self ∧ c.remove.poller.Gone self :=
  ⟨h.only.remove, (h.connecting hs).1.remove⟩

/-- Giving up takes the channel out of the poller. -/
theorem Registered.release (h : c.Registered) (hs : c.state = .connecting) :
    c.release.Registered := by
  obtain ⟨honly, hgone⟩ := h.remove hs
  exact ⟨honly.closeFd _, fun hc => (by cases hc), fun _ => ⟨hgone.closeFd _, rfl, rfl⟩⟩

/-- A connection is made after the channel was taken out of the poller. -/
theorem Registered.establish (h : c.Registered) (hs : c.state = .connecting) :
    c.remove.onConnection.Registered := by
  obtain ⟨honly, hgone⟩ := h.remove hs
  obtain ⟨hstate, -, -, hchannel, hpoller, -⟩ :=
    dropConnection_rest (c := c.remove.setState .connected)
  refine ⟨?_, fun hc => ?_, fun _ => ⟨?_, ?_, ?_⟩⟩
  · unfold onConnection
    dsimp only
    rw [hpoller]
    exact honly
  · have : (c.remove.setState .connected).dropConnection.state = .connecting := hc
    rw [hstate] at this
    cases this
  · unfold onConnection
    dsimp only
    rw [hpoller]
    exact hgone
  · unfold onConnection
    dsimp only
    rw [hchannel]
    rfl
  · unfold onConnection
    dsimp only
    rw [hchannel]
    rfl

/-- A connection closes a descriptor that the connector does not wait for. -/
theorem Registered.connCloseFd (h : c.Registered) {id : ℕ}
    (hfd : c.state = .connecting → ∀ k, c.conns id = some k → k.fd ≠ c.channel.fd) :
    (c.connCloseFd id).Registered := by
  unfold Core.connCloseFd
  split
  case h_1 k hk =>
    refine ⟨h.only.closeFd _, fun hs => ?_, fun hs => ?_⟩
    · obtain ⟨htracks, hrest⟩ := h.connecting hs
      exact ⟨htracks.closeFd_other (hfd hs k hk), hrest⟩
    · obtain ⟨hgone, hrest⟩ := h.idle hs
      exact ⟨hgone.closeFd _, hrest⟩
  case h_2 => exact h

/-- `removeConnection` while no attempt is in progress. -/
theorem Registered.removeConnection (h : c.Registered) (id : ℕ) (hs : c.state ≠ .connecting) :
    (c.removeConnection id).Registered := by
  obtain ⟨-, -, -, hchannel, hpoller, -⟩ := c.removeConnection_rest id
  exact h.congr (iff_of_false (fun hc => (by cases hc)) hs) hchannel hpoller

/-- Shutting a connection down does not touch the connector's channel. -/
theorem Registered.connShutdown (h : c.Registered) (id : ℕ) : (c.connShutdown id).Registered := by
  unfold Core.connShutdown
  split
  · split
    · exact h.congr Iff.rfl rfl rfl
    · exact h
  · exact h

/-- Closing a connection does not touch the connector's channel. -/
theorem Registered.connClose (h : c.Registered) (id : ℕ) (force : Bool) :
    (c.connClose id force).Registered := by
  unfold Core.connClose
  split
  · split
    · exact h
    · exact h.congr Iff.rfl rfl rfl
  · exact h

end Core

end Connector
end Net
end Sevent
