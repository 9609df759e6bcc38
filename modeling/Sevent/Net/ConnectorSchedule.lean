/-
# The attempts, the retries and the timeouts of a connector

Which attempts a connector makes, which timers it arms and when it calls
`timeoutCallBacK` depends on few of its fields: the flag `isStop`, the delays,
the counts and the timers.  `Schedule` holds these fields, with the numbers of
sockets and of connections made so far.  `Beat` is what a step is to them, and
`schedule_step` says that they change by the beat of the step alone.
-/

import Sevent.Net.ConnectorSpec

namespace Sevent
namespace Net
namespace Connector

/-- What the attempts, retries and timeouts of a connector depend on. -/
structure Schedule where
  isStop : Bool
  retryMs : ℤ
  retryCount : ℤ
  retryCur : ℤ
  timeout : ℤ
  timeoutCallBacK : Bool
  timeouts : ℕ
  clock : ℤ
  timers : List (ℤ × TimerTask)
  sockets : ℕ
  nextId : ℕ

/-- The schedule of a connector. -/
def schedule (w : Connector) : Schedule where
  isStop := w.isStop
  retryMs := w.retryMs
  retryCount := w.retryCount
  retryCur := w.retryCur
  timeout := w.timeout
  timeoutCallBacK := w.timeoutCallBacK
  timeouts := w.timeouts
  clock := w.clock
  timers := w.timers
  sockets := w.sockets
  nextId := w.nextId

/-- The results of `connect` after which the connector tries again. -/
def Errno.again : Errno → Bool
  | .EAGAIN | .EADDRINUSE | .EADDRNOTAVAIL | .ECONNREFUSED | .ENETUNREACH => true
  | _ => false

/-- The attempt ends in `retry` at once. -/
def Attempt.fails (a : Attempt) : Bool := a.sock && a.err.again

namespace Schedule

/-- `retry` schedules another attempt. -/
def Retries (s : Schedule) : Prop := s.isStop = false ∧ s.retryCur ≠ 0

instance (s : Schedule) : Decidable s.Retries := inferInstanceAs (Decidable (_ ∧ _))

/-- `retry`: a timer for the next attempt after `retryMs`, which doubles up to
its maximum, and one attempt less if they are counted. -/
def retry (s : Schedule) : Schedule :=
  if s.Retries then
    { s with
      retryCur := if s.retryCur > 0 then s.retryCur - 1 else s.retryCur
      timers := s.timers ++ [(s.clock + s.retryMs, .doconnect)]
      retryMs := if s.retryMs * 2 < maxRetryDelayMs then s.retryMs * 2 else maxRetryDelayMs }
  else s

/-- The socket of an attempt. -/
def openSocket (s : Schedule) (a : Attempt) : Schedule :=
  { s with sockets := if a.sock then s.sockets + 1 else s.sockets }

/-- `doconnect`: nothing once the connector is stopped; otherwise a socket, and
a retry where it fails at once. -/
def doconnect (s : Schedule) (a : Attempt) : Schedule :=
  if s.isStop then s
  else if a.fails then (s.openSocket a).retry
  else s.openSocket a

/-- What `connect` sets before `doconnect`. -/
def start (s : Schedule) : Schedule := { s with isStop := false, retryCur := s.retryCount }

/-- The timer of `setTimeout`, armed at every connect. -/
def armTimeout (s : Schedule) : Schedule :=
  if s.timeout > 0 then { s with timers := s.timers ++ [(s.clock + s.timeout, .doTimeout)] }
  else s

/-- `connect()`: the flag and the count are set anew, then the first attempt,
then the timer. -/
def connect (s : Schedule) (a : Attempt) : Schedule := (s.start.doconnect a).armTimeout

/-- `doTimeout`: stops the connector and calls back, unless it is stopped or
connected by then. -/
def doTimeout (s : Schedule) (connected : Bool) : Schedule :=
  if s.isStop || connected then s
  else
    { s with
      isStop := true, timeouts := if s.timeoutCallBacK then s.timeouts + 1 else s.timeouts }

/-- The last branch of `handleWrite`: a connection, unless stopped. -/
def establish (s : Schedule) : Schedule :=
  if s.isStop then s else { s with nextId := s.nextId + 1 }

/-- A timer is taken out. -/
def takeTimer (s : Schedule) (k : ℕ) : Schedule := { s with timers := s.timers.eraseIdx k }

end Schedule

/-- What a step is to the schedule. -/
inductive Beat
  | rest
  | stop
  | count (count : ℤ)
  | limit (millisecond : ℤ) (cb : Bool)
  | tick (millisecond : ℕ)
  | connect (a : Attempt)
  | doconnect (k : ℕ) (a : Attempt)
  | doTimeout (k : ℕ) (connected : Bool)
  | retry
  | establish
  deriving DecidableEq, Repr

/-- What a step is to the schedule, given its beat. -/
def Schedule.apply (s : Schedule) : Beat → Schedule
  | .rest => s
  | .stop => { s with isStop := true }
  | .count count => { s with retryCount := count }
  | .limit millisecond cb => { s with timeout := millisecond, timeoutCallBacK := cb }
  | .tick millisecond => { s with clock := s.clock + millisecond }
  | .connect a => s.connect a
  | .doconnect k a => (s.takeTimer k).doconnect a
  | .doTimeout k connected => (s.takeTimer k).doTimeout connected
  | .retry => s.retry
  | .establish => s.establish

/-- The beat of a call that stops the connector. -/
def stopBeat (foreign : Bool) : Beat := if foreign then .rest else .stop

/-- The beat of a task. -/
def taskBeat (a : Attempt) : Task → Beat
  | .connect => .connect a
  | _ => .stop

/-- The beat of a step, which the state before it and its input determine. -/
def beat (w : Connector) : Input → Beat
  | .connect foreign a => if w.started || foreign then .rest else .connect a
  | .shutdown foreign | .forceClose foreign | .stop foreign => stopBeat foreign
  | .setRetryCount count => .count count
  | .setTimeout millisecond cb => .limit millisecond cb
  | .advance k =>
    match w.calling[k]? with
    | some (.stop _) => .stop
    | _ => .rest
  | .nextTask a =>
    match w.loop.nextTask with
    | some r => taskBeat a r.1
    | none => .rest
  | .tick millisecond => .tick millisecond
  | .fire k a =>
    match w.timers[k]? with
    | some (_, .doconnect) => .doconnect k a
    | some (_, .doTimeout) => .doTimeout k (w.state = .connected)
    | none => .rest
  | .handleWrite soError selfConnect =>
    if w.state = .connecting then
      if soError ≠ 0 ∨ selfConnect then .retry else .establish
    else .rest
  | .handleError => if w.state = .connecting then .retry else .rest
  | .swapTasks | .endTasks | .connShutdown _ | .connClose _ _ | .connCloseEnd
  | .connDestroy _ => .rest

variable {w w' : Connector} {i : Input}

/-! ### The functions, one by one -/

/-- What is done to the core without a socket or a connection more is nothing to
the schedule. -/
theorem schedule_onCore {f : Core → Core} (hsockets : (f w.toCore).sockets = w.sockets)
    (hnext : (f w.toCore).nextId = w.nextId) : (w.onCore f).schedule = w.schedule := by
  unfold schedule onCore
  dsimp only
  rw [hsockets, hnext]

/-- `retry` of the connector is that of its schedule. -/
theorem schedule_retry : w.retry.schedule = w.schedule.retry := by
  have hcond : (!w.isStop && (decide (w.retryCur < 0) || decide (w.retryCur > 0))) = true ↔
      w.schedule.Retries := by
    unfold Schedule.Retries schedule
    simp only [Bool.and_eq_true, Bool.not_eq_true', Bool.or_eq_true, decide_eq_true_eq]
    refine and_congr_right fun _ => ?_
    omega
  unfold retry Schedule.retry
  dsimp only [onCore]
  by_cases hr : w.schedule.Retries
  · rw [if_pos (hcond.2 hr), if_pos hr]
    by_cases hcur : w.retryCur > 0
    · rw [if_pos hcur, if_pos (show w.schedule.retryCur > 0 from hcur)]
      rfl
    · rw [if_neg hcur, if_neg (show ¬ w.schedule.retryCur > 0 from hcur)]
      rfl
  · rw [if_neg (mt hcond.1 hr), if_neg hr]
    rfl

/-- What an attempt's `connect` returns: a retry, or nothing to the schedule. -/
theorem schedule_onConnect (sockfd : Fd) (err : Errno) :
    (w.onConnect sockfd err).schedule = if err.again then w.schedule.retry else w.schedule := by
  cases err <;> first | rfl | exact schedule_retry

/-- `doconnect` of the connector is that of its schedule. -/
theorem schedule_doconnect (a : Attempt) : (w.doconnect a).schedule = w.schedule.doconnect a := by
  unfold doconnect Schedule.doconnect
  cases hstop : w.isStop with
  | true => rw [if_neg (by simp), if_pos (show w.schedule.isStop = true from hstop)]
  | false =>
    rw [if_pos (by simp), if_neg (show ¬ w.schedule.isStop = true by simp [schedule, hstop])]
    dsimp only
    rw [schedule_onConnect]
    obtain ⟨sock, err⟩ := a
    cases sock with
    | false => rfl
    | true => cases err <;> rfl

/-- `connect` of the connector is that of its schedule. -/
theorem schedule_connect (a : Attempt) : (w.connect a).schedule = w.schedule.connect a := by
  have h := schedule_doconnect (w := { w with isStop := false, retryCur := w.retryCount }) a
  unfold connect Schedule.connect Schedule.armTimeout
  dsimp only
  rw [show w.schedule.start = ({ w with isStop := false, retryCur := w.retryCount } :
    Connector).schedule from rfl, ← h]
  by_cases ht : (({ w with isStop := false, retryCur := w.retryCount } :
      Connector).doconnect a).timeout > 0
  · rw [if_pos ht, if_pos (by exact ht)]
    rfl
  · rw [if_neg ht, if_neg (by exact ht)]

/-- `doTimeout` of the connector is that of its schedule, given whether it is
connected. -/
theorem schedule_doTimeout :
    w.doTimeout.schedule = w.schedule.doTimeout (decide (w.state = .connected)) := by
  unfold doTimeout Schedule.doTimeout
  by_cases hgo : (!w.isStop && decide (w.state ≠ .connected)) = true
  · have hskip : ¬ (w.schedule.isStop || decide (w.state = .connected)) = true := by
      unfold schedule
      simp only [Bool.and_eq_true, Bool.not_eq_true', decide_eq_true_eq] at hgo
      simp [hgo.1, hgo.2]
    rw [if_pos hgo, if_neg hskip]
    dsimp only [onCore]
    split
    · by_cases hs : w.state = .connecting
      · rw [if_pos hs, if_pos (by assumption)]
        rfl
      · rw [if_neg hs, if_pos (by assumption)]
        rfl
    · by_cases hs : w.state = .connecting
      · rw [if_pos hs, if_neg (by assumption)]
        rfl
      · rw [if_neg hs, if_neg (by assumption)]
        rfl
  · have hskip : (w.schedule.isStop || decide (w.state = .connected)) = true := by
      unfold schedule
      simp only [Bool.and_eq_true, Bool.not_eq_true', decide_eq_true_eq] at hgo
      cases hstop : w.isStop <;> simp_all
    rw [if_neg hgo, if_pos hskip]

/-- What a connection does to itself: the connector makes no socket and no
connection, and its channel stays as it is. -/
structure Core.Apart (c c' : Core) : Prop where
  sockets : c'.sockets = c.sockets
  nextId : c'.nextId = c.nextId
  channel : c'.channel = c.channel

/-- Closing a connection is apart from the connector's attempts. -/
theorem connClose_apart (c : Core) (id : ℕ) (force : Bool) : c.Apart (c.connClose id force) := by
  unfold Core.connClose
  split
  · split <;> exact ⟨rfl, rfl, rfl⟩
  · exact ⟨rfl, rfl, rfl⟩

/-- Shutting a connection down is apart from the connector's attempts. -/
theorem connShutdown_apart (c : Core) (id : ℕ) : c.Apart (c.connShutdown id) := by
  unfold Core.connShutdown
  split
  · split <;> exact ⟨rfl, rfl, rfl⟩
  · exact ⟨rfl, rfl, rfl⟩

/-- The descriptor of a connection is no socket of an attempt. -/
theorem connCloseFd_apart (c : Core) (id : ℕ) : c.Apart (c.connCloseFd id) := by
  unfold Core.connCloseFd
  split <;> exact ⟨rfl, rfl, rfl⟩

/-- The end of a close is apart from the connector's attempts. -/
theorem connCloseEnd_apart {c c' : Core} (h : c.connCloseEnd = some c') : c.Apart c' := by
  unfold Core.connCloseEnd at h
  split at h
  case h_1 => cases h
  case h_2 f rest hf =>
    obtain rfl := Option.some.inj h
    obtain ⟨-, -, hnext, hchannel, -, -, -, hsockets⟩ :=
      Core.removeConnection_rest { c with closing := rest } f.id
    split
    · obtain ⟨hsockets', hnext', hchannel'⟩ :=
        connCloseFd_apart (({ c with closing := rest } : Core).removeConnection f.id) f.id
      exact ⟨hsockets'.trans hsockets, hnext'.trans hnext, hchannel'.trans hchannel⟩
    · exact ⟨hsockets, hnext, hchannel⟩

/-- The end of a connection object is apart from the connector's attempts. -/
theorem connDestroy_apart {c c' : Core} {id : ℕ} (h : c.connDestroy id = some c') :
    c.Apart c' := by
  unfold Core.connDestroy at h
  split at h
  · split at h
    · obtain rfl := Option.some.inj h
      exact connCloseFd_apart c id
    · cases h
  · cases h

/-- A stop task writes `isStop`; it makes no socket and no connection. -/
theorem schedule_stopTask (f : Core → ℕ → Core)
    (hf : ∀ (c : Core) (id : ℕ), c.Apart (f c id)) :
    (({ w with isStop := true } : Connector).onCore fun c =>
      let c := c.closeOnConnecting
      match c.state, c.connection with
      | .connected, some id => f c id
      | _, _ => c).schedule = { w.schedule with isStop := true } := by
  have hclose : ∀ c : Core, c.closeOnConnecting.sockets = c.sockets ∧
      c.closeOnConnecting.nextId = c.nextId := by
    intro c
    unfold Core.closeOnConnecting
    split <;> exact ⟨rfl, rfl⟩
  have hcounts : ∀ c : Core,
      (match c.state, c.connection with
      | .connected, some id => f c id
      | _, _ => c).sockets = c.sockets ∧
      (match c.state, c.connection with
      | .connected, some id => f c id
      | _, _ => c).nextId = c.nextId := by
    intro c
    split
    case h_1 id _ _ => exact ⟨(hf c id).sockets, (hf c id).nextId⟩
    case h_2 => exact ⟨rfl, rfl⟩
  exact schedule_onCore ((hcounts _).1.trans (hclose _).1) ((hcounts _).2.trans (hclose _).2)

/-- A task of the connector's loop is its beat to the schedule. -/
theorem schedule_runTask (a : Attempt) (task : Task) :
    (w.runTask a task).schedule = w.schedule.apply (taskBeat a task) := by
  cases task with
  | connect => exact schedule_connect a
  | stopInLoop => exact schedule_stopTask _ fun c id => connClose_apart c id false
  | shutdownInLoop => exact schedule_stopTask _ connShutdown_apart
  | forceCloseInLoop => exact schedule_stopTask _ fun c id => connClose_apart c id true

/-- A stop is its beat to the schedule, done at once or by a task that it
queues. -/
theorem schedule_stopCall (foreign : Bool) {task : Task} (htask : task ≠ .connect) :
    (w.stopCall foreign task).schedule = w.schedule.apply (stopBeat foreign) := by
  cases foreign with
  | true => rfl
  | false =>
    have h := schedule_runTask (w := { w with isStop := true }) ⟨false, .zero⟩ task
    cases task with
    | connect => exact absurd rfl htask
    | _ => exact h

/-- An event of the socket is its beat: an established connection, a retry, or
nothing. -/
theorem schedule_handleWrite (soError : ℕ) (selfConnect : Bool) :
    (w.handleWrite soError selfConnect).schedule =
      w.schedule.apply (w.beat (.handleWrite soError selfConnect)) := by
  unfold handleWrite beat
  split
  case isFalse => rfl
  case isTrue hs =>
    dsimp only
    by_cases hretry : soError ≠ 0 ∨ selfConnect = true
    · rw [if_pos hretry]
      have hfail : (w.onCore Core.remove).retry.schedule = w.schedule.retry := schedule_retry
      by_cases herr : soError ≠ 0
      · rw [if_pos herr]
        exact hfail
      · rw [if_neg herr, if_pos (hretry.resolve_left herr)]
        exact hfail
    · obtain ⟨herr, hself⟩ := not_or.1 hretry
      rw [if_neg hretry, if_neg herr, if_neg hself]
      unfold Schedule.apply Schedule.establish
      cases hstop : w.isStop with
      | true =>
        rw [if_neg (by simp [onCore, hstop]),
          if_pos (show w.schedule.isStop = true from hstop)]
        rfl
      | false =>
        rw [if_pos (by simp [onCore, hstop]), if_neg (by simp [schedule, hstop])]
        obtain ⟨-, -, hnext, -, -, -, hsockets, -⟩ := Core.establish_rest (c := w.toCore)
        unfold schedule onCore
        dsimp only
        rw [hnext, hsockets]

/-! ### The steps -/

/-- A timer that is taken was due, and is gone from the schedule as well. -/
theorem schedule_takeTimer {k : ℕ} {cb : TimerTask} (h : w.takeTimer k = some (cb, w')) :
    w'.schedule = w.schedule.takeTimer k ∧ w'.state = w.state ∧
      ∃ due, w.timers[k]? = some (due, cb) ∧ due ≤ w.clock := by
  unfold takeTimer at h
  split at h
  case h_1 due cb' hk =>
    split at h
    case isTrue hdue =>
      cases h
      exact ⟨rfl, rfl, due, hk, hdue⟩
    case isFalse => cases h
  case h_2 => cases h

/-- **A step changes the schedule by its beat.** -/
theorem schedule_step (h : step w i = some w') :
    w'.schedule = w.schedule.apply (w.beat i) := by
  cases i with
  | connect foreign a =>
    simp only [step] at h
    unfold beat
    cases hs : w.started with
    | true =>
      rw [if_pos hs] at h
      obtain rfl := Option.some.inj h
      rfl
    | false =>
      rw [if_neg (by simp [hs])] at h
      cases foreign with
      | true =>
        obtain rfl := Option.some.inj h
        rfl
      | false =>
        obtain rfl := Option.some.inj h
        exact schedule_connect (w := { w with started := true }) a
  | shutdown foreign =>
    obtain rfl := Option.some.inj h
    exact schedule_stopCall (w := { w with started := false }) foreign (by simp)
  | forceClose foreign =>
    obtain rfl := Option.some.inj h
    exact schedule_stopCall (w := { w with started := false }) foreign (by simp)
  | stop foreign =>
    obtain rfl := Option.some.inj h
    exact schedule_stopCall foreign (by simp)
  | setRetryCount count =>
    obtain rfl := Option.some.inj h
    rfl
  | setTimeout millisecond cb =>
    obtain rfl := Option.some.inj h
    rfl
  | advance k =>
    simp only [step, advance] at h
    split at h
    case h_1 hk =>
      obtain rfl := Option.some.inj h
      simp only [beat, hk]
      rfl
    case h_2 hk =>
      obtain rfl := Option.some.inj h
      simp only [beat, hk]
      rfl
    case h_3 => cases h
  | swapTasks =>
    simp only [step] at h
    split_ifs at h
    obtain ⟨q, -, rfl⟩ := Option.map_eq_some_iff.1 h
    rfl
  | nextTask a =>
    simp only [step] at h
    split_ifs at h
    obtain ⟨⟨task, q⟩, hq, rfl⟩ := Option.map_eq_some_iff.1 h
    unfold beat
    rw [hq]
    exact schedule_runTask (w := { w with loop := q }) a task
  | endTasks =>
    simp only [step] at h
    split_ifs at h
    obtain ⟨q, -, rfl⟩ := Option.map_eq_some_iff.1 h
    rfl
  | tick millisecond =>
    obtain rfl := Option.some.inj h
    rfl
  | fire k a =>
    simp only [step] at h
    split_ifs at h
    obtain ⟨⟨cb, r⟩, hr, rfl⟩ := Option.map_eq_some_iff.1 h
    obtain ⟨hsched, hstate, due, hk, -⟩ := schedule_takeTimer hr
    cases cb with
    | doconnect =>
      simp only [beat, hk]
      refine (schedule_doconnect a).trans ?_
      rw [hsched]
      rfl
    | doTimeout =>
      simp only [beat, hk]
      refine schedule_doTimeout.trans ?_
      rw [hsched, hstate]
      rfl
  | handleWrite soError selfConnect =>
    simp only [step] at h
    split_ifs at h
    obtain rfl := Option.some.inj h
    exact schedule_handleWrite soError selfConnect
  | handleError =>
    simp only [step] at h
    split_ifs at h
    obtain rfl := Option.some.inj h
    unfold handleError beat
    split
    · exact schedule_retry
    · rfl
  | connShutdown id =>
    obtain rfl := Option.some.inj h
    obtain ⟨hsockets, hnext, -⟩ := connShutdown_apart w.toCore id
    exact schedule_onCore hsockets hnext
  | connClose id force =>
    obtain rfl := Option.some.inj h
    obtain ⟨hsockets, hnext, -⟩ := connClose_apart w.toCore id force
    exact schedule_onCore hsockets hnext
  | connCloseEnd =>
    obtain ⟨c, hc, rfl⟩ := Option.map_eq_some_iff.1 h
    obtain ⟨hsockets, hnext, -⟩ := connCloseEnd_apart hc
    exact schedule_onCore (f := fun _ => c) hsockets hnext
  | connDestroy id =>
    obtain ⟨c, hc, rfl⟩ := Option.map_eq_some_iff.1 h
    obtain ⟨hsockets, hnext, -⟩ := connDestroy_apart hc
    exact schedule_onCore (f := fun _ => c) hsockets hnext

/-! ### Which steps connect and which steps stop -/

/-- The step executes `Connector::connect`. -/
def connects (w : Connector) : Input → Bool
  | .connect foreign _ => !w.started && !foreign
  | .nextTask _ => w.closing = [] ∧ (w.loop.nextTask.map Prod.fst) = some .connect
  | _ => false

/-- The step executes `stopInLoop`, `shutdownInLoop` or `forceCloseInLoop`. -/
def stops (w : Connector) : Input → Bool
  | .shutdown foreign | .forceClose foreign | .stop foreign => !foreign
  | .nextTask _ => w.closing = [] ∧ ∃ r ∈ w.loop.nextTask, r.1 ≠ .connect
  | _ => false

/-- Where a beat comes from. -/
def Origin (w : Connector) (i : Input) : Beat → Prop
  | .rest | .stop => True
  | .count count => i = .setRetryCount count
  | .limit millisecond cb => i = .setTimeout millisecond cb
  | .tick millisecond => i = .tick millisecond
  | .connect a => (i = .connect false a ∧ w.started = false) ∨
      i = .nextTask a ∧ ∃ q, w.loop.nextTask = some (.connect, q)
  | .doconnect k a => i = .fire k a ∧ ∃ due, w.timers[k]? = some (due, .doconnect)
  | .doTimeout k connected => (∃ a, i = .fire k a) ∧
      (∃ due, w.timers[k]? = some (due, .doTimeout)) ∧ connected = decide (w.state = .connected)
  | .retry => w.state = .connecting ∧ (i = .handleError ∨
      ∃ soError selfConnect, i = .handleWrite soError selfConnect ∧
        (soError ≠ 0 ∨ selfConnect = true))
  | .establish => w.state = .connecting ∧ i = .handleWrite 0 false

/-- Each beat comes from the inputs that can give it. -/
theorem beat_origin (w : Connector) (i : Input) : w.Origin i (w.beat i) := by
  cases i with
  | connect foreign a =>
    simp only [beat]
    cases hs : w.started with
    | true => trivial
    | false =>
      cases foreign with
      | true => trivial
      | false => exact .inl ⟨rfl, hs⟩
  | shutdown foreign => cases foreign <;> trivial
  | forceClose foreign => cases foreign <;> trivial
  | stop foreign => cases foreign <;> trivial
  | advance k =>
    simp only [beat]
    split <;> trivial
  | nextTask a =>
    simp only [beat]
    split
    case h_1 r hr =>
      obtain ⟨task, q⟩ := r
      cases task with
      | connect => exact .inr ⟨rfl, q, hr⟩
      | _ => trivial
    case h_2 => trivial
  | fire k a =>
    simp only [beat]
    split
    case h_1 due hk => exact ⟨rfl, due, hk⟩
    case h_2 due hk => exact ⟨⟨a, rfl⟩, ⟨due, hk⟩, rfl⟩
    case h_3 => trivial
  | handleWrite soError selfConnect =>
    simp only [beat]
    split
    case isTrue hs =>
      by_cases hretry : soError ≠ 0 ∨ selfConnect = true
      · rw [if_pos hretry]
        exact ⟨hs, .inr ⟨soError, selfConnect, rfl, hretry⟩⟩
      · rw [if_neg hretry]
        obtain ⟨herr, hself⟩ := not_or.1 hretry
        refine ⟨hs, ?_⟩
        rw [not_not.1 herr, (Bool.not_eq_true selfConnect).mp hself]
    case isFalse => trivial
  | handleError =>
    simp only [beat]
    split
    case isTrue hs => exact ⟨hs, .inl rfl⟩
    case isFalse => trivial
  | setRetryCount count => rfl
  | setTimeout millisecond cb => rfl
  | tick millisecond => rfl
  | _ => trivial

/-- Where the beat is this one. -/
theorem origin_of_beat {b : Beat} (hbeat : w.beat i = b) : w.Origin i b :=
  hbeat ▸ beat_origin w i

/-- A step whose beat is a connect is one. -/
theorem connects_of_beat {a : Attempt} (h : step w i = some w') (hbeat : w.beat i = .connect a) :
    w.connects i = true := by
  rcases origin_of_beat hbeat with ⟨rfl, hs⟩ | ⟨rfl, q, hq⟩
  · simp [connects, hs]
  · simp only [step] at h
    split_ifs at h with hc
    simp [connects, hc, hq]

/-- A connect, by a call or by a task, is the beat of a connect. -/
theorem beat_of_connects (h : w.connects i = true) : ∃ a, w.beat i = .connect a := by
  cases i with
  | connect foreign a =>
    have hidle : ¬ (w.started || foreign) = true := by simpa [connects] using h
    exact ⟨a, if_neg hidle⟩
  | nextTask a =>
    simp only [connects, decide_eq_true_eq] at h
    obtain ⟨⟨task, q⟩, hq, htask⟩ := Option.map_eq_some_iff.1 h.2
    obtain rfl : task = .connect := htask
    exact ⟨a, by simp only [beat, hq]; rfl⟩
  | _ => cases h

/-- A stop, by a call or by a task, is the beat of a stop. -/
theorem beat_of_stops (h : w.stops i = true) : w.beat i = .stop := by
  cases i with
  | shutdown foreign =>
    cases foreign with
    | true => cases h
    | false => rfl
  | forceClose foreign =>
    cases foreign with
    | true => cases h
    | false => rfl
  | stop foreign =>
    cases foreign with
    | true => cases h
    | false => rfl
  | nextTask a =>
    simp only [stops, decide_eq_true_eq] at h
    obtain ⟨-, ⟨task, q⟩, hq, htask⟩ := h
    simp only [beat, Option.mem_def.1 hq]
    cases task with
    | connect => exact absurd rfl htask
    | _ => rfl
  | _ => cases h

/-! ### What a beat does to the timers -/

namespace Schedule

/-- The beat schedules a retry. -/
def schedules (s : Schedule) : Beat → Prop
  | .connect a => a.fails = true ∧ s.retryCount ≠ 0
  | .doconnect _ a => a.fails = true ∧ s.Retries
  | .retry => s.Retries
  | _ => False

instance (s : Schedule) (b : Beat) : Decidable (s.schedules b) := by
  cases b <;> unfold schedules <;> infer_instance

/-- The timers that the beat keeps. -/
def kept (s : Schedule) : Beat → List (ℤ × TimerTask)
  | .doconnect k _ | .doTimeout k _ => s.timers.eraseIdx k
  | _ => s.timers

/-- The retry that the beat schedules. -/
def retried (s : Schedule) (b : Beat) : List (ℤ × TimerTask) :=
  if s.schedules b then [(s.clock + s.retryMs, .doconnect)] else []

/-- The timeout that the beat arms. -/
def timed (s : Schedule) : Beat → List (ℤ × TimerTask)
  | .connect _ => if s.timeout > 0 then [(s.clock + s.timeout, .doTimeout)] else []
  | _ => []

/-- The count that `retry` looks at. -/
def budget (s : Schedule) : Beat → ℤ
  | .connect _ => s.retryCount
  | _ => s.retryCur

/-- What `retry` leaves of a count. -/
def spend (count : ℤ) : ℤ := if count > 0 then count - 1 else count

/-- The next delay. -/
def backoff (ms : ℤ) : ℤ := if ms * 2 < maxRetryDelayMs then ms * 2 else maxRetryDelayMs

/-- One lemma for `retry`. -/
theorem retry_spec (s : Schedule) :
    s.retry.timers =
        s.timers ++ (if s.Retries then [(s.clock + s.retryMs, .doconnect)] else []) ∧
      s.retry.retryMs = (if s.Retries then backoff s.retryMs else s.retryMs) ∧
      s.retry.retryCur = if s.Retries then spend s.retryCur else s.retryCur := by
  unfold retry
  by_cases h : s.Retries
  · rw [if_pos h, if_pos h, if_pos h, if_pos h]
    exact ⟨rfl, rfl, rfl⟩
  · rw [if_neg h, if_neg h, if_neg h, if_neg h, List.append_nil]
    exact ⟨rfl, rfl, rfl⟩

/-- And one for `doconnect`. -/
theorem doconnect_spec (s : Schedule) (a : Attempt) :
    (s.doconnect a).timers = s.timers ++
        (if a.fails = true ∧ s.Retries then [(s.clock + s.retryMs, .doconnect)] else []) ∧
      (s.doconnect a).retryMs =
        (if a.fails = true ∧ s.Retries then backoff s.retryMs else s.retryMs) ∧
      (s.doconnect a).retryCur =
        if a.fails = true ∧ s.Retries then spend s.retryCur else s.retryCur := by
  unfold doconnect
  split
  case isTrue hstop =>
    have hnot : ¬ (a.fails = true ∧ s.Retries) := fun h =>
      Bool.false_ne_true (h.2.1.symm.trans hstop)
    rw [if_neg hnot, if_neg hnot, if_neg hnot, List.append_nil]
    exact ⟨rfl, rfl, rfl⟩
  case isFalse =>
    split
    case isTrue hfails =>
      simp only [hfails, true_and]
      exact retry_spec (s.openSocket a)
    case isFalse hfails =>
      simp only [hfails, false_and, if_false, List.append_nil, Bool.false_eq_true]
      exact ⟨rfl, rfl, rfl⟩

/-- Arming the timeout adds its timer behind the others if a timeout was set. -/
theorem armTimeout_spec (s : Schedule) :
    s.armTimeout.timers = s.timers ++
        (if s.timeout > 0 then [(s.clock + s.timeout, .doTimeout)] else []) ∧
      s.armTimeout.retryMs = s.retryMs ∧ s.armTimeout.retryCur = s.retryCur := by
  unfold armTimeout
  split
  · exact ⟨rfl, rfl, rfl⟩
  · exact ⟨(List.append_nil _).symm, rfl, rfl⟩

/-- The functions that leave the timers alone. -/
theorem doTimeout_frame (s : Schedule) (connected : Bool) :
    (s.doTimeout connected).timers = s.timers ∧ (s.doTimeout connected).retryMs = s.retryMs ∧
      (s.doTimeout connected).retryCur = s.retryCur := by
  unfold doTimeout
  split <;> exact ⟨rfl, rfl, rfl⟩

/-- An established connection changes neither the timers nor the delay. -/
theorem establish_frame (s : Schedule) : s.establish.timers = s.timers ∧
    s.establish.retryMs = s.retryMs ∧ s.establish.retryCur = s.retryCur := by
  unfold establish
  split <;> exact ⟨rfl, rfl, rfl⟩

/-- An attempt takes no time and does not touch what the user has set. -/
theorem doconnect_frame (s : Schedule) (a : Attempt) : (s.doconnect a).clock = s.clock ∧
    (s.doconnect a).retryCount = s.retryCount ∧ (s.doconnect a).timeout = s.timeout ∧
    (s.doconnect a).isStop = s.isStop := by
  unfold doconnect retry
  split
  · exact ⟨rfl, rfl, rfl, rfl⟩
  · split
    · split <;> exact ⟨rfl, rfl, rfl, rfl⟩
    · exact ⟨rfl, rfl, rfl, rfl⟩

/-- **What a beat does to the timers and to the two retry fields.** -/
theorem apply_timers (s : Schedule) (b : Beat) :
    (s.apply b).timers = s.kept b ++ s.retried b ++ s.timed b ∧
      (s.apply b).retryMs = (if s.schedules b then backoff s.retryMs else s.retryMs) ∧
      (s.apply b).retryCur = if s.schedules b then spend (s.budget b) else s.budget b := by
  -- a beat that schedules nothing
  have quiet : ∀ {t : Schedule}, ¬ s.schedules b → t.timers = s.kept b ++ s.timed b →
      t.retryMs = s.retryMs → t.retryCur = s.budget b →
      t.timers = s.kept b ++ s.retried b ++ s.timed b ∧
      t.retryMs = (if s.schedules b then backoff s.retryMs else s.retryMs) ∧
      t.retryCur = if s.schedules b then spend (s.budget b) else s.budget b := by
    intro t hnot htimers hms hcur
    unfold retried
    rw [if_neg hnot, if_neg hnot, if_neg hnot, List.append_nil]
    exact ⟨htimers, hms, hcur⟩
  cases b with
  | connect a =>
    have hiff : (a.fails = true ∧ s.start.Retries) ↔ s.schedules (.connect a) :=
      and_congr_right fun _ => and_iff_right rfl
    obtain ⟨htimers, hms, hcur⟩ := doconnect_spec s.start a
    obtain ⟨hclock, -, htimeout, -⟩ := doconnect_frame s.start a
    obtain ⟨harm, hms', hcur'⟩ := armTimeout_spec (s.start.doconnect a)
    simp only [hiff] at htimers hms hcur
    rw [htimers, hclock, htimeout] at harm
    exact ⟨harm, hms'.trans hms, hcur'.trans hcur⟩
  | doconnect k a =>
    obtain ⟨htimers, hms, hcur⟩ := doconnect_spec (s.takeTimer k) a
    exact ⟨htimers.trans (List.append_nil _).symm, hms, hcur⟩
  | retry =>
    obtain ⟨htimers, hms, hcur⟩ := retry_spec s
    exact ⟨htimers.trans (List.append_nil _).symm, hms, hcur⟩
  | doTimeout k connected =>
    obtain ⟨htimers, hms, hcur⟩ := doTimeout_frame (s.takeTimer k) connected
    exact quiet id (htimers.trans (List.append_nil _).symm) hms hcur
  | establish =>
    obtain ⟨htimers, hms, hcur⟩ := establish_frame s
    exact quiet id (htimers.trans (List.append_nil _).symm) hms hcur
  | _ => exact quiet id (List.append_nil _).symm rfl rfl

/-- **What a beat does to the flag and to the other fields.** -/
theorem apply_rest (s : Schedule) (b : Beat) :
    (s.apply b).clock = (match b with
      | .tick millisecond => s.clock + millisecond
      | _ => s.clock) ∧
    (s.apply b).retryCount = (match b with
      | .count count => count
      | _ => s.retryCount) ∧
    (s.apply b).timeout = (match b with
      | .limit millisecond _ => millisecond
      | _ => s.timeout) ∧
    (s.apply b).isStop = (match b with
      | .stop => true
      | .connect _ => false
      | .doTimeout _ connected => s.isStop || !connected
      | _ => s.isStop) := by
  cases b with
  | connect a =>
    obtain ⟨hclock, hcount, htimeout, hstop⟩ := doconnect_frame s.start a
    have harm : ∀ t : Schedule, t.armTimeout.clock = t.clock ∧
        t.armTimeout.retryCount = t.retryCount ∧ t.armTimeout.timeout = t.timeout ∧
        t.armTimeout.isStop = t.isStop := by
      intro t
      unfold armTimeout
      split <;> exact ⟨rfl, rfl, rfl, rfl⟩
    obtain ⟨hclock', hcount', htimeout', hstop'⟩ := harm (s.start.doconnect a)
    exact ⟨hclock'.trans hclock, hcount'.trans hcount, htimeout'.trans htimeout,
      hstop'.trans hstop⟩
  | doconnect k a => exact doconnect_frame (s.takeTimer k) a
  | doTimeout k connected =>
    have hact : s.apply (.doTimeout k connected) = (s.takeTimer k).doTimeout connected := rfl
    rw [hact]
    unfold doTimeout
    split
    case isTrue hskip =>
      refine ⟨rfl, rfl, rfl, ?_⟩
      cases hstop : s.isStop with
      | true => exact hstop
      | false =>
        have hskip' : (s.isStop || connected) = true := hskip
        rw [hstop, Bool.false_or] at hskip'
        rw [hskip']
        exact hstop
    case isFalse hgo =>
      have hgo' : ¬ (s.isStop || connected) = true := hgo
      refine ⟨rfl, rfl, rfl, ?_⟩
      cases connected with
      | true => exact absurd (Bool.or_true _) hgo'
      | false => exact (Bool.or_true _).symm
  | retry =>
    have hact : s.apply .retry = s.retry := rfl
    rw [hact]
    unfold retry
    split <;> exact ⟨rfl, rfl, rfl, rfl⟩
  | establish =>
    have hact : s.apply .establish = s.establish := rfl
    rw [hact]
    unfold establish
    split <;> exact ⟨rfl, rfl, rfl, rfl⟩
  | _ => exact ⟨rfl, rfl, rfl, rfl⟩

end Schedule

/-- The timers that a step keeps. -/
def kept (w : Connector) : Input → List (ℤ × TimerTask)
  | .fire k _ => w.timers.eraseIdx k
  | _ => w.timers

/-- What a beat keeps of the pending retries is what the step keeps. -/
theorem kept_beat (w : Connector) (i : Input) : w.schedule.kept (w.beat i) = w.kept i := by
  cases i with
  | connect foreign a =>
    simp only [beat]
    split <;> rfl
  | shutdown foreign => cases foreign <;> rfl
  | forceClose foreign => cases foreign <;> rfl
  | stop foreign => cases foreign <;> rfl
  | advance k =>
    simp only [beat]
    split <;> rfl
  | nextTask a =>
    simp only [beat]
    split
    case h_1 r _ => cases r.1 <;> rfl
    case h_2 => rfl
  | fire k a =>
    simp only [beat]
    split
    · rfl
    · rfl
    case h_3 hk => exact (List.eraseIdx_of_length_le (List.getElem?_eq_none_iff.1 hk)).symm
  | handleWrite soError selfConnect =>
    simp only [beat]
    split_ifs <;> rfl
  | handleError =>
    simp only [beat]
    split_ifs <;> rfl
  | _ => rfl

/-- The step schedules a retry. -/
def Schedules (w : Connector) (i : Input) : Prop := w.schedule.schedules (w.beat i)

instance (w : Connector) (i : Input) : Decidable (w.Schedules i) :=
  inferInstanceAs (Decidable (Schedule.schedules _ _))

end Connector
end Net
end Sevent
