/-
# `TimerManager`: the timers of a loop

`sevent/net/TimerManager.cpp`, `sevent/net/Timer.cpp`, `sevent/base/Timestamp.cpp`.

The timers that wait are a `std::set` ordered by expiry and address.  When the
timerfd fires, `getExpired` takes the expired ones out of the set,
`handleExpired` runs their callbacks one after the other, and `resetTimers` puts
the repeating ones back.  `addTimer` and `cancel` act at once in the loop's
thread, which may be inside a callback, and go through the task queue from
another thread.

A step is one critical section of this: a call, one callback, one task.  The
calls that a callback makes are the steps between it and the next callback.
A `Timer` object is identified by `id`, the number of its construction, which
the code does not have; `addr` is its address, which no two timers share while
both exist.  Times are microseconds and intervals milliseconds, both `int64_t`;
`addTime` computes with them as the code does, and wraps where it overflows.
-/

import Sevent.Lib.Bytes
import Sevent.Net.EventLoop
import Mathlib.Data.List.Sort

namespace Sevent
namespace Net

open Bytes

/-- `Timer`, and whether it has a callback. -/
structure Timer where
  id : ℕ
  addr : ℕ
  timerCallback : Bool
  expired : ℤ
  interval : ℤ
  deriving DecidableEq, Repr

namespace Timer

def isRepeat (t : Timer) : Bool := 0 < t.interval

/-- `Timestamp::addTime`, a product and a sum of `int64_t`. -/
def addTime (t : ℤ) (millisecond : ℤ) : ℤ := toInt64 (t + toInt64 (millisecond * 1000))

/-- Without an overflow the time is the sum. -/
theorem addTime_eq {t millisecond : ℤ} (h : IsInt64 (t + millisecond * 1000)) :
    addTime t millisecond = t + millisecond * 1000 :=
  (toInt64_add_toInt64 t _).trans ((toInt64_eq_iff _).2 h)

/-- `Timer::resetExpired`: a repeating timer expires next an interval after `now`. -/
def resetExpired (t : Timer) (now : ℤ) : Timer :=
  { t with expired := if t.isRepeat then addTime now t.interval else 0 }

/-- `Timer::Comparator`, for pointers that are not null. -/
def lt (lhs rhs : Timer) : Bool :=
  if lhs.expired < rhs.expired then true
  else if rhs.expired < lhs.expired then false
  else lhs.addr < rhs.addr

/-- Equivalent under the comparator: the same key of the set. -/
def equiv (lhs rhs : Timer) : Bool := !lt lhs rhs && !lt rhs lhs

end Timer

namespace TimerManager

/-- The tasks of the timer manager. -/
inductive Task
  | addTimerInLoop (timer : Timer)
  | cancelInLoop (timerId : ℕ)
  deriving DecidableEq, Repr

/-- What a run does, in order. -/
inductive Act
  | run (timerId : ℕ)
  | cancelled (timerId : ℕ)
  | arm (expired : ℤ)
  deriving DecidableEq, Repr

/-- `expiredList` while `handleExpired` runs: the timers whose callback has been
called and those still to come. -/
structure Batch where
  now : ℤ
  done : List Timer
  todo : List Timer

end TimerManager

open TimerManager in
/-- The timers of a loop, and the tasks that concern them.  `created` counts the
timers that have been constructed. -/
structure TimerManager where
  timers : List Timer
  expiredList : Option Batch
  loop : TaskQueue Task
  created : ℕ
  log : List Act

namespace TimerManager

def init : TimerManager where
  timers := []
  expiredList := none
  loop := .empty
  created := 0
  log := []

def emit (m : TimerManager) (a : Act) : TimerManager := { m with log := m.log ++ [a] }

/-- `timers.insert(timer)`. -/
def insertSet (timers : List Timer) (timer : Timer) : List Timer :=
  if timers.any (Timer.equiv timer) then timers
  else timers.orderedInsert (fun a b => Timer.lt a b = true) timer

/-- `TimerManager::insert`: the manager and `isChanged`. -/
def insert (m : TimerManager) (timer : Timer) : TimerManager × Bool :=
  let isChanged := match m.timers.head? with
    | none => true
    | some first => decide (timer.expired < first.expired)
  ({ m with timers := insertSet m.timers timer }, isChanged)

/-- `TimerManager::addTimerInLoop`: the timer is inserted, and when it is the
earliest one the timerfd is armed for it. -/
def addTimerInLoop (m : TimerManager) (timer : Timer) : TimerManager :=
  let (m, isChanged) := m.insert timer
  if isChanged then m.emit (.arm timer.expired) else m

/-- The timers whose insertion is queued. -/
def queuedTimers (tasks : List Task) : List Timer :=
  tasks.filterMap fun t => match t with
    | .addTimerInLoop timer => some timer
    | .cancelInLoop _ => none

/-- The timers that a running batch holds. -/
def batchTimers : Option Batch → List Timer
  | none => []
  | some b => b.done ++ b.todo

/-- `timerId.getPtr().lock()`: the timer, while something holds it. -/
def lock (m : TimerManager) (timerId : ℕ) : Option Timer :=
  (m.timers ++ batchTimers m.expiredList ++ queuedTimers m.loop.tasks).find? fun t => t.id = timerId

/-- `TimerManager::cancelInLoop`: `find` and `erase` in the set. -/
def cancelInLoop (m : TimerManager) (timerId : ℕ) : TimerManager :=
  let m' := match m.lock timerId with
    | none => m
    | some timer =>
      match m.timers.find? (Timer.equiv timer) with
      | none => m
      | some found => { m with timers := m.timers.erase found }
  m'.emit (.cancelled timerId)

/-- `TimerManager::getExpired`: the timers before the first that is not less
than a fresh timer `tp` with expiry `now`, and the set without them. -/
def getExpired (timers : List Timer) (now : ℤ) (tpAddr : ℕ) : List Timer × List Timer :=
  let tp : Timer :=
    { id := 0, addr := tpAddr, timerCallback := false, expired := now, interval := 0 }
  timers.span fun t => Timer.lt t tp

/-- The loop of `resetTimers`. -/
def resetLoop (m : TimerManager) (now : ℤ) : List Timer → TimerManager
  | [] => m
  | item :: list =>
    if item.isRepeat then (m.insert (item.resetExpired now)).1.resetLoop now list
    else m.resetLoop now list

/-- `TimerManager::resetTimers`: the repeating timers of a batch go back into the
set, and the timerfd is armed for the earliest of all. -/
def resetTimers (m : TimerManager) (list : List Timer) (now : ℤ) : TimerManager :=
  let m := m.resetLoop now list
  match m.timers.head? with
  | none => m
  | some first => m.emit (.arm first.expired)

/-! ### Runs -/

/-- What can happen to the timers of a loop. -/
inductive Input
  | addTimer (foreign : Bool) (addr : ℕ) (cb : Bool) (expired interval : ℤ)
  | cancel (foreign : Bool) (timerId : ℕ)
  | handleExpired (now : ℤ) (tpAddr : ℕ)
  | runNext
  | resetTimers
  | swapTasks
  | nextTask
  | endTasks
  deriving DecidableEq, Repr

/-- The next state, `none` where the input cannot occur: a new timer has an
address of its own, a `TimerId` comes from an earlier `addTimer`, and the loop's
thread handles one batch, or one round of tasks, at a time. -/
def step (m : TimerManager) : Input → Option TimerManager
  | .addTimer foreign addr cb expired interval =>
    if (m.timers ++ batchTimers m.expiredList ++ queuedTimers m.loop.tasks).all
        fun t => t.addr != addr then
      let timer : Timer :=
        { id := m.created, addr := addr, timerCallback := cb, expired := expired,
          interval := interval }
      let m := { m with created := m.created + 1 }
      if foreign then some { m with loop := m.loop.queueInLoop (.addTimerInLoop timer) }
      else some (m.addTimerInLoop timer)
    else none
  | .cancel foreign timerId =>
    if timerId < m.created then
      if foreign then some { m with loop := m.loop.queueInLoop (.cancelInLoop timerId) }
      else some (m.cancelInLoop timerId)
    else none
  | .handleExpired now tpAddr =>
    if m.expiredList.isNone ∧ ¬ m.loop.isTasking then
      let (expiredList, timers) := getExpired m.timers now tpAddr
      some { m with
        timers := timers
        expiredList := some { now := now, done := [], todo := expiredList } }
    else none
  | .runNext =>
    match m.expiredList with
    | some { now, done, todo := item :: todo } =>
      let m := { m with expiredList := some { now := now, done := done ++ [item], todo := todo } }
      some (if item.timerCallback then m.emit (.run item.id) else m)
    | _ => none
  | .resetTimers =>
    match m.expiredList with
    | some { now, done, todo := [] } =>
      some ({ m with expiredList := none }.resetTimers done now)
    | _ => none
  | .swapTasks =>
    if m.expiredList.isNone then m.loop.swapTasks.map fun q => { m with loop := q } else none
  | .nextTask =>
    m.loop.nextTask.map fun t =>
      let m := { m with loop := t.2 }
      match t.1 with
      | .addTimerInLoop timer => m.addTimerInLoop timer
      | .cancelInLoop timerId => m.cancelInLoop timerId
  | .endTasks => m.loop.endTasks.map fun q => { m with loop := q }

end TimerManager

end Net
end Sevent
