/-
# `EventLoop::loop`, with every thread that queues tasks

`sevent/net/EventLoop.cpp`, `sevent/net/WakeupChannel.cpp`.

`Sevent.Net.EventLoop` has the task queue alone.  Here is the loop around it:
the test of `isQuit`, `poll`, the handlers of the active channels and
`doPendingTasks`, with the flag `isTasking` and the wakeup descriptor.  A step
is what one thread does between two points where another thread can see a
difference: the critical section of `queueInLoop`, the write of `wakeup` that
may follow it, the swap, the call of one task.  Between the push and the write
the thread is in `pushing`, and any other thread may go on.

`poll` returns when the environment says so and with any channels, but not with
the wakeup channel while its counter is zero.  A handler and a task are user
code: while one runs, the loop's own thread may call `queueInLoop` too.  So is
what the destructors of the tasks run: `tmpTasks` is destroyed at the end of
`doPendingTasks`, after `isTasking = false`, and with it what the tasks hold, a
last reference to a connection for instance.

`serial`, `pusher`, `afterEntry` and `wakes` of a task, and `entered`,
`batches`, `pushed` and `executed` of the loop, are not in the code: they say
what happened.
-/

import Sevent.Net.EventLoop
import Sevent.Lib.Run
import Mathlib.Data.Nat.Notation
import Mathlib.Algebra.Order.Ring.Nat

namespace Sevent
namespace Net

/-- The eventfd of a `WakeupChannel`. -/
structure WakeupChannel where
  counter : ℕ
  deriving DecidableEq, Repr

namespace WakeupChannel

/-- The largest value an eventfd counter takes. -/
def maxCounter : ℕ := 2 ^ 64 - 2

/-- `WakeupChannel::wakeup`: the write adds one, and fails with `EAGAIN` where
the counter would pass its maximum. -/
def wakeup (w : WakeupChannel) : WakeupChannel :=
  if w.counter < maxCounter then { counter := w.counter + 1 } else w

/-- `WakeupChannel::handleRead`: the read resets the counter. -/
def handleRead (_ : WakeupChannel) : WakeupChannel := { counter := 0 }

/-- Whether `poll` finds the descriptor readable. -/
def readable (w : WakeupChannel) : Bool := 0 < w.counter

@[simp]
theorem readable_wakeup (w : WakeupChannel) : w.wakeup.readable = true := by
  unfold wakeup readable
  split
  · simp
  · next hmax =>
      have hpos : 0 < maxCounter := by decide
      simp only [decide_eq_true_eq]
      omega

end WakeupChannel

namespace EventLoop

/-- The thread that runs the loop, and the others. -/
inductive Thread
  | owner
  | other (n : ℕ)
  deriving DecidableEq, Repr

/-- A queued task: its function, how many pushes came before it, who pushed it
and from which batch if a running task did, whether `loop()` had been entered,
and whether the push is followed by a wakeup. -/
structure QueuedTask (τ : Type*) where
  cb : τ
  serial : ℕ
  thread : Thread
  pusher : Option ℕ
  afterEntry : Bool
  wakes : Bool
  deriving DecidableEq, Repr

/-- A task that was called, and the batch that called it. -/
structure Executed (τ : Type*) where
  task : QueuedTask τ
  batch : ℕ
  deriving DecidableEq, Repr

/-- A channel in `activeChannels`: the wakeup channel or any other. -/
inductive ActiveChannel
  | wakeupChannel
  | other (n : ℕ)
  deriving DecidableEq, Repr

/-- Where the loop's thread is.  `running` says that it is inside a handler, or
inside a task, and not between two of them; `left` is the number of tasks whose
destructors have still to run. -/
inductive Place
  | outside
  | testQuit
  | poll
  | handlers (activeChannels : List ActiveChannel) (running : Bool)
  | beforeSwap
  | tasks (running : Bool)
  | destroying (left : ℕ)
  deriving DecidableEq, Repr

/-- Places where the loop's thread runs user code. -/
def Place.userCode : Place → Bool
  | .outside => true
  | .handlers _ running => running
  | .tasks running => running
  | .destroying left => 0 < left
  | _ => false

end EventLoop

open EventLoop in
/-- A loop and the threads that use it.  `tmpTasks` is what is left to call of
the vector of `doPendingTasks`, and `tmpSize` is its size.  `pushing` and
`quitting` are the threads between the first half of `queueInLoop` or `quit` and
the write of `wakeup`; `batches` counts the batches that are done. -/
structure EventLoop (τ : Type*) where
  place : Place
  isTasking : Bool
  isQuit : Bool
  pendingTasks : List (QueuedTask τ)
  tmpTasks : List (QueuedTask τ)
  tmpSize : ℕ
  wakeupChannel : WakeupChannel
  pushing : List Thread
  quitting : List Thread
  entered : Bool
  batches : ℕ
  pushed : List (QueuedTask τ)
  executed : List (Executed τ)
  deriving DecidableEq, Repr

namespace EventLoop

variable {τ : Type*}

def init : EventLoop τ where
  place := .outside
  isTasking := false
  isQuit := false
  pendingTasks := []
  tmpTasks := []
  tmpSize := 0
  wakeupChannel := { counter := 0 }
  pushing := []
  quitting := []
  entered := false
  batches := 0
  pushed := []
  executed := []

/-- Whether thread `t` can call into the loop now. -/
def canCall (l : EventLoop τ) (t : Thread) : Bool :=
  decide (t ∉ l.pushing) && decide (t ∉ l.quitting) &&
    (decide (t ≠ .owner) || l.place.userCode)

/-- The batch of the task that runs, if the loop's thread is inside one. -/
def runningBatch (l : EventLoop τ) (t : Thread) : Option ℕ :=
  if t = .owner ∧ l.place = .tasks true then some l.batches else none

/-- The task that `queueInLoop(cb)` pushes when thread `t` calls it; `wakes` is
`!isInOwnerThread() || isTasking`. -/
def newTask (l : EventLoop τ) (t : Thread) (cb : τ) : QueuedTask τ where
  cb := cb
  serial := l.pushed.length
  thread := t
  pusher := l.runningBatch t
  afterEntry := l.entered
  wakes := decide (t ≠ .owner) || l.isTasking

/-- `EventLoop::queueInLoop` up to the call of `wakeup`. -/
def queueInLoop (l : EventLoop τ) (t : Thread) (cb : τ) : EventLoop τ :=
  let task := l.newTask t cb
  { l with
    pendingTasks := l.pendingTasks ++ [task]
    pushed := l.pushed ++ [task]
    pushing := if task.wakes then l.pushing ++ [t] else l.pushing }

/-- `EventLoop::runInLoop`: in the loop's thread the call of `cb` is part of the
code that runs already. -/
def runInLoop (l : EventLoop τ) (t : Thread) (cb : τ) : EventLoop τ :=
  if t = .owner then l else l.queueInLoop t cb

/-- `EventLoop::quit` up to the call of `wakeup`. -/
def quit (l : EventLoop τ) (t : Thread) : EventLoop τ :=
  { l with
    isQuit := true
    quitting := if t = .owner then l.quitting else l.quitting ++ [t] }

/-- What can happen to a loop. -/
inductive Act (τ : Type*)
  | queueInLoop (t : Thread) (cb : τ)
  | runInLoop (t : Thread) (cb : τ)
  | quit (t : Thread)
  | wakeup (t : Thread)
  | loop
  | testQuit
  | poll (activeChannels : List ActiveChannel)
  | handleEvent
  | handlerReturns
  | setTasking
  | swapTasks
  | nextTask
  | taskReturns
  | clearTasking
  | destroyTask
  | endTasks
  deriving DecidableEq, Repr

/-- `EventLoop::wakeup`, the end of `queueInLoop` and `quit`. -/
def wakeup (l : EventLoop τ) (t : Thread) : Option (EventLoop τ) :=
  if t ∈ l.pushing then
    some { l with pushing := l.pushing.erase t, wakeupChannel := l.wakeupChannel.wakeup }
  else if t ∈ l.quitting then
    some { l with quitting := l.quitting.erase t, wakeupChannel := l.wakeupChannel.wakeup }
  else none

/-- The loop over `activeChannels`: the next channel's `handleEvent`. -/
def handleEvent (l : EventLoop τ) : Option (EventLoop τ) :=
  match l.place with
  | .handlers (.wakeupChannel :: channels) false =>
    some { l with
      place := .handlers channels false
      wakeupChannel := l.wakeupChannel.handleRead }
  | .handlers (.other _ :: channels) false => some { l with place := .handlers channels true }
  | _ => none

/-- `isTasking = true`, once all channels are handled. -/
def setTasking (l : EventLoop τ) : Option (EventLoop τ) :=
  match l.place with
  | .handlers [] false => some { l with place := .beforeSwap, isTasking := true }
  | _ => none

/-- `tmpTasks.swap(pendingTasks)`. -/
def swapTasks (l : EventLoop τ) : Option (EventLoop τ) :=
  match l.place with
  | .beforeSwap =>
    some { l with
      place := .tasks false
      tmpTasks := l.pendingTasks
      tmpSize := l.pendingTasks.length
      pendingTasks := [] }
  | _ => none

/-- The loop over `tmpTasks`: the next `cb()`. -/
def nextTask (l : EventLoop τ) : Option (EventLoop τ) :=
  match l.place, l.tmpTasks with
  | .tasks false, task :: tmpTasks =>
    some { l with
      place := .tasks true
      tmpTasks := tmpTasks
      executed := l.executed ++ [{ task := task, batch := l.batches }] }
  | _, _ => none

/-- `isTasking = false`, once all tasks have been called. -/
def clearTasking (l : EventLoop τ) : Option (EventLoop τ) :=
  match l.place, l.tmpTasks with
  | .tasks false, [] =>
    some { l with place := .destroying l.tmpSize, isTasking := false, batches := l.batches + 1 }
  | _, _ => none

/-- The destructor of the next task returns. -/
def destroyTask (l : EventLoop τ) : Option (EventLoop τ) :=
  match l.place with
  | .destroying (left + 1) => some { l with place := .destroying left }
  | _ => none

/-- The end of `doPendingTasks`. -/
def endTasks (l : EventLoop τ) : Option (EventLoop τ) :=
  match l.place with
  | .destroying 0 => some { l with place := .testQuit }
  | _ => none

/-- The next state, `none` where the act cannot occur. -/
def step (l : EventLoop τ) : Act τ → Option (EventLoop τ)
  | .queueInLoop t cb => if l.canCall t then some (l.queueInLoop t cb) else none
  | .runInLoop t cb => if l.canCall t then some (l.runInLoop t cb) else none
  | .quit t => if l.canCall t then some (l.quit t) else none
  | .wakeup t => l.wakeup t
  | .loop =>
    if l.place = .outside ∧ l.canCall .owner then
      some { l with place := .testQuit, entered := true }
    else none
  | .testQuit =>
    if l.place = .testQuit then
      some { l with place := if l.isQuit then .outside else .poll }
    else none
  | .poll activeChannels =>
    if l.place = .poll ∧ (.wakeupChannel ∈ activeChannels → l.wakeupChannel.readable) then
      some { l with place := .handlers activeChannels false }
    else none
  | .handleEvent => l.handleEvent
  | .handlerReturns =>
    match l.place with
    | .handlers channels true => some { l with place := .handlers channels false }
    | _ => none
  | .setTasking => l.setTasking
  | .swapTasks => l.swapTasks
  | .nextTask => l.nextTask
  | .taskReturns =>
    if l.place = .tasks true ∧ l.canCall .owner then some { l with place := .tasks false }
    else none
  | .clearTasking => l.clearTasking
  | .destroyTask => l.destroyTask
  | .endTasks => l.endTasks

end EventLoop

end Net
end Sevent
