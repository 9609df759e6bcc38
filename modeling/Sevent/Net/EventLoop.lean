/-
# `EventLoop`: the task queue

`sevent/net/EventLoop.cpp`.

A loop runs in one thread.  `runInLoop` called in that thread runs its task at
once; from another thread it goes through `queueInLoop`, which appends the task
to `pendingTasks` under the mutex.  `doPendingTasks` swaps the queue into a
local vector and runs the tasks in order; what they queue waits for the next
round.

Each critical section is one step here, and each task of the local vector is
one step, so other threads may queue tasks between any two of them.  `tasks` is
the order in which the tasks still to run will run: `queueInLoop` appends to
it, `doPendingTasks` takes from its front, and the swap leaves it as it is.
-/

import Mathlib.Data.List.Basic

namespace Sevent
namespace Net

/-- `pendingTasks`, and the vector `doPendingTasks` is running, `none` when
`isTasking` is false. -/
structure TaskQueue (τ : Type*) where
  pendingTasks : List τ
  tmpTasks : Option (List τ)

namespace TaskQueue

variable {τ : Type*}

def empty : TaskQueue τ := { pendingTasks := [], tmpTasks := none }

def isTasking (q : TaskQueue τ) : Bool := q.tmpTasks.isSome

/-- The critical section of `EventLoop::queueInLoop`. -/
def queueInLoop (q : TaskQueue τ) (cb : τ) : TaskQueue τ :=
  { q with pendingTasks := q.pendingTasks ++ [cb] }

/-- The swap at the start of `doPendingTasks`. -/
def swapTasks (q : TaskQueue τ) : Option (TaskQueue τ) :=
  match q.tmpTasks with
  | none => some { pendingTasks := [], tmpTasks := some q.pendingTasks }
  | some _ => none

/-- The next task of the running vector, and the queue without it. -/
def nextTask (q : TaskQueue τ) : Option (τ × TaskQueue τ) :=
  match q.tmpTasks with
  | some (cb :: rest) => some (cb, { q with tmpTasks := some rest })
  | _ => none

/-- The end of `doPendingTasks`. -/
def endTasks (q : TaskQueue τ) : Option (TaskQueue τ) :=
  match q.tmpTasks with
  | some [] => some { q with tmpTasks := none }
  | _ => none

/-- The tasks still to run, in the order in which they will run. -/
def tasks (q : TaskQueue τ) : List τ := q.tmpTasks.getD [] ++ q.pendingTasks

variable {q q' : TaskQueue τ} {cb : τ}

@[simp]
theorem tasks_queueInLoop : (q.queueInLoop cb).tasks = q.tasks ++ [cb] := by
  simp [tasks, queueInLoop]

theorem tasks_swapTasks (h : q.swapTasks = some q') : q'.tasks = q.tasks := by
  unfold swapTasks at h
  split at h
  case h_1 hq =>
    obtain rfl := Option.some.inj h
    simp [tasks, hq]
  case h_2 => cases h

theorem tasks_nextTask (h : q.nextTask = some (cb, q')) : q.tasks = cb :: q'.tasks := by
  unfold nextTask at h
  split at h
  case h_1 hq =>
    cases h
    simp [tasks, hq]
  case h_2 => cases h

theorem tasks_endTasks (h : q.endTasks = some q') : q'.tasks = q.tasks := by
  unfold endTasks at h
  split at h
  case h_1 hq =>
    obtain rfl := Option.some.inj h
    simp [tasks, hq]
  case h_2 => cases h

end TaskQueue

end Net
end Sevent
