/-
# `EventLoop`: the order of the tasks, and the wakeups

Whatever threads push and whatever the tasks push themselves, what was pushed is
what was called, then what `doPendingTasks` still holds, then what is pending,
in this order (`tasks_in_push_order`).  The order is that of the pushes, a task
that a running task pushes waits for a later batch, and two batches after a push
the task has been called.

`queueInLoop` leaves the wakeup out when the loop's own thread calls it while
`isTasking` is false.  In the handlers this is sound because the swap comes
before the next `poll`; what a task pushes after the swap is pushed with
`isTasking` set, and its wakeup is not consumed before the handlers of the next
iteration.  A destructor that pushes while the tasks are destroyed is after the
swap with `isTasking` false: nothing wakes the loop for it, unless another push
does (`Woken`).  `no_lost_wakeup` shows that this is the only place where one is
missing.
-/

import Sevent.Net.EventLoopRun
import Mathlib.Data.List.Nodup
import Mathlib.Data.List.Range

namespace Sevent
namespace Net
namespace EventLoop

open Transition

variable {τ : Type*} {l l' : EventLoop τ}

/-! ### What a step can do -/

/-- The steps of a loop, one constructor for each, with what is known of the
place where it starts; for a push of the loop's own thread, of the act too. -/
inductive Step (a : Act τ) : EventLoop τ → EventLoop τ → Prop
  | queue {l : EventLoop τ} {t : Thread} {cb : τ} :
      l.canCall t = true → (t = .owner → a = .queueInLoop t cb) → Step a l (l.queueInLoop t cb)
  | direct {l : EventLoop τ} : Step a l l
  | quit {l : EventLoop τ} {t : Thread} : Step a l (l.quit t)
  | wakeup {l : EventLoop τ} {t : Thread} : t ∈ l.pushing →
      Step a l { l with pushing := l.pushing.erase t, wakeupChannel := l.wakeupChannel.wakeup }
  | wakeupQuit {l : EventLoop τ} {t : Thread} :
      Step a l { l with quitting := l.quitting.erase t, wakeupChannel := l.wakeupChannel.wakeup }
  | enter {l : EventLoop τ} : l.place = .outside →
      Step a l { l with place := .testQuit, entered := true }
  | leave {l : EventLoop τ} : l.place = .testQuit → l.isQuit = true →
      Step a l { l with place := .outside }
  | block {l : EventLoop τ} : l.place = .testQuit → l.isQuit = false →
      Step a l { l with place := .poll }
  | active {l : EventLoop τ} {channels : List ActiveChannel} : l.place = .poll →
      Step a l { l with place := .handlers channels false }
  | read {l : EventLoop τ} {channels : List ActiveChannel} :
      l.place = .handlers (.wakeupChannel :: channels) false →
      Step a l { l with
        place := .handlers channels false
        wakeupChannel := l.wakeupChannel.handleRead }
  | handler {l : EventLoop τ} {channels channels' : List ActiveChannel} {running running' : Bool} :
      l.place = .handlers channels running →
      Step a l { l with place := .handlers channels' running' }
  | setTasking {l : EventLoop τ} : l.place = .handlers [] false →
      Step a l { l with place := .beforeSwap, isTasking := true }
  | swap {l : EventLoop τ} : l.place = .beforeSwap →
      Step a l { l with
        place := .tasks false
        tmpTasks := l.pendingTasks
        tmpSize := l.pendingTasks.length
        pendingTasks := [] }
  | next {l : EventLoop τ} {task : QueuedTask τ} {tmpTasks : List (QueuedTask τ)} :
      l.place = .tasks false → l.tmpTasks = task :: tmpTasks →
      Step a l { l with
        place := .tasks true
        tmpTasks := tmpTasks
        executed := l.executed ++ [{ task := task, batch := l.batches }] }
  | returns {l : EventLoop τ} : l.place = .tasks true → .owner ∉ l.pushing →
      Step a l { l with place := .tasks false }
  | finish {l : EventLoop τ} : l.place = .tasks false → l.tmpTasks = [] →
      Step a l { l with
        place := .destroying l.tmpSize
        isTasking := false
        batches := l.batches + 1 }
  | destroy {l : EventLoop τ} {left : ℕ} : l.place = .destroying (left + 1) →
      Step a l { l with place := .destroying left }
  | done {l : EventLoop τ} : l.place = .destroying 0 → Step a l { l with place := .testQuit }

/-- The owner thread can call where it runs user code, and is not inside
`queueInLoop` then. -/
theorem canCall_owner (h : l.canCall .owner = true) :
    .owner ∉ l.pushing ∧ l.place.userCode = true := by
  simp only [canCall, Bool.and_eq_true, Bool.or_eq_true, decide_eq_true_eq] at h
  exact ⟨h.1.1, h.2.resolve_left fun hne => hne rfl⟩

/-- What an action does, one case for each place of the loop, guards included. -/
theorem step_cases {a : Act τ} (h : step l a = some l') : Step a l l' := by
  rcases a with ⟨t, cb⟩ | ⟨t, cb⟩ | t | t | _ | _ | channels | _ | _ | _ | _ | _ | _ | _ | _ | _ <;>
    simp only [step] at h
  · obtain ⟨hcall, rfl⟩ := Option.ite_some_none_eq_some.1 h
    exact .queue hcall fun ht => by rw [ht]
  · obtain ⟨hcall, rfl⟩ := Option.ite_some_none_eq_some.1 h
    unfold runInLoop
    split
    · exact .direct
    · next hne => exact .queue hcall fun ht => absurd ht hne
  · obtain ⟨-, rfl⟩ := Option.ite_some_none_eq_some.1 h
    exact .quit
  · unfold wakeup at h
    split at h
    · next hmem =>
        obtain rfl := Option.some.inj h
        exact .wakeup hmem
    · obtain ⟨-, rfl⟩ := Option.ite_some_none_eq_some.1 h
      exact .wakeupQuit
  · obtain ⟨⟨hplace, -⟩, rfl⟩ := Option.ite_some_none_eq_some.1 h
    exact .enter hplace
  · obtain ⟨hplace, rfl⟩ := Option.ite_some_none_eq_some.1 h
    by_cases hquit : l.isQuit = true
    · rw [if_pos hquit]
      exact .leave hplace hquit
    · rw [if_neg hquit]
      exact .block hplace (by simpa using hquit)
  · obtain ⟨⟨hplace, -⟩, rfl⟩ := Option.ite_some_none_eq_some.1 h
    exact .active hplace
  · unfold handleEvent at h
    split at h
    · next hplace =>
        obtain rfl := Option.some.inj h
        exact .read hplace
    · next hplace =>
        obtain rfl := Option.some.inj h
        exact .handler hplace
    · simp at h
  · split at h
    · next hplace =>
        obtain rfl := Option.some.inj h
        exact .handler hplace
    · simp at h
  · unfold setTasking at h
    split at h
    · next hplace =>
        obtain rfl := Option.some.inj h
        exact .setTasking hplace
    · simp at h
  · unfold swapTasks at h
    split at h
    · next hplace =>
        obtain rfl := Option.some.inj h
        exact .swap hplace
    · simp at h
  · unfold nextTask at h
    split at h
    · next hplace htmp =>
        obtain rfl := Option.some.inj h
        exact .next hplace htmp
    · simp at h
  · obtain ⟨⟨hplace, hcall⟩, rfl⟩ := Option.ite_some_none_eq_some.1 h
    exact .returns hplace (canCall_owner hcall).1
  · unfold clearTasking at h
    split at h
    · next hplace htmp =>
        obtain rfl := Option.some.inj h
        exact .finish hplace htmp
    · simp at h
  · unfold destroyTask at h
    split at h
    · next hplace =>
        obtain rfl := Option.some.inj h
        exact .destroy hplace
    · simp at h
  · unfold endTasks at h
    split at h
    · next hplace =>
        obtain rfl := Option.some.inj h
        exact .done hplace
    · simp at h

/-! ### The order of the tasks -/

/-- Whether `doPendingTasks` is past its swap. -/
def Place.pastSwap : Place → Bool
  | .tasks _ => true
  | _ => false

/-- Where the pushed tasks are, and in which batches they were pushed and
called. -/
structure Ordered (l : EventLoop τ) : Prop where
  conserved : l.pushed = l.executed.map Executed.task ++ l.tmpTasks ++ l.pendingTasks
  serials : l.pushed.map QueuedTask.serial = List.range l.pushed.length
  swapped : l.place.pastSwap = false → l.tmpTasks = []
  called : ∀ e ∈ l.executed, ∀ b, e.task.pusher = some b → b < e.batch
  held : ∀ task ∈ l.tmpTasks, ∀ b, task.pusher = some b → b < l.batches
  pending : ∀ task ∈ l.pendingTasks, ∀ b, task.pusher = some b →
    b < l.batches ∨ (b = l.batches ∧ l.place.pastSwap = true)

/-- Nothing was pushed at the start. -/
theorem ordered_init : Ordered (init : EventLoop τ) := by
  constructor <;> simp [init]

/-- A batch that pushes is the running one. -/
theorem runningBatch_eq_some {t : Thread} {b : ℕ} (h : l.runningBatch t = some b) :
    b = l.batches ∧ l.place.pastSwap = true := by
  unfold runningBatch at h
  split at h
  · next hrun =>
      refine ⟨(Option.some.inj h).symm, ?_⟩
      rw [hrun.2]
      rfl
  · simp at h

/-- A push puts the task behind all others, and gives it the number of the batch
that it waits for. -/
theorem Ordered.queueInLoop (h : Ordered l) (t : Thread) (cb : τ) :
    Ordered (l.queueInLoop t cb) := by
  constructor
  case conserved =>
    simp only [EventLoop.queueInLoop]
    rw [h.conserved]
    simp
  case serials =>
    show (l.pushed ++ [l.newTask t cb]).map QueuedTask.serial = _
    simp [h.serials, newTask, EventLoop.queueInLoop, List.range_succ]
  case swapped => exact h.swapped
  case called => exact h.called
  case held => exact h.held
  case pending =>
    intro task htask b hb
    rcases List.mem_append.1 htask with hold | hnew
    · exact h.pending task hold b hb
    · rw [List.mem_singleton.1 hnew] at hb
      exact .inr (runningBatch_eq_some hb)

/-- What moves the loop's thread within one side of the swap keeps the order. -/
theorem Ordered.move (h : Ordered l) {p : Place} (hp : p.pastSwap = l.place.pastSwap) {q e : Bool}
    {w : WakeupChannel} {ts ts' : List Thread} {k : Bool} :
    Ordered { l with
      place := p, isTasking := k, isQuit := q, wakeupChannel := w, pushing := ts, quitting := ts',
      entered := e } := by
  constructor
  case conserved => exact h.conserved
  case serials => exact h.serials
  case swapped => exact fun hpast => h.swapped (hp ▸ hpast)
  case called => exact h.called
  case held => exact h.held
  case pending =>
    intro task htask b hb
    rw [hp]
    exact h.pending task htask b hb

/-- **Every step keeps the order.** -/
theorem Ordered.step {a : Act τ} (hstep : Step a l l') (h : Ordered l) : Ordered l' := by
  cases hstep with
  | queue _ _ => exact h.queueInLoop _ _
  | direct => exact h
  | quit | wakeup _ | wakeupQuit => exact h.move rfl
  | enter hplace | leave hplace _ | block hplace _ | active hplace | read hplace | handler hplace
  | setTasking hplace | returns hplace _ | destroy hplace | done hplace =>
    exact h.move (by rw [hplace]; rfl)
  | swap hplace =>
    -- what was pending is held
    have hnil : l.tmpTasks = [] := h.swapped (by rw [hplace]; rfl)
    refine ⟨?_, h.serials, by simp [Place.pastSwap], h.called, fun task htask b hb => ?_, by simp⟩
    · simpa [hnil] using h.conserved
    · refine (h.pending task htask b hb).resolve_right fun hpast => ?_
      rw [hplace] at hpast
      exact absurd hpast.2 (by decide)
  | next hplace htmp =>
    refine ⟨?_, h.serials, by simp [Place.pastSwap], fun e he b hb => ?_, fun task htask => ?_, ?_⟩
    · simpa [htmp] using h.conserved
    · rcases List.mem_append.1 he with hold | hnew
      · exact h.called e hold b hb
      · obtain rfl := List.mem_singleton.1 hnew
        exact h.held _ (by rw [htmp]; exact List.mem_cons_self) b hb
    · exact h.held task (by rw [htmp]; exact List.mem_cons_of_mem _ htask)
    · intro task htask b hb
      have hpending := h.pending task htask b hb
      rw [hplace] at hpending
      exact hpending
  | finish hplace htmp =>
    refine ⟨h.conserved, h.serials, fun _ => htmp, h.called, fun task htask b hb => ?_, ?_⟩
    · exact Nat.lt_succ_of_lt (h.held task htask b hb)
    · intro task htask b hb
      have hpending := h.pending task htask b hb
      show b < l.batches + 1 ∨ _
      omega

/-! ### Two batches later -/

/-- The first `n` pushes, seen from a state with `b` finished batches: one more
batch has taken them out of `pendingTasks`, two have called them. -/
structure Served (n b : ℕ) (l : EventLoop τ) : Prop where
  pushed : n ≤ l.pushed.length
  since : b ≤ l.batches
  swapped : b < l.batches → l.place.pastSwap = true → n ≤ l.executed.length + l.tmpTasks.length
  called : b + 2 ≤ l.batches → n ≤ l.executed.length

/-- A task that is pushed now is not served yet; two batches are still to come. -/
theorem served_self (l : EventLoop τ) : Served l.pushed.length l.batches l :=
  ⟨Nat.le_refl _, Nat.le_refl _, fun h => absurd h (Nat.lt_irrefl _), fun h => by omega⟩

/-- Where the loop goes does not matter for what was served, unless it comes
before the swap again. -/
theorem Served.move {n b : ℕ} (h : Served n b l) {p : Place}
    (hp : p.pastSwap = true → l.place.pastSwap = true) {q e : Bool}
    {w : WakeupChannel} {ts ts' : List Thread} {k : Bool} :
    Served n b { l with
      place := p, isTasking := k, isQuit := q, wakeupChannel := w, pushing := ts, quitting := ts',
      entered := e } :=
  ⟨h.pushed, h.since, fun hb hpast => h.swapped hb (hp hpast), h.called⟩

/-- Every step keeps the promise to the tasks that were pushed. -/
theorem Served.step {n b : ℕ} {a : Act τ} (hstep : Step a l l') (ho : Ordered l)
    (h : Served n b l) :
    Served n b l' := by
  have hlen := congrArg List.length ho.conserved
  simp only [List.length_append, List.length_map] at hlen
  cases hstep with
  | queue _ _ =>
    refine ⟨?_, h.since, h.swapped, h.called⟩
    exact Nat.le_trans h.pushed (by simp [EventLoop.queueInLoop])
  | direct => exact h
  | quit | wakeup _ | wakeupQuit => exact h.move id
  | enter _ | leave _ _ | block _ _ | active _ | read _ | handler _ | setTasking _ | destroy _
  | done _ =>
    exact h.move (by simp [Place.pastSwap])
  | returns hplace _ => exact h.move fun _ => by rw [hplace]; rfl
  | swap hplace =>
    -- all that is pushed is called or held now
    have hnil : l.tmpTasks.length = 0 := by
      rw [ho.swapped (by rw [hplace]; rfl)]
      rfl
    have hpushed := h.pushed
    refine ⟨h.pushed, h.since, fun _ _ => ?_, h.called⟩
    show n ≤ l.executed.length + l.pendingTasks.length
    omega
  | next hplace htmp =>
    have hswapped := h.swapped
    rw [hplace, htmp] at hswapped
    refine ⟨h.pushed, h.since, fun hb _ => ?_, fun hb => ?_⟩
    · have hle := hswapped hb rfl
      simp only [List.length_append, List.length_cons, List.length_nil] at hle ⊢
      omega
    · have hle := h.called hb
      simp only [List.length_append]
      omega
  | finish hplace htmp =>
    -- the second batch ends with nothing held
    have hswapped := h.swapped
    rw [hplace, htmp] at hswapped
    refine ⟨h.pushed, Nat.le_succ_of_le h.since, by simp [Place.pastSwap], fun hb => ?_⟩
    exact hswapped (by show b < l.batches; simp only at hb; omega) rfl

/-- What the queue promises in a state: the pushed tasks are those that were
called, those of the running batch and the pending ones, in this order and none
twice; so the called tasks are the first of all pushes, and of the pushes of
each thread; a task that was pushed by a running task is called in a later
batch; and once two more batches are finished, all that is pushed now has been
called. -/
structure InPushOrder (l : EventLoop τ) : Prop where
  conserved : l.pushed = l.executed.map Executed.task ++ l.tmpTasks ++ l.pendingTasks
  once : (l.pushed.map QueuedTask.serial).Nodup
  order : l.executed.map Executed.task <+: l.pushed
  issueOrder : ∀ t : Thread, (l.executed.map Executed.task).filter (fun task => task.thread = t) <+:
    l.pushed.filter fun task => task.thread = t
  laterBatch : ∀ e ∈ l.executed, ∀ b, e.task.pusher = some b → b < e.batch
  called : ∀ (is : List (Act τ)) (l' : EventLoop τ), run EventLoop.step l is = some l' →
    l.batches + 2 ≤ l'.batches → l.pushed <+: l'.executed.map Executed.task

/-- What was pushed stays the beginning of what is pushed. -/
theorem pushed_prefix {l₀ : EventLoop τ} {a : Act τ} (hstep : Step a l l')
    (h : l₀.pushed <+: l.pushed) :
    l₀.pushed <+: l'.pushed := by
  cases hstep with
  | queue _ _ => exact h.trans (List.prefix_append _ _)
  | _ => exact h

/-- What was called is a part from the front of what was pushed. -/
theorem Ordered.called_prefix (h : Ordered l) : l.executed.map Executed.task <+: l.pushed := by
  rw [h.conserved, List.append_assoc]
  exact List.prefix_append _ _

/-- Two batches after `l` the pushes of `l` have been called. -/
theorem called_after_two_batches (h : Ordered l) {is : List (Act τ)}
    (hrun : run EventLoop.step l is = some l') (hb : l.batches + 2 ≤ l'.batches) :
    l.pushed <+: l'.executed.map Executed.task := by
  have hinv : Always EventLoop.step (fun m => Ordered m ∧
      Served l.pushed.length l.batches m ∧ l.pushed <+: m.pushed) l is :=
    always_invariant (fun m a m' hm hstep =>
      ⟨hm.1.step (step_cases hstep), hm.2.1.step (step_cases hstep) hm.1,
        pushed_prefix (step_cases hstep) hm.2.2⟩) ⟨h, served_self l, List.prefix_refl _⟩
  obtain ⟨ho, hserved, hpre⟩ := hinv.last hrun
  refine List.prefix_of_prefix_length_le hpre ho.called_prefix ?_
  rw [List.length_map]
  exact hserved.called hb

/-- The invariant says that the tasks are called in the order of their pushes. -/
theorem Ordered.inPushOrder (h : Ordered l) : InPushOrder l := by
  constructor
  case conserved => exact h.conserved
  case once =>
    rw [h.serials]
    exact List.nodup_range
  case order => exact h.called_prefix
  case issueOrder => exact fun t => h.called_prefix.filter _
  case laterBatch => exact h.called
  case called => exact fun is l' hrun hb => called_after_two_batches h hrun hb

/-- **Tasks run once, in the order of the pushes.**  This holds in every state of
every run, with any threads pushing at any time: between two steps of the loop, from
a task that runs, or from the destructors at the end of a batch. -/
theorem tasks_in_push_order (is : List (Act τ)) : Always EventLoop.step InPushOrder init is :=
  (always_invariant (fun _ _ _ h hstep => h.step (step_cases hstep)) ordered_init).mono
    fun _ h => h.inPushOrder

-- Task 7 pushes task 8 while it runs in batch 0; task 8 runs in batch 1.
example : ((run EventLoop.step init [.queueInLoop (.other 1) 7, .loop, .testQuit,
    .wakeup (.other 1),
    .poll [.wakeupChannel], .handleEvent, .setTasking, .swapTasks, .nextTask, .queueInLoop .owner 8,
    .wakeup .owner, .taskReturns, .clearTasking, .destroyTask, .endTasks, .testQuit,
    .poll [.wakeupChannel], .handleEvent, .setTasking, .swapTasks, .nextTask]).map fun l =>
      l.executed.map fun e => (e.task.cb, e.batch)) =
      some [(7, 0), (8, 1)] := by
  decide

/-! ### The wakeups -/

/-- The condition: what the loop's thread pushes while it destroys the tasks
finds the wakeup descriptor readable, or a thread on its way to make it so, or
the loop quits. -/
def Woken (l : EventLoop τ) : Act τ → Prop
  | .queueInLoop .owner _ => ∀ left, l.place = .destroying left →
      l.isQuit = true ∨ l.wakeupChannel.readable = true ∨ l.pushing ≠ []
  | _ => True

/-- Whether the loop's thread reaches the swap, or leaves the loop for good,
before it can be in `poll` again. -/
def noPollAhead (l : EventLoop τ) : Bool :=
  match l.place with
  | .outside => true
  | .testQuit => l.isQuit
  | .poll => false
  | .handlers _ _ => true
  | .beforeSwap => true
  | .tasks _ => false
  | .destroying _ => l.isQuit

/-- The places where `isTasking` is set. -/
def Place.tasking : Place → Bool
  | .beforeSwap => true
  | .tasks _ => true
  | _ => false

/-- What makes the skipped wakeup sound.  A pending task that was pushed after
`loop()` was entered meets the swap before the next `poll`, or a wakeup has been
written that has not been consumed, or one is on its way. -/
structure Signalled (l : EventLoop τ) : Prop where
  tasking : l.isTasking = l.place.tasking
  ownerBusy : .owner ∈ l.pushing → l.place = .tasks true
  notEntered : l.entered = false →
    l.place = .outside ∧ ∀ task ∈ l.pendingTasks, task.afterEntry = false
  left : l.entered = true → l.place = .outside → l.isQuit = true
  covered : ∀ task ∈ l.pendingTasks, task.afterEntry = true → l.noPollAhead = false →
    l.wakeupChannel.readable = true ∨ l.pushing ≠ []

/-- Nothing was pushed at the start, so nothing is to be signalled. -/
theorem signalled_init : Signalled (init : EventLoop τ) := by
  constructor <;> simp [init, Place.tasking]

/-- Where no swap comes before `poll`, a push has a wakeup of its own or finds
one. -/
theorem newTask_woken (h : Signalled l) {t : Thread} (cb : τ) (hcall : l.canCall t = true)
    (hwoken : Woken l (.queueInLoop t cb)) (hahead : l.noPollAhead = false) :
    (l.newTask t cb).wakes = true ∨ l.wakeupChannel.readable = true ∨ l.pushing ≠ [] := by
  by_cases ht : t = .owner
  · subst ht
    have hcode := (canCall_owner hcall).2
    have htasking := h.tasking
    rcases hplace : l.place with _ | _ | _ | ⟨channels, running⟩ | _ | running | left
    case destroying =>
      have hquit : l.isQuit = false := by simpa [noPollAhead, hplace] using hahead
      refine .inr ((hwoken left hplace).resolve_left ?_)
      simp [hquit]
    all_goals
      simp [newTask, htasking, hplace, noPollAhead, Place.userCode, Place.tasking]
        at hcode hahead ⊢
  · simp [newTask, ht]

/-- An owner that pushes with a wakeup is inside a task. -/
theorem place_of_wakes (h : Signalled l) {cb : τ} (hcall : l.canCall .owner = true)
    (hwakes : (l.newTask .owner cb).wakes = true) : l.place = .tasks true := by
  have hcode := (canCall_owner hcall).2
  have htasking := h.tasking
  simp only [newTask, htasking] at hwakes
  rcases hplace : l.place with _ | _ | _ | ⟨channels, running⟩ | _ | running | left <;>
    simp [hplace, Place.userCode, Place.tasking] at hcode hwakes ⊢
  exact hcode

/-- A push keeps it: the thread is about to write, or the loop will swap before
it polls, or the condition says that it is woken. -/
theorem Signalled.queueInLoop (h : Signalled l) {t : Thread} (cb : τ) (hcall : l.canCall t = true)
    (hwoken : Woken l (.queueInLoop t cb)) : Signalled (l.queueInLoop t cb) := by
  refine ⟨h.tasking, fun howner => ?_, fun hentered => ?_, h.left,
    fun task htask hafter hahead => ?_⟩
  · simp only [EventLoop.queueInLoop] at howner
    split at howner
    · next hwakes =>
        rcases List.mem_append.1 howner with hold | hnew
        · exact h.ownerBusy hold
        · obtain rfl := List.mem_singleton.1 hnew
          show l.place = _
          exact place_of_wakes h hcall hwakes
    · exact h.ownerBusy howner
  · obtain ⟨hplace, hbefore⟩ := h.notEntered hentered
    refine ⟨hplace, fun task htask => ?_⟩
    rcases List.mem_append.1 htask with hold | hnew
    · exact hbefore task hold
    · rw [List.mem_singleton.1 hnew]
      exact hentered
  · have hkeep : l.pushing ≠ [] → (l.queueInLoop t cb).pushing ≠ [] := fun hpushing => by
      simp only [EventLoop.queueInLoop]
      split <;> simp [hpushing]
    rcases List.mem_append.1 htask with hold | hnew
    · exact (h.covered task hold hafter hahead).imp_right hkeep
    · rcases newTask_woken h cb hcall hwoken hahead with hwakes | hready
      · exact .inr (by simp [EventLoop.queueInLoop, hwakes])
      · exact hready.imp_right hkeep

/-- The loop's thread goes on inside the loop. -/
theorem Signalled.move (h : Signalled l) (hin : l.place ≠ .outside) {p : Place} {k : Bool}
    {tmp : List (QueuedTask τ)} {executed : List (Executed τ)} {b : ℕ}
    (htasking : k = p.tasking) (hbusy : .owner ∈ l.pushing → p = .tasks true)
    (hleft : p = .outside → l.isQuit = true)
    (hahead : ({ l with place := p } : EventLoop τ).noPollAhead = false → l.noPollAhead = false) :
    Signalled { l with
      place := p, isTasking := k, tmpTasks := tmp, executed := executed, batches := b } := by
  have hentered : l.entered = true := by
    by_contra hfalse
    exact hin (h.notEntered (by simpa using hfalse)).1
  refine ⟨htasking, hbusy, fun hfalse => ?_, fun _ => hleft, fun task htask hafter hfalse => ?_⟩
  · simp [hentered] at hfalse
  · exact h.covered task htask hafter (hahead hfalse)

/-- The owner thread is not between its push and its write unless a task runs. -/
theorem Signalled.not_busy (h : Signalled l) (hplace : l.place ≠ .tasks true) :
    .owner ∉ l.pushing :=
  fun howner => hplace (h.ownerBusy howner)

/-- So where no task runs, the loop's thread goes on without a write to come. -/
theorem Signalled.moveIdle (h : Signalled l) (hin : l.place ≠ .outside)
    (hidle : l.place ≠ .tasks true) {p : Place} {k : Bool} {tmp : List (QueuedTask τ)}
    {executed : List (Executed τ)} {b : ℕ} (htasking : k = p.tasking)
    (hleft : p = .outside → l.isQuit = true)
    (hahead : ({ l with place := p } : EventLoop τ).noPollAhead = false → l.noPollAhead = false) :
    Signalled { l with
      place := p, isTasking := k, tmpTasks := tmp, executed := executed, batches := b } :=
  h.move hin htasking (fun howner => absurd howner (h.not_busy hidle)) hleft hahead

/-- **Every step keeps the wakeups sound.** -/
theorem Signalled.step {a : Act τ} (hstep : Step a l l') (hwoken : Woken l a) (h : Signalled l) :
    Signalled l' := by
  have htasking := h.tasking
  cases hstep with
  | @queue t cb hcall hact =>
    refine h.queueInLoop cb hcall ?_
    cases t with
    | owner => exact hact rfl ▸ hwoken
    | other n => trivial
  | direct => exact h
  | quit =>
    refine ⟨h.tasking, h.ownerBusy, h.notEntered, fun _ _ => rfl,
      fun task htask hafter hahead => ?_⟩
    refine h.covered task htask hafter ?_
    rcases hplace : l.place with _ | _ | _ | _ | _ | _ <;>
      simp [noPollAhead, EventLoop.quit, hplace] at hahead ⊢
  | wakeup _ =>
    refine ⟨h.tasking, fun howner => h.ownerBusy (List.mem_of_mem_erase howner), h.notEntered,
      h.left, fun task htask hafter hahead => ?_⟩
    exact .inl (WakeupChannel.readable_wakeup _)
  | wakeupQuit =>
    refine ⟨h.tasking, h.ownerBusy, h.notEntered, h.left, fun task htask hafter hahead => ?_⟩
    exact .inl (WakeupChannel.readable_wakeup _)
  | enter hplace =>
    -- for the first time, with nothing pushed since, or after `quit`
    rw [hplace] at htasking
    refine ⟨htasking, fun howner => ?_, by simp, by simp, fun task htask hafter hahead => ?_⟩
    · exact absurd howner (h.not_busy (by simp [hplace]))
    · exfalso
      rcases hentered : l.entered with _ | _
      · have hbefore := (h.notEntered hentered).2 task htask
        rw [hafter] at hbefore
        simp at hbefore
      · have hquit := h.left hentered hplace
        simp [noPollAhead, hquit] at hahead
  | leave hplace hquit =>
    rw [hplace] at htasking
    refine h.moveIdle (by simp [hplace]) (by simp [hplace]) htasking (fun _ => hquit) ?_
    simp [noPollAhead]
  | block hplace hquit =>
    rw [hplace] at htasking
    refine h.moveIdle (by simp [hplace]) (by simp [hplace]) htasking (by simp) ?_
    simp [noPollAhead, hplace, hquit]
  | active hplace | handler hplace =>
    rw [hplace] at htasking
    refine h.moveIdle (by simp [hplace]) (by simp [hplace]) htasking (by simp) ?_
    simp [noPollAhead]
  | read hplace =>
    -- the counter is consumed with the swap still to come
    rw [hplace] at htasking
    refine ⟨htasking, fun howner => ?_, fun hfalse => ?_, by simp, by simp [noPollAhead]⟩
    · exact absurd howner (h.not_busy (by simp [hplace]))
    · have hout := (h.notEntered hfalse).1
      simp [hplace] at hout
  | setTasking hplace =>
    refine h.moveIdle (by simp [hplace]) (by simp [hplace]) rfl (by simp) ?_
    simp [noPollAhead]
  | swap hplace =>
    rw [hplace] at htasking
    refine ⟨htasking, fun howner => ?_, fun hfalse => ?_, by simp, by simp⟩
    · exact absurd howner (h.not_busy (by simp [hplace]))
    · have hout := (h.notEntered hfalse).1
      simp [hplace] at hout
  | next hplace _ =>
    rw [hplace] at htasking
    refine h.move (by simp [hplace]) htasking (fun _ => rfl) (by simp) ?_
    simp [noPollAhead, hplace]
  | returns hplace hfree =>
    rw [hplace] at htasking
    refine h.move (by simp [hplace]) htasking (fun howner => absurd howner hfree) (by simp) ?_
    simp [noPollAhead, hplace]
  | finish hplace _ =>
    refine h.moveIdle (by simp [hplace]) (by simp [hplace]) rfl (by simp) ?_
    simp [noPollAhead, hplace]
  | destroy hplace | done hplace =>
    rw [hplace] at htasking
    refine h.moveIdle (by simp [hplace]) (by simp [hplace]) htasking (by simp) ?_
    simp [noPollAhead, hplace]

/-- While the loop's thread is in `poll` and a task is pending that was pushed
after `loop()` was entered, the wakeup descriptor is readable or a thread is on
its way to make it so: the task does not wait for the timeout. -/
def NoLostWakeup (l : EventLoop τ) : Prop :=
  l.place = .poll → ∀ task ∈ l.pendingTasks, task.afterEntry = true →
    l.wakeupChannel.readable = true ∨ ∃ n, .other n ∈ l.pushing

/-- The invariant says that no wakeup is lost. -/
theorem Signalled.noLostWakeup (h : Signalled l) : NoLostWakeup l := by
  intro hplace task htask hafter
  refine (h.covered task htask hafter (by simp [noPollAhead, hplace])).imp_right fun hpushing => ?_
  obtain ⟨t, ht⟩ := List.exists_mem_of_ne_nil _ hpushing
  rcases t with _ | n
  · exact absurd ht (h.not_busy (by simp [hplace]))
  · exact ⟨n, ht⟩

/-- The loop's thread destroys the tasks that are left and goes to `poll`. -/
theorem run_to_poll {left : ℕ} (hplace : l.place = .destroying left) (hquit : l.isQuit = false) :
    ∃ is : List (Act τ), run EventLoop.step l is = some { l with place := .poll } := by
  induction left generalizing l with
  | zero =>
    refine ⟨[.endTasks, .testQuit], ?_⟩
    rw [run_cons]
    simp [EventLoop.step, endTasks, hplace, run_singleton, hquit]
  | succ left ih =>
    obtain ⟨is, his⟩ := ih (l := { l with place := .destroying left }) rfl hquit
    refine ⟨.destroyTask :: is, ?_⟩
    rw [run_cons]
    simp only [EventLoop.step, destroyTask, hplace, Option.bind_some]
    exact his

/-- **A push that is not woken is lost.** -/
theorem lost_of_not_woken (h : Signalled l) {a : Act τ} (hstep : EventLoop.step l a = some l')
    (hbad : ¬ Woken l a) :
    ∃ is l'', run EventLoop.step l' is = some l'' ∧ ¬ NoLostWakeup l'' := by
  cases a with
  | queueInLoop t cb =>
    cases t with
    | owner =>
      obtain ⟨left, hbad⟩ := not_forall.1 hbad
      obtain ⟨hplace, hbad⟩ := Classical.not_imp.1 hbad
      obtain ⟨hquit, hbad⟩ := not_or.1 hbad
      obtain ⟨hread, hpushing⟩ := not_or.1 hbad
      obtain ⟨-, rfl⟩ := Option.ite_some_none_eq_some.1 hstep
      have hentered : l.entered = true := by
        by_contra hfalse
        have hout := (h.notEntered (by simpa using hfalse)).1
        rw [hplace] at hout
        cases hout
      have hwakes : (l.newTask .owner cb).wakes = false := by
        simp [newTask, h.tasking, hplace, Place.tasking]
      have hgoes : (l.queueInLoop .owner cb).isQuit = false := eq_false_of_ne_true hquit
      obtain ⟨is, his⟩ := run_to_poll (l := l.queueInLoop .owner cb) hplace hgoes
      refine ⟨is, _, his, fun hlost => ?_⟩
      rcases hlost rfl (l.newTask .owner cb) (by simp [EventLoop.queueInLoop]) hentered
        with hready | ⟨n, hn⟩
      · exact hread hready
      · simp [EventLoop.queueInLoop, hwakes, not_not.1 hpushing] at hn
    | other n => exact absurd trivial hbad
  | _ => exact absurd trivial hbad

/-- **No wakeup is lost.**  In every state of every run in which the loop's
thread does not push unwoken while it destroys tasks, with any threads, handlers
and tasks pushing at any time; and after the first such push some continuation
comes to `poll` with its task unwoken. -/
theorem no_lost_wakeup (is : List (Act τ)) (hsteps : Steps EventLoop.step Woken init is) :
    Always EventLoop.step NoLostWakeup init is ∧
      ∀ l a l', run EventLoop.step (init : EventLoop τ) is = some l →
        EventLoop.step l a = some l' → ¬ Woken l a →
        ∃ js l'', run EventLoop.step l' js = some l'' ∧ ¬ NoLostWakeup l'' := by
  have hinv : Always EventLoop.step Signalled (init : EventLoop τ) is :=
    always_of_steps (fun _ _ _ h hgood hstep => h.step (step_cases hstep) hgood) signalled_init
      hsteps
  exact ⟨hinv.mono fun _ h => h.noLostWakeup, fun l a l' hrun hstep hbad =>
    lost_of_not_woken (hinv.last hrun) hstep hbad⟩

/-- One iteration with a task that another thread pushes while `poll` waits. -/
def firstTask : List (Act ℕ) :=
  [.loop, .testQuit, .queueInLoop (.other 1) 7, .wakeup (.other 1), .poll [.wakeupChannel],
    .handleEvent, .setTasking, .swapTasks, .nextTask, .taskReturns, .clearTasking]

/-- A handler and a task push, each for the next round. -/
theorem no_lost_wakeup_two :
    Always EventLoop.step NoLostWakeup init
      ([.loop, .testQuit, .poll [.other 4], .handleEvent, .queueInLoop .owner 6, .handlerReturns,
        .setTasking, .swapTasks, .nextTask, .queueInLoop .owner 7, .wakeup .owner, .taskReturns,
        .clearTasking, .destroyTask, .endTasks, .testQuit] : List (Act ℕ)) := by
  refine (no_lost_wakeup _ ?_).1
  have free : ∀ {l : EventLoop ℕ} {a : Act ℕ}, (∀ left, l.place ≠ .destroying left) →
      Woken l a := by
    intro l a hplace
    cases a with
    | queueInLoop t cb =>
      cases t with
      | owner => exact fun left hleft => absurd hleft (hplace left)
      | other n => trivial
    | _ => trivial
  exact .cons trivial rfl (.cons trivial rfl (.cons trivial rfl (.cons trivial rfl
    (.cons (free nofun) rfl (.cons trivial rfl (.cons trivial rfl (.cons trivial rfl
      (.cons trivial rfl (.cons (free nofun) rfl (.cons trivial rfl (.cons trivial rfl
        (.cons trivial rfl (.cons trivial rfl (.cons trivial rfl (.cons trivial rfl
          trivial)))))))))))))))

/-- **A destructor that pushes.**  The task holds the last reference to an object
whose destructor calls `queueInLoop`: `isTasking` is false again, and the loop
goes to `poll` with task 8 pending and nothing that wakes it. -/
theorem pushed_by_destructor :
    ∃ l, run EventLoop.step init
        (firstTask ++ [.queueInLoop .owner 8, .destroyTask, .endTasks, .testQuit]) = some l ∧
      l.place = .poll ∧ l.pendingTasks.map QueuedTask.cb = [8] ∧ l.pushing = [] ∧
      ¬ NoLostWakeup l := by
  refine ⟨_, rfl, rfl, rfl, rfl, fun hlost => ?_⟩
  rcases hlost rfl _ List.mem_cons_self rfl with hready | ⟨n, hn⟩
  · exact absurd hready (by decide)
  · cases hn

end EventLoop
end Net
end Sevent
