/-
# The timers of a loop as objects

A `Timer` is held by the set, by the running batch or by a queued insertion, and
by one of them at a time.  `keys` are the numbers and addresses of all that are
held, and `Distinct` says that no two share either.  Every step keeps this
(`Distinct.step`), so an address tells two timers apart, and two timers of the
set are never equivalent.
-/

import Sevent.Net.TimerManager
import Mathlib.Data.Multiset.Filter
import Mathlib.Data.Multiset.OrderedMonoid

namespace Sevent
namespace Net
namespace TimerManager

/-- Every `Timer` that something holds. -/
def objects (m : TimerManager) : Multiset Timer :=
  (m.timers : Multiset Timer) + (batchTimers m.expiredList : Multiset Timer) +
    (queuedTimers m.loop.tasks : Multiset Timer)

/-- The number and the address of every timer that something holds. -/
def keys (m : TimerManager) : Multiset (ℕ × ℕ) := m.objects.map fun t => (t.id, t.addr)

/-- The timers are distinct objects. -/
structure Distinct (m : TimerManager) : Prop where
  ids : (m.keys.map Prod.fst).Nodup
  addrs : (m.keys.map Prod.snd).Nodup
  lt : ∀ k ∈ m.keys, k.1 < m.created

variable {m m' : TimerManager}

/-! ### The set -/

/-- An insertion brings the timer into the set, and nothing else; an equivalent
one that is there already keeps it out. -/
theorem insertSet_le (timers : List Timer) (t : Timer) :
    (insertSet timers t : Multiset Timer) ≤ t ::ₘ (timers : Multiset Timer) := by
  unfold insertSet
  split
  · exact Multiset.le_cons_self _ _
  · exact (Multiset.coe_eq_coe.2 (List.perm_orderedInsert _ t timers)).le

/-- What is in the set after an insertion was there before, or is the timer. -/
theorem mem_insertSet {timers : List Timer} {t s : Timer} (h : s ∈ insertSet timers t) :
    s = t ∨ s ∈ timers := by
  have := Multiset.mem_of_le (insertSet_le timers t) (Multiset.mem_coe.2 h)
  simpa using this

/-- A timer is equivalent to itself, for it comes neither before nor after. -/
theorem equiv_refl (t : Timer) : Timer.equiv t t = true := by
  simp [Timer.equiv, Timer.lt]

/-- Equivalent keys have the same address. -/
theorem addr_of_equiv {s t : Timer} (h : Timer.equiv s t = true) : s.addr = t.addr := by
  simp only [Timer.equiv, Timer.lt, Bool.and_eq_true, Bool.not_eq_true'] at h
  obtain ⟨h1, h2⟩ := h
  split at h1
  · cases h1
  · split at h1
    case isTrue hlt => simp [hlt] at h2
    case isFalse hst hts =>
      simp only [hst, hts, ↓reduceIte, decide_eq_false_iff_not, not_lt] at h1 h2
      exact le_antisymm h2 h1

/-! ### Distinct objects -/

/-- Timers whose keys are among distinct ones are distinct, and no number is
given twice while the count of numbers only grows. -/
theorem Distinct.of_le (h : m.Distinct) (hkeys : m'.keys ≤ m.keys)
    (hcreated : m.created ≤ m'.created) : m'.Distinct := by
  refine ⟨Multiset.nodup_of_le (Multiset.map_le_map hkeys) h.ids,
    Multiset.nodup_of_le (Multiset.map_le_map hkeys) h.addrs, fun k hk => ?_⟩
  exact (h.lt k (Multiset.mem_of_le hkeys hk)).trans_le hcreated

/-- A new timer has a number and an address of its own. -/
theorem Distinct.create (h : m.Distinct) {addr : ℕ} (haddr : ∀ t ∈ m.objects, t.addr ≠ addr)
    (hkeys : m'.keys ≤ (m.created, addr) ::ₘ m.keys) (hcreated : m'.created = m.created + 1) :
    m'.Distinct := by
  have hid : m.created ∉ m.keys.map Prod.fst := by
    intro hm
    obtain ⟨k, hk, hkid⟩ := Multiset.mem_map.1 hm
    exact absurd (h.lt k hk) (by omega)
  have haddr' : addr ∉ m.keys.map Prod.snd := by
    intro hm
    obtain ⟨k, hk, hkaddr⟩ := Multiset.mem_map.1 hm
    obtain ⟨t, ht, rfl⟩ := Multiset.mem_map.1 hk
    exact haddr t ht hkaddr
  refine ⟨?_, ?_, fun k hk => ?_⟩
  · refine Multiset.nodup_of_le (Multiset.map_le_map hkeys) ?_
    rw [Multiset.map_cons]
    exact Multiset.nodup_cons.2 ⟨hid, h.ids⟩
  · refine Multiset.nodup_of_le (Multiset.map_le_map hkeys) ?_
    rw [Multiset.map_cons]
    exact Multiset.nodup_cons.2 ⟨haddr', h.addrs⟩
  · rcases Multiset.mem_cons.1 (Multiset.mem_of_le hkeys hk) with rfl | hk
    · omega
    · have := h.lt k hk
      omega

/-- Two held timers with one number are one timer. -/
theorem Distinct.eq_of_id (h : m.Distinct) {s t : Timer} (hs : s ∈ m.objects) (ht : t ∈ m.objects)
    (hid : s.id = t.id) : s = t := by
  have hnodup := h.ids
  rw [keys, Multiset.map_map] at hnodup
  exact Multiset.inj_on_of_nodup_map hnodup s hs t ht hid

/-- Two held timers at one address are one timer. -/
theorem Distinct.eq_of_addr (h : m.Distinct) {s t : Timer} (hs : s ∈ m.objects)
    (ht : t ∈ m.objects) (haddr : s.addr = t.addr) : s = t := by
  have hnodup := h.addrs
  rw [keys, Multiset.map_map] at hnodup
  exact Multiset.inj_on_of_nodup_map hnodup s hs t ht haddr

/-- The set holds a timer once. -/
theorem Distinct.nodup_timers (h : m.Distinct) : m.timers.Nodup := by
  have hnodup := h.ids
  rw [keys, Multiset.map_map] at hnodup
  have hle : (m.timers : Multiset Timer) ≤ m.objects := by
    unfold objects
    rw [add_assoc]
    exact Multiset.le_add_right _ _
  exact Multiset.coe_nodup.1
    (Multiset.Nodup.of_map _ (Multiset.nodup_of_le (Multiset.map_le_map hle) hnodup))

/-- A timer is held by the set, by the running batch, or by an insertion that
waits in the queue. -/
theorem mem_objects {t : Timer} : t ∈ m.objects ↔
    t ∈ m.timers ∨ t ∈ batchTimers m.expiredList ∨ t ∈ queuedTimers m.loop.tasks := by
  simp [objects]

/-! ### Cancelling -/

/-- What `cancelInLoop` leaves of the set. -/
theorem cancelInLoop_timers (m : TimerManager) (id : ℕ) :
    ((m.cancelInLoop id).timers : Multiset Timer) ≤ (m.timers : Multiset Timer) := by
  unfold cancelInLoop
  dsimp only [TimerManager.emit]
  split
  · exact le_rfl
  · split
    · exact le_rfl
    · exact Multiset.coe_le.2 (List.erase_sublist).subperm

/-- A cancellation leaves the running batch. -/
theorem cancelInLoop_expiredList (m : TimerManager) (id : ℕ) :
    (m.cancelInLoop id).expiredList = m.expiredList := by
  unfold cancelInLoop
  dsimp only [TimerManager.emit]
  split
  · rfl
  · split <;> rfl

/-- A cancellation queues no task. -/
theorem cancelInLoop_loop (m : TimerManager) (id : ℕ) : (m.cancelInLoop id).loop = m.loop := by
  unfold cancelInLoop
  dsimp only [TimerManager.emit]
  split
  · rfl
  · split <;> rfl

/-- A cancellation makes no timer. -/
theorem cancelInLoop_created (m : TimerManager) (id : ℕ) :
    (m.cancelInLoop id).created = m.created := by
  unfold cancelInLoop
  dsimp only [TimerManager.emit]
  split
  · rfl
  · split <;> rfl

/-- A cancellation is logged with its number, whether the timer was there or
not. -/
theorem cancelInLoop_log (m : TimerManager) (id : ℕ) :
    (m.cancelInLoop id).log = m.log ++ [.cancelled id] := by
  unfold cancelInLoop
  dsimp only [TimerManager.emit]
  split
  · rfl
  · split <;> rfl

/-- **A timer in the set is found and erased.** -/
theorem cancelInLoop_erases (h : m.Distinct) (id : ℕ) :
    ∀ t ∈ (m.cancelInLoop id).timers, t.id ≠ id := by
  intro t ht hid
  have htimers : t ∈ m.timers :=
    Multiset.mem_coe.1 (Multiset.mem_of_le (cancelInLoop_timers m id) (Multiset.mem_coe.2 ht))
  have hobj : t ∈ m.objects := mem_objects.2 (Or.inl htimers)
  -- the weak pointer still leads to the timer
  have hlock : m.lock id = some t := by
    unfold lock
    cases hfind : (m.timers ++ batchTimers m.expiredList ++
        queuedTimers m.loop.tasks).find? fun t => t.id = id with
    | none =>
      have := List.find?_eq_none.1 hfind t (by simp [htimers])
      simp [hid] at this
    | some s =>
      have hs : s ∈ m.objects := mem_objects.2 (by
        simpa [or_assoc] using List.mem_of_find?_eq_some hfind)
      have hsid : s.id = id := by simpa using List.find?_some hfind
      rw [h.eq_of_id hs hobj (hsid.trans hid.symm)]
  -- and the set has it under its key
  have hfound : m.timers.find? (Timer.equiv t) = some t := by
    cases hfind : m.timers.find? (Timer.equiv t) with
    | none =>
      have := List.find?_eq_none.1 hfind t htimers
      simp [equiv_refl] at this
    | some s =>
      have hs : s ∈ m.objects := mem_objects.2 (Or.inl (List.mem_of_find?_eq_some hfind))
      have haddr : t.addr = s.addr := addr_of_equiv (by simpa using List.find?_some hfind)
      rw [h.eq_of_addr hs hobj haddr.symm]
  have herase : (m.cancelInLoop id).timers = m.timers.erase t := by
    simp only [cancelInLoop, hlock, hfound, TimerManager.emit]
  rw [herase] at ht
  exact (h.nodup_timers.mem_erase_iff.1 ht).1 rfl

/-! ### Inserting -/

/-- What `addTimerInLoop` leaves. -/
theorem addTimerInLoop_spec (m : TimerManager) (t : Timer) :
    (m.addTimerInLoop t).timers = insertSet m.timers t ∧
      (m.addTimerInLoop t).expiredList = m.expiredList ∧ (m.addTimerInLoop t).loop = m.loop ∧
      (m.addTimerInLoop t).created = m.created ∧
      ∃ acts, (m.addTimerInLoop t).log = m.log ++ acts ∧ ∀ a ∈ acts, ∃ e, a = .arm e := by
  unfold addTimerInLoop
  rcases hins : m.insert t with ⟨m1, isChanged⟩
  obtain rfl : { m with timers := insertSet m.timers t } = m1 := congrArg Prod.fst hins
  cases isChanged with
  | true => exact ⟨rfl, rfl, rfl, rfl, [.arm t.expired], rfl, by simp⟩
  | false => exact ⟨rfl, rfl, rfl, rfl, [], by simp, by simp⟩

/-- What the loop of `resetTimers` leaves: the set gets repeating timers of the
batch back, under their numbers and addresses. -/
theorem resetLoop_spec (now : ℤ) (list : List Timer) (m : TimerManager) :
    (∀ s ∈ (m.resetLoop now list).timers, s ∈ m.timers ∨
      ∃ t ∈ list, t.isRepeat = true ∧ s.id = t.id) ∧
    (((m.resetLoop now list).timers : Multiset Timer).map fun t => (t.id, t.addr)) ≤
      ((m.timers : Multiset Timer).map fun t => (t.id, t.addr)) +
        (list : Multiset Timer).map fun t => (t.id, t.addr) := by
  induction list generalizing m with
  | nil => exact ⟨fun s hs => Or.inl hs, by simp [resetLoop]⟩
  | cons item list ih =>
    unfold resetLoop
    split
    case isTrue hrepeat =>
      obtain ⟨hmem, hle⟩ := ih (m.insert (item.resetExpired now)).1
      refine ⟨fun s hs => ?_, hle.trans ?_⟩
      · rcases hmem s hs with hs | ⟨t, ht, htr, hid⟩
        · rcases mem_insertSet hs with rfl | hs
          · exact Or.inr ⟨item, List.mem_cons_self .., hrepeat, rfl⟩
          · exact Or.inl hs
        · exact Or.inr ⟨t, List.mem_cons_of_mem _ ht, htr, hid⟩
      · have hins : ((m.insert (item.resetExpired now)).1.timers : Multiset Timer).map
            (fun t => (t.id, t.addr)) ≤
            (item.id, item.addr) ::ₘ (m.timers : Multiset Timer).map fun t => (t.id, t.addr) := by
          have := Multiset.map_le_map (f := fun t : Timer => (t.id, t.addr))
            (insertSet_le m.timers (item.resetExpired now))
          rwa [Multiset.map_cons] at this
        rw [← Multiset.cons_coe, Multiset.map_cons, Multiset.add_cons, ← Multiset.cons_add]
        exact add_le_add hins le_rfl
    case isFalse =>
      obtain ⟨hmem, hle⟩ := ih m
      refine ⟨fun s hs => ?_, hle.trans ?_⟩
      · rcases hmem s hs with hs | ⟨t, ht, htr, hid⟩
        · exact Or.inl hs
        · exact Or.inr ⟨t, List.mem_cons_of_mem _ ht, htr, hid⟩
      · rw [← Multiset.cons_coe, Multiset.map_cons]
        exact add_le_add le_rfl (Multiset.le_cons_self _ _)

/-- Putting the timers of a batch back changes the set and the log, and nothing
else. -/
theorem resetLoop_frame (now : ℤ) (list : List Timer) (m : TimerManager) :
    (m.resetLoop now list).expiredList = m.expiredList ∧
      (m.resetLoop now list).loop = m.loop ∧ (m.resetLoop now list).created = m.created ∧
      (m.resetLoop now list).log = m.log := by
  induction list generalizing m with
  | nil => exact ⟨rfl, rfl, rfl, rfl⟩
  | cons item list ih =>
    unfold resetLoop
    split
    · exact ih _
    · exact ih m

/-! ### Steps -/

/-- A cancellation frees at most, and holds nothing more. -/
theorem keys_cancelInLoop (m : TimerManager) (id : ℕ) : (m.cancelInLoop id).keys ≤ m.keys := by
  refine Multiset.map_le_map ?_
  unfold objects
  rw [cancelInLoop_expiredList, cancelInLoop_loop]
  exact add_le_add (add_le_add (cancelInLoop_timers m id) le_rfl) le_rfl

/-- An insertion holds the timer it was given, or frees it, and holds nothing
else that was not held. -/
theorem keys_addTimerInLoop (m : TimerManager) (t : Timer) :
    (m.addTimerInLoop t).keys ≤ (t.id, t.addr) ::ₘ m.keys := by
  obtain ⟨htimers, hlist, hloop, -⟩ := addTimerInLoop_spec m t
  unfold keys objects
  rw [htimers, hlist, hloop, Multiset.map_add, Multiset.map_add, Multiset.map_add,
    Multiset.map_add, ← Multiset.cons_add, ← Multiset.cons_add]
  refine add_le_add (add_le_add ?_ le_rfl) le_rfl
  have hle := Multiset.map_le_map (f := fun t : Timer => (t.id, t.addr)) (insertSet_le m.timers t)
  rwa [Multiset.map_cons] at hle

/-- A queued insertion holds its timer. -/
theorem queuedTimers_addTimer (q : TaskQueue Task) (t : Timer) :
    queuedTimers (q.queueInLoop (.addTimerInLoop t)).tasks = queuedTimers q.tasks ++ [t] := by
  rw [TaskQueue.tasks_queueInLoop]
  exact List.filterMap_append

/-- A queued cancellation holds no timer. -/
theorem queuedTimers_cancel (q : TaskQueue Task) (id : ℕ) :
    queuedTimers (q.queueInLoop (.cancelInLoop id)).tasks = queuedTimers q.tasks := by
  rw [TaskQueue.tasks_queueInLoop]
  exact List.filterMap_append.trans (List.append_nil _)

/-- A queued insertion holds its timer. -/
theorem keys_queue_addTimer (m : TimerManager) (t : Timer) :
    keys { m with loop := m.loop.queueInLoop (.addTimerInLoop t) } = (t.id, t.addr) ::ₘ m.keys := by
  unfold keys objects
  rw [queuedTimers_addTimer, ← Multiset.coe_add, ← add_assoc, Multiset.map_add, add_comm,
    Multiset.coe_singleton, Multiset.map_singleton, Multiset.singleton_add]

/-- The task that comes next, taken out of the queue. -/
theorem queuedTimers_nextTask {q : TaskQueue Task} {timer : Timer}
    (h : m.loop.nextTask = some (.addTimerInLoop timer, q)) :
    queuedTimers m.loop.tasks = timer :: queuedTimers q.tasks := by
  rw [TaskQueue.tasks_nextTask h]
  rfl

/-- A cancellation that is taken off the queue held no timer there. -/
theorem queuedTimers_nextCancel {q : TaskQueue Task} {id : ℕ}
    (h : m.loop.nextTask = some (.cancelInLoop id, q)) :
    queuedTimers q.tasks = queuedTimers m.loop.tasks := by
  rw [TaskQueue.tasks_nextTask h]
  rfl

/-- Tasks that hold the same timers leave the keys as they are. -/
theorem keys_of_tasks {q : TaskQueue Task} (h : queuedTimers q.tasks = queuedTimers m.loop.tasks) :
    keys { m with loop := q } = m.keys := by
  unfold keys objects
  rw [h]

/-- `getExpired` cuts the set in two. -/
theorem getExpired_append (timers : List Timer) (now : ℤ) (tpAddr : ℕ) :
    (getExpired timers now tpAddr).1 ++ (getExpired timers now tpAddr).2 = timers := by
  unfold getExpired
  dsimp only
  rw [List.span_eq_takeWhile_dropWhile, List.takeWhile_append_dropWhile]

/-- Taking the expired timers out of the set moves them to the batch: all of
them are held as before. -/
theorem keys_handleExpired (hnone : m.expiredList = none) (now : ℤ) (tpAddr : ℕ) :
    keys { m with
      timers := (getExpired m.timers now tpAddr).2
      expiredList := some { now, done := [], todo := (getExpired m.timers now tpAddr).1 } } =
        m.keys := by
  unfold keys objects
  congr 1
  dsimp only [batchTimers]
  have happend : ((getExpired m.timers now tpAddr).1 : Multiset Timer) +
      (getExpired m.timers now tpAddr).2 = m.timers := by
    rw [Multiset.coe_add, getExpired_append]
  rw [hnone, List.nil_append, ← happend]
  congr 1
  rw [Multiset.coe_nil, add_zero, add_comm]

/-- Running the next timer of a batch moves it to those that are done. -/
theorem keys_runNext {now : ℤ} {done todo : List Timer} {item : Timer}
    (hlist : m.expiredList = some { now, done, todo := item :: todo }) :
    keys { m with expiredList := some { now, done := done ++ [item], todo } } = m.keys := by
  simp [keys, objects, batchTimers, hlist]

/-- The head of the queue is on its way to the set. -/
theorem keys_nextTimer {q : TaskQueue Task} {timer : Timer}
    (h : m.loop.nextTask = some (.addTimerInLoop timer, q)) :
    (timer.id, timer.addr) ::ₘ keys { m with loop := q } = m.keys := by
  unfold keys objects
  dsimp only
  rw [queuedTimers_nextTask h, ← Multiset.cons_coe, Multiset.add_cons, Multiset.map_cons]

/-- Putting a batch back moves the repeating timers to the set and frees the
others. -/
theorem keys_resetLoop {now : ℤ} {done : List Timer}
    (hlist : m.expiredList = some { now, done, todo := [] }) :
    (({ m with expiredList := none } : TimerManager).resetLoop now done).keys ≤ m.keys := by
  obtain ⟨-, hle⟩ := resetLoop_spec now done { m with expiredList := none }
  obtain ⟨hexp, hloop, -, -⟩ := resetLoop_frame now done { m with expiredList := none }
  unfold keys objects
  rw [hexp, hloop, Multiset.map_add, Multiset.map_add, Multiset.map_add, Multiset.map_add]
  refine add_le_add ?_ le_rfl
  simpa [batchTimers, hlist] using hle

/-- Behind the loop of `resetTimers` only the timerfd is set. -/
theorem resetTimers_frame (m : TimerManager) (list : List Timer) (now : ℤ) :
    (m.resetTimers list now).timers = (m.resetLoop now list).timers ∧
      (m.resetTimers list now).expiredList = m.expiredList ∧
      (m.resetTimers list now).loop = m.loop ∧ (m.resetTimers list now).created = m.created ∧
      m.log <+: (m.resetTimers list now).log := by
  obtain ⟨hexp, hloop, hcreated, hlog⟩ := resetLoop_frame now list m
  unfold resetTimers
  dsimp only
  split
  · exact ⟨rfl, hexp, hloop, hcreated, hlog ▸ List.prefix_refl _⟩
  · exact ⟨rfl, hexp, hloop, hcreated, hlog ▸ List.prefix_append _ _⟩

/-- A new `Timer`, the next in number. -/
def newTimer (m : TimerManager) (addr : ℕ) (cb : Bool) (expired interval : ℤ) : Timer where
  id := m.created
  addr := addr
  timerCallback := cb
  expired := expired
  interval := interval

/-- The steps of the timers, one constructor for each outcome. -/
inductive Step (m : TimerManager) : Input → TimerManager → Prop
  | queueTimer {addr : ℕ} {cb : Bool} {expired interval : ℤ} :
      (∀ t ∈ m.objects, t.addr ≠ addr) →
      Step m (.addTimer true addr cb expired interval) { m with
        created := m.created + 1
        loop := m.loop.queueInLoop (.addTimerInLoop (m.newTimer addr cb expired interval)) }
  | addTimer {addr : ℕ} {cb : Bool} {expired interval : ℤ} :
      (∀ t ∈ m.objects, t.addr ≠ addr) →
      Step m (.addTimer false addr cb expired interval)
        (addTimerInLoop { m with created := m.created + 1 } (m.newTimer addr cb expired interval))
  | queueCancel {id : ℕ} : id < m.created →
      Step m (.cancel true id) { m with loop := m.loop.queueInLoop (.cancelInLoop id) }
  | cancel {id : ℕ} : id < m.created → Step m (.cancel false id) (m.cancelInLoop id)
  | handleExpired {now : ℤ} {tpAddr : ℕ} : m.expiredList = none →
      Step m (.handleExpired now tpAddr) { m with
        timers := (getExpired m.timers now tpAddr).2
        expiredList := some { now, done := [], todo := (getExpired m.timers now tpAddr).1 } }
  | runNext {now : ℤ} {done todo : List Timer} {item : Timer} :
      m.expiredList = some { now, done, todo := item :: todo } →
      Step m .runNext
        (let m := { m with expiredList := some { now, done := done ++ [item], todo } }
         if item.timerCallback then m.emit (.run item.id) else m)
  | resetTimers {now : ℤ} {done : List Timer} :
      m.expiredList = some { now, done, todo := [] } →
      Step m .resetTimers (TimerManager.resetTimers { m with expiredList := none } done now)
  | swapTasks {q : TaskQueue Task} : m.loop.swapTasks = some q →
    Step m .swapTasks { m with loop := q }
  | nextTimer {timer : Timer} {q : TaskQueue Task} :
      m.loop.nextTask = some (.addTimerInLoop timer, q) →
      Step m .nextTask (addTimerInLoop { m with loop := q } timer)
  | nextCancel {id : ℕ} {q : TaskQueue Task} : m.loop.nextTask = some (.cancelInLoop id, q) →
      Step m .nextTask (cancelInLoop { m with loop := q } id)
  | endTasks {q : TaskQueue Task} : m.loop.endTasks = some q → Step m .endTasks { m with loop := q }

/-- What a step can do to the timers, one case for each input, guards included. -/
theorem step_cases {i : Input} (h : step m i = some m') : Step m i m' := by
  rcases i with ⟨foreign, addr, cb, expired, interval⟩ | ⟨foreign, id⟩ | ⟨now, tpAddr⟩ |
    _ | _ | _ | _ | _
  · simp only [step] at h
    split at h
    · next hall =>
        have haddr : ∀ t ∈ m.objects, t.addr ≠ addr := by
          intro t ht
          have hne := List.all_eq_true.1 hall t (by simpa [or_assoc] using mem_objects.1 ht)
          simpa using hne
        rcases foreign with _ | _
        · obtain rfl := Option.some.inj h
          exact .addTimer haddr
        · obtain rfl := Option.some.inj h
          exact .queueTimer haddr
    · simp at h
  · simp only [step] at h
    split at h
    · next hid =>
        rcases foreign with _ | _
        · obtain rfl := Option.some.inj h
          exact .cancel hid
        · obtain rfl := Option.some.inj h
          exact .queueCancel hid
    · simp at h
  · simp only [step] at h
    split at h
    · next hidle =>
        obtain rfl := Option.some.inj h
        exact .handleExpired (by simpa using hidle.1)
    · simp at h
  · simp only [step] at h
    split at h
    · next hlist =>
        obtain rfl := Option.some.inj h
        exact .runNext hlist
    · simp at h
  · simp only [step] at h
    split at h
    · next hlist =>
        obtain rfl := Option.some.inj h
        exact .resetTimers hlist
    · simp at h
  · simp only [step] at h
    split at h
    · obtain ⟨q, hq, rfl⟩ := Option.map_eq_some_iff.1 h
      exact .swapTasks hq
    · simp at h
  · obtain ⟨⟨task, q⟩, hnext, rfl⟩ := Option.map_eq_some_iff.1 h
    rcases task with timer | id
    · exact .nextTimer hnext
    · exact .nextCancel hnext
  · obtain ⟨q, hq, rfl⟩ := Option.map_eq_some_iff.1 h
    exact .endTasks hq

/-- A new manager holds nothing. -/
theorem distinct_init : Distinct init :=
  ⟨Multiset.nodup_zero, Multiset.nodup_zero, fun k hk => absurd hk (Multiset.notMem_zero k)⟩

/-- **Timers stay distinct objects.** -/
theorem Distinct.step (h : m.Distinct) {i : Input} (hstep : Step m i m') : m'.Distinct := by
  cases hstep with
  | queueTimer haddr => exact h.create haddr (keys_queue_addTimer _ _).le rfl
  | addTimer haddr =>
    exact h.create haddr (keys_addTimerInLoop _ _) (addTimerInLoop_spec _ _).2.2.2.1
  | queueCancel _ => exact h.of_le (keys_of_tasks (queuedTimers_cancel _ _)).le le_rfl
  | cancel _ => exact h.of_le (keys_cancelInLoop _ _) (cancelInLoop_created _ _).ge
  | handleExpired hnone => exact h.of_le (keys_handleExpired hnone _ _).le le_rfl
  | runNext hlist =>
    dsimp only
    split
    · exact h.of_le (keys_runNext hlist).le le_rfl
    · exact h.of_le (keys_runNext hlist).le le_rfl
  | @resetTimers now done hlist =>
    obtain ⟨htimers, hexp, hloop, hcreated, -⟩ :=
      resetTimers_frame { m with expiredList := none } done now
    refine h.of_le ?_ hcreated.ge
    refine le_trans (le_of_eq ?_) (keys_resetLoop hlist)
    obtain ⟨hexp', hloop', -, -⟩ := resetLoop_frame now done { m with expiredList := none }
    unfold keys objects
    rw [htimers, hexp, hloop, hexp', hloop']
  | swapTasks hq =>
    exact h.of_le (keys_of_tasks (by rw [TaskQueue.tasks_swapTasks hq])).le le_rfl
  | @nextTimer timer q hnext =>
    have hcreated := (addTimerInLoop_spec { m with loop := q } timer).2.2.2.1
    exact h.of_le ((keys_addTimerInLoop _ _).trans (keys_nextTimer hnext).le) hcreated.ge
  | @nextCancel id q hnext =>
    have hcreated := cancelInLoop_created { m with loop := q } id
    refine h.of_le ((keys_cancelInLoop _ _).trans ?_) hcreated.ge
    exact (keys_of_tasks (queuedTimers_nextCancel hnext)).le
  | endTasks hq =>
    exact h.of_le (keys_of_tasks (by rw [TaskQueue.tasks_endTasks hq])).le le_rfl

end TimerManager
end Net
end Sevent
