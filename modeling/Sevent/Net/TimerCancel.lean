/-
# When a cancelled timer stays quiet

`cancelInLoop` looks for the timer in the set and nowhere else.  While a batch
of expired timers runs, its members are outside the set: one whose turn has not
come is not found and runs, and a repeating one that has run, or is running its
own callback, is not found and is put back afterwards.  The same holds for a
timer whose insertion is still queued.

`Pending m id` is that window.  `cancel_final` shows that it is the only one: in
a run whose cancellations never hit it, no timer's callback runs after its
cancellation was executed.  `cancelled_from_own_callback` is the shortest way
into it.
-/

import Sevent.Net.TimerObjects
import Sevent.Lib.Run

namespace Sevent
namespace Net
namespace TimerManager

open Transition

/-- No timer runs after its cancellation was executed. -/
def CancelFinal (m : TimerManager) : Prop :=
  ∀ l1 id l2, m.log = l1 ++ .cancelled id :: l2 → Act.run id ∉ l2

/-- The timer will run although it is not in the set: its insertion is queued,
its turn in the batch has not come, or it repeats and the batch will put it
back. -/
def Pending (m : TimerManager) (id : ℕ) : Prop :=
  (∃ t ∈ queuedTimers m.loop.tasks, t.id = id) ∨
    ∃ b, m.expiredList = some b ∧
      ((∃ t ∈ b.todo, t.id = id) ∨ ∃ t ∈ b.done, t.id = id ∧ t.isRepeat = true)

/-- The condition: a cancellation that the step executes finds its timer in the
set, or nowhere. -/
def Good (m : TimerManager) : Input → Prop
  | .cancel false id => ¬ m.Pending id
  | .nextTask => ∀ id q, m.loop.nextTask = some (.cancelInLoop id, q) → ¬ m.Pending id
  | _ => True

/-- The timer is neither in the set nor pending. -/
def Dead (m : TimerManager) (id : ℕ) : Prop := (∀ t ∈ m.timers, t.id ≠ id) ∧ ¬ m.Pending id

/-- What a run of good steps keeps. -/
structure CancelInv (m : TimerManager) : Prop where
  final : m.CancelFinal
  distinct : m.Distinct
  dead : ∀ id, Act.cancelled id ∈ m.log → id < m.created ∧ m.Dead id
  known : ∀ id, Task.cancelInLoop id ∈ m.loop.tasks → id < m.created

variable {m m' : TimerManager}

/-! ### The log -/

/-- An act that runs no cancelled timer keeps the property. -/
theorem CancelFinal.emit (h : m.CancelFinal) {a : Act}
    (ha : ∀ id, a = .run id → Act.cancelled id ∉ m.log) : (m.emit a).CancelFinal := by
  intro l1 id l2 hl hmem
  rcases List.eq_nil_or_concat l2 with rfl | ⟨l3, b, rfl⟩
  · cases hmem
  · have hl' : m.log ++ [a] = (l1 ++ .cancelled id :: l3) ++ [b] := by
      simpa [TimerManager.emit] using hl
    obtain ⟨hlog, hb⟩ := List.append_inj' hl' rfl
    obtain rfl := List.singleton_inj.1 hb
    rw [List.concat_eq_append, List.mem_append, List.mem_singleton] at hmem
    rcases hmem with hmem | rfl
    · exact h l1 id l3 hlog hmem
    · exact ha id rfl (by rw [hlog]; simp)

/-! ### Cancelling -/

/-- **An executed cancellation of a timer that is not pending.** -/
theorem CancelInv.cancelInLoop (h : CancelInv m) {id : ℕ} (hid : id < m.created)
    (hgood : ¬ m.Pending id) : CancelInv (m.cancelInLoop id) := by
  have hpending : ∀ i, (m.cancelInLoop id).Pending i ↔ m.Pending i := by
    intro i
    simp only [Pending, cancelInLoop_loop, cancelInLoop_expiredList]
  refine ⟨?_, h.distinct.of_le ?_ ?_, fun i hi => ?_, ?_⟩
  · intro l1 i l2 hl
    have hemit : CancelFinal (m.emit (.cancelled id)) :=
      h.final.emit fun _ hrun => by cases hrun
    exact hemit l1 i l2 (by rw [← hl, cancelInLoop_log]; rfl)
  · refine Multiset.map_le_map ?_
    unfold objects
    rw [cancelInLoop_expiredList, cancelInLoop_loop]
    exact add_le_add (add_le_add (cancelInLoop_timers m id) le_rfl) le_rfl
  · rw [cancelInLoop_created]
  · rw [cancelInLoop_created]
    rw [cancelInLoop_log, List.mem_append, List.mem_singleton] at hi
    rcases hi with hi | hi
    · obtain ⟨hlt, htimers, hpend⟩ := h.dead i hi
      refine ⟨hlt, fun t ht => htimers t ?_, fun hp => hpend ((hpending i).1 hp)⟩
      exact Multiset.mem_coe.1
        (Multiset.mem_of_le (cancelInLoop_timers m id) (Multiset.mem_coe.2 ht))
    · cases hi
      exact ⟨hid, cancelInLoop_erases h.distinct id, fun hp => hgood ((hpending id).1 hp)⟩
  · rw [cancelInLoop_loop, cancelInLoop_created]
    exact h.known

/-! ### Inserting -/

/-- Acts that only arm the timerfd keep the property, and cancel nothing. -/
theorem CancelFinal.arm (h : m.CancelFinal) {acts : List Act} (hlog : m'.log = m.log ++ acts)
    (harm : ∀ a ∈ acts, ∃ e, a = .arm e) :
    m'.CancelFinal ∧ ∀ id, Act.cancelled id ∈ m'.log → Act.cancelled id ∈ m.log := by
  induction acts generalizing m with
  | nil =>
    rw [List.append_nil] at hlog
    exact ⟨fun l1 id l2 hl => h l1 id l2 (hlog ▸ hl), fun id hid => hlog ▸ hid⟩
  | cons a acts ih =>
    obtain ⟨e, rfl⟩ := harm a (List.mem_cons_self ..)
    have hemit : (m.emit (.arm e)).CancelFinal := h.emit fun _ hrun => by cases hrun
    have hlog' : m'.log = (m.emit (.arm e)).log ++ acts := by
      rw [hlog]
      simp [TimerManager.emit]
    obtain ⟨hfinal, hcancelled⟩ := ih hemit hlog' fun a ha => harm a (List.mem_cons_of_mem _ ha)
    refine ⟨hfinal, fun id hid => ?_⟩
    simpa [TimerManager.emit] using hcancelled id hid

/-- A timer that the set and the queue do not know is inserted. -/
theorem CancelInv.addTimerInLoop (h : CancelInv m) {t : Timer} (hdistinct : m'.Distinct)
    (hm' : m' = m.addTimerInLoop t) (hnew : ∀ id, Act.cancelled id ∈ m.log → t.id ≠ id) :
    CancelInv m' := by
  obtain ⟨htimers, hlist, hloop, hcreated, acts, hlog, harm⟩ := addTimerInLoop_spec m t
  rw [← hm'] at htimers hlist hloop hcreated hlog
  obtain ⟨hfinal, hcancelled⟩ := h.final.arm hlog harm
  refine ⟨hfinal, hdistinct, fun id hid => ?_, by rw [hloop, hcreated]; exact h.known⟩
  obtain ⟨hlt, hset, hpend⟩ := h.dead id (hcancelled id hid)
  refine ⟨hcreated ▸ hlt, fun s hs => ?_, fun hp => hpend ?_⟩
  · rw [htimers] at hs
    rcases mem_insertSet hs with rfl | hs
    · exact hnew id (hcancelled id hid)
    · exact hset s hs
  · simpa only [Pending, hlist, hloop] using hp

/-! ### Steps -/

/-- A step that leaves the log as it is, holds no more timers and makes none
pending. -/
theorem CancelInv.of_log (h : CancelInv m) (hlog : m'.log = m.log) (hkeys : m'.keys ≤ m.keys)
    (hcreated : m'.created = m.created) (htasks : ∀ t ∈ m'.loop.tasks, t ∈ m.loop.tasks)
    (hdead : ∀ id, m.Dead id → m'.Dead id) : CancelInv m' := by
  refine ⟨fun l1 id l2 hl => h.final l1 id l2 (hlog ▸ hl), h.distinct.of_le hkeys hcreated.ge,
    fun id hid => ?_, fun id hid => hcreated ▸ h.known id (htasks _ hid)⟩
  obtain ⟨hlt, hd⟩ := h.dead id (hlog ▸ hid)
  exact ⟨hcreated ▸ hlt, hdead id hd⟩

/-- An act that neither cancels a timer nor runs a cancelled one. -/
theorem CancelInv.emit (h : CancelInv m) {a : Act}
    (hrun : ∀ id, a = .run id → Act.cancelled id ∉ m.log) (hnot : ∀ id, a ≠ .cancelled id) :
    CancelInv (m.emit a) := by
  refine ⟨h.final.emit hrun, h.distinct.of_le le_rfl le_rfl, fun id hid => ?_, h.known⟩
  rcases List.mem_append.1 hid with hid | hid
  · exact h.dead id hid
  · exact absurd (List.mem_singleton.1 hid).symm (hnot id)

theorem cancelInv_addTimer (h : CancelInv m) {foreign : Bool} {addr : ℕ} {cb : Bool}
    {expired interval : ℤ} (hstep : step m (.addTimer foreign addr cb expired interval) = some m') :
    CancelInv m' := by
  simp only [step] at hstep
  split at hstep
  case isFalse => cases hstep
  case isTrue hall =>
    have haddr : ∀ t ∈ m.objects, t.addr ≠ addr := by
      intro t ht
      have := List.all_eq_true.1 hall t (by simpa [or_assoc] using mem_objects.1 ht)
      simpa using this
    have hnew : ∀ id, Act.cancelled id ∈ m.log → m.created ≠ id := by
      intro id hid
      have := (h.dead id hid).1
      omega
    let timer : Timer :=
      { id := m.created, addr := addr, timerCallback := cb, expired := expired,
        interval := interval }
    cases foreign with
    | true =>
      obtain rfl := Option.some.inj hstep
      have htasks : queuedTimers ((m.loop.queueInLoop (.addTimerInLoop timer)).tasks) =
          queuedTimers m.loop.tasks ++ [timer] := by
        rw [TaskQueue.tasks_queueInLoop]
        exact List.filterMap_append
      refine ⟨h.final, h.distinct.create haddr ?_ rfl, fun id hid => ?_, fun id hid => ?_⟩
      · unfold keys objects
        rw [htasks, ← Multiset.coe_add, ← add_assoc, Multiset.map_add, add_comm,
          Multiset.coe_singleton, Multiset.map_singleton, Multiset.singleton_add]
      rotate_left
      · dsimp only at hid
        rw [TaskQueue.tasks_queueInLoop, List.mem_append] at hid
        exact (h.known id (hid.resolve_right (by simp))).trans (Nat.lt_succ_self _)
      obtain ⟨hlt, hset, hpend⟩ := h.dead id hid
      refine ⟨hlt.trans (Nat.lt_succ_self _), hset, fun hp => ?_⟩
      rcases hp with ⟨t, ht, htid⟩ | hb
      · rw [htasks, List.mem_append, List.mem_singleton] at ht
        rcases ht with ht | rfl
        · exact hpend (Or.inl ⟨t, ht, htid⟩)
        · exact hnew id hid htid
      · exact hpend (Or.inr hb)
    | false =>
      obtain rfl := Option.some.inj hstep
      let m1 := { m with created := m.created + 1 }
      have h1 : CancelInv m1 :=
        ⟨h.final, h.distinct.of_le le_rfl (Nat.le_succ _), fun id hid =>
          ⟨(h.dead id hid).1.trans (Nat.lt_succ_self _), (h.dead id hid).2⟩,
          fun id hid => (h.known id hid).trans (Nat.lt_succ_self _)⟩
      obtain ⟨htimers, hlist, hloop, hcreated, -⟩ := addTimerInLoop_spec m1 timer
      refine h1.addTimerInLoop (h.distinct.create haddr ?_ hcreated) rfl hnew
      unfold keys objects
      rw [htimers, hlist, hloop, Multiset.map_add, Multiset.map_add, Multiset.map_add,
        Multiset.map_add, ← Multiset.cons_add, ← Multiset.cons_add]
      refine add_le_add (add_le_add ?_ le_rfl) le_rfl
      have := Multiset.map_le_map (f := fun t : Timer => (t.id, t.addr))
        (insertSet_le m.timers timer)
      rwa [Multiset.map_cons] at this

/-- The batch that `handleExpired` takes out of the set. -/
theorem cancelInv_handleExpired (h : CancelInv m) {now : ℤ} {tpAddr : ℕ}
    (hstep : step m (.handleExpired now tpAddr) = some m') : CancelInv m' := by
  simp only [step] at hstep
  split at hstep
  case isFalse => cases hstep
  case isTrue hidle =>
    obtain rfl := Option.some.inj hstep
    have hnone : m.expiredList = none := by simpa using hidle.1
    rcases hspan : getExpired m.timers now tpAddr with ⟨expiredList, timers⟩
    have happend : expiredList ++ timers = m.timers := by
      unfold getExpired at hspan
      dsimp only at hspan
      rw [List.span_eq_takeWhile_dropWhile] at hspan
      rw [← (Prod.mk.inj hspan).1, ← (Prod.mk.inj hspan).2, List.takeWhile_append_dropWhile]
    dsimp only
    refine h.of_log rfl ?_ rfl (fun _ => id) fun id hd => ⟨fun t ht => ?_, fun hp => ?_⟩
    · refine Multiset.map_le_map ?_
      unfold objects
      dsimp only [batchTimers]
      rw [hnone, ← happend, List.nil_append]
      refine add_le_add ?_ le_rfl
      rw [← Multiset.coe_add, add_comm, Multiset.coe_nil, add_zero]
    · exact hd.1 t (by rw [← happend]; exact List.mem_append_right _ ht)
    · rcases hp with hq | ⟨b, hb, hp⟩
      · exact hd.2 (Or.inl hq)
      · obtain rfl := Option.some.inj hb
        rcases hp with ⟨t, ht, htid⟩ | ⟨t, ht, -⟩
        · exact hd.1 t (by rw [← happend]; exact List.mem_append_left _ ht) htid
        · cases ht

/-- One callback of the batch: it was not cancelled. -/
theorem cancelInv_runNext (h : CancelInv m) (hstep : step m .runNext = some m') :
    CancelInv m' := by
  simp only [step] at hstep
  split at hstep
  case h_2 => cases hstep
  case h_1 now done item todo hlist =>
    have hitem : m.Pending item.id :=
      Or.inr ⟨_, hlist, Or.inl ⟨item, List.mem_cons_self .., rfl⟩⟩
    let m1 : TimerManager :=
      { m with expiredList := some { now := now, done := done ++ [item], todo := todo } }
    have h1 : CancelInv m1 := by
      refine h.of_log rfl ?_ rfl (fun _ => id) fun id hd => ⟨hd.1, fun hp => ?_⟩
      · refine Multiset.map_le_map (le_of_eq ?_)
        simp [objects, m1, batchTimers, hlist]
      · rcases hp with hq | ⟨b, hb, hp⟩
        · exact hd.2 (Or.inl hq)
        · obtain rfl := Option.some.inj hb
          refine hd.2 (Or.inr ⟨_, hlist, ?_⟩)
          rcases hp with ⟨t, ht, htid⟩ | ⟨t, ht, htid, htr⟩
          · exact Or.inl ⟨t, List.mem_cons_of_mem _ ht, htid⟩
          · rcases List.mem_append.1 ht with ht | ht
            · exact Or.inr ⟨t, ht, htid, htr⟩
            · exact Or.inl ⟨item, List.mem_cons_self .., by rw [← List.mem_singleton.1 ht, htid]⟩
    obtain rfl := Option.some.inj hstep
    split
    · refine h1.emit (fun id hrun hcancelled => ?_) fun _ => Act.noConfusion
      obtain rfl := Act.run.inj hrun
      exact (h.dead item.id hcancelled).2.2 hitem
    · exact h1

/-- The end of a batch: only timers that were not cancelled are put back. -/
theorem cancelInv_resetTimers (h : CancelInv m) (hstep : step m .resetTimers = some m') :
    CancelInv m' := by
  simp only [step] at hstep
  split at hstep
  case h_2 => cases hstep
  case h_1 now done hlist =>
    obtain rfl := Option.some.inj hstep
    let m0 : TimerManager := { m with expiredList := none }
    obtain ⟨hmem, hle⟩ := resetLoop_spec now done m0
    obtain ⟨hexp, hloop, hcreated, hlog⟩ := resetLoop_frame now done m0
    have h1 : CancelInv (m0.resetLoop now done) := by
      refine h.of_log hlog ?_ hcreated (fun t ht => hloop ▸ ht) fun id hd =>
        ⟨fun s hs => ?_, fun hp => ?_⟩
      · unfold keys objects
        rw [hexp, hloop, Multiset.map_add, Multiset.map_add, Multiset.map_add, Multiset.map_add]
        refine add_le_add ?_ le_rfl
        simpa [m0, batchTimers, hlist] using hle
      · rcases hmem s hs with hs | ⟨t, ht, htr, hid⟩
        · exact hd.1 s hs
        · exact fun hsid => hd.2 (Or.inr ⟨_, hlist, Or.inr ⟨t, ht, hid.symm.trans hsid, htr⟩⟩)
      · rcases hp with hq | ⟨b, hb, -⟩
        · rw [hloop] at hq
          exact hd.2 (Or.inl hq)
        · rw [hexp] at hb
          cases hb
    unfold resetTimers
    dsimp only
    split
    · exact h1
    · exact h1.emit (fun _ => Act.noConfusion) fun _ => Act.noConfusion

/-- A round of tasks begins or ends, or a cancellation leaves the queue. -/
theorem CancelInv.of_tasks (h : CancelInv m) {q : TaskQueue Task}
    (hq : queuedTimers q.tasks = queuedTimers m.loop.tasks)
    (hmem : ∀ t ∈ q.tasks, t ∈ m.loop.tasks) : CancelInv { m with loop := q } := by
  refine h.of_log rfl (Multiset.map_le_map (le_of_eq ?_)) rfl hmem fun id hd =>
    ⟨hd.1, fun hp => ?_⟩
  · unfold objects
    rw [hq]
  · exact hd.2 (by simpa only [Pending, hq] using hp)

/-- A task of the queue. -/
theorem cancelInv_nextTask (h : CancelInv m) (hgood : m.Good .nextTask)
    (hstep : step m .nextTask = some m') : CancelInv m' := by
  obtain ⟨⟨t, q⟩, hnext, rfl⟩ := Option.map_eq_some_iff.1 hstep
  have htasks := TaskQueue.tasks_nextTask hnext
  have hmem : ∀ t ∈ q.tasks, t ∈ m.loop.tasks := fun t ht =>
    htasks ▸ List.mem_cons_of_mem _ ht
  cases t with
  | cancelInLoop id =>
    have hq : queuedTimers q.tasks = queuedTimers m.loop.tasks := by
      rw [htasks]
      rfl
    have hid : id < m.created := h.known id (by rw [htasks]; exact List.mem_cons_self ..)
    have hgood' : ¬ Pending { m with loop := q } id := by
      simpa only [Pending, hq] using hgood id q hnext
    exact (h.of_tasks hq hmem).cancelInLoop hid hgood'
  | addTimerInLoop timer =>
    have hq : queuedTimers m.loop.tasks = timer :: queuedTimers q.tasks := by
      rw [htasks]
      rfl
    -- between the two, no queue and no set holds the timer
    have hrest : CancelInv { m with loop := q } := by
      refine h.of_log rfl (Multiset.map_le_map ?_) rfl hmem fun id hd => ⟨hd.1, fun hp => ?_⟩
      · unfold objects
        rw [hq]
        exact add_le_add le_rfl (Multiset.le_cons_self _ _)
      · rcases hp with ⟨t, ht, htid⟩ | hb
        · exact hd.2 (Or.inl ⟨t, by rw [hq]; exact List.mem_cons_of_mem _ ht, htid⟩)
        · exact hd.2 (Or.inr hb)
    obtain ⟨htimers, hlist, hloop, hcreated, -⟩ := addTimerInLoop_spec { m with loop := q } timer
    refine hrest.addTimerInLoop (h.distinct.of_le ?_ hcreated.ge) rfl fun id hid => ?_
    · unfold keys objects
      rw [htimers, hlist, hloop, hq]
      refine Multiset.map_le_map ?_
      calc (insertSet m.timers timer : Multiset Timer) + ↑(batchTimers m.expiredList) +
            ↑(queuedTimers q.tasks)
          ≤ timer ::ₘ ↑m.timers + ↑(batchTimers m.expiredList) + ↑(queuedTimers q.tasks) :=
            add_le_add (add_le_add (insertSet_le _ _) le_rfl) le_rfl
        _ = ↑m.timers + ↑(batchTimers m.expiredList) + ↑(timer :: queuedTimers q.tasks) := by
            rw [← Multiset.cons_coe, Multiset.add_cons, Multiset.cons_add, Multiset.cons_add]
    · exact fun htid => (h.dead id hid).2.2
        (Or.inl ⟨timer, by rw [hq]; exact List.mem_cons_self .., htid⟩)

/-- Every good step keeps cancellations final. -/
theorem cancelInv_step (m : TimerManager) (i : Input) (m' : TimerManager) (h : CancelInv m)
    (hgood : m.Good i) (hstep : step m i = some m') : CancelInv m' := by
  cases i with
  | addTimer foreign addr cb expired interval => exact cancelInv_addTimer h hstep
  | cancel foreign id =>
    simp only [step] at hstep
    split at hstep
    case isFalse => cases hstep
    case isTrue hid =>
      cases foreign with
      | false =>
        obtain rfl := Option.some.inj hstep
        exact h.cancelInLoop hid hgood
      | true =>
        obtain rfl := Option.some.inj hstep
        have htasks : (m.loop.queueInLoop (.cancelInLoop id)).tasks =
            m.loop.tasks ++ [.cancelInLoop id] := TaskQueue.tasks_queueInLoop
        have hq : queuedTimers (m.loop.queueInLoop (.cancelInLoop id)).tasks =
            queuedTimers m.loop.tasks := by
          rw [htasks]
          exact List.filterMap_append.trans (List.append_nil _)
        refine ⟨h.final, h.distinct.of_le (Multiset.map_le_map (le_of_eq ?_)) le_rfl,
          fun i hi => ?_, fun i hi => ?_⟩
        · unfold objects
          rw [hq]
        · obtain ⟨hlt, hset, hpend⟩ := h.dead i hi
          exact ⟨hlt, hset, fun hp => hpend (by simpa only [Pending, hq] using hp)⟩
        · rw [htasks, List.mem_append, List.mem_singleton] at hi
          rcases hi with hi | hi
          · exact h.known i hi
          · exact (Task.cancelInLoop.inj hi) ▸ hid
  | handleExpired now tpAddr => exact cancelInv_handleExpired h hstep
  | runNext => exact cancelInv_runNext h hstep
  | resetTimers => exact cancelInv_resetTimers h hstep
  | swapTasks =>
    simp only [step] at hstep
    split at hstep
    case isFalse => cases hstep
    case isTrue =>
      obtain ⟨q, hq, rfl⟩ := Option.map_eq_some_iff.1 hstep
      have htasks := TaskQueue.tasks_swapTasks hq
      exact h.of_tasks (by rw [htasks]) fun t ht => htasks ▸ ht
  | nextTask => exact cancelInv_nextTask h hgood hstep
  | endTasks =>
    obtain ⟨q, hq, rfl⟩ := Option.map_eq_some_iff.1 hstep
    have htasks := TaskQueue.tasks_endTasks hq
    exact h.of_tasks (by rw [htasks]) fun t ht => htasks ▸ ht

theorem cancelInv_init : CancelInv init := by
  refine ⟨fun l1 id l2 hl => ?_, distinct_init, fun id hid => ?_, fun id hid => ?_⟩
  · exact absurd hl (by simp [init])
  · exact absurd hid List.not_mem_nil
  · exact absurd hid List.not_mem_nil

/-- **When a cancelled timer stays quiet.**  In a run whose executed
cancellations find their timer in the set or nowhere, no timer's callback runs
after its cancellation was executed, in any state of the run. -/
theorem cancel_final {is : List Input} (h : Steps step Good init is) :
    Always step CancelFinal init is :=
  (always_of_steps cancelInv_step cancelInv_init h).mono fun _ hm => hm.final

/-- A repeating timer that runs once and is cancelled between two batches. -/
theorem cancel_final_between_batches :
    Always step CancelFinal init [.addTimer false 0 true 1 5, .handleExpired 2 9, .runNext,
      .resetTimers, .cancel false 0, .handleExpired 9000 9, .resetTimers] := by
  refine cancel_final ?_
  refine .cons trivial rfl (.cons trivial rfl (.cons trivial rfl (.cons trivial rfl
    (.cons ?_ rfl (.cons trivial rfl (.cons trivial rfl trivial))))))
  rintro (⟨t, ht, -⟩ | ⟨b, hb, -⟩)
  · cases ht
  · cases hb

/-- **A repeating timer that cancels itself.**  Its callback cancels it: the
batch holds it, so the set does not, and the end of the batch puts it back. -/
theorem cancelled_from_own_callback :
    ∃ m, run step init [.addTimer false 0 true 1 5, .handleExpired 2 9, .runNext,
        .cancel false 0, .resetTimers, .handleExpired 9000 9, .runNext] = some m ∧
      m.log = [.arm 1, .run 0, .cancelled 0, .arm 5002, .run 0] ∧ ¬ m.CancelFinal := by
  refine ⟨_, rfl, by decide, fun h => ?_⟩
  exact h [.arm 1, .run 0] 0 [.arm 5002, .run 0] (by decide) (by decide)

end TimerManager
end Net
end Sevent
