/-
# When the timers fire

`getExpired` takes out of the set what is due at the clock reading of the batch,
and `resetTimers` puts a repeating timer back one interval after that same
reading.  A `History` records, beside the manager, every call of `Timer::run`
with the reading of its batch, and every call of `insert` with the set it was
made on.

`Discipline` is what holds of them in every run: no timer runs early, a one-shot
timer runs once, no timer is lost between the set and the batch, and `insert`
always finds a place, because no timer of the batch is in the set while its
expiry is changed.  That the runs of a repeating timer are an interval apart,
`Spaced`, is not so: its next expiry is a sum of `int64_t` that may overflow, to
a time that has passed.  `firing_discipline` has it of the runs in which the sum
fits wherever a batch ends (`Rearmed`).
-/

import Sevent.Net.TimerObjects
import Sevent.Lib.Run
import Mathlib.Data.List.TakeWhile

namespace Sevent
namespace Net
namespace TimerManager

open Transition Bytes

/-- A call of `Timer::run`, with the timer as it was then and the clock reading
of its batch. -/
structure Firing where
  timer : Timer
  now : ℤ
  deriving DecidableEq, Repr

/-- A call of `timers.insert(timer)`, with the set before it. -/
structure Insertion where
  timers : List Timer
  timer : Timer
  deriving DecidableEq, Repr

/-- `res.second` of the insertion. -/
def Insertion.second (i : Insertion) : Bool := !i.timers.any (Timer.equiv i.timer)

/-- The call of `Timer::run` that a step makes. -/
def firings (m : TimerManager) : Input → List Firing
  | .runNext =>
    match m.expiredList with
    | some { now, done := _, todo := item :: _ } => [{ timer := item, now }]
    | _ => []
  | _ => []

/-- The insertions of the loop of `resetTimers`. -/
def resetInsertions (m : TimerManager) (now : ℤ) : List Timer → List Insertion
  | [] => []
  | item :: list =>
    if item.isRepeat then
      { timers := m.timers, timer := item.resetExpired now } ::
        resetInsertions (m.insert (item.resetExpired now)).1 now list
    else resetInsertions m now list

/-- The insertions that a step makes. -/
def insertions (m : TimerManager) : Input → List Insertion
  | .addTimer false addr cb expired interval =>
    [{ timers := m.timers, timer := m.newTimer addr cb expired interval }]
  | .nextTask =>
    match m.loop.nextTask with
    | some (.addTimerInLoop timer, _) => [{ timers := m.timers, timer }]
    | _ => []
  | .resetTimers =>
    match m.expiredList with
    | some { now, done, todo := [] } => resetInsertions { m with expiredList := none } now done
    | _ => []
  | _ => []

/-- The timers of a loop, and what was run and inserted so far. -/
structure History where
  manager : TimerManager
  firings : List Firing
  insertions : List Insertion

namespace History

/-- Nothing has run yet, and nothing was inserted. -/
def init : History where
  manager := .init
  firings := []
  insertions := []

/-- A step of the manager, recorded. -/
def step (h : History) (i : Input) : Option History :=
  (TimerManager.step h.manager i).map fun m =>
    { manager := m
      firings := h.firings ++ h.manager.firings i
      insertions := h.insertions ++ h.manager.insertions i }

end History

/-! ### The order of the set -/

/-- The comparator, as an order of the pairs of expiry and address. -/
theorem lt_iff {s t : Timer} :
    Timer.lt s t = true ↔ s.expired < t.expired ∨ s.expired = t.expired ∧ s.addr < t.addr := by
  unfold Timer.lt
  split
  · next h => simp [h]
  · split
    · next hts =>
        simp only [Bool.false_eq_true, false_iff]
        omega
    · next hst hts =>
        simp only [decide_eq_true_eq]
        omega

/-- No timer of the set has the address of a timer outside. -/
theorem any_equiv_eq_false {timers : List Timer} {t : Timer} (h : ∀ s ∈ timers, s.addr ≠ t.addr) :
    timers.any (Timer.equiv t) = false := by
  rw [List.any_eq_false]
  exact fun s hs hequiv => h s hs (addr_of_equiv hequiv).symm

/-- An insertion of a timer with an address of its own adds it to the set. -/
theorem insertSet_perm {timers : List Timer} {t : Timer} (h : ∀ s ∈ timers, s.addr ≠ t.addr) :
    (insertSet timers t).Perm (t :: timers) := by
  unfold insertSet
  rw [any_equiv_eq_false h]
  exact List.perm_orderedInsert _ t timers

/-- An insertion keeps the set strictly ordered, for no two timers are
equivalent. -/
theorem pairwise_orderedInsert {t : Timer} {timers : List Timer}
    (hsorted : timers.Pairwise fun s s' => Timer.lt s s' = true)
    (h : ∀ s ∈ timers, s.addr ≠ t.addr) :
    (timers.orderedInsert (fun s s' => Timer.lt s s' = true) t).Pairwise
      fun s s' => Timer.lt s s' = true := by
  induction timers with
  | nil => simp
  | cons s timers ih =>
    obtain ⟨hhead, htail⟩ := List.pairwise_cons.1 hsorted
    rw [List.orderedInsert_cons]
    split
    · next hts =>
        refine List.pairwise_cons.2 ⟨fun x hx => ?_, hsorted⟩
        rcases List.mem_cons.1 hx with rfl | hx
        · exact hts
        · have hsx := hhead x hx
          rw [lt_iff] at hts hsx ⊢
          omega
    · next hts =>
        refine List.pairwise_cons.2 ⟨fun x hx => ?_, ih htail fun x hx => h x (by simp [hx])⟩
        rcases (List.mem_orderedInsert _).1 hx with rfl | hx
        · have hne := h s List.mem_cons_self
          rw [lt_iff] at hts ⊢
          omega
        · exact hhead x hx

/-- **The set stays strictly ordered.** -/
theorem pairwise_insertSet {t : Timer} {timers : List Timer}
    (hsorted : timers.Pairwise fun s s' => Timer.lt s s' = true)
    (h : ∀ s ∈ timers, s.addr ≠ t.addr) :
    (insertSet timers t).Pairwise fun s s' => Timer.lt s s' = true := by
  unfold insertSet
  rw [any_equiv_eq_false h]
  exact pairwise_orderedInsert hsorted h

/-! ### The discipline -/

/-- The one-shot timer has run and its callback has returned. -/
def FinishedOnlyRun (h : History) (t : Timer) : Prop :=
  t.isRepeat = false ∧ (∃ f ∈ h.firings, f.timer.id = t.id) ∧
    ∀ b, h.manager.expiredList = some b → ∀ running, b.done.getLast? = some running →
      running.id ≠ t.id

/-- What holds of the runs and of the set: no run is early, what runs twice is a
repeating timer, and no timer is lost; the set is strictly ordered, no timer in
it is in the batch or changes its key, and every insertion succeeds. -/
structure Discipline (h : History) : Prop where
  notEarly : ∀ f ∈ h.firings, f.timer.expired ≤ f.now
  once : h.firings.Pairwise fun f f' => f.timer.id = f'.timer.id → f.timer.isRepeat = true
  kept : ∀ i ∈ h.insertions, .cancelled i.timer.id ∉ h.manager.log → ¬ FinishedOnlyRun h i.timer →
    ∃ t ∈ h.manager.timers ++ batchTimers h.manager.expiredList, t.id = i.timer.id
  sorted : h.manager.timers.Pairwise fun s t => Timer.lt s t = true
  apart : ∀ s ∈ h.manager.timers, ∀ t ∈ batchTimers h.manager.expiredList, s.id ≠ t.id
  sameKey : ∀ i h', h.step i = some h' → ∀ s ∈ h.manager.timers, ∀ s' ∈ h'.manager.timers,
    s.id = s'.id → s' = s
  inserted : ∀ i ∈ h.insertions, i.second = true ∧ ∀ s ∈ i.timers, s.id ≠ i.timer.id

/-- The readings of two runs of one timer are at least its interval apart. -/
def Spaced (h : History) : Prop :=
  h.firings.Pairwise fun f f' => f.timer.id = f'.timer.id →
    f.timer.interval * 1000 ≤ f'.now - f.now

/-- Where a batch ends, the next expiry of each of its repeating timers is one of
`int64_t`. -/
def Rearmed (h : History) : Input → Prop
  | .resetTimers => ∀ b, h.manager.expiredList = some b → ∀ t ∈ b.done, t.isRepeat = true →
      IsInt64 (b.now + t.interval * 1000)
  | _ => True

/-- The timer is a repeating one, and where the expiries fit it waits for at least
an interval after the run. -/
def After (fits : Prop) (f : Firing) (t : Timer) : Prop :=
  t.isRepeat = true ∧ t.interval = f.timer.interval ∧
    (fits → f.now + t.interval * 1000 ≤ t.expired)

/-- What every step keeps.  `waiting` and `done` tie the expiry of a timer that
has run to the reading of that run, where `fits`: in a run whose steps are all
`Rearmed`. -/
structure FiringInv (fits : Prop) (h : History) : Prop where
  distinct : h.manager.Distinct
  sorted : h.manager.timers.Pairwise fun s t => Timer.lt s t = true
  inserted : ∀ i ∈ h.insertions, i.second = true ∧ ∀ s ∈ i.timers, s.id ≠ i.timer.id
  due : ∀ b, h.manager.expiredList = some b → ∀ t ∈ b.todo, t.expired ≤ b.now
  fired : ∀ f ∈ h.firings, f.timer.expired ≤ f.now ∧ f.timer.id < h.manager.created
  spaced : h.firings.Pairwise fun f f' => f.timer.id = f'.timer.id →
    f.timer.isRepeat = true ∧ (fits → f.timer.interval * 1000 ≤ f'.now - f.now)
  waiting : ∀ f ∈ h.firings, ∀ t ∈ h.manager.timers, t.id = f.timer.id → After fits f t
  next : ∀ f ∈ h.firings, ∀ b, h.manager.expiredList = some b → ∀ t ∈ b.todo,
    t.id = f.timer.id → After fits f t
  done : ∀ f ∈ h.firings, ∀ b, h.manager.expiredList = some b → ∀ t ∈ b.done,
    t.id = f.timer.id → t.interval = f.timer.interval ∧ (fits → f.now ≤ b.now)
  queued : ∀ f ∈ h.firings, ∀ t ∈ queuedTimers h.manager.loop.tasks, t.id ≠ f.timer.id
  ran : ∀ b, h.manager.expiredList = some b → ∀ t ∈ b.done, ∃ f ∈ h.firings, f.timer.id = t.id
  kept : ∀ i ∈ h.insertions, .cancelled i.timer.id ∉ h.manager.log →
    (∃ t ∈ h.manager.timers ++ batchTimers h.manager.expiredList,
      t.id = i.timer.id ∧ t.interval = i.timer.interval) ∨
    i.timer.isRepeat = false ∧ ∃ f ∈ h.firings, f.timer.id = i.timer.id

variable {fits : Prop} {m : TimerManager} {h : History}

/-- A timer is a repeating one when it has an interval. -/
theorem isRepeat_iff {t : Timer} : t.isRepeat = true ↔ 0 < t.interval := by
  simp [Timer.isRepeat]

/-- Timers in the set, in the batch and in the queue are distinct. -/
theorem Distinct.nodup_ids (hd : m.Distinct) :
    ((m.timers ++ batchTimers m.expiredList ++ queuedTimers m.loop.tasks).map Timer.id).Nodup := by
  have hids := hd.ids
  rw [keys, Multiset.map_map, objects, Multiset.coe_add, Multiset.coe_add, Multiset.map_coe,
    Multiset.coe_nodup] at hids
  exact hids

/-- The addresses of the timers that something holds are distinct. -/
theorem Distinct.nodup_addrs (hd : m.Distinct) :
    ((m.timers ++ batchTimers m.expiredList ++
      queuedTimers m.loop.tasks).map Timer.addr).Nodup := by
  have haddrs := hd.addrs
  rw [keys, Multiset.map_map, objects, Multiset.coe_add, Multiset.coe_add, Multiset.map_coe,
    Multiset.coe_nodup] at haddrs
  exact haddrs

/-- No object is in the set and in the batch. -/
theorem Distinct.apart (hd : m.Distinct) :
    ∀ s ∈ m.timers, ∀ t ∈ batchTimers m.expiredList, s.id ≠ t.id := by
  intro s hs t ht hid
  have hnodup := hd.nodup_ids
  rw [List.map_append, List.map_append, List.append_assoc, List.nodup_append] at hnodup
  refine hnodup.2.2 s.id (List.mem_map_of_mem hs) t.id ?_ hid
  exact List.mem_append_left _ (List.mem_map_of_mem ht)

/-- The invariant, with the keys of the set left alone in the next step, is the
discipline. -/
theorem FiringInv.discipline_of (hi : FiringInv fits h)
    (hkey : ∀ i h', h.step i = some h' → ∀ s ∈ h.manager.timers, ∀ s' ∈ h'.manager.timers,
      s.id = s'.id → s' = s) : Discipline h := by
  refine ⟨fun f hf => (hi.fired f hf).1,
    hi.spaced.imp fun hspaced hid => (hspaced hid).1, fun i hmem hcancelled hfinished => ?_,
      hi.sorted,
    hi.distinct.apart, hkey, hi.inserted⟩
  rcases hi.kept i hmem hcancelled with ⟨t, ht, hid, -⟩ | ⟨hrepeat, f, hf, hid⟩
  · exact ⟨t, ht, hid⟩
  · -- it has run: then its callback has not returned
    by_contra hnone
    refine hfinished ⟨hrepeat, ⟨f, hf, hid⟩, fun b hb running hlast hrun => hnone ?_⟩
    refine ⟨running, List.mem_append_right _ ?_, hrun⟩
    rw [hb]
    exact List.mem_append_left _ (List.mem_of_getLast? hlast)

/-! ### Steps -/

/-- A step of the queue: the set and the batch are as they were. -/
theorem FiringInv.frame (hi : FiringInv fits h) (hdistinct : m.Distinct)
    (htimers : m.timers = h.manager.timers) (hlist : m.expiredList = h.manager.expiredList)
    (hcreated : h.manager.created ≤ m.created) (hlog : h.manager.log ⊆ m.log)
    (hqueued : ∀ t ∈ queuedTimers m.loop.tasks,
      t ∈ queuedTimers h.manager.loop.tasks ∨ t.id = h.manager.created) :
    FiringInv fits { h with manager := m } := by
  constructor
  case distinct => exact hdistinct
  case sorted => simpa only [htimers] using hi.sorted
  case inserted => exact hi.inserted
  case due => simpa only [hlist] using hi.due
  case fired => exact fun f hf => ⟨(hi.fired f hf).1, (hi.fired f hf).2.trans_le hcreated⟩
  case spaced => exact hi.spaced
  case waiting => simpa only [htimers] using hi.waiting
  case next => simpa only [hlist] using hi.next
  case done => simpa only [hlist] using hi.done
  case queued =>
    intro f hf t ht
    rcases hqueued t ht with hold | hnew
    · exact hi.queued f hf t hold
    · have hlt := (hi.fired f hf).2
      omega
  case ran => simpa only [hlist] using hi.ran
  case kept =>
    intro i hmem hcancelled
    rw [htimers, hlist]
    exact hi.kept i hmem fun hin => hcancelled (hlog hin)

/-- **A timer enters the set.** -/
theorem FiringInv.insert (hi : FiringInv fits h) {timer : Timer}
    (hdistinct : (h.manager.addTimerInLoop timer).Distinct)
    (hid : ∀ s ∈ h.manager.timers, s.id ≠ timer.id)
    (haddr : ∀ s ∈ h.manager.timers, s.addr ≠ timer.addr)
    (hnew : ∀ f ∈ h.firings, timer.id ≠ f.timer.id) :
    FiringInv fits
      { manager := h.manager.addTimerInLoop timer
        firings := h.firings
        insertions := h.insertions ++ [{ timers := h.manager.timers, timer }] } := by
  obtain ⟨htimers, hlist, hloop, hcreated, acts, hlog, hacts⟩ := addTimerInLoop_spec h.manager timer
  have hmem : ∀ s, s ∈ (h.manager.addTimerInLoop timer).timers ↔
      s = timer ∨ s ∈ h.manager.timers := by
    intro s
    rw [htimers, (insertSet_perm haddr).mem_iff, List.mem_cons]
  constructor
  case distinct => exact hdistinct
  case sorted =>
    rw [htimers]
    exact pairwise_insertSet hi.sorted haddr
  case inserted =>
    intro i hmemi
    rcases List.mem_append.1 hmemi with hold | hins
    · exact hi.inserted i hold
    · obtain rfl := List.mem_singleton.1 hins
      exact ⟨by simp [Insertion.second, any_equiv_eq_false haddr], hid⟩
  case due => simpa only [hlist] using hi.due
  case fired => simpa only [hcreated] using hi.fired
  case spaced => exact hi.spaced
  case waiting =>
    intro f hf t ht htf
    rcases (hmem t).1 ht with rfl | ht
    · exact absurd htf (hnew f hf)
    · exact hi.waiting f hf t ht htf
  case next => simpa only [hlist] using hi.next
  case done => simpa only [hlist] using hi.done
  case queued => simpa only [hloop] using hi.queued
  case ran => simpa only [hlist] using hi.ran
  case kept =>
    intro i hmemi hcancelled
    have hcancelled' : .cancelled i.timer.id ∉ h.manager.log := by
      intro hin
      exact hcancelled (by rw [hlog]; exact List.mem_append_left _ hin)
    rcases List.mem_append.1 hmemi with hold | hins
    · refine (hi.kept i hold hcancelled').imp_left ?_
      rintro ⟨t, ht, htid⟩
      refine ⟨t, ?_, htid⟩
      rw [hlist]
      rcases List.mem_append.1 ht with hset | hbatch
      · exact List.mem_append_left _ ((hmem t).2 (.inr hset))
      · exact List.mem_append_right _ hbatch
    · obtain rfl := List.mem_singleton.1 hins
      exact .inl ⟨timer, List.mem_append_left _ ((hmem timer).2 (.inl rfl)), rfl, rfl⟩

/-- `cancelInLoop` erases its own timer and no other. -/
theorem cancelInLoop_sublist (m : TimerManager) (id : ℕ) :
    (m.cancelInLoop id).timers.Sublist m.timers := by
  unfold cancelInLoop
  dsimp only [TimerManager.emit]
  split
  · exact List.Sublist.refl _
  · split
    · exact List.Sublist.refl _
    · exact List.erase_sublist

/-- A cancellation takes out the timer with its number only. -/
theorem mem_cancelInLoop (hd : m.Distinct) {id : ℕ} {t : Timer} (ht : t ∈ m.timers)
    (hid : t.id ≠ id) : t ∈ (m.cancelInLoop id).timers := by
  unfold cancelInLoop
  dsimp only [TimerManager.emit]
  split
  · exact ht
  · next timer hlock =>
      split
      · exact ht
      · next found hfind =>
          -- what is erased has the key of the locked timer, so it is that timer
          have htimer : timer ∈ m.objects := mem_objects.2 (by
            simpa [or_assoc] using List.mem_of_find?_eq_some hlock)
          have htimerid : timer.id = id := by simpa using List.find?_some hlock
          have hfound : found ∈ m.objects :=
            mem_objects.2 (.inl (List.mem_of_find?_eq_some hfind))
          have haddr := addr_of_equiv (by simpa using List.find?_some hfind)
          obtain rfl := hd.eq_of_addr htimer hfound haddr
          refine (List.mem_erase_of_ne fun heq => hid ?_).2 ht
          rw [heq]
          exact htimerid

/-- **A cancellation.** -/
theorem FiringInv.cancel (hi : FiringInv fits h) (id : ℕ) :
    FiringInv fits { h with manager := h.manager.cancelInLoop id } := by
  have hsub := cancelInLoop_sublist h.manager id
  have hlist := cancelInLoop_expiredList h.manager id
  constructor
  case distinct => exact hi.distinct.of_le (keys_cancelInLoop _ _) (cancelInLoop_created _ _).ge
  case sorted => exact hi.sorted.sublist hsub
  case inserted => exact hi.inserted
  case due => simpa only [hlist] using hi.due
  case fired => simpa only [cancelInLoop_created] using hi.fired
  case spaced => exact hi.spaced
  case waiting => exact fun f hf t ht => hi.waiting f hf t (hsub.subset ht)
  case next => simpa only [hlist] using hi.next
  case done => simpa only [hlist] using hi.done
  case queued => simpa only [cancelInLoop_loop] using hi.queued
  case ran => simpa only [hlist] using hi.ran
  case kept =>
    intro i hmem hcancelled
    rw [cancelInLoop_log, List.mem_append, List.mem_singleton, not_or] at hcancelled
    refine (hi.kept i hmem hcancelled.1).imp_left ?_
    rintro ⟨t, ht, htid, hinterval⟩
    refine ⟨t, ?_, htid, hinterval⟩
    rw [hlist]
    rcases List.mem_append.1 ht with hset | hbatch
    · refine List.mem_append_left _ (mem_cancelInLoop hi.distinct hset fun heq => ?_)
      exact hcancelled.2 (by rw [← heq, htid])
    · exact List.mem_append_right _ hbatch

/-- What `getExpired` takes out is due. -/
theorem expired_le_of_mem_getExpired {timers : List Timer} {now : ℤ} {tpAddr : ℕ} {t : Timer}
    (ht : t ∈ (getExpired timers now tpAddr).1) : t.expired ≤ now := by
  unfold getExpired at ht
  dsimp only at ht
  rw [List.span_eq_takeWhile_dropWhile] at ht
  have hlt := List.mem_takeWhile_imp ht
  rw [lt_iff] at hlt
  dsimp only at hlt
  omega

/-- **A batch begins.** -/
theorem FiringInv.handleExpired (hi : FiringInv fits h)
    (hnone : h.manager.expiredList = none) (now : ℤ)
    (tpAddr : ℕ) :
    FiringInv fits { h with manager := { h.manager with
      timers := (getExpired h.manager.timers now tpAddr).2
      expiredList :=
        some { now, done := [], todo := (getExpired h.manager.timers now tpAddr).1 } } } := by
  have happend := getExpired_append h.manager.timers now tpAddr
  have hfst : ∀ t ∈ (getExpired h.manager.timers now tpAddr).1, t ∈ h.manager.timers := fun t ht =>
    happend ▸ List.mem_append_left _ ht
  have hsnd : ∀ t ∈ (getExpired h.manager.timers now tpAddr).2, t ∈ h.manager.timers := fun t ht =>
    happend ▸ List.mem_append_right _ ht
  constructor
  case distinct => exact hi.distinct.of_le (keys_handleExpired hnone now tpAddr).le le_rfl
  case sorted =>
    have hsorted := hi.sorted
    rw [← happend] at hsorted
    exact (List.pairwise_append.1 hsorted).2.1
  case inserted => exact hi.inserted
  case due =>
    rintro _ ⟨rfl⟩ t ht
    exact expired_le_of_mem_getExpired ht
  case fired => exact hi.fired
  case spaced => exact hi.spaced
  case waiting => exact fun f hf t ht => hi.waiting f hf t (hsnd t ht)
  case next =>
    rintro f hf _ ⟨rfl⟩ t ht
    exact hi.waiting f hf t (hfst t ht)
  case done =>
    rintro f hf _ ⟨rfl⟩ t ht
    exact absurd ht List.not_mem_nil
  case queued => exact hi.queued
  case ran =>
    rintro _ ⟨rfl⟩ t ht
    exact absurd ht List.not_mem_nil
  case kept =>
    intro i hmem hcancelled
    refine (hi.kept i hmem hcancelled).imp_left ?_
    rintro ⟨t, ht, htid⟩
    refine ⟨t, ?_, htid⟩
    rw [hnone, ← happend] at ht
    simp only [batchTimers, List.append_nil, List.nil_append, List.mem_append] at ht ⊢
    exact ht.symm

/-- No other held timer has the number of one in the batch. -/
theorem Distinct.batch_nodup (hd : m.Distinct) {b : Batch} (hb : m.expiredList = some b) :
    ((b.done ++ b.todo).map Timer.id).Nodup := by
  have hnodup := hd.nodup_ids
  rw [hb, List.map_append, List.map_append, List.append_assoc, List.nodup_append] at hnodup
  exact (List.nodup_append.1 hnodup.2.1).1

/-- The timer that runs is no other one of its batch. -/
theorem Distinct.running_apart (hd : m.Distinct) {now : ℤ} {done todo : List Timer} {item : Timer}
    (hb : m.expiredList = some { now, done, todo := item :: todo }) {t : Timer}
    (ht : t ∈ done ++ todo) : t.id ≠ item.id := by
  intro hid
  have hnodup := (List.perm_middle.map Timer.id).nodup_iff.1 (hd.batch_nodup hb)
  rw [List.map_cons, List.nodup_cons] at hnodup
  exact hnodup.1 (hid ▸ List.mem_map_of_mem ht)

/-- A timer that runs again has waited for an interval since its last run. -/
theorem FiringInv.running_after (hi : FiringInv fits h) {now : ℤ} {done todo : List Timer}
    {item : Timer} (hb : h.manager.expiredList = some { now, done, todo := item :: todo })
    {f : Firing} (hf : f ∈ h.firings) (hid : item.id = f.timer.id) :
    f.timer.isRepeat = true ∧ item.interval = f.timer.interval ∧
      (fits → f.now + f.timer.interval * 1000 ≤ now) := by
  obtain ⟨hrepeat, hinterval, hafter⟩ := hi.next f hf _ hb item List.mem_cons_self hid
  have hdue : item.expired ≤ now := hi.due _ hb item List.mem_cons_self
  refine ⟨?_, hinterval, fun hfits => ?_⟩
  · rw [isRepeat_iff, ← hinterval]
    exact isRepeat_iff.1 hrepeat
  · rw [← hinterval]
    exact (hafter hfits).trans hdue

/-- **A timer of the batch runs.** -/
theorem FiringInv.runNext (hi : FiringInv fits h) {now : ℤ} {done todo : List Timer} {item : Timer}
    (hb : h.manager.expiredList = some { now, done, todo := item :: todo }) :
    FiringInv fits
      { manager := { h.manager with expiredList := some { now, done := done ++ [item], todo } }
        firings := h.firings ++ [{ timer := item, now }]
        insertions := h.insertions } := by
  have hdue : item.expired ≤ now := hi.due _ hb item List.mem_cons_self
  have hother : ∀ t ∈ done ++ todo, t.id ≠ item.id := fun t ht => hi.distinct.running_apart hb ht
  have hitem : item ∈ batchTimers h.manager.expiredList := by
    rw [hb]
    exact List.mem_append_right _ List.mem_cons_self
  have hobj : item ∈ h.manager.objects := mem_objects.2 (.inr (.inl hitem))
  constructor
  case distinct => exact hi.distinct.of_le (keys_runNext hb).le le_rfl
  case sorted => exact hi.sorted
  case inserted => exact hi.inserted
  case due =>
    rintro _ ⟨rfl⟩ t ht
    exact hi.due _ hb t (List.mem_cons_of_mem _ ht)
  case fired =>
    intro f hf
    rcases List.mem_append.1 hf with hold | hnew
    · exact hi.fired f hold
    · obtain rfl := List.mem_singleton.1 hnew
      exact ⟨hdue, hi.distinct.lt _ (Multiset.mem_map_of_mem _ hobj)⟩
  case spaced =>
    refine List.pairwise_append.2 ⟨hi.spaced, List.pairwise_singleton _ _,
      fun f hf f' hf' hid => ?_⟩
    obtain rfl := List.mem_singleton.1 hf'
    obtain ⟨hrepeat, -, hafter⟩ := hi.running_after hb hf hid.symm
    refine ⟨hrepeat, fun hfits => ?_⟩
    have hle := hafter hfits
    show f.timer.interval * 1000 ≤ now - f.now
    omega
  case waiting =>
    intro f hf t ht hid
    rcases List.mem_append.1 hf with hold | hnew
    · exact hi.waiting f hold t ht hid
    · obtain rfl := List.mem_singleton.1 hnew
      exact absurd hid (hi.distinct.apart t ht item hitem)
  case next =>
    rintro f hf _ ⟨rfl⟩ t ht hid
    rcases List.mem_append.1 hf with hold | hnew
    · exact hi.next f hold _ hb t (List.mem_cons_of_mem _ ht) hid
    · obtain rfl := List.mem_singleton.1 hnew
      exact absurd hid (hother t (List.mem_append_right _ ht))
  case done =>
    rintro f hf _ ⟨rfl⟩ t ht hid
    rcases List.mem_append.1 hf with hold | hnew
    · rcases List.mem_append.1 ht with ht | ht
      · exact hi.done f hold _ hb t ht hid
      · obtain rfl := List.mem_singleton.1 ht
        obtain ⟨hrepeat, hinterval, hafter⟩ := hi.running_after hb hold hid
        have hpos := isRepeat_iff.1 hrepeat
        refine ⟨hinterval, fun hfits => ?_⟩
        have hle := hafter hfits
        show f.now ≤ now
        omega
    · obtain rfl := List.mem_singleton.1 hnew
      rcases List.mem_append.1 ht with ht | ht
      · exact absurd hid (hother t (List.mem_append_left _ ht))
      · obtain rfl := List.mem_singleton.1 ht
        exact ⟨rfl, fun _ => le_rfl⟩
  case queued =>
    intro f hf t ht hid
    rcases List.mem_append.1 hf with hold | hnew
    · exact hi.queued f hold t ht hid
    · obtain rfl := List.mem_singleton.1 hnew
      have hnodup := hi.distinct.nodup_ids
      rw [List.map_append, List.nodup_append] at hnodup
      refine hnodup.2.2 item.id (List.mem_map_of_mem (List.mem_append_right _ hitem)) t.id
        (List.mem_map_of_mem ht) hid.symm
  case ran =>
    rintro _ ⟨rfl⟩ t ht
    rcases List.mem_append.1 ht with ht | ht
    · obtain ⟨f, hf, hid⟩ := hi.ran _ hb t ht
      exact ⟨f, List.mem_append_left _ hf, hid⟩
    · obtain rfl := List.mem_singleton.1 ht
      exact ⟨_, List.mem_append_right _ (List.mem_singleton_self _), rfl⟩
  case kept =>
    intro i hmem hcancelled
    rcases hi.kept i hmem hcancelled with ⟨t, ht, htid⟩ | ⟨hrepeat, f, hf, hid⟩
    · refine .inl ⟨t, ?_, htid⟩
      rw [hb] at ht
      simpa [batchTimers] using ht
    · exact .inr ⟨hrepeat, f, List.mem_append_left _ hf, hid⟩

/-- **The loop of `resetTimers`.**  The repeating timers of the batch go back
into the set, each with a place of its own. -/
theorem resetLoop_insertions (now : ℤ) (list : List Timer) (m : TimerManager)
    (hsorted : m.timers.Pairwise fun s t => Timer.lt s t = true)
    (hids : ((m.timers ++ list).map Timer.id).Nodup)
    (haddrs : ((m.timers ++ list).map Timer.addr).Nodup) :
    (m.resetLoop now list).timers.Perm
        ((list.filter Timer.isRepeat).map (Timer.resetExpired · now) ++ m.timers) ∧
      ((m.resetLoop now list).timers.Pairwise fun s t => Timer.lt s t = true) ∧
      (∀ i ∈ m.resetInsertions now list, i.second = true ∧ ∀ s ∈ i.timers, s.id ≠ i.timer.id) ∧
      ∀ i ∈ m.resetInsertions now list, i.timer ∈ (m.resetLoop now list).timers := by
  induction list generalizing m with
  | nil => exact ⟨List.Perm.refl _, hsorted, by simp [resetInsertions], by simp [resetInsertions]⟩
  | cons item list ih =>
    unfold resetLoop resetInsertions
    split
    · next hrepeat =>
        set item' := item.resetExpired now
        have hid : ∀ s ∈ m.timers, s.id ≠ item'.id := by
          intro s hs heq
          rw [List.map_append, List.nodup_append] at hids
          exact hids.2.2 s.id (List.mem_map_of_mem hs) item.id (by simp) heq
        have haddr : ∀ s ∈ m.timers, s.addr ≠ item'.addr := by
          intro s hs heq
          rw [List.map_append, List.nodup_append] at haddrs
          exact haddrs.2.2 s.addr (List.mem_map_of_mem hs) item.addr (by simp) heq
        have hperm : (m.insert item').1.timers.Perm (item' :: m.timers) := insertSet_perm haddr
        have hmove : ((m.insert item').1.timers ++ list).Perm (m.timers ++ item' :: list) :=
          (hperm.append_right list).trans List.perm_middle.symm
        obtain ⟨hperm', hsorted', hins, hmem⟩ := ih (m.insert item').1
          (pairwise_insertSet hsorted haddr)
          ((hmove.map Timer.id).nodup_iff.2 (by simpa [item', Timer.resetExpired] using hids))
          ((hmove.map Timer.addr).nodup_iff.2 (by simpa [item', Timer.resetExpired] using haddrs))
        refine ⟨?_, hsorted', ?_, ?_⟩
        · rw [List.filter_cons_of_pos hrepeat, List.map_cons]
          exact hperm'.trans ((hperm.append_left _).trans List.perm_middle)
        · intro i hi
          rcases List.mem_cons.1 hi with rfl | hi
          · exact ⟨by simp [Insertion.second, any_equiv_eq_false haddr], hid⟩
          · exact hins i hi
        · intro i hi
          rcases List.mem_cons.1 hi with rfl | hi
          · exact hperm'.mem_iff.2 (List.mem_append_right _ (hperm.mem_iff.2 List.mem_cons_self))
          · exact hmem i hi
    · next hrepeat =>
        rw [List.filter_cons_of_neg hrepeat]
        refine ih m hsorted (hids.sublist ?_) (haddrs.sublist ?_)
        · exact ((List.sublist_cons_self item list).append_left m.timers).map _
        · exact ((List.sublist_cons_self item list).append_left m.timers).map _

/-- The set and a batch that has run hold different timers. -/
theorem Distinct.nodup_done (hd : m.Distinct) {now : ℤ} {done : List Timer}
    (hb : m.expiredList = some { now, done, todo := [] }) :
    ((m.timers ++ done).map Timer.id).Nodup ∧ ((m.timers ++ done).map Timer.addr).Nodup := by
  have hheld : m.timers ++ batchTimers m.expiredList = m.timers ++ done := by
    simp [hb, batchTimers]
  have hids := hd.nodup_ids
  have haddrs := hd.nodup_addrs
  rw [hheld, List.map_append, List.nodup_append] at hids haddrs
  exact ⟨hids.1, haddrs.1⟩

/-- **A batch ends.** -/
theorem FiringInv.resetTimers (hi : FiringInv fits h) {now : ℤ} {done : List Timer}
    (hb : h.manager.expiredList = some { now, done, todo := [] })
    (hrearmed : fits → ∀ t ∈ done, t.isRepeat = true → IsInt64 (now + t.interval * 1000)) :
    FiringInv fits
      { manager := TimerManager.resetTimers { h.manager with expiredList := none } done now
        firings := h.firings
        insertions :=
          h.insertions ++ resetInsertions { h.manager with expiredList := none } now done } := by
  obtain ⟨htimers, hlist, hloop, hcreated, hlog⟩ :=
    resetTimers_frame { h.manager with expiredList := none } done now
  have hheld : h.manager.timers ++ batchTimers h.manager.expiredList =
      h.manager.timers ++ done := by
    simp [hb, batchTimers]
  obtain ⟨hids, haddrs⟩ := hi.distinct.nodup_done hb
  obtain ⟨hperm, hsorted, hins, hmem⟩ := resetLoop_insertions now done
    { h.manager with expiredList := none } hi.sorted hids haddrs
  rw [← htimers] at hperm hsorted hmem
  have hback : ∀ t ∈ done, t.isRepeat = true → t.resetExpired now ∈
      (TimerManager.resetTimers { h.manager with expiredList := none } done now).timers := by
    intro t ht hrepeat
    refine hperm.mem_iff.2 (List.mem_append_left _ (List.mem_map_of_mem ?_))
    exact List.mem_filter.2 ⟨ht, hrepeat⟩
  constructor
  case distinct => exact hi.distinct.step (.resetTimers hb)
  case sorted => exact hsorted
  case inserted =>
    intro i hmemi
    rcases List.mem_append.1 hmemi with hold | hnew
    · exact hi.inserted i hold
    · exact hins i hnew
  case due =>
    intro b hbatch
    simp [hlist] at hbatch
  case fired => simpa only [hcreated] using hi.fired
  case spaced => exact hi.spaced
  case waiting =>
    intro f hf t ht hid
    rcases List.mem_append.1 (hperm.mem_iff.1 ht) with hreset | hold
    · obtain ⟨item, hitem, rfl⟩ := List.mem_map.1 hreset
      obtain ⟨hitem, hrepeat⟩ := List.mem_filter.1 hitem
      obtain ⟨hinterval, hle⟩ := hi.done f hf _ hb item hitem hid
      refine ⟨hrepeat, hinterval, fun hfits => ?_⟩
      simp only [Timer.resetExpired, hrepeat, if_true]
      rw [Timer.addTime_eq (hrearmed hfits item hitem hrepeat)]
      exact Int.add_le_add_right (hle hfits) _
    · exact hi.waiting f hf t hold hid
  case next =>
    intro f hf b hbatch
    simp [hlist] at hbatch
  case done =>
    intro f hf b hbatch
    simp [hlist] at hbatch
  case queued => simpa only [hloop] using hi.queued
  case ran =>
    intro b hbatch
    simp [hlist] at hbatch
  case kept =>
    intro i hmemi hcancelled
    have hcancelled' : .cancelled i.timer.id ∉ h.manager.log := fun hin =>
      hcancelled (hlog.subset hin)
    rcases List.mem_append.1 hmemi with hold | hnew
    · rcases hi.kept i hold hcancelled' with ⟨t, ht, hid, hinterval⟩ | hran
      · rw [hheld] at ht
        rcases List.mem_append.1 ht with hset | hdone
        · refine .inl ⟨t, List.mem_append_left _ ?_, hid, hinterval⟩
          exact hperm.mem_iff.2 (List.mem_append_right _ hset)
        · by_cases hrepeat : t.isRepeat = true
          · exact .inl ⟨_, List.mem_append_left _ (hback t hdone hrepeat), hid, hinterval⟩
          · obtain ⟨f, hf, hfid⟩ := hi.ran _ hb t hdone
            refine .inr ⟨?_, f, hf, hfid.trans hid⟩
            rw [isRepeat_iff, hinterval, ← isRepeat_iff] at hrepeat
            simpa using hrepeat
      · exact .inr hran
    · exact .inl ⟨i.timer, List.mem_append_left _ (hmem i hnew), rfl, rfl⟩

/-- The number of a timer that is held is one that was given out. -/
theorem Distinct.lt_created (hd : m.Distinct) {t : Timer} (ht : t ∈ m.objects) :
    t.id < m.created :=
  hd.lt _ (Multiset.mem_map_of_mem _ ht)

/-- A timer that a task brings is not in the set. -/
theorem Distinct.queued_apart (hd : m.Distinct) {s t : Timer} (hs : s ∈ m.timers)
    (ht : t ∈ queuedTimers m.loop.tasks) : s.id ≠ t.id ∧ s.addr ≠ t.addr := by
  have hids := hd.nodup_ids
  have haddrs := hd.nodup_addrs
  rw [List.map_append, List.nodup_append] at hids haddrs
  exact ⟨hids.2.2 _ (List.mem_map_of_mem (List.mem_append_left _ hs)) _ (List.mem_map_of_mem ht),
    haddrs.2.2 _ (List.mem_map_of_mem (List.mem_append_left _ hs)) _ (List.mem_map_of_mem ht)⟩

/-- **Every step keeps the discipline.** -/
theorem FiringInv.step (hi : FiringInv fits h) {i : Input} {h' : History}
    (hrearmed : fits → Rearmed h i) (hstep : h.step i = some h') : FiringInv fits h' := by
  obtain ⟨m', hm, rfl⟩ := Option.map_eq_some_iff.1 hstep
  have hcases := step_cases hm
  have hdistinct := hi.distinct.step hcases
  cases hcases with
  | queueTimer haddr =>
    simp only [firings, insertions, List.append_nil]
    refine hi.frame hdistinct rfl rfl (Nat.le_succ _) (List.Subset.refl _) fun t ht => ?_
    rw [queuedTimers_addTimer, List.mem_append, List.mem_singleton] at ht
    exact ht.imp_right fun heq => by rw [heq]; rfl
  | @addTimer addr cb expired interval haddr =>
    simp only [firings, insertions, List.append_nil]
    have hcreated : FiringInv fits
        { h with manager := { h.manager with created := h.manager.created + 1 } } :=
      hi.frame (hi.distinct.of_le le_rfl (Nat.le_succ _)) rfl rfl (Nat.le_succ _)
        (List.Subset.refl _) fun t ht => .inl ht
    refine hcreated.insert hdistinct (fun s hs => ?_) (fun s hs => ?_) fun f hf => ?_
    · exact (hi.distinct.lt_created (mem_objects.2 (.inl hs))).ne
    · exact haddr s (mem_objects.2 (.inl hs))
    · exact (hi.fired f hf).2.ne'
  | queueCancel _ =>
    simp only [firings, insertions, List.append_nil]
    exact hi.frame hdistinct rfl rfl le_rfl (List.Subset.refl _) fun t ht =>
      .inl (by rwa [queuedTimers_cancel] at ht)
  | cancel _ =>
    simp only [firings, insertions, List.append_nil]
    exact hi.cancel _
  | handleExpired hnone =>
    simp only [firings, insertions, List.append_nil]
    exact hi.handleExpired hnone _ _
  | @runNext now done todo item hlist =>
    have hrun := hi.runNext hlist
    simp only [firings, insertions, hlist, List.append_nil]
    split
    · exact hrun.frame (hrun.distinct.of_le le_rfl le_rfl) rfl rfl le_rfl
        (List.subset_append_left _ _) fun t ht => .inl ht
    · exact hrun
  | @resetTimers now done hlist =>
    simp only [firings, insertions, hlist, List.append_nil]
    exact hi.resetTimers hlist fun hfits => hrearmed hfits _ hlist
  | swapTasks hq =>
    simp only [firings, insertions, List.append_nil]
    exact hi.frame hdistinct rfl rfl le_rfl (List.Subset.refl _) fun t ht =>
      .inl (by rwa [TaskQueue.tasks_swapTasks hq] at ht)
  | @nextTimer timer q hnext =>
    simp only [firings, insertions, hnext, List.append_nil]
    have hqueue := queuedTimers_nextTask hnext
    have hmem : timer ∈ queuedTimers h.manager.loop.tasks := hqueue ▸ List.mem_cons_self
    have hrest : FiringInv fits { h with manager := { h.manager with loop := q } } := by
      refine hi.frame (hi.distinct.of_le ?_ le_rfl) rfl rfl le_rfl (List.Subset.refl _)
        fun t ht => ?_
      · rw [← keys_nextTimer hnext]
        exact Multiset.le_cons_self _ _
      · rw [hqueue]
        exact .inl (List.mem_cons_of_mem _ ht)
    refine hrest.insert hdistinct (fun s hs => ?_) (fun s hs => ?_) fun f hf => ?_
    · exact (hi.distinct.queued_apart hs hmem).1
    · exact (hi.distinct.queued_apart hs hmem).2
    · exact hi.queued f hf timer hmem
  | @nextCancel id q hnext =>
    simp only [firings, insertions, hnext, List.append_nil]
    have hrest : FiringInv fits { h with manager := { h.manager with loop := q } } := by
      have hqueue := queuedTimers_nextCancel hnext
      exact hi.frame (hi.distinct.of_le (keys_of_tasks hqueue).le le_rfl) rfl rfl le_rfl
        (List.Subset.refl _) fun t ht => .inl (by rwa [hqueue] at ht)
    exact hrest.cancel id
  | endTasks hq =>
    simp only [firings, insertions, List.append_nil]
    exact hi.frame hdistinct rfl rfl le_rfl (List.Subset.refl _) fun t ht =>
      .inl (by rwa [TaskQueue.tasks_endTasks hq] at ht)

/-- A step puts no timer of the set under another key: what is new in the set
was not in it. -/
theorem mem_timers_step (hd : m.Distinct) {i : Input} {m' : TimerManager} (hstep : Step m i m')
    {s' : Timer} (hs' : s' ∈ m'.timers) : s' ∈ m.timers ∨ ∀ s ∈ m.timers, s.id ≠ s'.id := by
  cases hstep with
  | queueTimer _ | queueCancel _ | swapTasks _ | endTasks _ => exact .inl hs'
  | addTimer _ =>
    rw [(addTimerInLoop_spec _ _).1] at hs'
    rcases mem_insertSet hs' with rfl | hs'
    · exact .inr fun s hs => (hd.lt_created (mem_objects.2 (.inl hs))).ne
    · exact .inl hs'
  | cancel _ => exact .inl ((cancelInLoop_sublist _ _).subset hs')
  | handleExpired _ =>
    refine .inl ?_
    rw [← getExpired_append m.timers]
    exact List.mem_append_right _ hs'
  | runNext _ =>
    dsimp only at hs'
    split at hs'
    · exact .inl hs'
    · exact .inl hs'
  | @resetTimers now done hlist =>
    rw [(resetTimers_frame _ _ _).1] at hs'
    rcases (resetLoop_spec now done _).1 s' hs' with hs' | ⟨t, ht, -, hid⟩
    · exact .inl hs'
    · refine .inr fun s hs => hid ▸ hd.apart s hs t ?_
      rw [hlist]
      exact List.mem_append_left _ ht
  | nextTimer hnext =>
    rw [(addTimerInLoop_spec _ _).1] at hs'
    rcases mem_insertSet hs' with rfl | hs'
    · refine .inr fun s hs => (hd.queued_apart hs ?_).1
      rw [queuedTimers_nextTask hnext]
      exact List.mem_cons_self
    · exact .inl hs'
  | @nextCancel id q _ =>
    exact .inl ((cancelInLoop_sublist { m with loop := q } id).subset hs')

/-- The invariant says the discipline, whether the expiries fit or not. -/
theorem FiringInv.discipline (hi : FiringInv fits h) : Discipline h := by
  refine hi.discipline_of fun i h' hstep s hs s' hs' hid => ?_
  obtain ⟨m', hm, rfl⟩ := Option.map_eq_some_iff.1 hstep
  rcases mem_timers_step hi.distinct (step_cases hm) hs' with hold | hnew
  · exact hi.distinct.eq_of_id (mem_objects.2 (.inl hold)) (mem_objects.2 (.inl hs)) hid.symm
  · exact absurd hid (hnew s hs)

/-- The invariant says the distance of the runs where the expiries fit. -/
theorem FiringInv.spaced_of (hi : FiringInv fits h) (hfits : fits) : Spaced h :=
  hi.spaced.imp fun hspaced hid => (hspaced hid).2 hfits

/-- The invariant holds before anything happens. -/
theorem firingInv_init : FiringInv fits History.init := by
  constructor
  · exact distinct_init
  all_goals simp [History.init, TimerManager.init]

/-- **The firing discipline.**  In every state of every run, with any clock
readings and with any additions and cancellations, from the callbacks too; and
where no re-armed expiry overflows, the runs of a timer are an interval apart. -/
theorem firing_discipline (is : List Input) :
    Always History.step Discipline History.init is ∧
    (Steps History.step Rearmed History.init is →
      Always History.step Spaced History.init is) := by
  refine ⟨?_, fun hsteps => ?_⟩
  · have hinv : Always History.step (FiringInv False) History.init is :=
      always_invariant (fun _ _ _ hi hstep => hi.step False.elim hstep) firingInv_init
    exact hinv.mono fun _ hi => hi.discipline
  · have hinv : Always History.step (FiringInv True) History.init is :=
      always_of_steps (fun _ _ _ hi hgood hstep => hi.step (fun _ => hgood) hstep)
        firingInv_init hsteps
    exact hinv.mono fun _ hi => hi.spaced_of trivial

/-- A repeating timer that is added for a time, runs in a batch soon after, and
once more in a batch at `again`. -/
def runsTwice (interval again : ℤ) : List Input :=
  [.addTimer false 1 true 1700000001000000 interval, .handleExpired 1700000001000100 2, .runNext,
    .resetTimers, .handleExpired again 2, .runNext, .resetTimers]

/-- A timer of one second, in batches a little more than that apart. -/
theorem firing_discipline_two :
    Always History.step Spaced History.init (runsTwice 1000 1700000002000200) := by
  refine (firing_discipline _).2 (.cons trivial rfl (.cons trivial rfl (.cons trivial rfl
    (.cons ?_ rfl (.cons trivial rfl (.cons trivial rfl (.cons ?_ rfl trivial)))))))
  · rintro _ ⟨rfl⟩ t ht -
    obtain rfl := List.mem_singleton.1 ht
    decide
  · rintro _ ⟨rfl⟩ t ht -
    obtain rfl := List.mem_singleton.1 ht
    decide

/-- **A timer with the largest interval runs again at once.**  `interval * 1000`
is `-1000` in `int64_t`, and its next expiry has passed. -/
theorem rearmed_in_the_past :
    ¬ ∀ is : List Input, Always History.step (fun h => Discipline h ∧ Spaced h)
      History.init is := by
  intro h
  have hlast := (h (runsTwice (2 ^ 63 - 1) 1700000001000300)).last rfl
  have hspaced := (List.pairwise_pair.1 hlast.2) rfl
  exact absurd hspaced (by decide)

/-- A history records a run of the manager, and every run can be recorded. -/
theorem run_history (h : History) (is : List Input) :
    (run History.step h is).map History.manager = run TimerManager.step h.manager is := by
  induction is generalizing h with
  | nil => rfl
  | cons i is ih =>
    rw [run_cons, run_cons]
    rcases hm : TimerManager.step h.manager i with _ | m'
    · simp [History.step, hm]
    · simp only [History.step, hm, Option.map_some, Option.bind_some, ih]

end TimerManager
end Net
end Sevent
