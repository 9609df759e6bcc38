/-
# `TimerfdChannel`: the timerfd and the earliest timer

`sevent/net/TimerfdChannel.cpp`, `sevent/net/TimerManager.cpp`.

The timerfd of a loop is a one-shot timer.  `addTimerInLoop` arms it when the
new timer is the earliest, `cancelInLoop` never touches it, and after a batch
`resetTimers` arms it for the earliest timer that is left.  `resetExpired`
turns an expiry into the seconds and nanoseconds from now on, at least 100
microseconds.  Its difference is one of `int64_t`: an expiry that lies too far
in the past comes out as one far in the future.

A step of the manager is recorded with the clock and the timerfd.  The log of
the manager says what it arms; the kernel's part is `Timerfd`.  Times are
microseconds and a deadline is in nanoseconds; reading the clock and
`timerfd_settime` happen at one instant.  `timerfd_covers` shows that the
timerfd is never later than the earliest timer needs, in the runs in which it is
armed for differences that fit (`Within`).
-/

import Sevent.Net.TimerFiring

namespace Sevent
namespace Net

open Transition TimerManager Bytes

/-- `struct timespec`. -/
structure Timespec where
  tv_sec : ℤ
  tv_nsec : ℤ
  deriving DecidableEq, Repr

/-- An armed timerfd: when it was armed, and its deadline in nanoseconds. -/
structure Armed where
  since : ℤ
  deadline : ℤ
  deriving DecidableEq, Repr

/-- The kernel's side: `ticks` when it has fired and was not read since. -/
structure Timerfd where
  armed : Option Armed
  ticks : Bool
  deriving DecidableEq, Repr

namespace Timerfd

/-- `timerfd_settime` of a one-shot timer, with a relative time. -/
def settime (fd : Timerfd) (now : ℤ) (v : Timespec) : Timerfd :=
  if v.tv_sec < 0 ∨ v.tv_nsec < 0 ∨ 1000000000 ≤ v.tv_nsec then fd
  else if v.tv_sec = 0 ∧ v.tv_nsec = 0 then { armed := none, ticks := false }
  else
    { armed := some
        { since := now, deadline := now * 1000 + v.tv_sec * 1000000000 + v.tv_nsec }
      ticks := false }

/-- The clock reaches `now`. -/
def expire (fd : Timerfd) (now : ℤ) : Timerfd :=
  match fd.armed with
  | some a => if a.deadline ≤ now * 1000 then { armed := none, ticks := true } else fd
  | none => fd

/-- `read`; it fails when there is nothing to read. -/
def read (fd : Timerfd) : Timerfd := { fd with ticks := false }

end Timerfd

namespace TimerfdChannel

/-- The `it_value` that `TimerfdChannel::resetExpired` computes; the difference is
one of `int64_t`. -/
def itValue (expired now : ℤ) : Timespec :=
  let relTime := toInt64 (expired - now)
  let relTime := if relTime < 100 then 100 else relTime
  { tv_sec := relTime.tdiv 1000000, tv_nsec := relTime.tmod 1000000 * 1000 }

/-- `TimerfdChannel::resetExpired`. -/
def resetExpired (fd : Timerfd) (now expired : ℤ) : Timerfd := fd.settime now (itValue expired now)

/-- The calls of `resetExpired` among what the manager does. -/
def armsOf (acts : List Act) : List ℤ :=
  acts.filterMap fun a => match a with
    | .arm expired => some expired
    | _ => none

/-- The timers of a loop with the clock and the timerfd.  `active` when the
poller has reported the timerfd and `handleRead` is still to come. -/
structure State where
  history : History
  clock : ℤ
  timerfd : Timerfd
  active : Bool

namespace State

def timers (s : State) : List Timer := s.history.manager.timers

/-- The loop's thread may be in the poller: no batch and no task is running. -/
def mayBlock (s : State) : Bool :=
  s.history.manager.expiredList.isNone && !s.history.manager.loop.isTasking

end State

def init (clock : ℤ) : State where
  history := .init
  clock := clock
  timerfd := { armed := none, ticks := false }
  active := false

/-- Time passes, the poller returns, `handleRead` is called, or the manager does
something else. -/
inductive Input
  | advance (d : ℕ)
  | poll
  | handleRead (tpAddr : ℕ)
  | manager (i : TimerManager.Input)
  deriving DecidableEq, Repr

/-- What a step of the manager does to the timerfd. -/
def rearm (s : State) (h : History) : State :=
  { s with
    history := h
    timerfd := (armsOf (h.manager.log.drop s.history.manager.log.length)).foldl
      (fun fd expired => resetExpired fd s.clock expired) s.timerfd }

def step (s : State) : Input → Option State
  | .advance d =>
    some { s with clock := s.clock + d, timerfd := s.timerfd.expire (s.clock + d) }
  | .poll => if s.mayBlock && !s.active then some { s with active := s.timerfd.ticks } else none
  | .handleRead tpAddr =>
    if s.active then
      let s := { s with active := false, timerfd := s.timerfd.read }
      (History.step s.history (.handleExpired s.clock tpAddr)).map (rearm s)
    else none
  | .manager (.handleExpired _ _) => none
  | .manager i => (History.step s.history i).map (rearm s)

/-- The timerfd is armed for no later than the earliest timer, or 100
microseconds after it was armed. -/
def Covers (fd : Timerfd) (timers : List Timer) : Prop :=
  ∃ a, fd.armed = some a ∧ ∀ t ∈ timers, a.deadline ≤ 1000 * max t.expired (a.since + 100)

/-- **Where the loop may block with timers**, the timerfd covers the earliest,
or it has fired and the read event is still to be dispatched. -/
def Covered (s : State) : Prop :=
  s.mayBlock = true → s.timers ≠ [] →
    Covers s.timerfd s.timers ∨ s.timerfd.ticks = true ∨ s.active = true

/-- The timers that the set holds once a batch has ended. -/
def rearmed (s : State) (b : Batch) : List Timer :=
  s.timers ++ (b.done.filter Timer.isRepeat).map (Timer.resetExpired · b.now)

/-- **Where a step arms the timerfd**, the difference between that expiry and the
clock is one of `int64_t`: for a timer that enters the set as the earliest, and
for the earliest of those that are there when a batch has ended. -/
def Within (s : State) : Input → Prop
  | .manager (.addTimer false _ _ expired _) =>
    (∀ t ∈ s.timers, expired < t.expired) → IsInt64 (expired - s.clock)
  | .manager .nextTask => ∀ timer q,
    s.history.manager.loop.nextTask = some (.addTimerInLoop timer, q) →
      (∀ t ∈ s.timers, timer.expired < t.expired) → IsInt64 (timer.expired - s.clock)
  | .manager .resetTimers => ∀ b, s.history.manager.expiredList = some b → ∀ first ∈ rearmed s b,
      (∀ t ∈ rearmed s b, first.expired ≤ t.expired) → IsInt64 (first.expired - s.clock)
  | _ => True

/-! ### The time that is written -/

/-- **The seconds and nanoseconds** denote the difference as the code has it. -/
theorem itValue_spec (expired now : ℤ) :
    0 ≤ (itValue expired now).tv_sec ∧ 0 ≤ (itValue expired now).tv_nsec ∧
      (itValue expired now).tv_nsec < 1000000000 ∧
      (itValue expired now).tv_sec * 1000000000 + (itValue expired now).tv_nsec =
        1000 * max (toInt64 (expired - now)) 100 := by
  have hspec : ∀ relTime : ℤ, 100 ≤ relTime →
      0 ≤ relTime.tdiv 1000000 ∧ 0 ≤ relTime.tmod 1000000 * 1000 ∧
        relTime.tmod 1000000 * 1000 < 1000000000 ∧
        relTime.tdiv 1000000 * 1000000000 + relTime.tmod 1000000 * 1000 = 1000 * relTime := by
    intro relTime hrel
    rw [Int.tdiv_eq_ediv_of_nonneg (by omega), Int.tmod_eq_emod_of_nonneg (by omega)]
    omega
  unfold itValue
  dsimp only
  split_ifs with hclamp
  · rw [max_eq_right (by omega)]
    exact hspec 100 (by omega)
  · rw [max_eq_left (by omega)]
    exact hspec _ (by omega)

/-- **The difference is denoted** where it is one of `int64_t`. -/
theorem itValue_eq {expired now : ℤ} (h : IsInt64 (expired - now)) :
    (itValue expired now).tv_sec * 1000000000 + (itValue expired now).tv_nsec =
      1000 * max (expired - now) 100 := by
  rw [(itValue_spec expired now).2.2.2, (toInt64_eq_iff _).2 h]

/-- A difference that is too small is denoted by a large one. -/
theorem isInt64_of_itValue_eq {expired now : ℤ} (hexpired : IsInt64 expired) (hnow : 0 ≤ now)
    (hlast : now + 100 < 2 ^ 63)
    (h : (itValue expired now).tv_sec * 1000000000 + (itValue expired now).tv_nsec =
      1000 * max (expired - now) 100) : IsInt64 (expired - now) := by
  rw [(itValue_spec expired now).2.2.2] at h
  unfold toInt64 at h
  rw [Int.bmod_def] at h
  unfold IsInt64 at *
  omega

/-- `resetExpired` arms the timerfd. -/
theorem resetExpired_eq (fd : Timerfd) {now expired : ℤ} (h : IsInt64 (expired - now)) :
    resetExpired fd now expired =
      { armed := some { since := now, deadline := 1000 * max expired (now + 100) }
        ticks := false } := by
  obtain ⟨hsec, hnsec, hlt, -⟩ := itValue_spec expired now
  have heq := itValue_eq h
  have hmax : 1000 * max expired (now + 100) = now * 1000 + 1000 * max (expired - now) 100 := by
    omega
  unfold resetExpired Timerfd.settime
  rw [if_neg (by omega), if_neg (by omega), hmax, ← heq, Int.add_assoc]

/-! ### One step -/

/-- `Covered` whatever the loop is doing: a task of the loop keeps it too. -/
def Ready (s : State) : Prop :=
  s.timers ≠ [] → Covers s.timerfd s.timers ∨ s.timerfd.ticks = true ∨ s.active = true

/-- What every step keeps. -/
structure Inv (s : State) : Prop where
  firing : FiringInv False s.history
  ready : s.history.manager.expiredList = none → Ready s

variable {s s' : State}

theorem Inv.covered (h : Inv s) : Covered s := by
  intro hblock
  have hnone := (Bool.and_eq_true_iff.1 hblock).1
  exact h.ready (Option.isNone_iff_eq_none.1 hnone)

theorem Covers.mono {fd : Timerfd} {timers timers' : List Timer} (h : Covers fd timers)
    (hsub : timers' ⊆ timers) : Covers fd timers' := by
  obtain ⟨a, ha, hle⟩ := h
  exact ⟨a, ha, fun t ht => hle t (hsub ht)⟩

/-- Arming covers the timers that are not earlier. -/
theorem covers_resetExpired (fd : Timerfd) {now expired : ℤ} (hfits : IsInt64 (expired - now))
    {timers : List Timer} (h : ∀ t ∈ timers, expired ≤ t.expired) :
      Covers (resetExpired fd now expired) timers := by
  refine ⟨{ since := now, deadline := 1000 * max expired (now + 100) }, ?_, fun t ht => ?_⟩
  · rw [resetExpired_eq fd hfits]
  · have hle := h t ht
    dsimp only
    omega

/-- The first timer of the set is the earliest. -/
theorem first_le {first : Timer} {rest : List Timer}
    (h : (first :: rest).Pairwise fun t t' => Timer.lt t t' = true) :
    ∀ t ∈ first :: rest, first.expired ≤ t.expired := by
  intro t ht
  rcases List.mem_cons.1 ht with rfl | ht
  · exact le_rfl
  · have hlt := lt_iff.1 ((List.pairwise_cons.1 h).1 t ht)
    omega

theorem rearm_timerfd (s : State) (h : History) {acts : List Act}
    (hlog : h.manager.log = s.history.manager.log ++ acts) :
    (rearm s h).timerfd = (armsOf acts).foldl
      (fun fd expired => resetExpired fd s.clock expired) s.timerfd := by
  unfold rearm
  rw [hlog, List.drop_left]

/-- A step that arms nothing and adds no timer. -/
theorem Ready.keep (h : Ready s) {h' : History} {acts : List Act}
    (hlog : h'.manager.log = s.history.manager.log ++ acts) (harms : armsOf acts = [])
    (hsub : h'.manager.timers ⊆ s.timers) : Ready (rearm s h') := by
  have hfd : (rearm s h').timerfd = s.timerfd := by rw [rearm_timerfd s h' hlog, harms]; rfl
  intro hne
  have hold : s.timers ≠ [] := fun hnil => hne (List.subset_nil.1 (hnil ▸ hsub))
  rw [hfd]
  exact (h hold).imp_left fun hcovers => hcovers.mono hsub

/-- What `addTimerInLoop` does to the log. -/
theorem addTimerInLoop_log (m : TimerManager) (t : Timer) :
    (m.addTimerInLoop t).log = m.log ++
      if (m.insert t).2 = true then [.arm t.expired] else [] := by
  unfold addTimerInLoop
  dsimp only
  split_ifs
  · rfl
  · exact (List.append_nil _).symm

theorem insert_eq_true {m : TimerManager} {t : Timer} : (m.insert t).2 = true ↔
    ∀ first ∈ m.timers.head?, t.expired < first.expired := by
  unfold TimerManager.insert
  cases m.timers.head? <;> simp

/-- A timer that is earlier than the first is earlier than all. -/
theorem lt_of_insert {m : TimerManager} {t : Timer} (h : (m.insert t).2 = true)
    (hsorted : m.timers.Pairwise fun t t' => Timer.lt t t' = true) :
    ∀ t' ∈ m.timers, t.expired < t'.expired := by
  intro t' ht'
  have hlt := insert_eq_true.1 h
  obtain ⟨first, rest, hcons⟩ := List.exists_cons_of_ne_nil (List.ne_nil_of_mem ht')
  rw [hcons] at hlt ht' hsorted
  have hle := first_le hsorted t' ht'
  have hfirst := hlt first rfl
  omega

/-- **An insertion keeps the timerfd ready**: it is armed when the timer is the
earliest, and otherwise an earlier one is covered. -/
theorem Ready.addTimer (h : Ready s) {m : TimerManager} (t : Timer) {h' : History}
    (hm : h'.manager = m.addTimerInLoop t) (htimers : m.timers = s.timers)
    (hlog : m.log = s.history.manager.log)
    (hsorted : s.timers.Pairwise fun t t' => Timer.lt t t' = true)
    (hwithin : (∀ t' ∈ s.timers, t.expired < t'.expired) → IsInt64 (t.expired - s.clock)) :
    Ready (rearm s h') := by
  have hlog' := (congrArg TimerManager.log hm).trans (addTimerInLoop_log m t)
  rw [hlog] at hlog'
  have hset : ∀ t' ∈ (rearm s h').timers, t' = t ∨ t' ∈ s.timers := by
    intro t' ht'
    have hspec := (congrArg TimerManager.timers hm).trans (addTimerInLoop_spec m t).1
    exact htimers ▸ mem_insertSet (hspec ▸ ht')
  have hfd := rearm_timerfd s h' hlog'
  by_cases hchanged : (m.insert t).2 = true
  · -- every timer of the set is later
    have hlt := lt_of_insert hchanged (htimers ▸ hsorted)
    rw [htimers] at hlt
    rw [if_pos hchanged] at hfd
    refine fun _ => Or.inl ?_
    rw [hfd]
    refine covers_resetExpired s.timerfd (hwithin hlt) fun t' ht' => ?_
    rcases hset t' ht' with rfl | hold
    · exact le_rfl
    · exact (hlt t' hold).le
  · rw [if_neg hchanged] at hfd
    obtain ⟨first, hfirst, hle⟩ : ∃ first ∈ s.timers, first.expired ≤ t.expired := by
      rw [insert_eq_true, htimers] at hchanged
      obtain ⟨first, hchanged⟩ := not_forall.1 hchanged
      obtain ⟨hhead, hle⟩ := Classical.not_imp.1 hchanged
      exact ⟨first, List.mem_of_mem_head? hhead, not_lt.1 hle⟩
    intro _
    rw [hfd]
    refine (h (List.ne_nil_of_mem hfirst)).imp_left ?_
    rintro ⟨a, ha, hcovers⟩
    refine ⟨a, ha, fun t' ht' => ?_⟩
    rcases hset t' ht' with rfl | hold
    · have hbound := hcovers first hfirst
      omega
    · exact hcovers t' hold

/-- **The end of a batch arms the timerfd** for the earliest timer. -/
theorem ready_resetTimers (s : State) {m : TimerManager} {done : List Timer} {now : ℤ}
    {h' : History} (hm : h'.manager = m.resetTimers done now)
    (hlog : m.log = s.history.manager.log)
    (hsorted : h'.manager.timers.Pairwise fun t t' => Timer.lt t t' = true)
    (hwithin : ∀ first ∈ h'.manager.timers, (∀ t ∈ h'.manager.timers, first.expired ≤ t.expired) →
      IsInt64 (first.expired - s.clock)) :
    Ready (rearm s h') := by
  intro hne
  have hframe := (resetLoop_frame now done m).2.2.2
  obtain ⟨first, rest, hcons⟩ := List.exists_cons_of_ne_nil hne
  have hcons' : h'.manager.timers = first :: rest := hcons
  have htimers : (m.resetLoop now done).timers = h'.manager.timers := by
    rw [hm]
    unfold TimerManager.resetTimers
    dsimp only
    split <;> rfl
  have hlog' : h'.manager.log = s.history.manager.log ++ [.arm first.expired] := by
    rw [hm, ← hlog, ← hframe]
    unfold TimerManager.resetTimers
    dsimp only
    rw [htimers, hcons']
    rfl
  have hfd := rearm_timerfd s h' hlog'
  rw [hcons'] at hsorted hwithin
  have hle := first_le hsorted
  rw [hfd, hcons]
  exact Or.inl (covers_resetExpired s.timerfd (hwithin first List.mem_cons_self hle) hle)

/-- When a batch has ended, the set holds what it held and the repeating timers. -/
theorem mem_rearmed (h : FiringInv False s.history) {b : Batch} (htodo : b.todo = [])
    (hb : s.history.manager.expiredList = some b) (t : Timer) :
    t ∈ rearmed s b ↔ t ∈ (TimerManager.resetTimers { s.history.manager with expiredList := none }
      b.done b.now).timers := by
  obtain ⟨now, done, todo⟩ := b
  obtain rfl : todo = [] := htodo
  obtain ⟨hids, haddrs⟩ := h.distinct.nodup_done hb
  have hperm := (resetLoop_insertions now done { s.history.manager with expiredList := none }
    h.sorted hids haddrs).1
  rw [(resetTimers_frame _ _ _).1, hperm.mem_iff, List.mem_append, rearmed, List.mem_append]
  exact or_comm

/-- Every step of the manager that ends outside a batch. -/
theorem ready_manager (h : Inv s) {i : TimerManager.Input} {h' : History}
    (hwithin : Within s (.manager i)) (hstep : History.step s.history i = some h')
    (hnone : h'.manager.expiredList = none) : Ready (rearm s h') := by
  have hfiring := h.firing.step False.elim hstep
  obtain ⟨m', hm', rfl⟩ := Option.map_eq_some_iff.1 hstep
  cases step_cases hm' with
  | queueTimer _ =>
    exact (h.ready hnone).keep (List.append_nil _).symm rfl (List.Subset.refl _)
  | @addTimer addr cb expired interval _ =>
    let m : TimerManager :=
      { s.history.manager with created := s.history.manager.created + 1 }
    let timer := s.history.manager.newTimer addr cb expired interval
    have hold : m.expiredList = none := (addTimerInLoop_spec m timer).2.1.symm.trans hnone
    exact (h.ready hold).addTimer _ rfl rfl rfl h.firing.sorted hwithin
  | queueCancel _ =>
    exact (h.ready hnone).keep (List.append_nil _).symm rfl (List.Subset.refl _)
  | cancel _ =>
    have hold := (cancelInLoop_expiredList s.history.manager _).symm.trans hnone
    exact (h.ready hold).keep (cancelInLoop_log _ _) rfl (cancelInLoop_sublist _ _).subset
  | handleExpired _ => cases hnone
  | runNext hlist =>
    -- the batch goes on
    dsimp only at hnone
    split at hnone <;> cases hnone
  | resetTimers hlist =>
    refine ready_resetTimers s rfl rfl hfiring.sorted fun first hfirst hle => ?_
    have hmem := mem_rearmed h.firing rfl hlist
    exact hwithin _ hlist first ((hmem first).2 hfirst) fun t ht => hle t ((hmem t).1 ht)
  | swapTasks hq => exact (h.ready hnone).keep (List.append_nil _).symm rfl (List.Subset.refl _)
  | @nextTimer timer q hq =>
    let m : TimerManager := { s.history.manager with loop := q }
    have hold : m.expiredList = none := (addTimerInLoop_spec m timer).2.1.symm.trans hnone
    exact (h.ready hold).addTimer _ rfl rfl rfl h.firing.sorted (hwithin timer q hq)
  | @nextCancel id q hq =>
    let m : TimerManager := { s.history.manager with loop := q }
    have hold : m.expiredList = none := (cancelInLoop_expiredList m id).symm.trans hnone
    exact (h.ready hold).keep (cancelInLoop_log m id) rfl (cancelInLoop_sublist m id).subset
  | endTasks hq => exact (h.ready hnone).keep (List.append_nil _).symm rfl (List.Subset.refl _)

/-- The clock keeps the timerfd ready: it fires or it stays armed. -/
theorem ready_advance (h : Ready s) (now : ℤ) :
    Ready { s with clock := now, timerfd := s.timerfd.expire now } := by
  intro hne
  unfold Timerfd.expire
  rcases h hne with ⟨a, ha, hle⟩ | hticks | hactive
  · dsimp only
    rw [ha]
    dsimp only
    split_ifs
    · exact Or.inr (Or.inl rfl)
    · exact Or.inl ⟨a, ha, hle⟩
  · refine Or.inr (Or.inl ?_)
    dsimp only
    split
    · split_ifs
      · rfl
      · exact hticks
    · exact hticks
  · exact Or.inr (Or.inr hactive)

/-- **Every step keeps the invariant.** -/
theorem inv_step {i : Input} (h : Inv s) (hwithin : Within s i) (hstep : step s i = some s') :
    Inv s' := by
  cases i with
  | advance d =>
    obtain rfl := Option.some.inj hstep
    exact ⟨h.firing, fun hnone => ready_advance (h.ready hnone) (s.clock + d)⟩
  | poll =>
    obtain ⟨hblock, hstep⟩ := Option.ite_none_right_eq_some.1 hstep
    obtain rfl := Option.some.inj hstep
    have hidle : s.active = false := by
      simpa using (Bool.and_eq_true_iff.1 hblock).2
    refine ⟨h.firing, fun hnone hne => ?_⟩
    rcases h.ready hnone hne with hcovers | hticks | hactive
    · exact Or.inl hcovers
    · exact Or.inr (Or.inl hticks)
    · rw [hidle] at hactive
      cases hactive
  | handleRead tpAddr =>
    obtain ⟨-, hstep⟩ := Option.ite_none_right_eq_some.1 hstep
    obtain ⟨h', hbegin, rfl⟩ := Option.map_eq_some_iff.1 hstep
    refine ⟨h.firing.step False.elim hbegin, fun hnone => ?_⟩
    -- the batch has begun
    obtain ⟨m', hm', rfl⟩ := Option.map_eq_some_iff.1 hbegin
    cases step_cases hm'
    cases hnone
  | manager i =>
    have hmanager : ∃ h', History.step s.history i = some h' ∧ rearm s h' = s' := by
      cases i with
      | handleExpired now tpAddr => cases hstep
      | _ => exact Option.map_eq_some_iff.1 hstep
    obtain ⟨h', hrecord, rfl⟩ := hmanager
    exact ⟨h.firing.step False.elim hrecord, ready_manager h hwithin hrecord⟩

theorem inv_init (clock : ℤ) : Inv (init clock) :=
  ⟨firingInv_init, fun _ hne => absurd rfl hne⟩

/-- **The timerfd covers the earliest timer** wherever the loop may block, in the
runs whose differences fit.  What `resetExpired` writes is never zero and always
a valid `timespec`; it denotes the relative time when the difference fits, and
for times of `int64_t` only then. -/
theorem timerfd_covers (clock : ℤ) (is : List Input) :
    (Steps step Within (init clock) is → Always step Covered (init clock) is) ∧
    (∀ expired now : ℤ,
      ¬ ((itValue expired now).tv_sec = 0 ∧ (itValue expired now).tv_nsec = 0) ∧
      0 ≤ (itValue expired now).tv_sec ∧ 0 ≤ (itValue expired now).tv_nsec ∧
      (itValue expired now).tv_nsec < 1000000000 ∧
      (IsInt64 (expired - now) →
        (itValue expired now).tv_sec * 1000000000 + (itValue expired now).tv_nsec =
          1000 * max (expired - now) 100)) ∧
    ∀ expired now : ℤ, IsInt64 expired → 0 ≤ now → now + 100 < 2 ^ 63 →
      (itValue expired now).tv_sec * 1000000000 + (itValue expired now).tv_nsec =
        1000 * max (expired - now) 100 → IsInt64 (expired - now) := by
  refine ⟨fun hsteps => ?_, fun expired now => ?_, fun expired now => ?_⟩
  · have hinv : Always step Inv (init clock) is :=
      always_of_steps (fun _ _ _ h hwithin hstep => inv_step h hwithin hstep)
        (inv_init clock) hsteps
    exact hinv.mono fun _ h => h.covered
  · obtain ⟨hsec, hnsec, hlt, heq⟩ := itValue_spec expired now
    exact ⟨by omega, hsec, hnsec, hlt, itValue_eq⟩
  · exact isInt64_of_itValue_eq

/-- A timer of five seconds that fires and is run, with one of a minute behind
it. -/
theorem timerfd_covers_two :
    Always step Covered (init 1700000000000000)
      [.manager (.addTimer false 1 true 1700000005000000 0),
        .manager (.addTimer false 2 true 1700000060000000 0), .advance 5000000, .poll,
        .handleRead 3, .manager .runNext, .manager .resetTimers, .poll] := by
  refine (timerfd_covers _ _).1 (.cons ?_ rfl (.cons ?_ rfl (.cons trivial rfl (.cons trivial rfl
    (.cons trivial rfl (.cons trivial rfl (.cons ?_ rfl (.cons trivial rfl trivial))))))))
  · exact fun _ => by decide
  · exact fun _ => by decide
  · rintro _ ⟨rfl⟩ first hfirst -
    obtain rfl := List.mem_singleton.1 hfirst
    decide

/-- **An expiry that overflowed.**  A delay of `9223372036854775` milliseconds
makes an expiry far in the past, for which the timerfd is armed far in the
future; and then a timer of five seconds is not the earliest, so that after ten
seconds the timerfd has not fired. -/
theorem armed_far_ahead :
    ∃ s, run step (init 1700000000000000)
        [.manager (.addTimer false 1 true (Timer.addTime 1700000000000000 9223372036854775) 0),
          .manager (.addTimer false 2 true (Timer.addTime 1700000000000000 5000) 0),
          .advance 10000000, .poll] = some s ∧
      s.timers.map Timer.expired = [-9221672036854776616, 1700000005000000] ∧
      s.timerfd.ticks = false ∧ ¬ Covered s := by
  refine ⟨_, rfl, by decide, by decide, fun hcovered => ?_⟩
  rcases hcovered (by decide) (by decide) with ⟨a, ha, hle⟩ | hticks | hactive
  · obtain rfl := Option.some.inj ha
    exact absurd (hle _ List.mem_cons_self) (by decide)
  · cases hticks
  · cases hactive

end TimerfdChannel

end Net
end Sevent
