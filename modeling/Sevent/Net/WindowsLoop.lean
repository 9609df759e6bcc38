/-
# The timers of a loop on Windows

`sevent/net/TimerManager.cpp`, `sevent/net/EventLoop.cpp` and
`sevent/net/WakeupChannel.cpp`, where `_WIN32` is defined.

There is no timerfd: `loop` asks `getNextTimeout` how long `poll` may wait, and
calls `handleExpired` after every `poll`, whether or not a timer has expired.
`getNextTimeout` converts the time left, an `int64_t`, to an `int`; it fits when
the first timer expires within `2 ^ 31` milliseconds (`timeoutOk_iff`).

`handleExpired` ends with `resetTimers`, which calls `wakeup` whenever there are
timers, that is, writes a byte to the socket whose other end is polled.  If the
wakeup channel is active in the same iteration, it is handled afterwards and
reads that byte too; if not, the byte is there for the next `poll`, which returns
at once.  So an idle loop with a timer waits in every second iteration only
(`idle_run`).

An iteration is one step here, with what callbacks, tasks and other threads do
in it.  A byte in the socket is known by its number and by who wrote it.  A clock
reading is not negative, so that no difference of times overflows.
-/

import Sevent.Lib.Bytes
import Sevent.Net.TimerFiring
import Mathlib.Algebra.Order.Ring.Nat

namespace Sevent
namespace Net
namespace WindowsLoop

open Bytes

/-! ### `getNextTimeout` -/

/-- `EventLoop::pollTimeout`, in milliseconds: how long a poll waits when no timer is
nearer. -/
def pollTimeout : ℤ := 10000

/-- `TimerManager::getNextTimeout`, when `Timestamp::now()` is `now`. -/
def getNextTimeout (timers : List Timer) (now : ℤ) : ℤ :=
  match timers.head? with
  | none => pollTimeout
  | some first =>
    if first.expired ≤ now then 0 else toInt ((first.expired - now).tdiv 1000)

/-- The earliest expiry. -/
def earliest (timers : List Timer) : Option ℤ := (timers.map Timer.expired).min?

/-- What a timeout of `poll` must be: not negative, and the time left to the
earliest expiry, if there is one, in whole milliseconds. -/
def TimeoutOk (timers : List Timer) (now timeout : ℤ) : Prop :=
  0 ≤ timeout ∧ ∀ expired, earliest timers = some expired →
    timeout * 1000 ≤ max 0 (expired - now) ∧ max 0 (expired - now) < (timeout + 1) * 1000

/-- The first timer of the set is the first to expire. -/
theorem earliest_cons {first : Timer} {timers : List Timer}
    (h : (first :: timers).Pairwise fun s t => Timer.lt s t = true) :
    earliest (first :: timers) = some first.expired := by
  refine List.min?_eq_some_iff.2 ⟨List.mem_cons_self, fun expired hexpired => ?_⟩
  obtain ⟨t, ht, rfl⟩ := List.mem_map.1 hexpired
  rcases List.mem_cons.1 ht with rfl | ht
  · exact le_rfl
  · have hlt := TimerManager.lt_iff.1 ((List.pairwise_cons.1 h).1 t ht)
    omega

/-- **When the timeout is right**: the first timer expires within `2 ^ 31`
milliseconds. -/
theorem timeoutOk_iff {timers : List Timer} (h : timers.Pairwise fun s t => Timer.lt s t = true)
    (now : ℤ) : TimeoutOk timers now (getNextTimeout timers now) ↔
      ∀ expired, earliest timers = some expired → expired - now < 2 ^ 31 * 1000 := by
  cases timers with
  | nil =>
    constructor
    · intro _ expired hnone
      cases hnone
    · intro _
      exact ⟨by simp [getNextTimeout, pollTimeout], fun expired hnone => by cases hnone⟩
  | cons first timers =>
    have hfirst := earliest_cons h
    unfold TimeoutOk getNextTimeout
    simp only [hfirst, List.head?_cons, Option.some.injEq, forall_eq']
    split
    case isTrue hle => omega
    case isFalse hlt =>
      have hdiv : (first.expired - now).tdiv 1000 = (first.expired - now) / 1000 :=
        Int.tdiv_eq_ediv_of_nonneg (by omega)
      rw [hdiv]
      have hto := toInt_eq_iff ((first.expired - now) / 1000)
      have hbound := toInt_lt ((first.expired - now) / 1000)
      rw [max_eq_right (by omega)]
      constructor
      · rintro ⟨-, -, hleft⟩
        omega
      · intro hleft
        rw [hto.2 (by omega)]
        omega

end WindowsLoop

/-! ### The loop -/

/-- Who writes to the wakeup channel. -/
inductive Writer
  | timerManager
  | other
  deriving DecidableEq, Repr

/-- The timers of a loop and the bytes in its wakeup channel, with their
numbers; `written` is the next number. -/
structure WindowsLoop where
  timers : List Timer
  bytes : List (ℕ × Writer)
  written : ℕ

namespace WindowsLoop

/-- `WakeupChannel::wakeup`: one more byte, with who has written it. -/
def wakeup (s : WindowsLoop) (writer : Writer) : WindowsLoop :=
  { s with bytes := s.bytes ++ [(s.written, writer)], written := s.written + 1 }

/-- `WakeupChannel::handleRead`: all bytes are read. -/
def handleRead (s : WindowsLoop) : WindowsLoop := { s with bytes := [] }

/-- What callbacks, tasks and other threads do. -/
inductive Act
  | addTimer (timer : Timer)
  | cancel (timer : Timer)
  | wakeup
  deriving DecidableEq, Repr

/-- `TimerManager::addTimerInLoop`, `TimerManager::cancelInLoop` and
`EventLoop::wakeup`. -/
def act (s : WindowsLoop) : Act → WindowsLoop
  | .addTimer timer =>
    let isChanged := match s.timers.head? with
      | none => true
      | some first => decide (timer.expired < first.expired)
    let s := { s with timers := TimerManager.insertSet s.timers timer }
    if isChanged then s.wakeup .timerManager else s
  | .cancel timer => { s with timers := s.timers.filter fun t => !Timer.equiv timer t }
  | .wakeup => s.wakeup .other

def acts (s : WindowsLoop) (list : List Act) : WindowsLoop := list.foldl act s

/-- `TimerManager::resetTimers`: the repeating timers go back into the set, and the
loop is woken unless that is empty. -/
def resetTimers (s : WindowsLoop) (list : List Timer) (now : ℤ) : WindowsLoop :=
  let timers := (list.filter Timer.isRepeat).foldl
    (fun timers item => TimerManager.insertSet timers (item.resetExpired now)) s.timers
  let s := { s with timers := timers }
  if timers.isEmpty then s else s.wakeup .timerManager

/-- What happens in an iteration besides the calls of `loop`. -/
structure Iteration where
  /-- Calls of `wakeup` by other threads until `poll` returns. -/
  polled : ℕ
  /-- The clock in `handleExpired`, and the address of its probe. -/
  now : ℤ
  tpAddr : ℕ
  /-- What the callbacks of expired timers do. -/
  callback : Timer → List Act
  /-- What happens before and after the turn of the wakeup channel. -/
  before : List Act
  after : List Act

/-- `TimerManager::handleExpired`: the expired timers are taken out, and their
callbacks run one after another before any of them is armed again. -/
def handleExpired (s : WindowsLoop) (it : Iteration) : WindowsLoop :=
  let (expiredList, timers) := TimerManager.getExpired s.timers it.now it.tpAddr
  let s := expiredList.foldl (fun s item => s.acts (it.callback item)) { s with timers := timers }
  s.resetTimers expiredList it.now

/-- The state when `poll` returns. -/
def poll (s : WindowsLoop) (it : Iteration) : WindowsLoop :=
  s.acts (List.replicate it.polled .wakeup)

/-- An iteration of `loop`.  The wakeup channel is active if there was a byte
when `poll` returned. -/
def iterate (s : WindowsLoop) (it : Iteration) : WindowsLoop :=
  let s := s.poll it
  let active := !s.bytes.isEmpty
  let s := (s.handleExpired it).acts it.before
  let s := if active then s.handleRead else s
  s.acts it.after

/-! ### What an iteration leaves in the wakeup channel -/

/-- No timer expires in the iteration and none is added, so that none is put back
either. -/
def Quiet (s : WindowsLoop) (it : Iteration) : Prop :=
  (TimerManager.getExpired s.timers it.now it.tpAddr).1 = [] ∧
    ∀ timer, .addTimer timer ∉ it.before ++ it.after

/-- Every byte that is new has been written by somebody else. -/
def NoNewByte (s s' : WindowsLoop) : Prop := ∀ b ∈ s'.bytes, b ∉ s.bytes → b.2 = .other

variable {s s' : WindowsLoop} {it : Iteration} {list : List Act}

/-- What others write is added to what is there. -/
theorem bytes_acts (s : WindowsLoop) (h : ∀ timer, .addTimer timer ∉ list) :
    ∃ new, (s.acts list).bytes = s.bytes ++ new ∧ ∀ b ∈ new, b.2 = .other := by
  induction list generalizing s with
  | nil => exact ⟨[], (List.append_nil _).symm, fun b hb => by cases hb⟩
  | cons a list ih =>
    obtain ⟨new, hnew, hother⟩ :=
      ih (s.act a) fun timer hmem => h timer (List.mem_cons_of_mem _ hmem)
    cases a with
    | addTimer timer => exact absurd List.mem_cons_self (h timer)
    | cancel timer => exact ⟨new, hnew, hother⟩
    | wakeup =>
      refine ⟨(s.written, .other) :: new, ?_, fun b hb => ?_⟩
      · exact hnew.trans (List.append_assoc ..)
      · rcases List.mem_cons.1 hb with rfl | hb
        · rfl
        · exact hother b hb

/-- Other threads leave the timers alone while `poll` waits. -/
theorem poll_timers (s : WindowsLoop) (it : Iteration) : (s.poll it).timers = s.timers := by
  unfold poll
  induction it.polled generalizing s with
  | zero => rfl
  | succ n ih => exact ih (s.act .wakeup)

theorem length_poll (s : WindowsLoop) (it : Iteration) :
    (s.poll it).bytes.length = s.bytes.length + it.polled := by
  unfold poll
  induction it.polled generalizing s with
  | zero => rfl
  | succ n ih =>
    refine (ih (s.act .wakeup)).trans ?_
    have hone : (s.act .wakeup).bytes.length = s.bytes.length + 1 := List.length_append
    omega

/-- When the wakeup channel is active. -/
theorem poll_bytes_ne_nil_iff : (s.poll it).bytes ≠ [] ↔ s.bytes ≠ [] ∨ 0 < it.polled := by
  rw [← List.length_pos_iff, ← List.length_pos_iff, length_poll]
  omega

/-- **`handleExpired` when no timer has expired.** -/
theorem handleExpired_quiet (h : (TimerManager.getExpired s.timers it.now it.tpAddr).1 = []) :
    s.handleExpired it = if s.timers.isEmpty then s else s.wakeup .timerManager := by
  have hall := TimerManager.getExpired_append s.timers it.now it.tpAddr
  rw [h, List.nil_append] at hall
  unfold handleExpired resetTimers
  dsimp only
  rw [h, hall]
  rfl

/-- **A quiet iteration leaves a byte of its own exactly when there are timers and
the wakeup channel is not active.** -/
theorem noNewByte_iff (h : Quiet s it) :
    NoNewByte s (s.iterate it) ↔ s.timers = [] ∨ s.bytes ≠ [] ∨ 0 < it.polled := by
  have hbefore : ∀ timer, Act.addTimer timer ∉ it.before := fun timer hmem =>
    h.2 timer (List.mem_append_left _ hmem)
  have hafter : ∀ timer, Act.addTimer timer ∉ it.after := fun timer hmem =>
    h.2 timer (List.mem_append_right _ hmem)
  have hexpired : (TimerManager.getExpired (s.poll it).timers it.now it.tpAddr).1 = [] := by
    rw [poll_timers]
    exact h.1
  obtain ⟨new, hnew, hother⟩ := bytes_acts ((s.poll it).handleExpired it) hbefore
  rw [handleExpired_quiet hexpired, poll_timers] at hnew
  rw [← poll_bytes_ne_nil_iff]
  unfold iterate
  dsimp only
  by_cases hactive : (s.poll it).bytes = []
  · obtain ⟨new', hnew', hother'⟩ :=
      bytes_acts (((s.poll it).handleExpired it).acts it.before) hafter
    have hnone : s.bytes = [] := by
      have hlen := length_poll s it
      rw [hactive, List.length_nil] at hlen
      exact List.eq_nil_of_length_eq_zero (by omega)
    simp only [hactive, List.isEmpty_nil, Bool.not_true, Bool.false_eq_true, if_false, ne_eq,
      not_true_eq_false, or_false]
    unfold NoNewByte
    rw [hnew', handleExpired_quiet hexpired, poll_timers, hnew, hnone]
    cases htimers : s.timers with
    | nil =>
      simp only [List.isEmpty_nil, if_true, hactive, List.nil_append, iff_true]
      intro b hb _
      exact (List.mem_append.1 hb).elim (hother b) (hother' b)
    | cons first timers =>
      -- the byte of `resetTimers` stays
      simp only [List.isEmpty_cons, Bool.false_eq_true, if_false, reduceCtorEq, iff_false]
      intro hall
      have hwritten := hall ((s.poll it).written, .timerManager) (by simp [wakeup, hactive])
        List.not_mem_nil
      cases hwritten
  · obtain ⟨new', hnew', hother'⟩ :=
      bytes_acts (((s.poll it).handleExpired it).acts it.before).handleRead hafter
    have hisEmpty : (s.poll it).bytes.isEmpty = false := by simpa using hactive
    simp only [hisEmpty, Bool.not_false, if_true, ne_eq, hactive, not_false_eq_true, or_true,
      iff_true]
    intro b hb _
    rw [hnew'] at hb
    exact hother' b hb

/-- **The timers of a loop on Windows.**  The timeout of `poll` is right exactly
when the first timer expires within `2 ^ 31` milliseconds, or there is none; and
an iteration in which no timer expires and none is added leaves no byte of its
own exactly when there is no timer or the wakeup channel is active anyway. -/
theorem windows_timers_iff (timers : List Timer) (now : ℤ) (s : WindowsLoop) (it : Iteration) :
    ((timers.Pairwise fun s t => Timer.lt s t = true) →
      (TimeoutOk timers now (getNextTimeout timers now) ↔
        ∀ expired, earliest timers = some expired → expired - now < 2 ^ 31 * 1000)) ∧
    (Quiet s it →
      (NoNewByte s (s.iterate it) ↔ s.timers = [] ∨ s.bytes ≠ [] ∨ 0 < it.polled)) :=
  ⟨fun h => timeoutOk_iff h now, fun h => noNewByte_iff h⟩

/-- A timer, in a set of its own. -/
def lone (expired : ℤ) : Timer :=
  { id := 0, addr := 1, timerCallback := true, expired := expired, interval := 0 }

/-- An iteration in which nothing happens. -/
def nothing (now : ℤ) : Iteration where
  polled := 0
  now := now
  tpAddr := 2
  callback _ := []
  before := []
  after := []

theorem windows_timers_lone :
    TimeoutOk [lone 5000000] 0 (getNextTimeout [lone 5000000] 0) ∧
      NoNewByte ⟨[], [], 0⟩ (iterate ⟨[], [], 0⟩ (nothing 0)) :=
  have h := windows_timers_iff [lone 5000000] 0 ⟨[], [], 0⟩ (nothing 0)
  ⟨(h.1 (List.pairwise_singleton _ _)).2 (by decide),
    (h.2 ⟨by decide, by simp [nothing]⟩).2 (.inl rfl)⟩

/-- A timer that expires in `2 ^ 31` milliseconds gives a negative timeout, and
each timer a byte in an iteration in which nothing happens. -/
theorem windows_timers_fail :
    ¬ TimeoutOk [lone 2147483648000] 0 (getNextTimeout [lone 2147483648000] 0) ∧
      ¬ NoNewByte ⟨[lone 5000000], [], 0⟩ (iterate ⟨[lone 5000000], [], 0⟩ (nothing 0)) := by
  constructor
  · intro h
    exact absurd h.1 (by decide)
  · intro h
    cases h (0, .timerManager) (by decide) (by decide)

/-! ### An idle loop -/

/-- An iteration in which no timer expires and nobody does anything. -/
structure Idle (s : WindowsLoop) (it : Iteration) : Prop where
  expired : (TimerManager.getExpired s.timers it.now it.tpAddr).1 = []
  polled : it.polled = 0
  before : it.before = []
  after : it.after = []

/-- A step of an idle loop with a timer: it writes a byte, or reads the one that
is there together with the one that it writes. -/
theorem iterate_idle (h : Idle s it) (hne : s.timers ≠ []) :
    (s.iterate it).timers = s.timers ∧ ((s.iterate it).bytes = [] ↔ s.bytes ≠ []) := by
  have hpoll : s.poll it = s := by
    unfold poll
    rw [h.polled]
    rfl
  have hexpired : s.handleExpired it = s.wakeup .timerManager := by
    rw [handleExpired_quiet h.expired, if_neg (by simpa using hne)]
  unfold iterate
  dsimp only
  rw [hpoll, hexpired, h.before, h.after]
  cases hbytes : s.bytes with
  | nil => exact ⟨rfl, by simp [acts, wakeup]⟩
  | cons b bytes => exact ⟨rfl, by simp [acts, handleRead]⟩

/-- **Every second iteration of an idle loop with a timer finds a byte.** -/
theorem idle_run {its : List Iteration} (h : ∀ it ∈ its, Idle s it) (hne : s.timers ≠ [])
    (hbytes : s.bytes = []) : (its.foldl iterate s).bytes = [] ↔ its.length % 2 = 0 := by
  have hrun : ∀ (its : List Iteration) (s : WindowsLoop), (∀ it ∈ its, Idle s it) →
      s.timers ≠ [] → ((its.foldl iterate s).bytes = [] ↔ (s.bytes = [] ↔ its.length % 2 = 0)) := by
    intro its
    induction its with
    | nil => intro s _ _; simp
    | cons it its ih =>
      intro s h hne
      obtain ⟨htimers, hstep⟩ := iterate_idle (h it List.mem_cons_self) hne
      have hnext : ∀ it' ∈ its, Idle (s.iterate it) it' := fun it' hit' => by
        have hidle := h it' (List.mem_cons_of_mem _ hit')
        exact ⟨htimers ▸ hidle.expired, hidle.polled, hidle.before, hidle.after⟩
      rw [List.foldl_cons, ih _ hnext (htimers ▸ hne), hstep, List.length_cons]
      by_cases hs : s.bytes = []
      · simp only [hs, ne_eq, not_true_eq_false, false_iff, true_iff]
        omega
      · simp only [hs, ne_eq, not_false_eq_true, true_iff, false_iff]
        omega
  rw [hrun its s h hne]
  simp [hbytes]

end WindowsLoop
end Net
end Sevent
