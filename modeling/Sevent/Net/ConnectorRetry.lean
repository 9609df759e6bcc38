/-
# The retry schedule

The `i`-th retry of a `connect` should come `min (500 * 2 ^ (i - 1)) 30000`
milliseconds after the failure that caused it.  `retry` doubles `retryMs` up to
the bound, and `connect` sets `retryCur` again but not `retryMs`: the delays go
on from where the last `connect` left them (`Inv.delays`, which holds in every
run).

`onSchedule_iff` is exact: the delays are right in every state of a run if and
only if no retry is scheduled after a retry of an earlier `connect`.  What the
count and the events should do they always do: one event schedules at most one
retry, also where `Channel::handleEvent` calls `handleError` and `handleWrite`,
and a `connect` schedules at most `retryCount` of them.
-/

import Sevent.Net.ConnectorStop
import Sevent.Lib.Run
import Mathlib.Algebra.Order.Ring.Int

namespace Sevent
namespace Net
namespace Connector

open Transition

/-- The delays of the retries that a step has scheduled, from the time of the
step on: of its new timers those that run `doconnect`. -/
def retriesOf (w : Connector) (i : Input) (w' : Connector) : List ℤ :=
  ((w'.timers.drop (w.kept i).length).filter fun t => t.2 = .doconnect).map fun t => t.1 - w.clock

/-- A connector and its retries: how many belong to earlier `connect`s, the
delays of those since the most recent one, and how many the last move has
scheduled. -/
structure Retries where
  conn : Connector
  earlier : ℕ
  delays : List ℤ
  burst : ℕ

namespace Retries

/-- A connector whose `retryCount` is `N`. -/
def new (N : ℤ) : Retries where
  conn := { Connector.new with retryCount := N }
  earlier := 0
  delays := []
  burst := 0

/-- A step from the connector of `h` to `w'`, written down. -/
def note (h : Retries) (i : Input) (w' : Connector) : Retries :=
  let rs := h.conn.retriesOf i w'
  if h.conn.connects i then
    { conn := w', earlier := h.earlier + h.delays.length, delays := rs
      burst := h.burst + rs.length }
  else { h with conn := w', delays := h.delays ++ rs, burst := h.burst + rs.length }

/-- A step, or one event of the channel with all that `handleEvent` calls. -/
inductive Move
  | step (i : Input)
  | event (revents : Service.Revents) (soError : ℕ) (selfConnect : Bool)
  deriving DecidableEq, Repr

/-- The calls of `handleEvent`, written down. -/
def noteEvent (h : Retries) (revents : Service.Revents) (soError : ℕ) (selfConnect : Bool) :
    Retries :=
  let h := if revents.POLLERR || revents.POLLNVAL then
    h.note .handleError h.conn.handleError else h
  if revents.POLLOUT then
    h.note (.handleWrite soError selfConnect) (h.conn.handleWrite soError selfConnect)
  else h

/-- `retryCount` stays what it is. -/
def keeps (N : ℤ) : Input → Bool
  | .setRetryCount count => count = N
  | _ => true

/-- A step of the connector, or an event of its channel, whose handlers count as
one burst. -/
def move (N : ℤ) (h : Retries) : Move → Option Retries
  | .step i =>
    if keeps N i then (step h.conn i).map (({ h with burst := 0 } : Retries).note i) else none
  | .event revents soError selfConnect =>
    if h.conn.closing = [] then
      some (({ h with burst := 0 } : Retries).noteEvent revents soError selfConnect)
    else none

/-- The delay of retry `i`, counted from 0. -/
def delay (i : ℕ) : ℤ := min (500 * 2 ^ i) 30000

/-- **The retries keep to the schedule.** -/
structure OnSchedule (N : ℤ) (h : Retries) : Prop where
  delays : h.delays = (List.range h.delays.length).map delay
  count : 0 ≤ N → (h.delays.length : ℤ) ≤ N
  burst : h.burst ≤ 1

/-- The move schedules a retry. -/
def Retrying (h : Retries) : Move → Prop
  | .step i => (step h.conn i).isSome ∧ h.conn.Schedules i
  | .event revents soError selfConnect =>
    h.conn.closing = [] ∧ h.conn.state = .connecting ∧ h.conn.schedule.Retries ∧
      (revents.POLLERR ∨ revents.POLLNVAL ∨ revents.POLLOUT ∧ (soError ≠ 0 ∨ selfConnect))

/-- The retries of the `connect`s before the one that the step belongs to. -/
def before (h : Retries) (i : Input) : ℕ :=
  if h.conn.connects i then h.earlier + h.delays.length else h.earlier

/-- The condition: a retry is scheduled only while no earlier `connect` had
one. -/
def First (h : Retries) : Move → Prop
  | .step i => h.Retrying (.step i) → h.before i = 0
  | .event revents soError selfConnect =>
    h.Retrying (.event revents soError selfConnect) → h.earlier = 0

/-! ### The delays -/

/-- The delay of the next retry is the last one doubled, up to the bound. -/
theorem backoff_delay (n : ℕ) : Schedule.backoff (delay n) = delay (n + 1) := by
  unfold Schedule.backoff delay maxRetryDelayMs
  rw [pow_succ]
  split <;> omega

/-- Only the first delay is the first one; so a retry with it follows none of an
earlier connect. -/
theorem delay_eq_first {n : ℕ} (h : delay n = delay 0) : n = 0 := by
  cases n with
  | zero => rfl
  | succ n =>
    have hpos : (1 : ℤ) ≤ 2 ^ n := one_le_pow₀ (by decide)
    unfold delay at h
    rw [pow_succ, pow_zero] at h
    omega

/-- One delay more. -/
theorem range_map_succ {α : Type*} (f : ℕ → α) (n : ℕ) :
    (List.range (n + 1)).map f = (List.range n).map f ++ [f n] := by
  rw [List.range_succ, List.map_append, List.map_singleton]

/-! ### What every run keeps -/

/-- **The delays that the code uses.**  They go on from `connect` to
`connect`. -/
structure Inv (N : ℤ) (h : Retries) : Prop where
  count : h.conn.retryCount = N
  delay : h.conn.retryMs = delay (h.earlier + h.delays.length)
  delays : h.delays = (List.range h.delays.length).map fun i => Retries.delay (h.earlier + i)
  left : 0 ≤ N → h.conn.isStop = true ∧ h.delays = [] ∨
    0 ≤ h.conn.retryCur ∧ h.conn.retryCur + h.delays.length = N

variable {N : ℤ} {h : Retries} {i : Input} {w w' : Connector}

/-- A new connector has made no retries, and its next delay is the first. -/
theorem inv_new (N : ℤ) : Inv N (Retries.new N) :=
  ⟨rfl, rfl, rfl, fun _ => .inl ⟨rfl, rfl⟩⟩

/-- What the last move has scheduled does not matter. -/
theorem Inv.fresh (hinv : Inv N h) : Inv N { h with burst := 0 } :=
  ⟨hinv.count, hinv.delay, hinv.delays, hinv.left⟩

/-- A step schedules no retry, or one. -/
theorem retriesOf_eq (hstep : step w i = some w') :
    w.retriesOf i w' = if w.Schedules i then [w.retryMs] else [] := by
  have htimers := (Schedule.apply_timers w.schedule (w.beat i)).1
  rw [← schedule_step hstep, kept_beat] at htimers
  have htimed : (w.schedule.timed (w.beat i)).filter (fun t => t.2 = .doconnect) = [] := by
    unfold Schedule.timed
    split
    · split <;> rfl
    · rfl
  unfold retriesOf
  rw [show w'.timers = _ from htimers, List.append_assoc, List.drop_left, List.filter_append,
    htimed, List.append_nil]
  unfold Schedule.retried
  by_cases hs : w.Schedules i
  · rw [if_pos hs, if_pos (by exact hs)]
    simp [schedule]
  · rw [if_neg hs, if_neg (by exact hs)]
    rfl

/-- Writing a step down keeps the connector of the step. -/
theorem note_conn (h : Retries) (i : Input) (w' : Connector) : (h.note i w').conn = w' := by
  unfold note
  dsimp only
  split <;> rfl

/-- What is written down about earlier connects. -/
theorem note_earlier (h : Retries) (i : Input) (w' : Connector) :
    (h.note i w').earlier = h.before i := by
  unfold note before
  dsimp only
  split <;> rfl

/-- What is written down about the delays: a connect begins a new list. -/
theorem note_delays (h : Retries) (i : Input) (w' : Connector) : (h.note i w').delays =
    (if h.conn.connects i then [] else h.delays) ++ h.conn.retriesOf i w' := by
  unfold note
  dsimp only
  split <;> rfl

/-- What is written down about the burst: the retries of one event are added up. -/
theorem note_burst (h : Retries) (i : Input) (w' : Connector) :
    (h.note i w').burst = h.burst + (h.conn.retriesOf i w').length := by
  unfold note
  dsimp only
  split <;> rfl

/-- What the step starts from: the retries of this `connect` so far. -/
def mine (h : Retries) (i : Input) : List ℤ := if h.conn.connects i then [] else h.delays

/-- The retries before the current connect and those that are its own are all
that were made. -/
theorem before_mine (h : Retries) (i : Input) :
    h.before i + (h.mine i).length = h.earlier + h.delays.length := by
  unfold before mine
  split <;> rfl

/-- The delays of the retries of this connect are those of consecutive numbers,
behind the retries of the earlier ones. -/
theorem Inv.mine (hinv : Inv N h) (i : Input) :
    h.mine i = (List.range (h.mine i).length).map fun j => Retries.delay (h.before i + j) := by
  unfold Retries.mine before
  split
  · rfl
  · exact hinv.delays

/-- What a step that schedules a retry finds. -/
theorem schedules_spec (hs : w.Schedules i) : ((∃ a, w.beat i = .connect a) ∨ w.isStop = false) ∧
    w.schedule.budget (w.beat i) ≠ 0 := by
  unfold Schedules at hs
  cases hb : w.beat i with
  | connect a =>
    rw [hb] at hs
    exact ⟨.inl ⟨a, rfl⟩, hs.2⟩
  | doconnect k a =>
    rw [hb] at hs
    exact ⟨.inr hs.2.1, hs.2.2⟩
  | retry =>
    rw [hb] at hs
    exact ⟨.inr hs.1, hs.2⟩
  | _ =>
    rw [hb] at hs
    exact hs.elim

/-- The flag and the count of retries that are left. -/
theorem Inv.left_step (hinv : Inv N h) (hkeeps : keeps N i = true)
    (hstep : step h.conn i = some w') : w'.retryCount = N ∧
      (0 ≤ N → w'.isStop = true ∧ h.mine i = [] ∧ ¬ h.conn.Schedules i ∨
        0 ≤ h.conn.schedule.budget (h.conn.beat i) ∧
        h.conn.schedule.budget (h.conn.beat i) + (h.mine i).length = N) := by
  obtain ⟨-, hcount, -, hstop⟩ := Schedule.apply_rest h.conn.schedule (h.conn.beat i)
  rw [← schedule_step hstep] at hcount hstop
  refine ⟨?_, fun hN => ?_⟩
  · split at hcount
    case h_1 count hbeat =>
      rw [show i = .setRetryCount count from origin_of_beat hbeat] at hkeeps
      exact hcount.trans (of_decide_eq_true hkeeps)
    case h_2 => exact hcount.trans hinv.count
  · unfold Retries.mine
    cases hconn : h.conn.connects i with
    | true =>
      obtain ⟨a, hbeat⟩ := beat_of_connects hconn
      right
      rw [hbeat, if_pos rfl]
      exact ⟨hN.trans_eq hinv.count.symm, (add_zero _).trans hinv.count⟩
    | false =>
      have hne : ∀ a, h.conn.beat i ≠ .connect a := fun a ha =>
        Bool.false_ne_true (hconn.symm.trans (connects_of_beat hstep ha))
      rw [if_neg Bool.false_ne_true]
      rcases hinv.left hN with ⟨hstopped, hnil⟩ | hleft
      · refine .inl ⟨(stopped_step hstopped hconn hstep).1, hnil, fun hs => ?_⟩
        have hrun : h.conn.isStop = false :=
          (schedules_spec hs).1.resolve_left fun ⟨a, ha⟩ => hne a ha
        exact Bool.false_ne_true (hrun.symm.trans hstopped)
      · have hbudget : h.conn.schedule.budget (h.conn.beat i) = h.conn.retryCur := by
          unfold Schedule.budget
          split
          case h_1 a ha => exact absurd ha (hne a)
          case h_2 => rfl
        rw [hbudget]
        exact .inr hleft

/-- **A step goes on with the delays.** -/
theorem Inv.note (hinv : Inv N h) (hkeeps : keeps N i = true) (hstep : step h.conn i = some w') :
    Inv N (h.note i w') := by
  obtain ⟨-, hms, hcur⟩ := Schedule.apply_timers h.conn.schedule (h.conn.beat i)
  rw [← schedule_step hstep] at hms hcur
  obtain ⟨hcount, hleft⟩ := hinv.left_step hkeeps hstep
  have hdelays : (h.note i w').delays =
      h.mine i ++ if h.conn.Schedules i then [h.conn.retryMs] else [] := by
    rw [note_delays, retriesOf_eq hstep]
    rfl
  have hdelay : h.conn.retryMs = Retries.delay (h.before i + (h.mine i).length) := by
    rw [before_mine]
    exact hinv.delay
  by_cases hs : h.conn.Schedules i
  · rw [if_pos hs] at hdelays
    have hlength : (h.note i w').delays.length = (h.mine i).length + 1 := by
      rw [hdelays, List.length_append, List.length_singleton]
    refine ⟨?_, ?_, ?_, fun hN => ?_⟩
    · rw [note_conn]
      exact hcount
    · have hms' : w'.retryMs = Schedule.backoff h.conn.retryMs := hms.trans (if_pos hs)
      rw [note_conn, note_earlier, hlength, hms', hdelay, backoff_delay, Nat.add_assoc]
    · rw [hlength, range_map_succ, note_earlier, ← hinv.mine, hdelays, hdelay]
    · have hcur' : w'.retryCur =
          Schedule.spend (h.conn.schedule.budget (h.conn.beat i)) := hcur.trans (if_pos hs)
      rw [note_conn, hlength, hcur']
      rcases hleft hN with ⟨-, -, hnot⟩ | ⟨hpos, hsum⟩
      · exact absurd hs hnot
      · have hne := (schedules_spec hs).2
        unfold Schedule.spend
        right
        split <;> omega
  · rw [if_neg hs, List.append_nil] at hdelays
    refine ⟨?_, ?_, ?_, fun hN => ?_⟩
    · rw [note_conn]
      exact hcount
    · have hms' : w'.retryMs = h.conn.retryMs := hms.trans (if_neg hs)
      rw [note_conn, note_earlier, hdelays, hms', hdelay]
    · rw [hdelays, note_earlier]
      exact hinv.mine i
    · have hcur' : w'.retryCur = h.conn.schedule.budget (h.conn.beat i) := hcur.trans (if_neg hs)
      rw [note_conn, hdelays, hcur']
      exact (hleft hN).imp (fun hl => ⟨hl.1, hl.2.1⟩) id

/-! ### The condition -/

/-- At most one `connect` so far has had retries, and it is the most recent
one. -/
def Only (h : Retries) : Prop := h.earlier = 0 ∨ h.delays = []

/-- With the delays that the code uses, the claimed ones. -/
theorem Inv.delays_iff (hinv : Inv N h) :
    h.delays = (List.range h.delays.length).map Retries.delay ↔ h.Only := by
  unfold Only
  have hreal := hinv.delays
  cases hlen : h.delays.length with
  | zero =>
    have hnil := List.eq_nil_of_length_eq_zero hlen
    exact iff_of_true hnil (.inr hnil)
  | succ n =>
    rw [hlen] at hreal
    refine ⟨fun hclaim => .inl ?_, fun hone => ?_⟩
    · rw [hreal] at hclaim
      have hfirst := congrArg List.head? hclaim
      rw [List.range_succ_eq_map] at hfirst
      exact delay_eq_first (Option.some.inj hfirst)
    · rcases hone with hzero | hnil
      · simpa only [hzero, Nat.zero_add] using hreal
      · rw [hnil] at hlen
        cases hlen

/-- **The three parts of the property, from what the code does.** -/
theorem Inv.onSchedule (hinv : Inv N h) (hone : h.Only) (hburst : h.burst ≤ 1) :
    OnSchedule N h := by
  refine ⟨hinv.delays_iff.2 hone, fun hN => ?_, hburst⟩
  rcases hinv.left hN with ⟨-, hnil⟩ | ⟨hpos, hsum⟩
  · rw [hnil]
    exact hN
  · omega

/-- What `note` writes for a step. -/
theorem note_spec (h : Retries) (hstep : step h.conn i = some w') :
    (h.note i w').delays = h.mine i ++ (if h.conn.Schedules i then [h.conn.retryMs] else []) ∧
      (h.note i w').burst = h.burst + if h.conn.Schedules i then 1 else 0 := by
  rw [note_delays, note_burst, retriesOf_eq hstep]
  refine ⟨rfl, ?_⟩
  split <;> rfl

/-- A step that is no `connect`. -/
theorem mine_of_not_connects (hconn : h.conn.connects i = false) :
    h.mine i = h.delays ∧ h.before i = h.earlier := by
  unfold mine before
  rw [hconn]
  exact ⟨rfl, rfl⟩

/-- A step keeps it that one connect at most has had retries, if a retry it
schedules has none of an earlier connect before it. -/
theorem Only.note (hone : h.Only) (hstep : step h.conn i = some w')
    (hfirst : h.conn.Schedules i → h.before i = 0) : (h.note i w').Only := by
  unfold Only
  rw [note_earlier, (note_spec h hstep).1]
  by_cases hs : h.conn.Schedules i
  · exact .inl (hfirst hs)
  · rw [if_neg hs, List.append_nil]
    cases hconn : h.conn.connects i with
    | true =>
      unfold mine
      rw [hconn]
      exact .inr rfl
    | false =>
      rw [(mine_of_not_connects hconn).1, (mine_of_not_connects hconn).2]
      exact hone

/-- What a move does to the retries: those of earlier `connect`s are `e` if it
schedules one, and `R` says whether it does. -/
structure Noted (N : ℤ) (h h' : Retries) (e : ℕ) (R : Prop) : Prop where
  inv : Inv N h → Inv N h'
  retry : R → h'.earlier = e ∧ h'.delays ≠ [] ∧ h'.burst = h.burst + 1
  quiet : ¬ R → (h.Only → h'.Only) ∧ h'.burst = h.burst

/-- A step. -/
theorem note_noted (hkeeps : keeps N i = true) (hstep : step h.conn i = some w') :
    Noted N h (h.note i w') (h.before i) (h.conn.Schedules i) := by
  obtain ⟨hdelays, hburst⟩ := note_spec h hstep
  refine ⟨fun hinv => hinv.note hkeeps hstep, fun hs => ?_, fun hs => ?_⟩
  · rw [if_pos hs] at hdelays hburst
    refine ⟨note_earlier h i w', ?_, hburst⟩
    rw [hdelays]
    exact List.append_ne_nil_of_right_ne_nil _ (List.cons_ne_nil _ _)
  · rw [if_neg hs] at hburst
    exact ⟨fun hone => hone.note hstep fun hs' => absurd hs' hs, hburst⟩

/-- A call in an event that schedules nothing. -/
theorem Noted.quiet_note {h' : Retries} {e : ℕ} {R : Prop} (hnoted : Noted N h h' e R)
    (hkeeps : keeps N i = true) (hconn : h'.conn.connects i = false)
    (hs : ¬ h'.conn.Schedules i) (hstep : step h'.conn i = some w') :
    Noted N h (h'.note i w') e R := by
  obtain ⟨hdelays, hburst⟩ := note_spec h' hstep
  obtain ⟨hmine, hbefore⟩ := mine_of_not_connects hconn
  rw [if_neg hs] at hdelays hburst
  rw [hmine, List.append_nil] at hdelays
  refine ⟨fun hinv => (hnoted.inv hinv).note hkeeps hstep, fun hr => ?_, fun hr => ?_⟩
  · obtain ⟨hearlier, hne, hburst'⟩ := hnoted.retry hr
    rw [note_earlier, hbefore, hdelays, hburst]
    exact ⟨hearlier, hne, hburst'⟩
  · obtain ⟨hone, hburst'⟩ := hnoted.quiet hr
    exact ⟨fun h0 => (hone h0).note hstep fun hs' => absurd hs' hs, hburst.trans hburst'⟩

/-- What was noted may be stated in another way. -/
theorem Noted.congr {h' : Retries} {e : ℕ} {R R' : Prop} (hnoted : Noted N h h' e R)
    (hiff : R ↔ R') : Noted N h h' e R' :=
  ⟨hnoted.inv, fun hr => hnoted.retry (hiff.2 hr), fun hr => hnoted.quiet (mt hiff.1 hr)⟩

/-! ### An event -/

variable {revents : Service.Revents} {soError : ℕ} {selfConnect : Bool}

/-- `handleError` schedules a retry while connecting, when there are retries
left. -/
theorem schedules_handleError :
    w.Schedules .handleError ↔ w.state = .connecting ∧ w.schedule.Retries := by
  unfold Schedules beat
  dsimp only
  split
  case isTrue hs => exact (and_iff_right hs).symm
  case isFalse hs => exact iff_of_false id fun hr => hs hr.1

/-- `handleWrite` schedules a retry while connecting, when there are retries
left and the socket has an error or is connected to itself. -/
theorem schedules_handleWrite : w.Schedules (.handleWrite soError selfConnect) ↔
    w.state = .connecting ∧ w.schedule.Retries ∧ (soError ≠ 0 ∨ selfConnect = true) := by
  unfold Schedules beat
  dsimp only
  split
  case isTrue hs =>
    by_cases hretry : soError ≠ 0 ∨ selfConnect = true
    · rw [if_pos hretry]
      exact ⟨fun hr => ⟨hs, hr, hretry⟩, fun hr => hr.2.1⟩
    · rw [if_neg hretry]
      exact iff_of_false id fun hr => hretry hr.2.2
  case isFalse hs => exact iff_of_false id fun hr => hs hr.1

/-- **One event, at most one retry.**  Where `handleError` runs it leaves no
attempt to `handleWrite`. -/
theorem noteEvent_noted (hclosing : h.conn.closing = []) :
    Noted N h (h.noteEvent revents soError selfConnect) h.earlier
      (h.Retrying (.event revents soError selfConnect)) := by
  have herror : step h.conn .handleError = some h.conn.handleError := if_pos hclosing
  unfold noteEvent
  by_cases he : (revents.POLLERR || revents.POLLNVAL) = true
  · rw [if_pos he]
    have hiff : h.conn.Schedules .handleError ↔
        h.Retrying (.event revents soError selfConnect) := by
      rw [schedules_handleError]
      unfold Retrying
      rw [Bool.or_eq_true] at he
      refine ⟨fun hr => ⟨hclosing, hr.1, hr.2, ?_⟩, fun hr => ⟨hr.2.1, hr.2.2.1⟩⟩
      exact he.imp id fun hnval => .inl hnval
    have hnoted : Noted N h (h.note .handleError h.conn.handleError) h.earlier
        (h.Retrying (.event revents soError selfConnect)) := (note_noted rfl herror).congr hiff
    obtain ⟨hidle, hrest⟩ := handleError_rest h.conn
    dsimp only
    split
    · refine hnoted.quiet_note rfl rfl ?_ ?_
      · rw [note_conn, schedules_handleWrite]
        exact fun hr => hidle hr.1
      · rw [note_conn]
        exact if_pos (hrest.trans hclosing)
    · exact hnoted
  · rw [if_neg he]
    have hno : ¬ (revents.POLLERR = true ∨ revents.POLLNVAL = true) := by
      rwa [Bool.or_eq_true] at he
    dsimp only
    split
    case isTrue hout =>
      have hiff : h.conn.Schedules (.handleWrite soError selfConnect) ↔
          h.Retrying (.event revents soError selfConnect) := by
        rw [schedules_handleWrite]
        unfold Retrying
        refine ⟨fun hr => ⟨hclosing, hr.1, hr.2.1, .inr (.inr ⟨hout, hr.2.2⟩)⟩, fun hr => ?_⟩
        obtain ⟨-, hs, hr, herr | hnval | ⟨-, hfail⟩⟩ := hr
        · exact absurd (.inl herr) hno
        · exact absurd (.inr hnval) hno
        · exact ⟨hs, hr, hfail⟩
      have hwrite : step h.conn (.handleWrite soError selfConnect) =
          some (h.conn.handleWrite soError selfConnect) := if_pos hclosing
      have hnoted : Noted N h (h.note (.handleWrite soError selfConnect) _) h.earlier _ :=
        note_noted rfl hwrite
      exact hnoted.congr hiff
    case isFalse hout =>
      have hnot : ¬ h.Retrying (.event revents soError selfConnect) := by
        rintro ⟨-, -, -, herr | hnval | ⟨hout', -⟩⟩
        · exact hno (.inl herr)
        · exact hno (.inr hnval)
        · exact hout hout'
      exact ⟨id, fun hr => absurd hr hnot, fun _ => ⟨id, rfl⟩⟩

/-! ### The runs -/

/-- The retries of earlier `connect`s that count for a move. -/
def past (h : Retries) : Move → ℕ
  | .step i => h.before i
  | .event _ _ _ => h.earlier

/-- A move. -/
theorem move_noted {m : Move} {h' : Retries} (hmove : move N h m = some h') :
    Noted N { h with burst := 0 } h' (h.past m) (h.Retrying m) := by
  cases m with
  | step i =>
    simp only [move] at hmove
    split_ifs at hmove with hkeeps
    obtain ⟨w', hstep, rfl⟩ := Option.map_eq_some_iff.1 hmove
    have hnoted := note_noted (h := { h with burst := 0 }) hkeeps hstep
    refine hnoted.congr (and_iff_right ?_).symm
    rw [hstep]
    rfl
  | event revents soError selfConnect =>
    simp only [move] at hmove
    split_ifs at hmove with hclosing
    obtain rfl := Option.some.inj hmove
    exact noteEvent_noted hclosing

/-- A move that schedules a retry happens. -/
theorem move_of_retrying {m : Move} (hr : h.Retrying m) : ∃ h', move N h m = some h' := by
  cases m with
  | step i =>
    obtain ⟨hsome, hs⟩ := hr
    obtain ⟨w', hstep⟩ := Option.isSome_iff_exists.1 hsome
    have hkeeps : keeps N i = true := by
      cases i with
      | setRetryCount count => exact hs.elim
      | _ => rfl
    exact ⟨_, by rw [move, if_pos hkeeps, hstep]; rfl⟩
  | event revents soError selfConnect => exact ⟨_, if_pos hr.1⟩

/-- The condition on a move: where it schedules a retry, there are none of an
earlier connect. -/
theorem first_iff {m : Move} : h.First m ↔ (h.Retrying m → h.past m = 0) := by
  cases m <;> rfl

/-- **Exactly when the retries keep to the schedule.**  In every state of a run
every retry since the most recent `connect` has its delay, there are at most
`N` of them, and the last event has scheduled at most one, if and only if no
retry is scheduled after a retry of an earlier `connect`. -/
theorem onSchedule_iff (N : ℤ) (ms : List Move) :
    Always (move N) (OnSchedule N) (Retries.new N) ms ↔
      Steps (move N) First (Retries.new N) ms := by
  have hkeep : ∀ h m h', (Inv N h ∧ h.Only ∧ h.burst ≤ 1) → First h m → move N h m = some h' →
      Inv N h' ∧ h'.Only ∧ h'.burst ≤ 1 := by
    rintro h m h' ⟨hinv, hone, -⟩ hfirst hmove
    have hnoted := move_noted hmove
    by_cases hr : h.Retrying m
    · obtain ⟨hearlier, -, hburst⟩ := hnoted.retry hr
      exact ⟨hnoted.inv hinv.fresh, .inl (hearlier.trans (first_iff.1 hfirst hr)), hburst.le⟩
    · obtain ⟨hone', hburst⟩ := hnoted.quiet hr
      exact ⟨hnoted.inv hinv.fresh, hone' hone, hburst.le.trans (Nat.zero_le 1)⟩
  have hlate : ∀ h m, (Inv N h ∧ h.Only ∧ h.burst ≤ 1) → ¬ First h m →
      ∃ h', move N h m = some h' ∧ ¬ OnSchedule N h' := by
    rintro h m ⟨hinv, -, -⟩ hbad
    rw [first_iff, Classical.not_imp] at hbad
    obtain ⟨hr, hne⟩ := hbad
    obtain ⟨h', hmove⟩ := move_of_retrying (N := N) hr
    have hnoted := move_noted hmove
    obtain ⟨hearlier, hdelays, -⟩ := hnoted.retry hr
    refine ⟨h', hmove, fun hon => ?_⟩
    rcases (hnoted.inv hinv.fresh).delays_iff.1 hon.delays with hzero | hnil
    · exact hne (hearlier.symm.trans hzero)
    · exact hdelays hnil
  exact always_iff_steps hkeep (fun h hh => hh.1.onSchedule hh.2.1 hh.2.2) hlate
    ⟨inv_new N, .inl rfl, Nat.zero_le 1⟩

/-- A connect with one retry, a shutdown, and a second connect: the first retry
of the second one comes after a second. -/
def secondConnect : List Move :=
  [.step (.connect false ⟨true, .ECONNREFUSED⟩), .step (.shutdown false),
    .step (.connect false ⟨true, .ECONNREFUSED⟩)]

/-- The second connect's first retry comes after one second, where a connector that
was just made waits half a second: the delay is the one that the first connect left.
-/
theorem delay_goes_on : ∃ h, run (move (-1)) (Retries.new (-1)) secondConnect = some h ∧
    h.delays = [1000] ∧ ¬ OnSchedule (-1) h :=
  ⟨_, rfl, rfl, fun hon => absurd hon.delays (by decide)⟩

end Retries

end Connector
end Net
end Sevent
