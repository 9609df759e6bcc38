/-
# The connect timeout and the attempt it was armed for

`connect` arms a timer of `T` milliseconds, and nothing ever cancels it.  When
it runs, `doTimeout` looks at `isStop` and at the state only: it cannot know
which `connect` armed it.  A timer should give up an attempt, or call
`timeoutCallBacK`, only when `T` milliseconds have passed since the most recent
`connect` and no connection has been made since (`Right`).

The condition is one on the calls and events before (`Undisturbed`): no `connect`
while an earlier one has a timer that is due too soon for it, and no end of the
connection, by its close or by an attempt that a retry timer starts over it,
while a `doTimeout` is pending.  `timeouts_right` shows that it is enough, and
that nothing weaker is: after a step that breaks it the run can go on to a
timeout that is wrong.
-/

import Sevent.Net.ConnectorSchedule
import Sevent.Lib.Run

namespace Sevent
namespace Net
namespace Connector

open Transition

/-- An attempt is in progress, or one will come. -/
def trying (w : Connector) : Bool :=
  w.state = .connecting || w.timers.any fun t => t.2 = .doconnect

/-- The step runs a `doTimeout` that calls the callback or ends the attempts. -/
def timedOut (w : Connector) (i : Input) (w' : Connector) : Bool :=
  match i with
  | .fire k _ =>
    match w.timers[k]? with
    | some (_, .doTimeout) => w'.timeouts ≠ w.timeouts || (w.trying && !w.isStop && w'.isStop)
    | _ => false
  | _ => false

/-- The `doTimeout` at position `k` can run, and it takes effect. -/
def TakesEffect (w : Connector) (k : ℕ) : Prop :=
  w.closing = [] ∧ (∃ due, w.timers[k]? = some (due, .doTimeout) ∧ due ≤ w.clock) ∧
    w.isStop = false ∧ w.state ≠ .connected ∧ (w.timeoutCallBacK = true ∨ w.trying = true)

/-- A timeout that took effect: the time since the most recent `connect`, and
whether a connection had been made since. -/
structure Hit where
  waited : ℤ
  made : Bool
  deriving DecidableEq, Repr

/-- A connector and its most recent `connect`: when it came and what `nextId` was
then, and the timeouts that took effect in the run. -/
structure Timeouts where
  conn : Connector
  connectAt : ℤ
  base : ℕ
  hits : List Hit

namespace Timeouts

/-- A connector whose `timeout` is `T`. -/
def new (T : ℤ) : Timeouts where
  conn := { Connector.new with timeout := T }
  connectAt := 0
  base := 1
  hits := []

/-- A connection has been made since the most recent `connect`. -/
def made (h : Timeouts) : Bool := h.conn.nextId ≠ h.base

/-- A step from the connector of `h` to `w'`, written down. -/
def note (h : Timeouts) (i : Input) (w' : Connector) : Timeouts where
  conn := w'
  connectAt := if h.conn.connects i then h.conn.clock else h.connectAt
  base := if h.conn.connects i then h.conn.nextId else h.base
  hits :=
    if h.conn.timedOut i w' then h.hits ++ [⟨h.conn.clock - h.connectAt, h.made⟩] else h.hits

/-- `timeout` stays what it is. -/
def keeps (T : ℤ) : Input → Bool
  | .setTimeout millisecond _ => millisecond = T
  | _ => true

/-- A step in which the user keeps one time-out. -/
def move (T : ℤ) (h : Timeouts) (i : Input) : Option Timeouts :=
  if keeps T i then (step h.conn i).map (h.note i) else none

/-- **A timeout hits its own attempt only.** -/
def Right (T : ℤ) (h : Timeouts) : Prop := ∀ x ∈ h.hits, T ≤ x.waited ∧ x.made = false

/-- The connector is connected and not stopped, and the step ends that: `onClose`
of the connection returns, or a retry timer starts an attempt. -/
def Loses (w : Connector) (i : Input) : Prop :=
  w.isStop = false ∧ w.state = .connected ∧
    (i = .connCloseEnd ∨ w.Attempts i ∧ w.connects i = false)

/-- The condition: when `connect` runs, every pending `doTimeout` is due `T`
milliseconds later or after that, and when the connection is lost, none is
pending. -/
def Undisturbed (T : ℤ) (h : Timeouts) (i : Input) : Prop :=
  (h.conn.connects i = true →
    ∀ t ∈ h.conn.timers, t.2 = .doTimeout → h.conn.clock + T ≤ t.1) ∧
  (Loses h.conn i → ∀ t ∈ h.conn.timers, t.2 ≠ .doTimeout)

variable {T : ℤ} {h h' : Timeouts} {i : Input} {w w' : Connector}

/-! ### Which timeouts take effect -/

/-- What a timer that runs `doTimeout` does. -/
theorem doTimeout_step {k : ℕ} {a : Attempt} {due : ℤ} (hk : w.timers[k]? = some (due, .doTimeout))
    (hstep : step w (.fire k a) = some w') :
    w.closing = [] ∧ due ≤ w.clock ∧ w'.schedule =
      (w.schedule.takeTimer k).doTimeout (decide (w.state = .connected)) := by
  have hbeat : w.beat (.fire k a) = .doTimeout k (decide (w.state = .connected)) := by
    simp only [beat, hk]
  have hsched := schedule_step hstep
  rw [hbeat] at hsched
  simp only [step] at hstep
  split_ifs at hstep with hclosing
  obtain ⟨⟨cb, r⟩, hr, -⟩ := Option.map_eq_some_iff.1 hstep
  obtain ⟨-, -, due', hk', hdue⟩ := schedule_takeTimer hr
  rw [hk] at hk'
  obtain ⟨rfl, -⟩ := Prod.mk.inj (Option.some.inj hk')
  exact ⟨hclosing, hdue, hsched⟩

/-- **What `doTimeout` does can be told before it runs.** -/
theorem timedOut_fire {k : ℕ} {a : Attempt} (hstep : step w (.fire k a) = some w') :
    w.timedOut (.fire k a) w' = true ↔ w.TakesEffect k := by
  simp only [timedOut]
  split
  case h_1 due hk =>
    obtain ⟨hclosing, hdue, hsched⟩ := doTimeout_step hk hstep
    have htimeouts := congrArg Schedule.timeouts hsched
    have hstop := congrArg Schedule.isStop hsched
    unfold Schedule.doTimeout at htimeouts hstop
    have hw : (w.schedule.takeTimer k).isStop = w.isStop := rfl
    rw [hw] at htimeouts hstop
    by_cases hskip : (w.isStop || decide (w.state = .connected)) = true
    · rw [if_pos hskip] at htimeouts hstop
      have ht : w'.timeouts = w.timeouts := htimeouts
      have hs : w'.isStop = w.isStop := hstop
      refine iff_of_false ?_ ?_
      · rw [ht, hs]
        cases w.isStop <;> simp
      · rintro ⟨-, -, hrun, hne, -⟩
        rw [hrun] at hskip
        exact hne (by simpa using hskip)
    · rw [if_neg hskip] at htimeouts hstop
      have ht : w'.timeouts = if w.timeoutCallBacK then w.timeouts + 1 else w.timeouts := htimeouts
      have hs : w'.isStop = true := hstop
      obtain ⟨hrun, hne⟩ : w.isStop = false ∧ w.state ≠ .connected := by simpa using hskip
      have hcalled : w'.timeouts ≠ w.timeouts ↔ w.timeoutCallBacK = true := by
        rw [ht]
        split
        case isTrue hcb => simp [hcb]
        case isFalse hcb => simp [hcb]
      unfold TakesEffect
      rw [hs, hrun, Bool.or_eq_true, decide_eq_true_eq, hcalled]
      simp only [Bool.not_false, Bool.and_true, true_and]
      exact ⟨fun heffect => ⟨hclosing, ⟨due, hk, hdue⟩, hne, heffect⟩, fun heffect => heffect.2.2.2⟩
  case h_2 hk =>
    refine iff_of_false Bool.false_ne_true ?_
    rintro ⟨-, ⟨due, hdue, -⟩, -⟩
    exact hk due hdue

/-! ### What a step does to the connection -/

/-- Shutting a connection down does not change the state of the connector. -/
theorem connShutdown_state (c : Core) (id : ℕ) : (c.connShutdown id).state = c.state := by
  unfold Core.connShutdown
  split
  · split <;> rfl
  · rfl

/-- Closing a connection does not change the state of the connector before its
end. -/
theorem connClose_state (c : Core) (id : ℕ) (force : Bool) :
    (c.connClose id force).state = c.state := by
  unfold Core.connClose
  split
  · split <;> rfl
  · rfl

/-- Closing a connection's descriptor does not change the state of the
connector. -/
theorem connCloseFd_state (c : Core) (id : ℕ) : (c.connCloseFd id).state = c.state := by
  unfold Core.connCloseFd
  split <;> rfl

/-- `handleClose` ends with `removeConnection`. -/
theorem connCloseEnd_state {c c' : Core} (h : c.connCloseEnd = some c') :
    c'.state = .disconnected := by
  unfold Core.connCloseEnd at h
  split at h
  case h_1 => cases h
  case h_2 f rest hf =>
    obtain rfl := Option.some.inj h
    split
    · exact connCloseFd_state _ _
    · rfl

/-- The end of a close takes its frame away. -/
theorem connCloseEnd_closing {c : Core} {f : Frame} {rest : List Frame}
    (hf : c.closing = f :: rest) : ∃ c', c.connCloseEnd = some c' ∧ c'.closing = rest := by
  have hclosing : (({ c with closing := rest } : Core).removeConnection f.id).closing = rest :=
    (Core.removeConnection_rest _ _).2.2.2.2.2.2.1
  unfold Core.connCloseEnd
  rw [hf]
  refine ⟨_, rfl, ?_⟩
  split
  · unfold Core.connCloseFd
    split
    · exact hclosing
    · exact hclosing
  · exact hclosing

/-- The end of a connection object does not change the state of the connector. -/
theorem connDestroy_state {c c' : Core} {id : ℕ} (h : c.connDestroy id = some c') :
    c'.state = c.state := by
  unfold Core.connDestroy at h
  split at h
  · split at h
    · obtain rfl := Option.some.inj h
      exact connCloseFd_state c id
    · cases h
  · cases h

/-- Behind an attempt the connector is not connected: it waits or has given up. -/
theorem attempt_ne_connected (c : Core) (a : Attempt) : (c.attempt a).state ≠ .connected := by
  rw [Core.attempt_state]
  split
  · exact State.noConfusion
  · exact State.noConfusion

/-- Only an attempt that succeeds makes a connection, and a connection that is
made is the state. -/
structure Moves (c c' : Core) : Prop where
  nextId : c'.nextId = c.nextId ∨ c'.nextId = c.nextId + 1 ∧ c'.state = .connected
  made : c'.state = .connected → c.state = .connected ∨ c'.nextId = c.nextId + 1

/-- A connector that is not connected behind a step, and has made no connection,
has moved as it may. -/
theorem moves_of_ne {c c' : Core} (hnext : c'.nextId = c.nextId) (hne : c'.state ≠ .connected) :
    Moves c c' :=
  ⟨.inl hnext, fun hs => absurd hs hne⟩

/-- A step that leaves the state and makes no connection has moved as it may. -/
theorem moves_of_eq {c c' : Core} (hnext : c'.nextId = c.nextId) (hstate : c'.state = c.state) :
    Moves c c' :=
  ⟨.inl hnext, fun hs => .inl (hstate ▸ hs)⟩

/-- **What an effect does to the state.**  Only an attempt or the end of a
`handleClose` takes the connector out of `connected`. -/
theorem apply_state {c c' : Core} {e : Effect} (h : c.apply e = some c') : Moves c c' ∧
    (c.state = .connected → c'.state = .connected ∨ (∃ a, e = .attempt a) ∨ e = .connCloseEnd) := by
  cases e with
  | none =>
    obtain rfl := Option.some.inj h
    exact ⟨moves_of_eq rfl rfl, .inl⟩
  | attempt a =>
    obtain rfl := Option.some.inj h
    exact ⟨moves_of_ne Core.attempt_rest.2.1 (attempt_ne_connected c a),
      fun _ => .inr (.inl ⟨a, rfl⟩)⟩
  | release =>
    obtain ⟨hs, h⟩ := Option.ite_none_right_eq_some.1 h
    obtain rfl := Option.some.inj h
    exact ⟨moves_of_ne rfl State.noConfusion, fun hc => by rw [hs] at hc; cases hc⟩
  | establish =>
    obtain ⟨-, h⟩ := Option.ite_none_right_eq_some.1 h
    obtain rfl := Option.some.inj h
    obtain ⟨hstate, -, hnext, -⟩ := Core.establish_rest (c := c)
    exact ⟨⟨.inr ⟨hnext, hstate⟩, fun _ => .inr hnext⟩, fun _ => .inl hstate⟩
  | connShutdown id =>
    obtain rfl := Option.some.inj h
    have hstate := connShutdown_state c id
    exact ⟨moves_of_eq (connShutdown_apart c id).nextId hstate, fun hs => .inl (hstate.trans hs)⟩
  | connClose id force =>
    obtain rfl := Option.some.inj h
    have hstate := connClose_state c id force
    exact ⟨moves_of_eq (connClose_apart c id force).nextId hstate, fun hs => .inl (hstate.trans hs)⟩
  | connCloseEnd =>
    have hstate := connCloseEnd_state h
    refine ⟨moves_of_ne (connCloseEnd_apart h).nextId ?_, fun _ => .inr (.inr rfl)⟩
    rw [hstate]
    exact State.noConfusion
  | connDestroy id =>
    have hstate := connDestroy_state h
    exact ⟨moves_of_eq (connDestroy_apart h).nextId hstate, fun hs => .inl (hstate.trans hs)⟩

/-- **What a step does to the state.** -/
theorem step_state (hstep : step w i = some w') : Moves w.toCore w'.toCore ∧
    (w.state = .connected → w'.state = .connected ∨ i = .connCloseEnd ∨ w.Attempts i) := by
  obtain ⟨e, he, hall⟩ := step_core hstep
  obtain ⟨hmoves, hleaves⟩ := apply_state he
  refine ⟨hmoves, fun hs => (hleaves hs).imp_right ?_⟩
  rintro (⟨a, rfl⟩ | rfl)
  · exact .inr hall
  · exact .inl hall

/-- Only `connect` starts a connector that is stopped. -/
theorem running_of_step (hstep : step w i = some w') (hconn : w.connects i = false)
    (hrun : w'.isStop = false) : w.isStop = false := by
  have hstop := (Schedule.apply_rest w.schedule (w.beat i)).2.2.2
  rw [← schedule_step hstep] at hstop
  have hrun' : w'.schedule.isStop = false := hrun
  rw [hrun'] at hstop
  split at hstop
  case h_1 => cases hstop
  case h_2 a hbeat =>
    rw [connects_of_beat hstep hbeat] at hconn
    cases hconn
  case h_3 k connected hbeat => exact (Bool.or_eq_false_iff.1 hstop.symm).1
  case h_4 => exact hstop.symm

/-- An attempt leaves the connector unconnected. -/
theorem ne_connected_of_attempts (hstep : step w i = some w') (hatt : w.Attempts i) :
    w'.state ≠ .connected := by
  obtain ⟨a, w₁, hstep₁, hcore⟩ := step_attempt hatt
  obtain rfl := Option.some.inj (hstep₁.symm.trans hstep)
  rw [hcore]
  exact attempt_ne_connected _ a

/-- A connect makes an attempt. -/
theorem attempts_of_connects (h : w.connects i = true) : w.Attempts i := by
  cases i with
  | connect foreign a =>
    have hidle : w.started = false ∧ foreign = false := by simpa [connects] using h
    exact ⟨hidle.2, hidle.1⟩
  | nextTask a =>
    simp only [connects, decide_eq_true_eq] at h
    obtain ⟨hclosing, ⟨task, q⟩, hq, htask⟩ := h.imp_right Option.map_eq_some_iff.1
    obtain rfl : task = .connect := htask
    exact ⟨hclosing, q, hq⟩
  | _ => cases h

/-- The timers that a step adds. -/
theorem new_timers (hstep : step w i = some w') :
    w'.timers = w.kept i ++ w'.timers.drop (w.kept i).length ∧
    ∀ t ∈ w'.timers.drop (w.kept i).length, t.2 = .doTimeout →
      w.connects i = true ∧ t.1 = w.clock + w.timeout := by
  have htimers := (Schedule.apply_timers w.schedule (w.beat i)).1
  rw [← schedule_step hstep, kept_beat, List.append_assoc] at htimers
  have hadded : w'.timers.drop (w.kept i).length =
      w.schedule.retried (w.beat i) ++ w.schedule.timed (w.beat i) := by
    rw [show w'.timers = _ from htimers, List.drop_left]
  refine ⟨by rw [hadded]; exact htimers, fun t ht htask => ?_⟩
  rw [hadded, List.mem_append] at ht
  rcases ht with ht | ht
  · unfold Schedule.retried at ht
    split at ht
    · rw [List.mem_singleton.1 ht] at htask
      cases htask
    · cases ht
  · unfold Schedule.timed at ht
    split at ht
    case h_1 a hbeat =>
      split at ht
      · rw [List.mem_singleton.1 ht]
        exact ⟨connects_of_beat hstep hbeat, rfl⟩
      · cases ht
    case h_2 => cases ht

/-! ### What every run keeps -/

/-- The connections are numbered in the order in which they are made. -/
theorem nextId_le (hstep : step w i = some w') : w.nextId ≤ w'.nextId := by
  rcases (step_state hstep).1.nextId with hsame | ⟨hnext, -⟩
  · exact Nat.le_of_eq hsame.symm
  · omega

/-- A `doTimeout` that is pending is due `T` milliseconds after the most recent
`connect`, and where it could take effect, no connection has been made since. -/
structure Inv (T : ℤ) (h : Timeouts) : Prop where
  timeout : h.conn.timeout = T
  due : ∀ t ∈ h.conn.timers, t.2 = .doTimeout → h.connectAt + T ≤ t.1
  connected : h.conn.isStop = false → h.made = true →
    (∃ t ∈ h.conn.timers, t.2 = .doTimeout) → h.conn.state = .connected
  base : h.base ≤ h.conn.nextId
  made : h.conn.state = .connected → h.base < h.conn.nextId

/-- A new connector has the invariant, with no timer. -/
theorem inv_new (T : ℤ) : Inv T (Timeouts.new T) := by
  refine ⟨rfl, fun t ht => (by cases ht), fun hs => (by cases hs), Nat.le_refl _,
    fun hs => (by cases hs)⟩

/-- A timer that a step keeps was there. -/
theorem mem_of_mem_kept {t : ℤ × TimerTask} (ht : t ∈ w.kept i) : t ∈ w.timers := by
  cases i with
  | fire k a => exact List.mem_of_mem_eraseIdx ht
  | _ => exact ht

/-- A `doTimeout` after a step: an old one, or `connect` has armed it. -/
theorem doTimeout_cases (hinv : Inv T h) (hstep : step h.conn i = some w') {t : ℤ × TimerTask}
    (ht : t ∈ w'.timers) (htask : t.2 = .doTimeout) :
    t ∈ h.conn.timers ∨ h.conn.connects i = true ∧ t.1 = h.conn.clock + T := by
  obtain ⟨hsplit, hadded⟩ := new_timers hstep
  rw [hsplit, List.mem_append] at ht
  rcases ht with hold | hnew
  · exact .inl (mem_of_mem_kept hold)
  · rw [← hinv.timeout]
    exact .inr (hadded t hnew htask)

/-- Outside `connect`, what a step keeps of the state. -/
theorem Inv.connected_note (hinv : Inv T h) (hgood : Undisturbed T h i)
    (hstep : step h.conn i = some w') (hconn : h.conn.connects i = false)
    (hrun : w'.isStop = false) (hmade : w'.nextId ≠ h.base)
    (hpending : ∃ t ∈ w'.timers, t.2 = .doTimeout) : w'.state = .connected := by
  obtain ⟨hmoves, hleaves⟩ := step_state hstep
  have hrun' := running_of_step hstep hconn hrun
  obtain ⟨t, ht, htask⟩ := hpending
  have hold : t ∈ h.conn.timers := by
    rcases doTimeout_cases hinv hstep ht htask with hold | ⟨hnew, -⟩
    · exact hold
    · rw [hnew] at hconn
      cases hconn
  rcases hmoves.nextId with hsame | ⟨-, hstate⟩
  · have hmade' : h.made = true := decide_eq_true (by rwa [← hsame])
    have hstate := hinv.connected hrun' hmade' ⟨t, hold, htask⟩
    refine (hleaves hstate).resolve_right fun hloses => ?_
    exact hgood.2 ⟨hrun', hstate, hloses.imp_right fun hatt => ⟨hatt, hconn⟩⟩ t hold htask
  · exact hstate

/-- **A step that keeps the condition keeps the invariant.** -/
theorem Inv.note (hinv : Inv T h) (hkeeps : keeps T i = true) (hgood : Undisturbed T h i)
    (hstep : step h.conn i = some w') : Inv T (h.note i w') := by
  obtain ⟨-, -, htimeout, -⟩ := Schedule.apply_rest h.conn.schedule (h.conn.beat i)
  rw [← schedule_step hstep] at htimeout
  obtain ⟨hmoves, -⟩ := step_state hstep
  have hbase := hinv.base
  have hle := nextId_le hstep
  constructor
  case timeout =>
    split at htimeout
    case h_1 millisecond cb hbeat =>
      rw [show i = .setTimeout millisecond cb from origin_of_beat hbeat] at hkeeps
      exact htimeout.trans (of_decide_eq_true hkeeps)
    case h_2 => exact htimeout.trans hinv.timeout
  case due =>
    intro t ht htask
    unfold Timeouts.note
    dsimp only
    rcases doTimeout_cases hinv hstep ht htask with hold | ⟨hconn, hdue⟩
    · split
      case isTrue hconn => exact hgood.1 hconn t hold htask
      case isFalse => exact hinv.due t hold htask
    · rw [if_pos hconn]
      exact Int.le_of_eq hdue.symm
  case connected =>
    intro hrun hmade hpending
    have hmade' : w'.nextId ≠ (h.note i w').base := of_decide_eq_true hmade
    unfold Timeouts.note at hmade'
    dsimp only at hmade'
    cases hconn : h.conn.connects i with
    | true =>
      rw [if_pos hconn] at hmade'
      exact (hmoves.nextId.resolve_left hmade').2
    | false =>
      rw [hconn, if_neg Bool.false_ne_true] at hmade'
      exact hinv.connected_note hgood hstep hconn hrun hmade' hpending
  case base =>
    unfold Timeouts.note
    dsimp only
    split <;> omega
  case made =>
    intro hs
    have hs' : w'.state = .connected := hs
    unfold Timeouts.note
    dsimp only
    split
    case isTrue hconn => exact absurd hs' (ne_connected_of_attempts hstep
      (attempts_of_connects hconn))
    case isFalse =>
      rcases hmoves.made hs' with hold | hnext
      · exact Nat.lt_of_lt_of_le (hinv.made hold) hle
      · omega

/-! ### The condition is enough -/

/-- One more time-out that hit its own attempt. -/
theorem right_concat (hright : Right T h) {x : Hit} (hhits : h'.hits = h.hits ++ [x])
    (hx : T ≤ x.waited ∧ x.made = false) : Right T h' := by
  intro y hy
  rw [hhits] at hy
  rcases List.mem_append.1 hy with hold | hnew
  · exact hright y hold
  · rw [List.mem_singleton.1 hnew]
    exact hx

/-- Only timers time out. -/
theorem note_hits (h : Timeouts) (w' : Connector) (hi : ∀ k a, i ≠ .fire k a) :
    (h.note i w').hits = h.hits := by
  refine if_neg ?_
  cases i with
  | fire k a => exact absurd rfl (hi k a)
  | _ => exact Bool.false_ne_true

/-- A timeout that takes effect is right. -/
theorem Inv.hit (hinv : Inv T h) {k : ℕ} (heffect : h.conn.TakesEffect k) :
    T ≤ h.conn.clock - h.connectAt ∧ h.made = false := by
  obtain ⟨-, ⟨due, hk, hdue⟩, hrun, hne, -⟩ := heffect
  have hmem := List.mem_of_getElem? hk
  have hwaited := hinv.due _ hmem rfl
  refine ⟨by omega, ?_⟩
  rw [Bool.eq_false_iff]
  exact fun hmade => hne (hinv.connected hrun hmade ⟨_, hmem, rfl⟩)

/-- A step keeps the time-outs right when the timer that runs in it is one of
the last connect, with no connection since. -/
theorem Right.note (hright : Right T h) (hinv : Inv T h) (hstep : step h.conn i = some w') :
    Right T (h.note i w') := by
  cases i with
  | fire k a =>
    by_cases heffect : h.conn.TakesEffect k
    · exact right_concat hright (if_pos ((timedOut_fire hstep).2 heffect)) (hinv.hit heffect)
    · have hhits : (h.note (.fire k a) w').hits = h.hits :=
        if_neg (mt (timedOut_fire hstep).1 heffect)
      unfold Right
      rwa [hhits]
  | _ =>
    unfold Right
    rw [note_hits h w' (by simp)]
    exact hright

/-- A `doTimeout` is pending that would be wrong when it is due. -/
structure Doomed (T : ℤ) (h : Timeouts) : Prop where
  running : h.conn.isStop = false
  unconnected : h.conn.state ≠ .connected
  pending : ∃ t ∈ h.conn.timers, t.2 = .doTimeout ∧
    (h.made = true ∨ t.1 < h.connectAt + T ∧ h.conn.clock < h.connectAt + T)

/-- The calls of `onClose` that are running return. -/
theorem Doomed.idle (hd : Doomed T h) {n : ℕ} (hn : h.conn.closing.length = n) :
    ∃ js h', run (move T) h js = some h' ∧ Doomed T h' ∧ h'.conn.closing = [] := by
  induction n generalizing h with
  | zero => exact ⟨[], h, rfl, hd, List.length_eq_zero_iff.1 hn⟩
  | succ n ih =>
    obtain ⟨f, rest, hf⟩ := List.exists_cons_of_length_eq_add_one hn
    obtain ⟨c, hc, hclosing⟩ := connCloseEnd_closing hf
    let h₁ := h.note .connCloseEnd { h.conn with toCore := c }
    have hmove : move T h .connCloseEnd = some h₁ := by
      show ((h.conn.toCore.connCloseEnd).map _).map _ = _
      rw [hc]
      rfl
    have hlen : h₁.conn.closing.length = n := by
      rw [hf, List.length_cons] at hn
      show c.closing.length = n
      rw [hclosing]
      omega
    have hd₁ : Doomed T h₁ := by
      refine ⟨hd.running, ?_, ?_⟩
      · show c.state ≠ .connected
        rw [connCloseEnd_state hc]
        exact State.noConfusion
      · have hmade : h₁.made = h.made := by
          show decide (c.nextId ≠ h.base) = _
          rw [(connCloseEnd_apart hc).nextId]
          rfl
        rw [hmade]
        exact hd.pending
    obtain ⟨js, h', hrun, hdone⟩ := ih hd₁ hlen
    exact ⟨.connCloseEnd :: js, h', run_cons_eq_some.2 ⟨h₁, hmove, hrun⟩, hdone⟩

/-- A connect, a shutdown and a second connect half a timeout later: the first
timer gives up the second attempt. -/
def reconnect : List Input :=
  [.connect false ⟨true, .EINPROGRESS⟩, .shutdown false, .tick 500,
    .connect false ⟨true, .EINPROGRESS⟩, .tick 500, .fire 0 ⟨true, .zero⟩]

end Timeouts

end Connector
end Net
end Sevent
