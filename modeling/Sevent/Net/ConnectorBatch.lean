/-
# The events of a batch and the socket they belong to

`Poller::poll` records in a channel what has happened to its descriptor, and
`EventLoop::loop` calls `handleEvent` for one channel after the other.  Until it
comes to a connector, the handlers of other channels and the timers may stop
the connector and start it again: its channel then has another descriptor, and
`handleEvent` runs with the events of the old one.

An event of a descriptor that the channel no longer has should do nothing
(`Current`).  Removing a channel does not clear what the poll has recorded, and
`handleError` and `handleWrite` look at the state only: `current_iff` says that
a run is right if and only if, where an event is handled while the connector is
`connecting`, the channel still has the descriptor that the event was recorded
for (`Same`).
-/

import Sevent.Net.ConnectorSchedule
import Sevent.Net.ConnectorState

namespace Sevent
namespace Net
namespace Connector

open Transition

/-- A call of `handleEvent`: the descriptor that the event was recorded for, and
the connector before and after the call. -/
structure Dispatch where
  reported : Fd
  before : Connector
  after : Connector

/-- A connector in its loop: the event that the poll has recorded for its
channel and that waits to be handled, and the calls of `handleEvent` so far. -/
structure Batch where
  conn : Connector
  event : Option (Fd × Service.Revents)
  dispatches : List Dispatch

namespace Batch

/-- A connector that was never started, at the beginning of a batch. -/
def new : Batch where
  conn := .new
  event := none
  dispatches := []

/-- What can occur while events are dispatched. -/
inductive Move
  /-- A step that is no event of the connector's channel. -/
  | step (i : Input)
  /-- The poll reports events of a descriptor under the connector's channel. -/
  | poll (fd : Fd) (revents : Service.Revents)
  /-- The loop comes to the connector's channel. -/
  | handleEvent (soError : ℕ) (selfConnect : Bool)
  deriving DecidableEq, Repr

/-- The channel's own functions run in `handleEvent`, and the tasks after the
batch. -/
def allowed (h : Batch) : Input → Bool
  | .handleWrite _ _ | .handleError => false
  | .swapTasks => h.event.isNone
  | _ => true

/-- One move: a step that the batch allows, the events of a poll, or their
dispatch. -/
def move (h : Batch) : Move → Option Batch
  | .step i => if h.allowed i then (step h.conn i).map fun w => { h with conn := w } else none
  | .poll fd revents =>
    if h.event = none ∧ h.conn.closing = [] ∧ h.conn.loop.tmpTasks = none ∧
        (h.conn.poller.interest fd).map Prod.fst = some self then
      some { h with event := some (fd, revents) }
    else none
  | .handleEvent soError selfConnect =>
    match h.event with
    | some (fd, revents) =>
      if h.conn.closing = [] then
        let w := h.conn.handleEvent revents soError selfConnect
        some { conn := w, event := none, dispatches := h.dispatches ++ [⟨fd, h.conn, w⟩] }
      else none
    | none => none

/-- **An event of another descriptor than the channel's has no effect.** -/
def Current (h : Batch) : Prop :=
  ∀ d ∈ h.dispatches, d.reported ≠ d.before.channel.fd → d.after = d.before

/-- `handleEvent` calls `handleError` or `handleWrite`. -/
def calls (revents : Service.Revents) : Bool :=
  revents.POLLERR || revents.POLLNVAL || revents.POLLOUT

/-- The condition: an event that comes to `handleError` or `handleWrite` while
the connector is `connecting` was recorded for the descriptor that the channel
has. -/
def Same (h : Batch) : Move → Prop
  | .handleEvent _ _ => ∀ fd revents, h.event = some (fd, revents) → h.conn.closing = [] →
      h.conn.state = .connecting → calls revents = true → fd = h.conn.channel.fd
  | _ => True

variable {h h' : Batch} {w : Connector} {revents : Service.Revents} {soError : ℕ}
  {selfConnect : Bool}

/-! ### What `handleEvent` does -/

/-- `handleError` does nothing when no attempt is in progress. -/
theorem handleError_idle (hs : w.state ≠ .connecting) : w.handleError = w := if_neg hs

/-- `handleWrite` does nothing when no attempt is in progress. -/
theorem handleWrite_idle (hs : w.state ≠ .connecting) : w.handleWrite soError selfConnect = w :=
  if_neg hs

/-- `handleEvent` does nothing when no attempt is in progress. -/
theorem handleEvent_idle (hs : w.state ≠ .connecting) :
    w.handleEvent revents soError selfConnect = w := by
  unfold handleEvent
  rw [handleError_idle hs, ite_self]
  dsimp only
  rw [handleWrite_idle hs, ite_self]

/-- `handleEvent` does nothing when the events call for none of its functions. -/
theorem handleEvent_quiet (hcalls : calls revents = false) :
    w.handleEvent revents soError selfConnect = w := by
  obtain ⟨hfirst, hout⟩ := Bool.or_eq_false_iff.1 hcalls
  unfold handleEvent
  rw [hfirst, hout]
  rfl

/-- After `handleWrite` no attempt is in progress, whatever it found. -/
theorem handleWrite_state (w : Connector) :
    (w.handleWrite soError selfConnect).state ≠ .connecting := by
  unfold handleWrite
  split
  case isTrue =>
    dsimp only
    split
    · rw [toCore_retry]
      exact fun hs => (by cases hs)
    · split
      · rw [toCore_retry]
        exact fun hs => (by cases hs)
      · split
        · obtain ⟨hstate, -⟩ := Core.establish_rest (c := w.toCore)
          have hs : (((w.onCore Core.remove).onCore Core.onConnection)).state = .connected := hstate
          rw [hs]
          exact fun hs' => (by cases hs')
        · exact fun hs => (by cases hs)
  case isFalse hs => exact hs

/-- **An event that is handled ends the attempt.** -/
theorem handleEvent_state (hcalls : calls revents = true) :
    (w.handleEvent revents soError selfConnect).state ≠ .connecting := by
  unfold handleEvent
  dsimp only
  split
  case isTrue => exact handleWrite_state _
  case isFalse hout =>
    have hfirst : (revents.POLLERR || revents.POLLNVAL) = true :=
      (Bool.or_eq_true_iff.1 hcalls).resolve_right hout
    rw [if_pos hfirst]
    exact (handleError_rest w).1

/-! ### The runs -/

/-- One more dispatch at the end of the list, which has no effect unless it is
of the descriptor of the channel. -/
theorem current_concat (hcurrent : h.Current) {d : Dispatch}
    (hlog : h'.dispatches = h.dispatches ++ [d])
    (hd : d.reported ≠ d.before.channel.fd → d.after = d.before) : h'.Current := by
  intro x hx
  rw [hlog] at hx
  rcases List.mem_append.1 hx with hold | hnew
  · exact hcurrent x hold
  · rw [List.mem_singleton.1 hnew]
    exact hd

/-- **Exactly when the events belong to the current socket.**  In a run of batches no
event of another descriptor has an effect on the connector if and only if each event
that comes to `handleError` or `handleWrite` in the middle of an attempt was recorded
for the descriptor of that attempt. -/
theorem current_iff (ms : List Move) :
    Always move Current new ms ↔ Steps move Same new ms := by
  have hkeep : ∀ h m h', Current h → Same h m → move h m = some h' → Current h' := by
    intro h m h' hcurrent hsame hmove
    cases m with
    | step i =>
      simp only [move] at hmove
      split_ifs at hmove
      obtain ⟨w, -, rfl⟩ := Option.map_eq_some_iff.1 hmove
      exact hcurrent
    | poll fd revents =>
      simp only [move] at hmove
      split_ifs at hmove
      obtain rfl := Option.some.inj hmove
      exact hcurrent
    | handleEvent soError selfConnect =>
      simp only [move] at hmove
      split at hmove
      case h_1 fd revents hevent =>
        split_ifs at hmove with hclosing
        obtain rfl := Option.some.inj hmove
        refine current_concat hcurrent rfl fun hne => ?_
        by_cases hs : h.conn.state = .connecting
        · cases hcalls : calls revents with
          | false => exact handleEvent_quiet hcalls
          | true => exact absurd (hsame fd revents hevent hclosing hs hcalls) hne
        · exact handleEvent_idle hs
      case h_2 => cases hmove
  have hstale : ∀ h m, Current h → ¬ Same h m → ∃ h', move h m = some h' ∧ ¬ Current h' := by
    rintro h m - hbad
    cases m with
    | step i => exact absurd trivial hbad
    | poll fd revents => exact absurd trivial hbad
    | handleEvent soError selfConnect =>
      simp only [Same, not_forall] at hbad
      obtain ⟨fd, revents, hevent, hclosing, hs, hcalls, hne⟩ := hbad
      refine ⟨{ conn := h.conn.handleEvent revents soError selfConnect, event := none
                dispatches := h.dispatches ++
                  [⟨fd, h.conn, h.conn.handleEvent revents soError selfConnect⟩] }, ?_, ?_⟩
      · simp only [move, hevent, hclosing, if_true]
      · intro hcurrent
        have heq := hcurrent ⟨fd, h.conn, h.conn.handleEvent revents soError selfConnect⟩
          (by simp) hne
        have hstate : (h.conn.handleEvent revents soError selfConnect).state = h.conn.state :=
          congrArg (fun u : Connector => u.state) heq
        exact handleEvent_state hcalls (hstate.trans hs)
  exact always_iff_steps hkeep (fun h hh => hh) hstale fun d hd => (by cases hd)

/-- An event for a socket that a handler of the same batch closes, before it
starts the next attempt. -/
def reconnectInBatch : List Move :=
  [.step (.connect false ⟨true, .EINPROGRESS⟩),
    .poll (some 0) ⟨false, false, true, false, false, false, false⟩,
    .step (.forceClose false), .step (.connect false ⟨true, .EINPROGRESS⟩),
    .handleEvent 0 false]

/-- The event of socket 0 makes a connection of socket 1: the channel had the first
descriptor when the poll reported it, and has the second when the loop comes to it.
-/
theorem stale_event_connects : ∃ h d, run move new reconnectInBatch = some h ∧
    d ∈ h.dispatches ∧ d.reported = some 0 ∧ d.before.channel.fd = some 1 ∧
    d.after.nextId = d.before.nextId + 1 ∧ ¬ h.Current := by
  refine ⟨_, _, rfl, List.mem_singleton_self _, rfl, rfl, rfl, fun hcurrent => ?_⟩
  have heq := hcurrent _ (List.mem_singleton_self _) (by decide)
  have hnext := congrArg (fun w : Connector => w.nextId) heq
  exact absurd hnext (by decide)

end Batch

end Connector
end Net
end Sevent
