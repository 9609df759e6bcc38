/-
# A stopped connector stays stopped

After `stopInLoop`, `shutdownInLoop` or `forceCloseInLoop` the timers of the
connector are still there, and so may be its events and its connection.  They
may all run: until the next `connect` nothing comes of them.  `isStop` is true
from the stop on, `retry`, `doTimeout` and `handleWrite` look at it, and only
`connect` clears it.  `stop_is_final` says it of every run that starts with a
stop, in any state of the connector.
-/

import Sevent.Net.ConnectorSchedule
import Sevent.Lib.Run

namespace Sevent
namespace Net
namespace Connector

open Transition

variable {m w w' : Connector} {i : Input}

/-- Nothing new since `m`: no socket, no connection, no call of the timeout
callback, and no timer. -/
structure Still (m w : Connector) : Prop where
  sockets : w.sockets = m.sockets
  nextId : w.nextId = m.nextId
  timeouts : w.timeouts = m.timeouts
  timers : w.timers.Sublist m.timers

theorem Still.refl (m : Connector) : m.Still m := ⟨rfl, rfl, rfl, .refl _⟩

theorem Still.trans {u : Connector} (h : m.Still w) (h' : w.Still u) : m.Still u :=
  ⟨h'.sockets.trans h.sockets, h'.nextId.trans h.nextId, h'.timeouts.trans h.timeouts,
    h'.timers.trans h.timers⟩

/-- A stopped schedule, whatever happens but a `connect`. -/
theorem Schedule.stopped_apply {s : Schedule} {b : Beat} (hstop : s.isStop = true)
    (hb : ∀ a, b ≠ .connect a) : (s.apply b).isStop = true ∧ (s.apply b).sockets = s.sockets ∧
      (s.apply b).nextId = s.nextId ∧ (s.apply b).timeouts = s.timeouts ∧
      (s.apply b).timers.Sublist s.timers := by
  cases b with
  | connect a => exact absurd rfl (hb a)
  | doconnect k a =>
    have hskip : (s.takeTimer k).doconnect a = s.takeTimer k := if_pos hstop
    simp only [Schedule.apply, hskip]
    exact ⟨hstop, rfl, rfl, rfl, List.eraseIdx_sublist _ k⟩
  | doTimeout k connected =>
    have hskip : (s.takeTimer k).doTimeout connected = s.takeTimer k :=
      if_pos (Bool.or_eq_true_iff.2 (.inl hstop))
    simp only [Schedule.apply, hskip]
    exact ⟨hstop, rfl, rfl, rfl, List.eraseIdx_sublist _ k⟩
  | retry =>
    have hskip : s.apply .retry = s := if_neg fun hr => by
      rw [hr.1] at hstop
      cases hstop
    rw [hskip]
    exact ⟨hstop, rfl, rfl, rfl, .refl _⟩
  | establish =>
    have hskip : s.apply .establish = s := if_pos hstop
    rw [hskip]
    exact ⟨hstop, rfl, rfl, rfl, .refl _⟩
  | stop => exact ⟨rfl, rfl, rfl, rfl, .refl _⟩
  | _ => exact ⟨hstop, rfl, rfl, rfl, .refl _⟩

/-- One step of a stopped connector. -/
theorem stopped_step (hstop : w.isStop = true) (hi : w.connects i = false)
    (h : step w i = some w') : w'.isStop = true ∧ w.Still w' := by
  have hb : ∀ a, w.beat i ≠ .connect a := fun a ha =>
    Bool.false_ne_true (hi.symm.trans (connects_of_beat h ha))
  obtain ⟨hstop', hsockets, hnext, htimeouts, htimers⟩ :=
    Schedule.stopped_apply (s := w.schedule) hstop hb
  rw [← schedule_step h] at hstop' hsockets hnext htimeouts htimers
  exact ⟨hstop', hsockets, hnext, htimeouts, htimers⟩

/-- **A stop is final until the next connect.**  After a step that stops the
connector, in whatever state, and as long as `connect` is not executed: no
socket, no connection, no timeout callback and no retry. -/
theorem stop_is_final {is : List Input} (hi : w.stops i = true) (h : step w i = some m)
    (his : Steps step (fun w j => w.connects j = false) m is) :
    Always step (fun w' => m.Still w') m is := by
  have hstop : m.isStop = true := by
    have hbeat := schedule_step h
    rw [beat_of_stops hi] at hbeat
    exact congrArg Schedule.isStop hbeat
  have hkeep : ∀ u j u', (u.isStop = true ∧ m.Still u) → u.connects j = false →
      step u j = some u' → u'.isStop = true ∧ m.Still u' := by
    intro u j u' hu hj hstep
    obtain ⟨hstop', hstill⟩ := stopped_step hu.1 hj hstep
    exact ⟨hstop', hu.2.trans hstill⟩
  exact (always_of_steps hkeep ⟨hstop, .refl m⟩ his).mono fun u hu => hu.2

/-- A retry is waiting when the client is shut down in another thread: the flag
is written, the retry runs, and then the in-loop part. -/
def stopDuringRetry : List Input :=
  [.setTimeout 100 true, .connect false ⟨true, .ECONNREFUSED⟩, .shutdown true, .advance 0,
    .advance 0, .swapTasks]

/-- Both timers come after the stop, and an event. -/
theorem stop_is_final_retry : ∃ w m, run step new stopDuringRetry = some w ∧
    step w (.nextTask ⟨true, .zero⟩) = some m ∧
    m.timers = [(500, .doconnect), (100, .doTimeout)] ∧
    Always step (fun w' => m.Still w') m
      [.endTasks, .tick 600, .fire 0 ⟨true, .zero⟩, .fire 0 ⟨true, .zero⟩, .handleWrite 0 false] :=
  ⟨(run step new stopDuringRetry).get rfl, _, rfl, rfl, rfl,
    stop_is_final (w := (run step new stopDuringRetry).get rfl) (i := .nextTask ⟨true, .zero⟩)
      (by decide) rfl (by decide)⟩

end Connector
end Net
end Sevent
