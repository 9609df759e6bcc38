/-
# When a graceful shutdown loses nothing

`shutdown` promises to half-close the connection once everything that was sent
has been written.  `shutdownInLoop` decides by the write interest instead of the
buffer: with the interest off it half-closes at once, with it on it leaves that
to the `handleWrite` that drains the buffer.  The interest says whether the
buffer is empty only as long as the user does not switch it; and a `shutdown` of
the loop's thread runs at once, while the sends of other threads wait in the
queue.

`ShutdownOk` is the promise.  `Clean` is the condition on a step: a shutdown
that takes effect finds the interest on exactly when bytes wait, and half-closes
only when no earlier send is queued; nothing is written after the half-close;
the last bytes of a connection that is shutting down are written by
`handleWrite`.  `shutdown_iff` shows that a run keeps the promise if and only if
its steps are clean.
-/

import Sevent.Net.TcpConnectionOutput
import Mathlib.Data.List.Nodup

namespace Sevent
namespace Net
namespace TcpConnection

open Transition Fifo

/-- An attempt to write. -/
def Act.writes : Act → Bool
  | .write _ | .writeErr _ => true
  | _ => false

/-- `SHUT_WR` has been issued. -/
def Halved (log : List Act) : Prop := ∃ p, Act.shutdownWrite p ∈ log

/-- The log has a `SHUT_WR` after `l1`, with `p` in `outputBuf`. -/
def Cut (log l1 : List Act) (p : List UInt8) (l2 : List Act) : Prop :=
  log = l1 ++ .shutdownWrite p :: l2

/-- Nothing is lost by a `SHUT_WR` after `l1`: `outputBuf` is empty, every send
accepted before the `shutdown` that has taken effect is executed, and unless a
write has failed all executed sends are written. -/
structure Delivered (l1 : List Act) (p : List UInt8) : Prop where
  empty : p = []
  executed : ∀ mark, Act.shutdown mark ∈ l1 → ∀ q ∈ sends l1, q.1.serial < mark →
    q ∈ executed l1
  written : ¬ Broken l1 → written l1 = payloads (TcpConnection.executed l1)

/-- **The promise of `shutdown`.** -/
structure ShutdownOk (w : TcpConnection) : Prop where
  /-- `SHUT_WR` is issued only when everything is delivered. -/
  delivered : ∀ l1 p l2, Cut w.log l1 p l2 → Delivered l1 p
  /-- No write is attempted after `SHUT_WR`. -/
  silent : ∀ l1 p l2, Cut w.log l1 p l2 → ∀ a ∈ l2, a.writes = false
  /-- A connection that is shutting down and has nothing to write is half-closed. -/
  done : w.state = .disconnecting → w.outputBuf = [] → Halved w.log

/-! ### The condition -/

/-- No send in the queue was accepted among the first `mark`. -/
def NoneQueued (w : TcpConnection) (mark : ℕ) : Prop :=
  ∀ q ∈ queued w.loop.tasks, mark ≤ q.1.serial

/-- The condition on `shutdownInLoop`. -/
def ShutdownClean (w : TcpConnection) (mark : ℕ) : Prop :=
  w.state = .connected →
    (w.channel.isEnableWrite = true → w.outputBuf ≠ []) ∧
    (w.channel.isEnableWrite = false → w.outputBuf = [] ∧ w.NoneQueued mark)

/-- The condition on `sendInLoop`: it does not write after `SHUT_WR`. -/
def PushClean (w : TcpConnection) : Prop :=
  w.state ≠ .disconnected → Halved w.log → w.channel.isEnableWrite = true ∨ w.outputBuf ≠ []

/-- The condition on `sendOutputBufInLoop`: where it writes, `SHUT_WR` has not
been issued, and it does not drain the buffer of a connection that is shutting
down. -/
def FlushClean (w : TcpConnection) (r : WriteResult) : Prop :=
  w.state ≠ .disconnected → w.channel.isEnableWrite = false → w.outputBuf ≠ [] →
    ¬ Halved w.log ∧
      (w.state = .disconnecting → ∀ n, r = .accepted n → n < w.outputBuf.length)

/-- The condition on `handleWrite`: where it writes, `SHUT_WR` has not been
issued, and where it half-closes no earlier send is queued. -/
def DrainClean (w : TcpConnection) (r : WriteResult) : Prop :=
  w.state ≠ .disconnected → w.channel.isEnableWrite = true →
    ¬ Halved w.log ∧
      (w.state = .disconnecting → ∀ n, r = .accepted n → w.outputBuf.length ≤ n →
        ∀ mark, Act.shutdown mark ∈ w.log → w.NoneQueued mark)

/-- The condition on a task. -/
def TaskClean (w : TcpConnection) (r : WriteResult) : Task → Prop
  | .sendInLoopStr .. | .sendInLoopBuf .. => w.PushClean
  | .sendOutputBufInLoop => w.FlushClean r
  | .shutdownInLoop mark => w.ShutdownClean mark
  | _ => True

/-- The condition on a step.  A send or a `sendOutputBuf` of the loop's own
thread acts on a connected connection only and needs none. -/
def Clean (w : TcpConnection) : Input → Prop
  | .handleWrite r _ => w.DrainClean r
  | .call .shutdown _ _ => w.ShutdownClean w.accepted
  | .nextTask r _ => ∀ t q, w.loop.nextTask = some (t, q) → TaskClean { w with loop := q } r t
  | _ => True

/-- What a run of clean steps keeps. -/
structure ShutInv (w : TcpConnection) : Prop extends ShutdownOk w where
  stream : StreamInv w
  marked : ∀ mark, Act.shutdown mark ∈ w.log → 2 ≤ w.state.rank
  halved : Halved w.log → 2 ≤ w.state.rank

variable {w w' : TcpConnection}

/-! ### Logs -/

/-- A connection that was half-closed stays so. -/
theorem Halved.append {log : List Act} (h : Halved log) (l : List Act) : Halved (log ++ l) := by
  obtain ⟨p, hp⟩ := h
  exact ⟨p, List.mem_append_left _ hp⟩

/-- A log that is cut by the half-close has it. -/
theorem Cut.halved {log l1 l2 : List Act} {p : List UInt8} (h : Cut log l1 p l2) : Halved log :=
  ⟨p, by rw [h]; simp⟩

/-- A `SHUT_WR` in a log that has grown is an old one or a new one. -/
theorem Cut.split {log acts l1 l2 : List Act} {p : List UInt8} (h : Cut (log ++ acts) l1 p l2) :
    (∃ l, Cut log l1 p l ∧ l2 = l ++ acts) ∨ ∃ l, Cut acts l p l2 ∧ l1 = log ++ l := by
  rcases List.append_eq_append_iff.1 h with ⟨l, hl1, hacts⟩ | ⟨l, hlog, hl⟩
  · exact Or.inr ⟨l, hacts, hl1⟩
  · cases l with
    | nil => exact Or.inr ⟨[], hl.symm, by simpa using hlog.symm⟩
    | cons a l =>
      obtain ⟨rfl, rfl⟩ := List.cons.inj hl
      exact Or.inl ⟨l, hlog, rfl⟩

/-- A live connection without waiting bytes delivers what was accepted before
the `shutdown`, when none of it is queued. -/
theorem delivered_of_empty (h : StreamInv w) (hlive : w.state ≠ .disconnected)
    (hbuf : w.outputBuf = []) (hnone : ∀ mark, Act.shutdown mark ∈ w.log → w.NoneQueued mark) :
    Delivered w.log [] := by
  refine ⟨rfl, fun mark hmark q hq hlt => ?_, fun hb => ?_⟩
  · have hkey : q ∈ byKey sender (sender q) (sends w.log) := by simpa [byKey] using hq
    rw [← h.fifo.complete hlive (sender q)] at hkey
    rcases List.mem_append.1 hkey with hk | hk
    · exact (List.mem_filter.1 hk).1
    · have := hnone mark hmark q (List.mem_filter.1 hk).1
      omega
  · have := h.stream hlive hb
    rwa [hbuf, List.append_nil] at this

/-- A queued send is accepted and not executed. -/
theorem queued_not_executed (h : StreamInv w) (hlive : w.state ≠ .disconnected)
    {q : Tag × List UInt8} (hq : q ∈ queued w.loop.tasks) :
    q ∈ sends w.log ∧ q ∉ executed w.log := by
  have hcomplete := h.fifo.complete hlive (sender q)
  have hkey : q ∈ byKey sender (sender q) (queued w.loop.tasks) := by simpa [byKey] using hq
  have hnodup : (sends w.log).Nodup := by
    refine List.Nodup.of_map (fun p => p.1.serial) ?_
    rw [h.numbered]
    exact List.nodup_range
  have hsplit : (byKey sender (sender q) (executed w.log) ++
      byKey sender (sender q) (queued w.loop.tasks)).Nodup := by
    rw [hcomplete]
    exact hnodup.filter _
  refine ⟨?_, fun hexec => ?_⟩
  · have : q ∈ byKey sender (sender q) (sends w.log) := by
      rw [← hcomplete]
      exact List.mem_append_right _ hkey
    exact (List.mem_filter.1 this).1
  · have hkey' : q ∈ byKey sender (sender q) (executed w.log) := by simpa [byKey] using hexec
    exact (List.nodup_append.1 hsplit).2.2 q hkey' q hkey rfl

/-- A `SHUT_WR` while an earlier send is queued does not deliver. -/
theorem not_delivered_of_queued (h : StreamInv w) (hlive : w.state ≠ .disconnected) {mark : ℕ}
    (hmark : Act.shutdown mark ∈ w.log) (hq : ¬ w.NoneQueued mark) (p : List UInt8) :
    ¬ Delivered w.log p := by
  intro hdel
  obtain ⟨q, hq⟩ := not_forall.1 hq
  obtain ⟨hqueued, hlt⟩ := Classical.not_imp.1 hq
  obtain ⟨hsends, hexec⟩ := queued_not_executed h hlive hqueued
  exact hexec (hdel.executed mark hmark q hsends (Nat.not_le.1 hlt))

/-! ### Steps that keep the promise -/

/-- A step whose acts do not half-close. -/
theorem ShutInv.extend (h : ShutInv w) (hs : StreamInv w') {acts : List Act}
    (hlog : w'.log = w.log ++ acts) (hquiet : Halved w.log → ∀ a ∈ acts, a.writes = false)
    (hcut : ¬ Halved acts) (hmark : ∀ mark, Act.shutdown mark ∈ acts → 2 ≤ w'.state.rank)
    (hrank : w.state.rank ≤ w'.state.rank)
    (hdone : w'.state = .disconnecting → w'.outputBuf = [] → Halved w.log) : ShutInv w' := by
  refine ⟨⟨fun l1 p l2 hc => ?_, fun l1 p l2 hc a ha => ?_, fun hd hb => ?_⟩, hs,
    fun mark hm => ?_, fun hh => ?_⟩
  · rw [hlog] at hc
    rcases hc.split with ⟨l, hold, -⟩ | ⟨l, hnew, -⟩
    · exact h.delivered l1 p l hold
    · exact absurd hnew.halved hcut
  · rw [hlog] at hc
    rcases hc.split with ⟨l, hold, rfl⟩ | ⟨l, hnew, -⟩
    · rcases List.mem_append.1 ha with ha | ha
      · exact h.silent l1 p l hold a ha
      · exact hquiet hold.halved a ha
    · exact absurd hnew.halved hcut
  · rw [hlog]
    exact (hdone hd hb).append acts
  · rw [hlog] at hm
    rcases List.mem_append.1 hm with hm | hm
    · exact Nat.le_trans (h.marked mark hm) hrank
    · exact hmark mark hm
  · obtain ⟨p, hp⟩ := hh
    rw [hlog] at hp
    rcases List.mem_append.1 hp with hp | hp
    · exact Nat.le_trans (h.halved ⟨p, hp⟩) hrank
    · exact absurd ⟨p, hp⟩ hcut

/-- A step that half-closes at its end. -/
theorem ShutInv.halve (h : ShutInv w) (hs : StreamInv w') {acts : List Act} {p : List UInt8}
    (hlog : w'.log = (w.log ++ acts) ++ [.shutdownWrite p])
    (hquiet : Halved w.log → ∀ a ∈ acts, a.writes = false) (hcut : ¬ Halved acts)
    (hdel : Delivered (w.log ++ acts) p) (hrank : 2 ≤ w'.state.rank) : ShutInv w' := by
  have hnew : ∀ {l q l2}, Cut [Act.shutdownWrite p] l q l2 → l = [] ∧ q = p ∧ l2 = [] := by
    intro l q l2 hc
    cases l with
    | nil =>
      obtain ⟨hq, hl⟩ := List.cons.inj hc
      exact ⟨rfl, (Act.shutdownWrite.inj hq).symm, hl.symm⟩
    | cons a l => simp [Cut] at hc
  refine ⟨⟨fun l1 q l2 hc => ?_, fun l1 q l2 hc a ha => ?_, fun _ _ => ?_⟩, hs,
    fun _ _ => hrank, fun _ => hrank⟩
  · rw [hlog] at hc
    rcases hc.split with ⟨l, hacts, -⟩ | ⟨l, hlast, rfl⟩
    · rcases hacts.split with ⟨l, hold, -⟩ | ⟨l, hin, -⟩
      · exact h.delivered l1 q l hold
      · exact absurd hin.halved hcut
    · obtain ⟨rfl, rfl, -⟩ := hnew hlast
      rwa [List.append_nil]
  · rw [hlog] at hc
    rcases hc.split with ⟨l, hacts, rfl⟩ | ⟨l, hlast, -⟩
    · rcases List.mem_append.1 ha with ha | ha
      · rcases hacts.split with ⟨l', hold, rfl⟩ | ⟨l', hin, -⟩
        · rcases List.mem_append.1 ha with ha | ha
          · exact h.silent l1 q l' hold a ha
          · exact hquiet hold.halved a ha
        · exact absurd hin.halved hcut
      · rw [List.mem_singleton.1 ha]
        rfl
    · obtain ⟨-, -, rfl⟩ := hnew hlast
      cases ha
  · rw [hlog]
    exact ⟨p, List.mem_append_right _ (List.mem_singleton_self _)⟩

/-- There are four states. -/
theorem State.rank_le (s : State) : s.rank ≤ 3 := by cases s <;> decide

/-- Plain entries of a log write nothing and shut nothing down. -/
theorem Act.plain_spec {a : Act} (h : a.plain = true) :
    a.writes = false ∧ (∀ p, a ≠ .shutdownWrite p) ∧ ∀ mark, a ≠ .shutdown mark := by
  cases a <;> simp_all [Act.plain, Act.writes]

/-- A function that neither sends nor writes, and does not start to shut down. -/
theorem ShutInv.of_plain (h : ShutInv w) (hp : Plain w w') (hs : StreamInv w')
    (hrank : w.state.rank ≤ w'.state.rank)
    (hdis : w'.state = .disconnecting → w.state = .disconnecting) : ShutInv w' := by
  obtain ⟨l, hl, hlp⟩ := hp.log
  refine h.extend hs hl (fun _ a ha => (Act.plain_spec (hlp a ha)).1) ?_ ?_ hrank ?_
  · exact fun ⟨p, hm⟩ => (Act.plain_spec (hlp _ hm)).2.1 p rfl
  · exact fun mark hm => absurd rfl ((Act.plain_spec (hlp _ hm)).2.2 mark)
  · exact fun hd hb => h.done (hdis hd) (hp.outputBuf ▸ hb)

/-- A function that closes the connection. -/
theorem ShutInv.of_close (h : ShutInv w) (hp : Plain w w') (hs : StreamInv w')
    (hstate : w'.state = .disconnected) : ShutInv w' :=
  h.of_plain hp hs (hstate ▸ State.rank_le w.state) fun hd => by
    rw [hstate] at hd
    cases hd

/-- A function that neither sends nor writes and keeps the state. -/
theorem ShutInv.of_same (h : ShutInv w) (hp : Plain w w') (hs : StreamInv w')
    (hstate : w'.state = w.state) : ShutInv w' :=
  h.of_plain hp hs (Nat.le_of_eq (by rw [hstate])) fun hd => hstate ▸ hd

section OutputStream

variable {o : OutputStream} {data : List UInt8} {r : WriteResult}

/-- A send logs writes only. -/
theorem writes_push (o : OutputStream) (data : List UInt8) (r : WriteResult) {a : Act}
    (h : a ∈ (o.push data r).2) : a.writes = true := by
  unfold OutputStream.push at h
  split at h
  · split at h
    · rw [List.mem_singleton.1 h]
      rfl
    · split at h <;>
      · rw [List.mem_singleton.1 h]
        rfl
  · cases h

/-- A flush logs writes only. -/
theorem writes_flush (o : OutputStream) (r : WriteResult) {a : Act} (h : a ∈ (o.flush r).2) :
    a.writes = true := by
  unfold OutputStream.flush at h
  split at h
  · split at h
    · rw [List.mem_singleton.1 h]
      rfl
    · split at h <;>
      · rw [List.mem_singleton.1 h]
        rfl
  · cases h

/-- A send leaves nothing waiting only where nothing waited. -/
theorem pending_of_push (h : (o.push data r).1.pending = []) : o.pending = [] := by
  unfold OutputStream.push at h
  split at h
  case isTrue hnil => exact hnil.2
  case isFalse => exact (List.append_eq_nil_iff.1 h).1

end OutputStream

/-- Acts that are writes do not half-close. -/
theorem not_halved_of_writes {l : List Act} (h : ∀ a ∈ l, a.writes = true) :
    ¬ Halved l ∧ ∀ mark, Act.shutdown mark ∉ l :=
  ⟨fun ⟨_, hp⟩ => absurd (h _ hp) (by simp [Act.writes]),
    fun _ hm => absurd (h _ hm) (by simp [Act.writes])⟩

/-- A send from the queue. -/
theorem shutInv_queued (h : ShutInv w) {tag : Tag} {data : List UInt8} {q : TaskQueue Task}
    (hq : queued w.loop.tasks = (tag, data) :: queued q.tasks) (r : WriteResult)
    (hclean : PushClean { w with loop := q }) :
    ShutInv ({ w with loop := q }.sendInLoop tag data r) := by
  have hs := h.stream.of_queued hq r
  by_cases hstate : w.state = .disconnected
  · have hsame : { w with loop := q }.sendInLoop tag data r = { w with loop := q } := by
      unfold sendInLoop
      rw [if_pos hstate]
    rw [hsame] at hs ⊢
    exact h.extend hs (List.append_nil w.log).symm (fun _ _ ha => by cases ha)
      (fun ⟨_, hp⟩ => by cases hp) (fun _ hm => by cases hm) (Nat.le_refl _) h.done
  · have hsent := sendInLoop_output (w := { w with loop := q }) hstate tag data r
    have hwrites := not_halved_of_writes fun _ =>
      writes_push ({ w with loop := q } : TcpConnection).output data r
    refine h.extend hs hsent.log (fun hhalved a ha => ?_) ?_ ?_ ?_ ?_
    · -- after `SHUT_WR` the payload is put behind the waiting bytes
      have hwait := hclean hstate hhalved
      have hpush : (({ w with loop := q } : TcpConnection).output.push data r).2 = [] := by
        unfold OutputStream.push
        rw [if_neg]
        rintro ⟨hwant, hpend⟩
        rcases hwait with hw | hw
        · have : w.channel.isEnableWrite = false := hwant
          rw [hw] at this
          cases this
        · exact hw hpend
      rw [hpush, List.mem_singleton] at ha
      rw [ha]
      rfl
    · exact fun ⟨p, hp⟩ => hwrites.1 ⟨p, (List.mem_cons.1 hp).resolve_left (by simp)⟩
    · exact fun mark hm => absurd ((List.mem_cons.1 hm).resolve_left (by simp)) (hwrites.2 mark)
    · exact Nat.le_of_eq (by rw [hsent.state])
    · intro hd hb
      rw [hsent.state] at hd
      have hpend := congrArg OutputStream.pending hsent.output
      exact h.done hd (pending_of_push (hpend.symm.trans hb))

/-- A connected connection has not been half-closed. -/
theorem ShutInv.not_halved (h : ShutInv w) (hstate : w.state = .connected) : ¬ Halved w.log := by
  intro hh
  have := h.halved hh
  rw [hstate] at this
  exact absurd this (by decide)

/-- A send of the loop's own thread. -/
theorem shutInv_direct (h : ShutInv w) (hstate : w.state = .connected) (data : List UInt8)
    (r : WriteResult) :
    ShutInv ((w.accept none data).1.sendInLoop (w.accept none data).2 data r) := by
  have hlive : w.state ≠ .disconnected := by
    rw [hstate]
    decide
  have hs := h.stream.of_direct hlive data r
  have hsent := sendInLoop_output (w := (w.accept none data).1) hlive (w.accept none data).2 data r
  have hwrites := not_halved_of_writes fun _ => writes_push (w.accept none data).1.output data r
  have hlog : (w.accept none data).1.log = w.log ++ [.send (w.accept none data).2 data] := rfl
  have hstate' := hsent.state.trans hstate
  refine h.extend hs (hsent.log.trans (by rw [hlog, List.append_assoc]))
    (fun hh => absurd hh (h.not_halved hstate)) ?_ ?_ 
    (Nat.le_of_eq (by rw [hsent.state]; rfl)) ?_
  · rintro ⟨p, hp⟩
    simp only [List.singleton_append, List.mem_cons, reduceCtorEq, false_or] at hp
    exact hwrites.1 ⟨p, hp⟩
  · intro mark hm
    simp only [List.singleton_append, List.mem_cons, reduceCtorEq, false_or] at hm
    exact absurd hm (hwrites.2 mark)
  · intro hd
    rw [hstate'] at hd
    cases hd

/-- A `sendOutputBuf`. -/
theorem shutInv_flush (h : ShutInv w) (r : WriteResult) (hclean : w.FlushClean r) :
    ShutInv (w.sendOutputBufInLoop r) := by
  have hs := streamInv_sendOutputBuf h.stream r
  by_cases hstate : w.state = .disconnected
  · unfold sendOutputBufInLoop
    rwa [if_pos hstate]
  have hsent := sendOutputBufInLoop_output hstate r
  have hwrites := not_halved_of_writes fun _ => writes_flush w.output r
  refine h.extend hs hsent.log ?_ hwrites.1
    (fun mark hm => absurd hm (hwrites.2 mark))
    (Nat.le_of_eq (by rw [hsent.state])) ?_
  · intro hh a ha
    by_cases hdirect : w.output.want = false ∧ w.output.pending ≠ []
    · exact absurd hh (hclean hstate hdirect.1 hdirect.2).1
    · unfold OutputStream.flush at ha
      rw [if_neg hdirect] at ha
      cases ha
  · intro hd hb
    rw [hsent.state] at hd
    have hpend := (congrArg OutputStream.pending hsent.output).symm.trans hb
    by_cases hdirect : w.output.want = false ∧ w.output.pending ≠ []
    · have hlast := (hclean hstate hdirect.1 hdirect.2).2 hd
      unfold OutputStream.flush at hpend
      rw [if_pos hdirect] at hpend
      cases r with
      | accepted n =>
        have hle : w.outputBuf.length ≤ n := List.drop_eq_nil_iff.1 hpend
        exact absurd (hlast n rfl) (Nat.not_lt.2 hle)
      | failed e =>
        dsimp only at hpend
        split at hpend <;> exact absurd hpend hdirect.2
    · unfold OutputStream.flush at hpend
      rw [if_neg hdirect] at hpend
      exact h.done hd hpend

/-- A write of the kernel's choice from a connection that waits for it. -/
theorem shutInv_drain (h : ShutInv w) (hstate : w.state ≠ .disconnected)
    (hwant : w.channel.isEnableWrite = true) (n : ℕ) {onClose : TcpConnection → TcpConnection}
    (hquiet : Quiet onClose) (hclean : w.DrainClean (.accepted n)) :
    ShutInv (w.handleWrite (.accepted n) onClose) := by
  have hs := streamInv_handleWrite hquiet h.stream (.accepted n)
  have hsent := handleWrite_output hstate hwant n onClose
  obtain ⟨hnot, hnone⟩ := hclean hstate hwant
  have hold : Halved w.log → ∀ a ∈ [Act.write (w.outputBuf.take n)], a.writes = false :=
    fun hh => absurd hh hnot
  have hnocut : ¬ Halved [Act.write (w.outputBuf.take n)] := by simp [Halved]
  by_cases hlast : (w.output.drain n).want = false ∧ w.state = .disconnecting
  · rw [if_pos hlast] at hsent
    obtain ⟨hdrained, hdis⟩ := hlast
    have hpend : w.outputBuf.drop n = [] := by
      have : w.output.pending.isEmpty = false ∧ (w.outputBuf.drop n).isEmpty = true := by
        simpa [OutputStream.drain, output] using hdrained
      exact List.isEmpty_iff.1 this.2
    -- the connection between the write and the half-close
    let w1 := { w.emit (.write (w.outputBuf.take n)) with outputBuf := w.outputBuf.drop n }
    have hw1 : Sent w w1 { want := w.channel.isEnableWrite, pending := w.outputBuf.drop n }
        [.write (w.outputBuf.take n)] :=
      ⟨.of_eq rfl rfl rfl rfl, rfl, rfl, rfl, [], by simp [w1]⟩
    have hs1 : StreamInv w1 := h.stream.of_drain hw1 rfl rfl (by simp [written])
    have hdel : Delivered w1.log [] := by
      refine delivered_of_empty hs1 hstate hpend fun mark hm => ?_
      have hm' : Act.shutdown mark ∈ w.log := by simpa [w1] using hm
      exact hnone hdis n rfl (List.drop_eq_nil_iff.1 hpend) mark hm'
    refine h.halve hs (hsent.log.trans (by simp)) hold hnocut hdel ?_
    rw [hsent.state, hdis]
    decide
  · rw [if_neg hlast] at hsent
    refine h.extend hs hsent.log hold hnocut (by simp) (Nat.le_of_eq (by rw [hsent.state])) ?_
    intro hd hb
    rw [hsent.state] at hd
    have hpend := (congrArg OutputStream.pending hsent.output).symm.trans hb
    have hwait : (w.output.drain n).want = true := by
      by_contra hne
      exact hlast ⟨by simpa using hne, hd⟩
    have hdrop : (w.output.pending.drop n).isEmpty = true := List.isEmpty_iff.2 hpend
    have hempty : w.output.pending.isEmpty = true := by
      simpa [OutputStream.drain, hdrop] using hwait
    exact h.done hd (List.isEmpty_iff.1 hempty)

/-- A shutdown with the write interest on takes effect, and leaves the
half-close to `handleWrite`. -/
theorem shutdownInLoop_on (hstate : w.state = .connected)
    (hwant : w.channel.isEnableWrite = true) (mark : ℕ) :
    w.shutdownInLoop mark = { w with state := .disconnecting }.emit (.shutdown mark) := by
  unfold shutdownInLoop
  rw [if_pos hstate]
  exact if_pos hwant

/-- A shutdown with the write interest off takes effect, and half-closes at
once, whatever is in the buffer. -/
theorem shutdownInLoop_off (hstate : w.state = .connected)
    (hwant : ¬ w.channel.isEnableWrite = true) (mark : ℕ) :
    w.shutdownInLoop mark = ({ w with state := .disconnecting }.emit (.shutdown mark)).emit
      (.shutdownWrite w.outputBuf) := by
  unfold shutdownInLoop
  rw [if_pos hstate]
  exact if_neg hwant

/-- `shutdownInLoop`. -/
theorem shutInv_shutdownInLoop (h : ShutInv w) (mark : ℕ) (hclean : w.ShutdownClean mark) :
    ShutInv (w.shutdownInLoop mark) := by
  have hs := streamInv_shutdownInLoop h.stream mark
  by_cases hstate : w.state = .connected
  case neg =>
    unfold shutdownInLoop
    rwa [if_neg hstate]
  obtain ⟨hon, hoff⟩ := hclean hstate
  have hnot := h.not_halved hstate
  have hold : Halved w.log → ∀ a ∈ [Act.shutdown mark], a.writes = false :=
    fun hh => absurd hh hnot
  have hnocut : ¬ Halved [Act.shutdown mark] := by simp [Halved]
  by_cases hwant : w.channel.isEnableWrite = true
  · rw [shutdownInLoop_on hstate hwant] at hs ⊢
    refine h.extend hs rfl hold hnocut (fun _ _ => Nat.le_refl 2) ?_ ?_
    · rw [hstate]
      exact Nat.le_succ 1
    · exact fun _ hb => absurd hb (hon hwant)
  · rw [shutdownInLoop_off hstate hwant] at hs ⊢
    obtain ⟨hbuf, hnone⟩ := hoff (by simpa using hwant)
    -- the connection between the change of state and the half-close
    let w1 := { w with state := .disconnecting }.emit (.shutdown mark)
    have hs1 : StreamInv w1 :=
      h.stream.of_log (l := [.shutdown mark]) rfl rfl rfl rfl rfl rfl rfl fun _ => by
        rw [hstate]
        decide
    have hdel : Delivered w1.log [] := by
      refine delivered_of_empty hs1 (fun hd => by cases hd) hbuf fun m hm => ?_
      rcases List.mem_append.1 hm with hm | hm
      · have := h.marked m hm
        rw [hstate] at this
        exact absurd this (by decide)
      · cases List.mem_singleton.1 hm
        exact hnone
    rw [hbuf] at hs ⊢
    exact h.halve hs rfl hold hnocut hdel (Nat.le_refl 2)

section Quiet

variable {onClose : TcpConnection → TcpConnection} (hquiet : Quiet onClose)
include hquiet

/-- A close keeps the invariant. -/
theorem shutInv_handleClose (h : ShutInv w) : ShutInv (w.handleClose onClose) :=
  h.of_close (plain_handleClose hquiet w) (streamInv_handleClose hquiet h.stream)
    (handleClose_state hquiet w)

/-- A close by force keeps the invariant. -/
theorem shutInv_forceCloseInLoop (h : ShutInv w) : ShutInv (w.forceCloseInLoop onClose) := by
  have hs := streamInv_forceCloseInLoop hquiet h.stream
  rcases forceCloseInLoop_state hquiet w with hsame | hclosed
  · rwa [hsame]
  · exact h.of_close (plain_forceCloseInLoop hquiet w) hs hclosed

/-- Reading keeps the invariant. -/
theorem shutInv_handleRead (h : ShutInv w) (r : ReadResult) :
    ShutInv (w.handleRead r onClose) := by
  have hs := streamInv_handleRead hquiet h.stream r
  unfold handleRead at hs ⊢
  split
  · exact h
  case isFalse hstate =>
    rw [if_neg hstate] at hs
    cases r with
    | data b bytes =>
      have hread : Plain w { w with inputBuf := w.inputBuf ++ b :: bytes } :=
        Plain.of_eq rfl rfl rfl rfl
      dsimp only at hs ⊢
      split
      case isTrue hhandler =>
        rw [if_pos hhandler] at hs
        exact h.of_same (hread.emit rfl) hs rfl
      case isFalse hhandler =>
        rw [if_neg hhandler] at hs
        exact h.of_same hread hs rfl
    | eof => exact shutInv_handleClose hquiet h
    | failed => exact h

/-- A write of the loop keeps the invariant, when it half-closes with nothing
queued from before. -/
theorem shutInv_handleWrite (h : ShutInv w) (r : WriteResult) (hclean : w.DrainClean r) :
    ShutInv (w.handleWrite r onClose) := by
  by_cases hstate : w.state = .disconnected
  · unfold handleWrite
    rwa [if_pos hstate]
  by_cases hwant : w.channel.isEnableWrite = true
  · cases r with
    | accepted n => exact shutInv_drain h hstate hwant n hquiet hclean
    | failed e =>
      have hnot := (hclean hstate hwant).1
      have hs : StreamInv (w.emit (.writeErr e)) :=
        h.stream.of_log (l := [.writeErr e]) rfl rfl rfl rfl rfl rfl rfl fun hd => hd
      have herr : ShutInv (w.emit (.writeErr e)) :=
        h.extend hs rfl (fun hh => absurd hh hnot) (by simp [Halved]) (by simp) (Nat.le_refl _)
          h.done
      unfold handleWrite
      rw [if_neg hstate, if_pos hwant]
      exact shutInv_handleClose hquiet herr
  · unfold handleWrite
    rwa [if_neg hstate, if_neg hwant]

/-- A call in the loop's thread keeps the invariant, when a shutdown it makes is
clean. -/
theorem shutInv_callInLoop (h : ShutInv w) (r : WriteResult) {c : Call}
    (hclean : c = .shutdown → w.ShutdownClean w.accepted) :
    ShutInv (w.callInLoop r onClose c) := by
  have hs := streamInv_callInLoop hquiet h.stream r c
  have hsilent : ∀ {w'}, Silent w w' → ShutInv w' := fun hw =>
    h.of_same hw.plain (h.stream.of_plain hw.plain fun hd => hw.state ▸ hd) hw.state
  cases c with
  | send data =>
    simp only [callInLoop]
    split
    case isTrue hc => exact shutInv_direct h hc data r
    case isFalse => exact h
  | sendBuffer buf | sendBufferMove buf =>
    simp only [callInLoop, sendInLoopBuf_fst]
    split
    case isTrue hc => exact shutInv_direct h hc buf r
    case isFalse => exact h
  | sendOutputBuf =>
    simp only [callInLoop]
    split
    case isTrue hc =>
      -- a connected connection is neither half-closed nor shutting down
      refine shutInv_flush h r fun _ _ _ => ⟨h.not_halved hc, fun hd => ?_⟩
      rw [hc] at hd
      cases hd
    case isFalse => exact h
  | shutdown =>
    simp only [callInLoop]
    split
    · exact shutInv_shutdownInLoop h w.accepted (hclean rfl)
    · exact h
  | forceClose =>
    simp only [callInLoop]
    split
    · exact shutInv_forceCloseInLoop hquiet h
    · exact h
  | forceCloseDelay =>
    simp only [callInLoop]
    split
    · exact h.of_same (Plain.of_eq rfl rfl rfl rfl)
        (h.stream.of_plain (Plain.of_eq rfl rfl rfl rfl) fun hd => hd) rfl
    · exact h
  | enableRead => exact hsilent (silent_enableReadInLoop w)
  | disableRead => exact hsilent (silent_disableReadInLoop w)
  | enableWrite => exact hsilent (silent_enableWriteInLoop w)
  | disableWrite => exact hsilent (silent_disableWriteInLoop w)
  | setHighWaterMark bytes => exact h.of_same (Plain.of_eq rfl rfl rfl rfl) hs rfl
  | setTcpHandler handler => exact h.of_same (Plain.of_eq rfl rfl rfl rfl) hs rfl

/-- A task that does not send. -/
theorem shutInv_runTask (h : ShutInv w) (r : WriteResult) {t : Task} (ht : t.plain = true)
    (hclean : w.TaskClean r t) : ShutInv (w.runTask r onClose t) := by
  have hs := streamInv_runTask hquiet h.stream r ht
  have hnot : ∀ {c : Call}, c ≠ .shutdown → ShutInv (w.callInLoop r onClose c) := fun hc =>
    shutInv_callInLoop hquiet h r fun he => absurd he hc
  cases t with
  | sendInLoopStr tag data => cases ht
  | sendInLoopBuf tag buf => cases ht
  | sendOutputBufInLoop => exact shutInv_flush h r hclean
  | shutdownInLoop mark => exact shutInv_shutdownInLoop h mark hclean
  | forceCloseInLoop => exact shutInv_forceCloseInLoop hquiet h
  | enableReadInLoop => exact hnot (c := .enableRead) (by decide)
  | disableReadInLoop => exact hnot (c := .disableRead) (by decide)
  | enableWriteInLoop => exact hnot (c := .enableWrite) (by decide)
  | disableWriteInLoop => exact hnot (c := .disableWrite) (by decide)
  | removeItself =>
    exact h.of_close (plain_removeItself hquiet w) hs (removeItself_state hquiet w)
  | onWriteComplete => exact h.of_same ((Plain.refl w).emit rfl) hs rfl
  | onHighWaterMark len => exact h.of_same ((Plain.refl w).emit rfl) hs rfl
  | tie => exact h

/-- The next task of the queue. -/
theorem shutInv_nextTask (h : ShutInv w) (r : WriteResult) {t : Task} {q : TaskQueue Task}
    (hnext : w.loop.nextTask = some (t, q)) (hclean : TaskClean { w with loop := q } r t) :
    ShutInv ({ w with loop := q }.runTask r onClose t) := by
  have htasks : queued w.loop.tasks = queued [t] ++ queued q.tasks := by
    rw [TaskQueue.tasks_nextTask hnext, ← queued_append, List.singleton_append]
  by_cases ht : t.plain = true
  · have hnil : queued [t] = [] := queued_of_plain (by simpa using ht)
    have hq : StreamInv { w with loop := q } :=
      h.stream.of_log (l := []) (by simp) rfl rfl rfl rfl rfl (by rw [htasks, hnil]; rfl)
        fun hd => hd
    have hrest : ShutInv { w with loop := q } :=
      ⟨⟨h.delivered, h.silent, h.done⟩, hq, h.marked, h.halved⟩
    exact shutInv_runTask hquiet hrest r ht hclean
  · cases t with
    | sendInLoopStr tag data => exact shutInv_queued h htasks r hclean
    | sendInLoopBuf tag buf =>
      simp only [runTask, sendInLoopBuf_fst]
      exact shutInv_queued h htasks r hclean
    | _ => exact absurd rfl ht

end Quiet

/-- A call from another thread only queues. -/
theorem shutInv_callForeign (h : ShutInv w) (thread : ℕ) (seen : State) (c : Call) :
    ShutInv (w.callForeign thread seen c) := by
  have hs := streamInv_callForeign h.stream thread seen c
  have hsend : ∀ (data : List UInt8) (t : Task),
      StreamInv ((w.accept (some thread) data).1.queueInLoop t) →
      ShutInv ((w.accept (some thread) data).1.queueInLoop t) := fun data t hst =>
    h.extend hst (show _ = w.log ++ [.send (w.accept (some thread) data).2 data] from rfl)
      (fun _ a ha => by rw [List.mem_singleton.1 ha]; rfl) (by simp [Halved]) (by simp)
      (Nat.le_refl _) h.done
  have hqueue : ∀ {t : Task}, t.plain = true → ShutInv (w.queueInLoop t) := fun ht =>
    h.of_same ((Plain.refl w).queueInLoop ht)
      (h.stream.of_plain ((Plain.refl w).queueInLoop ht) fun hd => hd) rfl
  cases c with
  | send data | sendBuffer data =>
    simp only [callForeign] at hs ⊢
    split
    case isTrue hc =>
      rw [if_pos hc] at hs
      exact hsend data _ hs
    case isFalse => exact h
  | sendBufferMove buf =>
    simp only [callForeign] at hs ⊢
    split
    case isTrue hc =>
      rw [if_pos hc] at hs
      exact hsend buf _ hs
    case isFalse => exact h
  | sendOutputBuf | shutdown | forceClose =>
    simp only [callForeign]
    split
    · exact hqueue rfl
    · exact h
  | forceCloseDelay =>
    simp only [callForeign]
    split
    · exact h.of_same (Plain.of_eq rfl rfl rfl rfl)
        (h.stream.of_plain (Plain.of_eq rfl rfl rfl rfl) fun hd => hd) rfl
    · exact h
  | enableRead | disableRead | enableWrite | disableWrite => exact hqueue rfl
  | setHighWaterMark bytes => exact h
  | setTcpHandler handler => exact h

/-- **Every clean step keeps the promise.** -/
theorem shutInv_step (w : TcpConnection) (i : Input) (w' : TcpConnection) (h : ShutInv w)
    (hclean : w.Clean i) (hstep : step w i = some w') : ShutInv w' := by
  have hs := streamInv_step w i w' h.stream hstep
  cases i with
  | onConnection =>
    simp only [step] at hstep
    split at hstep
    case isFalse => cases hstep
    case isTrue hc =>
      obtain rfl := Option.some.inj hstep
      have hplain : Plain w { w with state := .connected }.enableReadEvent :=
        Plain.of_eq rfl rfl rfl rfl
      have hrank : w.state.rank ≤ 1 := by
        rw [hc]
        exact Nat.zero_le 1
      split at hs
      case isTrue hhandler =>
        rw [if_pos hhandler]
        exact h.of_plain (hplain.emit rfl) hs hrank fun hd => by cases hd
      case isFalse hhandler =>
        rw [if_neg hhandler]
        exact h.of_plain hplain hs hrank fun hd => by cases hd
  | handleRead r onClose =>
    obtain rfl := Option.some.inj hstep
    exact shutInv_handleRead (quiet_runOnClose onClose) h r
  | handleWrite r onClose =>
    obtain rfl := Option.some.inj hstep
    exact shutInv_handleWrite (quiet_runOnClose onClose) h r hclean
  | handleClose onClose =>
    obtain rfl := Option.some.inj hstep
    exact shutInv_handleClose (quiet_runOnClose onClose) h
  | handleError =>
    obtain rfl := Option.some.inj hstep
    exact h
  | call c r onClose =>
    obtain rfl := Option.some.inj hstep
    exact shutInv_callInLoop (quiet_runOnClose onClose) h r fun hc => by
      subst hc
      exact hclean
  | foreign thread seen c =>
    simp only [step] at hstep
    split at hstep
    case isFalse => cases hstep
    case isTrue =>
      obtain rfl := Option.some.inj hstep
      exact shutInv_callForeign h thread seen c
  | teardown onClose =>
    obtain rfl := Option.some.inj hstep
    exact h.of_close (plain_removeItself (quiet_runOnClose onClose) w) hs
      (removeItself_state (quiet_runOnClose onClose) w)
  | foreignTeardown =>
    obtain rfl := Option.some.inj hstep
    exact h.of_same ((Plain.refl w).queueInLoop rfl) hs rfl
  | delayedForceClose onClose =>
    simp only [step] at hstep
    split at hstep
    case isFalse => cases hstep
    case isTrue =>
      obtain rfl := Option.some.inj hstep
      have hfired : ShutInv { w with delayed := w.delayed - 1 } :=
        h.of_same (Plain.of_eq rfl rfl rfl rfl)
          (h.stream.of_plain (Plain.of_eq rfl rfl rfl rfl) fun hd => hd) rfl
      exact shutInv_forceCloseInLoop (quiet_runOnClose onClose) hfired
  | swapTasks | endTasks =>
    obtain ⟨q, -, rfl⟩ := Option.map_eq_some_iff.1 hstep
    exact ⟨⟨h.delivered, h.silent, h.done⟩, hs, h.marked, h.halved⟩
  | nextTask r onClose =>
    obtain ⟨⟨t, q⟩, hq, rfl⟩ := Option.map_eq_some_iff.1 hstep
    exact shutInv_nextTask (quiet_runOnClose onClose) h r hq (hclean t q hq)
  | otherUpdate c ch | otherRemove c ch =>
    simp only [step] at hstep
    split at hstep
    case isFalse => cases hstep
    case isTrue =>
      obtain rfl := Option.some.inj hstep
      exact ⟨⟨h.delivered, h.silent, h.done⟩, hs, h.marked, h.halved⟩

/-! ### Steps that break the promise -/

/-- A write after `SHUT_WR` breaks the promise. -/
theorem not_ok_of_write {acts : List Act} (hhalved : Halved w.log)
    (hlog : w'.log = w.log ++ acts) {a : Act} (ha : a ∈ acts) (hwrite : a.writes = true) :
    ¬ w'.ShutdownOk := by
  obtain ⟨p, hp⟩ := hhalved
  obtain ⟨l1, l2, hl⟩ := List.append_of_mem hp
  intro hok
  have hcut : Cut w'.log l1 p (l2 ++ acts) := by
    rw [hlog, hl]
    simp [Cut]
  have := hok.silent l1 p _ hcut a (List.mem_append_right _ ha)
  rw [hwrite] at this
  cases this

/-- A half-close that does not deliver breaks the promise. -/
theorem not_ok_of_cut {l1 : List Act} {p : List UInt8} {l2 : List Act} (hcut : Cut w'.log l1 p l2)
    (hdel : ¬ Delivered l1 p) : ¬ w'.ShutdownOk :=
  fun hok => hdel (hok.delivered l1 p l2 hcut)

/-- A shutdown that is not clean breaks the promise at once, or leaves bytes
that nothing will write. -/
theorem not_ok_of_shutdown (h : ShutInv w) {mark : ℕ} (hbad : ¬ w.ShutdownClean mark) :
    ¬ (w.shutdownInLoop mark).ShutdownOk := by
  obtain ⟨hstate, hbad⟩ := Classical.not_imp.1 hbad
  have hlive : w.state ≠ .disconnected := by
    rw [hstate]
    decide
  have hnot := h.not_halved hstate
  by_cases hwant : w.channel.isEnableWrite = true
  · -- it leaves the half-close to a `handleWrite` that has nothing to write
    have hbuf : w.outputBuf = [] := by
      by_contra hne
      exact hbad ⟨fun _ => hne, fun hoff => by rw [hwant] at hoff; cases hoff⟩
    rw [shutdownInLoop_on hstate hwant]
    intro hok
    obtain ⟨p, hp⟩ := hok.done rfl hbuf
    rcases List.mem_append.1 hp with hp | hp
    · exact hnot ⟨p, hp⟩
    · cases List.mem_singleton.1 hp
  · rw [shutdownInLoop_off hstate hwant]
    have hcut : Cut (w.log ++ [.shutdown mark] ++ [.shutdownWrite w.outputBuf])
        (w.log ++ [.shutdown mark]) w.outputBuf [] := rfl
    refine not_ok_of_cut hcut fun hdel => ?_
    -- the connection between the change of state and the half-close
    let w1 := { w with state := .disconnecting }.emit (.shutdown mark)
    have hs1 : StreamInv w1 :=
      h.stream.of_log (l := [.shutdown mark]) rfl rfl rfl rfl rfl rfl rfl fun _ => hlive
    have hqueued : ¬ w1.NoneQueued mark := fun hnone =>
      hbad ⟨fun hon => absurd hon hwant, fun _ => ⟨hdel.empty, hnone⟩⟩
    exact not_delivered_of_queued hs1 (fun hd => by cases hd)
      (List.mem_append_right _ (List.mem_singleton_self _)) hqueued w.outputBuf hdel

/-- A send after `SHUT_WR` that finds the interest off and nothing waiting. -/
theorem not_ok_of_push (hbad : ¬ w.PushClean) (tag : Tag) (data : List UInt8) (r : WriteResult) :
    ¬ (w.sendInLoop tag data r).ShutdownOk := by
  obtain ⟨hstate, hbad⟩ := Classical.not_imp.1 hbad
  obtain ⟨hhalved, hbad⟩ := Classical.not_imp.1 hbad
  have hdirect : w.output.want = false ∧ w.output.pending = [] :=
    ⟨Bool.eq_false_iff.2 fun hw => hbad (Or.inl hw), by
      by_contra hne
      exact hbad (Or.inr hne)⟩
  have hsent := sendInLoop_output hstate tag data r
  have hacts : ∃ a ∈ (w.output.push data r).2, a.writes = true := by
    unfold OutputStream.push
    rw [if_pos hdirect]
    cases r with
    | accepted n => exact ⟨_, List.mem_singleton_self _, rfl⟩
    | failed e =>
      dsimp only
      split <;> exact ⟨_, List.mem_singleton_self _, rfl⟩
  obtain ⟨a, ha, hwrites⟩ := hacts
  exact not_ok_of_write hhalved hsent.log (List.mem_cons_of_mem _ ha) hwrites

/-- A `sendOutputBuf` that writes after `SHUT_WR`, or the last bytes of a
connection that is shutting down. -/
theorem not_ok_of_flush {r : WriteResult} (hbad : ¬ w.FlushClean r) :
    ¬ (w.sendOutputBufInLoop r).ShutdownOk := by
  obtain ⟨hstate, hbad⟩ := Classical.not_imp.1 hbad
  obtain ⟨hwant, hbad⟩ := Classical.not_imp.1 hbad
  obtain ⟨hbuf, hbad⟩ := Classical.not_imp.1 hbad
  have hdirect : w.output.want = false ∧ w.output.pending ≠ [] := ⟨hwant, hbuf⟩
  have hsent := sendOutputBufInLoop_output hstate r
  unfold OutputStream.flush at hsent
  rw [if_pos hdirect] at hsent
  by_cases hhalved : Halved w.log
  · cases r with
    | accepted n => exact not_ok_of_write hhalved hsent.log (List.mem_singleton_self _) rfl
    | failed e =>
      dsimp only at hsent
      split at hsent <;> exact not_ok_of_write hhalved hsent.log (List.mem_singleton_self _) rfl
  · obtain ⟨hdis, hlast⟩ := Classical.not_imp.1 fun hgood => hbad ⟨hhalved, hgood⟩
    obtain ⟨n, hn⟩ := not_forall.1 hlast
    obtain ⟨rfl, hle⟩ := Classical.not_imp.1 hn
    intro hok
    have hpend := congrArg OutputStream.pending hsent.output
    have hnil : w.outputBuf.drop n = [] := List.drop_eq_nil_iff.2 (Nat.not_lt.1 hle)
    obtain ⟨p, hp⟩ := hok.done (hsent.state.trans hdis) (hpend.trans hnil)
    rw [hsent.log] at hp
    rcases List.mem_append.1 hp with hp | hp
    · exact hhalved ⟨p, hp⟩
    · cases List.mem_singleton.1 hp

/-- A `handleWrite` that writes after `SHUT_WR`, or half-closes while an earlier
send is queued. -/
theorem not_ok_of_drain (h : ShutInv w) {r : WriteResult} (hbad : ¬ w.DrainClean r)
    {onClose : TcpConnection → TcpConnection} (hquiet : Quiet onClose) :
    ¬ (w.handleWrite r onClose).ShutdownOk := by
  obtain ⟨hstate, hbad⟩ := Classical.not_imp.1 hbad
  obtain ⟨hwant, hbad⟩ := Classical.not_imp.1 hbad
  by_cases hhalved : Halved w.log
  · cases r with
    | accepted n =>
      exact not_ok_of_write hhalved (handleWrite_output hstate hwant n onClose).log
        (List.mem_cons_self ..) rfl
    | failed e =>
      unfold handleWrite
      rw [if_neg hstate, if_pos hwant]
      obtain ⟨l, hl, -⟩ := (plain_handleClose hquiet (w.emit (.writeErr e))).log
      exact not_ok_of_write hhalved (hl.trans (List.append_assoc ..)) (List.mem_cons_self ..) rfl
  · obtain ⟨hdis, hbad⟩ := Classical.not_imp.1 fun hgood => hbad ⟨hhalved, hgood⟩
    obtain ⟨n, hn⟩ := not_forall.1 hbad
    obtain ⟨rfl, hlast⟩ := Classical.not_imp.1 hn
    obtain ⟨hle, hlast⟩ := Classical.not_imp.1 hlast
    obtain ⟨mark, hm⟩ := not_forall.1 hlast
    obtain ⟨hmark, hqueued⟩ := Classical.not_imp.1 hm
    have hsent := handleWrite_output hstate hwant n onClose
    have hnil : w.outputBuf.drop n = [] := List.drop_eq_nil_iff.2 hle
    have hbuf : w.outputBuf ≠ [] := fun hb => hhalved (h.done hdis hb)
    have hlast : (w.output.drain n).want = false := by
      simpa [OutputStream.drain, output, hnil] using hbuf
    rw [if_pos ⟨hlast, hdis⟩] at hsent
    -- the connection between the write and the half-close
    let w1 := { w.emit (.write (w.outputBuf.take n)) with outputBuf := w.outputBuf.drop n }
    have hw1 : Sent w w1 { want := w.channel.isEnableWrite, pending := w.outputBuf.drop n }
        [.write (w.outputBuf.take n)] :=
      ⟨.of_eq rfl rfl rfl rfl, rfl, rfl, rfl, [], by simp [w1]⟩
    have hs1 : StreamInv w1 := h.stream.of_drain hw1 rfl rfl (by simp [written])
    have hcut : Cut (w.handleWrite (.accepted n) onClose).log w1.log [] [] :=
      hsent.log.trans (by simp [w1])
    refine not_ok_of_cut hcut ?_
    exact not_delivered_of_queued hs1 hstate (List.mem_append_left _ hmark) hqueued []

/-- A connection that has just been made has the invariant. -/
theorem shutInv_init (self : ChanId) (sockfd : ℕ) (connId : ℤ) (handler : Bool) :
    ShutInv (init self sockfd connId handler) := by
  have hnil : (init self sockfd connId handler).log = [] := rfl
  refine ⟨⟨fun l1 p l2 hc => ?_, fun l1 p l2 hc => ?_, fun hd => by cases hd⟩,
    streamInv_init self sockfd connId handler, fun _ hm => absurd hm List.not_mem_nil,
    fun ⟨_, hp⟩ => absurd hp List.not_mem_nil⟩
  · exact absurd hc (by simp [Cut, hnil])
  · exact absurd hc (by simp [Cut, hnil])

/-- **When a graceful shutdown loses nothing.**  In every run: `SHUT_WR` is
issued only with everything delivered, nothing is written after it, and a
connection that is shutting down with an empty `outputBuf` has been half-closed,
in all states, if and only if all steps of the run are clean. -/
theorem shutdown_iff (self : ChanId) (sockfd : ℕ) (connId : ℤ) (handler : Bool)
    (is : List Input) :
    Always step ShutdownOk (init self sockfd connId handler) is ↔
      Steps step Clean (init self sockfd connId handler) is := by
  refine always_iff_steps shutInv_step (fun _ h => h.toShutdownOk) ?_
    (shutInv_init self sockfd connId handler)
  intro w i h hbad
  cases i with
  | handleWrite r onClose =>
    exact ⟨_, rfl, not_ok_of_drain h hbad (quiet_runOnClose onClose)⟩
  | call c r onClose =>
    cases c with
    | shutdown =>
      have hstate : w.state = .connected := by
        by_contra hne
        exact hbad fun hc => absurd hc hne
      refine ⟨_, rfl, ?_⟩
      simp only [callInLoop, hstate, ↓reduceIte]
      exact not_ok_of_shutdown h hbad
    | _ => exact absurd trivial hbad
  | nextTask r onClose =>
    obtain ⟨t, ht⟩ := not_forall.1 hbad
    obtain ⟨q, hq⟩ := not_forall.1 ht
    obtain ⟨hnext, hbad⟩ := Classical.not_imp.1 hq
    refine ⟨{ w with loop := q }.runTask r (runOnClose onClose) t,
      by simp only [step, hnext, Option.map_some], ?_⟩
    cases t with
    | sendInLoopStr tag data => exact not_ok_of_push hbad tag data r
    | sendInLoopBuf tag buf =>
      simp only [runTask, sendInLoopBuf_fst]
      exact not_ok_of_push hbad tag buf r
    | sendOutputBufInLoop => exact not_ok_of_flush hbad
    | shutdownInLoop mark =>
      have htasks : queued w.loop.tasks = queued q.tasks := by
        rw [TaskQueue.tasks_nextTask hnext]
        rfl
      have hq : StreamInv { w with loop := q } :=
        h.stream.of_log (l := []) (by simp) rfl rfl rfl rfl rfl htasks.symm fun hd => hd
      have hrest : ShutInv { w with loop := q } :=
        ⟨⟨h.delivered, h.silent, h.done⟩, hq, h.marked, h.halved⟩
      exact not_ok_of_shutdown hrest hbad
    | _ => exact absurd trivial hbad
  | _ => exact absurd trivial hbad

/-- **A send overtaken by a shutdown.**  Another thread's `send` has been
accepted and queued when the loop's thread calls `shutdown`: `SHUT_WR` is issued
at once, and the payload is written after it. -/
theorem shutdown_overtakes_send :
    ∃ w, run step (init 0 5 1 true) [.onConnection, .foreign 1 .connected (.send [7]),
        .call .shutdown (.accepted 0) [], .swapTasks, .nextTask (.accepted 1) []] = some w ∧
      w.log = [.onConnection, .send ⟨some 1, 0⟩ [7], .shutdown 1, .shutdownWrite [],
        .execute ⟨some 1, 0⟩ [7], .write [7]] ∧ ¬ w.ShutdownOk := by
  refine ⟨_, rfl, rfl, fun h => ?_⟩
  have := h.silent [.onConnection, .send ⟨some 1, 0⟩ [7], .shutdown 1] []
    [.execute ⟨some 1, 0⟩ [7], .write [7]] rfl (.write [7]) (by simp)
  cases this

end TcpConnection
end Net
end Sevent
