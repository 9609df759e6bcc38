/-
# When the water-mark callbacks are queued

Four functions of a connection move bytes in and out of `outputBuf`, and each
decides by its own test whether `onHighWaterMark` or `onWriteComplete` is
queued.  `Queued` says when they should be: the first where the level, the
number of pending bytes, goes from below the mark to the mark or above, with
the new level; the second where a send is taken as a whole by its direct write,
or where the last pending bytes are written.

`level_callbacks` shows that every step of every run with a fixed mark and a
handler queues these callbacks and no others.  Most steps are `Calm`: they
neither touch the level nor queue a callback.
-/

import Sevent.Net.TcpConnectionSpec
import Sevent.Lib.Run

namespace Sevent
namespace Net
namespace TcpConnection

open Transition

/-- The task is one of the two callbacks. -/
def Task.callback : Task → Bool
  | .onWriteComplete | .onHighWaterMark _ => true
  | _ => false

/-- The act is the execution of a send or a write. -/
def Act.moves : Act → Bool
  | .execute .. | .write _ => true
  | _ => false

/-- The level goes from below the mark to the mark or above. -/
def Rises (w w' : TcpConnection) : Prop :=
  w.outputBuf.length < w.hightWaterMark ∧ w.hightWaterMark ≤ w'.outputBuf.length

/-- The last pending bytes are gone. -/
def Drains (w w' : TcpConnection) : Prop := w.outputBuf ≠ [] ∧ w'.outputBuf = []

/-- A send was executed, and one write took all of it. -/
def Taken (acts : List Act) : Prop := ∃ tag data, .execute tag data ∈ acts ∧ .write data ∈ acts

/-- The tasks `ts` that a step has queued, and the acts that it has logged, hold
the callbacks they should: at most one. -/
structure Queued (w w' : TcpConnection) (ts : List Task) (acts : List Act) : Prop where
  high : ∀ len, .onHighWaterMark len ∈ ts ↔ Rises w w' ∧ len = w'.outputBuf.length
  complete : .onWriteComplete ∈ ts ↔ Taken acts ∨ Drains w w'
  once : ts.countP Task.callback ≤ 1

/-- The tasks of a state that a step leaves in the queue. -/
def kept (w : TcpConnection) : Input → List Task
  | .nextTask _ _ => w.loop.tasks.tail
  | _ => w.loop.tasks

/-- The call leaves the mark and the handler as they are. -/
def Call.fixed : Call → Bool
  | .setHighWaterMark _ | .setTcpHandler _ => false
  | _ => true

/-- So do the calls of a step.  The two setters are not called from another
thread. -/
def Fixed : Input → Prop
  | .call c _ onClose => c.fixed = true ∧ ∀ c ∈ onClose, c.fixed = true
  | .handleRead _ onClose | .handleWrite _ onClose | .handleClose onClose | .teardown onClose
  | .delayedForceClose onClose | .nextTask _ onClose => ∀ c ∈ onClose, c.fixed = true
  | _ => True

/-- `w'` comes from `w` by a step, or a part of one, with the callbacks it
should queue. -/
structure Law (w w' : TcpConnection) : Prop where
  mark : w'.hightWaterMark = w.hightWaterMark
  handler : w'.tcpHandler = w.tcpHandler
  queued : ∃ ts acts, w'.loop.tasks = w.loop.tasks ++ ts ∧ w'.log = w.log ++ acts ∧
    Queued w w' ts acts

/-- `w'` comes from `w` without a change of the level, a send or a callback. -/
structure Calm (w w' : TcpConnection) : Prop where
  mark : w'.hightWaterMark = w.hightWaterMark
  handler : w'.tcpHandler = w.tcpHandler
  outputBuf : w'.outputBuf = w.outputBuf
  tasks : ∃ ts, w'.loop.tasks = w.loop.tasks ++ ts ∧ ∀ t ∈ ts, t.callback = false
  log : ∃ acts, w'.log = w.log ++ acts ∧ ∀ a ∈ acts, a.moves = false

variable {w w' w'' : TcpConnection}

/-! ### Calm parts -/

namespace Calm

/-- A function that writes none of these fields is calm. -/
theorem of_eq (hmark : w'.hightWaterMark = w.hightWaterMark)
    (hhandler : w'.tcpHandler = w.tcpHandler) (hbuf : w'.outputBuf = w.outputBuf)
    (hloop : w'.loop = w.loop) (hlog : w'.log = w.log) : Calm w w' :=
  ⟨hmark, hhandler, hbuf, ⟨[], by simp [hloop]⟩, ⟨[], by simp [hlog]⟩⟩

/-- A function that does nothing is calm. -/
theorem refl (w : TcpConnection) : Calm w w := of_eq rfl rfl rfl rfl rfl

/-- The tasks of the queue are the same. -/
theorem of_tasks {q : TaskQueue Task} (h : q.tasks = w.loop.tasks) :
    Calm w { w with loop := q } :=
  ⟨rfl, rfl, rfl, ⟨[], by simp [h]⟩, ⟨[], by simp⟩⟩

/-- Two calm functions, one after the other. -/
theorem trans (h : Calm w w') (h' : Calm w' w'') : Calm w w'' := by
  obtain ⟨ts, hts, htsc⟩ := h.tasks
  obtain ⟨ts', hts', htsc'⟩ := h'.tasks
  obtain ⟨acts, hacts, hactsc⟩ := h.log
  obtain ⟨acts', hacts', hactsc'⟩ := h'.log
  refine ⟨h'.mark.trans h.mark, h'.handler.trans h.handler, h'.outputBuf.trans h.outputBuf,
    ⟨ts ++ ts', by rw [hts', hts, List.append_assoc], ?_⟩,
    ⟨acts ++ acts', by rw [hacts', hacts, List.append_assoc], ?_⟩⟩
  · intro t ht
    exact (List.mem_append.1 ht).elim (htsc t) (htsc' t)
  · intro a ha
    exact (List.mem_append.1 ha).elim (hactsc a) (hactsc' a)

/-- An entry of the log that moves no bytes. -/
theorem emit (h : Calm w w') {a : Act} (ha : a.moves = false) : Calm w (w'.emit a) :=
  h.trans ⟨rfl, rfl, rfl, ⟨[], by simp⟩, ⟨[a], by simp, by simpa using ha⟩⟩

/-- A task that is neither callback. -/
theorem queueInLoop (h : Calm w w') {t : Task} (ht : t.callback = false) :
    Calm w (w'.queueInLoop t) :=
  h.trans ⟨rfl, rfl, rfl, ⟨[t], by simp, by simpa using ht⟩, ⟨[], by simp⟩⟩

/-- A calm step queues what it should: nothing. -/
theorem law (h : Calm w w') : Law w w' := by
  obtain ⟨ts, hts, htsc⟩ := h.tasks
  obtain ⟨acts, hacts, hactsc⟩ := h.log
  have hbuf := h.outputBuf
  refine ⟨h.mark, h.handler, ts, acts, hts, hacts, fun len => ?_, ?_, ?_⟩
  · refine iff_of_false (fun hm => ?_) ?_
    · cases htsc _ hm
    · rintro ⟨⟨hlow, hhigh⟩, -⟩
      rw [hbuf] at hhigh
      omega
  · refine iff_of_false (fun hm => ?_) ?_
    · cases htsc _ hm
    · rintro (⟨tag, data, hm, -⟩ | ⟨hne, hnil⟩)
      · cases hactsc _ hm
      · exact hne (hbuf ▸ hnil)
  · rw [List.countP_eq_zero.2 fun t ht => by simp [htsc t ht]]
    exact Nat.zero_le 1

end Calm

/-- A calm part in front of the part that moves bytes. -/
theorem Law.of_calm (h : Calm w w') (h' : Law w' w'') : Law w w'' := by
  obtain ⟨ts, hts, htsc⟩ := h.tasks
  obtain ⟨acts, hacts, hactsc⟩ := h.log
  obtain ⟨ts', acts', hts', hacts', hq⟩ := h'.queued
  have hrises : Rises w w'' ↔ Rises w' w'' := by
    unfold Rises
    rw [h.outputBuf, h.mark]
  have hdrains : Drains w w'' ↔ Drains w' w'' := by
    unfold Drains
    rw [h.outputBuf]
  have htaken : Taken (acts ++ acts') ↔ Taken acts' := by
    have hold : ∀ a, a.moves = true → (a ∈ acts ++ acts' ↔ a ∈ acts') := fun a ha =>
      ⟨fun hm => (List.mem_append.1 hm).resolve_left fun hl => by simp [hactsc a hl] at ha,
        List.mem_append_right _⟩
    unfold Taken
    refine exists_congr fun tag => exists_congr fun data => ?_
    rw [hold _ rfl, hold _ rfl]
  have hnew : ∀ t, t.callback = true → (t ∈ ts ++ ts' ↔ t ∈ ts') := fun t ht =>
    ⟨fun hm => (List.mem_append.1 hm).resolve_left fun hl => by simp [htsc t hl] at ht,
      List.mem_append_right _⟩
  refine ⟨h'.mark.trans h.mark, h'.handler.trans h.handler, ts ++ ts', acts ++ acts',
    by rw [hts', hts, List.append_assoc], by rw [hacts', hacts, List.append_assoc],
    fun len => ?_, ?_, ?_⟩
  · rw [hnew _ rfl, hrises]
    exact hq.high len
  · rw [hnew _ rfl, hdrains, htaken]
    exact hq.complete
  · rw [List.countP_append, List.countP_eq_zero.2 fun t ht => by simp [htsc t ht], Nat.zero_add]
    exact hq.once

/-! ### Switching and closing -/

/-- One update of the mask, together with new flags. -/
theorem Calm.update (w : TcpConnection) (events : Events) (isRead isWrite : Bool) :
    Calm w { w.updateEvent events with isRead := isRead, isWrite := isWrite } :=
  of_eq rfl rfl rfl rfl rfl

/-- `enableRead` is calm. -/
theorem calm_enableReadInLoop (w : TcpConnection) : Calm w w.enableReadInLoop := by
  unfold enableReadInLoop
  split_ifs
  · exact Calm.refl w
  · exact Calm.update w _ _ _
  · exact Calm.refl w

/-- `disableRead` is calm. -/
theorem calm_disableReadInLoop (w : TcpConnection) : Calm w w.disableReadInLoop := by
  unfold disableReadInLoop
  split_ifs
  · exact Calm.refl w
  · exact Calm.update w _ _ _
  · exact Calm.refl w

/-- `enableWrite` is calm: it registers for writing, which moves nothing yet. -/
theorem calm_enableWriteInLoop (w : TcpConnection) : Calm w w.enableWriteInLoop := by
  unfold enableWriteInLoop
  split_ifs
  · exact Calm.refl w
  · exact Calm.update w _ _ _
  · exact Calm.refl w

/-- `disableWrite` is calm. -/
theorem calm_disableWriteInLoop (w : TcpConnection) : Calm w w.disableWriteInLoop := by
  unfold disableWriteInLoop
  split_ifs
  · exact Calm.refl w
  · exact Calm.update w _ _ _
  · exact Calm.refl w

/-- After the close, a call that is not a setter is calm. -/
theorem calm_callInLoop (h : w.state = .disconnected) (r : WriteResult)
    (onClose : TcpConnection → TcpConnection) {c : Call} (hc : c.fixed = true) :
    Calm w (w.callInLoop r onClose c) := by
  cases c with
  | enableRead => exact calm_enableReadInLoop w
  | disableRead => exact calm_disableReadInLoop w
  | enableWrite => exact calm_enableWriteInLoop w
  | disableWrite => exact calm_disableWriteInLoop w
  | setHighWaterMark bytes => cases hc
  | setTcpHandler handler => cases hc
  | _ =>
    simp only [callInLoop, h, reduceCtorEq, or_self, ↓reduceIte]
    exact Calm.refl w

/-- What the rest of the file asks of the handler's `onClose`. -/
def CalmClose (onClose : TcpConnection → TcpConnection) : Prop :=
  ∀ w : TcpConnection, w.state = .disconnected → Calm w (onClose w)

/-- What user code calls from `onClose` is calm if it leaves the mark and the
handler: the connection is closed by then. -/
theorem calmClose_runOnClose {calls : List Call} (hcalls : ∀ c ∈ calls, c.fixed = true) :
    CalmClose (runOnClose calls) := by
  intro w h
  unfold runOnClose
  induction calls generalizing w with
  | nil => exact Calm.refl w
  | cons c calls ih =>
    have hc := calm_callInLoop h (.accepted 0) (fun w => w) (hcalls c List.mem_cons_self)
    have hstate := (silent_callInLoop h (.accepted 0) (fun w => w) c).state.trans h
    exact hc.trans (ih (fun d hd => hcalls d (List.mem_cons_of_mem _ hd)) _ hstate)

section Closing

variable {onClose : TcpConnection → TcpConnection} (hcalm : CalmClose onClose)
include hcalm

/-- `removeItself` is calm, with such user code in `onClose`. -/
theorem calm_removeItself (w : TcpConnection) : Calm w (w.removeItself onClose) := by
  have hstate : Calm w { w with state := .disconnected } := Calm.of_eq rfl rfl rfl rfl rfl
  have hclose : Calm w (if w.tcpHandler then
      onClose ({ w with state := .disconnected }.emit .onClose)
      else { w with state := .disconnected }) := by
    split
    · exact (hstate.emit rfl).trans (hcalm _ rfl)
    · exact hstate
  exact hclose.trans (Calm.of_eq rfl rfl rfl rfl rfl)

/-- `handleClose` is calm, with such user code in `onClose`. -/
theorem calm_handleClose (w : TcpConnection) : Calm w (w.handleClose onClose) := by
  unfold handleClose
  split
  · exact Calm.refl w
  · exact ((calm_removeItself hcalm w).queueInLoop rfl).emit rfl

/-- `forceCloseInLoop` is calm, with such user code in `onClose`. -/
theorem calm_forceCloseInLoop (w : TcpConnection) : Calm w (w.forceCloseInLoop onClose) := by
  unfold forceCloseInLoop
  split
  · have hstate : Calm w { w with state := .disconnecting } := Calm.of_eq rfl rfl rfl rfl rfl
    have hclose := hstate.trans (calm_handleClose hcalm { w with state := .disconnecting })
    exact ((hclose.trans (Calm.of_eq rfl rfl rfl rfl rfl)).emit rfl).trans
      (Calm.of_eq rfl rfl rfl rfl rfl)
  · exact Calm.refl w

/-- Reading is calm: what comes in is not in `outputBuf`. -/
theorem calm_handleRead (w : TcpConnection) (r : ReadResult) :
    Calm w (w.handleRead r onClose) := by
  unfold handleRead
  split
  · exact Calm.refl w
  · cases r with
    | data b bytes =>
      have hread : Calm w { w with inputBuf := w.inputBuf ++ b :: bytes } :=
        Calm.of_eq rfl rfl rfl rfl rfl
      dsimp only
      split
      · exact hread.emit rfl
      · exact hread
    | eof => exact calm_handleClose hcalm w
    | failed => exact Calm.refl w

end Closing

/-- A shutdown is calm: it waits for the pending bytes, and does not write them. -/
theorem calm_shutdownInLoop (w : TcpConnection) (mark : ℕ) : Calm w (w.shutdownInLoop mark) := by
  unfold shutdownInLoop
  split
  · have hshut : Calm w ({ w with state := .disconnecting }.emit (.shutdown mark)) :=
      (Calm.of_eq rfl rfl rfl rfl rfl : Calm w { w with state := .disconnecting }).emit rfl
    dsimp only
    split
    · exact hshut
    · exact hshut.emit rfl
  · exact Calm.refl w

/-! ### Moving bytes -/

/-- Acts are logged, the level does not rise, and nothing is queued. -/
theorem Law.of_less {l : List Act} (hmark : w'.hightWaterMark = w.hightWaterMark)
    (hhandler : w'.tcpHandler = w.tcpHandler) (hlevel : w'.outputBuf.length ≤ w.outputBuf.length)
    (hdrains : ¬ Drains w w') (hloop : w'.loop = w.loop) (hlog : w'.log = w.log ++ l)
    (htaken : ¬ Taken l) : Law w w' := by
  refine ⟨hmark, hhandler, [], l, by simp [hloop], hlog, fun len => ?_, ?_, Nat.zero_le 1⟩
  · refine iff_of_false List.not_mem_nil ?_
    rintro ⟨⟨hlow, hhigh⟩, -⟩
    omega
  · exact iff_of_false List.not_mem_nil fun h => h.elim htaken hdrains

/-- The level stays. -/
theorem Law.of_log {l : List Act} (hmark : w'.hightWaterMark = w.hightWaterMark)
    (hhandler : w'.tcpHandler = w.tcpHandler) (hbuf : w'.outputBuf = w.outputBuf)
    (hloop : w'.loop = w.loop) (hlog : w'.log = w.log ++ l) (htaken : ¬ Taken l) :
    Law w w' :=
  Law.of_less hmark hhandler (Nat.le_of_eq (congrArg List.length hbuf)) (fun h => h.1 (hbuf ▸ h.2))
    hloop hlog htaken

/-- `onWriteComplete` is queued behind a direct write of all or behind the last
pending byte. -/
theorem Law.of_complete {l : List Act} (hmark : w'.hightWaterMark = w.hightWaterMark)
    (hhandler : w'.tcpHandler = w.tcpHandler) (hbuf : w'.outputBuf = [])
    (hloop : w'.loop = w.loop.queueInLoop .onWriteComplete) (hlog : w'.log = w.log ++ l)
    (hdone : Taken l ∨ Drains w w') : Law w w' := by
  refine ⟨hmark, hhandler, [.onWriteComplete], l, by simp [hloop], hlog, fun len => ?_, ?_,
    Nat.le_refl 1⟩
  · refine iff_of_false (by simp) ?_
    rintro ⟨⟨hlow, hhigh⟩, -⟩
    rw [hbuf, List.length_nil] at hhigh
    omega
  · exact iff_of_true (List.mem_singleton.2 rfl) hdone

/-- `wantWrite` only changes the registration. -/
theorem wantWrite_frame (w : TcpConnection) :
    w.wantWrite.loop = w.loop ∧ w.wantWrite.log = w.log ∧
      w.wantWrite.hightWaterMark = w.hightWaterMark ∧ w.wantWrite.tcpHandler = w.tcpHandler ∧
      w.wantWrite.outputBuf = w.outputBuf := by
  unfold wantWrite
  split <;> exact ⟨rfl, rfl, rfl, rfl, rfl⟩

/-- Bytes are left over, and wait. -/
theorem Law.of_wait {v : TcpConnection} {l : List Act} {rest : List UInt8}
    (hhandler : w.tcpHandler = true) (hv : v.tcpHandler = w.tcpHandler)
    (hmark : v.hightWaterMark = w.hightWaterMark) (hbuf : v.outputBuf = w.outputBuf)
    (hloop : v.loop = w.loop) (hlog : v.log = w.log ++ l) (htaken : ¬ Taken l)
    (hrest : rest ≠ []) :
    Law w { v.highWater rest.length with outputBuf := v.outputBuf ++ rest }.wantWrite := by
  have hlen : (v.outputBuf ++ rest).length = w.outputBuf.length + rest.length := by
    rw [List.length_append, hbuf]
  have hpos : 0 < rest.length := List.length_pos_iff.2 hrest
  have hnil : v.outputBuf ++ rest ≠ [] := by simp [hrest]
  have hcomplete : ¬ (Taken l ∨ w.outputBuf ≠ [] ∧ v.outputBuf ++ rest = []) := by
    rintro (ht | ⟨-, hn⟩)
    · exact htaken ht
    · exact hnil hn
  obtain ⟨hwloop, hwlog, hwmark, hwhandler, hwbuf⟩ :=
    wantWrite_frame { v.highWater rest.length with outputBuf := v.outputBuf ++ rest }
  by_cases hrise : w.outputBuf.length < w.hightWaterMark ∧
      w.hightWaterMark ≤ (v.outputBuf ++ rest).length
  · have hhigh : v.highWater rest.length =
        v.queueInLoop (.onHighWaterMark (v.outputBuf.length + rest.length)) := by
      unfold highWater
      rw [if_pos ⟨by rw [hmark, ← List.length_append]; exact hrise.2,
        by rw [hmark, hbuf]; exact hrise.1,
        by rw [hv, hhandler]⟩]
    rw [hhigh] at hwloop hwlog hwmark hwhandler hwbuf ⊢
    refine ⟨hwmark.trans hmark, hwhandler.trans hv, [.onHighWaterMark (v.outputBuf ++ rest).length],
      l, ?_, hwlog.trans hlog, fun len => ?_, ?_, Nat.le_refl 1⟩
    · rw [hwloop]
      simp [hloop]
    · unfold Rises
      rw [hwbuf, List.mem_singleton, Task.onHighWaterMark.injEq]
      exact ⟨fun hl => ⟨hrise, hl⟩, fun hl => hl.2⟩
    · unfold Drains
      rw [hwbuf]
      exact iff_of_false (by simp) hcomplete
  · have hhigh : v.highWater rest.length = v := by
      unfold highWater
      refine if_neg fun hc => hrise ?_
      rw [← hbuf, ← hmark, List.length_append]
      exact ⟨hc.2.1, hc.1⟩
    rw [hhigh] at hwloop hwlog hwmark hwhandler hwbuf ⊢
    refine ⟨hwmark.trans hmark, hwhandler.trans hv, [], l, ?_, hwlog.trans hlog,
      fun len => ?_, ?_, Nat.zero_le 1⟩
    · rw [hwloop]
      simp [hloop]
    · unfold Rises
      rw [hwbuf]
      exact iff_of_false List.not_mem_nil fun hl => hrise hl.1
    · unfold Drains
      rw [hwbuf]
      exact iff_of_false List.not_mem_nil hcomplete

/-- A send is taken as a whole when the write has all of its bytes. -/
theorem not_taken_of_short {tag : Tag} {data : List UInt8} {n : ℕ} (hn : n < data.length) :
    ¬ Taken [.execute tag data, .write (data.take n)] := by
  rintro ⟨tag', data', hexec, hwrite⟩
  simp only [List.mem_cons, reduceCtorEq, List.not_mem_nil, or_false, false_or, Act.execute.injEq,
    Act.write.injEq] at hexec hwrite
  have hlen := congrArg List.length hwrite
  rw [hexec.2, List.length_take] at hlen
  omega

/-- **`sendInLoop` queues the callbacks it should.** -/
theorem law_sendInLoop (hhandler : w.tcpHandler = true) (tag : Tag) (data : List UInt8)
    (r : WriteResult) : Law w (w.sendInLoop tag data r) := by
  unfold sendInLoop
  by_cases hstate : w.state = .disconnected
  · rw [if_pos hstate]
    exact (Calm.refl w).law
  rw [if_neg hstate]
  dsimp only
  by_cases hdirect : (w.emit (.execute tag data)).channel.isEnableWrite = false ∧
      (w.emit (.execute tag data)).outputBuf.length = 0
  · have hnil : w.outputBuf = [] := List.length_eq_zero_iff.1 hdirect.2
    rw [if_pos hdirect]
    cases r with
    | accepted n =>
      have hdropmin : data.drop (min n data.length) = data.drop n := List.drop_eq_drop_min.symm
      have htakemin : data.take (min n data.length) = data.take n := List.take_eq_take_min.symm
      simp only [writeDirect, hdropmin, htakemin, true_and]
      by_cases hall : data.length ≤ n
      · -- the write takes all of it
        rw [Nat.min_eq_right hall, Nat.sub_self, if_pos rfl, if_neg (Nat.lt_irrefl 0),
          List.take_of_length_le hall]
        unfold writeComplete
        rw [if_pos (show ((w.emit _).emit _).tcpHandler = true from hhandler)]
        refine Law.of_complete (l := [.execute tag data, .write data]) rfl rfl hnil rfl
          (by simp) (Or.inl ⟨tag, data, by simp, by simp⟩)
      · have hlen : data.length - min n data.length = (data.drop n).length := by
          rw [List.length_drop]
          omega
        have hne : data.drop n ≠ [] := fun hn => hall (List.drop_eq_nil_iff.1 hn)
        rw [hlen, if_pos (List.length_pos_iff.2 hne), if_neg (by rwa [List.length_eq_zero_iff])]
        exact Law.of_wait hhandler rfl rfl rfl rfl
          (l := [.execute tag data, .write (data.take n)]) (by simp)
          (not_taken_of_short (Nat.lt_of_not_le hall)) hne
    | failed e =>
      have hnot : ¬ Taken [.execute tag data, .writeErr e] := by
        rintro ⟨tag', data', -, hwrite⟩
        simp at hwrite
      simp only [writeDirect, Nat.sub_zero, List.drop_zero]
      split
      case isTrue hwait =>
        exact Law.of_wait hhandler rfl rfl rfl rfl (l := [.execute tag data, .writeErr e])
          (by simp) hnot (List.length_pos_iff.1 hwait.2)
      case isFalse =>
        exact Law.of_log (l := [.execute tag data, .writeErr e]) rfl rfl rfl rfl (by simp) hnot
  · have hnot : ¬ Taken [.execute tag data] := by
      rintro ⟨tag', data', -, hwrite⟩
      simp at hwrite
    rw [if_neg hdirect]
    simp only [Nat.sub_zero, List.drop_zero, true_and]
    split
    case isTrue hpos =>
      exact Law.of_wait hhandler rfl rfl rfl rfl (l := [.execute tag data]) (by simp) hnot
        (List.length_pos_iff.1 hpos)
    case isFalse =>
      exact Law.of_log (l := [.execute tag data]) rfl rfl rfl rfl (by simp) hnot

/-- One write without a send takes no send. -/
theorem not_taken_write (data : List UInt8) : ¬ Taken [.write data] := by
  rintro ⟨tag, data', hexec, -⟩
  simp at hexec

/-- Waiting for the descriptor to become writable is calm. -/
theorem calm_wantWrite (w : TcpConnection) : Calm w w.wantWrite := by
  unfold wantWrite
  split
  · exact Calm.refl w
  · exact Calm.of_eq rfl rfl rfl rfl rfl

/-- **`sendOutputBufInLoop` queues the callbacks it should.** -/
theorem law_sendOutputBufInLoop (hhandler : w.tcpHandler = true) (r : WriteResult) :
    Law w (w.sendOutputBufInLoop r) := by
  unfold sendOutputBufInLoop
  by_cases hstate : w.state = .disconnected
  · rw [if_pos hstate]
    exact (Calm.refl w).law
  rw [if_neg hstate]
  dsimp only
  by_cases hdirect : w.channel.isEnableWrite = false ∧ w.outputBuf.length > 0
  · have hpending : w.outputBuf ≠ [] := List.length_pos_iff.1 hdirect.2
    simp only [if_pos hdirect]
    cases r with
    | accepted n =>
      by_cases hall : w.outputBuf.length ≤ n
      · -- the last pending byte is written
        have hmin : min n w.outputBuf.length = w.outputBuf.length := Nat.min_eq_right hall
        simp only [writeDirect, hmin, Nat.sub_self, ↓reduceIte, List.take_length]
        rw [if_neg (by simp)]
        unfold writeComplete
        rw [if_pos (show (w.emit _).tcpHandler = true from hhandler)]
        exact Law.of_complete (l := [.write w.outputBuf]) rfl rfl (by simp) rfl (by simp)
          (Or.inr ⟨hpending, by simp⟩)
      · have hlen : min n w.outputBuf.length = n := by omega
        have hne : w.outputBuf.drop n ≠ [] := fun hn => hall (List.drop_eq_nil_iff.1 hn)
        have hpos : w.outputBuf.length - n > 0 := by omega
        have hrest : ¬ w.outputBuf.length - n = 0 := by omega
        simp only [writeDirect, hlen, if_neg hrest, if_pos hpos, true_and]
        obtain ⟨hwloop, hwlog, hwmark, hwhandler, hwbuf⟩ := wantWrite_frame
          { w.emit (.write (w.outputBuf.take n)) with outputBuf := w.outputBuf.drop n }
        refine Law.of_less hwmark hwhandler ?_ ?_ hwloop hwlog (not_taken_write _)
        · exact Nat.le_trans (Nat.le_of_eq (congrArg List.length hwbuf))
            (List.length_drop ▸ Nat.sub_le _ _)
        · exact fun hd => hne (hwbuf.symm.trans hd.2)
    | failed e =>
      have herr : Calm w (w.emit (.writeErr e)) := (Calm.refl w).emit rfl
      simp only [writeDirect, List.drop_zero, Nat.sub_zero]
      split
      · exact (herr.trans (calm_wantWrite _)).law
      · exact herr.law
  · simp only [if_neg hdirect]
    split
    · exact (calm_wantWrite w).law
    · exact (Calm.refl w).law

/-- The end of `handleWrite` when nothing is left. -/
theorem law_drained {v : TcpConnection} {data : List UInt8} (hhandler : w.tcpHandler = true)
    (hv : v.tcpHandler = w.tcpHandler) (hmark : v.hightWaterMark = w.hightWaterMark)
    (hloop : v.loop = w.loop) (hlog : v.log = w.log ++ [.write data]) (hnil : v.outputBuf = [])
    (hpending : w.outputBuf ≠ []) : Law w v.drained := by
  have hcomplete : v.disableWriteEvent.writeComplete =
      v.disableWriteEvent.queueInLoop .onWriteComplete := if_pos (hv.trans hhandler)
  have hqueue : v.disableWriteEvent.loop.queueInLoop .onWriteComplete =
      w.loop.queueInLoop .onWriteComplete := congrArg (TaskQueue.queueInLoop · _) hloop
  unfold drained
  rw [hcomplete]
  dsimp only
  split
  · refine Law.of_complete (l := [.write data, .shutdownWrite v.outputBuf]) hmark hv hnil hqueue
      ?_ (Or.inr ⟨hpending, hnil⟩)
    show v.log ++ [.shutdownWrite v.outputBuf] = _
    rw [hlog, List.append_assoc]
    rfl
  · exact Law.of_complete hmark hv hnil hqueue hlog (Or.inr ⟨hpending, hnil⟩)

/-- **`handleWrite` queues the callbacks it should.** -/
theorem law_handleWrite (hhandler : w.tcpHandler = true) (r : WriteResult)
    {onClose : TcpConnection → TcpConnection} (hcalm : CalmClose onClose) :
    Law w (w.handleWrite r onClose) := by
  unfold handleWrite
  split_ifs with hstate hwant
  · exact (Calm.refl w).law
  · cases r with
    | failed e =>
      have herr : Calm w (w.emit (.writeErr e)) := (Calm.refl w).emit rfl
      exact (herr.trans (calm_handleClose hcalm _)).law
    | accepted n =>
      dsimp only
      split_ifs with hpos hempty
      · -- the last pending byte is written
        have hnil : w.outputBuf.drop (min n w.outputBuf.length) = [] :=
          List.length_eq_zero_iff.1 hempty
        have hpending : w.outputBuf ≠ [] := fun hn => by simp [hn] at hpos
        exact law_drained hhandler rfl rfl rfl rfl hnil hpending
      · refine Law.of_less rfl rfl ?_ (fun hd => hempty (List.length_eq_zero_iff.2 hd.2)) rfl rfl
          (not_taken_write _)
        exact List.length_drop ▸ Nat.sub_le _ _
      · exact Law.of_log rfl rfl rfl rfl rfl (not_taken_write _)
  · exact (Calm.refl w).law

/-! ### Steps -/

section Quiet

variable {onClose : TcpConnection → TcpConnection} (hcalm : CalmClose onClose)
  (hhandler : w.tcpHandler = true)
include hcalm hhandler

/-- A call in the loop's thread queues the callbacks that the levels before and
after it ask for. -/
theorem law_callInLoop (r : WriteResult) {c : Call} (hc : c.fixed = true) :
    Law w (w.callInLoop r onClose c) := by
  have hsend : ∀ tag data, Law w ((w.accept none data).1.sendInLoop tag data r) := by
    intro tag data
    have haccept : Calm w (w.accept none data).1 :=
      (Calm.of_eq rfl rfl rfl rfl rfl : Calm w { w with accepted := w.accepted + 1 }).emit rfl
    have hset : (w.accept none data).1.tcpHandler = true := hhandler
    exact Law.of_calm haccept (law_sendInLoop hset tag data r)
  cases c with
  | send data =>
    simp only [callInLoop]
    split
    · exact hsend _ data
    · exact (Calm.refl w).law
  | sendBuffer buf | sendBufferMove buf =>
    simp only [callInLoop, sendInLoopBuf_fst]
    split
    · exact hsend _ buf
    · exact (Calm.refl w).law
  | sendOutputBuf =>
    simp only [callInLoop]
    split
    · exact law_sendOutputBufInLoop hhandler r
    · exact (Calm.refl w).law
  | shutdown =>
    simp only [callInLoop]
    split
    · exact (calm_shutdownInLoop w w.accepted).law
    · exact (Calm.refl w).law
  | forceClose =>
    simp only [callInLoop]
    split
    · exact (calm_forceCloseInLoop hcalm w).law
    · exact (Calm.refl w).law
  | forceCloseDelay =>
    simp only [callInLoop]
    split
    · exact (Calm.of_eq rfl rfl rfl rfl rfl : Calm w { w with delayed := w.delayed + 1 }).law
    · exact (Calm.refl w).law
  | enableRead => exact (calm_enableReadInLoop w).law
  | disableRead => exact (calm_disableReadInLoop w).law
  | enableWrite => exact (calm_enableWriteInLoop w).law
  | disableWrite => exact (calm_disableWriteInLoop w).law
  | setHighWaterMark bytes => cases hc
  | setTcpHandler handler => cases hc

/-- A task of the connection queues the callbacks that the levels before and
after it ask for; the callbacks themselves queue none. -/
theorem law_runTask (r : WriteResult) (t : Task) : Law w (w.runTask r onClose t) := by
  cases t with
  | sendInLoopStr tag data => exact law_sendInLoop hhandler tag data r
  | sendInLoopBuf tag buf =>
    simp only [runTask, sendInLoopBuf_fst]
    exact law_sendInLoop hhandler tag buf r
  | sendOutputBufInLoop => exact law_sendOutputBufInLoop hhandler r
  | shutdownInLoop mark => exact (calm_shutdownInLoop w mark).law
  | forceCloseInLoop => exact (calm_forceCloseInLoop hcalm w).law
  | enableReadInLoop => exact (calm_enableReadInLoop w).law
  | disableReadInLoop => exact (calm_disableReadInLoop w).law
  | enableWriteInLoop => exact (calm_enableWriteInLoop w).law
  | disableWriteInLoop => exact (calm_disableWriteInLoop w).law
  | removeItself => exact (calm_removeItself hcalm w).law
  | onWriteComplete => exact ((Calm.refl w).emit rfl).law
  | onHighWaterMark len => exact ((Calm.refl w).emit rfl).law
  | tie => exact (Calm.refl w).law

end Quiet

/-- A call from another thread queues a task for the loop and is calm. -/
theorem calm_callForeign (w : TcpConnection) (thread : ℕ) (seen : State) (c : Call) :
    Calm w (w.callForeign thread seen c) := by
  have haccept : ∀ data, Calm w (w.accept (some thread) data).1 := fun data =>
    (Calm.of_eq rfl rfl rfl rfl rfl : Calm w { w with accepted := w.accepted + 1 }).emit rfl
  cases c with
  | send data | sendBuffer data | sendBufferMove data =>
    simp only [callForeign]
    split
    · exact (haccept data).queueInLoop rfl
    · exact Calm.refl w
  | sendOutputBuf | shutdown | forceClose =>
    simp only [callForeign]
    split
    · exact (Calm.refl w).queueInLoop rfl
    · exact Calm.refl w
  | forceCloseDelay =>
    simp only [callForeign]
    split
    · exact Calm.of_eq rfl rfl rfl rfl rfl
    · exact Calm.refl w
  | enableRead | disableRead | enableWrite | disableWrite =>
    exact (Calm.refl w).queueInLoop rfl
  | setHighWaterMark | setTcpHandler => exact Calm.refl w

/-- The state of a step with the task that it runs taken from the queue. -/
def popped (w : TcpConnection) : Input → TcpConnection
  | .nextTask _ _ => match w.loop.nextTask with
    | some (_, q) => { w with loop := q }
    | none => w
  | _ => w

/-- **Every step queues the callbacks it should.** -/
theorem law_step (hhandler : w.tcpHandler = true) {i : Input} (hfixed : Fixed i)
    (hstep : step w i = some w') : Law (w.popped i) w' := by
  cases i with
  | onConnection =>
    simp only [step] at hstep
    split at hstep
    case isFalse => cases hstep
    case isTrue hc =>
      obtain rfl := Option.some.inj hstep
      have hconn : Calm w { w with state := .connected }.enableReadEvent :=
        Calm.of_eq rfl rfl rfl rfl rfl
      split
      · exact (hconn.emit rfl).law
      · exact hconn.law
  | handleRead r onClose =>
    obtain rfl := Option.some.inj hstep
    exact (calm_handleRead (calmClose_runOnClose hfixed) w r).law
  | handleWrite r onClose =>
    obtain rfl := Option.some.inj hstep
    exact law_handleWrite hhandler r (calmClose_runOnClose hfixed)
  | handleClose onClose =>
    obtain rfl := Option.some.inj hstep
    exact (calm_handleClose (calmClose_runOnClose hfixed) w).law
  | handleError =>
    obtain rfl := Option.some.inj hstep
    exact (Calm.refl w).law
  | call c r onClose =>
    obtain rfl := Option.some.inj hstep
    exact law_callInLoop (calmClose_runOnClose hfixed.2) hhandler r hfixed.1
  | foreign thread seen c =>
    simp only [step] at hstep
    split at hstep
    case isFalse => cases hstep
    case isTrue =>
      obtain rfl := Option.some.inj hstep
      exact (calm_callForeign w thread seen c).law
  | teardown onClose =>
    obtain rfl := Option.some.inj hstep
    exact (calm_removeItself (calmClose_runOnClose hfixed) w).law
  | foreignTeardown =>
    obtain rfl := Option.some.inj hstep
    exact ((Calm.refl w).queueInLoop rfl).law
  | delayedForceClose onClose =>
    simp only [step] at hstep
    split at hstep
    case isFalse => cases hstep
    case isTrue =>
      obtain rfl := Option.some.inj hstep
      have hfired : Calm w { w with delayed := w.delayed - 1 } := Calm.of_eq rfl rfl rfl rfl rfl
      exact (hfired.trans (calm_forceCloseInLoop (calmClose_runOnClose hfixed) _)).law
  | swapTasks =>
    obtain ⟨q, hq, rfl⟩ := Option.map_eq_some_iff.1 hstep
    exact (Calm.of_tasks (TaskQueue.tasks_swapTasks hq)).law
  | nextTask r onClose =>
    obtain ⟨⟨t, q⟩, hq, rfl⟩ := Option.map_eq_some_iff.1 hstep
    have hpopped : w.popped (.nextTask r onClose) = { w with loop := q } := by
      simp only [popped, hq]
    rw [hpopped]
    have hrest : ({ w with loop := q } : TcpConnection).tcpHandler = true := hhandler
    exact law_runTask (calmClose_runOnClose hfixed) hrest r t
  | endTasks =>
    obtain ⟨q, hq, rfl⟩ := Option.map_eq_some_iff.1 hstep
    exact (Calm.of_tasks (TaskQueue.tasks_endTasks hq)).law
  | otherUpdate c ch | otherRemove c ch =>
    simp only [step] at hstep
    split at hstep
    case isFalse => cases hstep
    case isTrue =>
      obtain rfl := Option.some.inj hstep
      exact Calm.law (Calm.of_eq rfl rfl rfl rfl rfl)

/-! ### Runs -/

/-- The tasks that a step has queued. -/
def newTasks (w : TcpConnection) (i : Input) (w' : TcpConnection) : List Task :=
  w'.loop.tasks.drop (w.kept i).length

/-- The acts that a step has logged. -/
def newActs (w w' : TcpConnection) : List Act := w'.log.drop w.log.length

/-- What a run with a fixed mark keeps. -/
structure MarkInv (mark : ℕ) (w : TcpConnection) : Prop where
  mark : w.hightWaterMark = mark
  handler : w.tcpHandler = true

/-- Taking the next task off the queue is nothing to the level. -/
theorem popped_frame (w : TcpConnection) (i : Input) :
    (w.popped i).hightWaterMark = w.hightWaterMark ∧ (w.popped i).tcpHandler = w.tcpHandler ∧
      (w.popped i).outputBuf = w.outputBuf ∧ (w.popped i).log = w.log := by
  unfold popped
  split
  · split <;> exact ⟨rfl, rfl, rfl, rfl⟩
  · exact ⟨rfl, rfl, rfl, rfl⟩

/-- The tasks that are left when the next one has been taken are those that the
step keeps. -/
theorem tasks_popped {i : Input} (hstep : step w i = some w') :
    (w.popped i).loop.tasks = w.kept i := by
  cases i with
  | nextTask r onClose =>
    obtain ⟨⟨t, q⟩, hq, -⟩ := Option.map_eq_some_iff.1 hstep
    simp only [popped, kept, hq, TaskQueue.tasks_nextTask hq, List.tail_cons]
  | _ => rfl

/-- A step of a run with a fixed mark keeps the invariant of the level and the
mark. -/
theorem markInv_step {mark : ℕ} (w : TcpConnection) (i : Input) (w' : TcpConnection)
    (h : MarkInv mark w) (hfixed : Fixed i) (hstep : step w i = some w') : MarkInv mark w' := by
  have hlaw := law_step h.handler hfixed hstep
  obtain ⟨hmark, hhandler, -, -⟩ := popped_frame w i
  exact ⟨hlaw.mark.trans (hmark.trans h.mark), hlaw.handler.trans (hhandler.trans h.handler)⟩

/-- The mark and the handler along a run. -/
theorem markInv_run {mark : ℕ} (h : MarkInv mark w) {is : List Input}
    (hfixed : ∀ i ∈ is, Fixed i) (hrun : run step w is = some w') : MarkInv mark w' := by
  have hgood : Steps step (fun _ i => True ∧ Fixed i) w is :=
    (steps_of_forall fun _ _ => trivial).and_forall hfixed
  exact (always_of_steps (fun s i s' hs hi => markInv_step s i s' hs hi.2) h hgood).last hrun

/-- A step of such a run, in terms of what it has queued and logged. -/
theorem queued_step {mark : ℕ} (h : MarkInv mark w) {i : Input} (hfixed : Fixed i)
    (hstep : step w i = some w') :
    w'.loop.tasks = w.kept i ++ newTasks w i w' ∧ w'.log = w.log ++ newActs w w' ∧
      Queued w w' (newTasks w i w') (newActs w w') := by
  obtain ⟨ts, l, hts, hl, hq⟩ := (law_step h.handler hfixed hstep).queued
  obtain ⟨hmark, -, hbuf, hlog⟩ := popped_frame w i
  rw [tasks_popped hstep] at hts
  rw [hlog] at hl
  have hnew : newTasks w i w' = ts := by
    unfold newTasks
    rw [hts, List.drop_left]
  have hacts : newActs w w' = l := by
    unfold newActs
    rw [hl, List.drop_left]
  rw [hnew, hacts]
  refine ⟨hts, hl, fun len => ?_, ?_, hq.once⟩
  · have hhigh := hq.high len
    unfold Rises at hhigh ⊢
    rwa [hmark, hbuf] at hhigh
  · have hcomplete := hq.complete
    unfold Drains at hcomplete ⊢
    rwa [hbuf] at hcomplete

/-- **The water-mark callbacks follow the level.**  In every run with a fixed
mark and a handler, each step queues `onHighWaterMark` if and only if the level
goes from below the mark to the mark or above, with the new level, and
`onWriteComplete` if and only if a send is taken as a whole by its direct write
or the last pending byte is written, and no more than one of them.  Before a
step that queues `onHighWaterMark` again, the level is below the mark. -/
theorem level_callbacks (self : ChanId) (sockfd : ℕ) (connId : ℤ) (mark : ℕ) {is : List Input}
    {i : Input} {w w' : TcpConnection}
    (hrun : run step { init self sockfd connId true with hightWaterMark := mark } is = some w)
    (hfixed : ∀ j ∈ is ++ [i], Fixed j) (hstep : step w i = some w') :
    w.hightWaterMark = mark ∧
      (∀ len, .onHighWaterMark len ∈ newTasks w i w' ↔
        (w.outputBuf.length < mark ∧ mark ≤ w'.outputBuf.length) ∧ len = w'.outputBuf.length) ∧
      (.onWriteComplete ∈ newTasks w i w' ↔
        Taken (newActs w w') ∨ w.outputBuf ≠ [] ∧ w'.outputBuf = []) ∧
      (newTasks w i w').countP Task.callback ≤ 1 ∧
      ∀ js j v v', run step w' js = some v → (∀ k ∈ js ++ [j], Fixed k) → step v j = some v' →
        ∀ len len', .onHighWaterMark len ∈ newTasks w i w' →
          .onHighWaterMark len' ∈ newTasks v j v' →
            mark ≤ w'.outputBuf.length ∧ v.outputBuf.length < mark := by
  have hinit : MarkInv mark { init self sockfd connId true with hightWaterMark := mark } :=
    ⟨rfl, rfl⟩
  have hinv := markInv_run hinit (fun j hj => hfixed j (List.mem_append_left _ hj)) hrun
  have hi : Fixed i := hfixed i (by simp)
  obtain ⟨-, -, hq⟩ := queued_step hinv hi hstep
  have hhigh := hq.high
  simp only [Rises, hinv.mark] at hhigh
  refine ⟨hinv.mark, hhigh, hq.complete, hq.once, ?_⟩
  intro js j v v' hjs hjfixed hj len len' hlen hlen'
  have hinv' := markInv_step w i w' hinv hi hstep
  have hinvv := markInv_run hinv' (fun k hk => hjfixed k (List.mem_append_left _ hk)) hjs
  obtain ⟨-, -, hqv⟩ := queued_step hinvv (hjfixed j (by simp)) hj
  have hhighv := hqv.high
  simp only [Rises, hinvv.mark] at hhighv
  exact ⟨((hhigh len).1 hlen).1.2, ((hhighv len').1 hlen').1.1⟩

/-- The hypotheses are satisfiable: with the mark at two, a send of three bytes
of which the kernel takes one brings the level to the mark. -/
theorem level_callbacks_partial :
    let start : TcpConnection := { init 0 5 1 true with hightWaterMark := 2 }
    let send : Input := .call (.send [1, 2, 3]) (.accepted 1) []
    ∃ w w', run step start [.onConnection] = some w ∧ step w send = some w' ∧
      w'.outputBuf = [2, 3] ∧ .onHighWaterMark 2 ∈ newTasks w send w' := by
  intro start send
  have hhigh := fun w w' (hrun : run step start [.onConnection] = some w)
      (hstep : step w send = some w') =>
    (level_callbacks 0 5 1 2 hrun (by simp [Fixed, send, Call.fixed]) hstep).2.1
  exact ⟨_, _, rfl, rfl, rfl, (hhigh _ _ rfl rfl 2).2 (by decide)⟩

end TcpConnection
end Net
end Sevent
