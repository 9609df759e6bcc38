/-
# Sending with the buffers of the code

`TcpConnection::sendInLoop` copies its argument, from where the direct write
stopped, to the end of `outputBuf`.  `TcpConnection::sendInLoopBuf` is given a
buffer of its own: it retrieves what was written, and then exchanges the
storage of the two buffers when nothing waits.

In `Stored` the pending bytes are in a `Buffer`, with its vector and its
indices, and so is the argument of `sendInLoopBuf`.  `view_sendInLoop` connects
this to the byte queue of `TcpConnection`, and `send_paths_agree` shows that
the two functions do the same.
-/

import Sevent.Net.BufferFifo
import Sevent.Net.TcpConnectionSpec

namespace Sevent
namespace Net
namespace TcpConnection

open Bytes

/-- A connection and the `Buffer` that holds its pending bytes; the byte queue
of `conn` is not used. -/
structure Stored where
  conn : TcpConnection
  outputBuf : Buffer

namespace Stored

/-- The connection with its pending bytes as a queue. -/
def view (s : Stored) : TcpConnection := { s.conn with outputBuf := s.outputBuf.readable }

/-- `onHighWaterMark` is queued when the buffer passes the mark; the sum of the
two lengths is a `size_t`. -/
def highWater (s : Stored) (remain : ℕ) : TcpConnection :=
  let oldLen := s.outputBuf.readableBytes
  if addSize oldLen remain ≥ s.conn.hightWaterMark ∧ oldLen < s.conn.hightWaterMark ∧
      s.conn.tcpHandler then
    s.conn.queueInLoop (.onHighWaterMark (addSize oldLen remain))
  else s.conn

/-- `TcpConnection::sendInLoop`; `none` when `append` throws. -/
def sendInLoop (s : Stored) (tag : Tag) (data : List UInt8) (r : WriteResult) : Option Stored :=
  if s.conn.state = .disconnected then some s
  else
    let w := s.conn.emit (.execute tag data)
    let (w, n, isErr) :=
      if w.channel.isEnableWrite = false ∧ s.outputBuf.readableBytes = 0 then w.writeDirect data r
      else (w, 0, false)
    let remain := data.length - n
    if isErr = false ∧ remain > 0 then
      let w := highWater { s with conn := w } remain
      (s.outputBuf.append (data.drop n)).map fun out => { conn := w.wantWrite, outputBuf := out }
    else some { s with conn := w }

/-- The direct write from a buffer, of which the written bytes are retrieved:
the connection, `n`, `isErr` and the buffer after it. -/
def writeDirectBuf (w : TcpConnection) (buf : Buffer) (r : WriteResult) :
    TcpConnection × ℕ × Bool × Buffer :=
  let (w, n, isErr) := w.writeDirect (buf.peek buf.readableBytes) r
  match r with
  | .accepted _ => (w, n, isErr, buf.retrieve n)
  | .failed _ => (w, n, isErr, buf)

/-- `TcpConnection::sendInLoopBuf`, with the caller's buffer after the call. -/
def sendInLoopBuf (s : Stored) (tag : Tag) (buf : Buffer) (r : WriteResult) :
    Option (Stored × Buffer) :=
  if s.conn.state = .disconnected then some (s, buf)
  else
    let len := buf.readableBytes
    let w := s.conn.emit (.execute tag (buf.peek len))
    let (w, n, isErr, buf) :=
      if w.channel.isEnableWrite = false ∧ s.outputBuf.readableBytes = 0 then writeDirectBuf w buf r
      else (w, 0, false, buf)
    let remain := len - n
    if isErr = false ∧ remain > 0 then
      let w := highWater { s with conn := w } remain
      if s.outputBuf.readableBytes = 0 then
        let p := s.outputBuf.swap buf
        some ({ conn := w.wantWrite, outputBuf := p.1 }, p.2)
      else
        (s.outputBuf.append (buf.peek remain)).map fun out =>
          ({ conn := w.wantWrite, outputBuf := out }, buf.retrieveAll)
    else some ({ s with conn := w }, buf)

/-- The same connection, and the same pending bytes. -/
structure Agrees (s s' : Stored) : Prop where
  conn : s.conn = s'.conn
  pending : s.outputBuf.readable = s'.outputBuf.readable

/-- The direct write is made, and fails with a fatal error. -/
def Fatal (s : Stored) (r : WriteResult) : Prop :=
  s.conn.channel.isEnableWrite = false ∧ s.outputBuf.readableBytes = 0 ∧
    ∃ e, r = .failed e ∧ dealErr e = true

variable {s s' : Stored} {w : TcpConnection} {buf : Buffer} {data : List UInt8} {tag : Tag}
  {r : WriteResult}

/-! ### The two buffers -/

theorem length_readable (h : buf.Ok) : buf.readable.length = buf.readableBytes := by
  rw [h.length_readable, h.readableBytes_eq]

theorem readable_eq_nil (h : buf.Ok) (hnil : buf.readableBytes = 0) : buf.readable = [] :=
  List.length_eq_zero_iff.1 ((length_readable h).trans hnil)

/-- An append to a buffer in which nothing is readable. -/
theorem append_of_empty {out : Buffer} (h : buf.Ok) (hnil : buf.readableBytes = 0)
    (hlen : data.length ≤ Buffer.maxSize) (hout : buf.append data = some out) :
    out.readable = data := by
  have hread := h.read_le
  have hwrite := h.write_le
  have hpre := h.prepends_le
  rw [h.readableBytes_eq] at hnil
  obtain ⟨-, hall⟩ := h.append_of_sum (by omega) hlen hout
  rw [hall, readable_eq_nil h (h.readableBytes_eq.trans hnil), List.nil_append]

/-- What the direct write of `sendInLoopBuf` does: that of `sendInLoop`, and the
buffer keeps what is not written. -/
theorem writeDirectBuf_spec (h : buf.Ok) (w : TcpConnection) (r : WriteResult) :
    ∃ w' n isErr buf', writeDirectBuf w buf r = (w', n, isErr, buf') ∧
      w.writeDirect buf.readable r = (w', n, isErr) ∧ n ≤ buf.readable.length ∧ buf'.Ok ∧
      buf'.readable = buf.readable.drop n := by
  unfold writeDirectBuf
  rw [h.peek_eq]
  cases r with
  | accepted k =>
    refine ⟨_, _, _, _, rfl, rfl, min_le_right _ _, Buffer.ok_retrieve h _, ?_⟩
    exact Buffer.readable_retrieve h _
  | failed e => exact ⟨_, _, _, _, rfl, rfl, Nat.zero_le _, h, List.drop_zero.symm⟩

/-- The first half of the two functions. -/
theorem direct_spec (h : buf.Ok) (s : Stored) (w : TcpConnection) (r : WriteResult) :
    ∃ w' n isErr buf',
      (if w.channel.isEnableWrite = false ∧ s.outputBuf.readableBytes = 0 then
        writeDirectBuf w buf r else (w, 0, false, buf)) = (w', n, isErr, buf') ∧
      (if w.channel.isEnableWrite = false ∧ s.outputBuf.readableBytes = 0 then
        w.writeDirect buf.readable r else (w, 0, false)) = (w', n, isErr) ∧
      n ≤ buf.readable.length ∧ buf'.Ok ∧ buf'.readable = buf.readable.drop n := by
  split_ifs
  · exact writeDirectBuf_spec h w r
  · exact ⟨w, 0, false, buf, rfl, rfl, Nat.zero_le _, h, List.drop_zero.symm⟩

/-! ### The queue and the buffer -/

theorem wantWrite_pending (w : TcpConnection) (pending : List UInt8) :
    { w with outputBuf := pending }.wantWrite = { w.wantWrite with outputBuf := pending } := by
  unfold wantWrite
  by_cases h : w.channel.isEnableWrite = true
  · rw [if_pos h, if_pos h]
  · rw [if_neg h, if_neg h]
    rfl

theorem writeComplete_pending (w : TcpConnection) (pending : List UInt8) :
    { w with outputBuf := pending }.writeComplete =
      { w.writeComplete with outputBuf := pending } := by
  unfold writeComplete
  by_cases h : w.tcpHandler = true
  · rw [if_pos h, if_pos h]
    rfl
  · rw [if_neg h, if_neg h]

theorem writeDirect_pending (w : TcpConnection) (pending : List UInt8) (data : List UInt8)
    (r : WriteResult) :
    { w with outputBuf := pending }.writeDirect data r =
      ({ (w.writeDirect data r).1 with outputBuf := pending }, (w.writeDirect data r).2) := by
  cases r with
  | accepted n =>
    unfold writeDirect
    dsimp only
    by_cases hdone : data.length - min n data.length = 0
    · rw [if_pos hdone, if_pos hdone]
      exact Prod.ext (writeComplete_pending (w.emit _) pending) rfl
    · rw [if_neg hdone, if_neg hdone]
      rfl
  | failed e => rfl

theorem view_highWater (h : s.outputBuf.Ok) {remain : ℕ}
    (hlen : s.outputBuf.readableBytes + remain < 2 ^ 64) (pending : List UInt8) :
    { s.view.highWater remain with outputBuf := pending } =
      { s.highWater remain with outputBuf := pending } := by
  have hlength : s.view.outputBuf.length = s.outputBuf.readableBytes := length_readable h
  unfold Stored.highWater TcpConnection.highWater
  dsimp only
  rw [hlength, addSize_of_lt hlen]
  split_ifs <;> first | rfl | contradiction

/-- **`sendInLoop` on the buffer is `sendInLoop` on the queue**, where the bytes
fit behind those that wait. -/
theorem view_sendInLoop (h : s.outputBuf.Ok) (tag : Tag) (data : List UInt8) (r : WriteResult)
    (hsafe : s.outputBuf.SpaceSafe data.length) :
    ∃ s', s.sendInLoop tag data r = some s' ∧ s'.view = s.view.sendInLoop tag data r := by
  have hlength : s.view.outputBuf.length = s.outputBuf.readableBytes := length_readable h
  unfold Stored.sendInLoop TcpConnection.sendInLoop
  by_cases hstate : s.conn.state = .disconnected
  · rw [if_pos hstate, if_pos (show s.view.state = .disconnected from hstate)]
    exact ⟨s, rfl, rfl⟩
  rw [if_neg hstate, if_neg (show s.view.state ≠ .disconnected from hstate)]
  have hdirect := writeDirect_pending (s.conn.emit (.execute tag data)) s.outputBuf.readable data r
  have hcond : (s.view.emit (.execute tag data)).outputBuf.length = s.outputBuf.readableBytes :=
    hlength
  dsimp only
  rw [hcond]
  generalize hw : s.conn.emit (.execute tag data) = w at hdirect ⊢
  have hview : s.view.emit (.execute tag data) = { w with outputBuf := s.outputBuf.readable } := by
    rw [← hw]
    rfl
  rw [hview]
  -- the direct write, or none
  obtain ⟨w', n, isErr, hfst, hsnd⟩ : ∃ w' n isErr,
      (if w.channel.isEnableWrite = false ∧ s.outputBuf.readableBytes = 0 then w.writeDirect data r
        else (w, 0, false)) = (w', n, isErr) ∧
      (if w.channel.isEnableWrite = false ∧ s.outputBuf.readableBytes = 0 then
        { w with outputBuf := s.outputBuf.readable }.writeDirect data r
        else ({ w with outputBuf := s.outputBuf.readable }, 0, false)) =
          ({ w' with outputBuf := s.outputBuf.readable }, n, isErr) := by
    split_ifs
    · exact ⟨_, _, _, rfl, hdirect⟩
    · exact ⟨w, 0, false, rfl, rfl⟩
  rw [hfst, hsnd]
  dsimp only
  by_cases hwait : isErr = false ∧ data.length - n > 0
  · rw [if_pos hwait, if_pos hwait]
    have hrest : (data.drop n).length ≤ data.length := by
      rw [List.length_drop]
      omega
    obtain ⟨out, hout, -, hread⟩ := Buffer.append_spec h (data.drop n) (hsafe.mono hrest)
    have hsum : s.outputBuf.readableBytes + (data.length - n) < 2 ^ 64 := by
      have := h.lt
      have := h.read_le
      have := h.write_le
      rw [h.readableBytes_eq]
      unfold Buffer.SpaceSafe Buffer.maxSize at hsafe
      omega
    have hhigh := view_highWater (s := { conn := w', outputBuf := s.outputBuf }) h hsum out.readable
    refine ⟨_, by rw [hout]; rfl, ?_⟩
    have hwant := wantWrite_pending
      (highWater { conn := w', outputBuf := s.outputBuf } (data.length - n)) out.readable
    rw [← hread]
    exact hwant.symm.trans (congrArg wantWrite hhigh.symm)
  · rw [if_neg hwait, if_neg hwait]
    exact ⟨_, rfl, rfl⟩

/-! ### The two functions -/

/-- What is left of the argument after the direct write. -/
theorem length_rest (h : buf.Ok) {n : ℕ} {buf' : Buffer} (hok : buf'.Ok)
    (hread : buf'.readable = buf.readable.drop n) :
    buf'.readableBytes = buf.readableBytes - n := by
  rw [← length_readable hok, hread, List.length_drop, length_readable h]

/-- **Wherever `sendInLoop` returns, `sendInLoopBuf` returns and has done the
same.** -/
theorem sendInLoopBuf_agrees (h : s.outputBuf.Ok) (hbuf : buf.Ok)
    (hs : s.sendInLoop tag buf.readable r = some s') :
    ∃ p, s.sendInLoopBuf tag buf r = some p ∧ Agrees p.1 s' := by
  have hlen := length_readable hbuf
  unfold sendInLoop at hs
  unfold sendInLoopBuf
  by_cases hstate : s.conn.state = .disconnected
  · rw [if_pos hstate] at hs ⊢
    exact ⟨_, rfl, Option.some.inj hs ▸ ⟨rfl, rfl⟩⟩
  rw [if_neg hstate] at hs ⊢
  dsimp only at hs ⊢
  rw [hbuf.peek_eq]
  obtain ⟨w, n, isErr, buf', hdirect, hdirect', hn, hok, hread⟩ :=
    direct_spec hbuf s (s.conn.emit (.execute tag buf.readable)) r
  rw [hdirect'] at hs
  rw [hdirect]
  dsimp only at hs ⊢
  have hrest := length_rest hbuf hok hread
  rw [hlen] at hs
  by_cases hwait : isErr = false ∧ buf.readableBytes - n > 0
  · rw [if_pos hwait] at hs ⊢
    by_cases hempty : s.outputBuf.readableBytes = 0
    · rw [if_pos hempty]
      -- nothing waits: one function appends, the other one exchanges the buffers
      obtain ⟨out, hout, rfl⟩ := Option.map_eq_some_iff.1 hs
      have hmax : (buf.readable.drop n).length ≤ Buffer.maxSize := by
        have := hbuf.size_le
        have := hbuf.write_le
        rw [List.length_drop, hbuf.length_readable]
        omega
      refine ⟨_, rfl, rfl, ?_⟩
      rw [append_of_empty h hempty hmax hout]
      exact hread
    · rw [if_neg hempty, ← hrest, hok.peek_eq, hread]
      -- both append what is left
      obtain ⟨out, hout, rfl⟩ := Option.map_eq_some_iff.1 hs
      rw [hout]
      exact ⟨_, rfl, hrest ▸ rfl, rfl⟩
  · rw [if_neg hwait] at hs ⊢
    exact ⟨_, rfl, Option.some.inj hs ▸ ⟨rfl, rfl⟩⟩

/-- **After `sendInLoopBuf` the caller's buffer is empty**, unless the
connection is disconnected or the write has failed for good. -/
theorem sendInLoopBuf_empties (h : s.outputBuf.Ok) (hbuf : buf.Ok)
    (hlive : s.conn.state ≠ .disconnected) (hfatal : ¬ s.Fatal r) {p : Stored × Buffer}
    (hs : s.sendInLoopBuf tag buf r = some p) : p.2.readable = [] := by
  unfold sendInLoopBuf at hs
  rw [if_neg hlive] at hs
  dsimp only at hs
  rw [hbuf.peek_eq] at hs
  obtain ⟨w, n, isErr, buf', hdirect, hdirect', hn, hok, hread⟩ :=
    direct_spec hbuf s (s.conn.emit (.execute tag buf.readable)) r
  rw [hdirect] at hs
  dsimp only at hs
  have hrest := length_rest hbuf hok hread
  have herr : isErr = false := by
    split_ifs at hdirect' with hcond
    · cases r with
      | accepted k => exact ((Prod.mk.inj (Prod.mk.inj hdirect').2).2).symm
      | failed e =>
        have he : dealErr e = isErr := (Prod.mk.inj (Prod.mk.inj hdirect').2).2
        cases isErr with
        | false => rfl
        | true => exact absurd ⟨hcond.1, hcond.2, e, rfl, he⟩ hfatal
    · exact ((Prod.mk.inj (Prod.mk.inj hdirect').2).2).symm
  split_ifs at hs with hwait hempty
  · obtain rfl := Option.some.inj hs
    exact readable_eq_nil h hempty
  · obtain ⟨out, -, rfl⟩ := Option.map_eq_some_iff.1 hs
    exact Buffer.readable_retrieveAll buf'
  · obtain rfl := Option.some.inj hs
    have hnone : ¬ buf.readableBytes - n > 0 := fun hpos => hwait ⟨herr, hpos⟩
    have hzero : buf'.readableBytes = 0 := by omega
    exact readable_eq_nil hok hzero

/-- **The two in-loop send paths are equivalent.**  For every connection, every
content of `outputBuf`, every buffer and every outcome of the direct write,
where `sendInLoop` of the readable bytes returns, `sendInLoopBuf` of the buffer
returns with the same bytes on the socket, the same pending bytes, the same
registration and the same queued callbacks; and after `sendInLoopBuf` without a
fatal error on a connection that is not disconnected, the buffer is empty. -/
theorem send_paths_agree (s : Stored) (buf : Buffer) (tag : Tag) (r : WriteResult)
    (h : s.outputBuf.Ok) (hbuf : buf.Ok) :
    (∀ s', s.sendInLoop tag buf.readable r = some s' →
      ∃ p, s.sendInLoopBuf tag buf r = some p ∧ Agrees p.1 s') ∧
    ∀ p, s.sendInLoopBuf tag buf r = some p → s.conn.state ≠ .disconnected → ¬ s.Fatal r →
      p.2.readable = [] :=
  ⟨fun _ hs => sendInLoopBuf_agrees h hbuf hs,
    fun _ hs hlive hfatal => sendInLoopBuf_empties h hbuf hlive hfatal hs⟩

/-- The hypotheses are satisfiable: of three bytes the kernel takes one, and the
buffers are exchanged. -/
theorem send_paths_agree_partial :
    let conn : TcpConnection := { init 0 5 1 true with state := .connected }
    let s : Stored :=
      { conn := conn
        outputBuf := { buffer := List.replicate 11 0, readIndex := 8, writeIndex := 8 } }
    let buf : Buffer :=
      { buffer := List.replicate 8 0 ++ [1, 2, 3], readIndex := 8, writeIndex := 11 }
    let tag : Tag := { thread := none, serial := 0 }
    ∃ p, s.sendInLoopBuf tag buf (.accepted 1) = some p ∧ p.1.outputBuf.readable = [2, 3] ∧
      p.2.readable = [] := by
  intro conn s buf tag
  have hok : s.outputBuf.Ok := ⟨by decide, by decide, by decide, by decide⟩
  have hbuf : buf.Ok := ⟨by decide, by decide, by decide, by decide⟩
  obtain ⟨hagree, hempty⟩ := send_paths_agree s buf tag (.accepted 1) hok hbuf
  obtain ⟨s', hs', hview⟩ := view_sendInLoop hok tag buf.readable (.accepted 1) (by decide)
  have hread : s'.outputBuf.readable = [2, 3] := congrArg TcpConnection.outputBuf hview
  obtain ⟨p, hp, hsame⟩ := hagree s' hs'
  refine ⟨p, hp, hsame.pending.trans hread, hempty p hp (by decide) ?_⟩
  rintro ⟨-, -, e, he, -⟩
  cases he

end Stored
end TcpConnection
end Net
end Sevent
