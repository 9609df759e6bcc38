/-
# Reading into a buffer on Windows

The Windows half of `Buffer::readFd` in `sevent/net/Buffer.cpp`, and
`sockets::read` there.

`recv` is given the free space behind the write index, converted to an `int`, as
the length.  When that is 0 it returns 0, and `TcpConnection::handleRead` takes
0 for the end of the stream and closes the connection.  `readFd` itself grows
the vector when a read has filled it.  An append that fits exactly, or that
grows the vector, leaves it full as well, and so does `shrinkToFit` with as many
readable bytes as a new buffer has room for, or more.

`room` is the free space after a call, and `leavesRoom_iff` says that a run of
calls gives `recv` a positive length in every state exactly when each of its
calls leaves a space that is positive as an `int`.  Nothing is ever put in front
of the data here: `prepend` is not among the calls.
-/

import Sevent.Net.BufferRoom

namespace Sevent
namespace Net
namespace Buffer

open Bytes Transition

variable {b b' : Buffer}

namespace Windows

/-! ### `readFd` -/

/-- What the other side has done when `recv` is called. -/
inductive Peer
  | sent (data : List UInt8)
  | closed
  | failed
  deriving DecidableEq

/-- `recv`: what it returns, and the bytes stored.  With no room it returns 0. -/
def recv (len : ℤ) : Peer → ℤ × List UInt8
  | .sent data =>
    if len < 0 then (-1, []) else ((data.take len.toNat).length, data.take len.toNat)
  | .closed => if len < 0 then (-1, []) else (0, [])
  | .failed => (-1, [])

/-- The length that `sockets::read` gives to `recv`. -/
def recvLength (b : Buffer) : ℤ := toInt b.writableBytes

/-- `Buffer::readFd` on Windows: what it returns, and the buffer.  The write index
has been moved when the growth throws. -/
def readFd (b : Buffer) (peer : Peer) : ℤ × Buffer :=
  let writeable := b.writableBytes
  let (n, data) := recv (recvLength b) peer
  let b := { b with buffer := writeAt b.buffer b.writeIndex data }
  if 0 < n ∧ n.toNat ≤ writeable then
    let b := { b with writeIndex := addSize b.writeIndex n.toNat }
    if b.writableBytes = 0 then (n, (b.ensureSpace b.size).getD b) else (n, b)
  else (n, b)

/-- The calls on the input buffer of a connection. -/
inductive Call
  | append (data : List UInt8)
  | appendInt64 (n : ℤ)
  | appendInt32 (n : ℤ)
  | appendInt16 (n : ℤ)
  | appendInt8 (n : ℤ)
  | retrieve (len : ℕ)
  | retrieveUntil (e : ℤ)
  | retrieveAll
  | readBytes (len : ℕ)
  | readAsString (len : ℕ)
  | readAllAsString
  | shrinkToFit
  | swap (other : Buffer)
  | readFd (peer : Peer)

instance (b : Buffer) : Decidable b.Input :=
  decidable_of_iff (((b.readIndex ≤ b.writeIndex ∧ b.writeIndex ≤ b.size) ∧
    prepends ≤ b.size ∧ b.size ≤ maxSize) ∧ prepends ≤ b.readIndex)
    ⟨fun h => ⟨⟨h.1.1.1, h.1.1.2, h.1.2.1, h.1.2.2⟩, h.2⟩,
      fun h => ⟨⟨⟨h.read_le, h.write_le⟩, h.prepends_le, h.size_le⟩, h.prepends_le_read⟩⟩

/-- The input buffer after a call; a call that throws leaves it as it was.  An
array in memory is no longer than `maxSize`, the indices of another buffer are in
order, and what has been sent is not empty. -/
def step (b : Buffer) : Call → Option Buffer
  | .append data => if data.length ≤ maxSize then some ((b.append data).getD b) else none
  | .appendInt64 n => some ((b.appendInt64 n).getD b)
  | .appendInt32 n => some ((b.appendInt32 n).getD b)
  | .appendInt16 n => some ((b.appendInt16 n).getD b)
  | .appendInt8 n => some ((b.appendInt8 n).getD b)
  | .retrieve len => some (b.retrieve len)
  | .retrieveUntil e => some (b.retrieveUntil e)
  | .retrieveAll => some b.retrieveAll
  | .readBytes len => some (b.readBytes len).2
  | .readAsString len => some (b.readAsString len).2
  | .readAllAsString => some b.readAllAsString.2
  | .shrinkToFit => some (b.shrinkToFit.getD b)
  | .swap other => if other.Input then some (b.swap other).1 else none
  | .readFd peer => if peer ≠ .sent [] then some (readFd b peer).2 else none

/-! ### The free space after a call -/

/-- The free space behind the write index after a call. -/
def roomAfter (b : Buffer) : Call → ℕ
  | .append data => b.roomAppend data.length
  | .appendInt64 _ => b.roomAppend 8
  | .appendInt32 _ => b.roomAppend 4
  | .appendInt16 _ => b.roomAppend 2
  | .appendInt8 _ => b.roomAppend 1
  | .retrieve len | .readBytes len | .readAsString len => b.roomRetrieve len
  | .retrieveUntil e => b.roomRetrieve ((e - b.readIndex) % 2 ^ 64).toNat
  | .retrieveAll | .readAllAsString => b.size - prepends
  | .shrinkToFit => initialSize - b.readableBytes
  | .swap other => other.room
  | .readFd (.sent data) =>
    let n := min (toInt b.room).toNat data.length
    if n < b.room then b.room - n else if maxSize < b.size + b.size then 0 else b.size
  | .readFd _ => b.room

/-- A space that is positive as an `int`. -/
def Receivable (room : ℕ) : Prop := 0 < toInt room

/-- The condition on a call: it leaves a space that is positive as an `int`. -/
def LeavesRoom (b : Buffer) (c : Call) : Prop :=
  (step b c).isSome → Receivable (roomAfter b c)

/-- `recv` never returns more than it was offered, and 0 only for a stream that
has ended, when the length is positive. -/
theorem recv_spec {len : ℤ} (hlen : 0 < len) (peer : Peer) (hpeer : peer ≠ .sent []) :
    (recv len peer).1 = 0 → peer = .closed := by
  cases peer with
  | sent data =>
    intro h
    have hne : data ≠ [] := fun h => hpeer (h ▸ rfl)
    have hpos := List.length_pos_iff.2 hne
    simp only [recv, if_neg (not_lt.2 hlen.le), List.length_take] at h
    omega
  | closed => exact fun _ => rfl
  | failed => simp [recv]

/-- A read that has filled the vector grows it. -/
theorem room_grow (h : b.Input) (hfull : b.room = 0) :
    ((b.ensureSpace b.size).getD b).Input ∧
      ((b.ensureSpace b.size).getD b).room = if maxSize < b.size + b.size then 0 else b.size := by
  rcases h.grow hfull with ⟨hthrow, hens⟩ | ⟨b', hens, hfit, hin, hroom, -, -⟩
  · rw [hens, Option.getD_none, if_pos hthrow]
    exact ⟨h, hfull⟩
  · rw [hens, Option.getD_some, if_neg (not_lt.2 hfit)]
    exact ⟨hin, hroom⟩

/-- A read that stores nothing. -/
theorem room_fill_nil (h : b.Input) :
    let b' : Buffer := { b with buffer := writeAt b.buffer b.writeIndex [] }
    b'.Input ∧ b'.room = b.room := by
  have hwrite := h.write_le
  have hsize := h.size_le
  have h0 : ([] : List UInt8).length ≤ b.room := Nat.zero_le _
  have hfill := h.room_fill h0
  rw [List.length_nil, h.addSize_writeIndex (Nat.zero_le _)] at hfill
  exact ⟨hfill.1, hfill.2.1⟩

/-- `readFd` when something has been received. -/
theorem readFd_of_recv {peer : Peer} {data : List UInt8}
    (hrecv : recv (recvLength b) peer = ((data.length : ℤ), data)) (hpos : 0 < data.length)
    (hle : data.length ≤ b.writableBytes) :
    (readFd b peer).2 =
      let b' : Buffer := { b with
        buffer := writeAt b.buffer b.writeIndex data
        writeIndex := addSize b.writeIndex data.length }
      if b'.writableBytes = 0 then (b'.ensureSpace b'.size).getD b' else b' := by
  have htest : 0 < (data.length : ℤ) ∧ (data.length : ℤ).toNat ≤ b.writableBytes := by omega
  simp only [readFd, hrecv]
  rw [if_pos htest, Int.toNat_natCast]
  exact apply_ite Prod.snd _ _ _

/-- `readFd` when nothing has been received. -/
theorem readFd_of_recv_nil {peer : Peer} {n : ℤ} (hrecv : recv (recvLength b) peer = (n, []))
    (hn : n ≤ 0) : (readFd b peer).2 = { b with buffer := writeAt b.buffer b.writeIndex [] } := by
  simp only [readFd, hrecv]
  rw [if_neg fun h => not_lt.2 hn h.1]

/-- What `readFd` makes of the buffer when the length is positive. -/
theorem room_readFd (h : b.Input) (hlen : Receivable b.room) {peer : Peer}
    (hpeer : peer ≠ .sent []) :
    (readFd b peer).2.Input ∧ (readFd b peer).2.room = roomAfter b (.readFd peer) := by
  have hrecv : recvLength b = toInt b.room := by rw [recvLength, h.writableBytes]
  have hpos : 0 < toInt b.room := hlen
  cases peer with
  | sent data =>
    have hne : data ≠ [] := fun h => hpeer (h ▸ rfl)
    have hdata := List.length_pos_iff.2 hne
    have hle := toInt_le (n := (b.room : ℤ)) (by omega)
    obtain ⟨taken, htaken⟩ : ∃ l, l = data.take (toInt b.room).toNat := ⟨_, rfl⟩
    have hlen : taken.length = min (toInt b.room).toNat data.length := by
      rw [htaken, List.length_take]
    have hfd : recv (recvLength b) (.sent data) = ((taken.length : ℤ), taken) := by
      simp only [hrecv, recv, if_neg (not_lt.2 hpos.le), htaken]
    have hroom : taken.length ≤ b.room := by omega
    rw [readFd_of_recv hfd (by omega) (h.writableBytes ▸ hroom)]
    obtain ⟨hin, hafter, hsize, -⟩ := h.room_fill hroom
    rw [roomAfter, ← hlen]
    dsimp only
    rw [hin.writableBytes, hafter]
    split
    case isTrue hfull =>
      rw [if_neg (by omega)]
      have hgrow := room_grow hin (hafter.trans hfull)
      rw [hsize] at hgrow ⊢
      exact hgrow
    case isFalse hfull =>
      rw [if_pos (by omega)]
      exact ⟨hin, hafter⟩
  | closed =>
    have hfd : recv (recvLength b) .closed = (0, []) := by
      simp only [hrecv, recv, if_neg (not_lt.2 hpos.le)]
    rw [readFd_of_recv_nil hfd le_rfl]
    exact room_fill_nil h
  | failed =>
    rw [readFd_of_recv_nil rfl (by decide)]
    exact room_fill_nil h

/-- An append of the bytes of an integer. -/
theorem room_appendInt (h : b.Input) {data : List UInt8} {len : ℕ} (hdata : data.length = len)
    (hlen : len ≤ maxSize) :
    ((b.append data).getD b).Input ∧ ((b.append data).getD b).room = b.roomAppend len := by
  rw [← hdata]
  exact h.room_append (hdata ▸ hlen)

/-- A read of more than there is takes everything, as `retrieve` does. -/
theorem room_readBytes (h : b.Input) (len : ℕ) :
    (b.readBytes len).2.Input ∧ (b.readBytes len).2.room = b.roomRetrieve len := by
  unfold Buffer.readBytes
  split
  case isTrue hall =>
    have hroom := h.room_retrieve b.readableBytes
    rw [roomRetrieve, if_neg (lt_irrefl _)] at hroom
    rw [roomRetrieve, if_neg hall.le.not_gt]
    exact hroom
  case isFalse => exact h.room_retrieve len

theorem room_readAsString (h : b.Input) (len : ℕ) :
    (b.readAsString len).2.Input ∧ (b.readAsString len).2.room = b.roomRetrieve len := by
  unfold Buffer.readAsString
  split
  case isTrue hall =>
    rw [roomRetrieve, if_neg hall.le.not_gt]
    exact h.room_retrieveAll
  case isFalse => exact h.room_retrieve len

/-- What holds of a buffer that `recv` can be called on. -/
structure Ready (b : Buffer) : Prop where
  input : b.Input
  room : Receivable b.room

/-- **The free space after each call**, as `roomAfter` says. -/
theorem step_spec (h : Ready b) {c : Call} (hb : step b c = some b') :
    b'.Input ∧ b'.room = roomAfter b c := by
  have hin := h.input
  cases c with
  | append data =>
    obtain ⟨hlen, h'⟩ := Option.ite_none_right_eq_some.1 hb
    rw [← Option.some.inj h']
    exact hin.room_append hlen
  | appendInt64 n =>
    rw [← Option.some.inj hb]
    exact room_appendInt hin (length_memBytes ..) (by decide)
  | appendInt32 n =>
    rw [← Option.some.inj hb]
    exact room_appendInt hin (length_memBytes ..) (by decide)
  | appendInt16 n =>
    rw [← Option.some.inj hb]
    exact room_appendInt hin (length_memBytes ..) (by decide)
  | appendInt8 n =>
    rw [← Option.some.inj hb]
    exact room_appendInt hin (length_memBytes ..) (by decide)
  | retrieve len =>
    rw [← Option.some.inj hb]
    exact hin.room_retrieve len
  | retrieveUntil e =>
    rw [← Option.some.inj hb]
    exact hin.room_retrieve _
  | retrieveAll =>
    rw [← Option.some.inj hb]
    exact hin.room_retrieveAll
  | readBytes len =>
    rw [← Option.some.inj hb]
    exact room_readBytes hin len
  | readAsString len =>
    rw [← Option.some.inj hb]
    exact room_readAsString hin len
  | readAllAsString =>
    rw [← Option.some.inj hb]
    exact hin.room_retrieveAll
  | shrinkToFit =>
    rw [← Option.some.inj hb]
    exact hin.room_shrinkToFit
  | swap other =>
    obtain ⟨hother, h'⟩ := Option.ite_none_right_eq_some.1 hb
    rw [← Option.some.inj h']
    exact ⟨hother, rfl⟩
  | readFd peer =>
    obtain ⟨hpeer, h'⟩ := Option.ite_none_right_eq_some.1 hb
    rw [← Option.some.inj h']
    exact room_readFd hin h.room hpeer

/-- A state without room is left by a call that is not good. -/
theorem not_receivable_of_not_leavesRoom (h : Ready b) {c : Call} (hc : ¬ LeavesRoom b c) :
    ∃ b', step b c = some b' ∧ ¬ Receivable b'.room := by
  unfold LeavesRoom at hc
  push Not at hc
  obtain ⟨hsome, hroom⟩ := hc
  obtain ⟨b', hb'⟩ := Option.isSome_iff_exists.1 hsome
  exact ⟨b', hb', by rwa [(step_spec h hb').2]⟩

theorem readFd_fst (b : Buffer) (peer : Peer) :
    (readFd b peer).1 = (recv (recvLength b) peer).1 := by
  simp only [readFd]
  split_ifs <;> rfl

/-- What `handleRead` relies on: `recv` is given a positive length, and `readFd`
returns 0 only when the other side has closed. -/
def ZeroMeansClosed (b : Buffer) : Prop :=
  0 < recvLength b ∧ ∀ peer, peer ≠ .sent [] → (readFd b peer).1 = 0 → peer = .closed

theorem Ready.zeroMeansClosed (h : Ready b) : ZeroMeansClosed b := by
  have hpos : 0 < recvLength b := by
    rw [recvLength, h.input.writableBytes]
    exact h.room
  refine ⟨hpos, fun peer hpeer hzero => ?_⟩
  rw [readFd_fst] at hzero
  exact recv_spec hpos peer hpeer hzero

/-- `TcpConnection::inputBuf` of a new connection. -/
def inputBuf : Buffer :=
  { buffer := List.replicate (prepends + initialSize) 0
    readIndex := prepends
    writeIndex := prepends }

theorem new_initialSize : new initialSize = some inputBuf := by
  unfold new resize
  rfl

theorem room_inputBuf : inputBuf.room = 1024 := by
  rw [room, size, inputBuf, List.length_replicate]
  rfl

theorem ready_inputBuf : Ready inputBuf := by
  obtain ⟨hin, -⟩ := Input.new (by decide) new_initialSize
  refine ⟨hin, ?_⟩
  rw [Receivable, room_inputBuf]
  decide

/-- **Zero means closed, exactly when every call leaves room.**  Over a run of
calls on the input buffer of a connection, `recv` is given a positive length in
every state, and 0 is returned only for a stream that has ended, if and only if
each call leaves a free space that is positive as an `int`. -/
theorem leavesRoom_iff (is : List Call) :
    Always step ZeroMeansClosed inputBuf is ↔ Steps step LeavesRoom inputBuf is := by
  refine always_iff_steps (fun b c b' (h : Ready b) hgood hb => ?_)
    (fun b h => h.zeroMeansClosed) (fun b c h hbad => ?_) ready_inputBuf
  · obtain ⟨hin, hroom⟩ := step_spec h hb
    exact ⟨hin, hroom ▸ hgood (hb ▸ rfl)⟩
  · obtain ⟨b', hb', hroom⟩ := not_receivable_of_not_leavesRoom h hbad
    refine ⟨b', hb', fun hz => hroom ?_⟩
    have hpos := hz.1
    rwa [recvLength, (step_spec h hb').1.writableBytes] at hpos

/-- Bytes that fit exactly: the other side has sent one byte more, `recv` is
given the length 0, and `readFd` returns 0. -/
theorem append_exact_fit :
    ∃ b, step inputBuf (.append (List.replicate 1024 0)) = some b ∧
      recvLength b = 0 ∧ (readFd b (.sent [0])).1 = 0 := by
  obtain ⟨data, hdata⟩ : ∃ data, data = List.replicate 1024 (0 : UInt8) := ⟨_, rfl⟩
  have hlen : data.length = 1024 := by rw [hdata, List.length_replicate]
  obtain ⟨b, hb⟩ : ∃ b, step inputBuf (.append data) = some b :=
    ⟨_, if_pos (hlen ▸ by decide)⟩
  obtain ⟨hin, hroom⟩ := step_spec ready_inputBuf hb
  rw [roomAfter, roomAppend, hlen, room_inputBuf, if_pos le_rfl] at hroom
  rw [← hdata]
  have hrecv : recvLength b = 0 := by
    rw [recvLength, hin.writableBytes, hroom]
    rfl
  refine ⟨b, hb, hrecv, ?_⟩
  rw [readFd_fst, hrecv]
  rfl

end Windows
end Buffer
end Net
end Sevent
