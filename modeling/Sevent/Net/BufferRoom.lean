/-
# The free space of a buffer

`room` is what `writableBytes()` returns for a buffer whose indices are in order,
and `allRoom` what `ensureSpace` compares with the length it is asked for.  Each
call is described by what it does to the free space: `ensureSpace`
(`Input.room_ensureSpace`), an append, a `retrieve`, and a store at the write index
(`Input.room_fill`).

Reads that go on until nothing is left call `ensureSpace(buffer.size())` when the
vector is full, which doubles it (`Input.grow`): before the data there is never
room for that much.
-/

import Sevent.Net.BufferFifo

namespace Sevent
namespace Net
namespace Buffer

open Bytes

/-- The free space behind the write index. -/
def room (b : Buffer) : ℕ := b.size - b.writeIndex

/-- The free space before and behind the data, without the reserved bytes. -/
def allRoom (b : Buffer) : ℕ := b.room + b.readIndex - prepends

/-- The free space behind the write index after `len` bytes have been appended:
they fit there, the vector grows to hold exactly them, unless that throws, or
the data is moved to the front. -/
def roomAppend (b : Buffer) (len : ℕ) : ℕ :=
  if len ≤ b.room then b.room - len
  else if b.allRoom < len then (if maxSize < b.writeIndex + len then b.room else 0)
  else b.allRoom - len

/-- The free space behind the write index after `len` bytes have been retrieved. -/
def roomRetrieve (b : Buffer) (len : ℕ) : ℕ :=
  if len < b.readableBytes then b.room else b.size - prepends

variable {b b' : Buffer}

theorem Input.writableBytes (h : b.Input) : b.writableBytes = b.room := h.toOk.writableBytes_eq

theorem Input.test_eq (h : b.Input) :
    subSize (addSize b.writableBytes b.prependableBytes) Buffer.prepends = b.allRoom := by
  have hlt := h.toOk.lt
  have hread := h.read_le
  have hwrite := h.write_le
  rw [h.toOk.sum_eq, subSize_of_le h.sum (by omega)]
  rfl

/-- No index plus a length wraps. -/
theorem Input.addSize_writeIndex (h : b.Input) {len : ℕ} (hlen : len ≤ maxSize) :
    addSize b.writeIndex len = b.writeIndex + len := by
  have hwrite := h.write_le
  have hsize := h.size_le
  exact addSize_of_lt (by unfold maxSize at hlen hsize; omega)

theorem Input.not_wraps (h : b.Input) {len : ℕ} (hlen : len ≤ maxSize) : ¬ b.Wraps len := by
  intro hw
  have hwrite := h.write_le
  have hsize := h.size_le
  have hsum := hw.2.2
  unfold maxSize at hlen hsize
  omega

/-- What `ensureSpace` makes of the free space. -/
theorem Input.room_ensureSpace (h : b.Input) {len : ℕ} (hlen : len ≤ maxSize)
    (hb : b.ensureSpace len = some b') :
    b'.room = if len ≤ b.room then b.room else if b.allRoom < len then len else b.allRoom := by
  have hwrite := h.write_le
  unfold Buffer.ensureSpace at hb
  rw [h.test_eq, h.writableBytes, h.addSize_writeIndex hlen] at hb
  split
  case isTrue hroom =>
    rw [if_pos hroom] at hb
    rw [Option.some.inj hb]
  case isFalse hroom =>
    rw [if_neg hroom] at hb
    split
    case isTrue hgrow =>
      rw [if_pos hgrow] at hb
      obtain ⟨v, hv, rfl⟩ := Option.map_eq_some_iff.1 hb
      have hv' := length_resize hv
      unfold room size
      dsimp only
      omega
    case isFalse hgrow =>
      rw [if_neg hgrow] at hb
      obtain ⟨-, hmove, -⟩ := ensures_move h.toOk h.sum
      rw [← Option.some.inj hb]
      exact hmove

/-- When `ensureSpace` throws. -/
theorem Input.ensureSpace_eq_none (h : b.Input) {len : ℕ} (hlen : len ≤ maxSize) :
    b.ensureSpace len = none ↔ b.room < len ∧ b.allRoom < len ∧ maxSize < b.writeIndex + len := by
  unfold Buffer.ensureSpace
  rw [h.test_eq, h.writableBytes, h.addSize_writeIndex hlen]
  split
  case isTrue hroom => simp; omega
  case isFalse hroom =>
    split
    case isTrue hgrow =>
      unfold resize
      split
      case isTrue hthrow => simp; omega
      case isFalse hfit => simp; omega
    case isFalse hgrow => simp; omega

/-- A vector is grown only where the data is about as long as it, so a short append to
short data returns. -/
theorem Input.exists_append (h : b.Input) {data : List UInt8}
    (hlen : b.readableBytes + 2 * data.length + Buffer.prepends ≤ maxSize) :
    ∃ b', b.append data = some b' := by
  have hread := h.read_le
  have hwrite := h.write_le
  have hreadable := h.toOk.readableBytes_eq
  cases hens : b.ensureSpace data.length with
  | some b₁ => exact ⟨_, by rw [Buffer.append, hens, Option.map_some]⟩
  | none =>
    obtain ⟨-, hgrow, hthrow⟩ := (h.ensureSpace_eq_none (by omega)).1 hens
    unfold allRoom room at hgrow
    omega

/-- `ensureSpace` makes the vector no larger than it needs. -/
theorem Input.size_ensureSpace (h : b.Input) {len : ℕ} (hlen : len ≤ maxSize)
    (hb : b.ensureSpace len = some b') : b'.size ≤ b.size + len := by
  have hwrite := h.write_le
  unfold Buffer.ensureSpace at hb
  rw [h.addSize_writeIndex hlen] at hb
  split_ifs at hb
  · rw [← Option.some.inj hb]
    exact Nat.le_add_right ..
  · obtain ⟨v, hv, rfl⟩ := Option.map_eq_some_iff.1 hb
    rw [size, length_resize hv]
    omega
  · rw [← Option.some.inj hb]
    exact (length_writeAt ..).trans_le (Nat.le_add_right ..)

/-- **The free space after an append.** -/
theorem Input.room_append (h : b.Input) {data : List UInt8} (hlen : data.length ≤ maxSize) :
    ((b.append data).getD b).Input ∧
      ((b.append data).getD b).room = b.roomAppend data.length := by
  cases happ : b.append data with
  | none =>
    have hnone : b.ensureSpace data.length = none := by
      unfold Buffer.append at happ
      exact Option.map_eq_none_iff.1 happ
    obtain ⟨hroom, hgrow, hthrow⟩ := (h.ensureSpace_eq_none hlen).1 hnone
    refine ⟨h, ?_⟩
    rw [Option.getD_none, roomAppend, if_neg (by omega), if_pos hgrow, if_pos hthrow]
  | some b' =>
    refine ⟨(h.append hlen happ).1, ?_⟩
    unfold Buffer.append at happ
    obtain ⟨b₁, h₁, rfl⟩ := Option.map_eq_some_iff.1 happ
    have hroom := h.room_ensureSpace hlen h₁
    have hthrow : ¬ (b.room < data.length ∧ b.allRoom < data.length ∧
        maxSize < b.writeIndex + data.length) := fun hn => by
      rw [(h.ensureSpace_eq_none hlen).2 hn] at h₁
      cases h₁
    have hin := (h.ensureSpace (h.not_wraps hlen) h₁).1
    have hafter : ({ b₁ with
        buffer := writeAt b₁.buffer b₁.writeIndex data
        writeIndex := addSize b₁.writeIndex data.length } : Buffer).room =
          b₁.room - data.length := by
      unfold room size
      rw [hin.addSize_writeIndex hlen, length_writeAt, Nat.sub_add_eq]
    rw [Option.getD_some, hafter, hroom]
    unfold roomAppend
    split_ifs <;> omega

/-- **The free space after a `retrieve`.** -/
theorem Input.room_retrieve (h : b.Input) (len : ℕ) :
    (b.retrieve len).Input ∧ (b.retrieve len).room = b.roomRetrieve len := by
  refine ⟨h.retrieve len, ?_⟩
  unfold Buffer.retrieve roomRetrieve
  split
  case isTrue => rfl
  case isFalse => rfl

theorem Input.room_retrieveAll (h : b.Input) :
    b.retrieveAll.Input ∧ b.retrieveAll.room = b.size - Buffer.prepends :=
  ⟨h.retrieveAll, rfl⟩

/-- **The free space after `shrinkToFit`.** -/
theorem Input.room_shrinkToFit (h : b.Input) :
    (b.shrinkToFit.getD b).Input ∧
      (b.shrinkToFit.getD b).room = initialSize - b.readableBytes := by
  have hpre := h.prepends_le_read
  have hwrite := h.write_le
  have hsize := h.size_le
  have hread := h.read_le
  have hreadable := h.toOk.readableBytes_eq
  obtain ⟨b₁, h₁, -, -⟩ := shrinkToFit_spec h.toOk (by omega)
  rw [h₁, Option.getD_some]
  refine ⟨(h.shrinkToFit h₁).1, ?_⟩
  have hlen : (b.peek b.readableBytes).length = b.readableBytes := by
    rw [h.toOk.peek_eq, h.toOk.length_readable, hreadable]
  have hmax : b.readableBytes ≤ maxSize := by omega
  unfold Buffer.shrinkToFit at h₁
  simp only [Option.bind_eq_bind, Option.bind_eq_some_iff, Option.pure_def, swap,
    Option.some.injEq] at h₁
  obtain ⟨f, hf, g, hg, d, hd, rfl⟩ := h₁
  obtain ⟨hfin, -⟩ := Input.new (by decide) hf
  obtain ⟨-, hfsize, hfread, hfwrite⟩ := ok_new (by decide) hf
  have hfroom : f.room = initialSize := by
    rw [room, hfsize, hfwrite, Nat.add_sub_cancel_left]
  have hfall : f.allRoom = initialSize := by
    rw [allRoom, hfroom, hfread, Nat.add_sub_cancel]
  have hgroom := hfin.room_ensureSpace hmax hg
  rw [hfroom, hfall] at hgroom
  have hroom := ((hfin.ensureSpace (hfin.not_wraps hmax) hg).1.room_append (hlen ▸ hmax)).2
  rw [hd, Option.getD_some, hlen] at hroom
  rw [hroom]
  unfold roomAppend
  split_ifs at hgroom ⊢ <;> omega

/-- Bytes stored at the write index, which is moved behind them. -/
theorem Input.room_fill (h : b.Input) {data : List UInt8} (hlen : data.length ≤ b.room) :
    let b' : Buffer := { b with
      buffer := writeAt b.buffer b.writeIndex data
      writeIndex := addSize b.writeIndex data.length }
    b'.Input ∧ b'.room = b.room - data.length ∧ b'.size = b.size ∧
      b'.readable = b.readable ++ data := by
  intro b'
  have hwrite := h.write_le
  have hsize := h.size_le
  unfold room at hlen
  have hadd := h.addSize_writeIndex (hlen.trans (by omega) : data.length ≤ maxSize)
  have hb' : b' = { b with
      buffer := writeAt b.buffer b.writeIndex data
      writeIndex := b.writeIndex + data.length } := by rw [← hadd]
  have hsz : b'.size = b.size := length_writeAt ..
  have hfit : b.writeIndex + data.length ≤ b.size := by omega
  obtain ⟨hin, hreadable⟩ := h.fill hfit
  refine ⟨hb' ▸ hin, ?_, hsz, hb' ▸ hreadable⟩
  rw [room, hsz, hb', room, Nat.sub_add_eq]

/-- **A full vector is doubled**, unless that throws. -/
theorem Input.grow (h : b.Input) (hfull : b.room = 0) :
    (maxSize < b.size + b.size ∧ b.ensureSpace b.size = none) ∨
      ∃ b', b.ensureSpace b.size = some b' ∧ b.size + b.size ≤ maxSize ∧ b'.Input ∧
        b'.room = b.size ∧ b'.size = b.size + b.size ∧ b'.readable = b.readable := by
  have hread := h.read_le
  have hwrite := h.write_le
  have hsize := h.size_le
  have hpre := h.prepends_le
  have hpre' := h.prepends_le_read
  have hall : b.allRoom < b.size := by
    unfold allRoom Buffer.prepends at *
    omega
  have hend : b.writeIndex = b.size := by
    unfold room at hfull
    omega
  have hpos : ¬ b.size ≤ b.room := by
    unfold Buffer.prepends at hpre
    omega
  cases hens : b.ensureSpace b.size with
  | none =>
    have hthrow := ((h.ensureSpace_eq_none hsize).1 hens).2.2
    rw [hend] at hthrow
    exact .inl ⟨hthrow, rfl⟩
  | some b' =>
    right
    have hfit : b.size + b.size ≤ maxSize := by
      by_contra hthrow
      have hnone := (h.ensureSpace_eq_none hsize).2 ⟨by omega, hall, by omega⟩
      rw [hens] at hnone
      cases hnone
    obtain ⟨hin, hreadable⟩ := h.ensureSpace (h.not_wraps hsize) hens
    have hroom := h.room_ensureSpace hsize hens
    rw [if_neg hpos, if_pos hall] at hroom
    refine ⟨b', rfl, hfit, hin, hroom, ?_, hreadable⟩
    -- the growth leaves the write index where it was, at the end of the old vector
    unfold Buffer.ensureSpace at hens
    rw [h.test_eq, h.writableBytes, h.addSize_writeIndex hsize, if_neg hpos, if_pos hall,
      hend] at hens
    obtain ⟨v, hv, rfl⟩ := Option.map_eq_some_iff.1 hens
    exact length_resize hv

/-! ### Buffers that are reached without `prepend` -/

/-- An operation that puts nothing in front of the data, and whose request does not
wrap: an array in memory is no longer than `maxSize`. -/
def Behind (b : Buffer) : Op → Prop
  | .prepend _ | .prependInt64 _ | .prependInt32 _ | .prependInt16 _ | .prependInt8 _ => False
  | .append data => data.length ≤ maxSize
  | .ensureSpace len => ¬ b.Wraps len
  | _ => True

theorem advance_readIndex (len : ℕ) : (b.advance len).readIndex = b.readIndex := by
  unfold Buffer.advance
  split <;> rfl

theorem Input.appendInt (h : b.Input) {data : List UInt8} {k : ℕ} (hk : data.length = k)
    (hmax : k ≤ maxSize) (hb : b.append data = some b') : b'.Input :=
  (h.append (hk.trans_le hmax) hb).1

theorem Input.apply (h : b.Input) {o : Op} (ho : Behind b o) (hb : b.apply o = some b') :
    b'.Input := by
  cases o with
  | append data => exact (h.append ho hb).1
  | appendInt64 n => exact h.appendInt (length_memBytes ..) (by decide) hb
  | appendInt32 n => exact h.appendInt (length_memBytes ..) (by decide) hb
  | appendInt16 n => exact h.appendInt (length_memBytes ..) (by decide) hb
  | appendInt8 n => exact h.appendInt (length_memBytes ..) (by decide) hb
  | ensureSpace len => exact (h.ensureSpace ho hb).1
  | shrinkToFit => exact (h.shrinkToFit hb).1
  | retrieve len => exact Option.some.inj hb ▸ h.retrieve len
  | retrieveUntil e => exact Option.some.inj hb ▸ h.retrieve _
  | retrieveAll => exact Option.some.inj hb ▸ h.retrieveAll
  | advance len =>
    rw [← Option.some.inj hb]
    exact h.of_readIndex (ok_advance h.toOk len) (.inl (advance_readIndex len))
  | readBytes len => exact Option.some.inj hb ▸ h.retrieve _
  | readAsString len =>
    rw [← Option.some.inj hb]
    unfold Buffer.readAsString
    split
    case isTrue => exact h.retrieveAll
    case isFalse => exact h.retrieve _
  | readAllAsString => exact Option.some.inj hb ▸ h.retrieveAll
  | prepend _ | prependInt64 _ | prependInt32 _ | prependInt16 _ | prependInt8 _ => exact ho.elim

/-- **A buffer that is reached without `prepend`** has its indices in order, with the
reserved bytes in front of the data. -/
theorem input_of_reached (h : Reached (fun n => prepends + n < 2 ^ 64) Behind b) : b.Input := by
  induction h with
  | new hn hb => exact (Input.new hn hb).1
  | op _ ho hb ih => exact ih.apply ho hb
  | swap_fst _ _ _ ihb => exact ihb
  | swap_snd _ _ iha _ => exact iha

end Buffer
end Net
end Sevent
