/-
# When the buffer keeps its indices in order

`Buffer::ensureSpace` grows the vector or moves the readable bytes back to
offset `prepends`, and decides by the `size_t` test
`writableBytes() + prependableBytes() - prepends < len`.  A growth leaves the
vector exactly full, and a `prepend` takes `readIndex` below `prepends`; after
both, the left side is negative, the difference wraps to almost `2 ^ 64`, and
the bytes are moved *up*, past the end of the vector (`wrapped_append`).

`SpaceSafe b len` is the condition on a call of `ensureSpace(len)`: there is
room already, or the sum is at least `prepends` and, where the vector grows,
its new size is one a vector can have.  `ensures_iff_spaceSafe` says that this
is exactly when the call does what it is for, and `buffer_space` that a buffer
used so keeps `readIndex ≤ writeIndex ≤ buffer.size()` for good.
-/

import Sevent.Net.Buffer
import Sevent.Lib.Run

namespace Sevent
namespace Net
namespace Buffer

open Bytes

/-- The indices are in order, inside a vector that has room for the reserved
bytes and is no larger than a vector can be. -/
structure Ok (b : Buffer) : Prop where
  read_le : b.readIndex ≤ b.writeIndex
  write_le : b.writeIndex ≤ b.size
  prepends_le : prepends ≤ b.size
  size_le : b.size ≤ maxSize

/-- The condition on a call `ensureSpace(len)`. -/
def SpaceSafe (b : Buffer) (len : ℕ) : Prop :=
  len ≤ b.size - b.writeIndex ∨
    prepends ≤ b.size - b.writeIndex + b.readIndex ∧
      (b.size - b.writeIndex + b.readIndex - prepends < len → b.writeIndex + len ≤ maxSize)

instance (b : Buffer) (len : ℕ) : Decidable (b.SpaceSafe len) := by
  unfold SpaceSafe; infer_instance

/-- `writableBytes() + prependableBytes() - prepends` is the integer it stands
for: neither the sum nor the difference wraps. -/
def NoWrap (b : Buffer) : Prop :=
  b.writableBytes + b.prependableBytes < 2 ^ 64 ∧
    prepends ≤ b.writableBytes + b.prependableBytes

/-- What `ensureSpace(len)` is for: it returns with the indices in order, room
for `len` bytes and the readable bytes unchanged, and where it evaluates its
test no `size_t` wraps. -/
def Ensures (b : Buffer) (len : ℕ) : Prop :=
  (b.writableBytes < len → b.NoWrap) ∧
    ∃ b', b.ensureSpace len = some b' ∧ b'.Ok ∧ b'.writeIndex + len ≤ b'.size ∧
      b'.readable = b.readable

/-- The public operations that act on one buffer. -/
inductive Op
  | append (data : List UInt8)
  | appendInt64 (n : ℤ)
  | appendInt32 (n : ℤ)
  | appendInt16 (n : ℤ)
  | appendInt8 (n : ℤ)
  | prepend (data : List UInt8)
  | prependInt64 (n : ℤ)
  | prependInt32 (n : ℤ)
  | prependInt16 (n : ℤ)
  | prependInt8 (n : ℤ)
  | retrieve (len : ℕ)
  | retrieveUntil (e : ℤ)
  | retrieveAll
  | advance (len : ℕ)
  | ensureSpace (len : ℕ)
  | readBytes (len : ℕ)
  | readAsString (len : ℕ)
  | readAllAsString
  | shrinkToFit

/-- The buffer after an operation, `none` when it throws. -/
def apply (b : Buffer) : Op → Option Buffer
  | .append data => b.append data
  | .appendInt64 n => b.appendInt64 n
  | .appendInt32 n => b.appendInt32 n
  | .appendInt16 n => b.appendInt16 n
  | .appendInt8 n => b.appendInt8 n
  | .prepend data => some (b.prepend data)
  | .prependInt64 n => some (b.prependInt64 n)
  | .prependInt32 n => some (b.prependInt32 n)
  | .prependInt16 n => some (b.prependInt16 n)
  | .prependInt8 n => some (b.prependInt8 n)
  | .retrieve len => some (b.retrieve len)
  | .retrieveUntil e => some (b.retrieveUntil e)
  | .retrieveAll => some b.retrieveAll
  | .advance len => some (b.advance len)
  | .ensureSpace len => b.ensureSpace len
  | .readBytes len => some (b.readBytes len).2
  | .readAsString len => some (b.readAsString len).2
  | .readAllAsString => some b.readAllAsString.2
  | .shrinkToFit => b.shrinkToFit

/-- The condition on an operation: each call of `ensureSpace` it makes on the
buffer is safe.  `shrinkToFit` calls it on a fresh buffer, which has to be
able to hold the readable bytes. -/
def OpSafe (b : Buffer) : Op → Prop
  | .append data => b.SpaceSafe data.length
  | .appendInt64 _ => b.SpaceSafe 8
  | .appendInt32 _ => b.SpaceSafe 4
  | .appendInt16 _ => b.SpaceSafe 2
  | .appendInt8 _ => b.SpaceSafe 1
  | .ensureSpace len => b.SpaceSafe len
  | .shrinkToFit => prepends + (b.writeIndex - b.readIndex) ≤ maxSize
  | _ => True

/-- The buffers reached by public operations: constructed with an initial size
that meets `start`, then changed by operations that meet `good`, and swapped
with one another. -/
inductive Reached (start : ℕ → Prop) (good : Buffer → Op → Prop) : Buffer → Prop
  | new {n : ℕ} {b : Buffer} (hn : start n) (h : new n = some b) : Reached start good b
  | op {b b' : Buffer} {o : Op} (hb : Reached start good b) (ho : good b o)
      (h : b.apply o = some b') : Reached start good b'
  | swap_fst {a b : Buffer} (ha : Reached start good a) (hb : Reached start good b) :
      Reached start good (a.swap b).1
  | swap_snd {a b : Buffer} (ha : Reached start good a) (hb : Reached start good b) :
      Reached start good (a.swap b).2

/-! ### The sizes of a buffer whose indices are in order -/

section Ok

variable {b : Buffer} (h : b.Ok)
include h

/-- A buffer that is sound is smaller than any sum that could wrap. -/
theorem Ok.lt : b.size < 2 ^ 63 := by
  have := h.size_le
  unfold maxSize at this
  omega

/-- The readable bytes of a sound buffer, without the wrapping. -/
theorem Ok.readableBytes_eq : b.readableBytes = b.writeIndex - b.readIndex :=
  subSize_of_le h.read_le (by have := h.lt; have := h.write_le; omega)

/-- The writable bytes of a sound buffer, without the wrapping. -/
theorem Ok.writableBytes_eq : b.writableBytes = b.size - b.writeIndex :=
  subSize_of_le h.write_le (by have := h.lt; omega)

/-- The two parts that are free, added up: no wrapping there either. -/
theorem Ok.sum_eq :
    addSize b.writableBytes b.prependableBytes = b.size - b.writeIndex + b.readIndex := by
  have := h.lt
  have := h.read_le
  have := h.write_le
  rw [h.writableBytes_eq, prependableBytes, addSize_of_lt (by omega)]

/-- `peek` of all readable bytes is the readable stretch. -/
theorem Ok.peek_eq : b.peek b.readableBytes = b.readable := by
  rw [peek, readable, h.readableBytes_eq, Nat.add_sub_cancel' h.read_le]

/-- The readable bytes are as many as the indices say. -/
theorem Ok.length_readable : b.readable.length = b.writeIndex - b.readIndex := by
  have := h.write_le
  unfold size at this
  rw [readable, length_slice, min_eq_left this]

end Ok

/-- The vector after a `resize` that does not throw. -/
theorem resize_eq_some {v w : List UInt8} {n : ℕ} :
    resize v n = some w ↔ n ≤ maxSize ∧ v.take n ++ List.replicate (n - v.length) 0 = w := by
  unfold resize
  split <;> simp <;> omega

/-- A vector that was resized has the new length. -/
theorem length_resize {v w : List UInt8} {n : ℕ} (h : resize v n = some w) : w.length = n := by
  obtain ⟨-, rfl⟩ := resize_eq_some.1 h
  simp only [List.length_append, List.length_take, List.length_replicate]
  omega

/-- A fresh buffer whose size does not wrap. -/
theorem ok_new {n : ℕ} {b : Buffer} (hn : prepends + n < 2 ^ 64) (h : new n = some b) :
    b.Ok ∧ b.size = prepends + n ∧ b.readIndex = prepends ∧ b.writeIndex = prepends := by
  unfold new at h
  rw [addSize_of_lt hn] at h
  obtain ⟨v, hv, rfl⟩ := Option.map_eq_some_iff.1 h
  have hlen := length_resize hv
  obtain ⟨hle, -⟩ := resize_eq_some.1 hv
  refine ⟨⟨le_rfl, ?_, ?_, ?_⟩, hlen, rfl, rfl⟩ <;> simp only [size] <;> omega

/-- A buffer of every size that a vector can have is constructed. -/
theorem exists_new {n : ℕ} (hn : prepends + n ≤ maxSize) : ∃ b, new n = some b := by
  unfold new
  rw [addSize_of_lt (by unfold maxSize at hn; omega), resize_eq_some.2 ⟨hn, rfl⟩]
  exact ⟨_, rfl⟩

/-! ### `ensureSpace` -/

/-- Growing keeps the indices and the readable bytes, and leaves room for
exactly `len` bytes. -/
theorem ensures_grow {b : Buffer} (h : b.Ok) {len : ℕ} (hw : b.size - b.writeIndex < len)
    (hlen : b.writeIndex + len ≤ maxSize) {v : List UInt8}
    (hv : resize b.buffer (b.writeIndex + len) = some v) :
    ({ b with buffer := v } : Buffer).Ok ∧ b.writeIndex + len ≤ v.length ∧
      ({ b with buffer := v } : Buffer).readable = b.readable := by
  have hl := length_resize hv
  have hread := h.read_le
  have hpre := h.prepends_le
  have hwrite := h.write_le
  obtain ⟨-, rfl⟩ := resize_eq_some.1 hv
  unfold size at *
  refine ⟨⟨hread, ?_, ?_, ?_⟩, by omega, ?_⟩
  · simp only [size, hl]; omega
  · simp only [size, hl]; omega
  · simp only [size, hl]; omega
  · rw [List.take_of_length_le (by omega)]
    exact slice_append_right _ _ hwrite

/-- Moving the readable bytes back to `prepends` keeps them. -/
theorem ensures_move {b : Buffer} (h : b.Ok)
    (hsum : prepends ≤ b.size - b.writeIndex + b.readIndex) :
    let b' : Buffer :=
      { buffer := writeAt b.buffer prepends b.readable
        readIndex := prepends
        writeIndex := addSize prepends b.readableBytes }
    b'.Ok ∧ b'.size - b'.writeIndex = b.size - b.writeIndex + b.readIndex - prepends ∧
      b'.readable = b.readable := by
  have hlen := h.length_readable
  have hread := h.read_le
  have hwrite := h.write_le
  have hlt := h.lt
  have hadd : addSize prepends b.readableBytes = prepends + b.readable.length := by
    rw [h.readableBytes_eq, hlen, addSize_of_lt (by unfold prepends; omega)]
  have hfit : prepends + b.readable.length ≤ b.buffer.length := by
    unfold size at *
    omega
  simp only [hadd]
  refine ⟨⟨by simp, ?_, ?_, ?_⟩, ?_, ?_⟩
  · simpa only [size, length_writeAt] using hfit
  · simpa only [size, length_writeAt] using h.prepends_le
  · simpa only [size, length_writeAt] using h.size_le
  · simp only [size, length_writeAt] at *
    omega
  · simp only [readable]
    exact slice_writeAt_self hfit

/-- **A safe call of `ensureSpace` does what it is for.** -/
theorem ensures_of_spaceSafe {b : Buffer} (h : b.Ok) {len : ℕ} (hs : b.SpaceSafe len) :
    b.Ensures len := by
  have hw := h.writableBytes_eq
  have hread := h.read_le
  have hwrite := h.write_le
  have hlt := h.lt
  by_cases hroom : len ≤ b.writableBytes
  · exact ⟨fun hn => absurd hn (by omega), b, if_pos hroom, h, by omega, rfl⟩
  · obtain hs | ⟨hsum, hgrow⟩ := hs
    · omega
    have hdiff : subSize (addSize b.writableBytes b.prependableBytes) prepends =
        b.size - b.writeIndex + b.readIndex - prepends := by
      rw [h.sum_eq, subSize_of_le hsum (by omega)]
    refine ⟨fun _ => ⟨by rw [hw, prependableBytes]; omega, by rw [hw]; exact hsum⟩, ?_⟩
    unfold ensureSpace
    rw [if_neg hroom, hdiff]
    split
    · next hlen =>
      have hmax := hgrow hlen
      have hadd : addSize b.writeIndex len = b.writeIndex + len :=
        addSize_of_lt (by unfold maxSize at hmax; omega)
      obtain ⟨v, hv⟩ : ∃ v, resize b.buffer (b.writeIndex + len) = some v :=
        ⟨_, resize_eq_some.2 ⟨hmax, rfl⟩⟩
      obtain ⟨hok, hroom', hreadable⟩ := ensures_grow h (by omega) hmax hv
      exact ⟨_, by rw [hadd, hv]; rfl, hok, hroom', hreadable⟩
    · next hlen =>
      obtain ⟨hok, hroom', hreadable⟩ := ensures_move h hsum
      have := hok.write_le
      exact ⟨_, rfl, hok, by omega, hreadable⟩

/-- **An unsafe call does not:** the test wraps, or the vector cannot grow to
the size the sum names, or the sum itself has wrapped and the vector shrinks. -/
theorem spaceSafe_of_ensures {b : Buffer} (h : b.Ok) {len : ℕ} (he : b.Ensures len) :
    b.SpaceSafe len := by
  obtain ⟨hwrap, b', hb', hok, hroom, -⟩ := he
  have hw := h.writableBytes_eq
  have hread := h.read_le
  have hwrite := h.write_le
  have hlt := h.lt
  by_cases hlen : len ≤ b.writableBytes
  · exact Or.inl (by omega)
  have hsum : prepends ≤ b.size - b.writeIndex + b.readIndex := by
    have := (hwrap (by omega)).2
    rwa [hw] at this
  refine Or.inr ⟨hsum, fun hgrow => ?_⟩
  have hdiff : subSize (addSize b.writableBytes b.prependableBytes) prepends =
      b.size - b.writeIndex + b.readIndex - prepends := by
    rw [h.sum_eq, subSize_of_le hsum (by omega)]
  unfold ensureSpace at hb'
  rw [if_neg hlen, hdiff, if_pos hgrow] at hb'
  obtain ⟨v, hv, rfl⟩ := Option.map_eq_some_iff.1 hb'
  -- the new size is the sum modulo `2 ^ 64`, and it has to hold `writeIndex + len`
  have hsize := length_resize hv
  have hmax := hok.size_le
  simp only [size] at hroom hmax
  omega

/-- `ensureSpace` does what it is for in exactly the states that are safe for
the length. -/
theorem ensures_iff_spaceSafe {b : Buffer} (h : b.Ok) (len : ℕ) :
    b.Ensures len ↔ b.SpaceSafe len :=
  ⟨spaceSafe_of_ensures h, ensures_of_spaceSafe h⟩

/-- What is safe for many bytes is safe for fewer. -/
theorem SpaceSafe.mono {b : Buffer} {len len' : ℕ} (h : b.SpaceSafe len) (hle : len' ≤ len) :
    b.SpaceSafe len' := by
  unfold SpaceSafe at *
  omega

/-! ### The operations keep the indices in order -/

/-- Taking everything out keeps a buffer sound. -/
theorem ok_retrieveAll {b : Buffer} (h : b.Ok) : b.retrieveAll.Ok :=
  ⟨le_rfl, h.prepends_le, h.prepends_le, h.size_le⟩

/-- Taking bytes out keeps a buffer sound, whatever length is given. -/
theorem ok_retrieve {b : Buffer} (h : b.Ok) (len : ℕ) : (b.retrieve len).Ok := by
  unfold retrieve
  split
  · next hlen =>
    have := h.lt
    have := h.write_le
    rw [h.readableBytes_eq] at hlen
    have hadd : addSize b.readIndex len = b.readIndex + len := addSize_of_lt (by omega)
    exact ⟨by simp only [hadd]; omega, h.write_le, h.prepends_le, h.size_le⟩
  · exact ok_retrieveAll h

/-- Making stored bytes readable keeps a buffer sound, whatever length is given. -/
theorem ok_advance {b : Buffer} (h : b.Ok) (len : ℕ) : (b.advance len).Ok := by
  have := h.lt
  have := h.read_le
  have := h.write_le
  unfold advance
  split
  · next hlen =>
    rw [h.writableBytes_eq] at hlen
    have hadd : addSize b.writeIndex len = b.writeIndex + len := addSize_of_lt (by omega)
    refine ⟨by simp only [hadd]; omega, ?_, h.prepends_le, h.size_le⟩
    simp only [hadd, size] at *
    omega
  · exact ⟨h.read_le.trans h.write_le, le_rfl, h.prepends_le, h.size_le⟩

/-- The indices of a sound buffer stay sound when bytes are put in front,
whatever their number. -/
theorem ok_prepend {b : Buffer} (h : b.Ok) (data : List UInt8) : (b.prepend data).Ok := by
  refine ⟨(Nat.sub_le _ _).trans h.read_le, ?_, ?_, ?_⟩
  · simpa only [prepend, size, length_writeAt] using h.write_le
  · simpa only [prepend, size, length_writeAt] using h.prepends_le
  · simpa only [prepend, size, length_writeAt] using h.size_le

/-- Making room keeps a buffer sound, where that is safe. -/
theorem ok_ensureSpace {b b' : Buffer} (h : b.Ok) {len : ℕ} (hs : b.SpaceSafe len)
    (hb' : b.ensureSpace len = some b') : b'.Ok := by
  obtain ⟨-, b₁, h₁, hok, -⟩ := ensures_of_spaceSafe h hs
  exact Option.some.inj (h₁.symm.trans hb') ▸ hok

/-- A safe append succeeds, keeps the indices in order and adds the data at the
end of the readable bytes. -/
theorem append_spec {b : Buffer} (h : b.Ok) (data : List UInt8) (hs : b.SpaceSafe data.length) :
    ∃ b', b.append data = some b' ∧ b'.Ok ∧ b'.readable = b.readable ++ data := by
  obtain ⟨-, b₁, h₁, hok, hroom, hread⟩ := ensures_of_spaceSafe h hs
  have := hok.lt
  have hadd : addSize b₁.writeIndex data.length = b₁.writeIndex + data.length :=
    addSize_of_lt (by omega)
  refine ⟨_, by unfold append; rw [h₁]; rfl, ⟨?_, ?_, ?_, ?_⟩, ?_⟩
  · simp only [hadd]
    have := hok.read_le
    omega
  · simpa only [hadd, size, length_writeAt] using hroom
  · simpa only [size, length_writeAt] using hok.prepends_le
  · simpa only [size, length_writeAt] using hok.size_le
  · simp only [readable, hadd]
    rw [slice_writeAt_end (by simpa only [size] using hroom) hok.read_le]
    exact congrArg (· ++ data) hread

/-- Appending keeps a buffer sound, where making room is safe. -/
theorem ok_append {b b' : Buffer} (h : b.Ok) {data : List UInt8}
    (hs : b.SpaceSafe data.length) (hb' : b.append data = some b') : b'.Ok := by
  obtain ⟨b₁, h₁, hok, -⟩ := append_spec h data hs
  exact Option.some.inj (h₁.symm.trans hb') ▸ hok

/-- `shrinkToFit` keeps the readable bytes, in a buffer that is new. -/
theorem shrinkToFit_spec {b : Buffer} (h : b.Ok)
    (hs : prepends + (b.writeIndex - b.readIndex) ≤ maxSize) :
    ∃ b', b.shrinkToFit = some b' ∧ b'.Ok ∧ b'.readable = b.readable := by
  obtain ⟨f, hf⟩ := exists_new (n := initialSize) (by decide)
  obtain ⟨hfok, hfsize, hfread, hfwrite⟩ := ok_new (by decide) hf
  have hfree : f.SpaceSafe b.readableBytes := by
    refine Or.inr ⟨by omega, fun _ => ?_⟩
    rw [h.readableBytes_eq, hfwrite]
    exact hs
  obtain ⟨-, f₁, hf₁, hf₁ok, hroom, hf₁read⟩ := ensures_of_spaceSafe hfok hfree
  have hlen : (b.peek b.readableBytes).length = b.readableBytes := by
    rw [h.peek_eq, h.length_readable, h.readableBytes_eq]
  obtain ⟨b', hb', hok, hread⟩ := append_spec hf₁ok (b.peek b.readableBytes)
    (Or.inl (by rw [hlen]; omega))
  refine ⟨b', ?_, hok, ?_⟩
  · unfold shrinkToFit
    rw [hf, Option.bind_eq_bind, Option.bind_some, hf₁, Option.bind_some, hb', Option.bind_some,
      Option.pure_def, swap]
  · rw [hread, hf₁read, h.peek_eq, readable, hfread, hfwrite, slice_self, List.nil_append]

/-- **Every safe operation keeps the indices in order.** -/
theorem ok_apply {b b' : Buffer} (h : b.Ok) {o : Op} (ho : b.OpSafe o)
    (hb' : b.apply o = some b') : b'.Ok := by
  cases o with
  | append data => exact ok_append h ho hb'
  | appendInt64 n => exact ok_append h (by simpa [OpSafe] using ho) hb'
  | appendInt32 n => exact ok_append h (by simpa [OpSafe] using ho) hb'
  | appendInt16 n => exact ok_append h (by simpa [OpSafe] using ho) hb'
  | appendInt8 n => exact ok_append h (by simpa [OpSafe] using ho) hb'
  | ensureSpace len => exact ok_ensureSpace h ho hb'
  | shrinkToFit =>
    obtain ⟨b₁, h₁, hok, -⟩ := shrinkToFit_spec h ho
    exact Option.some.inj (h₁.symm.trans hb') ▸ hok
  | prepend data => exact Option.some.inj hb' ▸ ok_prepend h _
  | prependInt64 n => exact Option.some.inj hb' ▸ ok_prepend h _
  | prependInt32 n => exact Option.some.inj hb' ▸ ok_prepend h _
  | prependInt16 n => exact Option.some.inj hb' ▸ ok_prepend h _
  | prependInt8 n => exact Option.some.inj hb' ▸ ok_prepend h _
  | retrieve len => exact Option.some.inj hb' ▸ ok_retrieve h _
  | retrieveUntil e => exact Option.some.inj hb' ▸ ok_retrieve h _
  | retrieveAll => exact Option.some.inj hb' ▸ ok_retrieveAll h
  | advance len => exact Option.some.inj hb' ▸ ok_advance h _
  | readBytes len => exact Option.some.inj hb' ▸ ok_retrieve h _
  | readAsString len =>
    obtain rfl := Option.some.inj hb'
    unfold readAsString
    split
    · exact ok_retrieveAll h
    · exact ok_retrieve h _
  | readAllAsString => exact Option.some.inj hb' ▸ ok_retrieveAll h

/-- The buffers that safe operations reach have their indices in order. -/
theorem ok_of_reached {b : Buffer}
    (h : Reached (fun n => prepends + n < 2 ^ 64) OpSafe b) : b.Ok := by
  induction h with
  | new hn h => exact (ok_new hn h).1
  | op _ ho h ih => exact ok_apply ih ho h
  | swap_fst _ _ _ ihb => exact ihb
  | swap_snd _ _ iha _ => exact iha

/-- **The representation invariant, and exactly when it holds.**  A buffer
constructed with a size that does not wrap and used by safe operations has
`readIndex ≤ writeIndex ≤ buffer.size()` in every state, and in each of these
states, whatever `len`, `ensureSpace(len)` ends with `len` writable bytes, the
readable bytes unchanged and no wrapped arithmetic if and only if the call is
safe. -/
theorem buffer_space {b : Buffer} (h : Reached (fun n => prepends + n < 2 ^ 64) OpSafe b) :
    (b.readIndex ≤ b.writeIndex ∧ b.writeIndex ≤ b.size) ∧
      ∀ len, b.Ensures len ↔ b.SpaceSafe len :=
  have hok := ok_of_reached h
  ⟨⟨hok.read_le, hok.write_le⟩, ensures_iff_spaceSafe hok⟩

/-- The hypothesis is satisfiable: a default buffer that holds one byte. -/
theorem buffer_space_append :
    ∃ b : Buffer, b.readable = [7] ∧ (b.readIndex ≤ b.writeIndex ∧ b.writeIndex ≤ b.size) ∧
      ∀ len, b.Ensures len ↔ b.SpaceSafe len := by
  obtain ⟨f, hf⟩ := exists_new (n := initialSize) (by decide)
  obtain ⟨hfok, hfsize, hfread, hfwrite⟩ := ok_new (by decide) hf
  have hs : f.OpSafe (.append [7]) := Or.inl (by rw [hfsize, hfwrite]; decide)
  obtain ⟨b, hb, -, hread⟩ := append_spec hfok [7] hs
  refine ⟨b, ?_, buffer_space (.op (.new (by decide) hf) hs hb)⟩
  rw [hread, readable, hfread, hfwrite, slice_self, List.nil_append]

/-! ### What a wrapped test does -/

/-- An append that finds room stores the data and moves the write index. -/
theorem append_of_room {b : Buffer} (h : b.Ok) {data : List UInt8}
    (hd : b.writeIndex + data.length ≤ b.size) :
    b.append data = some
      { b with
        buffer := writeAt b.buffer b.writeIndex data
        writeIndex := b.writeIndex + data.length } := by
  have := h.lt
  have hroom : data.length ≤ b.writableBytes := by rw [h.writableBytes_eq]; omega
  unfold append ensureSpace
  rw [if_pos hroom, Option.map_some, addSize_of_lt (by omega)]

/-- **The wrapped test.**  Where the free bytes on both sides are fewer than
`prepends`, every append that does not fit ends with the write index past the
end of the vector. -/
theorem append_of_wrap {b : Buffer} (h : b.Ok)
    (hsum : b.size - b.writeIndex + b.readIndex < prepends) (data : List UInt8)
    (hd : b.size - b.writeIndex < data.length)
    (hlen : prepends + b.size + data.length < 2 ^ 64) :
    ∃ b', b.append data = some b' ∧ b'.size < b'.writeIndex := by
  have hlt := h.lt
  have hread := h.read_le
  have hwrite := h.write_le
  have hdiff : subSize (addSize b.writableBytes b.prependableBytes) prepends =
      2 ^ 64 - (prepends - (b.size - b.writeIndex + b.readIndex)) := by
    rw [h.sum_eq, subSize_of_lt hsum (by norm_num [prepends])]
  have hadd : addSize (addSize prepends b.readableBytes) data.length =
      prepends + (b.writeIndex - b.readIndex) + data.length := by
    rw [h.readableBytes_eq, addSize_of_lt (a := prepends) (by omega), addSize_of_lt (by omega)]
  unfold append ensureSpace
  rw [if_neg (by rw [h.writableBytes_eq]; omega), hdiff, if_neg (by unfold prepends at *; omega)]
  refine ⟨_, rfl, ?_⟩
  simp only [size, length_writeAt, hadd] at *
  omega

/-- **A wrapped append.**  A default buffer filled to the last byte, four bytes
prepended, one more appended: `0 + 4 - 8` wraps, and the write index ends past
the end of the vector. -/
theorem wrapped_append :
    ¬ ∀ b, Reached (fun _ => True) (fun _ _ => True) b →
      b.readIndex ≤ b.writeIndex ∧ b.writeIndex ≤ b.size := by
  intro hall
  obtain ⟨f, hf⟩ := exists_new (n := initialSize) (by decide)
  obtain ⟨hfok, hfsize, hfread, hfwrite⟩ := ok_new (by decide) hf
  have hfull : f.writeIndex + (List.replicate initialSize (0 : UInt8)).length ≤ f.size := by
    rw [hfsize, hfwrite, List.length_replicate]
  have happ := append_of_room hfok hfull
  have hok := ok_append hfok (Or.inl (by omega)) happ
  rw [List.length_replicate, hfwrite] at happ hok
  -- the vector is full, and `readIndex` goes to four
  set full : Buffer := { f with
    buffer := writeAt f.buffer prepends (List.replicate initialSize 0)
    writeIndex := prepends + initialSize } with hfulldef
  have hsize : full.size = prepends + initialSize := by
    rw [hfulldef, size, length_writeAt, ← hfsize, size]
  have hpsize : (full.prepend [1, 2, 3, 4]).size = prepends + initialSize := by
    rw [← hsize, size, prepend, length_writeAt, size]
  have hpread : (full.prepend [1, 2, 3, 4]).readIndex = 4 := by
    rw [prepend, prependableBytes, hfulldef]
    simp only [hfread]
    decide
  have hpwrite : (full.prepend [1, 2, 3, 4]).writeIndex = prepends + initialSize := rfl
  obtain ⟨b, hb, hpast⟩ := append_of_wrap (ok_prepend hok [1, 2, 3, 4])
    (by rw [hpsize, hpread, hpwrite]; decide) [5] (by rw [hpsize, hpwrite]; decide)
    (by rw [hpsize]; decide)
  have hreached : Reached (fun _ => True) (fun _ _ => True) b :=
    .op (o := .append [5])
      (.op (o := .prepend [1, 2, 3, 4])
        (.op (o := .append (List.replicate initialSize 0)) (.new trivial hf) trivial happ)
        trivial rfl)
      trivial hb
  exact absurd (hall b hreached).2 (by omega)

end Buffer
end Net
end Sevent
