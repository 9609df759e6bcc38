/-
# Bytes leave a buffer in the order in which they came

A `Stream` is a buffer that is read from a descriptor, appended to and
consumed, together with all the bytes that were put in and all that were taken
out.  `Fifo` is what the buffer is for on its input side: the bytes taken out,
followed by the readable ones, are the bytes put in.

A delivery of `readv` can end in the vector, or in the vector and the 64 KB on
the stack, and what is on the stack is appended by a step that grows the vector
or moves the bytes in it (`Input.readFd`).  None of this loses a byte.  One call
can: `ensureSpace(len)` resizes the vector to `writeIndex + len`, a `size_t`
sum, and where the sum wraps the vector shrinks (`ensureSpace_of_wrap`).
`fifo_iff` shows that a run keeps `Fifo` exactly as long as no call does so.
-/

import Sevent.Net.BufferSpace

namespace Sevent
namespace Net
namespace Buffer

open Bytes Transition

/-- A buffer, the bytes put in and the bytes taken out so far. -/
structure Stream where
  buf : Buffer
  put : List UInt8
  taken : List UInt8
  deriving DecidableEq

/-- The operations of the input side. -/
inductive Io
  | readFd (data : List UInt8)
  | append (data : List UInt8)
  | ensureSpace (len : ℕ)
  | shrinkToFit
  | retrieve (len : ℕ)
  | readBytes (len : ℕ)
  | readAsString (len : ℕ)
  | readAllAsString
  | retrieveAll
  deriving DecidableEq

/-- One operation; what `retrieve` and `retrieveAll` pass over counts as taken
out.  `readv` returns at most what was offered, an array in memory is no longer
than `maxSize`, and `len` is a `size_t`.  A run ends where a call throws. -/
def stream (s : Stream) : Io → Option Stream
  | .readFd data =>
    if data.length ≤ s.buf.offered then
      (s.buf.readFd data).map fun b => { s with buf := b, put := s.put ++ data }
    else none
  | .append data =>
    if data.length ≤ maxSize then
      (s.buf.append data).map fun b => { s with buf := b, put := s.put ++ data }
    else none
  | .ensureSpace len =>
    if len < 2 ^ 64 then (s.buf.ensureSpace len).map fun b => { s with buf := b } else none
  | .shrinkToFit => s.buf.shrinkToFit.map fun b => { s with buf := b }
  | .retrieve len =>
    some { s with buf := s.buf.retrieve len, taken := s.taken ++ s.buf.readable.take len }
  | .readBytes len =>
    let r := s.buf.readBytes len
    some { s with buf := r.2, taken := s.taken ++ r.1 }
  | .readAsString len =>
    let r := s.buf.readAsString len
    some { s with buf := r.2, taken := s.taken ++ r.1 }
  | .readAllAsString =>
    let r := s.buf.readAllAsString
    some { s with buf := r.2, taken := s.taken ++ r.1 }
  | .retrieveAll =>
    some { s with buf := s.buf.retrieveAll, taken := s.taken ++ s.buf.readable }

/-- The readable bytes are in the vector, and nothing is lost, duplicated or
reordered. -/
structure Fifo (s : Stream) : Prop where
  inside : s.buf.writeIndex ≤ s.buf.size
  order : s.taken ++ s.buf.readable = s.put

/-- The call `ensureSpace(len)` of `b` resizes the vector, and the `size_t` sum
`writeIndex + len` wraps. -/
def Wraps (b : Buffer) (len : ℕ) : Prop :=
  b.writableBytes < len ∧ subSize (addSize b.writableBytes b.prependableBytes) prepends < len ∧
    2 ^ 64 ≤ b.writeIndex + len

instance (b : Buffer) (len : ℕ) : Decidable (b.Wraps len) := by
  unfold Wraps; infer_instance

/-- The condition: no direct call of `ensureSpace` wraps. -/
def Bounded (s : Stream) : Io → Prop
  | .ensureSpace len => len < 2 ^ 64 → ¬ s.buf.Wraps len
  | _ => True

/-- The indices are in order, and nothing is ever put in front of the data. -/
structure Input (b : Buffer) : Prop extends Ok b where
  prepends_le_read : prepends ≤ b.readIndex

variable {b b' : Buffer}

/-! ### Growing -/

/-- An `ensureSpace` that returns and does not wrap is safe where the bytes in
front of the data and behind it are at least `prepends`. -/
theorem Ok.spaceSafe (h : b.Ok) (hsum : prepends ≤ b.size - b.writeIndex + b.readIndex) {len : ℕ}
    (hw : ¬ b.Wraps len) (hb : b.ensureSpace len = some b') : b.SpaceSafe len := by
  have hlt := h.lt
  have hwrite := h.write_le
  have hread := h.read_le
  have hwritable := h.writableBytes_eq
  have hdiff : subSize (addSize b.writableBytes b.prependableBytes) prepends =
      b.size - b.writeIndex + b.readIndex - prepends := by
    rw [h.sum_eq, subSize_of_le hsum (by omega)]
  by_cases hroom : len ≤ b.writableBytes
  · exact Or.inl (by omega)
  · refine Or.inr ⟨hsum, fun hgrow => ?_⟩
    have hadd : b.writeIndex + len < 2 ^ 64 := by
      by_contra hge
      exact hw ⟨by omega, by omega, by omega⟩
    unfold ensureSpace at hb
    rw [if_neg hroom, hdiff, if_pos hgrow, addSize_of_lt hadd] at hb
    obtain ⟨v, hv, -⟩ := Option.map_eq_some_iff.1 hb
    exact (resize_eq_some.1 hv).1

/-- So is the `ensureSpace` of an append of what fits into memory. -/
theorem Ok.append_of_sum (h : b.Ok) (hsum : prepends ≤ b.size - b.writeIndex + b.readIndex)
    {data : List UInt8} (hlen : data.length ≤ maxSize) (hb : b.append data = some b') :
    b'.Ok ∧ b'.readable = b.readable ++ data := by
  have hlt := h.lt
  have hwrite := h.write_le
  have hw : ¬ b.Wraps data.length := fun hw => by
    have := hw.2.2
    unfold maxSize at hlen
    omega
  have hens := hb
  unfold Buffer.append at hens
  obtain ⟨b₁, h₁, -⟩ := Option.map_eq_some_iff.1 hens
  obtain ⟨b₂, h₂, hok, hread⟩ := append_spec h data (h.spaceSafe hsum hw h₁)
  obtain rfl := Option.some.inj (h₂.symm.trans hb)
  exact ⟨hok, hread⟩

/-- `ensureSpace` leaves the read index or sets it to `prepends`. -/
theorem ensureSpace_readIndex {len : ℕ} (hb : b.ensureSpace len = some b') :
    b'.readIndex = b.readIndex ∨ b'.readIndex = prepends := by
  unfold ensureSpace at hb
  split_ifs at hb
  · exact Or.inl (Option.some.inj hb ▸ rfl)
  · obtain ⟨v, -, rfl⟩ := Option.map_eq_some_iff.1 hb
    exact Or.inl rfl
  · exact Or.inr (Option.some.inj hb ▸ rfl)

/-- A buffer whose indices are sound is an input buffer again when it reads from
where it did, or from the start. -/
theorem Input.of_readIndex (h : b.Input) (hok : b'.Ok)
    (hread : b'.readIndex = b.readIndex ∨ b'.readIndex = prepends) : b'.Input := by
  refine ⟨hok, ?_⟩
  rcases hread with hread | hread
  · exact hread ▸ h.prepends_le_read
  · exact hread.ge

/-- `append` leaves the read index or sets it to `prepends`. -/
theorem append_readIndex {data : List UInt8} (hb : b.append data = some b') :
    b'.readIndex = b.readIndex ∨ b'.readIndex = prepends := by
  unfold Buffer.append at hb
  obtain ⟨b₁, h₁, rfl⟩ := Option.map_eq_some_iff.1 hb
  have hindex : b₁.readIndex = b.readIndex ∨ b₁.readIndex = prepends := ensureSpace_readIndex h₁
  exact hindex

/-- The room at both ends together is at least what was kept in front. -/
theorem Input.sum (h : b.Input) : prepends ≤ b.size - b.writeIndex + b.readIndex :=
  h.prepends_le_read.trans (Nat.le_add_left _ _)

/-- **A growth that does not wrap keeps the readable bytes.** -/
theorem Input.ensureSpace (h : b.Input) {len : ℕ} (hw : ¬ b.Wraps len)
    (hb : b.ensureSpace len = some b') : b'.Input ∧ b'.readable = b.readable := by
  obtain ⟨-, b₁, h₁, hok, -, hread⟩ := ensures_of_spaceSafe h.toOk (h.toOk.spaceSafe h.sum hw hb)
  obtain rfl := Option.some.inj (h₁.symm.trans hb)
  exact ⟨h.of_readIndex hok (ensureSpace_readIndex hb), hread⟩

/-- **An append of what fits into memory puts the data behind the readable
bytes.** -/
theorem Input.append (h : b.Input) {data : List UInt8} (hlen : data.length ≤ maxSize)
    (hb : b.append data = some b') : b'.Input ∧ b'.readable = b.readable ++ data := by
  obtain ⟨hok, hread⟩ := h.toOk.append_of_sum h.sum hlen hb
  exact ⟨h.of_readIndex hok (append_readIndex hb), hread⟩

/-- `readv` stores into the free part of the vector. -/
theorem Input.fill (h : b.Input) {data : List UInt8}
    (hlen : b.writeIndex + data.length ≤ b.size) :
    let b' : Buffer := { b with
      buffer := writeAt b.buffer b.writeIndex data
      writeIndex := b.writeIndex + data.length }
    b'.Input ∧ b'.readable = b.readable ++ data := by
  have hread := h.read_le
  refine ⟨⟨⟨by simp only; omega, ?_, ?_, ?_⟩, h.prepends_le_read⟩, ?_⟩
  · simpa only [size, length_writeAt] using hlen
  · simpa only [size, length_writeAt] using h.prepends_le
  · simpa only [size, length_writeAt] using h.size_le
  · exact slice_writeAt_end hlen hread

/-- **A read from the descriptor puts what `readv` delivered behind the readable
bytes**, wherever it went. -/
theorem Input.readFd (h : b.Input) {data : List UInt8} (hlen : data.length ≤ b.offered)
    (hb : b.readFd data = some b') : b'.Input ∧ b'.readable = b.readable ++ data := by
  have hlt := h.toOk.lt
  have hwrite := h.write_le
  have hwritable := h.toOk.writableBytes_eq
  unfold Buffer.readFd at hb
  dsimp only at hb
  split_ifs at hb with hnil hfit
  · obtain rfl := Option.some.inj hb
    rw [List.length_eq_zero_iff.1 hnil, List.append_nil]
    exact ⟨h, rfl⟩
  · obtain rfl := Option.some.inj hb
    rw [List.take_of_length_le hfit, addSize_of_lt (by omega)]
    exact h.fill (by omega)
  · -- the vector is full, and the rest comes from the stack
    have htake : (data.take b.writableBytes).length = b.size - b.writeIndex := by
      rw [List.length_take, hwritable]
      omega
    have hroom : b.writeIndex + (data.take b.writableBytes).length ≤ b.size := by omega
    obtain ⟨hfull, hread⟩ := h.fill hroom
    have hsize : b.writeIndex + (data.take b.writableBytes).length = b.size := by omega
    rw [hsize] at hfull hread
    have hspill : (data.drop b.writableBytes).length ≤ maxSize := by
      have hextra : data.length ≤ b.writableBytes + extrabufSize := by
        unfold offered at hlen
        split_ifs at hlen <;> omega
      rw [List.length_drop]
      unfold extrabufSize at hextra
      unfold maxSize
      omega
    have hlast : ({ b with buffer := writeAt b.buffer b.writeIndex (data.take b.writableBytes) } :
        Buffer).size = b.size := length_writeAt ..
    rw [hlast] at hb
    obtain ⟨hin, hall⟩ := hfull.append hspill hb
    refine ⟨hin, ?_⟩
    rw [hall, hread, List.append_assoc, List.take_append_drop]

/-- A new buffer is an input buffer, and holds nothing. -/
theorem Input.new {n : ℕ} (hn : prepends + n < 2 ^ 64) (hb : new n = some b) :
    b.Input ∧ b.readable = [] := by
  obtain ⟨hok, -, hread, hwrite⟩ := ok_new hn hb
  exact ⟨⟨hok, hread.ge⟩, by rw [readable, hread, hwrite, slice_self]⟩

/-- `shrinkToFit` fits, for the bytes come from a vector. -/
theorem Input.shrinkToFit (h : b.Input) (hb : b.shrinkToFit = some b') :
    b'.Input ∧ b'.readable = b.readable := by
  have hpre := h.prepends_le_read
  have hwrite := h.write_le
  have hsize := h.size_le
  have hread := h.read_le
  obtain ⟨b₁, h₁, hok, hreadable⟩ := shrinkToFit_spec h.toOk (by omega)
  obtain rfl := Option.some.inj (h₁.symm.trans hb)
  refine ⟨⟨hok, ?_⟩, hreadable⟩
  -- the new buffer was built and appended to
  unfold Buffer.shrinkToFit at hb
  simp only [Option.bind_eq_bind, Option.bind_eq_some_iff, Option.pure_def, swap,
    Option.some.injEq] at hb
  obtain ⟨f, hf, g, hg, d, hd, rfl⟩ := hb
  have hfread : f.readIndex = prepends := (ok_new (by decide) hf).2.2.1
  have hgread : g.readIndex = prepends := by
    rcases ensureSpace_readIndex hg with hg' | hg'
    · rw [hg', hfread]
    · exact hg'
  rcases append_readIndex hd with hd' | hd'
  · rw [hd', hgread]
  · exact hd'.ge

/-! ### Consuming -/

/-- The readable bytes as a stretch that starts at `peek()`. -/
theorem Ok.peek_eq_take (h : b.Ok) (len : ℕ) (hlen : len ≤ b.readableBytes) :
    b.peek len = b.readable.take len := by
  rw [h.readableBytes_eq] at hlen
  have hread := h.read_le
  have hsum : b.readIndex + len ≤ b.writeIndex := by omega
  rw [peek, readable, slice, slice, List.take_drop, List.take_take, min_eq_left hsum]

/-- **`retrieve` passes over the first `len` readable bytes**, all of them when
there are fewer. -/
theorem readable_retrieve (h : b.Ok) (len : ℕ) :
    (b.retrieve len).readable = b.readable.drop len := by
  have hlen := h.length_readable
  have hlt := h.lt
  have hwrite := h.write_le
  unfold retrieve
  split_ifs with hshort
  · rw [h.readableBytes_eq] at hshort
    rw [readable, readable, addSize_of_lt (by omega), slice, slice, List.drop_drop]
  · rw [h.readableBytes_eq] at hshort
    rw [List.drop_eq_nil_of_le (by omega), readable, retrieveAll, slice_self]

/-- Nothing is readable after `retrieveAll`. -/
theorem readable_retrieveAll (b : Buffer) : b.retrieveAll.readable = [] := slice_self ..

/-- `retrieveAll` keeps an input buffer. -/
theorem Input.retrieveAll (h : b.Input) : b.retrieveAll.Input :=
  ⟨ok_retrieveAll h.toOk, le_rfl⟩

/-- `retrieve` keeps an input buffer, whatever the length. -/
theorem Input.retrieve (h : b.Input) (len : ℕ) : (b.retrieve len).Input := by
  refine ⟨ok_retrieve h.toOk len, ?_⟩
  have hlt := h.toOk.lt
  have hwrite := h.write_le
  unfold Buffer.retrieve
  split_ifs with hshort
  · rw [h.toOk.readableBytes_eq] at hshort
    simp only
    rw [addSize_of_lt (by omega)]
    exact h.prepends_le_read.trans (Nat.le_add_right _ _)
  · exact le_rfl

/-- `readBytes` copies out what it passes over. -/
theorem readBytes_spec (h : b.Ok) (len : ℕ) :
    (b.readBytes len).1 ++ (b.readBytes len).2.readable = b.readable ∧
      ∃ n, (b.readBytes len).2 = b.retrieve n := by
  refine ⟨?_, _, rfl⟩
  unfold readBytes
  dsimp only
  split_ifs with hlong
  · rw [h.peek_eq_take _ le_rfl, readable_retrieve h, List.take_append_drop]
  · rw [h.peek_eq_take _ (by omega), readable_retrieve h, List.take_append_drop]

/-- `readAllAsString` gives all that was readable. -/
theorem readAllAsString_spec (h : b.Ok) :
    b.readAllAsString.1 ++ b.readAllAsString.2.readable = b.readable := by
  unfold readAllAsString
  rw [h.peek_eq, readable_retrieveAll, List.append_nil]

/-- `readAsString` gives the front of what was readable, and the rest stays. -/
theorem readAsString_spec (h : b.Ok) (len : ℕ) :
    (b.readAsString len).1 ++ (b.readAsString len).2.readable = b.readable := by
  unfold readAsString
  split_ifs with hlong
  · exact readAllAsString_spec h
  · rw [h.peek_eq_take _ (by omega), readable_retrieve h, List.take_append_drop]

/-! ### Runs -/

/-- What a run keeps. -/
structure FifoInv (s : Stream) : Prop where
  input : s.buf.Input
  order : s.taken ++ s.buf.readable = s.put

variable {s s' : Stream}

/-- The invariant gives the order of the bytes, and that the indices lie inside
the vector. -/
theorem FifoInv.fifo (h : FifoInv s) : Fifo s := ⟨h.input.write_le, h.order⟩

/-- Bytes are put in. -/
theorem FifoInv.put (h : FifoInv s) {data : List UInt8} (hin : b.Input)
    (hread : b.readable = s.buf.readable ++ data) :
    FifoInv { s with buf := b, put := s.put ++ data } := by
  refine ⟨hin, ?_⟩
  dsimp only
  rw [hread, ← List.append_assoc, h.order]

/-- Bytes are taken out. -/
theorem FifoInv.take (h : FifoInv s) {data : List UInt8} (hin : b.Input)
    (hread : data ++ b.readable = s.buf.readable) :
    FifoInv { s with buf := b, taken := s.taken ++ data } := by
  refine ⟨hin, ?_⟩
  dsimp only
  rw [List.append_assoc, hread, h.order]

/-- The bytes are moved. -/
theorem FifoInv.move (h : FifoInv s) (hin : b.Input) (hread : b.readable = s.buf.readable) :
    FifoInv { s with buf := b } := by
  refine ⟨hin, ?_⟩
  dsimp only
  rw [hread, h.order]

/-- Every bounded operation keeps the order. -/
theorem fifoInv_step (s : Stream) (o : Io) (s' : Stream) (h : FifoInv s) (hgood : Bounded s o)
    (hstep : stream s o = some s') : FifoInv s' := by
  have hok := h.input.toOk
  cases o with
  | readFd data =>
    simp only [stream] at hstep
    split_ifs at hstep with hlen
    obtain ⟨b, hb, rfl⟩ := Option.map_eq_some_iff.1 hstep
    obtain ⟨hin, hread⟩ := h.input.readFd hlen hb
    exact h.put hin hread
  | append data =>
    simp only [stream] at hstep
    split_ifs at hstep with hlen
    obtain ⟨b, hb, rfl⟩ := Option.map_eq_some_iff.1 hstep
    obtain ⟨hin, hread⟩ := h.input.append hlen hb
    exact h.put hin hread
  | ensureSpace len =>
    simp only [stream] at hstep
    split_ifs at hstep with hlen
    obtain ⟨b, hb, rfl⟩ := Option.map_eq_some_iff.1 hstep
    obtain ⟨hin, hread⟩ := h.input.ensureSpace (hgood hlen) hb
    exact h.move hin hread
  | shrinkToFit =>
    obtain ⟨b, hb, rfl⟩ := Option.map_eq_some_iff.1 hstep
    obtain ⟨hin, hread⟩ := h.input.shrinkToFit hb
    exact h.move hin hread
  | retrieve len =>
    obtain rfl := Option.some.inj hstep
    refine h.take (h.input.retrieve len) ?_
    rw [readable_retrieve hok, List.take_append_drop]
  | readBytes len =>
    obtain rfl := Option.some.inj hstep
    obtain ⟨hread, n, hn⟩ := readBytes_spec hok len
    exact h.take (hn ▸ h.input.retrieve n) hread
  | readAsString len =>
    obtain rfl := Option.some.inj hstep
    refine h.take ?_ (readAsString_spec hok len)
    unfold readAsString
    split_ifs
    · exact h.input.retrieveAll
    · exact h.input.retrieve len
  | readAllAsString =>
    obtain rfl := Option.some.inj hstep
    exact h.take h.input.retrieveAll (readAllAsString_spec hok)
  | retrieveAll =>
    obtain rfl := Option.some.inj hstep
    refine h.take h.input.retrieveAll ?_
    rw [readable_retrieveAll, List.append_nil]

/-- **A wrapped `ensureSpace` shrinks the vector**: what it keeps ends before
the write index. -/
theorem ensureSpace_of_wrap (h : b.Ok) {len : ℕ} (hlen : len < 2 ^ 64) (hw : b.Wraps len) :
    ∃ b', b.ensureSpace len = some b' ∧ b'.size < b'.writeIndex ∧ b'.writeIndex < 2 ^ 63 := by
  obtain ⟨hroom, hgrow, hsum⟩ := hw
  have hlt := h.lt
  have hwrite := h.write_le
  have hadd : addSize b.writeIndex len = b.writeIndex + len - 2 ^ 64 := by
    unfold addSize
    omega
  have hfits : b.writeIndex + len - 2 ^ 64 ≤ maxSize := by
    unfold maxSize
    omega
  unfold ensureSpace
  rw [if_neg (by omega), if_pos hgrow, hadd, resize_eq_some.2 ⟨hfits, rfl⟩]
  refine ⟨_, rfl, ?_, hwrite.trans_lt hlt⟩
  simp only [size, List.length_append, List.length_take, List.length_replicate]
  unfold size at hwrite
  omega

/-- **Bytes leave a buffer in the order in which they came.**  In every run of
reads, appends and retrievals on a fresh buffer, the readable bytes are in the
vector and the bytes taken out followed by the readable ones are the bytes put
in, in every state, if and only if no direct call of `ensureSpace` wraps. -/
theorem fifo_iff {n : ℕ} (hn : prepends + n < 2 ^ 64) (hb : new n = some b) (is : List Io) :
    Always stream Fifo { buf := b, put := [], taken := [] } is ↔
      Steps stream Bounded { buf := b, put := [], taken := [] } is := by
  obtain ⟨hin, hread⟩ := Input.new hn hb
  refine always_iff_steps fifoInv_step (fun _ h => h.fifo) ?_ ⟨hin, hread⟩
  intro s o h hgood
  cases o with
  | ensureSpace len =>
    obtain ⟨hlen, hw⟩ := Classical.not_imp.1 hgood
    obtain ⟨b', hb', hpast, -⟩ := ensureSpace_of_wrap h.input.toOk hlen (not_not.1 hw)
    refine ⟨{ s with buf := b' }, by simp only [stream, if_pos hlen, hb', Option.map_some], ?_⟩
    exact fun hfifo => absurd hfifo.inside (Nat.not_le.2 hpast)
  | _ => exact absurd trivial hgood

/-- The hypotheses are satisfiable: a read that fills the vector of three bytes
and spills two, and reads of two and of all. -/
theorem fifo_iff_spill :
    let s : Stream :=
      { buf := { buffer := List.replicate 11 0, readIndex := 8, writeIndex := 8 }
        put := [], taken := [] }
    let is : List Io := [.readFd [1, 2, 3, 4, 5], .readBytes 2, .append [6], .readAllAsString]
    (run stream s is).map (fun s => s.taken) = some [1, 2, 3, 4, 5, 6] ∧
      Always stream Fifo s is := by
  refine ⟨by decide, (fifo_iff (n := 3) (by decide) rfl _).2 ?_⟩
  exact ⟨trivial, fun _ _ => ⟨trivial, fun _ _ =>
    ⟨trivial, fun _ _ => ⟨trivial, fun _ _ => trivial⟩⟩⟩⟩

/-- **A wrapped growth.**  Three bytes are put in; `ensureSpace(2^64 - 11)`
resizes the vector to nothing, `ensureSpace(2^64 - 1)` to ten zeros, and the
bytes are gone. -/
theorem ensureSpace_wraps :
    let s : Stream :=
      { buf := { buffer := List.replicate 11 0, readIndex := 8, writeIndex := 8 }
        put := [], taken := [] }
    let is : List Io := [.append [1, 2, 3], .ensureSpace (2 ^ 64 - 11), .ensureSpace (2 ^ 64 - 1)]
    new 3 = some s.buf ∧
      (run stream s is).map (fun s => (s.put, s.taken, s.buf.readable)) =
        some ([1, 2, 3], [], [0, 0]) ∧
      ¬ Always stream Fifo s is := by
  refine ⟨by decide, by decide, fun h => ?_⟩
  have hlast := h.last (t := _) rfl
  exact absurd hlast.order (by decide)

end Buffer
end Net
end Sevent
