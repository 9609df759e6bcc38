/-
# Integers through a buffer

`sevent/net/Buffer.cpp`, `peekInt*`, `readInt*` and `appendInt*`.

Integers of 8, 16, 32 and 64 bits are appended in network byte order and read
back in the same order of widths, whatever is in front of them in the buffer
and wherever the vector grows or its bytes move: an append puts its bytes behind
the readable ones (`Input.append`), and a read takes them from the front.

That holds in every state that a buffer without `prepend` gets into, as long as
no size has wrapped on the way: neither `prepends + initSize` nor the
`writeIndex + len` of a direct call of `ensureSpace`.  After either the write
index is past the end of the vector and `writableBytes` has wrapped, so that no
append makes the vector grow any more: every integer is stored outside it.  Such
a store is undefined, and `appendInts` fails then (`not_roundTrips`).
-/

import Sevent.Net.BufferFifo
import Sevent.Net.EndianOps

namespace Sevent
namespace Net

/-- The signed integer types. -/
inductive Width
  | int8
  | int16
  | int32
  | int64
  deriving DecidableEq, Repr

def Width.sizeof : Width → ℕ
  | int8 => 1
  | int16 => 2
  | int32 => 4
  | int64 => 8

/-- A value of one of the types. -/
structure TypedInt where
  width : Width
  value : ℤ
  low : -(256 ^ width.sizeof : ℕ) ≤ 2 * value
  high : 2 * value < (256 ^ width.sizeof : ℕ)

/-- Its bytes on the wire. -/
def TypedInt.wire (t : TypedInt) : List UInt8 :=
  bigEndian t.width.sizeof (toUnsigned t.width.sizeof t.value)

namespace Buffer

open Bytes Transition

/-- `Buffer::appendInt8`, `appendInt16`, `appendInt32`, `appendInt64`. -/
def appendInt (p : Platform) (b : Buffer) (n : ℤ) : Width → Option Buffer
  | .int8 => b.append (memBytes 1 (toUnsigned 1 n))
  | .int16 => b.append (memBytes 2 (p.hostToNet16 (toUnsigned 2 n)))
  | .int32 => b.append (memBytes 4 (p.hostToNet32 (toUnsigned 4 n)))
  | .int64 => b.append (memBytes 8 (p.hostToNet64 (toUnsigned 8 n)))

/-- `Buffer::peekInt8`, `peekInt16`, `peekInt32`, `peekInt64`. -/
def peekInt (p : Platform) (b : Buffer) : Width → ℤ
  | .int8 => toSigned 1 (ofMem (b.peek 1))
  | .int16 => toSigned 2 (p.netToHost16 (ofMem (b.peek 2)))
  | .int32 => toSigned 4 (p.netToHost32 (ofMem (b.peek 4)))
  | .int64 => toSigned 8 (p.netToHost64 (ofMem (b.peek 8)))

/-- `Buffer::readInt8`, `readInt16`, `readInt32`, `readInt64`. -/
def readInt (p : Platform) (b : Buffer) (w : Width) : ℤ × Buffer :=
  (b.peekInt p w, b.retrieve w.sizeof)

/-- An append of `len` bytes stores them in the vector, if it does not throw. -/
def storesInside (b : Buffer) (len : ℕ) : Bool :=
  (b.ensureSpace len).all fun b => b.writeIndex + len ≤ b.size

/-- How appends end that do not return: `std::length_error` is thrown, or a byte
is stored past the end of the vector, which the code does not check and which is
undefined. -/
inductive Failure
  | lengthError
  | undefined
  deriving DecidableEq, Repr

/-- Integers appended one after the other. -/
def appendInts (p : Platform) : Buffer → List TypedInt → Except Failure Buffer
  | b, [] => .ok b
  | b, t :: ts =>
    if b.storesInside t.width.sizeof then
      match b.appendInt p t.value t.width with
      | none => .error .lengthError
      | some b => appendInts p b ts
    else .error .undefined

/-- Integers of given widths read one after the other: what each peek and the
read after it return, and the buffer at the end. -/
def readInts (p : Platform) : Buffer → List Width → List (ℤ × ℤ) × Buffer
  | b, [] => ([], b)
  | b, w :: ws =>
    let r := b.readInt p w
    let rest := readInts p r.2 ws
    ((b.peekInt p w, r.1) :: rest.1, rest.2)

/-- Integers that are appended are read back.  No append stores past the end of
the vector; the appends return, unless the vector would be larger than a vector
can be, and put the bytes behind what is readable.  When that has been consumed,
the peeks and the reads give the values and leave nothing. -/
def RoundTrips (p : Platform) (b : Buffer) : Prop :=
  ∀ ts : List TypedInt,
    (b.writeIndex + (ts.flatMap TypedInt.wire).length ≤ maxSize →
      ∃ b', b.appendInts p ts = .ok b') ∧
    b.appendInts p ts ≠ .error .undefined ∧
    ∀ b', b.appendInts p ts = .ok b' →
      b'.readable = b.readable ++ ts.flatMap TypedInt.wire ∧
      ∀ lens : List ℕ, lens.sum = b.readable.length →
        let r := (lens.foldl retrieve b').readInts p (ts.map TypedInt.width)
        r.1 = ts.map (fun t => (t.value, t.value)) ∧ r.2.readable = [] ∧ r.2.readableBytes = 0

/-! ### Runs without `prepend` -/

/-- What is done with a buffer: a public operation, or a read from a descriptor. -/
inductive Use
  | op (o : Op)
  | readFd (data : List UInt8)

/-- The calls without `prepend` that a program can make: an array in memory is
no longer than `maxSize`, and a length is a `size_t`. -/
def callable : Op → Bool
  | .prepend _ | .prependInt64 _ | .prependInt32 _ | .prependInt16 _ | .prependInt8 _ => false
  | .append data => data.length ≤ maxSize
  | .ensureSpace len => len < 2 ^ 64
  | _ => true

def use (b : Buffer) : Use → Option Buffer
  | .op o => if callable o then b.apply o else none
  | .readFd data => if data.length ≤ b.offered then b.readFd data else none

/-- The condition: no direct call of `ensureSpace` wraps. -/
def Unwrapped (b : Buffer) : Use → Prop
  | .op (.ensureSpace len) => len < 2 ^ 64 → ¬ b.Wraps len
  | _ => True

/-! ### One integer -/

section
variable {p : Platform} {b b' : Buffer}

theorem length_wire (t : TypedInt) : t.wire.length = t.width.sizeof := by
  rw [TypedInt.wire, bigEndian_eq, List.length_reverse, length_memBytes]

theorem sizeof_le (w : Width) : w.sizeof ≤ 8 := by
  cases w <;> decide

/-- An append of an integer is one of its bytes on the wire. -/
theorem appendInt_eq (p : Platform) (b : Buffer) (t : TypedInt) :
    b.appendInt p t.value t.width = b.append t.wire := by
  unfold TypedInt.wire appendInt
  rcases t.width with _ | _ | _ | _
  · rw [bigEndian_eq]
    rfl
  · rw [hostToNet16_eq, memBytes_htobe]
    rfl
  · rw [hostToNet32_eq, memBytes_htobe]
    rfl
  · rw [hostToNet64_eq, memBytes_htobe]
    rfl

/-- **A peek where an integer is in front** returns it. -/
theorem peekInt_eq (p : Platform) {t : TypedInt} (hpeek : b.peek t.width.sizeof = t.wire) :
    b.peekInt p t.width = t.value := by
  have hvalue := toSigned_toUnsigned t.low t.high
  have hlt := Nat.mod_eq_of_lt (toUnsigned_lt t.width.sizeof t.value)
  unfold TypedInt.wire at hpeek
  unfold peekInt
  revert hvalue hlt hpeek
  rcases t.width with _ | _ | _ | _ <;> intro hpeek hvalue hlt <;>
    simp only [Width.sizeof] at hvalue hlt hpeek ⊢
  · rw [hpeek, bigEndian_eq]
    exact (congrArg (toSigned 1) ((ofMem_memBytes 1 _).trans hlt)).trans hvalue
  · rw [hpeek, netToHost16_eq, htobe_ofMem_bigEndian, hlt, hvalue]
  · rw [hpeek, netToHost32_eq, htobe_ofMem_bigEndian, hlt, hvalue]
  · rw [hpeek, netToHost64_eq, htobe_ofMem_bigEndian, hlt, hvalue]

/-- **A read where an integer is in front** returns it and passes over it. -/
theorem readInt_spec (h : b.Input) {t : TypedInt} {rest : List UInt8}
    (hread : b.readable = t.wire ++ rest) :
    b.peekInt p t.width = t.value ∧ (b.readInt p t.width).1 = t.value ∧
      (b.readInt p t.width).2.Input ∧ (b.readInt p t.width).2.readable = rest := by
  have hlen : t.width.sizeof ≤ b.readableBytes := by
    rw [h.toOk.readableBytes_eq, ← h.toOk.length_readable, hread, List.length_append, length_wire]
    exact Nat.le_add_right _ _
  have hpeek : b.peek t.width.sizeof = t.wire := by
    rw [h.toOk.peek_eq_take _ hlen, hread, ← length_wire, List.take_left]
  have hvalue := peekInt_eq p hpeek
  refine ⟨hvalue, hvalue, h.retrieve _, ?_⟩
  rw [readInt, readable_retrieve h.toOk, hread, ← length_wire, List.drop_left]

/-! ### Lists of integers -/

theorem wire_le (t : TypedInt) : t.wire.length ≤ maxSize := by
  have := sizeof_le t.width
  rw [length_wire]
  unfold maxSize
  omega

/-- Where the indices are in order, an append stores in the vector. -/
theorem Input.storesInside (h : b.Input) (t : TypedInt) :
    b.storesInside t.width.sizeof = true := by
  unfold Buffer.storesInside
  rw [Option.all_eq_true]
  intro b₁ h₁
  have hw : ¬ b.Wraps t.width.sizeof := by
    rintro ⟨-, -, hwrap⟩
    have := sizeof_le t.width
    have hwrite := h.write_le
    have hlt := h.toOk.lt
    omega
  obtain ⟨-, b₂, h₂, -, hroom, -⟩ := ensures_of_spaceSafe h.toOk (h.toOk.spaceSafe h.sum hw h₁)
  obtain rfl := Option.some.inj (h₂.symm.trans h₁)
  exact decide_eq_true hroom

/-- The first append throws. -/
theorem Input.appendInts_none (h : b.Input) {t : TypedInt} (ts : List TypedInt)
    (hb : b.append t.wire = none) : b.appendInts p (t :: ts) = .error .lengthError := by
  rw [appendInts, if_pos (h.storesInside t), appendInt_eq, hb]

/-- The first append returns. -/
theorem Input.appendInts_some (h : b.Input) {t : TypedInt} (ts : List TypedInt)
    (hb : b.append t.wire = some b') : b.appendInts p (t :: ts) = b'.appendInts p ts := by
  rw [appendInts, if_pos (h.storesInside t), appendInt_eq, hb]

/-- **The appends** store in the vector, and put their bytes behind what is
readable. -/
theorem appendInts_spec {ts : List TypedInt} :
    ∀ {b : Buffer}, b.Input → b.appendInts p ts ≠ .error .undefined ∧
      ∀ {b' : Buffer}, b.appendInts p ts = .ok b' →
        b'.Input ∧ b'.readable = b.readable ++ ts.flatMap TypedInt.wire := by
  induction ts with
  | nil =>
    intro b h
    refine ⟨by simp [appendInts], fun hb => ?_⟩
    obtain rfl := Except.ok.inj hb
    exact ⟨h, by simp⟩
  | cons t ts ih =>
    intro b h
    rcases h₁ : b.append t.wire with _ | b₁
    · rw [h.appendInts_none ts h₁]
      exact ⟨by decide, nofun⟩
    · rw [h.appendInts_some ts h₁]
      obtain ⟨hin, hread⟩ := h.append (wire_le t) h₁
      obtain ⟨hdefined, hput⟩ := ih hin
      refine ⟨hdefined, fun hb => ?_⟩
      obtain ⟨hin', hread'⟩ := hput hb
      exact ⟨hin', by rw [hread', hread, List.append_assoc, List.flatMap_cons]⟩

/-- An append that returns moves the write index by no more than its length. -/
theorem Input.append_writeIndex (h : b.Input) {data : List UInt8}
    (hlen : b.writeIndex + data.length ≤ maxSize) :
    ∃ b', b.append data = some b' ∧ b'.writeIndex ≤ b.writeIndex + data.length := by
  have hpre := h.prepends_le_read
  have hread := h.read_le
  have hsafe : b.SpaceSafe data.length := .inr ⟨h.sum, fun _ => hlen⟩
  obtain ⟨-, b₁, h₁, hok, hroom, -⟩ := ensures_of_spaceSafe h.toOk hsafe
  have hindex : b₁.writeIndex ≤ b.writeIndex := by
    unfold Buffer.ensureSpace at h₁
    split_ifs at h₁
    · exact (congrArg writeIndex (Option.some.inj h₁)).ge
    · obtain ⟨v, -, rfl⟩ := Option.map_eq_some_iff.1 h₁
      exact le_rfl
    · obtain rfl := Option.some.inj h₁
      have hlt := h.toOk.lt
      have hwrite := h.write_le
      dsimp only
      rw [h.toOk.readableBytes_eq, addSize_of_lt (by omega)]
      omega
  have hlt := hok.lt
  refine ⟨_, by unfold Buffer.append; rw [h₁]; rfl, ?_⟩
  dsimp only
  rw [addSize_of_lt (by omega)]
  omega

/-- Appends of what a vector can hold return. -/
theorem appendInts_returns {ts : List TypedInt} :
    ∀ {b : Buffer}, b.Input → b.writeIndex + (ts.flatMap TypedInt.wire).length ≤ maxSize →
      ∃ b', b.appendInts p ts = .ok b' := by
  induction ts with
  | nil => exact fun _ _ => ⟨_, rfl⟩
  | cons t ts ih =>
    intro b h hlen
    rw [List.flatMap_cons, List.length_append] at hlen
    have hroom : b.writeIndex + t.wire.length ≤ maxSize := by omega
    obtain ⟨b₁, h₁, hindex⟩ := h.append_writeIndex hroom
    rw [h.appendInts_some ts h₁]
    exact ih (h.append (wire_le t) h₁).1 (by omega)

/-- What is consumed in any pieces is consumed. -/
theorem retrieves_spec {lens : List ℕ} :
    ∀ {b : Buffer}, b.Input → (lens.foldl retrieve b).Input ∧
      (lens.foldl retrieve b).readable = b.readable.drop lens.sum := by
  induction lens with
  | nil => exact fun h => ⟨h, by simp⟩
  | cons len lens ih =>
    intro b h
    obtain ⟨hin, hread⟩ := ih (h.retrieve len)
    refine ⟨hin, ?_⟩
    rw [List.foldl_cons, hread, readable_retrieve h.toOk, List.drop_drop, List.sum_cons]

/-- **The reads.** -/
theorem readInts_spec {ts : List TypedInt} :
    ∀ {b : Buffer}, b.Input → b.readable = ts.flatMap TypedInt.wire →
      (b.readInts p (ts.map TypedInt.width)).1 = ts.map (fun t => (t.value, t.value)) ∧
        (b.readInts p (ts.map TypedInt.width)).2.Input ∧
        (b.readInts p (ts.map TypedInt.width)).2.readable = [] := by
  induction ts with
  | nil => exact fun h hread => ⟨rfl, h, hread⟩
  | cons t ts ih =>
    intro b h hread
    rw [List.flatMap_cons] at hread
    obtain ⟨hpeek, hvalue, hin, hrest⟩ := readInt_spec (p := p) h hread
    obtain ⟨hvalues, hend⟩ := ih hin hrest
    refine ⟨?_, hend⟩
    rw [List.map_cons, readInts, List.map_cons]
    dsimp only
    rw [hpeek, hvalue, hvalues]

/-- **Integers go through a buffer whose indices are in order.** -/
theorem Input.roundTrips (h : b.Input) (p : Platform) : b.RoundTrips p := by
  refine fun ts => ⟨appendInts_returns h, (appendInts_spec h).1, fun b' hb => ?_⟩
  obtain ⟨hin, hread⟩ := (appendInts_spec h).2 hb
  refine ⟨hread, fun lens hlens => ?_⟩
  obtain ⟨hin', hread'⟩ : (lens.foldl Buffer.retrieve b').Input ∧
      (lens.foldl Buffer.retrieve b').readable = b'.readable.drop lens.sum :=
    retrieves_spec hin
  rw [hread, hlens, List.drop_left] at hread'
  obtain ⟨hvalues, hlast, hnil⟩ := readInts_spec (p := p) hin' hread'
  refine ⟨hvalues, hnil, ?_⟩
  have hlen := hlast.toOk.length_readable
  rw [hnil, List.length_nil] at hlen
  rw [hlast.toOk.readableBytes_eq, ← hlen]

/-- **Past the end of the vector every append is undefined.** -/
theorem appendInts_undefined (hpast : b.size < b.writeIndex) (hlt : b.writeIndex < 2 ^ 63)
    (p : Platform) (t : TypedInt) (ts : List TypedInt) :
    b.appendInts p (t :: ts) = .error .undefined := by
  have hsub : b.writableBytes = 2 ^ 64 - (b.writeIndex - b.size) := subSize_of_lt hpast (by omega)
  have hlen := sizeof_le t.width
  -- the wrapped difference is room enough, so the vector does not grow
  have hspace : b.ensureSpace t.width.sizeof = some b := if_pos (by omega)
  refine if_neg ?_
  unfold storesInside
  rw [hspace, Option.all_some, decide_eq_true_eq]
  omega

theorem not_roundTrips (hpast : b.size < b.writeIndex) (hlt : b.writeIndex < 2 ^ 63)
    (p : Platform) : ¬ b.RoundTrips p := fun h =>
  (h [⟨.int8, 0, by decide, by decide⟩]).2.1 (appendInts_undefined hpast hlt p _ _)

/-! ### Every state of every run -/

theorem Input.advance (h : b.Input) (len : ℕ) : (b.advance len).Input := by
  refine ⟨ok_advance h.toOk len, ?_⟩
  unfold Buffer.advance
  split_ifs
  · exact h.prepends_le_read
  · exact h.prepends_le_read

/-- Every use that does not wrap keeps the indices in order. -/
theorem Input.use (h : b.Input) {u : Use} (hgood : Unwrapped b u) (hb : b.use u = some b') :
    b'.Input := by
  rcases u with o | data
  · simp only [Buffer.use] at hb
    split_ifs at hb with hcall
    cases o with
    | prepend | prependInt64 | prependInt32 | prependInt16 | prependInt8 =>
      exact absurd hcall Bool.false_ne_true
    | append data => exact (h.append (of_decide_eq_true hcall) hb).1
    | appendInt64 n => exact (h.append (by rw [length_memBytes]; decide) hb).1
    | appendInt32 n => exact (h.append (by rw [length_memBytes]; decide) hb).1
    | appendInt16 n => exact (h.append (by rw [length_memBytes]; decide) hb).1
    | appendInt8 n => exact (h.append (by rw [length_memBytes]; decide) hb).1
    | ensureSpace len => exact (h.ensureSpace (hgood (of_decide_eq_true hcall)) hb).1
    | shrinkToFit => exact (h.shrinkToFit hb).1
    | retrieve len => exact Option.some.inj hb ▸ h.retrieve len
    | retrieveUntil e => exact Option.some.inj hb ▸ h.retrieve _
    | retrieveAll => exact Option.some.inj hb ▸ h.retrieveAll
    | advance len => exact Option.some.inj hb ▸ h.advance len
    | readBytes len => exact Option.some.inj hb ▸ h.retrieve _
    | readAsString len =>
      obtain rfl := Option.some.inj hb
      unfold readAsString
      split_ifs
      · exact h.retrieveAll
      · exact h.retrieve len
    | readAllAsString => exact Option.some.inj hb ▸ h.retrieveAll
  · simp only [Buffer.use] at hb
    split_ifs at hb with hlen
    exact (h.readFd hlen hb).1

/-- A use that wraps leaves the write index past the end of the vector. -/
theorem Input.use_of_wrap (h : b.Input) {u : Use} (hbad : ¬ Unwrapped b u) :
    ∃ b', b.use u = some b' ∧ b'.size < b'.writeIndex ∧ b'.writeIndex < 2 ^ 63 := by
  rcases u with o | data
  · cases o with
    | ensureSpace len =>
      obtain ⟨hlen, hw⟩ := Classical.not_imp.1 hbad
      obtain ⟨b', hb', hpast⟩ := ensureSpace_of_wrap h.toOk hlen (not_not.1 hw)
      have hcall : callable (.ensureSpace len) = true := decide_eq_true hlen
      refine ⟨b', ?_, hpast⟩
      rw [Buffer.use, if_pos hcall]
      exact hb'
    | _ => exact absurd trivial hbad
  · exact absurd trivial hbad

/-- **Integers go through every buffer.**  In every run without `prepend` on a
fresh buffer, integers that are appended are read back, on both platforms and
in every state, if and only if the size of the fresh buffer does not wrap and no
direct call of `ensureSpace` does. -/
theorem ints_round_trip_iff {n : ℕ} (hn : n < 2 ^ 64) (hb : new n = some b) (us : List Use) :
    Always use (fun b => ∀ p, b.RoundTrips p) b us ↔
      prepends + n < 2 ^ 64 ∧ Steps use Unwrapped b us := by
  by_cases hsize : prepends + n < 2 ^ 64
  · rw [and_iff_right hsize]
    have huse : ∀ b u b', Input b → Unwrapped b u → use b u = some b' → Input b' :=
      fun _ _ _ h hgood hstep => h.use hgood hstep
    refine always_iff_steps huse (fun _ h p => h.roundTrips p) (fun b u h hbad => ?_)
      (Input.new hsize hb).1
    obtain ⟨b', hb', hpast, hlt⟩ := h.use_of_wrap hbad
    exact ⟨b', hb', fun hall => not_roundTrips hpast hlt .linux (hall .linux)⟩
  · refine iff_of_false (fun h => ?_) fun h => hsize h.1
    -- the vector is shorter than `prepends`
    have hwrap : addSize prepends n = prepends + n - 2 ^ 64 := by
      unfold addSize prepends at *
      omega
    unfold new at hb
    obtain ⟨v, hv, rfl⟩ := Option.map_eq_some_iff.1 hb
    have hlen := length_resize hv
    refine not_roundTrips ?_ (show prepends < 2 ^ 63 by decide) .linux (h.head .linux)
    unfold prepends at *
    simp only [size]
    omega

end

/-- A byte that is read, and room that is asked for, in a vector of one byte. -/
theorem ints_round_trip_one :
    let b : Buffer := { buffer := List.replicate 9 0, readIndex := 8, writeIndex := 8 }
    new 1 = some b ∧
      Always use (fun b => ∀ p, b.RoundTrips p) b
        [.readFd [7, 6], .op (.retrieve 1), .op (.ensureSpace 3)] := by
  refine ⟨by decide, (ints_round_trip_iff (n := 1) (by decide) rfl _).2 ⟨by decide, ?_⟩⟩
  refine ⟨trivial, fun b₁ h₁ => ⟨trivial, fun b₂ h₂ => ⟨fun _ hw => ?_, fun _ _ => trivial⟩⟩⟩
  obtain rfl := Option.some.inj h₁
  obtain rfl := Option.some.inj h₂
  exact absurd hw (by decide)

/-- **A buffer that is asked for too much.**  `ensureSpace(2^64 - 1)` leaves seven
bytes and the write index at 8; none of a million integers that are appended then
makes the vector grow or is stored in it. -/
theorem ints_lost :
    let b : Buffer := { buffer := List.replicate 8 0, readIndex := 8, writeIndex := 8 }
    let b' : Buffer := { buffer := List.replicate 7 0, readIndex := 8, writeIndex := 8 }
    let five : TypedInt := ⟨.int64, 5, by decide, by decide⟩
    new 0 = some b ∧ use b (.op (.ensureSpace (2 ^ 64 - 1))) = some b' ∧
      b'.writeIndex + ((List.replicate (2 ^ 20) five).flatMap TypedInt.wire).length ≤ maxSize ∧
      b'.appendInts .linux (List.replicate (2 ^ 20) five) = .error .undefined ∧
      ¬ b'.RoundTrips .linux := by
  refine ⟨by decide, by decide, ?_, ?_, not_roundTrips (by decide) (by decide) _⟩
  · rw [List.length_flatMap, List.map_replicate, List.sum_replicate_nat, length_wire]
    decide
  · rw [List.replicate_succ]
    exact appendInts_undefined (by decide) (by decide) _ _ _

end Buffer
end Net
end Sevent
