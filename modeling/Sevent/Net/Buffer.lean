/-
# `Buffer`: a vector of bytes with a read and a write index

`sevent/net/Buffer.h`, `sevent/net/Buffer.cpp` and the Linux half of
`sevent/net/EndianOps.h`.

    +-------------+-------------------+-----------------+
    | prependable |  readable (data)  |    writable     |
    0         readIndex          writeIndex      buffer.size()

The indices are `size_t`: every sum and difference the code forms is taken
modulo `2 ^ 64` here too (`addSize`, `subSize`), so that a difference the code
lets wrap wraps in the model.  `std::copy` is `writeAt`: where the C++ program
would store past the end of the vector, which is undefined, the model drops
those bytes and still sets the indices as the code does.

`std::vector::resize` throws `std::length_error` above `max_size()`, which is
`PTRDIFF_MAX` for a vector of `char`; a call that throws is `none`, and leaves
the buffer as it was.
-/

import Sevent.Lib.Bytes
import Mathlib.Data.List.Basic

namespace Sevent
namespace Net

open Bytes

/-! ### Byte order -/

/-- The `k` bytes an unsigned integer occupies in the memory of a little-endian
host, lowest address first. -/
def memBytes (k n : ℕ) : List UInt8 := (List.range k).map fun i => UInt8.ofNat (n / 256 ^ i)

/-- The integer that bytes in the memory of a little-endian host denote. -/
def ofMem : List UInt8 → ℕ
  | [] => 0
  | b :: bs => b.toNat + 256 * ofMem bs

/-- `htobe16`, `htobe32`, `htobe64` on a little-endian host: the integer of `k`
bytes whose memory image is the reversed one. -/
def htobe (k n : ℕ) : ℕ := ofMem (memBytes k n).reverse

/-- The conversions of the platform, for each width. -/
def hostToNet64 (host64 : ℕ) : ℕ := htobe 8 host64
def hostToNet32 (host32 : ℕ) : ℕ := htobe 4 host32
def hostToNet16 (host16 : ℕ) : ℕ := htobe 2 host16

/-- The unsigned integer of `k` bytes a signed argument is converted to. -/
def toUnsigned (k : ℕ) (n : ℤ) : ℕ := (n % (256 ^ k : ℕ)).toNat

/-- An integer of `k` bytes takes `k` bytes in memory. -/
@[simp]
theorem length_memBytes (k n : ℕ) : (memBytes k n).length = k := by simp [memBytes]

/-! ### The buffer -/

/-- The fields of `Buffer`. -/
structure Buffer where
  buffer : List UInt8
  readIndex : ℕ
  writeIndex : ℕ
  deriving DecidableEq

namespace Buffer

/-- `Buffer::prepends`: the bytes reserved in front of the data. -/
def prepends : ℕ := 8

/-- `Buffer::initialSize`. -/
def initialSize : ℕ := 1024

/-- `std::vector<char>::max_size()`. -/
def maxSize : ℕ := 2 ^ 63 - 1

/-- `std::vector<char>::resize`; `none` when it throws `std::length_error`. -/
def resize (v : List UInt8) (n : ℕ) : Option (List UInt8) :=
  if maxSize < n then none else some (v.take n ++ List.replicate (n - v.length) 0)

/-- `Buffer::Buffer(size_t initSize)`: `prepends + initSize` is a `size_t`. -/
def new (initSize : ℕ) : Option Buffer :=
  (resize [] (addSize prepends initSize)).map fun v =>
    { buffer := v, readIndex := prepends, writeIndex := prepends }

/-- `buffer.size()`, and below the three lengths that the indices stand for. -/
def size (b : Buffer) : ℕ := b.buffer.length
def readableBytes (b : Buffer) : ℕ := subSize b.writeIndex b.readIndex
def writableBytes (b : Buffer) : ℕ := subSize b.size b.writeIndex
def prependableBytes (b : Buffer) : ℕ := b.readIndex

/-- The `len` bytes from `peek()` on. -/
def peek (b : Buffer) (len : ℕ) : List UInt8 := slice b.buffer b.readIndex (b.readIndex + len)

/-- The readable bytes. -/
def readable (b : Buffer) : List UInt8 := slice b.buffer b.readIndex b.writeIndex

/-- Both indices go back to where a new buffer has them. -/
def retrieveAll (b : Buffer) : Buffer :=
  { b with readIndex := prepends, writeIndex := prepends }

/-- Bytes are taken from the front; all of them when there are no more than
these. -/
def retrieve (b : Buffer) (len : ℕ) : Buffer :=
  if len < b.readableBytes then { b with readIndex := addSize b.readIndex len }
  else b.retrieveAll

/-- `retrieve(end - peek())`; `e` is the offset of `end` from `begin()`, and the
difference of two pointers becomes a `size_t`. -/
def retrieveUntil (b : Buffer) (e : ℤ) : Buffer :=
  b.retrieve ((e - b.readIndex) % 2 ^ 64).toNat

/-- Bytes that were stored in the writable part become readable; no further than
the end of the vector. -/
def advance (b : Buffer) (len : ℕ) : Buffer :=
  if len < b.writableBytes then { b with writeIndex := addSize b.writeIndex len }
  else { b with writeIndex := b.size }

/-- `a.swap(b)`: the pair after the call. -/
def swap (a b : Buffer) : Buffer × Buffer := (b, a)

/-- Grow, or move the readable bytes back to offset `prepends`.  The test
`writableBytes() + prependableBytes() - prepends < len` is one of `size_t`. -/
def ensureSpace (b : Buffer) (len : ℕ) : Option Buffer :=
  if len ≤ b.writableBytes then some b
  else if subSize (addSize b.writableBytes b.prependableBytes) prepends < len then
    (resize b.buffer (addSize b.writeIndex len)).map fun v => { b with buffer := v }
  else
    some
      { buffer := writeAt b.buffer prepends b.readable
        readIndex := prepends
        writeIndex := addSize prepends b.readableBytes }

/-- Room is made, the bytes are stored, and the write index goes over them. -/
def append (b : Buffer) (data : List UInt8) : Option Buffer :=
  (b.ensureSpace data.length).map fun b =>
    { b with
      buffer := writeAt b.buffer b.writeIndex data
      writeIndex := addSize b.writeIndex data.length }

/-- The size of `extrabuf` in `readFd`. -/
def extrabufSize : ℕ := 65536

/-- The total length of the `iovec`s that `readFd` offers: the second is left
out when the vector has at least as much room. -/
def offered (b : Buffer) : ℕ :=
  if b.writableBytes < extrabufSize then b.writableBytes + extrabufSize else b.writableBytes

/-- `Buffer::readFd` on Linux, when `readv` delivers `data`, which is empty when
it returns `0` or `-1`.  `readv` fills the vector before `extrabuf`. -/
def readFd (b : Buffer) (data : List UInt8) : Option Buffer :=
  let writeable := b.writableBytes
  if data.length = 0 then some b
  else
    let b := { b with buffer := writeAt b.buffer b.writeIndex (data.take writeable) }
    if data.length ≤ writeable then some { b with writeIndex := addSize b.writeIndex data.length }
    else { b with writeIndex := b.size }.append (data.drop writeable)

/-- At most `prependableBytes()` bytes are stored, the first of `data`. -/
def prepend (b : Buffer) (data : List UInt8) : Buffer :=
  let len := if b.prependableBytes < data.length then b.prependableBytes else data.length
  { b with
    buffer := writeAt b.buffer (b.readIndex - len) (data.take len)
    readIndex := b.readIndex - len }

/-- The integers are appended in network order, and below they are prepended so. -/
def appendInt64 (b : Buffer) (n : ℤ) : Option Buffer :=
  b.append (memBytes 8 (hostToNet64 (toUnsigned 8 n)))
def appendInt32 (b : Buffer) (n : ℤ) : Option Buffer :=
  b.append (memBytes 4 (hostToNet32 (toUnsigned 4 n)))
def appendInt16 (b : Buffer) (n : ℤ) : Option Buffer :=
  b.append (memBytes 2 (hostToNet16 (toUnsigned 2 n)))
def appendInt8 (b : Buffer) (n : ℤ) : Option Buffer :=
  b.append (memBytes 1 (toUnsigned 1 n))

def prependInt64 (b : Buffer) (n : ℤ) : Buffer :=
  b.prepend (memBytes 8 (hostToNet64 (toUnsigned 8 n)))
def prependInt32 (b : Buffer) (n : ℤ) : Buffer :=
  b.prepend (memBytes 4 (hostToNet32 (toUnsigned 4 n)))
def prependInt16 (b : Buffer) (n : ℤ) : Buffer :=
  b.prepend (memBytes 2 (hostToNet16 (toUnsigned 2 n)))
def prependInt8 (b : Buffer) (n : ℤ) : Buffer :=
  b.prepend (memBytes 1 (toUnsigned 1 n))

/-- The readable bytes are appended to a fresh buffer, which takes the place of
this one. -/
def shrinkToFit (b : Buffer) : Option Buffer := do
  let buf ← new initialSize
  let buf ← buf.ensureSpace b.readableBytes
  let buf ← buf.append (b.peek b.readableBytes)
  return (b.swap buf).1

/-- The bytes copied out and the buffer after the call. -/
def readBytes (b : Buffer) (len : ℕ) : List UInt8 × Buffer :=
  let len := if b.readableBytes < len then b.readableBytes else len
  (b.peek len, b.retrieve len)

/-- All readable bytes, taken out. -/
def readAllAsString (b : Buffer) : List UInt8 × Buffer :=
  (b.peek b.readableBytes, b.retrieveAll)

/-- At most `len` of the readable bytes, taken out. -/
def readAsString (b : Buffer) (len : ℕ) : List UInt8 × Buffer :=
  if b.readableBytes < len then b.readAllAsString else (b.peek len, b.retrieve len)

end Buffer

end Net
end Sevent
