/-
# `LogAsynAppender`: log lines through four large buffers

`sevent/base/LogAsynAppender.cpp`, `sevent/base/FixedBuffer.h`.

Any thread appends a line to `curBuffer`, under the mutex.  A buffer that has no
room for the line goes to `buffersHolder`, and `nextBuffer` or a new one takes
its place.  The writing thread runs `process`: under the mutex it moves all full
buffers and the current one into its own `buffers_bak`, leaves its two spare
buffers in their place, and then writes outside the mutex, where the others
append on.  A list longer than `buffersLimit` is cut to its first two buffers,
with a notice.

A `unique_ptr` is an `Option`, `none` where it is null.  A step is one critical
section, one test of `running`, one write.  `wait_for` ends when the environment
says so.  A line is shorter than a buffer.  `appended`, `iterations` and
`output` are not in the code: the lines in the order of the mutex, the lists
that the writing thread took with what became of them, and the calls of
`LogFile`.
-/

import Mathlib.Data.List.Basic
import Mathlib.Data.Nat.Notation
import Mathlib.Data.Int.Notation
import Mathlib.Algebra.NeZero
import Mathlib.Algebra.Order.Ring.Nat

namespace Sevent
namespace Base

/-- `FixedBuffer<SIZE>`: what lies between `buffer` and `cur`.  `append` leaves
at least one byte free. -/
structure FixedBuffer (size : ℕ) where
  content : List UInt8
  room : content.length < size
  deriving DecidableEq

namespace FixedBuffer

variable {size : ℕ}

/-- A new buffer, and what `reset` leaves. -/
def empty [NeZero size] : FixedBuffer size where
  content := []
  room := Nat.pos_of_ne_zero (NeZero.ne size)

/-- `FixedBuffer::empty`. -/
def isEmpty (b : FixedBuffer size) : Bool := b.content.isEmpty

def remain (b : FixedBuffer size) : ℕ := size - b.content.length

/-- `FixedBuffer::append`. -/
def append (b : FixedBuffer size) (buf : List UInt8) : FixedBuffer size :=
  if h : buf.length < b.remain then
    { content := b.content ++ buf
      room := by
        rw [List.length_append]
        unfold remain at h
        omega }
  else b

end FixedBuffer

namespace LogAsynAppender

def largeBufferSize : ℕ := 4000 * 1000

instance : NeZero largeBufferSize := ⟨by decide⟩

abbrev Buffer : Type := FixedBuffer largeBufferSize

/-- Where the writing thread is: not started, or joined; before the test of `running`; past
it; in `wait_for`; past its critical section; in the loop of the writes, with
how many are done; past the final flush. -/
inductive Place
  | idle
  | testRunning
  | lock
  | waiting
  | swapped
  | writing (written : ℕ)
  | exited
  deriving DecidableEq, Repr

/-- A call of `LogFile`. -/
inductive Output
  | write (log : List UInt8)
  | flush
  deriving DecidableEq, Repr

/-- The notice about dropped buffers, as `snprintf` puts it into 256 bytes. -/
def notice (timestamp : List UInt8) (dropped : ℕ) : List UInt8 :=
  ("Dropped log messages at ".toUTF8.toList ++ timestamp ++ ", ".toUTF8.toList ++
    (toString dropped).toUTF8.toList ++ " larger buffers\n".toUTF8.toList).take 255

/-- A list that the writing thread took: the contents of its buffers, and the
limit and the time when its length was tested. -/
structure Iteration where
  buffers : List (List UInt8)
  buffersLimit : ℕ
  timestamp : List UInt8
  deriving DecidableEq, Repr

/-- What is written of it: a list over the limit is cut to two buffers. -/
def Iteration.written (it : Iteration) : List (List UInt8) :=
  if it.buffersLimit < it.buffers.length then
    notice it.timestamp (it.buffers.length - 2) :: it.buffers.take 2
  else it.buffers

end LogAsynAppender

open LogAsynAppender in
/-- The appender, with the locals of `process`. -/
structure LogAsynAppender where
  buffersLimit : ℕ
  running : Bool
  curBuffer : Option Buffer
  nextBuffer : Option Buffer
  buffersHolder : List Buffer
  place : Place
  curbuf_bak : Option Buffer
  nextbuf_bak : Option Buffer
  buffers_bak : List Buffer
  appended : List (List UInt8)
  iterations : List Iteration
  output : List Output
  deriving DecidableEq

namespace LogAsynAppender

/-- The constructor, and `setLimit`. -/
def limitOf (limit : ℤ) : ℕ := if limit < 4 then 4 else limit.toNat

def init (limit : ℤ) : LogAsynAppender where
  buffersLimit := limitOf limit
  running := false
  curBuffer := some .empty
  nextBuffer := some .empty
  buffersHolder := []
  place := .idle
  curbuf_bak := none
  nextbuf_bak := none
  buffers_bak := []
  appended := []
  iterations := []
  output := []

/-- `LogAsynAppender::append`, `none` where it would dereference a null
`curBuffer`. -/
def append (a : LogAsynAppender) (log : List UInt8) : Option LogAsynAppender :=
  a.curBuffer.map fun cur =>
    let a := { a with appended := a.appended ++ [log] }
    if log.length < cur.remain then { a with curBuffer := some (cur.append log) }
    else
      match a.nextBuffer with
      | some next =>
        { a with
          buffersHolder := a.buffersHolder ++ [cur]
          curBuffer := some (next.append log)
          nextBuffer := none }
      | none =>
        { a with
          buffersHolder := a.buffersHolder ++ [cur]
          curBuffer := some (FixedBuffer.empty.append log) }

/-- The critical section of `process` after the wait. -/
def swap (a : LogAsynAppender) : LogAsynAppender :=
  { a with
    place := .swapped
    buffers_bak := a.buffersHolder ++ a.curBuffer.toList
    buffersHolder := a.buffers_bak
    curBuffer := a.curbuf_bak
    curbuf_bak := none
    nextBuffer := if a.nextBuffer.isNone then a.nextbuf_bak else a.nextBuffer
    nextbuf_bak := if a.nextBuffer.isNone then none else a.nextbuf_bak }

/-- The test of the limit. -/
def testLimit (a : LogAsynAppender) (timestamp : List UInt8) : LogAsynAppender :=
  let a :=
    { a with
      place := .writing 0
      iterations := a.iterations ++ [{
        buffers := a.buffers_bak.map FixedBuffer.content
        buffersLimit := a.buffersLimit
        timestamp := timestamp }] }
  if a.buffersLimit < a.buffers_bak.length then
    { a with
      output := a.output ++ [.write (notice timestamp (a.buffers_bak.length - 2))]
      buffers_bak := a.buffers_bak.take 2 }
  else a

/-- `bak = std::move(buffers_bak.back()); bak->reset(); buffers_bak.pop_back()`
for a null `bak`; `none` where `buffers_bak` is empty. -/
def takeBack (bak : Option Buffer) (buffers_bak : List Buffer) :
    Option (Option Buffer × List Buffer) :=
  match bak with
  | some b => some (some b, buffers_bak)
  | none => if buffers_bak = [] then none else some (some .empty, buffers_bak.dropLast)

/-- The end of an iteration: the two spare buffers come back, and the rest is
freed. -/
def restore (a : LogAsynAppender) : Option LogAsynAppender :=
  (takeBack a.curbuf_bak a.buffers_bak).bind fun (curbuf_bak, buffers_bak) =>
    (takeBack a.nextbuf_bak buffers_bak).map fun (nextbuf_bak, _) =>
      { a with
        place := .testRunning
        curbuf_bak := curbuf_bak
        nextbuf_bak := nextbuf_bak
        buffers_bak := []
        output := a.output ++ [.flush] }

/-! ### Runs -/

/-- What can happen to an appender. -/
inductive Act
  | append (log : List UInt8)
  | setLimit (limit : ℤ)
  | flush
  | start
  | stop
  | testRunning
  | lock
  | wake
  | testLimit (timestamp : List UInt8)
  | write
  | restore
  | join
  deriving DecidableEq, Repr

/-- The next state, `none` where the act cannot occur.  `stop` is the first half
of the function, on an appender that was started, and `join` its return. -/
def step (a : LogAsynAppender) : Act → Option LogAsynAppender
  | .append log => if log.length < largeBufferSize then a.append log else none
  | .setLimit limit => some { a with buffersLimit := limitOf limit }
  | .flush => some { a with output := a.output ++ [.flush] }
  | .start =>
    if a.place = .idle then
      some { a with
        running := true
        place := .testRunning
        curbuf_bak := some .empty
        nextbuf_bak := some .empty }
    else none
  | .stop => if a.running then some { a with running := false } else none
  | .testRunning =>
    if a.place = .testRunning then
      if a.running then some { a with place := .lock }
      else some { a with place := .exited, output := a.output ++ [.flush] }
    else none
  | .lock =>
    if a.place = .lock then
      if a.buffersHolder = [] then some { a with place := .waiting } else some a.swap
    else none
  | .wake =>
    if a.place = .waiting then
      a.curBuffer.map fun cur =>
        if cur.isEmpty then { a with place := .testRunning } else a.swap
    else none
  | .testLimit timestamp => if a.place = .swapped then some (a.testLimit timestamp) else none
  | .write =>
    match a.place with
    | .writing written =>
      a.buffers_bak[written]?.map fun buffer =>
        { a with
          place := .writing (written + 1)
          output := a.output ++ [.write buffer.content] }
    | _ => none
  | .restore => if a.place = .writing a.buffers_bak.length then a.restore else none
  | .join => if a.place = .exited then some { a with place := .idle } else none

end LogAsynAppender

end Base
end Sevent
