/-
# `LogStream`: text and numbers into a buffer of 4000 bytes

`sevent/base/LogStream.cpp`, `sevent/base/LogStream.h`, and `append`, `add`,
`remain` and `toString` of `sevent/base/FixedBuffer.h` with the memory they work
on.

`append` takes its length as an `int` and leaves the buffer alone unless more
than that many bytes remain.  A number is written in place, with a NUL behind it,
when 32 bytes remain.  The digit loop runs on the signed value: `/` and `%`
truncate towards zero (`Int.tdiv`, `Int.tmod`), and `zero` is a table that is
indexed from -9 to 9.

A store outside the memory, and a `memcpy` whose length became negative, are
undefined: there a call is `none`.
-/

import Sevent.Lib.Bytes
import Sevent.Lib.Numeral
import Sevent.Lib.Run

namespace Sevent
namespace Base

open Bytes Transition

/-- A `LogStream` is its only member, a `FixedBuffer`: `buffer` is the array, and
`cur` the offset of the cursor in it. -/
structure LogStream where
  buffer : List UInt8
  cur : ℕ

namespace LogStream

/-! ### `convert` and `convertHex` -/

/-- The digits of `digits`, in its middle `zero`. -/
def digits : List UInt8 := "9876543210123456789".toUTF8.toList

/-- `zero[lsd]`. -/
def zero (lsd : ℤ) : UInt8 := digits.getD (lsd + 9).toNat 0

/-- The loop of `convert`: the digits, least significant first. -/
def convertLoop (i : ℤ) : List UInt8 :=
  zero (i.tmod 10) :: if i.tdiv 10 = 0 then [] else convertLoop (i.tdiv 10)
termination_by i.natAbs
decreasing_by
  rw [Int.natAbs_tdiv]
  rename_i h
  have hne : i.natAbs ≠ 0 := fun h0 => h (by rw [Int.natAbs_eq_zero.1 h0]; rfl)
  exact Nat.div_lt_self (Nat.pos_of_ne_zero hne) (by decide)

/-- `convert`, before the NUL.  No type is too small for what the loop computes. -/
def convert (value : ℤ) : List UInt8 :=
  (convertLoop value ++ if value < 0 then ['-'.toUInt8] else []).reverse

def digitsHex : List UInt8 := "0123456789ABCDEF".toUTF8.toList

/-- The loop of `convertHex`. -/
def convertHexLoop (i : ℕ) : List UInt8 :=
  digitsHex.getD (i % 16) 0 :: if i / 16 = 0 then [] else convertHexLoop (i / 16)
termination_by i
decreasing_by omega

/-- `convertHex`, before the NUL. -/
def convertHex (value : ℕ) : List UInt8 := (convertHexLoop value).reverse

/-! ### `FixedBuffer` -/

def samllBufferSize : ℕ := 4000

def remain (s : LogStream) : ℤ := toInt (samllBufferSize - s.cur)

/-- `toString`. -/
def text (s : LogStream) : List UInt8 := s.buffer.take s.cur

def add (s : LogStream) (len : ℕ) : LogStream := { s with cur := s.cur + len }

/-- Bytes stored from the cursor on. -/
def store (s : LogStream) (bytes : List UInt8) : Option LogStream :=
  if s.cur + bytes.length ≤ samllBufferSize then
    some { s with buffer := writeAt s.buffer s.cur bytes }
  else none

/-- `FixedBuffer::append` of an array and a length. -/
def append (s : LogStream) (buf : List UInt8) (len : ℤ) : Option LogStream :=
  if len < s.remain then
    if 0 ≤ len ∧ len ≤ buf.length then
      (s.store (buf.take len.toNat)).map fun s => s.add len.toNat
    else none
  else some s

/-! ### The operators -/

def maxNumericSize : ℕ := 32

/-- The types of the integers that are accepted. -/
inductive IntegerType
  | short
  | unsignedShort
  | int
  | unsignedInt
  | long
  | unsignedLong
  | longLong
  | unsignedLongLong
  deriving DecidableEq

namespace IntegerType

/-- `std::numeric_limits<T>::min()`. -/
def min : IntegerType → ℤ
  | short => -2 ^ 15
  | int => -2 ^ 31
  | long | longLong => -2 ^ 63
  | unsignedShort | unsignedInt | unsignedLong | unsignedLongLong => 0

/-- `std::numeric_limits<T>::max()`. -/
def max : IntegerType → ℤ
  | short => 2 ^ 15 - 1
  | unsignedShort => 2 ^ 16 - 1
  | int => 2 ^ 31 - 1
  | unsignedInt => 2 ^ 32 - 1
  | long | longLong => 2 ^ 63 - 1
  | unsignedLong | unsignedLongLong => 2 ^ 64 - 1

/-- The values of a type. -/
abbrev Value (t : IntegerType) : Type := { v : ℤ // t.min ≤ v ∧ v ≤ t.max }

end IntegerType

/-- What `StreamItem` is made of: an array and its length, an `int`. -/
structure StreamItem where
  data : List UInt8
  len_lt : data.length < 2 ^ 31

/-- The operands of `<<`.  `cstr` is `const char *` and `const unsigned char *`, by
the bytes before the NUL, and null; a `float` becomes a `double`. -/
inductive Operand (Double : Type)
  | bool (v : Bool)
  | integer (t : IntegerType) (v : t.Value)
  | double (v : Double)
  | pointer (p : UInt64)
  | char (v : UInt8)
  | cstr (str : Option (List UInt8))
  | string (v : List UInt8)
  | item (i : StreamItem)

variable {Double : Type}

/-- `formatInteger`; `short` and `unsigned short` have become `int` and
`unsigned int`, which keeps the value. -/
def formatInteger (s : LogStream) (v : ℤ) : Option LogStream :=
  if maxNumericSize ≤ s.remain then
    (s.store (convert v ++ [0])).map fun s => s.add (convert v).length
  else some s

/-- `<<` of a `double`; `format` is what `snprintf` makes of it with `%.12g`, and
all but 31 of its characters are left out. -/
def formatDouble (format : Double → List UInt8) (s : LogStream) (v : Double) :
    Option LogStream :=
  if maxNumericSize ≤ s.remain then
    (s.store ((format v).take (maxNumericSize - 1) ++ [0])).map fun s => s.add (format v).length
  else some s

/-- `<<` of a pointer. -/
def formatPointer (s : LogStream) (p : UInt64) : Option LogStream :=
  if maxNumericSize ≤ s.remain then
    (s.store ("0x".toUTF8.toList ++ convertHex p.toNat ++ [0])).map fun s =>
      s.add ((convertHex p.toNat).length + 2)
  else some s

/-- `stream << operand`. -/
def insert (format : Double → List UInt8) (s : LogStream) : Operand Double → Option LogStream
  | .bool v => s.append (if v then "1".toUTF8.toList else "0".toUTF8.toList) 1
  | .integer _ v => s.formatInteger v.1
  | .double v => s.formatDouble format v
  | .pointer p => s.formatPointer p
  | .char v => s.append [v] 1
  | .cstr none => s.append "(null)".toUTF8.toList 6
  | .cstr (some str) => s.append str (toInt str.length)
  | .string v => s.append v (toInt v.length)
  | .item i => s.append i.data i.data.length

/-- The text of an operand. -/
def Operand.text (format : Double → List UInt8) : Operand Double → List UInt8
  | .bool v => if v then "1".toUTF8.toList else "0".toUTF8.toList
  | .integer _ v => convert v.1
  | .double v => format v
  | .pointer p => "0x".toUTF8.toList ++ convertHex p.toNat
  | .char v => [v]
  | .cstr none => "(null)".toUTF8.toList
  | .cstr (some str) => str
  | .string v => v
  | .item i => i.data

example : convert (-9223372036854775808) = "-9223372036854775808".toUTF8.toList := by
  decide +kernel

end LogStream
end Base
end Sevent
