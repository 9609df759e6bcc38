/-
# What `LogStream` writes

The number formatters give the numeral of the value (`convert_eq`,
`convertHex_eq`): the digit loop divides the signed value, and `zero` gives the
same digit for -3 as for 3.  `Ok` says that the cursor is inside the memory, and
each operator either leaves the stream alone or puts the text of its operand
behind what is there, except `append` of a string whose length does not fit in
an `int`.  A sequence of operands is written as it should be exactly when it has no
such string, or when none of it is written.
-/

import Sevent.Base.LogStream

namespace Sevent
namespace Base
namespace LogStream

open Bytes Transition

/-! ### Numerals -/

/-- A decimal digit. -/
def decValue (c : UInt8) : Option ℕ :=
  if 48 ≤ c.toNat ∧ c.toNat ≤ 57 then some (c.toNat - 48) else none

/-- A hexadecimal digit, in upper case. -/
def hexValue (c : UInt8) : Option ℕ :=
  if 65 ≤ c.toNat ∧ c.toNat ≤ 70 then some (c.toNat - 55) else decValue c

/-- The table is its own mirror image. -/
theorem zero_neg (d : Fin 10) : zero (-(d : ℕ)) = zero (d : ℕ) := by
  decide +revert +kernel

/-- The digit that `zero` gives is read as the value it was given. -/
theorem decValue_zero : ∀ d < 10, decValue (zero (d : ℕ)) = some d := by
  decide +kernel

/-- The digits of `digitsHex` are read as their values. -/
theorem hexValue_digitsHex : ∀ d < 16, hexValue (digitsHex.getD d 0) = some d := by
  decide +kernel

/-- The digit of a remainder that may be negative. -/
theorem zero_tmod (i : ℤ) : zero (i.tmod 10) = zero (i.natAbs % 10 : ℕ) := by
  have habs := Int.natAbs_tmod i 10
  have hlt : i.natAbs % 10 < 10 := Nat.mod_lt _ (by decide)
  have hmirror := zero_neg ⟨i.natAbs % 10, hlt⟩
  rcases Int.natAbs_eq (i.tmod 10) with h | h
  · rw [h, habs]
    rfl
  · rw [h, habs]
    exact hmirror

/-- The digit loop of `convert`, by induction on the magnitude. -/
theorem convertLoop_eq (i : ℤ) :
    convertLoop i = (Numeral.digits 10 i.natAbs).map fun d => zero (d : ℕ) := by
  obtain ⟨n, hn⟩ : ∃ n, n = i.natAbs := ⟨_, rfl⟩
  induction n using Nat.strongRecOn generalizing i with
  | ind n ih =>
    rw [convertLoop, Numeral.digits_eq (by decide), List.map_cons, zero_tmod]
    have hdiv : (i.tdiv 10).natAbs = i.natAbs / 10 := Int.natAbs_tdiv i 10
    congr 1
    split
    case isTrue h =>
      rw [if_pos (by rw [← hdiv, h]; rfl)]
      rfl
    case isFalse h =>
      have hne : i.natAbs / 10 ≠ 0 := by rwa [← hdiv, Ne, Int.natAbs_eq_zero]
      rw [if_neg hne, ih (i.natAbs / 10) (by omega) (i.tdiv 10) hdiv.symm, hdiv]

/-- The loop of `convertHex` gives the digits to the base 16, the last one
first. -/
theorem convertHexLoop_eq (i : ℕ) :
    convertHexLoop i = (Numeral.digits 16 i).map fun d => digitsHex.getD d 0 := by
  induction i using Nat.strongRecOn with
  | ind i ih =>
    rw [convertHexLoop, Numeral.digits_eq (by decide), List.map_cons]
    congr 1
    split
    case isTrue h => rfl
    case isFalse h => exact ih (i / 16) (by omega)

/-- **`convert` writes the numeral of its argument**, in base 10. -/
theorem convert_eq (value : ℤ) :
    convert value = Numeral.writeSigned 10 (fun d => zero (d : ℕ)) '-'.toUInt8 value := by
  rw [convert, convertLoop_eq, List.reverse_append, Numeral.writeSigned, Numeral.write]
  congr 1
  split
  case isTrue => rfl
  case isFalse => rfl

/-- **`convertHex` writes the numeral of its argument**, in base 16. -/
theorem convertHex_eq (value : ℕ) :
    convertHex value = Numeral.write 16 (fun d => digitsHex.getD d 0) value := by
  rw [convertHex, convertHexLoop_eq, Numeral.write]

/-- The decimal text of an integer. -/
abbrev IsDecimal (v : ℤ) (text : List UInt8) : Prop :=
  Numeral.SignedCanonical 10 decValue '0'.toUInt8 '-'.toUInt8 v text

/-- The text of a pointer: `0x` and a hexadecimal numeral. -/
def IsPointer (p : UInt64) (text : List UInt8) : Prop :=
  ∃ numeral, text = "0x".toUTF8.toList ++ numeral ∧
    Numeral.Canonical 16 hexValue '0'.toUInt8 p.toNat numeral

/-- What `convert` writes is a decimal numeral of the value. -/
theorem isDecimal_convert (v : ℤ) : IsDecimal v (convert v) := by
  have hzero : zero (0 : ℕ) = '0'.toUInt8 := by decide +kernel
  have hcanon := Numeral.signedCanonical_writeSigned (by decide) decValue_zero
    (by decide +kernel : decValue '-'.toUInt8 = none) v
  rwa [hzero, ← convert_eq] at hcanon

/-- What is written for a pointer is `0x` and its hexadecimal numeral. -/
theorem isPointer_convertHex (p : UInt64) :
    IsPointer p ("0x".toUTF8.toList ++ convertHex p.toNat) := by
  have hcanon := Numeral.canonical_write (by decide) hexValue_digitsHex p.toNat
  have hzero : digitsHex.getD 0 0 = '0'.toUInt8 := by decide +kernel
  rw [hzero, ← convertHex_eq] at hcanon
  exact ⟨convertHex p.toNat, rfl, hcanon⟩

/-- No value of an integer type has more than 20 digits. -/
theorem length_convert_le {t : IntegerType} (v : t.Value) : (convert v.1).length ≤ 21 := by
  rw [convert_eq]
  refine Numeral.length_writeSigned_le (by decide) (by decide) ?_
  have hmin := v.2.1
  have hmax := v.2.2
  cases t <;> simp only [IntegerType.min, IntegerType.max] at hmin hmax <;> omega

/-- A pointer has at most 16 digits. -/
theorem length_convertHex_le (p : UInt64) : (convertHex p.toNat).length ≤ 16 := by
  rw [convertHex_eq, Numeral.length_write]
  exact Numeral.length_digits_le (by decide) (by decide) p.toNat_lt

/-! ### One operator -/

/-- The array has its size, and the cursor is inside it: no operator fills it. -/
structure Ok (s : LogStream) : Prop where
  size : s.buffer.length = samllBufferSize
  cur_lt : s.cur < samllBufferSize

/-- `text` has been put behind what was there, and at most `n` bytes of memory have
been touched. -/
structure Appends (s s' : LogStream) (text : List UInt8) (n : ℕ) : Prop where
  text : s'.text = s.text ++ text
  frame : ∀ j, j < s.cur ∨ s.cur + n ≤ j → s'.buffer[j]? = s.buffer[j]?

variable {s s' : LogStream} {format : Double → List UInt8}

/-- An operator that puts a text with at most `n` bytes puts one with at most
`m`. -/
theorem Appends.mono {text : List UInt8} {n m : ℕ} (h : Appends s s' text n) (hnm : n ≤ m) :
    Appends s s' text m where
  text := h.text
  frame := fun j hj => h.frame j (by omega)

/-- The room of a stream is what the cursor has left of the small buffer. -/
theorem Ok.remain_eq (h : s.Ok) : s.remain = samllBufferSize - s.cur := by
  have hcur := h.cur_lt
  unfold samllBufferSize at hcur
  exact (toInt_eq_iff _).2 (by unfold samllBufferSize; omega)

/-- The cursor is at the end of the text. -/
theorem Ok.length_text (h : s.Ok) : s.text.length = s.cur := by
  rw [text, List.length_take, h.size, Nat.min_eq_left h.cur_lt.le]

/-- Bytes stored from the cursor on, and the cursor moved over the first of them. -/
theorem Ok.store_add (h : s.Ok) {bytes : List UInt8} {len : ℕ} (hlen : len ≤ bytes.length)
    (hroom : s.cur + bytes.length ≤ samllBufferSize) (hcur : s.cur + len < samllBufferSize) :
    ∃ s', ((s.store bytes).map fun s => s.add len) = some s' ∧ s'.Ok ∧
      Appends s s' (bytes.take len) bytes.length := by
  have hfit : s.cur + bytes.length ≤ s.buffer.length := h.size ▸ hroom
  refine ⟨_, by rw [store, if_pos hroom]; rfl, ⟨?_, hcur⟩, ?_, fun j hj => ?_⟩
  · exact (length_writeAt ..).trans h.size
  · exact take_writeAt hfit hlen
  · exact getElem?_writeAt hfit hj

/-- The number of bytes beyond which an operand needs room: the length that
`append` is given, and 31 for a number. -/
def Operand.need : Operand Double → ℤ
  | .bool _ | .char _ => 1
  | .integer .. | .double _ | .pointer _ => maxNumericSize - 1
  | .cstr none => 6
  | .cstr (some v) | .string v => toInt v.length
  | .item i => i.data.length

/-- What an operand puts into the stream when there is room. -/
def Operand.put (format : Double → List UInt8) : Operand Double → List UInt8
  | .cstr (some v) | .string v => v.take (toInt v.length).toNat
  | o => o.text format

/-- `append` with room for the bytes. -/
theorem Ok.append_of_lt (h : s.Ok) {buf : List UInt8} {len : ℤ} (h0 : 0 ≤ len)
    (hlen : len ≤ buf.length) (hroom : len < s.remain) :
    ∃ s', s.append buf len = some s' ∧ s'.Ok ∧
      Appends s s' (buf.take len.toNat) (buf.take len.toNat).length := by
  rw [h.remain_eq] at hroom
  have htake : (buf.take len.toNat).length = len.toNat := by
    rw [List.length_take]
    omega
  obtain ⟨s', hs', hok, happ⟩ := h.store_add htake.ge (by omega) (by omega)
  rw [List.take_of_length_le htake.le] at happ
  refine ⟨s', ?_, hok, happ⟩
  rw [append, h.remain_eq, if_pos hroom, if_pos ⟨h0, hlen⟩, hs']

/-- `append` of a text that is not shorter than the room does nothing, for the
end of the buffer stays free. -/
theorem append_of_le {buf : List UInt8} {len : ℤ} (hroom : s.remain ≤ len) :
    s.append buf len = some s := if_neg (not_lt.2 hroom)

/-- A length that became negative. -/
theorem Ok.append_of_neg (h : s.Ok) {buf : List UInt8} {len : ℤ} (hneg : len < 0) :
    s.append buf len = none := by
  have hcur := h.cur_lt
  rw [append, if_pos (by rw [h.remain_eq]; omega), if_neg fun h => absurd h.1 (not_le.2 hneg)]

/-- A number with room for it: what is stored is its text, and a NUL behind it. -/
theorem Ok.number_of_lt (h : s.Ok) {text : List UInt8} (hlen : text.length < maxNumericSize)
    (hroom : maxNumericSize - 1 < s.remain) :
    ∃ s', ((s.store (text ++ [0])).map fun s => s.add text.length) = some s' ∧ s'.Ok ∧
      Appends s s' text (text.length + 1) := by
  rw [h.remain_eq] at hroom
  have hlen' : (text ++ [0]).length = text.length + 1 := by
    rw [List.length_append, List.length_singleton]
  have hle : text.length ≤ (text ++ [0]).length := by omega
  have hfit : s.cur + (text ++ [0]).length ≤ samllBufferSize := by
    unfold maxNumericSize at hlen hroom
    omega
  obtain ⟨s', hs', hok, happ⟩ := h.store_add hle hfit (by omega)
  rw [List.take_left', hlen'] at happ
  · exact ⟨s', hs', hok, happ⟩
  · rfl

/-- A text with room for it, all of it or the first bytes. -/
theorem Ok.text_of_lt (h : s.Ok) {buf put : List UInt8} {len : ℤ} (h0 : 0 ≤ len)
    (hlen : len ≤ buf.length) (hput : put = buf.take len.toNat) (hroom : len < s.remain) :
    ∃ s', s.append buf len = some s' ∧ s'.Ok ∧ Appends s s' put (put.length + 1) := by
  obtain ⟨s', hs', hok, happ⟩ := h.append_of_lt h0 hlen hroom
  rw [← hput] at happ
  exact ⟨s', hs', hok, happ.mono (Nat.le_succ _)⟩

/-- The length of a string, when it is not negative as an `int`. -/
theorem toInt_length_le {v : List UInt8} : toInt v.length ≤ v.length := toInt_le (by omega)

/-- The part of a string that `append` takes when its length fits an `int`. -/
theorem length_take_toInt_le {v : List UInt8} (h0 : 0 ≤ toInt v.length) :
    ((v.take (toInt v.length).toNat).length : ℤ) ≤ toInt v.length := by
  rw [List.length_take]
  omega

/-- The literals that the operators pass on have the lengths they are passed with. -/
theorem length_bool (v : Bool) :
    ((if v then "1".toUTF8.toList else "0".toUTF8.toList).length : ℤ) = 1 := by
  decide +revert +kernel

/-- What is put for a truth value is `1` or `0`. -/
theorem put_bool (v : Bool) : (Operand.bool v : Operand Double).put format =
    (if v then "1".toUTF8.toList else "0".toUTF8.toList).take (1 : ℤ).toNat :=
  (List.take_of_length_le (by exact_mod_cast (length_bool v).le)).symm

/-- The length that is given with `(null)`. -/
theorem length_null : ("(null)".toUTF8.toList.length : ℤ) = 6 := by decide +kernel

/-- What is put for a null pointer of characters. -/
theorem put_null : (Operand.cstr none : Operand Double).put format =
    "(null)".toUTF8.toList.take (6 : ℤ).toNat :=
  (List.take_of_length_le (by exact_mod_cast length_null.le)).symm

/-- The length of what is put in front of a pointer. -/
theorem length_0x : "0x".toUTF8.toList.length = 2 := by decide +kernel

/-- **An operand with room for it**: its bytes are put behind what was there. -/
theorem insert_of_lt (hformat : ∀ v, (format v).length ≤ 19) (h : s.Ok) {o : Operand Double}
    (h0 : 0 ≤ o.need) (hroom : o.need < s.remain) :
    ∃ s', insert format s o = some s' ∧ s'.Ok ∧
      Appends s s' (o.put format) ((o.put format).length + 1) := by
  cases o with
  | bool v => exact h.text_of_lt (by decide) (length_bool v).ge (put_bool v) hroom
  | integer t v =>
    have hlen := length_convert_le v
    have hshort : (convert v.1).length < maxNumericSize := by
      unfold maxNumericSize
      omega
    obtain ⟨s', hs', hspec⟩ := h.number_of_lt hshort hroom
    exact ⟨s', (if_pos (Int.sub_one_lt_iff.1 hroom)).trans hs', hspec⟩
  | double v =>
    have hlen := hformat v
    have htake : (format v).take (maxNumericSize - 1) = format v :=
      List.take_of_length_le (by unfold maxNumericSize; omega)
    have hshort : (format v).length < maxNumericSize := by
      unfold maxNumericSize
      omega
    obtain ⟨s', hs', hspec⟩ := h.number_of_lt hshort hroom
    refine ⟨s', ?_, hspec⟩
    rw [insert, formatDouble, if_pos (Int.sub_one_lt_iff.1 hroom), htake, hs']
  | pointer p =>
    have hlen := length_convertHex_le p
    have htext : ("0x".toUTF8.toList ++ convertHex p.toNat).length =
        (convertHex p.toNat).length + 2 := by
      rw [List.length_append, length_0x, Nat.add_comm]
    have hshort : ("0x".toUTF8.toList ++ convertHex p.toNat).length < maxNumericSize := by
      unfold maxNumericSize
      omega
    obtain ⟨s', hs', hspec⟩ := h.number_of_lt hshort hroom
    refine ⟨s', ?_, hspec⟩
    rw [insert, formatPointer, if_pos (Int.sub_one_lt_iff.1 hroom), ← htext, hs']
  | char v => exact h.text_of_lt (by decide) le_rfl rfl hroom
  | cstr str =>
    cases str with
    | none => exact h.text_of_lt (by decide) length_null.ge put_null hroom
    | some v => exact h.text_of_lt h0 toInt_length_le rfl hroom
  | string v => exact h.text_of_lt h0 toInt_length_le rfl hroom
  | item i => exact h.text_of_lt h0 le_rfl (List.take_length ..).symm hroom

/-- **An operand without room for it** leaves the stream as it was. -/
theorem insert_of_le {o : Operand Double} (hroom : s.remain ≤ o.need) :
    insert format s o = some s := by
  cases o with
  | integer t v => exact if_neg (not_le.2 (Int.lt_of_le_sub_one hroom))
  | double v => exact if_neg (not_le.2 (Int.lt_of_le_sub_one hroom))
  | pointer p => exact if_neg (not_le.2 (Int.lt_of_le_sub_one hroom))
  | cstr str => cases str <;> exact append_of_le hroom
  | _ => exact append_of_le hroom

/-- **A string whose length becomes negative** makes the call undefined. -/
theorem insert_of_neg (h : s.Ok) {o : Operand Double} (hneg : o.need < 0) :
    insert format s o = none := by
  cases o with
  | cstr str =>
    cases str with
    | none => exact absurd hneg (by decide : ¬ (6 : ℤ) < 0)
    | some v => exact h.append_of_neg hneg
  | string v => exact h.append_of_neg hneg
  | item i => exact h.append_of_neg hneg
  | bool v => exact absurd hneg (by decide : ¬ (1 : ℤ) < 0)
  | char v => exact absurd hneg (by decide : ¬ (1 : ℤ) < 0)
  | _ => exact absurd hneg (by decide : ¬ (maxNumericSize : ℤ) - 1 < 0)

/-- Every operator keeps the cursor inside the memory, where it is defined. -/
theorem ok_insert (hformat : ∀ v, (format v).length ≤ 19) (h : s.Ok) {o : Operand Double}
    (hs' : insert format s o = some s') : s'.Ok := by
  rcases lt_or_ge o.need 0 with hneg | h0
  · rw [insert_of_neg h hneg] at hs'
    cases hs'
  · rcases lt_or_ge o.need s.remain with hroom | hroom
    · obtain ⟨t, ht, hok, -⟩ := insert_of_lt hformat h h0 hroom
      rw [hs'] at ht
      rwa [Option.some.inj ht]
    · rw [insert_of_le hroom] at hs'
      rwa [← Option.some.inj hs']

/-- No operand is longer than the room it asks for. -/
theorem length_put_le (hformat : ∀ v, (format v).length ≤ 19) {o : Operand Double}
    (h0 : 0 ≤ o.need) : (o.put format).length ≤ o.need := by
  cases o with
  | bool v => exact (length_bool v).le
  | integer t v =>
    have hlen := length_convert_le v
    show ((convert v.1).length : ℤ) ≤ 31
    omega
  | double v =>
    have hlen := hformat v
    show ((format v).length : ℤ) ≤ 31
    omega
  | pointer p =>
    have hlen := length_convertHex_le p
    show (("0x".toUTF8.toList ++ convertHex p.toNat).length : ℤ) ≤ 31
    rw [List.length_append, length_0x]
    omega
  | char v => exact le_rfl
  | cstr str =>
    cases str with
    | none => exact length_null.le
    | some v => exact length_take_toInt_le (v := v) h0
  | string v => exact length_take_toInt_le (v := v) h0
  | item i => exact le_rfl

/-! ### The text -/

/-- What `stream << operand` makes of the text, the stream as its user sees it. -/
def insertText (format : Double → List UInt8) (t : List UInt8) (o : Operand Double) :
    Option (List UInt8) :=
  if o.need < 0 then none
  else if o.need < samllBufferSize - t.length then some (t ++ o.put format) else some t

/-- One operand, on the stream and on its text. -/
theorem Ok.map_text_insert (hformat : ∀ v, (format v).length ≤ 19) (h : s.Ok)
    (o : Operand Double) : (insert format s o).map text = insertText format s.text o := by
  rw [insertText, h.length_text, ← h.remain_eq]
  rcases lt_or_ge o.need 0 with hneg | h0
  · rw [insert_of_neg h hneg, if_pos hneg]
    rfl
  · rw [if_neg (not_lt.2 h0)]
    rcases lt_or_ge o.need s.remain with hroom | hroom
    · obtain ⟨s', hs', -, happ⟩ := insert_of_lt hformat h h0 hroom
      rw [hs', if_pos hroom, Option.map_some, happ.text]
    · rw [insert_of_le hroom, if_neg (not_lt.2 hroom)]
      rfl

/-- The text only grows. -/
theorem prefix_run_insertText {os : List (Operand Double)} {t t' : List UInt8}
    (h : run (insertText format) t os = some t') : t <+: t' := by
  induction os generalizing t with
  | nil => exact Option.some.inj h ▸ List.prefix_rfl
  | cons o os ih =>
    obtain ⟨t₁, ht₁, hrun⟩ := run_cons_eq_some.1 h
    refine List.IsPrefix.trans ?_ (ih hrun)
    unfold insertText at ht₁
    split_ifs at ht₁ with hneg hroom
    · exact Option.some.inj ht₁ ▸ List.prefix_append ..
    · exact Option.some.inj ht₁ ▸ List.prefix_rfl

/-- A run of operators keeps the cursor inside the memory. -/
theorem ok_run (hformat : ∀ v, (format v).length ≤ 19) (h : s.Ok) {os : List (Operand Double)}
    (hs' : run (insert format) s os = some s') : s'.Ok :=
  (always_invariant (fun _ _ _ h hs' => ok_insert hformat h hs') h).last hs'

/-- **The stream and its text.**  A sequence of operands ends in a stream with the text
`t` if and only if it makes `t` of the text. -/
theorem Ok.run_iff (hformat : ∀ v, (format v).length ≤ 19) (h : s.Ok)
    {os : List (Operand Double)} {t : List UInt8} :
    (∃ s', run (insert format) s os = some s' ∧ s'.Ok ∧ s'.text = t) ↔
      run (insertText format) s.text os = some t := by
  induction os generalizing s with
  | nil =>
    constructor
    · rintro ⟨s', hs', -, rfl⟩
      exact congrArg (Option.map text) hs'
    · exact fun ht => ⟨s, rfl, h, Option.some.inj ht⟩
  | cons o os ih =>
    have hmap := h.map_text_insert hformat o
    rw [run_cons, run_cons, ← hmap]
    cases ho : insert format s o with
    | none => simp
    | some s₁ => exact ih (ok_insert hformat h ho)

/-- A sequence of operands that goes through, on the stream and on its text. -/
theorem Ok.run_text (hformat : ∀ v, (format v).length ≤ 19) (h : s.Ok)
    {os : List (Operand Double)} (hs' : run (insert format) s os = some s') :
    s'.Ok ∧ run (insertText format) s.text os = some s'.text ∧ s.cur ≤ s'.cur := by
  have hok := ok_run hformat h hs'
  have hrun := (h.run_iff hformat).1 ⟨s', hs', hok, rfl⟩
  have hle := (prefix_run_insertText hrun).length_le
  rw [h.length_text, hok.length_text] at hle
  exact ⟨hok, hrun, hle⟩

/-! ### Sequences of operands -/

/-- What is promised of `stream << operand`: the cursor stays inside the memory,
the operand is wholly present or wholly absent, and a number for which 32 bytes
remain is present, in its canonical text, with at most 32 bytes touched. -/
structure Promised (format : Double → List UInt8) (s : LogStream) (o : Operand Double)
    (s' : LogStream) : Prop where
  inside : s'.cur ≤ samllBufferSize
  whole : s'.text = s.text ∨ s'.text = s.text ++ o.text format
  integer : ∀ t v, o = .integer t v → 32 ≤ s.remain →
    ∃ text, IsDecimal v.1 text ∧ Appends s s' text 32
  pointer : ∀ p, o = .pointer p → 32 ≤ s.remain →
    ∃ text, IsPointer p text ∧ Appends s s' text 32

/-- The condition on a string: its length fits in an `int`, or nothing is written,
because the `int` is 0 or there is no room for so many bytes. -/
def Fits (s : LogStream) : Operand Double → Prop
  | .cstr (some v) | .string v =>
    v.length < 2 ^ 31 ∨ 0 ≤ toInt v.length ∧ (toInt v.length = 0 ∨ s.remain ≤ toInt v.length)
  | _ => True

/-- An operand that is left out keeps the promise. -/
theorem Ok.promised_of_le (h : s.Ok) {o : Operand Double} (hroom : s.remain ≤ o.need) :
    Promised format s o s where
  inside := h.cur_lt.le
  whole := Or.inl rfl
  integer := fun t v ho h32 => by
    rw [ho] at hroom
    exact absurd (h32.trans hroom) (by decide : ¬ (32 : ℤ) ≤ maxNumericSize - 1)
  pointer := fun p ho h32 => by
    rw [ho] at hroom
    exact absurd (h32.trans hroom) (by decide : ¬ (32 : ℤ) ≤ maxNumericSize - 1)

/-- An operand that is put into the stream keeps the promise, unless only a part
of it is. -/
theorem promised_of_appends {o : Operand Double} (hok : s'.Ok)
    (happ : Appends s s' (o.put format) ((o.put format).length + 1))
    (hput : o.put format = [] ∨ o.put format = o.text format) : Promised format s o s' where
  inside := hok.cur_lt.le
  whole := by
    rcases hput with hput | hput
    · exact Or.inl (by rw [happ.text, hput, List.append_nil])
    · exact Or.inr (by rw [happ.text, hput])
  integer := fun t v ho _ => by
    rw [ho] at happ
    have hlen := length_convert_le v
    exact ⟨convert v.1, isDecimal_convert v.1, happ.mono (by
      show (convert v.1).length + 1 ≤ 32
      omega)⟩
  pointer := fun p ho _ => by
    rw [ho] at happ
    have hlen := length_convertHex_le p
    refine ⟨_, isPointer_convertHex p, happ.mono ?_⟩
    show ("0x".toUTF8.toList ++ convertHex p.toNat).length + 1 ≤ 32
    rw [List.length_append, length_0x]
    omega

/-- An operand whose bytes are all passed on. -/
theorem Ok.exists_promised (hformat : ∀ v, (format v).length ≤ 19) (h : s.Ok)
    {o : Operand Double} (h0 : 0 ≤ o.need)
    (hput : o.put format = [] ∨ o.put format = o.text format) :
    ∃ s', insert format s o = some s' ∧ Promised format s o s' := by
  rcases lt_or_ge o.need s.remain with hroom | hroom
  · obtain ⟨s', hs', hok, happ⟩ := insert_of_lt hformat h h0 hroom
    exact ⟨s', hs', promised_of_appends hok happ hput⟩
  · exact ⟨s, insert_of_le hroom, h.promised_of_le hroom⟩

/-- A string that is passed on by its length as an `int`. -/
theorem Ok.promised_string_iff (hformat : ∀ v, (format v).length ≤ 19) (h : s.Ok)
    {o : Operand Double} {v : List UInt8} (hneed : o.need = toInt v.length)
    (hput : o.put format = v.take (toInt v.length).toNat) (htext : o.text format = v) :
    (∃ s', insert format s o = some s' ∧ Promised format s o s') ↔
      (v.length < 2 ^ 31 ∨
        0 ≤ toInt v.length ∧ (toInt v.length = 0 ∨ s.remain ≤ toInt v.length)) := by
  have hle : toInt v.length ≤ v.length := toInt_length_le
  have hlt := toInt_lt v.length
  constructor
  · rintro ⟨s', hs', hp⟩
    by_contra hnot
    push Not at hnot
    obtain ⟨hlong, hnot⟩ := hnot
    rcases lt_or_ge o.need 0 with hneg | h0
    · rw [insert_of_neg h hneg] at hs'
      cases hs'
    · obtain ⟨hne, hroom⟩ := hnot (hneed ▸ h0)
      obtain ⟨t, ht, -, happ⟩ := insert_of_lt hformat h h0 (hneed ▸ hroom)
      rw [hs'] at ht
      obtain rfl := Option.some.inj ht
      have hwhole := hp.whole
      -- a part of the string, neither empty nor all of it
      have hlen : (o.put format).length = (toInt v.length).toNat := by
        rw [hput, List.length_take]
        omega
      rw [happ.text, htext, List.append_right_eq_self, List.append_right_inj] at hwhole
      rcases hwhole with hnil | hall
      · rw [hnil, List.length_nil] at hlen
        omega
      · rw [hall] at hlen
        omega
  · rintro (hshort | ⟨h0, hnone⟩)
    · have heq : toInt v.length = v.length := (toInt_eq_iff _).2 (by omega)
      refine h.exists_promised hformat (by omega) (Or.inr ?_)
      rw [hput, htext, heq, Int.toNat_natCast, List.take_length]
    · rcases hnone with hzero | hroom
      · refine h.exists_promised hformat (hneed ▸ h0) (Or.inl ?_)
        rw [hput, hzero]
        rfl
      · exact ⟨s, insert_of_le (hneed ▸ hroom), h.promised_of_le (hneed ▸ hroom)⟩

/-- **One operand**: the promise is kept exactly when the operand fits. -/
theorem Ok.promised_iff (hformat : ∀ v, (format v).length ≤ 19) (h : s.Ok)
    (o : Operand Double) :
    (∃ s', insert format s o = some s' ∧ Promised format s o s') ↔ Fits s o := by
  have hall : ∀ n : ℕ, o.need = n → o.put format = o.text format →
      ∃ s', insert format s o = some s' ∧ Promised format s o s' := fun n hn hput =>
    h.exists_promised hformat (hn ▸ Int.natCast_nonneg n) (Or.inr hput)
  cases o with
  | bool v => exact iff_of_true (hall 1 rfl rfl) trivial
  | integer t v => exact iff_of_true (hall 31 rfl rfl) trivial
  | double v => exact iff_of_true (hall 31 rfl rfl) trivial
  | pointer p => exact iff_of_true (hall 31 rfl rfl) trivial
  | char v => exact iff_of_true (hall 1 rfl rfl) trivial
  | cstr str =>
    cases str with
    | none => exact iff_of_true (hall 6 rfl rfl) trivial
    | some v => exact h.promised_string_iff hformat rfl rfl rfl
  | string v => exact h.promised_string_iff hformat rfl rfl rfl
  | item i => exact iff_of_true (hall i.data.length rfl rfl) trivial

/-- A stream in a memory of any contents. -/
def fresh (memory : List UInt8) : LogStream := { buffer := memory, cur := 0 }

/-- **Every sequence of operands** is written as promised, number by number and
text by text, if and only if each string in it fits: it is shorter than `2 ^ 31`,
or its length as an `int` is 0 or at least what remains. -/
theorem stream_promised_iff (hformat : ∀ v, (format v).length ≤ 19) {memory : List UInt8}
    (hmem : memory.length = samllBufferSize) (os : List (Operand Double)) :
    Steps (insert format)
        (fun s o => ∃ s', insert format s o = some s' ∧ Promised format s o s') (fresh memory) os ↔
      Steps (insert format) Fits (fresh memory) os :=
  steps_congr (fun s _ _ (h : s.Ok) hs' => ok_insert hformat h hs')
    (fun _ o h => h.promised_iff hformat o) ⟨hmem, Nat.zero_lt_succ _⟩

/-- The `double`s that are integers below `10 ^ 12`, for which `%.12g` gives the numeral. -/
abbrev IntegralDouble : Type := { v : ℤ // v.natAbs < 10 ^ 12 }

/-- A formatter for numbers that are whole, as an example of a `Double`. -/
def formatIntegral (v : IntegralDouble) : List UInt8 := convert v.1

/-- The example's numerals have at most 19 bytes, as the operator for `double`
relies on. -/
theorem length_formatIntegral (v : IntegralDouble) : (formatIntegral v).length ≤ 19 := by
  have hlen : (Numeral.writeSigned 10 (fun d => zero (d : ℕ)) '-'.toUInt8 v.1).length ≤ 12 + 1 :=
    Numeral.length_writeSigned_le (by decide) (by decide) v.2
  rw [formatIntegral, convert_eq]
  omega

/-- The smallest `int`, a `double` and a string, one after the other: each is
written as it should be. -/
theorem stream_promised_numbers :
    Steps (insert formatIntegral)
      (fun s o => ∃ s', insert formatIntegral s o = some s' ∧ Promised formatIntegral s o s')
      (fresh (List.replicate 4000 0))
      [.integer .int ⟨-2147483648, by decide⟩, .double ⟨5, by decide⟩, .string [120]] :=
  (stream_promised_iff length_formatIntegral List.length_replicate _).2
    ⟨trivial, fun _ _ => ⟨trivial, fun _ _ => ⟨Or.inl (by decide), fun _ _ => trivial⟩⟩⟩

/-- A string of `2 ^ 31` bytes: its length as an `int` is negative, and `memcpy` is
called with it. -/
theorem long_string_not_promised :
    ¬ Steps (insert formatIntegral)
      (fun s o => ∃ s', insert formatIntegral s o = some s' ∧ Promised formatIntegral s o s')
      (fresh (List.replicate 4000 0)) [.string (List.replicate (2 ^ 31) 97)] := by
  rintro ⟨⟨s', hs', -⟩, -⟩
  have hok : (fresh (List.replicate 4000 0)).Ok := ⟨List.length_replicate, Nat.zero_lt_succ _⟩
  obtain ⟨v, hv⟩ : ∃ v, v = List.replicate (2 ^ 31) (97 : UInt8) := ⟨_, rfl⟩
  have hlen : v.length = 2 ^ 31 := by rw [hv, List.length_replicate]
  have hneg : (Operand.string v : Operand IntegralDouble).need < 0 := by
    rw [Operand.need, hlen]
    decide
  rw [← hv, insert_of_neg hok hneg] at hs'
  cases hs'

end LogStream
end Base
end Sevent
