/-
# Overwriting a stretch of a list, and `size_t` arithmetic

Two things every byte buffer in C or C++ rests on.

`slice l a b` is the stretch `[a, b)` of a list and `writeAt l pos ys` stores
`ys` over it from `pos` on, as `memcpy` or `std::copy` into an array does; the
length never changes, and what would fall past the end is dropped.  The lemmas
say what a slice of the result is: what was written, or what was there.

`addSize` and `subSize` are `+` and `-` of an unsigned 64-bit type, that is
modulo `2 ^ 64`, on the naturals; `addSize_of_lt`, `subSize_of_le` and
`subSize_of_lt` say when they are the ordinary operations and what they are
when they wrap.  `toInt` is the conversion of a wider integer to a signed 32-bit
one, and `toInt64` what a signed 64-bit computation leaves of a result; it is the
result as long as `IsInt64` holds of it.
-/

import Mathlib.Data.List.TakeDrop
import Mathlib.Algebra.Order.Ring.Nat
import Mathlib.Tactic.NormNum

namespace Bytes

/-! ### Slices -/

variable {α : Type*}

/-- The stretch `[a, b)` of a list. -/
def slice (l : List α) (a b : ℕ) : List α := (l.take b).drop a

/-- Store `ys` over the list from position `pos` on; what falls past the end of
the list is dropped. -/
def writeAt (l : List α) (pos : ℕ) (ys : List α) : List α :=
  (l.take pos ++ ys ++ l.drop (pos + ys.length)).take l.length

@[simp]
theorem length_slice (l : List α) (a b : ℕ) : (slice l a b).length = min b l.length - a := by
  simp [slice]

@[simp]
theorem length_writeAt (l : List α) (pos : ℕ) (ys : List α) :
    (writeAt l pos ys).length = l.length := by
  simp only [writeAt, List.length_take, List.length_append, List.length_drop]
  omega

/-- Where the bytes fit, storing them replaces exactly their stretch. -/
theorem writeAt_eq {l : List α} {pos : ℕ} {ys : List α} (h : pos + ys.length ≤ l.length) :
    writeAt l pos ys = l.take pos ++ ys ++ l.drop (pos + ys.length) := by
  refine List.take_of_length_le ?_
  simp only [List.length_append, List.length_take, List.length_drop]
  omega

theorem slice_self (l : List α) (a : ℕ) : slice l a a = [] := by
  simp [slice]

/-- Neighbouring slices join. -/
theorem slice_append (l : List α) {a b c : ℕ} (hab : a ≤ b) (hbc : b ≤ c) :
    slice l a b ++ slice l b c = slice l a c := by
  have hc : l.take c = l.take b ++ (l.take c).drop b := by
    have h := (List.take_append_drop b (l.take c)).symm
    rwa [List.take_take, min_eq_left hbc] at h
  unfold slice
  by_cases h : a ≤ (l.take b).length
  · conv_rhs => rw [hc]
    rw [List.drop_append_of_le_length h]
  · have hlen : l.length < a := by
      simp only [List.length_take] at h
      omega
    rw [List.drop_eq_nil_of_le (by simp; omega), List.drop_eq_nil_of_le (by simp; omega),
      List.drop_eq_nil_of_le (by simp; omega), List.nil_append]

/-- A slice that ends where the store begins is not touched by it. -/
theorem slice_writeAt_before {l : List α} {pos : ℕ} {ys : List α} {a b : ℕ}
    (h : pos + ys.length ≤ l.length) (hb : b ≤ pos) :
    slice (writeAt l pos ys) a b = slice l a b := by
  unfold slice
  rw [writeAt_eq h, List.append_assoc, List.take_append_of_le_length (by simp; omega),
    List.take_take, min_eq_left hb]

/-- What was stored is what is read there. -/
theorem slice_writeAt_self {l : List α} {pos : ℕ} {ys : List α}
    (h : pos + ys.length ≤ l.length) :
    slice (writeAt l pos ys) pos (pos + ys.length) = ys := by
  have hl : (l.take pos).length = pos := by simp; omega
  unfold slice
  rw [writeAt_eq h, List.take_append_of_le_length (by simp; omega),
    List.take_of_length_le (by simp), List.drop_left' hl]

/-- **A store at the end of a slice appends to it.** -/
theorem slice_writeAt_end {l : List α} {pos : ℕ} {ys : List α} {a : ℕ}
    (h : pos + ys.length ≤ l.length) (ha : a ≤ pos) :
    slice (writeAt l pos ys) a (pos + ys.length) = slice l a pos ++ ys := by
  rw [← slice_append _ ha (Nat.le_add_right pos ys.length), slice_writeAt_before h le_rfl,
    slice_writeAt_self h]

/-- What is read up to a point inside of what was stored. -/
theorem take_writeAt {l : List α} {pos n : ℕ} {ys : List α} (h : pos + ys.length ≤ l.length)
    (hn : n ≤ ys.length) : (writeAt l pos ys).take (pos + n) = l.take pos ++ ys.take n := by
  have hl : (l.take pos).length = pos := by
    rw [List.length_take]
    omega
  rw [writeAt_eq h, List.append_assoc, List.take_append, hl, Nat.add_sub_cancel_left,
    List.take_append_of_le_length hn, List.take_of_length_le (by omega)]

/-- What lies before or behind a store is not touched by it. -/
theorem getElem?_writeAt {l : List α} {pos : ℕ} {ys : List α} (h : pos + ys.length ≤ l.length)
    {j : ℕ} (hj : j < pos ∨ pos + ys.length ≤ j) : (writeAt l pos ys)[j]? = l[j]? := by
  have hl : (l.take pos).length = pos := by
    rw [List.length_take]
    omega
  rw [writeAt_eq h]
  rcases hj with hj | hj
  · rw [List.append_assoc, List.getElem?_append_left (by omega), List.getElem?_take_of_lt hj]
  · rw [List.getElem?_append_right (by rw [List.length_append]; omega), List.getElem?_drop,
      List.length_append, hl, Nat.add_sub_cancel' hj]

/-- A slice that begins where the store ends is not touched by it. -/
theorem slice_writeAt_after {l : List α} {pos : ℕ} {ys : List α} {a b : ℕ}
    (h : pos + ys.length ≤ l.length) (ha : pos + ys.length ≤ a) :
    slice (writeAt l pos ys) a b = slice l a b := by
  refine List.ext_getElem? fun i => ?_
  unfold slice
  rw [List.getElem?_drop, List.getElem?_drop, List.getElem?_take, List.getElem?_take,
    getElem?_writeAt h (.inr (by omega))]

/-- A list that grows at its end keeps the slices it had. -/
theorem slice_append_right (l r : List α) {a b : ℕ} (hb : b ≤ l.length) :
    slice (l ++ r) a b = slice l a b := by
  unfold slice
  rw [List.take_append_of_le_length hb]

/-! ### Unsigned 64-bit arithmetic -/

/-- `a + b` in `size_t`. -/
def addSize (a b : ℕ) : ℕ := (a + b) % 2 ^ 64

/-- `a - b` in `size_t`, for `b` a `size_t`. -/
def subSize (a b : ℕ) : ℕ := (a + 2 ^ 64 - b) % 2 ^ 64

theorem addSize_of_lt {a b : ℕ} (h : a + b < 2 ^ 64) : addSize a b = a + b :=
  Nat.mod_eq_of_lt h

theorem subSize_of_le {a b : ℕ} (h : b ≤ a) (ha : a < 2 ^ 64) : subSize a b = a - b := by
  unfold subSize
  omega

/-- A difference that would be negative wraps to a huge value. -/
theorem subSize_of_lt {a b : ℕ} (h : a < b) (hb : b ≤ 2 ^ 64) :
    subSize a b = 2 ^ 64 - (b - a) := by
  unfold subSize
  omega

/-! ### Conversion to a signed 32-bit integer -/

/-- `static_cast<int>(n)`. -/
def toInt (n : ℤ) : ℤ := Int.bmod n (2 ^ 32)

/-- What fits stays. -/
theorem toInt_eq_iff (n : ℤ) : toInt n = n ↔ -2 ^ 31 ≤ n ∧ n < 2 ^ 31 := by
  unfold toInt
  rw [Int.bmod_def]
  omega

theorem toInt_lt (n : ℤ) : toInt n < 2 ^ 31 := by
  unfold toInt
  rw [Int.bmod_def]
  omega

/-- A number that is not negative does not become larger. -/
theorem toInt_le {n : ℤ} (h : 0 ≤ n) : toInt n ≤ n := by
  unfold toInt
  rw [Int.bmod_def]
  omega

/-- The number is one of `int64_t`. -/
def IsInt64 (n : ℤ) : Prop := -2 ^ 63 ≤ n ∧ n < 2 ^ 63

instance (n : ℤ) : Decidable (IsInt64 n) := inferInstanceAs (Decidable (_ ∧ _))

/-- The result `n` of an operation on `int64_t`.  An overflow is undefined in
C++; the two's complement machine wraps. -/
def toInt64 (n : ℤ) : ℤ := Int.bmod n (2 ^ 64)

/-- What fits stays. -/
theorem toInt64_eq_iff (n : ℤ) : toInt64 n = n ↔ IsInt64 n := by
  unfold toInt64 IsInt64
  rw [Int.bmod_def]
  omega

/-- An operand may be wrapped before an addition. -/
theorem toInt64_add_toInt64 (m n : ℤ) : toInt64 (m + toInt64 n) = toInt64 (m + n) := by
  unfold toInt64
  exact Int.add_bmod_bmod

end Bytes
