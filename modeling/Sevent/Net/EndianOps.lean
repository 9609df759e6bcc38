/-
# Network byte order

`sevent/net/EndianOps.h`.

An integer of `k` bytes goes out with its most significant byte first, on every
platform.  Linux takes the functions `htobe*` and `be*toh` of its library.
Windows has library functions for 16 and 32 bits only; those for 64 bits are
put together from two halves in the header.  Both platforms run on
little-endian hosts here, where each of these functions reverses the bytes
(`hostToNet64_eq`).

A signed argument is converted to the unsigned type on its way into such a
function and back on its way out of it (`toSigned_toUnsigned`).
-/

import Sevent.Net.Buffer
import Mathlib.Tactic.Ring

namespace Sevent
namespace Net

/-! ### Bytes in memory -/

/-- The memory of an integer begins with its lowest byte. -/
theorem memBytes_succ (k n : ℕ) : memBytes (k + 1) n = UInt8.ofNat n :: memBytes k (n / 256) := by
  simp only [memBytes, List.range_succ_eq_map, List.map_cons, List.map_map, pow_zero, Nat.div_one]
  refine congrArg _ (List.map_congr_left fun i _ => ?_)
  rw [Function.comp_apply, Nat.succ_eq_add_one, pow_succ', Nat.div_div_eq_div_mul]

/-- The lower bytes of an integer, and the bytes above them. -/
theorem memBytes_add (j k n : ℕ) :
    memBytes (j + k) n = memBytes j n ++ memBytes k (n / 256 ^ j) := by
  induction j generalizing n with
  | zero => simp [memBytes]
  | succ j ih =>
    rw [Nat.add_right_comm, memBytes_succ, memBytes_succ, ih, Nat.div_div_eq_div_mul, pow_succ',
      List.cons_append]

/-- An integer that is stored in `k` bytes is read back modulo `256 ^ k`. -/
theorem ofMem_memBytes (k n : ℕ) : ofMem (memBytes k n) = n % 256 ^ k := by
  induction k generalizing n with
  | zero => simp [memBytes, ofMem, Nat.mod_one]
  | succ k ih =>
    rw [memBytes_succ, ofMem, ih, pow_succ', Nat.mod_mul]
    rfl

/-- Bytes that are read as an integer are stored back as they were. -/
theorem memBytes_ofMem (bs : List UInt8) : memBytes bs.length (ofMem bs) = bs := by
  induction bs with
  | nil => rfl
  | cons b bs ih =>
    have hb : b.toNat < 256 := b.toNat_lt
    have hlow : UInt8.ofNat (b.toNat + 256 * ofMem bs) = b := by
      rw [← UInt8.toNat_inj, UInt8.toNat_ofNat']
      omega
    have hhigh : (b.toNat + 256 * ofMem bs) / 256 = ofMem bs := by omega
    rw [List.length_cons, ofMem, memBytes_succ, hlow, hhigh, ih]

/-- An integer of some bytes is below the power that they count to. -/
theorem ofMem_lt (bs : List UInt8) : ofMem bs < 256 ^ bs.length := by
  induction bs with
  | nil => simp [ofMem]
  | cons b bs ih =>
    have hb : b.toNat < 256 := b.toNat_lt
    rw [ofMem, List.length_cons, pow_succ']
    omega

/-- The bytes behind others count above them. -/
theorem ofMem_append (bs cs : List UInt8) :
    ofMem (bs ++ cs) = ofMem bs + 256 ^ bs.length * ofMem cs := by
  induction bs with
  | nil => simp [ofMem]
  | cons b bs ih =>
    rw [List.cons_append, ofMem, ofMem, ih, List.length_cons, pow_succ']
    ring

/-! ### Big-endian -/

/-- The `k` bytes of an integer, the most significant first. -/
def bigEndian (k n : ℕ) : List UInt8 :=
  (List.range k).map fun i => UInt8.ofNat (n / 256 ^ (k - 1 - i))

/-- The bytes on the wire are those of the memory in the reverse order. -/
theorem bigEndian_eq (k n : ℕ) : bigEndian k n = (memBytes k n).reverse := by
  refine List.ext_getElem (by simp [bigEndian]) fun i h _ => ?_
  simp [bigEndian, memBytes]

/-- **What `htobe*` puts into memory.** -/
theorem memBytes_htobe (k n : ℕ) : memBytes k (htobe k n) = bigEndian k n := by
  have h := memBytes_ofMem (memBytes k n).reverse
  rw [List.length_reverse, length_memBytes] at h
  rw [htobe, h, bigEndian_eq]

/-- **`be*toh` undoes it.** -/
theorem htobe_ofMem_bigEndian (k n : ℕ) : htobe k (ofMem (bigEndian k n)) = n % 256 ^ k := by
  have h := memBytes_ofMem (memBytes k n).reverse
  rw [List.length_reverse, length_memBytes] at h
  rw [htobe, bigEndian_eq, h, List.reverse_reverse, ofMem_memBytes]

/-! ### The platforms -/

/-- `htonl`, `ntohl` of Windows, whose argument has 32 bits. -/
def htonl (n : ℕ) : ℕ := htobe 4 n

/-- `htons`, `ntohs` of Windows. -/
def htons (n : ℕ) : ℕ := htobe 2 n

/-- `htonll` of the header; `ntohll` is the same function of `ntohl`, which is
the function `htonl`. -/
def htonll (val : ℕ) : ℕ :=
  if 1 = htonl 1 then val else (htonl val * 2 ^ 32 + htonl (val / 2 ^ 32)) % 2 ^ 64

/-- The two halves of the header. -/
inductive Platform
  | linux
  | windows
  deriving DecidableEq, Repr

namespace Platform

/-- `hostToNet64`: the library's function, or the header's own one. -/
def hostToNet64 : Platform → ℕ → ℕ
  | linux => Net.hostToNet64
  | windows => htonll

/-- `hostToNet32`: a library function on both platforms. -/
def hostToNet32 : Platform → ℕ → ℕ
  | linux => Net.hostToNet32
  | windows => htonl

/-- `hostToNet16`: a library function on both platforms. -/
def hostToNet16 : Platform → ℕ → ℕ
  | linux => Net.hostToNet16
  | windows => htons

/-- `be64toh` reverses the bytes as `htobe64` does. -/
def netToHost64 : Platform → ℕ → ℕ
  | linux => htobe 8
  | windows => htonll

/-- `netToHost32`, the function that reverses the bytes once more. -/
def netToHost32 : Platform → ℕ → ℕ
  | linux => htobe 4
  | windows => htonl

/-- `netToHost16`, the function that reverses the bytes once more. -/
def netToHost16 : Platform → ℕ → ℕ
  | linux => htobe 2
  | windows => htons

end Platform

/-- **Two halves, each reversed and put in the other's place**, are the whole
reversed. -/
theorem htonll_eq (val : ℕ) : htonll val = htobe 8 val := by
  have hlittle : ¬ 1 = htonl 1 := by decide
  have hlow := ofMem_lt (memBytes 4 val).reverse
  have hhigh := ofMem_lt (memBytes 4 (val / 2 ^ 32)).reverse
  rw [List.length_reverse, length_memBytes] at hlow hhigh
  rw [htonll, if_neg hlittle, htonl, htonl, htobe, htobe, htobe, memBytes_add 4 4,
    List.reverse_append, ofMem_append, List.length_reverse, length_memBytes]
  norm_num at hlow hhigh ⊢
  omega

/-- Both platforms put 64 bits in network order alike. -/
theorem hostToNet64_eq (p : Platform) (n : ℕ) : p.hostToNet64 n = htobe 8 n := by
  cases p
  · rfl
  · exact htonll_eq n

/-- Both platforms put 32 bits in network order alike. -/
theorem hostToNet32_eq (p : Platform) (n : ℕ) : p.hostToNet32 n = htobe 4 n := by
  cases p <;> rfl

/-- Both platforms put 16 bits in network order alike. -/
theorem hostToNet16_eq (p : Platform) (n : ℕ) : p.hostToNet16 n = htobe 2 n := by
  cases p <;> rfl

/-- Both platforms take 64 bits from network order alike. -/
theorem netToHost64_eq (p : Platform) (n : ℕ) : p.netToHost64 n = htobe 8 n := by
  cases p
  · rfl
  · exact htonll_eq n

/-- Both platforms take 32 bits from network order alike. -/
theorem netToHost32_eq (p : Platform) (n : ℕ) : p.netToHost32 n = htobe 4 n := by
  cases p <;> rfl

/-- Both platforms take 16 bits from network order alike. -/
theorem netToHost16_eq (p : Platform) (n : ℕ) : p.netToHost16 n = htobe 2 n := by
  cases p <;> rfl

/-! ### Signed integers -/

/-- The signed integer of `k` bytes an unsigned value is converted to. -/
def toSigned (k : ℕ) (n : ℕ) : ℤ := if 2 * n < 256 ^ k then n else (n : ℤ) - (256 ^ k : ℕ)

/-- An argument that was converted fits its width. -/
theorem toUnsigned_lt (k : ℕ) (n : ℤ) : toUnsigned k n < 256 ^ k := by
  have hpos : (0 : ℤ) < (256 ^ k : ℕ) := by positivity
  have := Int.emod_lt_of_pos n hpos
  unfold toUnsigned
  omega

/-- **The conversions undo one another** on the values of the type. -/
theorem toSigned_toUnsigned {k : ℕ} {n : ℤ} (hlow : -(256 ^ k : ℕ) ≤ 2 * n)
    (hhigh : 2 * n < (256 ^ k : ℕ)) : toSigned k (toUnsigned k n) = n := by
  unfold toSigned toUnsigned
  generalize 256 ^ k = size at *
  rcases le_or_gt 0 n with hn | hn
  · rw [Int.emod_eq_of_lt hn (by omega)]
    split_ifs <;> omega
  · have hmod : n % (size : ℤ) = n + size := by
      rw [← Int.add_emod_right, Int.emod_eq_of_lt (by omega) (by omega)]
    rw [hmod]
    split_ifs <;> omega

end Net
end Sevent
