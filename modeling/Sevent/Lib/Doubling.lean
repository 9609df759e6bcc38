/-
# A vector that is doubled when it is full

The free space and the size of a vector that takes one byte after the other, and
whose size is doubled by the byte that fills it.  What they are after `n` bytes
depends on `n` alone, however the bytes arrive: `oneMore^[n]`.

A piece that does not fill the vector takes its length from the free space
(`iterate_of_lt`), one that fills it doubles the vector (`iterate_of_eq`), and the
free space never exceeds the first size and what has been put in
(`spaceAfter_iterate`).
-/

import Mathlib.Algebra.Order.Ring.Nat
import Mathlib.Logic.Function.Iterate
import Mathlib.Order.Nat

namespace Doubling

/-- One byte more, for the free space and the size of the vector. -/
def oneMore : ℕ × ℕ → ℕ × ℕ
  | (room, size) => if room ≤ 1 then (size, size + size) else (room - 1, size)

theorem iterate_of_lt {room size k : ℕ} (hk : k < room) :
    oneMore^[k] (room, size) = (room - k, size) := by
  induction k with
  | zero => rfl
  | succ k ih =>
    rw [Function.iterate_succ_apply', ih (by omega), oneMore, if_neg (by omega), Nat.sub_sub]

theorem iterate_of_eq {room size : ℕ} (hroom : 0 < room) :
    oneMore^[room] (room, size) = (size, size + size) := by
  obtain ⟨k, rfl⟩ := Nat.exists_eq_succ_of_ne_zero hroom.ne'
  rw [Function.iterate_succ_apply', iterate_of_lt (Nat.lt_succ_self k), oneMore,
    if_pos (by omega)]

theorem oneMore_cases (room size : ℕ) :
    (room ≤ 1 ∧ oneMore (room, size) = (size, size + size)) ∨
      (1 < room ∧ oneMore (room, size) = (room - 1, size)) := by
  rcases le_or_gt room 1 with h | h
  · exact .inl ⟨h, if_pos h⟩
  · exact .inr ⟨h, if_neg (not_le.2 h)⟩

theorem le_oneMore (space : ℕ × ℕ) : space.2 ≤ (oneMore space).2 := by
  rcases oneMore_cases space.1 space.2 with ⟨-, h⟩ | ⟨-, h⟩
  · exact (congrArg Prod.snd h).symm ▸ Nat.le_add_left ..
  · exact (congrArg Prod.snd h).ge

/-- The vector only grows. -/
theorem size_le_iterate {space : ℕ × ℕ} {k n : ℕ} (hk : k ≤ n) :
    (oneMore^[k] space).2 ≤ (oneMore^[n] space).2 := by
  induction n, hk using Nat.le_induction with
  | base => exact le_rfl
  | succ n _ ih =>
    rw [Function.iterate_succ_apply']
    exact ih.trans (le_oneMore _)

/-- What holds after `k` bytes: the write index, which was `write`, is `k` further on,
the vector is not full, and where it has grown it is at most twice what it holds. -/
structure SpaceAfter (write size k : ℕ) (space : ℕ × ℕ) : Prop where
  sum : space.1 + (write + k) = space.2
  pos : 0 < space.1
  bound : space.2 ≤ size ∨ space.2 ≤ 2 * (write + k)

theorem SpaceAfter.oneMore {write size k : ℕ} {space : ℕ × ℕ}
    (h : SpaceAfter write size k space) : SpaceAfter write size (k + 1) (oneMore space) := by
  obtain ⟨room, length⟩ := space
  obtain ⟨hsum, hpos, hbound⟩ := h
  dsimp only at hsum hpos hbound
  rcases oneMore_cases room length with ⟨hroom, heq⟩ | ⟨hroom, heq⟩
  · rw [heq]
    constructor <;> dsimp only <;> omega
  · rw [heq]
    constructor <;> dsimp only <;> omega

theorem spaceAfter_iterate {room size : ℕ} (hroom : 0 < room) (hle : room ≤ size) (k : ℕ) :
    SpaceAfter (size - room) size k (oneMore^[k] (room, size)) := by
  induction k with
  | zero => exact ⟨by dsimp only [Function.iterate_zero, id]; omega, hroom, .inl le_rfl⟩
  | succ k ih =>
    rw [Function.iterate_succ_apply']
    exact ih.oneMore

end Doubling
