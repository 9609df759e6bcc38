/-
# Threads at places

How many of finitely many threads are at a place, and what becomes of the numbers
when one of them goes to another place.
-/

import Mathlib.Data.Fintype.Card

namespace Places

variable {ι π : Type*} [Fintype ι] [DecidableEq π] {f : ι → π} {i : ι} {x y : π}

def count (f : ι → π) (x : π) : ℕ := (Finset.univ.filter fun i => f i = x).card

theorem count_pos : 0 < count f x ↔ ∃ i, f i = x := by
  unfold count
  rw [Finset.card_pos]
  constructor
  · rintro ⟨i, hi⟩
    exact ⟨i, (Finset.mem_filter.1 hi).2⟩
  · rintro ⟨i, hi⟩
    exact ⟨i, Finset.mem_filter.2 ⟨Finset.mem_univ i, hi⟩⟩

theorem count_eq_zero (h : count f x = 0) (i : ι) : f i ≠ x := fun hi =>
  absurd (count_pos.2 ⟨i, hi⟩) (by omega)

/-- Where there is one thread, it is the only one. -/
theorem eq_of_count_eq_one {j : ι} (h : count f x = 1) (hi : f i = x) (hj : f j = x) : i = j := by
  obtain ⟨k, hk⟩ := Finset.card_eq_one.1 h
  have hmem : ∀ l, f l = x → l = k := fun l hl =>
    Finset.mem_singleton.1 (hk ▸ Finset.mem_filter.2 ⟨Finset.mem_univ l, hl⟩)
  rw [hmem i hi, hmem j hj]

theorem count_le (f : ι → π) (x : π) : count f x ≤ Fintype.card ι := Finset.card_le_univ _

theorem count_const (h : x ≠ y) : count (fun _ : ι => x) y = 0 := by
  unfold count
  rw [Finset.card_eq_zero, Finset.filter_eq_empty_iff]
  exact fun _ _ => h

/-- **A thread goes from one place to another.** -/
theorem count_update [DecidableEq ι] (f : ι → π) (i : ι) (y x : π) :
    count (Function.update f i y) x + (if f i = x then 1 else 0) =
      count f x + if y = x then 1 else 0 := by
  have hsplit : ∀ g : ι → π, count g x =
      ((Finset.univ.erase i).filter fun j => g j = x).card + if g i = x then 1 else 0 := by
    intro g
    unfold count
    conv_lhs => rw [← Finset.insert_erase (Finset.mem_univ i), Finset.filter_insert]
    split_ifs
    · rw [Finset.card_insert_of_notMem]
      simp
    · rfl
  have hrest : ((Finset.univ.erase i).filter fun j => Function.update f i y j = x) =
      (Finset.univ.erase i).filter fun j => f j = x := by
    refine Finset.filter_congr fun j hj => ?_
    rw [Function.update_of_ne (Finset.ne_of_mem_erase hj)]
  rw [hsplit (Function.update f i y), hsplit f, hrest, Function.update_self]
  omega

theorem count_update_of_ne [DecidableEq ι] (hi : f i ≠ x) (hy : y ≠ x) :
    count (Function.update f i y) x = count f x := by
  have h := count_update f i y x
  rwa [if_neg hi, if_neg hy] at h

/-- One of them is somewhere else. -/
theorem count_lt (h : f i ≠ x) : count f x < Fintype.card ι :=
  Finset.card_lt_card (Finset.ssubset_univ_iff.2 fun huniv =>
    h (Finset.filter_eq_self.1 huniv i (Finset.mem_univ i)))

end Places
