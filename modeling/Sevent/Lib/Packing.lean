/-
# Items packed into blocks

A writer that never splits an item fills a block with whole items, in order, and
goes on in the next block.  `Packed items blocks` says that the blocks are the
items, cut between items only.  The operations of such a writer keep it: an item
goes to the end of the last block (`Packed.fill`) or into a block of its own
(`Packed.push`), and a block may be opened without an item (`Packed.open`).
-/

import Mathlib.Data.List.Basic

namespace Packing

variable {α : Type*} {items blocks : List (List α)} {block item : List α}

/-- Each block is a run of whole items, and together they are all the items. -/
def Packed (items blocks : List (List α)) : Prop :=
  ∃ groups : List (List (List α)), groups.flatten = items ∧ groups.map List.flatten = blocks

namespace Packed

theorem nil : Packed ([] : List (List α)) [] := ⟨[], rfl, rfl⟩

/-- An item goes to the end of the last block. -/
theorem fill (h : Packed items (blocks ++ [block])) (item : List α) :
    Packed (items ++ [item]) (blocks ++ [block ++ item]) := by
  obtain ⟨groups, rfl, hmap⟩ := h
  obtain ⟨front, last, rfl, rfl, hlast⟩ := List.map_eq_append_iff.1 hmap
  obtain ⟨group, rest, rfl, rfl, hrest⟩ := List.map_eq_cons_iff.1 hlast
  obtain rfl := List.map_eq_nil_iff.1 hrest
  exact ⟨front ++ [group ++ [item]], by simp, by simp⟩

/-- An item goes into a block of its own. -/
theorem push (h : Packed items blocks) (item : List α) :
    Packed (items ++ [item]) (blocks ++ [item]) := by
  obtain ⟨groups, rfl, rfl⟩ := h
  exact ⟨groups ++ [[item]], by simp, by simp⟩

/-- A block is opened. -/
theorem opened (h : Packed items blocks) : Packed items (blocks ++ [[]]) := by
  obtain ⟨groups, rfl, rfl⟩ := h
  exact ⟨groups ++ [[]], by simp, by simp⟩

/-- Nothing is added, lost or moved. -/
theorem flatten_eq (h : Packed items blocks) : blocks.flatten = items.flatten := by
  obtain ⟨groups, rfl, rfl⟩ := h
  rw [List.flatten_flatten]

end Packed

end Packing
