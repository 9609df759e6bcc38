/-
# Several senders, one queue

Items are issued by several senders, wait in one queue and are served from its
front.  `key` says who issued an item.  `Ledger` relates what was issued, what
waits and what was served: for each sender, the served items followed by the
waiting ones are the issued ones, in the same order, as long as the server is
`alive`; a server that is not may drop items, and then they are a sublist.

A sender may also be served at once when none of its items waits (`direct`).
-/

import Mathlib.Data.List.Basic

namespace Fifo

variable {α κ : Type*} [DecidableEq κ]

/-- The items of one sender. -/
def byKey (key : α → κ) (k : κ) (items : List α) : List α := items.filter fun a => key a = k

variable {key : α → κ}

@[simp]
theorem byKey_append (k : κ) (items items' : List α) :
    byKey key k (items ++ items') = byKey key k items ++ byKey key k items' :=
  List.filter_append ..

theorem byKey_singleton (k : κ) (a : α) : byKey key k [a] = if key a = k then [a] else [] := by
  by_cases h : key a = k <;> simp [byKey, h]

theorem byKey_cons (k : κ) (a : α) (items : List α) :
    byKey key k (a :: items) = byKey key k [a] ++ byKey key k items := by
  rw [← byKey_append, List.singleton_append]

theorem byKey_eq_nil {k : κ} {items : List α} (h : ∀ a ∈ items, key a ≠ k) :
    byKey key k items = [] := by
  simpa [byKey] using h

/-- For each sender, the items that were served and those that wait. -/
structure Ledger (key : α → κ) (alive : Prop) (issued waiting served : List α) : Prop where
  order : ∀ k, (byKey key k served ++ byKey key k waiting).Sublist (byKey key k issued)
  complete : alive → ∀ k, byKey key k served ++ byKey key k waiting = byKey key k issued

namespace Ledger

variable {alive alive' : Prop} {issued waiting served : List α} {a : α}

theorem nil : Ledger key alive [] [] [] := ⟨fun _ => List.Sublist.refl _, fun _ _ => rfl⟩

theorem mono (h : Ledger key alive issued waiting served) (himp : alive' → alive) :
    Ledger key alive' issued waiting served :=
  ⟨h.order, fun ha => h.complete (himp ha)⟩

/-- An item is issued and waits at the end of the queue. -/
theorem enqueue (h : Ledger key alive issued waiting served) (a : α) :
    Ledger key alive (issued ++ [a]) (waiting ++ [a]) served := by
  refine ⟨fun k => ?_, fun ha k => ?_⟩
  · rw [byKey_append, byKey_append, ← List.append_assoc]
    exact (h.order k).append (List.Sublist.refl _)
  · rw [byKey_append, byKey_append, ← List.append_assoc, h.complete ha k]

/-- The first item of the queue is served. -/
theorem serve (h : Ledger key alive issued (a :: waiting) served) :
    Ledger key alive issued waiting (served ++ [a]) := by
  refine ⟨fun k => ?_, fun ha k => ?_⟩
  · rw [byKey_append, List.append_assoc, ← byKey_cons]
    exact h.order k
  · rw [byKey_append, List.append_assoc, ← byKey_cons]
    exact h.complete ha k

/-- The first item of the queue is dropped. -/
theorem drop (h : Ledger key alive issued (a :: waiting) served) (hdead : ¬ alive) :
    Ledger key alive issued waiting served := by
  refine ⟨fun k => ?_, fun ha => absurd ha hdead⟩
  have horder := h.order k
  rw [byKey_cons] at horder
  exact ((List.Sublist.refl _).append (List.sublist_append_right _ _)).trans horder

/-- An item is issued and served at once, while no item of its sender waits. -/
theorem direct (h : Ledger key alive issued waiting served)
    (hnone : ∀ b ∈ waiting, key b ≠ key a) :
    Ledger key alive (issued ++ [a]) waiting (served ++ [a]) := by
  have hsplit : ∀ k, byKey key k (served ++ [a]) ++ byKey key k waiting =
      (byKey key k served ++ byKey key k waiting) ++ byKey key k [a] := by
    intro k
    by_cases hk : key a = k
    · have hnil : byKey key k waiting = [] := byKey_eq_nil fun b hb => hk ▸ hnone b hb
      simp [hnil]
    · simp [byKey_singleton, hk]
  refine ⟨fun k => ?_, fun ha k => ?_⟩
  · rw [hsplit, byKey_append]
    exact (h.order k).append (List.Sublist.refl _)
  · rw [hsplit, byKey_append, h.complete ha k]

end Ledger

end Fifo
