/-
# Logs whose entries are justified by what precedes them

A model that records its acts in a list can state a safety property about each
act and the acts before it: no close without an open, no reuse before a
release.  `Justified J log` says that every entry `a` of the log satisfies
`J past a`, where `past` is the part of the log before it.  A log that grows at
the end keeps the property exactly when the new entry is justified
(`justified_concat`, `Justified.append` for several at once), and a log with a
bad entry stays bad (`Justified.of_append`).
-/

import Mathlib.Data.List.Induction

namespace Log

variable {α : Type*} {J : List α → α → Prop} {log rest : List α} {a : α}

/-- Every entry is justified by the entries before it. -/
def Justified (J : List α → α → Prop) (log : List α) : Prop :=
  ∀ past a future, log = past ++ a :: future → J past a

theorem justified_nil : Justified J [] := by
  intro past a future h
  simp at h

/-- A log loses nothing when it is cut. -/
theorem Justified.of_append (h : Justified J (log ++ rest)) : Justified J log := by
  rintro past a future rfl
  exact h past a (future ++ rest) (by simp)

/-- **One more entry.** -/
theorem justified_concat : Justified J (log ++ [a]) ↔ Justified J log ∧ J log a := by
  constructor
  · exact fun h => ⟨h.of_append, h log a [] rfl⟩
  · rintro ⟨h, ha⟩ past b future heq
    rcases List.eq_nil_or_concat future with rfl | ⟨future', c, rfl⟩
    · obtain ⟨rfl, hb⟩ := List.append_inj' heq rfl
      obtain rfl : a = b := by simpa using hb
      exact ha
    · have heq' : log ++ [a] = (past ++ b :: future') ++ [c] := by simpa using heq
      exact h past b future' (List.append_inj' heq' rfl).1

/-- Entries that any past justifies. -/
theorem justified_of_forall (h : ∀ past, ∀ a ∈ log, J past a) : Justified J log := by
  rintro past a future rfl
  exact h past a (by simp)

theorem Justified.concat (h : Justified J log) (ha : J log a) : Justified J (log ++ [a]) :=
  justified_concat.2 ⟨h, ha⟩

/-- More entries, each justified by the log and those before it. -/
theorem Justified.append (h : Justified J log)
    (hrest : Justified (fun past a => J (log ++ past) a) rest) : Justified J (log ++ rest) := by
  induction rest using List.reverseRecOn with
  | nil => simpa using h
  | append_singleton rest a ih =>
    obtain ⟨hrest, ha⟩ := justified_concat.1 hrest
    rw [← List.append_assoc]
    exact (ih hrest).concat ha

end Log
