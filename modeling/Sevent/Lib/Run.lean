/-
# Runs of a partial step function

A system is a step function `σ → ι → Option σ`: from a state and an input (a
call, an event, a choice of the environment) to the next state, `none` where
the input cannot occur.  A run is a list of inputs.

Two predicates talk about a whole run.  `Steps` says that every step of it,
seen with the state before it, meets a condition; `Always` says that every
state of it, the first included, has a property.  `always_of_steps` is the
invariant rule, and `always_iff_steps` its two-sided form: when the condition
is exactly what keeps the property, a run keeps the property if and only if
all its steps meet the condition.  `run_map` takes the runs of a system to those of
another.
-/

import Mathlib.Logic.Basic
import Mathlib.Data.Option.Basic

namespace Transition

variable {σ ι : Type*}

/-- The state a list of inputs leads to, `none` once an input cannot occur. -/
def run (step : σ → ι → Option σ) : σ → List ι → Option σ
  | s, [] => some s
  | s, i :: is => (step s i).bind fun s' => run step s' is

/-- Every step of the run meets `Good`, a condition on the state before the
step and its input. -/
def Steps (step : σ → ι → Option σ) (Good : σ → ι → Prop) : σ → List ι → Prop
  | _, [] => True
  | s, i :: is => Good s i ∧ ∀ s', step s i = some s' → Steps step Good s' is

/-- `P` holds in every state of the run, the first included. -/
def Always (step : σ → ι → Option σ) (P : σ → Prop) : σ → List ι → Prop
  | s, [] => P s
  | s, i :: is => P s ∧ ∀ s', step s i = some s' → Always step P s' is

variable {step : σ → ι → Option σ} {Good : σ → ι → Prop} {Inv P : σ → Prop}

theorem run_cons (s : σ) (i : ι) (is : List ι) :
    run step s (i :: is) = (step s i).bind fun s' => run step s' is := rfl

theorem run_singleton (s : σ) (i : ι) : run step s [i] = step s i := by
  rw [run_cons]
  cases step s i with
  | none => rfl
  | some s' => rfl

/-- The first step of a run that goes through. -/
theorem run_cons_eq_some {s t : σ} {i : ι} {is : List ι} :
    run step s (i :: is) = some t ↔ ∃ s', step s i = some s' ∧ run step s' is = some t := by
  rw [run_cons, Option.bind_eq_some_iff]

/-- A run in two parts. -/
theorem run_append_eq_some {s t : σ} {is js : List ι} :
    run step s (is ++ js) = some t ↔ ∃ s', run step s is = some s' ∧ run step s' js = some t := by
  induction is generalizing s with
  | nil => simp [run]
  | cons i is ih =>
    rw [List.cons_append, run_cons, run_cons]
    rcases step s i with _ | s'
    · simp
    · simpa only [Option.bind_some] using ih

/-- A run of good steps, step by step. -/
theorem Steps.cons {s s' : σ} {i : ι} {is : List ι} (hgood : Good s i)
    (hstep : step s i = some s') (h : Steps step Good s' is) : Steps step Good s (i :: is) :=
  ⟨hgood, fun _ ht => Option.some.inj (hstep.symm.trans ht) ▸ h⟩

/-- A run behind another. -/
theorem Steps.append {s : σ} {is js : List ι} (h : Steps step Good s is)
    (h' : ∀ t, run step s is = some t → Steps step Good t js) : Steps step Good s (is ++ js) := by
  induction is generalizing s with
  | nil => exact h' s rfl
  | cons i is ih =>
    refine ⟨h.1, fun s' hs' => ih (h.2 s' hs') fun t ht => ?_⟩
    exact h' t (run_cons_eq_some.2 ⟨s', hs', ht⟩)

/-- A condition that every step meets. -/
theorem steps_of_forall (h : ∀ s i, Good s i) {s : σ} {is : List ι} : Steps step Good s is := by
  induction is generalizing s with
  | nil => trivial
  | cons i is ih => exact ⟨h s i, fun _ _ => ih⟩

/-- The first part of a run. -/
theorem Steps.left {s : σ} {is js : List ι} (h : Steps step Good s (is ++ js)) :
    Steps step Good s is := by
  induction is generalizing s with
  | nil => trivial
  | cons i is ih => exact ⟨h.1, fun s' hs' => ih (h.2 s' hs')⟩

/-- The rest of a run. -/
theorem Steps.right {s t : σ} {is js : List ι} (h : Steps step Good s (is ++ js))
    (hrun : run step s is = some t) : Steps step Good t js := by
  induction is generalizing s with
  | nil => exact Option.some.inj hrun ▸ h
  | cons i is ih =>
    obtain ⟨s', hs', ht⟩ := run_cons_eq_some.1 hrun
    exact ih (h.2 s' hs') ht

theorem Steps.mono {Good' : σ → ι → Prop} (hgood : ∀ s i, Good s i → Good' s i) {s : σ}
    {is : List ι} (h : Steps step Good s is) : Steps step Good' s is := by
  induction is generalizing s with
  | nil => trivial
  | cons i is ih => exact ⟨hgood s i h.1, fun s' hs' => ih (h.2 s' hs')⟩

/-- A condition on the inputs alone. -/
theorem Steps.and_forall {s : σ} {is : List ι} {Q : ι → Prop} (h : Steps step Good s is)
    (hQ : ∀ i ∈ is, Q i) : Steps step (fun s i => Good s i ∧ Q i) s is := by
  induction is generalizing s with
  | nil => trivial
  | cons i is ih =>
    exact ⟨⟨h.1, hQ i List.mem_cons_self⟩,
      fun s' hs' => ih (h.2 s' hs') fun j hj => hQ j (List.mem_cons_of_mem _ hj)⟩

/-- A condition that can be tested can be tested along a run. -/
instance decidableSteps [∀ s i, Decidable (Good s i)] :
    (s : σ) → (is : List ι) → Decidable (Steps step Good s is)
  | _, [] => isTrue trivial
  | s, i :: is =>
    match h : step s i with
    | none => decidable_of_iff (Good s i) ⟨fun hg => ⟨hg, by simp [h]⟩, And.left⟩
    | some s' =>
      have := decidableSteps s' is
      decidable_of_iff (Good s i ∧ Steps step Good s' is) (by simp [Steps, h])

theorem Always.head {s : σ} {is : List ι} (h : Always step P s is) : P s := by
  cases is with
  | nil => exact h
  | cons i is => exact h.1

/-- A property of every state of a run holds of its last state. -/
theorem Always.last {s t : σ} {is : List ι} (h : Always step P s is)
    (hrun : run step s is = some t) : P t := by
  induction is generalizing s with
  | nil =>
    obtain rfl : s = t := Option.some.inj hrun
    exact h
  | cons i is ih =>
    obtain ⟨s', hs', ht⟩ := run_cons_eq_some.1 hrun
    exact ih (h.2 s' hs') ht

theorem Always.mono {Q : σ → Prop} (hPQ : ∀ s, P s → Q s) {s : σ} {is : List ι}
    (h : Always step P s is) : Always step Q s is := by
  induction is generalizing s with
  | nil => exact hPQ s h
  | cons i is ih => exact ⟨hPQ s h.1, fun s' hs' => ih (h.2 s' hs')⟩

/-- **The invariant rule.**  A property that every good step keeps holds in
every state of a run of good steps. -/
theorem always_of_steps
    (hstep : ∀ s i s', Inv s → Good s i → step s i = some s' → Inv s')
    {s : σ} {is : List ι} (h0 : Inv s) (h : Steps step Good s is) : Always step Inv s is := by
  induction is generalizing s with
  | nil => exact h0
  | cons i is ih => exact ⟨h0, fun s' hs' => ih (hstep s i s' h0 h.1 hs') (h.2 s' hs')⟩

/-- The invariant rule where every step is good. -/
theorem always_invariant (hstep : ∀ s i s', Inv s → step s i = some s' → Inv s')
    {s : σ} {is : List ι} (h0 : Inv s) : Always step Inv s is := by
  induction is generalizing s with
  | nil => exact h0
  | cons i is ih => exact ⟨h0, fun s' hs' => ih (hstep s i s' h0 hs')⟩

/-- Where every good step can be made, a run of good steps goes through. -/
theorem exists_run_of_steps
    (hstep : ∀ s i, Inv s → Good s i → ∃ s', step s i = some s' ∧ Inv s') {s : σ} {is : List ι}
    (hs : Inv s) (h : Steps step Good s is) : ∃ t, run step s is = some t ∧ Inv t := by
  induction is generalizing s with
  | nil => exact ⟨s, rfl, hs⟩
  | cons i is ih =>
    obtain ⟨s', hs', hinv⟩ := hstep s i hs h.1
    obtain ⟨t, hrun, ht⟩ := ih hinv (h.2 s' hs')
    exact ⟨t, run_cons_eq_some.2 ⟨s', hs', hrun⟩, ht⟩

/-- **The simulation rule.**  A map that takes each step of one system to a step of
another takes its runs to runs. -/
theorem run_map {τ : Type*} {step' : τ → ι → Option τ} (f : σ → τ)
    (hinv : ∀ s i s', Inv s → step s i = some s' → Inv s')
    (hmap : ∀ s i s', Inv s → step s i = some s' → step' (f s) i = some (f s'))
    {s t : σ} {is : List ι} (h0 : Inv s) (hrun : run step s is = some t) :
    run step' (f s) is = some (f t) := by
  induction is generalizing s with
  | nil => rw [← Option.some.inj hrun, run]
  | cons i is ih =>
    obtain ⟨s', hs', ht⟩ := run_cons_eq_some.1 hrun
    exact run_cons_eq_some.2 ⟨f s', hmap s i s' h0 hs', ih (hinv s i s' h0 hs') ht⟩

/-- Another condition that the good steps meet, by an invariant. -/
theorem Steps.of_invariant {Good' : σ → ι → Prop}
    (hstep : ∀ s i s', Inv s → Good s i → step s i = some s' → Inv s')
    (hgood : ∀ s i, Inv s → Good s i → Good' s i) {s : σ} {is : List ι} (h0 : Inv s)
    (h : Steps step Good s is) : Steps step Good' s is := by
  induction is generalizing s with
  | nil => trivial
  | cons i is ih =>
    exact ⟨hgood s i h0 h.1, fun s' hs' => ih (hstep s i s' h0 h.1 hs') (h.2 s' hs')⟩

/-- Two conditions that agree wherever an invariant holds. -/
theorem steps_congr {Good' : σ → ι → Prop}
    (hstep : ∀ s i s', Inv s → step s i = some s' → Inv s')
    (hgood : ∀ s i, Inv s → (Good s i ↔ Good' s i)) {s : σ} {is : List ι} (h0 : Inv s) :
    Steps step Good s is ↔ Steps step Good' s is :=
  ⟨Steps.of_invariant (fun s i s' hs _ => hstep s i s' hs) (fun s i hs => (hgood s i hs).1) h0,
    Steps.of_invariant (fun s i s' hs _ => hstep s i s' hs) (fun s i hs => (hgood s i hs).2) h0⟩

/-- **The exact condition.**  `Inv` is kept by the good steps and gives `P`,
and a step that is not good leaves a state without `P`: then a run has `P` in
all its states if and only if all its steps are good.  Steps that cannot occur
must be good, for they leave no state that could tell. -/
theorem always_iff_steps
    (hstep : ∀ s i s', Inv s → Good s i → step s i = some s' → Inv s')
    (hP : ∀ s, Inv s → P s)
    (hbad : ∀ s i, Inv s → ¬ Good s i → ∃ s', step s i = some s' ∧ ¬ P s')
    {s : σ} {is : List ι} (h0 : Inv s) : Always step P s is ↔ Steps step Good s is := by
  refine ⟨fun h => ?_, fun h => (always_of_steps hstep h0 h).mono hP⟩
  induction is generalizing s with
  | nil => trivial
  | cons i is ih =>
    have hgood : Good s i := by
      by_contra hg
      obtain ⟨s', hs', hn⟩ := hbad s i h0 hg
      exact hn (h.2 s' hs').head
    exact ⟨hgood, fun s' hs' => ih (hstep s i s' h0 hgood hs') (h.2 s' hs')⟩

end Transition
