/-
# Maps whose keys are compared up to a fold

A map from keys to values in which two keys are the same when `fold` maps them
to the same value, as a `std::map` with a case-insensitive order.  Setting the
value of a key that is there keeps the spelling that came first.

`setAll m kvs` sets the keys of a list in order.  What a map held before matters
only through its keys: `setAll_eq_iff` says that `setAll m kvs` and
`setAll empty kvs` are the same map exactly when every key of `m`, with its
spelling, is a key of the latter, and `Sub.setAll_of_prefix` says that setting
an initial part of the keys, with whatever values, adds no other ones.  Where no
two keys of the list are the same, what is set is what is found
(`setAll_apply_of_mem`).
-/

import Mathlib.Data.Option.Basic
import Mathlib.Data.List.Induction

/-- From folded keys to the spelling of the key and its value. -/
def KeyMap (κ K V : Type*) := κ → Option (K × V)

namespace KeyMap

variable {κ K V : Type*} [DecidableEq κ] {fold : K → κ}

def empty : KeyMap κ K V := fun _ => none

/-- `m[k] = v`. -/
def set (fold : K → κ) (m : KeyMap κ K V) (k : K) (v : V) : KeyMap κ K V := fun x =>
  if x = fold k then some (((m x).map Prod.fst).getD k, v) else m x

/-- `m[k] = v` for every pair in order. -/
def setAll (fold : K → κ) (m : KeyMap κ K V) (kvs : List (K × V)) : KeyMap κ K V :=
  kvs.foldl (fun m kv => m.set fold kv.1 kv.2) m

/-- The value under a key, `d` where there is none. -/
def lookup (fold : K → κ) (m : KeyMap κ K V) (d : V) (k : K) : V :=
  ((m (fold k)).map Prod.snd).getD d

/-- The map after an evaluation of `m[k]`, which sets a key that is not there. -/
def touch (fold : K → κ) (m : KeyMap κ K V) (d : V) (k : K) : KeyMap κ K V :=
  m.set fold k (m.lookup fold d k)

/-- Every key of the first map is a key of the second, spelled in the same way. -/
def Sub (m n : KeyMap κ K V) : Prop := ∀ x e, m x = some e → ∃ v, n x = some (e.1, v)

/-- An entry over another one: the spelling of the old, the value of the new. -/
def merge : Option (K × V) → Option (K × V) → Option (K × V)
  | none, new => new
  | old, none => old
  | some old, some new => some (old.1, new.2)

variable {m n : KeyMap κ K V} {kvs kvs' : List (K × V)}

omit [DecidableEq κ] in
theorem sub_empty : (empty : KeyMap κ K V).Sub n := fun _ _ h => (by cases h)

theorem setAll_append (m : KeyMap κ K V) (a b : List (K × V)) :
    m.setAll fold (a ++ b) = (m.setAll fold a).setAll fold b := List.foldl_append

theorem setAll_cons (m : KeyMap κ K V) (kv : K × V) (kvs : List (K × V)) :
    m.setAll fold (kv :: kvs) = (m.set fold kv.1 kv.2).setAll fold kvs := rfl

theorem setAll_concat (m : KeyMap κ K V) (kvs : List (K × V)) (kv : K × V) :
    m.setAll fold (kvs ++ [kv]) = (m.setAll fold kvs).set fold kv.1 kv.2 := setAll_append ..

theorem set_apply (m : KeyMap κ K V) (k : K) (v : V) (x : κ) : m.set fold k v x =
    if x = fold k then some (((m x).map Prod.fst).getD k, v) else m x := rfl

/-- **Evaluating `m[k]` changes no value.** -/
theorem lookup_touch (m : KeyMap κ K V) (d : V) (k k' : K) :
    (m.touch fold d k).lookup fold d k' = m.lookup fold d k' := by
  unfold lookup touch
  rw [set_apply]
  split
  case isTrue h =>
    rw [h]
    rfl
  case isFalse => rfl

/-- Where nothing is set. -/
theorem setAll_apply_of_ne {x : κ} (h : ∀ kv ∈ kvs, fold kv.1 ≠ x) : m.setAll fold kvs x = m x := by
  induction kvs generalizing m with
  | nil => rfl
  | cons kv kvs ih =>
    rw [setAll_cons, ih fun e he => h e (List.mem_cons_of_mem _ he), set_apply,
      if_neg fun hx => h kv List.mem_cons_self hx.symm]

/-- **Different new keys: each is found with its spelling and its value.** -/
theorem setAll_apply_of_mem (hnodup : (kvs.map fun kv => fold kv.1).Nodup)
    (hnew : ∀ kv ∈ kvs, m (fold kv.1) = none) {kv : K × V} (hkv : kv ∈ kvs) :
    m.setAll fold kvs (fold kv.1) = some kv := by
  induction kvs generalizing m with
  | nil => cases hkv
  | cons e kvs ih =>
    obtain ⟨hhead, htail⟩ := List.nodup_cons.1 hnodup
    have hne : ∀ f ∈ kvs, fold f.1 ≠ fold e.1 := fun f hf hfe =>
      hhead (List.mem_map.2 ⟨f, hf, hfe⟩)
    rw [setAll_cons]
    rcases List.mem_cons.1 hkv with rfl | hmem
    · rw [setAll_apply_of_ne hne, set_apply, if_pos rfl, hnew kv List.mem_cons_self]
      rfl
    · refine ih htail (fun f hf => ?_) hmem
      rw [set_apply, if_neg (hne f hf), hnew f (List.mem_cons_of_mem _ hf)]

/-- **What was in the map before stays under what is set.** -/
theorem setAll_apply (m : KeyMap κ K V) (kvs : List (K × V)) (x : κ) :
    m.setAll fold kvs x = merge (m x) ((empty : KeyMap κ K V).setAll fold kvs x) := by
  induction kvs using List.reverseRecOn with
  | nil => cases h : m x <;> simp [setAll, empty, merge, h]
  | append_singleton kvs kv ih =>
    rw [setAll_concat, setAll_concat, set_apply, set_apply]
    split
    · rw [ih]
      cases m x <;> cases (empty : KeyMap κ K V).setAll fold kvs x <;> rfl
    · exact ih

/-- **When what was there before does not show.** -/
theorem setAll_eq_iff : m.setAll fold kvs = (empty : KeyMap κ K V).setAll fold kvs ↔
    m.Sub ((empty : KeyMap κ K V).setAll fold kvs) := by
  have hpoint : ∀ a b : Option (K × V), merge a b = b ↔
      ∀ e, a = some e → ∃ v, b = some (e.1, v) := by
    rintro (_ | a) (_ | b)
    · simp [merge]
    · simp [merge]
    · simp [merge]
    · constructor
      · intro h e he
        rw [← Option.some.inj he]
        exact ⟨b.2, h.symm⟩
      · intro h
        obtain ⟨v, hv⟩ := h a rfl
        rw [Option.some.inj hv]
        rfl
  constructor
  · intro h x e he
    refine (hpoint _ _).1 ?_ e he
    rw [← setAll_apply, h]
  · intro h
    funext x
    rw [setAll_apply]
    exact (hpoint _ _).2 (h x)

/-- The keys do not depend on the values. -/
theorem spelling_setAll (h : kvs.map Prod.fst = kvs'.map Prod.fst) (x : κ)
    (hm : (m x).map Prod.fst = (n x).map Prod.fst) :
    (m.setAll fold kvs x).map Prod.fst = (n.setAll fold kvs' x).map Prod.fst := by
  induction kvs generalizing kvs' m n with
  | nil =>
    obtain rfl : kvs' = [] := by simpa using h
    exact hm
  | cons kv kvs ih =>
    cases kvs' with
    | nil => simp at h
    | cons kv' kvs₁ =>
      rw [List.map_cons, List.map_cons, List.cons.injEq] at h
      rw [setAll_cons, setAll_cons]
      refine ih h.2 ?_
      rw [set_apply, set_apply, h.1]
      split
      · simp [hm]
      · exact hm

omit [DecidableEq κ] in
theorem Sub.of_spelling (h : ∀ x, (m x).map Prod.fst = (n x).map Prod.fst) : m.Sub n := by
  intro x e he
  have hx := h x
  rw [he] at hx
  cases hn : n x with
  | none =>
    rw [hn] at hx
    cases hx
  | some f =>
    rw [hn] at hx
    have hspelling : e.1 = f.1 := Option.some.inj hx
    exact ⟨f.2, by rw [hspelling]⟩

omit [DecidableEq κ] in
theorem Sub.trans {l : KeyMap κ K V} (h : l.Sub m) (h' : m.Sub n) : l.Sub n := by
  intro x e he
  obtain ⟨v, hv⟩ := h x e he
  exact h' x (e.1, v) hv

/-- Setting keys takes none away. -/
theorem sub_setAll : m.Sub (m.setAll fold kvs) := by
  intro x e he
  rw [setAll_apply, he]
  cases (empty : KeyMap κ K V).setAll fold kvs x with
  | none => exact ⟨e.2, rfl⟩
  | some f => exact ⟨f.2, rfl⟩

/-- **Setting the first of the keys adds no other ones.** -/
theorem Sub.setAll_of_prefix (h : m.Sub ((empty : KeyMap κ K V).setAll fold kvs))
    (hkeys : kvs'.map Prod.fst <+: kvs.map Prod.fst) :
    (m.setAll fold kvs').Sub ((empty : KeyMap κ K V).setAll fold kvs) := by
  obtain ⟨rest, hrest⟩ := hkeys
  have hfirst : ((empty : KeyMap κ K V).setAll fold kvs').Sub
      ((empty : KeyMap κ K V).setAll fold kvs) := by
    obtain ⟨a, b, rfl, ha, -⟩ := List.append_eq_map_iff.1 hrest
    rw [setAll_append]
    exact (Sub.of_spelling fun x => spelling_setAll ha.symm x rfl).trans sub_setAll
  intro x e he
  rw [setAll_apply] at he
  cases hm : m x with
  | none =>
    rw [hm] at he
    exact hfirst x e he
  | some f =>
    obtain ⟨v, hv⟩ := h x f hm
    have hspelling : e.1 = f.1 := by
      rw [hm] at he
      cases hk : (empty : KeyMap κ K V).setAll fold kvs' x with
      | none =>
        rw [hk] at he
        rw [← Option.some.inj he]
      | some g =>
        rw [hk] at he
        rw [← Option.some.inj he]
    exact ⟨v, by rw [hv, hspelling]⟩

end KeyMap
