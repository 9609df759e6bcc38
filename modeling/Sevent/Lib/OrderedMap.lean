/-
# Maps that are iterated in the order of their keys

A `std::map` whose comparator compares `fold k`: the entries stand in a list in
the strict order of their folded keys, so that there is one entry at most for
each.  `set` is `m[k] = v`; it keeps the spelling of a key that is there.  `touch`
is `m[k]` evaluated without an assignment, which inserts the default value under
a key that is not there.

A map is determined by its lookups (`OrderedMap.ext_find`), and the lookups after
`set` and `touch` are `find_set` and `find_touch`.
-/

import Mathlib.Order.Lattice
import Mathlib.Data.List.Basic

variable {κ K V : Type*} [LinearOrder κ]

/-- The entries in the order of their folded keys. -/
structure OrderedMap (fold : K → κ) (V : Type*) where
  entries : List (K × V)
  sorted : entries.Pairwise fun a b => fold a.1 < fold b.1

namespace OrderedMap

/-- The entries after `m[k] = v`. -/
def setEntries (fold : K → κ) (k : K) (v : V) : List (K × V) → List (K × V)
  | [] => [(k, v)]
  | e :: es =>
    if fold k < fold e.1 then (k, v) :: e :: es
    else if fold e.1 < fold k then e :: setEntries fold k v es
    else (e.1, v) :: es

/-- The entry with a folded key. -/
def findEntry (fold : K → κ) (es : List (K × V)) (x : κ) : Option (K × V) :=
  es.find? fun e => fold e.1 = x

variable {fold : K → κ} {k : K} {v : V} {e : K × V} {es es' : List (K × V)} {x : κ}

/-! ### The entries -/

theorem fold_of_mem_setEntries (h : e ∈ setEntries fold k v es) :
    fold e.1 = fold k ∨ ∃ f ∈ es, fold e.1 = fold f.1 := by
  induction es with
  | nil =>
    rw [List.mem_singleton.1 h]
    exact .inl rfl
  | cons f es ih =>
    unfold setEntries at h
    split at h
    case isTrue =>
      rcases List.mem_cons.1 h with rfl | h
      · exact .inl rfl
      · exact .inr ⟨e, h, rfl⟩
    case isFalse =>
      split at h
      case isTrue =>
        rcases List.mem_cons.1 h with rfl | h
        · exact .inr ⟨e, List.mem_cons_self, rfl⟩
        · exact (ih h).imp_right fun ⟨g, hg, hfold⟩ => ⟨g, List.mem_cons_of_mem _ hg, hfold⟩
      case isFalse =>
        rcases List.mem_cons.1 h with rfl | h
        · exact .inr ⟨f, List.mem_cons_self, rfl⟩
        · exact .inr ⟨e, List.mem_cons_of_mem _ h, rfl⟩

/-- What holds of every key and every value goes on to hold. -/
theorem forall_setEntries {P : K → Prop} {Q : V → Prop} (h : ∀ e ∈ es, P e.1 ∧ Q e.2) (hk : P k)
    (hv : Q v) : ∀ e ∈ setEntries fold k v es, P e.1 ∧ Q e.2 := by
  induction es with
  | nil =>
    intro e he
    obtain rfl := List.mem_singleton.1 he
    exact ⟨hk, hv⟩
  | cons f es ih =>
    obtain ⟨hf, hes⟩ := List.forall_mem_cons.1 h
    unfold setEntries
    split
    case isTrue => exact List.forall_mem_cons.2 ⟨⟨hk, hv⟩, h⟩
    case isFalse =>
      split
      case isTrue => exact List.forall_mem_cons.2 ⟨hf, ih hes⟩
      case isFalse => exact List.forall_mem_cons.2 ⟨⟨hf.1, hv⟩, hes⟩

/-- Setting a key keeps the order. -/
theorem sorted_setEntries (h : es.Pairwise fun a b => fold a.1 < fold b.1) :
    (setEntries fold k v es).Pairwise fun a b => fold a.1 < fold b.1 := by
  induction es with
  | nil => exact List.pairwise_singleton _ _
  | cons e es ih =>
    obtain ⟨hhead, htail⟩ := List.pairwise_cons.1 h
    unfold setEntries
    split
    case isTrue hlt =>
      refine List.pairwise_cons.2 ⟨fun f hf => ?_, h⟩
      rcases List.mem_cons.1 hf with rfl | hf
      · exact hlt
      · exact hlt.trans (hhead f hf)
    case isFalse =>
      split
      case isTrue hlt =>
        refine List.pairwise_cons.2 ⟨fun f hf => ?_, ih htail⟩
        rcases fold_of_mem_setEntries hf with hk | ⟨g, hg, hfold⟩
        · rw [hk]
          exact hlt
        · rw [hfold]
          exact hhead g hg
      case isFalse => exact List.pairwise_cons.2 ⟨hhead, htail⟩

theorem findEntry_eq_none (h : ∀ e ∈ es, fold e.1 ≠ x) : findEntry fold es x = none :=
  List.find?_eq_none.2 fun e he => by simpa using h e he

theorem findEntry_some (h : findEntry fold es x = some e) : e ∈ es ∧ fold e.1 = x :=
  ⟨List.mem_of_find?_eq_some h, by simpa using List.find?_some h⟩

theorem findEntry_cons (e : K × V) (es : List (K × V)) (x : κ) :
    findEntry fold (e :: es) x = if fold e.1 = x then some e else findEntry fold es x := by
  unfold findEntry
  rw [List.find?_cons]
  by_cases h : fold e.1 = x <;> simp [h]

/-- An entry is found under its key. -/
theorem findEntry_of_mem (hs : es.Pairwise fun a b => fold a.1 < fold b.1) (he : e ∈ es) :
    findEntry fold es (fold e.1) = some e := by
  induction es with
  | nil => cases he
  | cons f es ih =>
    obtain ⟨hhead, htail⟩ := List.pairwise_cons.1 hs
    rw [findEntry_cons]
    rcases List.mem_cons.1 he with rfl | he
    · rw [if_pos rfl]
    · rw [if_neg (hhead e he).ne, ih htail he]

/-- **What is found after a key has been set.** -/
theorem findEntry_setEntries (hs : es.Pairwise fun a b => fold a.1 < fold b.1) (k : K) (v : V)
    (x : κ) : findEntry fold (setEntries fold k v es) x =
      if fold k = x then some (((findEntry fold es x).map Prod.fst).getD k, v)
      else findEntry fold es x := by
  induction es with
  | nil =>
    rw [setEntries, findEntry_cons]
    rfl
  | cons e es ih =>
    obtain ⟨hhead, htail⟩ := List.pairwise_cons.1 hs
    unfold setEntries
    split
    case isTrue hlt =>
      rw [findEntry_cons]
      split
      case isTrue hx =>
        have hnone : findEntry fold (e :: es) x = none := by
          refine findEntry_eq_none fun f hf heq => ?_
          rcases List.mem_cons.1 hf with rfl | hf
          · exact hlt.ne (hx.trans heq.symm)
          · exact (hlt.trans (hhead f hf)).ne (hx.trans heq.symm)
        rw [hnone]
        rfl
      case isFalse => rfl
    case isFalse hge =>
      split
      case isTrue hlt =>
        rw [findEntry_cons, findEntry_cons, ih htail]
        by_cases hx : fold e.1 = x
        · rw [if_pos hx, if_pos hx, if_neg fun hk => hlt.ne (hx.trans hk.symm)]
        · rw [if_neg hx, if_neg hx]
      case isFalse hle =>
        have heq : fold k = fold e.1 := le_antisymm (not_lt.1 hle) (not_lt.1 hge)
        rw [findEntry_cons, findEntry_cons, heq]
        by_cases hx : fold e.1 = x
        · rw [if_pos hx, if_pos hx, if_pos hx]
          rfl
        · rw [if_neg hx, if_neg hx, if_neg hx]

/-- **Sorted entries are determined by what is found in them.** -/
theorem entries_ext (hs : es.Pairwise fun a b => fold a.1 < fold b.1)
    (hs' : es'.Pairwise fun a b => fold a.1 < fold b.1)
    (h : ∀ x, findEntry fold es x = findEntry fold es' x) : es = es' := by
  induction es generalizing es' with
  | nil =>
    cases es' with
    | nil => rfl
    | cons e es' =>
      have hx := h (fold e.1)
      rw [findEntry_of_mem hs' List.mem_cons_self] at hx
      cases hx
  | cons e es ih =>
    cases es' with
    | nil =>
      have hx := h (fold e.1)
      rw [findEntry_of_mem hs List.mem_cons_self] at hx
      cases hx
    | cons f es' =>
      obtain ⟨hhead, htail⟩ := List.pairwise_cons.1 hs
      obtain ⟨hhead', htail'⟩ := List.pairwise_cons.1 hs'
      have hmem : e ∈ f :: es' := by
        have hx := h (fold e.1)
        rw [findEntry_of_mem hs List.mem_cons_self] at hx
        exact (findEntry_some hx.symm).1
      have hmem' : f ∈ e :: es := by
        have hx := h (fold f.1)
        rw [findEntry_of_mem hs' List.mem_cons_self] at hx
        exact (findEntry_some hx).1
      -- each of the two first entries would come before the other
      have hef : e = f := by
        rcases List.mem_cons.1 hmem with hef | hin
        · exact hef
        · rcases List.mem_cons.1 hmem' with hfe | hin'
          · exact hfe.symm
          · exact absurd (hhead f hin') (hhead' e hin).asymm
      subst hef
      have hnone : findEntry fold es (fold e.1) = none :=
        findEntry_eq_none fun g hg => (hhead g hg).ne'
      have hnone' : findEntry fold es' (fold e.1) = none :=
        findEntry_eq_none fun g hg => (hhead' g hg).ne'
      refine congrArg (e :: ·) (ih htail htail' fun x => ?_)
      have hx := h x
      rw [findEntry_cons, findEntry_cons] at hx
      split at hx
      case isTrue heq => rw [← heq, hnone, hnone']
      case isFalse => exact hx

/-! ### The map -/

def empty : OrderedMap fold V := ⟨[], List.Pairwise.nil⟩

/-- `m[k] = v`. -/
def set (m : OrderedMap fold V) (k : K) (v : V) : OrderedMap fold V :=
  ⟨setEntries fold k v m.entries, sorted_setEntries m.sorted⟩

/-- The entry with a folded key. -/
def find (m : OrderedMap fold V) (x : κ) : Option (K × V) := findEntry fold m.entries x

/-- The value that `m[k]` refers to, `d` being that of a new entry. -/
def lookup (m : OrderedMap fold V) (d : V) (k : K) : V := ((m.find (fold k)).map Prod.snd).getD d

/-- The map after an evaluation of `m[k]`. -/
def touch (m : OrderedMap fold V) (d : V) (k : K) : OrderedMap fold V :=
  if (m.find (fold k)).isSome then m else m.set k d

variable {m n : OrderedMap fold V}

theorem find_set (m : OrderedMap fold V) (k : K) (v : V) (x : κ) : (m.set k v).find x =
    if fold k = x then some (((m.find x).map Prod.fst).getD k, v) else m.find x :=
  findEntry_setEntries m.sorted k v x

theorem find_touch (m : OrderedMap fold V) (d : V) (k : K) (x : κ) : (m.touch d k).find x =
    if fold k = x ∧ m.find x = none then some (k, d) else m.find x := by
  unfold touch
  split
  case isTrue hsome =>
    rw [if_neg fun h => ?_]
    rw [← h.1] at h
    rw [h.2] at hsome
    cases hsome
  case isFalse hnone =>
    have hnone : m.find (fold k) = none := Option.not_isSome_iff_eq_none.1 hnone
    rw [find_set]
    by_cases hx : fold k = x
    · rw [if_pos hx, if_pos ⟨hx, hx ▸ hnone⟩, ← hx, hnone]
      rfl
    · rw [if_neg hx, if_neg fun h => hx h.1]

theorem ext_find (h : ∀ x, m.find x = n.find x) : m = n := by
  have hentries : m.entries = n.entries := entries_ext m.sorted n.sorted h
  cases m
  cases n
  cases hentries
  rfl

end OrderedMap
