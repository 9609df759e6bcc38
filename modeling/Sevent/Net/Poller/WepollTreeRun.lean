/-
# The tree of wepoll is a map

A run of `tree_add`, `tree_del` and `tree_find` against a map from keys to nodes, as the
port and the handles have it: a key that is there is not added, and a search finds what the
map has.

The tree stays red-black, so that the loops of an operation on `n` nodes end within
`2 * log (n + 1)` rounds (`tree_refines`).
-/

import Mathlib.Data.List.Perm.Basic
import Sevent.Lib.Run
import Sevent.Net.Poller.WepollTreeDel

namespace Sevent
namespace Net
namespace Wepoll
namespace RedBlackTree

open RedBlack TreeHeap Transition

variable {base m : ℕ → TreeNode} {h : TreeHeap} {t l r : RBTree Entry} {red : Bool} {v : Entry}
  {ctx : List (Frame Entry)} {fuel : ℕ}

/-! ### `tree_find` -/

/-- A search that has come to a place in the tree goes on below it: it finds the
node with the key there, or there is none in the whole tree. -/
theorem tree_find_plug {key : ℕ} (hh : Holds base h (plug ctx t))
    (hkey : Toward Entry.key ctx key)
    (hsorted : (plug ctx t).toList.Pairwise (Entry.key · < Entry.key ·)) (hfuel : t.depth ≤ fuel) :
    (∃ v ∈ (plug ctx t).toList, v.key = key ∧ tree_find key fuel h (addr t) = some (some v.node)) ∨
    ((∀ v ∈ (plug ctx t).toList, v.key ≠ key) ∧ tree_find key fuel h (addr t) = some none) := by
  induction fuel generalizing ctx t with
  | zero =>
    cases t with
    | nil => exact .inr ⟨hkey.notMem, rfl⟩
    | node => simp [RBTree.depth] at hfuel
  | succ fuel ih =>
    cases t with
    | nil => exact .inr ⟨hkey.notMem, rfl⟩
    | node red l v r =>
      have hv : h.node v.node = ⟨addr l, addr r, up none ctx, v.key, red⟩ :=
        Holds.node (s := .left) hh
      simp only [RBTree.depth] at hfuel
      simp only [addr, tree_find, hv]
      by_cases hlt : key < v.key
      · rw [if_pos hlt]
        have hleft : Holds base h (plug (⟨.left, red, v, r⟩ :: ctx) l) := hh
        exact ih hleft (hkey.left hsorted hlt) hsorted (by omega)
      · by_cases hgt : v.key < key
        · rw [if_neg hlt, if_pos hgt]
          have hright : Holds base h (plug (⟨.right, red, v, l⟩ :: ctx) r) := hh
          exact ih hright (hkey.right hsorted hgt) hsorted (by omega)
        · rw [if_neg hlt, if_neg hgt]
          refine .inl ⟨v, ?_, by omega, rfl⟩
          simp [toList_plug, RBTree.toList]

/-- **`tree_find`.** -/
theorem tree_find_spec (key : ℕ) (hh : Stores base h t) (hfuel : t.depth ≤ fuel) :
    (∃ v ∈ t.toList, v.key = key ∧ tree_find key fuel h h.root = some (some v.node)) ∨
    ((∀ v ∈ t.toList, v.key ≠ key) ∧ tree_find key fuel h h.root = some none) := by
  have hplug : Holds base h (plug [] t) := hh.toHolds
  rw [hh.root]
  exact tree_find_plug hplug .nil hh.sorted hfuel

/-! ### Runs -/

/-- The operations of the tree. -/
inductive Op
  | add (node key : ℕ)
  | del (node key : ℕ)
  | find (key : ℕ)

/-- What an operation returns. -/
inductive Result
  | added (new : Bool)
  | found (node : Option ℕ)

/-- A tree, and what has been returned. -/
structure System where
  heap : TreeHeap
  results : List Result

namespace System

/-- `tree_init`, in any memory. -/
def init (m : ℕ → TreeNode) : System := ⟨⟨none, m⟩, []⟩

/-- What an operation does to the tree in memory; `none` where a loop comes to
its bound or `NULL` is followed. -/
def step (fuel : ℕ) (s : System) : Op → Option System
  | .add node key =>
    (tree_add fuel s.heap node key).map fun r => ⟨r.1, s.results ++ [.added r.2]⟩
  | .del node _ => (tree_del fuel s.heap node).map fun h => ⟨h, s.results⟩
  | .find key =>
    (tree_find key fuel s.heap s.heap.root).map fun r => ⟨s.heap, s.results ++ [.found r]⟩

end System

/-- The map, and what it returns. -/
structure Map where
  nodes : ℕ → Option ℕ
  results : List Result

namespace Map

/-- No keys. -/
def init : Map := ⟨fun _ => none, []⟩

/-- What an operation does to the map. -/
def step (s : Map) : Op → Option Map
  | .add node key =>
    match s.nodes key with
    | none => some ⟨Function.update s.nodes key (some node), s.results ++ [.added true]⟩
    | some _ => some { s with results := s.results ++ [.added false] }
  | .del _ key => some { s with nodes := Function.update s.nodes key none }
  | .find key => some { s with results := s.results ++ [.found (s.nodes key)] }

/-- A node is added that is not there, and deleted where it is. -/
def Legal (s : Map) : Op → Prop
  | .add node _ => ∀ key, s.nodes key ≠ some node
  | .del node key => s.nodes key = some node
  | .find _ => True

end Map

/-- The tree has the nodes of the map, and the map has those of the tree. -/
structure Refines (base : ℕ → TreeNode) (s : System) (t : RBTree Entry) (a : Map) : Prop where
  stores : Stores base s.heap t
  mem : ∀ v, v ∈ t.toList ↔ a.nodes v.key = some v.node
  results : s.results = a.results

/-- The addresses of a tree are those of its entries. -/
theorem mem_nodes_iff {x : ℕ} : x ∈ nodes t ↔ ∃ v ∈ t.toList, v.node = x := List.mem_map

variable {s : System} {a : Map}

/-- A key of no entry is not in the map. -/
theorem Refines.nodes_eq_none {key : ℕ} (hr : Refines base s t a)
    (habsent : ∀ v ∈ t.toList, v.key ≠ key) : a.nodes key = none := by
  cases ha : a.nodes key with
  | none => rfl
  | some x => exact absurd rfl (habsent ⟨x, key⟩ ((hr.mem ⟨x, key⟩).2 ha))

/-- What a step does, and what it leaves. -/
structure StepRefines (fuel : ℕ) (op : Op) (s : System) (t : RBTree Entry) (a : Map)
    (base' : ℕ → TreeNode) (s' : System) (t' : RBTree Entry) (a' : Map) : Prop where
  run : s.step fuel op = some s'
  map : a.step op = some a'
  refines : Refines base' s' t' a'
  length : t'.toList.length ≤ t.toList.length + 1
  outside : ∀ x ∉ nodes t, (∀ key, op ≠ .add x key) →
    x ∉ nodes t' ∧ s'.heap.node x = s.heap.node x

/-- An addition of a node that is not in the tree refines that of the map,
whether the key is there or not. -/
theorem Refines.add {node key : ℕ} (hr : Refines base s t a)
    (hlegal : ∀ key, a.nodes key ≠ some node) (hdepth : t.depth < fuel) :
    ∃ s' t' a', StepRefines fuel (.add node key) s t a base s' t' a' := by
  have hnew : node ∉ nodes t := by
    intro hmem
    obtain ⟨v, hv, rfl⟩ := mem_nodes_iff.1 hmem
    exact hlegal v.key ((hr.mem v).1 hv)
  rcases tree_add_spec key hr.stores hnew hdepth.le with
    ⟨hrun, v, hv, rfl⟩ | ⟨h', t', hrun, habsent, hstores, hperm⟩
  · have ha := (hr.mem v).1 hv
    refine ⟨⟨s.heap, s.results ++ [.added false]⟩, t, ⟨a.nodes, a.results ++ [.added false]⟩,
      by simp [System.step, hrun], by simp [Map.step, ha], ⟨hr.stores, hr.mem, ?_⟩,
      Nat.le_succ _, fun x hx _ => ⟨hx, rfl⟩⟩
    rw [hr.results]
  · have ha := hr.nodes_eq_none habsent
    refine ⟨⟨h', s.results ++ [.added true]⟩, t',
      ⟨Function.update a.nodes key (some node), a.results ++ [.added true]⟩,
      by simp [System.step, hrun], by simp [Map.step, ha], ⟨hstores, fun v => ?_, ?_⟩, ?_,
      fun x hx hop => ?_⟩
    · rw [hperm.mem_iff, List.mem_cons, hr.mem]
      by_cases hkey : v.key = key
      · subst hkey
        simp only [Function.update_self, ha, reduceCtorEq, or_false, Option.some.injEq]
        exact ⟨fun hv => by rw [hv], fun hv => by cases v; cases hv; rfl⟩
      · simp only [Function.update_of_ne hkey]
        exact ⟨fun hv => hv.elim (fun hv => absurd (congrArg Entry.key hv) hkey) id, .inr⟩
    · rw [hr.results]
    · rw [hperm.length_eq, List.length_cons]
    · have hxn : x ≠ node := fun heq => hop key (heq ▸ rfl)
      have hx' : x ∉ nodes t' := by
        intro hmem
        rw [nodes, (hperm.map Entry.node).mem_iff, List.map_cons, List.mem_cons] at hmem
        exact hmem.elim hxn hx
      exact ⟨hx', (hstores.outside x hx').trans (hr.stores.outside x hx).symm⟩

/-- A deletion of a node that is in the tree under its key refines that of the
map. -/
theorem Refines.del {node key : ℕ} (hr : Refines base s t a) (hlegal : a.nodes key = some node)
    (hdepth : t.depth < fuel) :
    ∃ base' s' t' a', StepRefines fuel (.del node key) s t a base' s' t' a' := by
  have hv : ⟨node, key⟩ ∈ t.toList := (hr.mem ⟨node, key⟩).2 hlegal
  obtain ⟨h', t', hrun, hstores, xs, ys, hxs, hys⟩ := tree_del_spec hr.stores hv hdepth
  have hsorted := hr.stores.sorted
  rw [hxs] at hsorted
  obtain ⟨-, hafter, hbefore⟩ := List.pairwise_append.1 hsorted
  have hne : ∀ w ∈ t'.toList, w.key ≠ key := by
    intro w hw
    rcases List.mem_append.1 (hys ▸ hw) with hw | hw
    · exact (hbefore w hw _ List.mem_cons_self).ne
    · exact (List.rel_of_pairwise_cons hafter hw).ne'
  have hmem : ∀ w, w ∈ t.toList ↔ w = ⟨node, key⟩ ∨ w ∈ t'.toList := by
    intro w
    rw [hxs, hys, List.mem_append, List.mem_cons, List.mem_append]
    exact or_left_comm
  refine ⟨_, ⟨h', s.results⟩, t', ⟨Function.update a.nodes key none, a.results⟩,
    by simp [System.step, hrun], rfl, ⟨hstores, fun w => ?_, hr.results⟩, ?_, fun x hx _ => ?_⟩
  · by_cases hkey : w.key = key
    · simp only [hkey, Function.update_self]
      exact ⟨fun hw => absurd hkey (hne w hw), fun hw => by cases hw⟩
    · simp only [Function.update_of_ne hkey]
      rw [← hr.mem, hmem]
      exact ⟨.inr, fun hw => hw.resolve_left fun heq => hkey (congrArg Entry.key heq)⟩
  · rw [hxs, hys, List.length_append, List.length_append, List.length_cons]
    omega
  · have hx' : x ∉ nodes t' := fun hmem' => by
      obtain ⟨w, hw, rfl⟩ := mem_nodes_iff.1 hmem'
      exact hx (mem_nodes_iff.2 ⟨w, (hmem w).2 (.inr hw), rfl⟩)
    have hxn : x ≠ node := by
      rintro rfl
      exact hx (mem_nodes_iff.2 ⟨_, hv, rfl⟩)
    refine ⟨hx', (hstores.outside x hx').trans ?_⟩
    rw [Function.update_of_ne hxn, hr.stores.outside x hx]

/-- A search for any key finds in the tree what the map has. -/
theorem Refines.tree_find_eq (hr : Refines base s t a) (hdepth : t.depth ≤ fuel) (key : ℕ) :
    tree_find key fuel s.heap s.heap.root = some (a.nodes key) := by
  rcases tree_find_spec key hr.stores hdepth with ⟨v, hv, rfl, hrun⟩ | ⟨habsent, hrun⟩
  · rw [hrun, (hr.mem v).1 hv]
  · rw [hrun, hr.nodes_eq_none habsent]

/-- A search refines that of the map and changes nothing. -/
theorem Refines.find {key : ℕ} (hr : Refines base s t a) (hdepth : t.depth < fuel) :
    ∃ s' a', StepRefines fuel (.find key) s t a base s' t a' := by
  have hfind := hr.tree_find_eq hdepth.le key
  refine ⟨⟨s.heap, s.results ++ [.found (a.nodes key)]⟩,
    ⟨a.nodes, a.results ++ [.found (a.nodes key)]⟩, by simp [System.step, hfind], rfl,
    ⟨hr.stores, hr.mem, ?_⟩, Nat.le_succ _, fun x hx _ => ⟨hx, rfl⟩⟩
  rw [hr.results]

/-- **One operation.** -/
theorem Refines.step {op : Op} (hr : Refines base s t a) (hlegal : a.Legal op)
    (hdepth : t.depth < fuel) :
    ∃ base' s' t' a', StepRefines fuel op s t a base' s' t' a' := by
  cases op with
  | add node key =>
    obtain ⟨s', t', a', hstep⟩ := hr.add hlegal hdepth
    exact ⟨base, s', t', a', hstep⟩
  | del node key => exact hr.del hlegal hdepth
  | find key =>
    obtain ⟨s', a', hstep⟩ := hr.find hdepth
    exact ⟨base, s', t, a', hstep⟩

/-- An empty tree, in any memory, refines the empty map. -/
theorem refines_init (m : ℕ → TreeNode) : Refines m (.init m) .nil .init :=
  ⟨⟨⟨rfl, trivial, List.nodup_nil, fun _ _ => rfl⟩, ⟨rfl, 0, .nil⟩, List.Pairwise.nil⟩,
    fun v => ⟨fun hv => absurd hv List.not_mem_nil, fun hv => by cases hv⟩, rfl⟩

/-- **A run.**  The tree has no more nodes than there have been operations, and is not deep. -/
theorem Refines.run {ops : List Op} (hr : Refines base s t a)
    (hops : Steps Map.step Map.Legal a ops)
    (hfuel : 2 * Nat.log 2 (t.toList.length + ops.length + 1) < fuel) :
    ∃ base' s' t' a', Transition.run (System.step fuel) s ops = some s' ∧
      Transition.run Map.step a ops = some a' ∧ Refines base' s' t' a' ∧
      t'.toList.length ≤ t.toList.length + ops.length ∧
      ∀ x ∉ nodes t, (∀ key, .add x key ∉ ops) → s'.heap.node x = s.heap.node x := by
  induction ops generalizing base s t a with
  | nil => exact ⟨base, s, t, a, rfl, rfl, hr, le_rfl, fun _ _ _ => rfl⟩
  | cons op ops ih =>
    have hdepth : t.depth < fuel := by
      have hlog : Nat.log 2 (t.toList.length + 1) ≤
          Nat.log 2 (t.toList.length + (op :: ops).length + 1) :=
        Nat.log_mono_right (by omega)
      have := hr.stores.redBlack.depth_le
      omega
    obtain ⟨base₁, s₁, t₁, a₁, hstep⟩ := hr.step hops.1 hdepth
    have hfuel₁ : 2 * Nat.log 2 (t₁.toList.length + ops.length + 1) < fuel := by
      have hlog : Nat.log 2 (t₁.toList.length + ops.length + 1) ≤
          Nat.log 2 (t.toList.length + (op :: ops).length + 1) := by
        refine Nat.log_mono_right ?_
        have := hstep.length
        rw [List.length_cons]
        omega
      omega
    obtain ⟨base', s', t', a', hrun, hmap, hr', hlength, hout⟩ :=
      ih hstep.refines (hops.2 a₁ hstep.map) hfuel₁
    refine ⟨base', s', t', a', run_cons_eq_some.2 ⟨s₁, hstep.run, hrun⟩,
      run_cons_eq_some.2 ⟨a₁, hstep.map, hmap⟩, hr', ?_, fun x hx hadd => ?_⟩
    · have := hstep.length
      rw [List.length_cons]
      omega
    obtain ⟨hx₁, hsame⟩ := hstep.outside x hx fun key heq =>
      hadd key (heq ▸ List.mem_cons_self)
    exact (hout x hx₁ fun key hmem => hadd key (List.mem_cons_of_mem op hmem)).trans hsame

/-- **The tree of wepoll is a map.**  Over any run of additions of nodes that are not in the
tree, deletions of nodes that are, and searches, `NULL` is never followed, each loop ends
within twice the logarithm of the number of operations, what is returned is what the map
returns, the tree stays a red-black tree of the nodes of the map, and memory of other
nodes is left alone. -/
theorem tree_refines (m : ℕ → TreeNode) {ops : List Op}
    (hops : Steps Map.step Map.Legal .init ops) (hfuel : 2 * Nat.log 2 (ops.length + 1) < fuel) :
    ∃ s a, Transition.run (System.step fuel) (.init m) ops = some s ∧
      Transition.run Map.step .init ops = some a ∧ s.results = a.results ∧
      (∃ base t, Stores base s.heap t ∧ ∀ v, v ∈ t.toList ↔ a.nodes v.key = some v.node) ∧
      ∀ x, (∀ key, .add x key ∉ ops) → s.heap.node x = m x := by
  have hfuel₀ :
      2 * Nat.log 2 ((RBTree.nil : RBTree Entry).toList.length + ops.length + 1) < fuel := by
    rwa [RBTree.toList, List.length_nil, Nat.zero_add]
  obtain ⟨base, s, t, a, hrun, hmap, hr, -, hout⟩ := (refines_init m).run hops hfuel₀
  exact ⟨s, a, hrun, hmap, hr.results, ⟨base, t, hr.stores, hr.mem⟩,
    fun x hx => hout x List.not_mem_nil hx⟩

/-- Four nodes are added, which takes a rotation and a change of colours, one is found, and
two are deleted, the first of them with a rotation. -/
def someOps : List Op :=
  [.add 0 7, .add 1 8, .add 2 9, .add 3 10, .find 10, .del 0 7, .del 1 8]

/-- A run over enough nodes for rotations, with deletions among the additions:
the results are those of the map. -/
theorem tree_refines_one : ∃ s a,
    Transition.run (System.step 7) (.init fun _ => ⟨none, none, none, 0, false⟩) someOps = some s ∧
      Transition.run Map.step .init someOps = some a ∧ s.results = a.results := by
  have hops : Steps Map.step Map.Legal .init someOps := by
    refine .cons (fun key => nofun) rfl (.cons (fun key => ?_) rfl (.cons (fun key => ?_) rfl
      (.cons (fun key => ?_) rfl (.cons trivial rfl (.cons rfl rfl (.cons rfl rfl trivial))))))
    all_goals
      simp only [Map.init, Function.update_apply]
      split_ifs <;> simp
  have hlog : Nat.log 2 8 < 4 := Nat.log_lt_of_lt_pow (by decide) (by decide)
  have hfuel : 2 * Nat.log 2 (someOps.length + 1) < 7 := by
    change 2 * Nat.log 2 8 < 7
    omega
  obtain ⟨s, a, hrun, hmap, hresults, -⟩ :=
    tree_refines (fun _ => ⟨none, none, none, 0, false⟩) hops hfuel
  exact ⟨s, a, hrun, hmap, hresults⟩

end RedBlackTree
end Wepoll
end Net
end Sevent
