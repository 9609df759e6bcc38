/-
# What is in the memory of a tree

`Holds base h t` says that the nodes in memory are the red-black tree `t` with its parents,
and that the memory is as in `base` elsewhere.  A rotation and a change of colour keep it,
wherever in the tree they are (`Holds.rotate`, `Holds.setRed`).
-/

import Mathlib.Data.List.Nodup
import Sevent.Net.Poller.WepollTree

namespace Sevent
namespace Net
namespace Wepoll
namespace RedBlackTree

open RedBlack TreeHeap

/-- A node in the memory and its key. -/
structure Entry where
  node : ℕ
  key : ℕ
  deriving DecidableEq

variable {base m m' : ℕ → TreeNode} {h h' : TreeHeap} {t a b c : RBTree Entry} {s : Side}
  {red red' : Bool} {v w : Entry} {parent : Option ℕ} {f : Frame Entry} {ctx : List (Frame Entry)}

/-- The pointer to a tree. -/
def addr : RBTree Entry → Option ℕ
  | .nil => none
  | .node _ _ v _ => some v.node

/-- The pointer to a node, written from either of its sides. -/
@[simp] theorem addr_facing : addr (.facing s red c v t) = some v.node := by cases s <;> rfl

/-- A node with a child on one side and another on the other. -/
def TreeNode.facing (s : Side) (c t parent : Option ℕ) (key : ℕ) (red : Bool) : TreeNode :=
  match s with
  | .left => ⟨c, t, parent, key, red⟩
  | .right => ⟨t, c, parent, key, red⟩

namespace TreeNode

variable {x y z : Option ℕ} {k : ℕ}

/-- The child on the side that the node is written from. -/
@[simp] theorem child_facing : (facing s x y parent k red).child s = x := by cases s <;> rfl

/-- The child on the other side. -/
@[simp] theorem child_other_facing : (facing s x y parent k red).child s.other = y := by
  cases s <;> rfl

/-- Setting the child on the side that the node is written from replaces that
child only. -/
@[simp] theorem setChild_facing :
    (facing s x y parent k red).setChild s z = facing s z y parent k red := by cases s <;> rfl

/-- Setting the child on the other side replaces that one only. -/
@[simp] theorem setChild_other_facing :
    (facing s x y parent k red).setChild s.other z = facing s x z parent k red := by
  cases s <;> rfl

/-- The side a node is written from does not matter for its parent. -/
@[simp] theorem parent_facing : (facing s x y parent k red).parent = parent := by cases s <;> rfl

/-- The side a node is written from does not matter for its colour. -/
@[simp] theorem red_facing : (facing s x y parent k red).red = red := by cases s <;> rfl

/-- The side a node is written from does not matter for its key. -/
@[simp] theorem key_facing : (facing s x y parent k red).key = k := by cases s <;> rfl

/-- A new parent, on a node written from either side. -/
@[simp] theorem facing_set_parent :
    { facing s x y parent k red with parent := z } = facing s x y z k red := by cases s <;> rfl

/-- A new colour, on a node written from either side: the write that `tree_add`
and `tree_del` do most. -/
@[simp] theorem facing_set_red :
    { facing s x y parent k red with red := red' } = facing s x y parent k red' := by
  cases s <;> rfl

end TreeNode

/-- The nodes of a tree below `parent`. -/
def Rep (m : ℕ → TreeNode) : Option ℕ → RBTree Entry → Prop
  | _, .nil => True
  | parent, .node red l v r => m v.node = ⟨addr l, addr r, parent, v.key, red⟩ ∧
      Rep m (some v.node) l ∧ Rep m (some v.node) r

/-- A node in memory, written from either side: its own fields, and the two
subtrees below it. The macros of wepoll.c are used with `left` and `right`
exchanged, and this is what lets one proof do for both. -/
theorem rep_facing : Rep m parent (.facing s red c v t) ↔
    m v.node = .facing s (addr c) (addr t) parent v.key red ∧
      Rep m (some v.node) c ∧ Rep m (some v.node) t := by
  cases s
  · exact Iff.rfl
  · exact and_congr_right fun _ => and_comm

/-- The node above the end of a way that begins below `top`. -/
def up (top : Option ℕ) : List (Frame Entry) → Option ℕ
  | [] => top
  | f :: _ => some f.value.node

/-- The pointer to where a way begins, with `hole` at its end. -/
def start : List (Frame Entry) → Option ℕ → Option ℕ
  | [], hole => hole
  | f :: ctx, _ => start ctx (some f.value.node)

/-- The nodes of a way and beside it. -/
def Way (m : ℕ → TreeNode) (top : Option ℕ) : List (Frame Entry) → Option ℕ → Prop
  | [], _ => True
  | f :: ctx, hole =>
    m f.value.node = .facing f.side hole (addr f.other) (up top ctx) f.value.key f.red ∧
      Rep m (some f.value.node) f.other ∧ Way m top ctx (some f.value.node)

/-- The pointer to a tree put at the end of a way is where that way begins. -/
theorem addr_plug : addr (plug ctx t) = start ctx (addr t) := by
  induction ctx generalizing t with
  | nil => rfl
  | cons f ctx ih => rw [plug, ih, Frame.fill, addr_facing, start]

/-- A tree put at the end of a way is in memory when the way is, ending in a
pointer to the tree, and the tree is below the last node of the way. A rotation
changes the second part and leaves the first. -/
theorem rep_plug {top : Option ℕ} :
    Rep m top (plug ctx t) ↔ Way m top ctx (addr t) ∧ Rep m (up top ctx) t := by
  induction ctx generalizing t with
  | nil => exact ⟨fun ht => ⟨trivial, ht⟩, And.right⟩
  | cons f ctx ih =>
    rw [plug, ih, Frame.fill, addr_facing, rep_facing]
    constructor
    · rintro ⟨hway, hnode, ht, hother⟩
      exact ⟨⟨hnode, hother, hway⟩, ht⟩
    · rintro ⟨⟨hnode, hother, hway⟩, ht⟩
      exact ⟨hway, hnode, ht, hother⟩

/-- Where two ways begin, one after the other. -/
theorem start_append (ctx' : List (Frame Entry)) (hole : Option ℕ) :
    start (ctx' ++ ctx) hole = start ctx (start ctx' hole) := by
  induction ctx' generalizing hole with
  | nil => rfl
  | cons f ctx' ih => exact ih _

/-- The node above the end of two ways, one after the other: that of the lower
way, unless it is empty. -/
theorem up_append (ctx' : List (Frame Entry)) (top : Option ℕ) :
    up top (ctx' ++ ctx) = up (up top ctx) ctx' := by cases ctx' <;> rfl

/-- A way in two parts. -/
theorem way_append {ctx' : List (Frame Entry)} {top hole : Option ℕ} :
    Way m top (ctx' ++ ctx) hole ↔
      Way m (up top ctx) ctx' hole ∧ Way m top ctx (start ctx' hole) := by
  induction ctx' generalizing hole with
  | nil => exact ⟨fun hway => ⟨trivial, hway⟩, And.right⟩
  | cons f ctx' ih =>
    simp only [List.cons_append, Way, ih, up_append, start, and_assoc]

/-- A way from the root. -/
structure Above (h : TreeHeap) (ctx : List (Frame Entry)) (hole : Option ℕ) : Prop where
  root : h.root = start ctx hole
  way : Way h.node none ctx hole

/-! ### The addresses -/

/-- The addresses of the nodes of a tree, in the order of their keys. -/
def nodes (t : RBTree Entry) : List ℕ := t.toList.map Entry.node

/-- The nodes of a way and beside it. -/
def nodesAround (ctx : List (Frame Entry)) : List ℕ := (before ctx ++ after ctx).map Entry.node

/-- The addresses of a node: its own, and those of its two children. -/
theorem nodes_facing_perm :
    (nodes (.facing s red c v t)).Perm (v.node :: (nodes c ++ nodes t)) := by
  cases s
  · simp [nodes, RBTree.facing, RBTree.toList]
  · simpa [nodes, RBTree.facing, RBTree.toList] using
      (List.perm_middle.trans (List.Perm.cons _ List.perm_append_comm))

/-- The addresses of a way: that of its first node, those of the tree beside it,
and those further up. -/
theorem nodesAround_cons_perm : (nodesAround (f :: ctx)).Perm
    (f.value.node :: (nodes f.other ++ nodesAround ctx)) := by
  have hframe : (f.before ++ f.after).Perm (f.value :: f.other.toList) := by
    obtain ⟨_ | _, red, v, o⟩ := f
    · exact .refl _
    · simp [Frame.before, Frame.after]
  have hmove : (before (f :: ctx) ++ after (f :: ctx)).Perm
      ((f.before ++ f.after) ++ (before ctx ++ after ctx)) := by
    rw [before, after, List.append_assoc, List.append_assoc]
    exact (List.perm_append_comm_assoc ..).trans
      (.append_left _ (List.perm_append_comm_assoc ..))
  have := (hmove.trans (hframe.append_right _)).map Entry.node
  simpa [nodesAround, nodes] using this

/-- The addresses of a tree at the end of a way are its own and those around it;
what order they come in does not matter for their being distinct. -/
theorem nodes_plug_perm : (nodes (plug ctx t)).Perm (nodes t ++ nodesAround ctx) := by
  rw [nodes, toList_plug, nodes, nodesAround, ← List.map_append]
  refine List.Perm.map _ ?_
  rw [List.append_assoc]
  exact List.perm_append_comm_assoc ..

/-- The addresses of two ways, one after the other. -/
theorem nodesAround_append_perm (ctx' ctx : List (Frame Entry)) :
    (nodesAround (ctx' ++ ctx)).Perm (nodesAround ctx' ++ nodesAround ctx) := by
  rw [nodesAround, before_append, after_append, nodesAround, nodesAround, ← List.map_append]
  refine List.Perm.map _ ?_
  rw [List.append_assoc, List.append_assoc]
  refine (List.perm_append_comm_assoc ..).trans (.append_left _ ?_)
  exact List.perm_append_comm_assoc ..

/-- Being among the addresses of a node written from either side. -/
@[simp] theorem mem_nodes_facing {x : ℕ} :
    x ∈ nodes (.facing s red c v t) ↔ x = v.node ∨ x ∈ nodes c ∨ x ∈ nodes t := by
  rw [nodes_facing_perm.mem_iff, List.mem_cons, List.mem_append]

/-- Being among the addresses of a way. -/
@[simp] theorem mem_nodesAround_cons {x : ℕ} : x ∈ nodesAround (f :: ctx) ↔
    x = f.value.node ∨ x ∈ nodes f.other ∨ x ∈ nodesAround ctx := by
  rw [nodesAround_cons_perm.mem_iff, List.mem_cons, List.mem_append]

/-- That the addresses are distinct, written for each two parts of a node by
itself, which is how the writes to it use the fact. -/
theorem nodup_facing {l : List ℕ} : (nodes (.facing s red c v t) ++ l).Nodup ↔
    (v.node ∉ nodes c ∧ v.node ∉ nodes t ∧ v.node ∉ l) ∧ (nodes c ++ l).Nodup ∧
      (nodes t ++ l).Nodup ∧ ∀ x ∈ nodes c, x ∉ nodes t := by
  simp only [(nodes_facing_perm.append_right _).nodup_iff, List.cons_append, List.nodup_cons,
    List.mem_append, not_or, List.nodup_append', List.disjoint_append_left]
  constructor
  · rintro ⟨⟨⟨hvc, hvt⟩, hvl⟩, ⟨hc, ht, hct⟩, hl, hcl, htl⟩
    exact ⟨⟨hvc, hvt, hvl⟩, ⟨hc, hl, hcl⟩, ⟨ht, hl, htl⟩, hct⟩
  · rintro ⟨⟨hvc, hvt, hvl⟩, ⟨hc, hl, hcl⟩, ⟨ht, -, htl⟩, hct⟩
    exact ⟨⟨⟨hvc, hvt⟩, hvl⟩, ⟨hc, ht, hct⟩, hl, hcl, htl⟩

/-- The pointer to a tree is the address of one of its nodes. -/
theorem addr_mem {x : ℕ} (hx : addr t = some x) : x ∈ nodes t := by
  cases t with
  | nil => cases hx
  | node red l v r =>
    cases hx
    simp [nodes, RBTree.toList]

/-- A way that is not empty begins with the address of one of its nodes. -/
theorem start_mem (f : Frame Entry) (ctx : List (Frame Entry)) (hole : Option ℕ) :
    ∃ x ∈ nodesAround (f :: ctx), start (f :: ctx) hole = some x := by
  induction ctx generalizing f hole with
  | nil => exact ⟨f.value.node, mem_nodesAround_cons.2 (.inl rfl), rfl⟩
  | cons g ctx ih =>
    obtain ⟨x, hx, hstart⟩ := ih g (some f.value.node)
    exact ⟨x, mem_nodesAround_cons.2 (.inr (.inr hx)), hstart⟩

/-! ### What a change leaves -/

/-- Two memories that agree on the nodes of a tree hold it alike. -/
theorem Rep.congr (ht : Rep m parent t) (hm : ∀ x ∈ nodes t, m' x = m x) : Rep m' parent t := by
  induction t generalizing parent with
  | nil => trivial
  | node red l v r ihl ihr =>
    obtain ⟨hv, hl, hr⟩ := ht
    have hmem : ∀ x, x ∈ nodes (.node red l v r) ↔ x = v.node ∨ x ∈ nodes l ∨ x ∈ nodes r :=
      fun x => mem_nodes_facing (s := .left)
    refine ⟨(hm _ ((hmem _).2 (.inl rfl))).trans hv, ihl hl fun x hx => ?_, ihr hr fun x hx => ?_⟩
    · exact hm x ((hmem x).2 (.inr (.inl hx)))
    · exact hm x ((hmem x).2 (.inr (.inr hx)))

/-- Two memories that agree on the nodes of a way hold it alike. -/
theorem Way.congr {top hole : Option ℕ} (hway : Way m top ctx hole)
    (hm : ∀ x ∈ nodesAround ctx, m' x = m x) : Way m' top ctx hole := by
  induction ctx generalizing hole with
  | nil => trivial
  | cons f ctx ih =>
    obtain ⟨hf, hother, hway⟩ := hway
    refine ⟨(hm _ (mem_nodesAround_cons.2 (.inl rfl))).trans hf, hother.congr fun x hx => ?_,
      ih hway fun x hx => ?_⟩
    · exact hm x (mem_nodesAround_cons.2 (.inr (.inl hx)))
    · exact hm x (mem_nodesAround_cons.2 (.inr (.inr hx)))

/-- Two heaps with one root, and which agree on the nodes of a way, have that
way alike. -/
theorem Above.congr {hole : Option ℕ} (habove : Above h ctx hole) (hroot : h'.root = h.root)
    (hm : ∀ x ∈ nodesAround ctx, h'.node x = h.node x) : Above h' ctx hole :=
  ⟨hroot.trans habove.root, habove.way.congr hm⟩

/-! ### The parts of a change -/

/-- What is read at the address that was written. -/
theorem write_node_self {x : ℕ} {g : TreeNode → TreeNode} :
    (h.write x g).node x = g (h.node x) := Function.update_self ..

/-- What is read at any other address is as it was. -/
theorem write_node_of_ne {x y : ℕ} {g : TreeNode → TreeNode} (hne : y ≠ x) :
    (h.write x g).node y = h.node y := Function.update_of_ne hne ..

/-- `setParent` to a node that is there is a write to it. -/
theorem setParent_some {x : ℕ} {y : Option ℕ} :
    h.setParent (some x) y = h.write x fun n => { n with parent := y } := rfl

/-- `setParent` never changes the root. -/
theorem setParent_root {x y : Option ℕ} : (h.setParent x y).root = h.root := by
  cases x <;> rfl

/-- Setting the parent of a subtree writes to no node outside of it. -/
theorem setParent_node_of_notMem {x : ℕ} (hx : x ∉ nodes t) :
    (h.setParent (addr t) parent).node x = h.node x := by
  cases ht : addr t with
  | none => rfl
  | some y =>
    rw [setParent_some]
    refine write_node_of_ne ?_
    rintro rfl
    exact hx (addr_mem ht)

/-- Setting the parent of a subtree moves all of it below the new parent: only
the root of the subtree has a pointer upwards to outside. -/
theorem Rep.setParent (ht : Rep h.node parent t) (hnodup : (nodes t).Nodup) {u : Option ℕ} :
    Rep (h.setParent (addr t) u).node u t := by
  cases t with
  | nil => trivial
  | node red l v r =>
    obtain ⟨hv, hl, hr⟩ := ht
    have hperm : (nodes (.node red l v r)).Perm (v.node :: (nodes l ++ nodes r)) :=
      nodes_facing_perm (s := .left)
    have hnotMem := List.nodup_cons.1 (hperm.nodup_iff.1 hnodup)
    rw [List.mem_append] at hnotMem
    rw [addr, setParent_some]
    refine ⟨?_, hl.congr fun x hx => ?_, hr.congr fun x hx => ?_⟩
    · rw [write_node_self, hv]
    · refine write_node_of_ne ?_
      rintro rfl
      exact hnotMem.1 (.inl hx)
    · refine write_node_of_ne ?_
      rintro rfl
      exact hnotMem.1 (.inr hx)

/-- A way below another node. -/
theorem Way.setParent {top top' hole : Option ℕ} (hway : Way h.node top (f :: ctx) hole)
    (hnodup : (nodesAround (f :: ctx)).Nodup) :
    Way (h.setParent (start (f :: ctx) hole) top').node top' (f :: ctx) hole := by
  induction ctx generalizing f hole with
  | nil =>
    obtain ⟨hf, hother, -⟩ := hway
    obtain ⟨hfirst, -⟩ := List.nodup_cons.1 (nodesAround_cons_perm.nodup_iff.1 hnodup)
    rw [List.mem_append] at hfirst
    rw [start, start, setParent_some]
    refine ⟨?_, hother.congr fun x hx => write_node_of_ne ?_, trivial⟩
    · rw [write_node_self, hf, TreeNode.facing_set_parent]
      rfl
    · rintro rfl
      exact hfirst (.inl hx)
  | cons g ctx ih =>
    obtain ⟨hf, hother, hway⟩ := hway
    obtain ⟨hfirst, hrest⟩ := List.nodup_cons.1 (nodesAround_cons_perm.nodup_iff.1 hnodup)
    obtain ⟨-, hnodup', hdisjoint⟩ := List.nodup_append.1 hrest
    obtain ⟨x, hx, hstart⟩ := start_mem g ctx (some f.value.node)
    have hsame : ∀ y ≠ x, (h.setParent (start (f :: g :: ctx) hole) top').node y = h.node y := by
      intro y hy
      change (h.setParent (start (g :: ctx) (some f.value.node)) top').node y = _
      rw [hstart, setParent_some, write_node_of_ne hy]
    refine ⟨?_, hother.congr fun y hy => hsame y ?_, ih hway hnodup'⟩
    · rw [hsame, hf]
      · rfl
      · rintro rfl
        exact hfirst (List.mem_append_right _ hx)
    · rintro rfl
      exact hdisjoint y hy y hx rfl

/-- `replace` writes at most to the node above, so nodes outside the way are as
they were. -/
theorem replace_node_of_notMem {x y : ℕ} {next : Option ℕ} (hx : x ∉ nodesAround ctx) :
    (h.replace (up none ctx) y next).node x = h.node x := by
  cases ctx with
  | nil => rfl
  | cons f ctx =>
    have hne : x ≠ f.value.node := by
      rintro rfl
      exact hx (mem_nodesAround_cons.2 (.inl rfl))
    simp only [up, replace]
    split_ifs
    · exact write_node_of_ne hne
    · exact write_node_of_ne hne

/-- Another subtree at the end of a way. -/
theorem Way.setChild {top hole next : Option ℕ} (hway : Way h.node top (f :: ctx) hole)
    (hnodup : (nodesAround (f :: ctx)).Nodup) :
    Way (h.write f.value.node fun n => n.setChild f.side next).node top (f :: ctx) next := by
  obtain ⟨hf, hother, hway⟩ := hway
  obtain ⟨hfirst, -⟩ := List.nodup_cons.1 (nodesAround_cons_perm.nodup_iff.1 hnodup)
  rw [List.mem_append] at hfirst
  refine ⟨?_, hother.congr fun y hy => write_node_of_ne ?_,
    hway.congr fun y hy => write_node_of_ne ?_⟩
  · rw [write_node_self, hf, TreeNode.setChild_facing]
  · rintro rfl
    exact hfirst (.inl hy)
  · rintro rfl
    exact hfirst (.inr hy)

/-- A new child for the last node of a way, with the root left alone: the way
from the root then ends in the new child. -/
theorem Above.setChild {hole next : Option ℕ} (habove : Above h (f :: ctx) hole)
    (hnodup : (nodesAround (f :: ctx)).Nodup) :
    Above (h.write f.value.node fun n => n.setChild f.side next) (f :: ctx) next :=
  ⟨habove.root, habove.way.setChild hnodup⟩

/-- `replace` gives the way a new end, whether that is the root pointer or a
child of the last node. -/
theorem Above.replace {x : ℕ} {next : Option ℕ} (habove : Above h ctx (some x))
    (hx : x ∉ nodesAround ctx) (hnodup : (nodesAround ctx).Nodup) :
    Above (h.replace (up none ctx) x next) ctx next := by
  cases ctx with
  | nil => exact ⟨rfl, trivial⟩
  | cons f ctx =>
    have hwrite : h.replace (up none (f :: ctx)) x next =
        h.write f.value.node fun n => n.setChild f.side next := by
      have hother : addr f.other ≠ some x := fun heq =>
        hx (mem_nodesAround_cons.2 (.inr (.inl (addr_mem heq))))
      have hf := habove.way.1
      obtain ⟨_ | _, red, v, o⟩ := f
      · exact if_pos (by rw [hf]; rfl)
      · exact if_neg (by rw [hf]; exact hother)
    rw [hwrite]
    exact habove.setChild hnodup

/-! ### The whole tree -/

/-- The memory holds the tree `t`: the root pointer, the nodes with their
parents, no node twice, and outside of `t` what was there at first. -/
structure Holds (base : ℕ → TreeNode) (h : TreeHeap) (t : RBTree Entry) : Prop where
  root : h.root = addr t
  rep : Rep h.node none t
  nodup : (nodes t).Nodup
  outside : ∀ x ∉ nodes t, h.node x = base x

/-- The memory holds a tree with `t` at a place in it: the way from the root to
the place, `t` itself, their nodes distinct, and the rest as at first. -/
theorem holds_plug : Holds base h (plug ctx t) ↔
    Above h ctx (addr t) ∧ Rep h.node (up none ctx) t ∧ (nodes t ++ nodesAround ctx).Nodup ∧
      ∀ x, x ∉ nodes t → x ∉ nodesAround ctx → h.node x = base x := by
  constructor
  · intro hh
    obtain ⟨hway, ht⟩ := rep_plug.1 hh.rep
    refine ⟨⟨hh.root.trans addr_plug, hway⟩, ht, nodes_plug_perm.nodup_iff.1 hh.nodup,
      fun x hx hx' => hh.outside x ?_⟩
    rw [nodes_plug_perm.mem_iff, List.mem_append]
    exact not_or.2 ⟨hx, hx'⟩
  · rintro ⟨habove, ht, hnodup, hout⟩
    refine ⟨habove.root.trans addr_plug.symm, rep_plug.2 ⟨habove.way, ht⟩,
      nodes_plug_perm.nodup_iff.2 hnodup, fun x hx => ?_⟩
    rw [nodes_plug_perm.mem_iff, List.mem_append, not_or] at hx
    exact hout x hx.1 hx.2

/-- What is at a node of the tree. -/
theorem Holds.node (hh : Holds base h (plug ctx (.facing s red c v t))) :
    h.node v.node = .facing s (addr c) (addr t) (up none ctx) v.key red :=
  (rep_facing.1 (holds_plug.1 hh).2.1).1

/-- And at the node above. -/
theorem Holds.above (hh : Holds base h (plug (f :: ctx) t)) :
    h.node f.value.node = .facing f.side (addr t) (addr f.other) (up none ctx) f.value.key f.red :=
  (holds_plug.1 hh).1.way.1

/-- **A change of colour**, anywhere in the tree. -/
theorem Holds.setRed (hh : Holds base h (plug ctx (.facing s red c v t))) (red' : Bool) :
    Holds base (h.setRed v.node red') (plug ctx (.facing s red' c v t)) := by
  obtain ⟨habove, ht, hnodup, hout⟩ := holds_plug.1 hh
  obtain ⟨hv, hc, ht⟩ := rep_facing.1 ht
  rw [(nodes_facing_perm.append_right _).nodup_iff, List.cons_append, List.nodup_cons,
    List.mem_append, List.mem_append] at hnodup
  have hother : ∀ x ≠ v.node, (h.setRed v.node red').node x = h.node x := fun x hx =>
    write_node_of_ne hx
  refine holds_plug.2 ⟨?_, rep_facing.2 ⟨?_, hc.congr fun x hx => hother x ?_,
    ht.congr fun x hx => hother x ?_⟩, ?_, fun x hx hx' => ?_⟩
  · rw [addr_facing] at habove ⊢
    refine habove.congr rfl fun x hx => hother x ?_
    rintro rfl
    exact hnodup.1 (.inr hx)
  · rw [TreeHeap.setRed, write_node_self, hv, TreeNode.facing_set_red]
  · rintro rfl
    exact hnodup.1 (.inl (.inl hx))
  · rintro rfl
    exact hnodup.1 (.inl (.inr hx))
  · rw [(nodes_facing_perm.append_right _).nodup_iff, List.cons_append, List.nodup_cons,
      List.mem_append, List.mem_append]
    exact hnodup
  · rw [mem_nodes_facing, not_or, not_or] at hx
    rw [hother x hx.1]
    refine hout x ?_ hx'
    rw [mem_nodes_facing, not_or, not_or]
    exact hx

/-- **A rotation**, anywhere in the tree. -/
theorem Holds.rotate {p q : Entry} {r r' : Bool}
    (hh : Holds base h (plug ctx (.facing s r a p (.facing s r' b q c)))) :
    ∃ h', tree_rotate s h p.node = some h' ∧
      Holds base h' (plug ctx (.facing s r' (.facing s r a p b) q c)) := by
  obtain ⟨habove, ht, hnodup, hout⟩ := holds_plug.1 hh
  obtain ⟨hp, ha, ht⟩ := rep_facing.1 ht
  obtain ⟨hq, hb, hc⟩ := rep_facing.1 ht
  rw [addr_facing] at hp habove
  have hsame : nodes (.facing s r a p (.facing s r' b q c)) =
      nodes (.facing s r' (.facing s r a p b) q c) := by
    rw [nodes, RBTree.toList_rotate, nodes]
  obtain ⟨⟨hpa, hpt, hpl⟩, hal, htl, hat⟩ := nodup_facing.1 hnodup
  obtain ⟨⟨hqb, hqc, hql⟩, hbl, hcl, hbc⟩ := nodup_facing.1 htl
  rw [mem_nodes_facing, not_or, not_or] at hpt
  obtain ⟨hpq, hpb, hpc⟩ := hpt
  have hl : (nodesAround ctx).Nodup := (List.nodup_append.1 hal).2.1
  -- below the node above
  have habove₁ : Above (h.replace (up none ctx) p.node (some q.node)) ctx (some q.node) :=
    habove.replace hpl hl
  have hnode₁ : ∀ x ∉ nodesAround ctx,
      (h.replace (up none ctx) p.node (some q.node)).node x = h.node x := fun x =>
    replace_node_of_notMem
  simp only [tree_rotate, hp, TreeNode.child_other_facing, TreeNode.parent_facing,
    Option.bind_eq_bind, Option.bind_some]
  generalize h.replace (up none ctx) p.node (some q.node) = h₁ at habove₁ hnode₁ ⊢
  -- the two nodes
  have hp₁ := (hnode₁ p.node hpl).trans hp
  have hq₁ := (hnode₁ q.node hql).trans hq
  simp only [write_node_self, write_node_of_ne hpq, write_node_of_ne (Ne.symm hpq), hp₁, hq₁,
    TreeNode.facing_set_parent, TreeNode.child_facing, TreeNode.setChild_other_facing,
    TreeNode.child_other_facing]
  refine ⟨_, rfl, ?_⟩
  generalize hh₂ : ((h₁.write q.node _).write p.node _).write p.node _ = h₂
  have hroot₂ : h₂.root = h₁.root := by rw [← hh₂]; rfl
  have hp₂ : h₂.node p.node = .facing s (addr a) (addr b) (some q.node) p.key r := by
    simp only [← hh₂, write_node_self, write_node_of_ne hpq, hp₁, TreeNode.facing_set_parent,
      TreeNode.setChild_other_facing]
  have hq₂ : h₂.node q.node = .facing s (addr b) (addr c) (up none ctx) q.key r' := by
    simp only [← hh₂, write_node_self, write_node_of_ne (Ne.symm hpq), hq₁,
      TreeNode.facing_set_parent]
  have hnode₂ : ∀ x ≠ p.node, x ≠ q.node → h₂.node x = h₁.node x := by
    intro x hxp hxq
    simp only [← hh₂, write_node_of_ne hxp, write_node_of_ne hxq]
  -- the subtree between them
  have hother₂ : ∀ x, x ≠ p.node → x ≠ q.node → x ∉ nodesAround ctx → h₂.node x = h.node x :=
    fun x hxp hxq hxl => (hnode₂ x hxp hxq).trans (hnode₁ x hxl)
  have hb₂ : Rep h₂.node (some q.node) b := hb.congr fun x hx => hother₂ x
    (ne_of_mem_of_not_mem hx hpb) (ne_of_mem_of_not_mem hx hqb) fun hxl =>
      (List.nodup_append.1 hbl).2.2 x hx x hxl rfl
  have hb₃ := hb₂.setParent (List.nodup_append.1 hbl).1 (u := some p.node)
  have hnode₃ : ∀ x ∉ nodes b, (h₂.setParent (addr b) (some p.node)).node x = h₂.node x :=
    fun x => setParent_node_of_notMem
  have hroot₃ : (h₂.setParent (addr b) (some p.node)).root = h₁.root :=
    setParent_root.trans hroot₂
  generalize h₂.setParent (addr b) (some p.node) = h₃ at hb₃ hnode₃ hroot₃ ⊢
  -- the upper node
  have hother : ∀ x, x ≠ p.node → x ≠ q.node → x ∉ nodes b →
      (h₃.write q.node fun n => n.setChild s (some p.node)).node x = h₁.node x := by
    intro x hxp hxq hxb
    rw [write_node_of_ne hxq, hnode₃ x hxb, hnode₂ x hxp hxq]
  refine holds_plug.2 ⟨?_, rep_facing.2 ⟨?_, rep_facing.2 ⟨?_, ?_, ?_⟩, ?_⟩, hsame ▸ hnodup, ?_⟩
  · rw [addr_facing]
    refine habove₁.congr hroot₃ fun x hx => hother x ?_ ?_ ?_
    · exact ne_of_mem_of_not_mem hx hpl
    · exact ne_of_mem_of_not_mem hx hql
    · exact fun hxb => (List.nodup_append.1 hbl).2.2 x hxb x hx rfl
  · rw [write_node_self, hnode₃ _ hqb, hq₂, TreeNode.setChild_facing, addr_facing]
  · rw [write_node_of_ne hpq, hnode₃ _ hpb, hp₂]
  · refine ha.congr fun x hx => ?_
    have hxt := hat x hx
    rw [mem_nodes_facing, not_or, not_or] at hxt
    have hxp : x ≠ p.node := ne_of_mem_of_not_mem hx hpa
    have hxl : x ∉ nodesAround ctx := fun hxl => (List.nodup_append.1 hal).2.2 x hx x hxl rfl
    rw [hother x hxp hxt.1 hxt.2.1, hnode₁ x hxl]
  · exact hb₃.congr fun x hx => write_node_of_ne (ne_of_mem_of_not_mem hx hqb)
  · refine hc.congr fun x hx => ?_
    have hxb : x ∉ nodes b := fun hxb => hbc x hxb hx
    have hxl : x ∉ nodesAround ctx := fun hxl => (List.nodup_append.1 hcl).2.2 x hx x hxl rfl
    rw [hother x (ne_of_mem_of_not_mem hx hpc) (ne_of_mem_of_not_mem hx hqc) hxb, hnode₁ x hxl]
  · intro x hx hxl
    rw [← hsame] at hx
    have hx' := hx
    rw [mem_nodes_facing, mem_nodes_facing, not_or, not_or, not_or, not_or] at hx'
    obtain ⟨hxp, -, hxq, hxb, -⟩ := hx'
    rw [hother x hxp hxq hxb, hnode₁ x hxl, hout x hx hxl]

/-- `if (node) node->red = false`. -/
theorem Holds.setBlack (hh : Holds base h (plug ctx t)) :
    Holds base (h.setBlack (addr t)) (plug ctx t.blacken) := by
  cases t with
  | nil => exact hh
  | node red l v r => exact Holds.setRed (s := .left) hh false

/-- The colour read in memory is that of the tree; a null pointer reads as
black, as an empty tree is. -/
theorem Holds.isRed (hh : Holds base h (plug ctx t)) : h.isRed (addr t) = t.isRed := by
  cases t with
  | nil => rfl
  | node red l v r => exact congrArg TreeNode.red (Holds.node (s := .left) hh)

/-- Two nodes of a tree are not one. -/
theorem Holds.addr_ne (hh : Holds base h (plug (f :: ctx) t)) {x : ℕ} (ht : addr t = some x) :
    addr f.other ≠ some x := by
  intro hother
  have hnodup := (List.nodup_append.1 (holds_plug.1 hh).2.2.1).2.2 x (addr_mem ht) x
  exact hnodup (mem_nodesAround_cons.2 (.inr (.inl (addr_mem hother)))) rfl

/-- A red-black tree in the order of its keys. -/
structure Stores (base : ℕ → TreeNode) (h : TreeHeap) (t : RBTree Entry) : Prop
    extends Holds base h t where
  redBlack : IsRedBlack t
  sorted : t.toList.Pairwise (Entry.key · < Entry.key ·)

end RedBlackTree
end Wepoll
end Net
end Sevent
