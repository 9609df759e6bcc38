/-
# The tree of wepoll

`sevent/net/poller/wepoll/wepoll.c`: `tree_t`, a red-black tree of nodes that know their
parent.  The sockets of a port and the handles of all ports are in such trees.

The nodes are in a memory, and a pointer is an address or `NULL`; where `NULL` is
followed there is no next state.  The macros have the two sides as parameters, and what
they expand to at one of the two places is the function with the sides exchanged.  A loop
has as much fuel as it is given.

`Holds base h t` says that the nodes in memory are the tree `t` with its parents, and that
the memory is as in `base` elsewhere.
-/

import Mathlib.Logic.Function.Basic
import Sevent.Lib.RedBlack

namespace Sevent
namespace Net
namespace Wepoll
namespace RedBlackTree

open RedBlack

/-- `tree_node_t`. -/
structure TreeNode where
  left : Option ℕ
  right : Option ℕ
  parent : Option ℕ
  key : ℕ
  red : Bool
  deriving DecidableEq

namespace TreeNode

def child (n : TreeNode) : Side → Option ℕ
  | .left => n.left
  | .right => n.right

def setChild (n : TreeNode) (s : Side) (child : Option ℕ) : TreeNode :=
  match s with
  | .left => { n with left := child }
  | .right => { n with right := child }

end TreeNode

/-- A `tree_t` and the memory. -/
structure TreeHeap where
  root : Option ℕ
  node : ℕ → TreeNode

namespace TreeHeap

def write (h : TreeHeap) (a : ℕ) (f : TreeNode → TreeNode) : TreeHeap :=
  { h with node := Function.update h.node a (f (h.node a)) }

def setRed (h : TreeHeap) (a : ℕ) (red : Bool) : TreeHeap :=
  h.write a fun n => { n with red := red }

/-- `node && node->red`. -/
def isRed (h : TreeHeap) (node : Option ℕ) : Bool :=
  match node with
  | some a => (h.node a).red
  | none => false

/-- `if (node) node->red = false`. -/
def setBlack (h : TreeHeap) (node : Option ℕ) : TreeHeap :=
  match node with
  | some a => h.setRed a false
  | none => h

/-- `if (node) node->parent = parent`. -/
def setParent (h : TreeHeap) (node parent : Option ℕ) : TreeHeap :=
  match node with
  | some a => h.write a fun n => { n with parent := parent }
  | none => h

/-- What was `node` below `parent` becomes `next`. -/
def replace (h : TreeHeap) (parent : Option ℕ) (node : ℕ) (next : Option ℕ) : TreeHeap :=
  match parent with
  | some u =>
    if (h.node u).left = some node then h.write u fun n => n.setChild .left next
    else h.write u fun n => n.setChild .right next
  | none => { h with root := next }

/-- `TREE__ROTATE` with `cis` and `trans`, which is its other side. -/
def tree_rotate (cis : Side) (h : TreeHeap) (p : ℕ) : Option TreeHeap := do
  let q ← (h.node p).child cis.other
  let parent := (h.node p).parent
  let h := h.replace parent p (some q)
  let h := h.write q fun n => { n with parent := parent }
  let h := h.write p fun n => { n with parent := some q }
  let h := h.write p fun n => n.setChild cis.other ((h.node q).child cis)
  let h := h.setParent ((h.node p).child cis.other) (some p)
  some (h.write q fun n => n.setChild cis (some p))

/-! ### `tree_add` -/

/-- The loop with `TREE__INSERT_OR_DESCEND`: the parent of the new node, or `none` where
the key is there. -/
def insert_or_descend (node key : ℕ) : ℕ → TreeHeap → ℕ → Option (TreeHeap × Option ℕ)
  | 0, _, _ => none
  | fuel + 1, h, parent =>
    if key < (h.node parent).key then
      match (h.node parent).left with
      | some c => insert_or_descend node key fuel h c
      | none => some (h.write parent fun n => n.setChild .left (some node), some parent)
    else if (h.node parent).key < key then
      match (h.node parent).right with
      | some c => insert_or_descend node key fuel h c
      | none => some (h.write parent fun n => n.setChild .right (some node), some parent)
    else some (h, none)

/-- `TREE__REBALANCE_AFTER_INSERT`: the memory, and `node`. -/
def rebalance_after_insert (cis : Side) (h : TreeHeap) (node parent : ℕ) :
    Option (TreeHeap × ℕ) := do
  let grandparent ← (h.node parent).parent
  let uncle := (h.node grandparent).child cis.other
  if h.isRed uncle then
    let h := h.setBlack uncle
    let h := h.setRed parent false
    let h := h.setRed grandparent true
    some (h, grandparent)
  else do
    let (h, node, parent) ←
      if some node = (h.node parent).child cis.other then do
        let h ← tree_rotate cis h parent
        let node := parent
        let parent ← (h.node node).parent
        some (h, node, parent)
      else some (h, node, parent)
    let h := h.setRed parent false
    let h := h.setRed grandparent true
    let h ← tree_rotate cis.other h grandparent
    some (h, node)

/-- The loop behind it. -/
def insert_loop : ℕ → TreeHeap → ℕ → Option ℕ → Option TreeHeap
  | _, h, _, none => some h
  | fuel, h, node, some parent =>
    if (h.node parent).red then
      match fuel with
      | 0 => none
      | fuel + 1 => do
        let grandparent ← (h.node parent).parent
        let cis := if some parent = (h.node grandparent).left then .left else .right
        let (h, node) ← rebalance_after_insert cis h node parent
        insert_loop fuel h node (h.node node).parent
    else some h

/-- `tree_add`: the memory, and whether the node has been added. -/
def tree_add (fuel : ℕ) (h : TreeHeap) (node key : ℕ) : Option (TreeHeap × Bool) := do
  let (h, parent) ←
    match h.root with
    | some root => do
      let (h, parent) ← insert_or_descend node key fuel h root
      some (h, parent.map some)
    | none => some ({ h with root := some node }, some none)
  match parent with
  | none => some (h, false)
  | some parent => do
    let h := h.write node fun _ => ⟨none, none, parent, key, true⟩
    let h ← insert_loop fuel h node parent
    let root ← h.root
    some (h.setRed root false, true)

/-! ### `tree_del` -/

/-- The end of `TREE__REBALANCE_AFTER_REMOVE` for a sibling that has a red child on the
other side. -/
def rotate_sibling (cis : Side) (h : TreeHeap) (parent sibling : ℕ) :
    Option (TreeHeap × Bool) := do
  let h := h.setRed sibling (h.node parent).red
  let c ← (h.node sibling).child cis.other
  let h := h.setRed c false
  let h := h.setRed parent false
  let h ← tree_rotate cis h parent
  some (h, true)

/-- What is behind its first `if`, for a sibling that is black. -/
def rebalance_black_sibling (cis : Side) (h : TreeHeap) (parent sibling : ℕ) :
    Option (TreeHeap × Bool) :=
  if h.isRed (h.node sibling).left || h.isRed (h.node sibling).right then
    if !h.isRed ((h.node sibling).child cis.other) then do
      let c ← (h.node sibling).child cis
      let h := h.setRed c false
      let h := h.setRed sibling true
      let h ← tree_rotate cis.other h sibling
      let sibling ← (h.node parent).child cis.other
      rotate_sibling cis h parent sibling
    else rotate_sibling cis h parent sibling
  else some (h.setRed sibling true, false)

/-- `TREE__REBALANCE_AFTER_REMOVE`: the memory, and whether the loop ends with it. -/
def rebalance_after_remove (cis : Side) (h : TreeHeap) (parent : ℕ) :
    Option (TreeHeap × Bool) := do
  let sibling ← (h.node parent).child cis.other
  if (h.node sibling).red then do
    let h := h.setRed sibling false
    let h := h.setRed parent true
    let h ← tree_rotate cis h parent
    let sibling ← (h.node parent).child cis.other
    rebalance_black_sibling cis h parent sibling
  else rebalance_black_sibling cis h parent sibling

/-- The loop of `tree_del` and what is behind it. -/
def remove_loop : ℕ → TreeHeap → Option ℕ → Option ℕ → Option TreeHeap
  | 0, _, _, _ => none
  | fuel + 1, h, node, parent =>
    if node = h.root then some (h.setBlack node)
    else do
      let p ← parent
      let cis := if node = (h.node p).left then .left else .right
      let (h, stop) ← rebalance_after_remove cis h p
      if stop then some (h.setBlack h.root)
      else if (h.node p).red then some (h.setRed p false)
      else remove_loop fuel h (some p) (h.node p).parent

/-- `while (next->left) next = next->left`. -/
def leftmost : ℕ → TreeHeap → ℕ → Option ℕ
  | 0, _, _ => none
  | fuel + 1, h, next =>
    match (h.node next).left with
    | some left => leftmost fuel h left
    | none => some next

/-- `tree_del`. -/
def tree_del (fuel : ℕ) (h : TreeHeap) (node : ℕ) : Option TreeHeap := do
  let parent := (h.node node).parent
  let left := (h.node node).left
  let right := (h.node node).right
  let (h, red, node, parent) ←
    match left, right with
    | some left, some right => do
      let next ← leftmost fuel h right
      let h := h.replace parent node (some next)
      let red := (h.node next).red
      let h := h.setRed next (h.node node).red
      let h := h.write next fun n => n.setChild .left (some left)
      let h := h.setParent (some left) (some next)
      if next ≠ right then do
        let parent := (h.node next).parent
        let h := h.write next fun n => { n with parent := (h.node node).parent }
        let node := (h.node next).right
        let parent ← parent
        let h := h.write parent fun n => n.setChild .left node
        let h := h.write next fun n => n.setChild .right (some right)
        let h := h.setParent (some right) (some next)
        some (h, red, node, some parent)
      else
        let h := h.write next fun n => { n with parent := parent }
        some (h, red, (h.node next).right, some next)
    | none, next | next, none =>
      let h := h.replace parent node next
      some (h, (h.node node).red, next, parent)
  let h := h.setParent node parent
  if red then some h
  else if h.isRed node then some (h.setBlack node)
  else remove_loop fuel h node parent

/-! ### `tree_find` -/

def tree_find (key : ℕ) : ℕ → TreeHeap → Option ℕ → Option (Option ℕ)
  | _, _, none => some none
  | 0, _, some _ => none
  | fuel + 1, h, some node =>
    if key < (h.node node).key then tree_find key fuel h (h.node node).left
    else if (h.node node).key < key then tree_find key fuel h (h.node node).right
    else some (some node)

end TreeHeap

end RedBlackTree
end Wepoll
end Net
end Sevent
