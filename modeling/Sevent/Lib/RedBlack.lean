/-
# Red-black trees

A red-black tree, and the way to a place in it: the nodes above, each with the
subtree on its other side.  `plug` puts a subtree where the way leads.

`IsBalanced t h` is the red-black condition with `h` black nodes on every way down, and
`Around ctx h` says of a way that a subtree with `IsBalanced t h` fits there.  What an
insertion or a removal from below meets at one level is a lemma here (`Around.grandparent`,
`Around.turn`); `IsRedBlack.depth_le` bounds the depth by the logarithm of the number of
nodes, and `Toward` is what a search knows of its key.
-/

import Mathlib.Algebra.Order.Ring.Nat
import Mathlib.Data.List.Pairwise
import Mathlib.Data.Nat.Log
import Mathlib.Tactic.SplitIfs

namespace RedBlack

/-- The sides of a node. What is done on one of them is done on the other with
the two exchanged, so definitions and lemmas here take a side. -/
inductive Side
  | left
  | right
  deriving DecidableEq

/-- The side opposite to this one. -/
def Side.other : Side → Side
  | .left => .right
  | .right => .left

/-- Exchanging the sides twice gives the first one again. -/
@[simp] theorem Side.other_other (s : Side) : s.other.other = s := by cases s <;> rfl

/-- There is only one other side. -/
theorem Side.eq_other {s s' : Side} (h : s' ≠ s) : s' = s.other := by
  cases s <;> cases s' <;> simp_all [Side.other]

/-- A binary tree with a value and a colour in each node. -/
inductive RBTree (α : Type*)
  | nil
  | node (red : Bool) (left : RBTree α) (value : α) (right : RBTree α)

variable {α κ : Type*} {s : Side} {red : Bool} {v w : α} {a b c t t' : RBTree α} {h n : ℕ}

namespace RBTree

/-- A node with the subtree `c` on one side and `t` on the other. -/
def facing (s : Side) (red : Bool) (c : RBTree α) (v : α) (t : RBTree α) : RBTree α :=
  match s with
  | .left => .node red c v t
  | .right => .node red t v c

/-- The values in the order of the tree, from left to right. -/
def toList : RBTree α → List α
  | nil => []
  | node _ l v r => l.toList ++ v :: r.toList

/-- The number of nodes on the longest way down. -/
def depth : RBTree α → ℕ
  | nil => 0
  | node _ l _ r => max l.depth r.depth + 1

/-- The colour of the root; the empty tree counts as black. -/
def isRed : RBTree α → Bool
  | nil => false
  | node red _ _ _ => red

/-- The tree with a black root. -/
def blacken : RBTree α → RBTree α
  | nil => nil
  | node _ l v r => node false l v r

/-- A node written from its other side. -/
theorem facing_other (s : Side) (red : Bool) (c : RBTree α) (v : α) (t : RBTree α) :
    facing s.other red c v t = facing s red t v c := by cases s <;> rfl

/-- The side that a node is written from does not matter for its colour. -/
@[simp] theorem isRed_facing : (facing s red c v t).isRed = red := by cases s <;> rfl

/-- Blackening a node changes its colour only. -/
@[simp] theorem blacken_facing : (facing s red c v t).blacken = facing s false c v t := by
  cases s <;> rfl

/-- A node from the side one likes. -/
theorem eq_facing (s : Side) (red : Bool) (l : RBTree α) (v : α) (r : RBTree α) :
    ∃ c t, node red l v r = facing s red c v t := by
  cases s with
  | left => exact ⟨l, r, rfl⟩
  | right => exact ⟨r, l, rfl⟩

/-- A node written from one side can be written from the other. -/
theorem exists_facing (s s' : Side) (red : Bool) (c : RBTree α) (v : α) (t : RBTree α) :
    ∃ c' t', facing s red c v t = facing s' red c' v t' := by
  cases s <;> exact eq_facing s' ..

/-- A red tree is not empty, and may be written from either side. -/
theorem exists_facing_of_red (ht : t.isRed = true) (s : Side) :
    ∃ c v d, t = facing s true c v d := by
  cases t with
  | nil => cases ht
  | node red l v r =>
    obtain ⟨c, d, hcd⟩ := eq_facing s red l v r
    obtain rfl : red = true := ht
    exact ⟨c, v, d, hcd⟩

/-- Blackening leaves the values and their order. -/
@[simp] theorem toList_blacken : t.blacken.toList = t.toList := by cases t <;> rfl

/-- Colours do not matter for the order. -/
theorem toList_facing_congr {red' : Bool} {c' : RBTree α} (hc : c.toList = c'.toList)
    (ht : t.toList = t'.toList) :
    (facing s red c v t).toList = (facing s red' c' v t').toList := by
  cases s <;> simp [facing, toList, hc, ht]

/-- **A rotation keeps the order.** -/
theorem toList_rotate {red' r r' : Bool} :
    (facing s red a v (facing s red' b w c)).toList =
      (facing s r (facing s r' a v b) w c).toList := by
  cases s <;> simp [facing, toList]

/-- The depth of a node, from whichever side it is written. -/
theorem depth_facing : (facing s red c v t).depth = max c.depth t.depth + 1 := by
  cases s
  · rfl
  · simp [facing, depth, max_comm]

end RBTree

/-! ### The way to a subtree -/

/-- A node above, with the side on which the way goes down and the subtree on the other. -/
structure Frame (α : Type*) where
  side : Side
  red : Bool
  value : α
  other : RBTree α

namespace Frame

/-- The tree that a frame makes of a subtree. -/
def fill (f : Frame α) (t : RBTree α) : RBTree α := .facing f.side f.red t f.value f.other

/-- The values of a frame that come before its subtree. -/
def before (f : Frame α) : List α :=
  match f.side with
  | .left => []
  | .right => f.other.toList ++ [f.value]

/-- The values of a frame that come after its subtree. -/
def after (f : Frame α) : List α :=
  match f.side with
  | .left => f.value :: f.other.toList
  | .right => []

/-- The values of a filled frame: those before, those of the subtree, those
after. -/
theorem toList_fill (f : Frame α) (t : RBTree α) :
    (f.fill t).toList = f.before ++ t.toList ++ f.after := by
  obtain ⟨_ | _, red, v, o⟩ := f <;> simp [fill, before, after, RBTree.facing, RBTree.toList]

end Frame

variable {f g : Frame α} {ctx : List (Frame α)}

/-- The tree with a subtree at the end of a way, which starts at the bottom. -/
def plug : List (Frame α) → RBTree α → RBTree α
  | [], t => t
  | f :: ctx, t => plug ctx (f.fill t)

/-- The values of a way that come before the place it leads to. -/
def before : List (Frame α) → List α
  | [] => []
  | f :: ctx => before ctx ++ f.before

/-- The values of a way that come after the place it leads to. -/
def after : List (Frame α) → List α
  | [] => []
  | f :: ctx => f.after ++ after ctx

/-- The values of a tree with a subtree at some place: those before, its own,
those after. A change below is a change in the middle. -/
theorem toList_plug (ctx : List (Frame α)) (t : RBTree α) :
    (plug ctx t).toList = before ctx ++ t.toList ++ after ctx := by
  induction ctx generalizing t with
  | nil => simp [plug, before, after]
  | cons f ctx ih => simp [plug, before, after, ih, f.toList_fill]

/-- The way to the other side. -/
theorem plug_other (s : Side) (red : Bool) (v : α) (o t : RBTree α) :
    plug (⟨s, red, v, o⟩ :: ctx) t = plug (⟨s.other, red, v, t⟩ :: ctx) o := by
  simp only [plug, Frame.fill, RBTree.facing_other]

/-- Subtrees with the same values in the same order make trees with the same. -/
theorem toList_plug_congr (ctx : List (Frame α)) (h : t.toList = t'.toList) :
    (plug ctx t).toList = (plug ctx t').toList := by
  rw [toList_plug, toList_plug, h]

/-- A way in two parts leads through the lower one to where the upper one leads. -/
theorem plug_append (ctx' ctx : List (Frame α)) (t : RBTree α) :
    plug (ctx' ++ ctx) t = plug ctx (plug ctx' t) := by
  induction ctx' generalizing t with
  | nil => rfl
  | cons f ctx' ih => exact ih (f.fill t)

/-- The values before a place, on a way in two parts. -/
theorem before_append (ctx' ctx : List (Frame α)) :
    before (ctx' ++ ctx) = before ctx ++ before ctx' := by
  induction ctx' with
  | nil => simp [before]
  | cons f ctx' ih => simp [before, ih]

/-- The values after a place, on a way in two parts. -/
theorem after_append (ctx' ctx : List (Frame α)) :
    after (ctx' ++ ctx) = after ctx' ++ after ctx := by
  induction ctx' with
  | nil => rfl
  | cons f ctx' ih => simp [after, ih]

/-- A place is no deeper than the tree, counting what is below it. -/
theorem length_add_depth_le (ctx : List (Frame α)) (t : RBTree α) :
    ctx.length + t.depth ≤ (plug ctx t).depth := by
  induction ctx generalizing t with
  | nil => simp [plug]
  | cons f ctx ih =>
    have hfill : t.depth + 1 ≤ (f.fill t).depth := by
      rw [Frame.fill, RBTree.depth_facing]
      omega
    have := ih (f.fill t)
    rw [plug, List.length_cons]
    omega

/-- Every value stands at the end of a way. -/
theorem exists_plug_of_mem {t : RBTree α} (h : v ∈ t.toList) :
    ∃ ctx red l r, t = plug ctx (.node red l v r) := by
  suffices hall : ∀ ctx₀ : List (Frame α), ∃ ctx red l r,
      plug ctx₀ t = plug ctx (.node red l v r) from hall []
  induction t with
  | nil => cases h
  | node red l w r ihl ihr =>
    intro ctx₀
    rw [RBTree.toList, List.mem_append, List.mem_cons] at h
    rcases h with h | rfl | h
    · exact ihl h (⟨.left, red, w, r⟩ :: ctx₀)
    · exact ⟨ctx₀, red, l, r, rfl⟩
    · exact ihr h (⟨.right, red, w, l⟩ :: ctx₀)

/-! ### Balance -/

/-- No red node has a red child, and `h` black nodes are on every way down. -/
inductive IsBalanced : RBTree α → ℕ → Prop
  | nil : IsBalanced .nil 0
  | red {l r : RBTree α} {v : α} {h : ℕ} (hl : IsBalanced l h) (hr : IsBalanced r h)
      (hlb : l.isRed = false) (hrb : r.isRed = false) : IsBalanced (.node true l v r) h
  | black {l r : RBTree α} {v : α} {h : ℕ} (hl : IsBalanced l h) (hr : IsBalanced r h) :
      IsBalanced (.node false l v r) (h + 1)

/-- A red node is balanced when its children are, with the same number of black
nodes, and are black. -/
@[simp] theorem balanced_red : IsBalanced (.facing s true c v t) h ↔
    IsBalanced c h ∧ IsBalanced t h ∧ c.isRed = false ∧ t.isRed = false := by
  constructor
  · intro hb
    cases s
    · cases hb with
      | red hl hr hlb hrb => exact ⟨hl, hr, hlb, hrb⟩
    · cases hb with
      | red hl hr hlb hrb => exact ⟨hr, hl, hrb, hlb⟩
  · rintro ⟨hc, ht, hcb, htb⟩
    cases s
    · exact .red hc ht hcb htb
    · exact .red ht hc htb hcb

/-- A black node is balanced when its children are, with one black node less;
their colours are free. -/
@[simp] theorem balanced_black : IsBalanced (.facing s false c v t) h ↔
    ∃ k, h = k + 1 ∧ IsBalanced c k ∧ IsBalanced t k := by
  constructor
  · intro hb
    cases s
    · cases hb with
      | black hl hr => exact ⟨_, rfl, hl, hr⟩
    · cases hb with
      | black hl hr => exact ⟨_, rfl, hr, hl⟩
  · rintro ⟨k, rfl, hc, ht⟩
    cases s
    · exact .black hc ht
    · exact .black ht hc

/-- The value of a node has no part in the balance. -/
theorem IsBalanced.of_facing (ht : IsBalanced (.facing s red c v t) h) (w : α) :
    IsBalanced (.facing s red c w t) h := by
  cases red with
  | true => exact balanced_red.2 (balanced_red.1 ht)
  | false => exact balanced_black.2 (balanced_black.1 ht)

/-- Blackening the root keeps the tree balanced, at most with one black node
more on each way. -/
theorem IsBalanced.blacken (ht : IsBalanced t h) : ∃ n, IsBalanced t.blacken n := by
  cases ht with
  | nil => exact ⟨0, .nil⟩
  | red hl hr _ _ => exact ⟨_, .black hl hr⟩
  | black hl hr => exact ⟨_, .black hl hr⟩

/-- A blackened tree is not red. -/
theorem isRed_blacken : t.blacken.isRed = false := by cases t <;> rfl

/-- Blackening a black tree does nothing. -/
theorem blacken_of_black (ht : t.isRed = false) : t.blacken = t := by
  cases t with
  | nil => rfl
  | node red l v r =>
    simp only [RBTree.isRed] at ht
    rw [ht]
    rfl

/-- A red-black tree: its root is black. -/
def IsRedBlack (t : RBTree α) : Prop := t.isRed = false ∧ ∃ n, IsBalanced t n

/-- A balanced tree with its root made black is a red-black tree. -/
theorem IsBalanced.isRedBlack_blacken (ht : IsBalanced t h) : IsRedBlack t.blacken :=
  ⟨isRed_blacken, ht.blacken⟩

/-- Blackening a red-black tree leaves one. -/
theorem IsRedBlack.blacken (ht : IsRedBlack t) : IsRedBlack t.blacken := by
  rwa [blacken_of_black ht.1]

/-- Below `h` black nodes there is a node. -/
theorem IsBalanced.exists_node (ht : IsBalanced t (h + 1)) (s : Side) :
    ∃ red c v d, t = .facing s red c v d := by
  cases t with
  | nil => cases ht
  | node red l v r =>
    obtain ⟨c, d, hcd⟩ := RBTree.eq_facing s red l v r
    exact ⟨red, c, v, d, hcd⟩

/-- A tree with `h` black nodes on each way has at least `2 ^ h - 1` nodes. -/
theorem IsBalanced.two_pow_le (ht : IsBalanced t h) : 2 ^ h ≤ t.toList.length + 1 := by
  induction ht with
  | nil => simp [RBTree.toList]
  | red _ _ _ _ ihl ihr =>
    rw [RBTree.toList, List.length_append, List.length_cons]
    omega
  | black _ _ ihl ihr =>
    rw [RBTree.toList, List.length_append, List.length_cons, Nat.pow_succ]
    omega

/-- A way is at most twice as long as the black nodes on it, and one more with a
red root, for no red node is below another. -/
theorem IsBalanced.depth_le (ht : IsBalanced t h) :
    t.depth ≤ 2 * h + 1 ∧ (t.isRed = false → t.depth ≤ 2 * h) := by
  induction ht with
  | nil => simp [RBTree.depth]
  | red _ _ hlb hrb ihl ihr =>
    have := ihl.2 hlb
    have := ihr.2 hrb
    rw [RBTree.depth]
    refine ⟨by omega, fun hred => ?_⟩
    cases hred
  | black _ _ ihl ihr =>
    rw [RBTree.depth]
    exact ⟨by omega, fun _ => by omega⟩

/-- **A red-black tree is not deep.** -/
theorem IsRedBlack.depth_le (ht : IsRedBlack t) :
    t.depth ≤ 2 * Nat.log 2 (t.toList.length + 1) := by
  obtain ⟨hroot, n, hn⟩ := ht
  have hlog := Nat.le_log_of_pow_le Nat.one_lt_two hn.two_pow_le
  have := hn.depth_le.2 hroot
  omega

/-! ### What fits at the end of a way -/

/-- Beside the way and above it the tree is balanced, where `h` black nodes are on every
way down from its end.  The root is black. -/
inductive Around : List (Frame α) → ℕ → Prop
  | root {h : ℕ} : Around [] h
  | black {s : Side} {v : α} {o : RBTree α} {ctx : List (Frame α)} {h : ℕ} (ho : IsBalanced o h)
      (hctx : Around ctx (h + 1)) : Around (⟨s, false, v, o⟩ :: ctx) h
  | red {s s' : Side} {v v' : α} {o o' : RBTree α} {ctx : List (Frame α)} {h : ℕ}
      (ho : IsBalanced o h) (hob : o.isRed = false) (hctx : Around (⟨s', false, v', o'⟩ :: ctx) h) :
      Around (⟨s, true, v, o⟩ :: ⟨s', false, v', o'⟩ :: ctx) h

/-- The node above may have a red child. -/
def Black : List (Frame α) → Prop
  | [] => False
  | f :: _ => f.red = false

/-- A balanced tree at the end of a way that it fits: below a red node it is
black. -/
structure Fits (ctx : List (Frame α)) (t : RBTree α) (h : ℕ) : Prop where
  around : Around ctx h
  balanced : IsBalanced t h
  root : t.isRed = true → Black ctx

/-- A tree that fits its place makes a red-black tree of the whole. -/
theorem Fits.isRedBlack (hfits : Fits ctx t h) : IsRedBlack (plug ctx t) := by
  obtain ⟨hctx, ht, hroot⟩ := hfits
  induction ctx generalizing t h with
  | nil =>
    refine ⟨?_, h, ht⟩
    cases hred : t.isRed with
    | false => exact hred
    | true => exact (hroot hred).elim
  | cons f ctx ih =>
    cases hctx with
    | black ho hctx =>
      refine ih hctx (balanced_black.2 ⟨h, rfl, ht, ho⟩) fun hred => ?_
      simp [Frame.fill] at hred
    | red ho hob hctx =>
      have hblack : t.isRed = false := by
        cases hred : t.isRed with
        | false => rfl
        | true => exact absurd (hroot hred) (by simp [Black])
      exact ih hctx (balanced_red.2 ⟨ht, ho, hblack, hob⟩) fun _ => rfl

/-- In a red-black tree every subtree fits its place. -/
theorem IsRedBlack.fits (ht : IsRedBlack (plug ctx t)) : ∃ h, Fits ctx t h := by
  induction ctx generalizing t with
  | nil =>
    obtain ⟨hroot, n, hn⟩ := ht
    exact ⟨n, .root, hn, fun hred => by simp [plug, hred] at hroot⟩
  | cons f ctx ih =>
    obtain ⟨k, hctx, hf, hroot⟩ := ih ht
    obtain ⟨s, red, v, o⟩ := f
    cases red with
    | false =>
      obtain ⟨h, rfl, htb, ho⟩ := balanced_black.1 hf
      exact ⟨h, .black ho hctx, htb, fun _ => rfl⟩
    | true =>
      obtain ⟨htb, ho, htr, hor⟩ := balanced_red.1 hf
      have habove := hroot RBTree.isRed_facing
      match ctx, hctx, habove with
      | ⟨s', _, v', o'⟩ :: ctx, hctx, rfl =>
        exact ⟨k, .red ho hor hctx, htb, fun hred => by simp [hred] at htr⟩

/-- The values do not matter. -/
theorem IsRedBlack.of_value {o : RBTree α} {ctx' : List (Frame α)}
    (ht : IsRedBlack (plug (ctx' ++ ⟨s, red, v, o⟩ :: ctx) t)) (w : α) :
    IsRedBlack (plug (ctx' ++ ⟨s, red, w, o⟩ :: ctx) t) := by
  rw [plug_append] at ht ⊢
  have hplug : IsRedBlack (plug ctx (.facing s red (plug ctx' t) v o)) := ht
  obtain ⟨h, hctx, hb, hroot⟩ := hplug.fits
  rw [RBTree.isRed_facing] at hroot
  have hfits : Fits ctx (.facing s red (plug ctx' t) w o) h :=
    ⟨hctx, hb.of_facing w, fun hred => hroot (RBTree.isRed_facing.symm.trans hred)⟩
  exact hfits.isRedBlack

/-! ### One level of an insertion -/

/-- Above a red node stands a black one. -/
theorem Around.grandparent {o : RBTree α} (hctx : Around (⟨s, true, v, o⟩ :: ctx) h) :
    ∃ s' v' o' ctx', ctx = ⟨s', false, v', o'⟩ :: ctx' ∧ IsBalanced o h ∧ o.isRed = false ∧
      IsBalanced o' h ∧ Around ctx' (h + 1) := by
  cases hctx with
  | red ho hob hctx =>
    cases hctx with
    | black ho' hctx => exact ⟨_, _, _, _, rfl, ho, hob, ho', hctx⟩

/-- A red root made black adds one black node to each way. -/
theorem IsBalanced.blacken_of_red (ht : IsBalanced t h) (hred : t.isRed = true) :
    IsBalanced t.blacken (h + 1) := by
  cases ht with
  | nil => cases hred
  | red hl hr _ _ => exact .black hl hr
  | black => cases hred

/-! ### One level of a removal -/

/-- The sibling of a subtree that has a black node too few. -/
theorem Around.sibling {o : RBTree α} (hctx : Around (⟨s, red, v, o⟩ :: ctx) h) :
    IsBalanced o h := by
  cases hctx with
  | black ho _ => exact ho
  | red ho _ _ => exact ho

/-- A red sibling is turned up. -/
theorem Around.turn (hctx : Around (⟨s, red, v, .facing s true a w b⟩ :: ctx) h) :
    red = false ∧ Around (⟨s, true, v, a⟩ :: ⟨s, false, w, b⟩ :: ctx) h := by
  cases hctx with
  | black ho hctx =>
    obtain ⟨ha, hb, har, -⟩ := balanced_red.1 ho
    exact ⟨rfl, .red ha har (.black hb hctx)⟩
  | red _ hob _ => simp at hob

/-- A node in the place and with the colour of the one above, over black children. -/
theorem Around.fits_facing (s' : Side) {o : RBTree α} (hctx : Around (⟨s, red, v, o⟩ :: ctx) h)
    (ha : IsBalanced a h) (hb : IsBalanced b h) (har : a.isRed = false) (hbr : b.isRed = false) :
    ∃ n, Fits ctx (.facing s' red a w b) n := by
  cases hctx with
  | black _ hctx =>
    exact ⟨_, hctx, balanced_black.2 ⟨h, rfl, ha, hb⟩, fun hred => by simp at hred⟩
  | red _ _ hctx => exact ⟨_, hctx, balanced_red.2 ⟨ha, hb, har, hbr⟩, fun _ => rfl⟩

/-! ### The search -/

section Search

variable [LinearOrder κ] {key : α → κ} {k : κ} {l r : RBTree α}

/-- Where the values are in the order of their keys, a key is at the end of a way, or
nowhere. -/
structure Toward (key : α → κ) (ctx : List (Frame α)) (k : κ) : Prop where
  before : ∀ v ∈ before ctx, key v < k
  after : ∀ v ∈ after ctx, k < key v

/-- At the root a search knows nothing of its key. -/
theorem Toward.nil : Toward key [] k :=
  ⟨fun _ h => absurd h List.not_mem_nil, fun _ h => absurd h List.not_mem_nil⟩

/-- The values of a subtree of a sorted tree are sorted. -/
theorem sorted_of_plug (hs : (plug ctx t).toList.Pairwise (key · < key ·)) :
    t.toList.Pairwise (key · < key ·) := by
  rw [toList_plug] at hs
  exact (List.pairwise_append.1 (List.pairwise_append.1 hs).1).2.1

/-- A search that goes left, for a smaller key: the key stays below all that
comes after the new place. -/
theorem Toward.left (hk : Toward key ctx k)
    (hs : (plug ctx (.node red l v r)).toList.Pairwise (key · < key ·)) (hlt : k < key v) :
    Toward key (⟨.left, red, v, r⟩ :: ctx) k := by
  have hr := (List.pairwise_append.1 (sorted_of_plug hs)).2.1
  refine ⟨fun w hw => ?_, fun w hw => ?_⟩
  · exact hk.before w (by simpa [RedBlack.before, Frame.before] using hw)
  · simp only [RedBlack.after, Frame.after, List.cons_append, List.mem_cons,
      List.mem_append] at hw
    rcases hw with rfl | hw | hw
    · exact hlt
    · exact hlt.trans (List.rel_of_pairwise_cons hr hw)
    · exact hk.after w hw

/-- A search that goes right, for a greater key: the key stays above all that
comes before the new place. -/
theorem Toward.right (hk : Toward key ctx k)
    (hs : (plug ctx (.node red l v r)).toList.Pairwise (key · < key ·)) (hlt : key v < k) :
    Toward key (⟨.right, red, v, l⟩ :: ctx) k := by
  have hl := (List.pairwise_append.1 (sorted_of_plug hs)).2.2
  refine ⟨fun w hw => ?_, fun w hw => ?_⟩
  · simp only [RedBlack.before, Frame.before, List.mem_append, List.mem_singleton] at hw
    rcases hw with hw | hw | rfl
    · exact hk.before w hw
    · exact (hl w hw v List.mem_cons_self).trans hlt
    · exact hlt
  · exact hk.after w (by simpa [RedBlack.after, Frame.after] using hw)

/-- At the end of the way there is nothing. -/
theorem Toward.notMem (hk : Toward key ctx k) : ∀ v ∈ (plug ctx .nil).toList, key v ≠ k := by
  intro v hv
  rw [toList_plug, RBTree.toList, List.append_nil, List.mem_append] at hv
  rcases hv with hv | hv
  · exact (hk.before v hv).ne
  · exact (hk.after v hv).ne'

/-- A value there keeps the order. -/
theorem Toward.sorted (hk : Toward key ctx (key v))
    (hs : (plug ctx .nil).toList.Pairwise (key · < key ·)) :
    (plug ctx (.node red .nil v .nil)).toList.Pairwise (key · < key ·) := by
  rw [toList_plug, RBTree.toList, List.append_nil] at hs
  obtain ⟨hbefore, hafter, hboth⟩ := List.pairwise_append.1 hs
  rw [toList_plug, List.append_assoc]
  refine List.pairwise_append.2 ⟨hbefore, List.pairwise_cons.2 ⟨hk.after, hafter⟩, ?_⟩
  intro a ha b hb
  rcases List.mem_cons.1 hb with rfl | hb
  · exact hk.before a ha
  · exact hboth a ha b hb

end Search

end RedBlack
