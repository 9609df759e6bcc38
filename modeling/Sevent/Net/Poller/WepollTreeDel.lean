/-
# `tree_del`
-/

import Sevent.Net.Poller.WepollTreeAdd

namespace Sevent
namespace Net
namespace Wepoll
namespace RedBlackTree

open RedBlack TreeHeap

variable {base : ℕ → TreeNode} {h : TreeHeap} {t c d o u l r : RBTree Entry} {s s' : Side}
  {red red' : Bool} {v w p g : Entry} {f : Frame Entry} {ctx : List (Frame Entry)} {n : ℕ}

/-! ### The rebalancing -/

/-- A rotation at the parent of the sibling, which takes the colour of the parent. -/
theorem rotate_sibling_spec (hd : d.isRed = true)
    (hh : Holds base h (plug (⟨s, red, p, .facing s red' c w d⟩ :: ctx) t)) :
    ∃ h', rotate_sibling s h p.node w.node = some (h', true) ∧
      Holds base h' (plug ctx (.facing s red (.facing s false t p c) w d.blacken)) := by
  have hsibling : Holds base h (plug (⟨s.other, red, p, t⟩ :: ctx) (.facing s red' c w d)) := by
    rwa [plug_other] at hh
  have h₁ := hsibling.setRed red
  have hchild : Holds base (h.setRed w.node red)
      (plug (⟨s.other, red, w, c⟩ :: ⟨s.other, red, p, t⟩ :: ctx) d) := by
    rw [← plug_other]
    exact h₁
  obtain ⟨x, hx⟩ : ∃ x, addr d = some x := by
    cases d with
    | nil => cases hd
    | node _ _ v _ => exact ⟨v.node, rfl⟩
  have h₂ := hchild.setBlack
  rw [hx, ← plug_other] at h₂
  have h₃ : Holds base (((h.setRed w.node red).setRed x false))
      (plug ctx (.facing s red t p (.facing s red c w d.blacken))) := by
    have hback : Holds base _
      (plug (⟨s.other, red, p, t⟩ :: ctx) (.facing s red c w d.blacken)) := h₂
    rwa [← plug_other] at hback
  obtain ⟨h', hrun, hh'⟩ := (h₃.setRed false).rotate
  refine ⟨h', ?_, hh'⟩
  simp only [rotate_sibling, hh.above, TreeNode.red_facing, h₁.node, TreeNode.child_other_facing,
    hx, Option.bind_eq_bind, Option.bind_some, hrun]

/-- What the loop leaves of a black sibling. -/
theorem rebalance_black_sibling_spec
    (hh : Holds base h (plug (⟨s, red, p, .facing s false c w d⟩ :: ctx) t))
    (hctx : Around (⟨s, red, p, .facing s false c w d⟩ :: ctx) (n + 1)) (ht : IsBalanced t n) :
    (∃ h' t', rebalance_black_sibling s h p.node w.node = some (h', true) ∧ Holds base h' t' ∧
      t'.toList = (plug (⟨s, red, p, .facing s false c w d⟩ :: ctx) t).toList ∧ IsRedBlack t') ∨
    ∃ h', rebalance_black_sibling s h p.node w.node = some (h', false) ∧
      Holds base h' (plug (⟨s, red, p, .facing s true c w d⟩ :: ctx) t) ∧
      IsBalanced (.facing s true c w d) n := by
  obtain ⟨k, hk, hc, hd⟩ := balanced_black.1 hctx.sibling
  obtain rfl : n = k := by omega
  have hsibling : Holds base h (plug (⟨s.other, red, p, t⟩ :: ctx) (.facing s false c w d)) := by
    rwa [plug_other] at hh
  have hw := hsibling.node
  have hcred : h.isRed (addr c) = c.isRed := by
    have hchild : Holds base h (plug (⟨s, false, w, d⟩ :: ⟨s.other, red, p, t⟩ :: ctx) c) :=
      hsibling
    exact hchild.isRed
  have hdred : h.isRed (addr d) = d.isRed := by
    have hchild : Holds base h
        (plug (⟨s.other, false, w, c⟩ :: ⟨s.other, red, p, t⟩ :: ctx) d) := by
      rw [← plug_other]
      exact hsibling
    exact hchild.isRed
  have hred : (h.isRed (h.node w.node).left || h.isRed (h.node w.node).right) =
      (c.isRed || d.isRed) := by
    rw [hw]
    cases s
    · exact congrArg₂ _ hcred hdred
    · rw [Bool.or_comm]
      exact congrArg₂ _ hcred hdred
  rw [rebalance_black_sibling, hred]
  simp only [hw, TreeNode.child_other_facing, hdred, TreeNode.child_facing]
  cases hdr : d.isRed with
  | true =>
    obtain ⟨h', hrun, hh'⟩ := rotate_sibling_spec hdr hh
    have hleft : IsBalanced (.facing s false t p c) (n + 1) := balanced_black.2 ⟨n, rfl, ht, hc⟩
    obtain ⟨k, hfits⟩ :=
      hctx.fits_facing s (w := w) hleft (hd.blacken_of_red hdr) RBTree.isRed_facing isRed_blacken
    refine .inl ⟨h', _, ?_, hh', toList_plug_congr ctx ?_, hfits.isRedBlack⟩
    · simpa using hrun
    · cases s <;> simp [Frame.fill, RBTree.facing, RBTree.toList]
  | false =>
    cases hcr : c.isRed with
    | false =>
      refine .inr ⟨h.setRed w.node true, by simp, ?_, balanced_red.2 ⟨hc, hd, hcr, hdr⟩⟩
      have := hsibling.setRed true
      rwa [← plug_other] at this
    -- the red child is turned to the other side first
    | true =>
      obtain ⟨c₁, x, c₂, rfl⟩ := RBTree.exists_facing_of_red hcr s
      obtain ⟨hc₁, hc₂, hc₁r, hc₂r⟩ := balanced_red.1 hc
      have hchild : Holds base h
          (plug (⟨s, false, w, d⟩ :: ⟨s.other, red, p, t⟩ :: ctx) (.facing s true c₁ x c₂)) :=
        hsibling
      have h₁ : Holds base (h.setRed x.node false) (plug (⟨s.other, red, p, t⟩ :: ctx)
          (.facing s false (.facing s false c₁ x c₂) w d)) := hchild.setRed false
      have h₂ := h₁.setRed true
      rw [← RBTree.facing_other, ← RBTree.facing_other s false c₂] at h₂
      obtain ⟨h₃, hrun₃, hh₃⟩ := h₂.rotate
      rw [RBTree.facing_other, RBTree.facing_other, ← plug_other] at hh₃
      have hd' : (RBTree.facing s true c₂ w d).isRed = true := RBTree.isRed_facing
      obtain ⟨h', hrun, hh'⟩ := rotate_sibling_spec hd' hh₃
      have hleft : IsBalanced (.facing s false t p c₁) (n + 1) :=
        balanced_black.2 ⟨n, rfl, ht, hc₁⟩
      have hright : IsBalanced (.facing s false c₂ w d) (n + 1) :=
        balanced_black.2 ⟨n, rfl, hc₂, hd⟩
      obtain ⟨k, hfits⟩ := hctx.fits_facing s (w := x) hleft hright RBTree.isRed_facing
        RBTree.isRed_facing
      rw [RBTree.blacken_facing] at hh'
      refine .inl ⟨h', _, ?_, hh', toList_plug_congr ctx ?_, hfits.isRedBlack⟩
      · simp [addr_facing, hrun₃, hh₃.above, hrun]
      · cases s <;> simp [Frame.fill, RBTree.facing, RBTree.toList]

/-- Below a red node one black node more is enough. -/
theorem isRedBlack_of_red_parent (hctx : Around (⟨s, true, p, o⟩ :: ctx) (n + 1))
    (ht : IsBalanced t n) (hu : IsBalanced u n) :
    IsRedBlack (plug (⟨s, false, p, u⟩ :: ctx) t) := by
  cases hctx with
  | red _ _ hctx =>
    have hfits : Fits _ (.facing s false t p u) (n + 1) :=
      ⟨hctx, balanced_black.2 ⟨n, rfl, ht, hu⟩, fun hred => by simp at hred⟩
    exact hfits.isRedBlack

/-- One round: the loop ends with it, or at the parent, or goes on from there. -/
theorem rebalance_after_remove_spec (hh : Holds base h (plug (⟨s, red, p, o⟩ :: ctx) t))
    (hctx : Around (⟨s, red, p, o⟩ :: ctx) (n + 1)) (ht : IsBalanced t n) :
    (∃ h' t', rebalance_after_remove s h p.node = some (h', true) ∧ Holds base h' t' ∧
      t'.toList = (plug (⟨s, red, p, o⟩ :: ctx) t).toList ∧ IsRedBlack t') ∨
    (∃ h' u ctx', rebalance_after_remove s h p.node = some (h', false) ∧
      Holds base h' (plug (⟨s, true, p, u⟩ :: ctx') t) ∧
      (plug (⟨s, false, p, u⟩ :: ctx') t).toList = (plug (⟨s, red, p, o⟩ :: ctx) t).toList ∧
      IsRedBlack (plug (⟨s, false, p, u⟩ :: ctx') t)) ∨
    (red = false ∧ ∃ h' u, rebalance_after_remove s h p.node = some (h', false) ∧
      Holds base h' (plug (⟨s, false, p, u⟩ :: ctx) t) ∧
      (plug (⟨s, false, p, u⟩ :: ctx) t).toList = (plug (⟨s, red, p, o⟩ :: ctx) t).toList ∧
      IsBalanced u n) := by
  obtain ⟨red', c, w, d, rfl⟩ := hctx.sibling.exists_node s
  have hsibling : Holds base h (plug (⟨s.other, red, p, t⟩ :: ctx) (.facing s red' c w d)) := by
    rwa [plug_other] at hh
  simp only [rebalance_after_remove, hh.above, TreeNode.child_other_facing, addr_facing,
    Option.bind_eq_bind, Option.bind_some, hsibling.node, TreeNode.red_facing]
  cases red' with
  | false =>
    simp only [Bool.false_eq_true, if_false]
    rcases rebalance_black_sibling_spec hh hctx ht with hend | ⟨h', hrun, hh', hu⟩
    · exact .inl hend
    · have hlist : (plug (⟨s, false, p, .facing s true c w d⟩ :: ctx) t).toList =
          (plug (⟨s, red, p, .facing s false c w d⟩ :: ctx) t).toList :=
        toList_plug_congr ctx (RBTree.toList_facing_congr rfl (RBTree.toList_facing_congr rfl rfl))
      cases red with
      | true =>
        exact .inr (.inl ⟨h', _, ctx, hrun, hh', hlist, isRedBlack_of_red_parent hctx ht hu⟩)
      | false => exact .inr (.inr ⟨rfl, h', _, hrun, hh', hlist, hu⟩)
  -- a red sibling is turned up, and the parent is red then
  | true =>
    obtain ⟨rfl, hturn⟩ := hctx.turn
    have h₁ := hsibling.setRed false
    rw [← plug_other] at h₁
    have h₂ : Holds base ((h.setRed w.node false).setRed p.node true)
        (plug ctx (.facing s true t p (.facing s false c w d))) := Holds.setRed h₁ true
    obtain ⟨h₃, hrun₃, hh₃⟩ := h₂.rotate
    have hturned : Holds base h₃ (plug (⟨s, true, p, c⟩ :: ⟨s, false, w, d⟩ :: ctx) t) := hh₃
    obtain ⟨red', c₁, x, c₂, rfl⟩ := hturn.sibling.exists_node s
    obtain rfl : red' = false := by
      cases hturn with
      | red _ hob _ => simpa using hob
    simp only [if_true, hrun₃, Option.bind_some, hturned.above, TreeNode.child_other_facing,
      addr_facing]
    have hlist : (plug (⟨s, true, p, .facing s false c₁ x c₂⟩ :: ⟨s, false, w, d⟩ :: ctx)
          t).toList =
        (plug (⟨s, false, p, .facing s true (.facing s false c₁ x c₂) w d⟩ :: ctx) t).toList :=
      toList_plug_congr ctx RBTree.toList_rotate.symm
    rcases rebalance_black_sibling_spec hturned hturn ht with
      ⟨h', t', hrun, hh', hlist', hb⟩ | ⟨h', hrun, hh', hu⟩
    · exact .inl ⟨h', t', hrun, hh', hlist'.trans hlist, hb⟩
    · refine .inr (.inl ⟨h', _, _, hrun, hh', ?_, isRedBlack_of_red_parent hturn ht hu⟩)
      refine Eq.trans ?_ hlist
      exact toList_plug_congr (⟨s, false, w, d⟩ :: ctx)
        (RBTree.toList_facing_congr rfl (RBTree.toList_facing_congr rfl rfl))

/-- Below the root there is not the root. -/
theorem Holds.addr_ne_root (hh : Holds base h (plug (f :: ctx) t)) : addr t ≠ h.root := by
  obtain ⟨habove, -, hnodup, -⟩ := holds_plug.1 hh
  obtain ⟨x, hx, hstart⟩ := start_mem f ctx (addr t)
  rw [habove.root, hstart]
  exact fun heq => (List.nodup_append.1 hnodup).2.2 x (addr_mem heq) x hx rfl

/-- The loop ends, with the values in the order they had. -/
theorem remove_loop_spec {fuel : ℕ} (hfuel : ctx.length < fuel)
    (hh : Holds base h (plug ctx t)) (hctx : Around ctx (n + 1)) (ht : IsBalanced t n) :
    ∃ h' t', remove_loop fuel h (addr t) (up none ctx) = some h' ∧ Holds base h' t' ∧
      t'.toList = (plug ctx t).toList ∧ IsRedBlack t' := by
  induction fuel generalizing ctx h t n with
  | zero => omega
  | succ fuel ih =>
    cases ctx with
    | nil =>
      have hroot : addr t = h.root := hh.root.symm
      refine ⟨_, t.blacken, ?_, hh.setBlack, RBTree.toList_blacken, ht.isRedBlack_blacken⟩
      rw [remove_loop, if_pos hroot]
    | cons f ctx =>
      obtain ⟨s, red, p, o⟩ := f
      obtain ⟨red', c, w, d, rfl⟩ := hctx.sibling.exists_node s
      have hside := hh.side fun heq => hh.addr_ne (heq.symm.trans addr_facing) addr_facing
      simp only [remove_loop, if_neg hh.addr_ne_root, up, Option.bind_eq_bind, Option.bind_some,
        hside]
      rcases rebalance_after_remove_spec hh hctx ht with
        ⟨h', t', hrun, hh', hlist, hb⟩ | ⟨h', u, ctx', hrun, hh', hlist, hb⟩ |
          ⟨rfl, h', u, hrun, hh', hlist, hu⟩
      · have hplug : Holds base h' (plug [] t') := hh'
        simp only [hrun, Option.bind_some, if_true, hh'.root]
        exact ⟨_, t'.blacken, rfl, hplug.setBlack, RBTree.toList_blacken.trans hlist, hb.blacken⟩
      · have hblack : Holds base _ (plug ctx' (.facing s false t p u)) := Holds.setRed hh' false
        simp only [hrun, Option.bind_some, Bool.false_eq_true, if_false, hh'.above,
          TreeNode.red_facing, if_true]
        exact ⟨_, _, rfl, hblack, hlist, hb⟩
      · have hup : Holds base h' (plug ctx (.facing s false t p u)) := hh'
        have hctx' : Around ctx (n + 1 + 1) := by
          cases hctx with
          | black _ hctx => exact hctx
        obtain ⟨h₁, t', hloop, hh₁, hlist', hb⟩ :=
          ih (by simpa using hfuel) hup hctx' (balanced_black.2 ⟨n, rfl, ht, hu⟩)
        rw [addr_facing] at hloop
        simp only [hrun, Option.bind_some, Bool.false_eq_true, if_false, hh'.above,
          TreeNode.red_facing, TreeNode.parent_facing, hloop]
        exact ⟨h₁, t', rfl, hh₁, hlist'.trans hlist, hb⟩

/-- What is behind the splice, for a node that had one child at most. -/
theorem remove_rest {x : Entry} {k fuel : ℕ} (hfits : Fits ctx (.facing s red .nil x t) k)
    (hh : Holds base h (plug ctx t)) (hfuel : ctx.length < fuel) :
    ∃ h' t', (if red then some h
        else if h.isRed (addr t) then some (h.setBlack (addr t))
        else remove_loop fuel h (addr t) (up none ctx)) = some h' ∧
      Holds base h' t' ∧ t'.toList = (plug ctx t).toList ∧ IsRedBlack t' := by
  obtain ⟨hctx, hb, -⟩ := hfits
  cases red with
  | true =>
    obtain ⟨-, ht, -, htr⟩ := balanced_red.1 hb
    have hdone : Fits ctx t k := ⟨hctx, ht, fun hred => by simp [htr] at hred⟩
    exact ⟨h, _, rfl, hh, rfl, hdone.isRedBlack⟩
  | false =>
    obtain ⟨n, rfl, -, ht⟩ := balanced_black.1 hb
    simp only [Bool.false_eq_true, if_false, hh.isRed]
    cases htr : t.isRed with
    | true =>
      have hdone : Fits ctx t.blacken (n + 1) :=
        ⟨hctx, ht.blacken_of_red htr, fun hred => by simp [isRed_blacken] at hred⟩
      exact ⟨_, _, rfl, hh.setBlack, toList_plug_congr ctx RBTree.toList_blacken, hdone.isRedBlack⟩
    | false => exact remove_loop_spec hfuel hh hctx ht

/-! ### The splice -/

/-- A node with one child at most. -/
theorem Holds.splice (hh : Holds base h (plug ctx (.facing s red .nil v t))) :
    Holds (Function.update base v.node (h.node v.node))
      ((h.replace (up none ctx) v.node (addr t)).setParent (addr t) (up none ctx))
      (plug ctx t) := by
  obtain ⟨habove, ht, hnodup, hout⟩ := holds_plug.1 hh
  obtain ⟨-, -, ht⟩ := rep_facing.1 ht
  obtain ⟨⟨-, hvt, hvl⟩, hl, htl, -⟩ := nodup_facing.1 hnodup
  obtain ⟨htnodup, -, hdisjoint⟩ := List.nodup_append.1 htl
  rw [addr_facing] at habove
  have habove₁ : Above (h.replace (up none ctx) v.node (addr t)) ctx (addr t) :=
    habove.replace hvl hl
  have hnode₁ : ∀ x ∉ nodesAround ctx,
      (h.replace (up none ctx) v.node (addr t)).node x = h.node x := fun x =>
    replace_node_of_notMem
  generalize h.replace (up none ctx) v.node (addr t) = h₁ at habove₁ hnode₁ ⊢
  have hnode : ∀ x ∉ nodes t, (h₁.setParent (addr t) (up none ctx)).node x = h₁.node x := fun x =>
    setParent_node_of_notMem
  refine holds_plug.2 ⟨habove₁.congr setParent_root fun x hx => hnode x ?_, ?_, htl, ?_⟩
  · exact fun hxt => hdisjoint x hxt x hx rfl
  · refine Rep.setParent (ht.congr fun x hx => hnode₁ x ?_) htnodup
    exact fun hxl => hdisjoint x hx x hxl rfl
  · intro x hxt hxl
    rw [hnode x hxt, hnode₁ x hxl]
    by_cases hxv : x = v.node
    · rw [hxv, Function.update_self]
    · rw [Function.update_of_ne hxv]
      refine hout x ?_ hxl
      rw [mem_nodes_facing, not_or, not_or]
      exact ⟨hxv, List.not_mem_nil, hxt⟩

/-- `while (next->left) next = next->left`. -/
theorem leftmost_spec {fuel : ℕ} (hfuel : (RBTree.node red l v r).depth ≤ fuel)
    (hh : Holds base h (plug ctx (.node red l v r))) :
    ∃ ctx' red' w u, leftmost fuel h v.node = some w.node ∧
      RBTree.node red l v r = plug ctx' (.node red' .nil w u) ∧ ∀ f ∈ ctx', f.side = .left := by
  induction fuel generalizing ctx red l v r with
  | zero => simp [RBTree.depth] at hfuel
  | succ fuel ih =>
    have hv : h.node v.node = ⟨addr l, addr r, up none ctx, v.key, red⟩ :=
      Holds.node (s := .left) hh
    simp only [leftmost, hv]
    cases l with
    | nil => exact ⟨[], red, v, r, rfl, rfl, fun _ hf => absurd hf List.not_mem_nil⟩
    | node redl ll vl rl =>
      have hdown : Holds base h (plug (⟨.left, red, v, r⟩ :: ctx) (.node redl ll vl rl)) := hh
      simp only [RBTree.depth] at hfuel ih
      obtain ⟨ctx', red', w, u, hrun, heq, hside⟩ := ih (by omega) hdown
      refine ⟨ctx' ++ [⟨.left, red, v, r⟩], red', w, u, hrun, ?_, fun f hf => ?_⟩
      · rw [plug_append, ← heq]
        rfl
      · rcases List.mem_append.1 hf with hf | hf
        · exact hside f hf
        · rw [List.mem_singleton.1 hf]

/-- The nodes that a node with two children and the one after it concern: their own, those
on the left, those on the right of the next one, on the way to it, and above. -/
def nodesNext (v w : Entry) (l u : RBTree Entry) (ctx' ctx : List (Frame Entry)) : List ℕ :=
  v.node :: w.node :: (nodes l ++ (nodes u ++ (nodesAround ctx' ++ nodesAround ctx)))

variable {ctx' : List (Frame Entry)} {h₁ : TreeHeap}

theorem nodesNext_perm : (nodes (.node red' .nil w u) ++
    nodesAround (ctx' ++ ⟨.right, red, v, l⟩ :: ctx)).Perm (nodesNext v w l u ctx' ctx) := by
  have hnode : nodes (.node red' .nil w u) = w.node :: nodes u := rfl
  refine (List.Perm.append_left _ ((nodesAround_append_perm ..).trans
    (.append_left _ nodesAround_cons_perm))).trans ?_
  rw [hnode, List.perm_iff_count]
  intro x
  simp only [nodesNext, List.count_append, List.count_cons]
  omega

theorem Holds.next (hh : Holds base h
      (plug (ctx' ++ ⟨.right, red, v, l⟩ :: ctx) (.node red' .nil w u))) :
    Above h ctx (some v.node) ∧
      h.node v.node = ⟨addr l, start ctx' (some w.node), up none ctx, v.key, red⟩ ∧
      Rep h.node (some v.node) l ∧ Way h.node (some v.node) ctx' (some w.node) ∧
      h.node w.node = ⟨none, addr u, up (some v.node) ctx', w.key, red'⟩ ∧
      Rep h.node (some w.node) u ∧ (nodesNext v w l u ctx' ctx).Nodup ∧
      ∀ x ∉ nodesNext v w l u ctx' ctx, h.node x = base x := by
  obtain ⟨⟨hroot, hway⟩, ht, hnodup, hout⟩ := holds_plug.1 hh
  obtain ⟨hway', hv, hl, hway⟩ := way_append.1 hway
  obtain ⟨hw, -, hu⟩ := ht
  rw [up_append] at hw
  rw [start_append] at hroot
  refine ⟨⟨hroot, hway⟩, hv, hl, hway', hw, hu, nodesNext_perm.nodup_iff.1 hnodup, fun x hx => ?_⟩
  rw [← nodesNext_perm.mem_iff, List.mem_append, not_or] at hx
  exact hout x hx.1 hx.2

/-- The next node in the place of the other. -/
theorem holds_next (hnodup : (nodesNext v w l u ctx' ctx).Nodup)
    (habove : Above h ctx (some w.node))
    (hw : h.node w.node = ⟨addr l, start ctx' (addr u), up none ctx, w.key, red⟩)
    (hl : Rep h.node (some w.node) l) (hway : Way h.node (some w.node) ctx' (addr u))
    (hu : Rep h.node (up (some w.node) ctx') u)
    (hout : ∀ x ∉ nodesNext v w l u ctx' ctx, h.node x = base x) {h₀ : TreeHeap}
    (hv : h.node v.node = h₀.node v.node) :
    Holds (Function.update base v.node (h₀.node v.node)) h
      (plug (ctx' ++ ⟨.right, red, w, l⟩ :: ctx) u) := by
  have hperm : (v.node :: (nodes u ++ nodesAround (ctx' ++ ⟨.right, red, w, l⟩ :: ctx))).Perm
      (nodesNext v w l u ctx' ctx) := by
    refine (List.Perm.cons _ (List.Perm.append_left _ ((nodesAround_append_perm ..).trans
      (.append_left _ nodesAround_cons_perm)))).trans ?_
    rw [List.perm_iff_count]
    intro x
    simp only [nodesNext, List.count_append, List.count_cons]
    omega
  obtain ⟨-, hnodup'⟩ := List.nodup_cons.1 (hperm.nodup_iff.2 hnodup)
  refine holds_plug.2 ⟨⟨?_, way_append.2 ⟨hway, hw, hl, habove.way⟩⟩, ?_, hnodup', ?_⟩
  · rw [start_append]
    exact habove.root
  · rw [up_append]
    exact hu
  · intro x hxu hxl
    by_cases hxv : x = v.node
    · rw [hxv, Function.update_self, hv]
    · rw [Function.update_of_ne hxv]
      refine hout x ?_
      rw [← hperm.mem_iff, List.mem_cons, List.mem_append]
      exact not_or.2 ⟨hxv, not_or.2 ⟨hxu, hxl⟩⟩

/-- What the lists of nodes have in common is nothing. -/
theorem nodup_nodesNext (hnodup : (nodesNext v w l u ctx' ctx).Nodup) :
    (v.node ≠ w.node ∧ v.node ∉ nodes l ∧ v.node ∉ nodes u ∧ v.node ∉ nodesAround ctx' ∧
      v.node ∉ nodesAround ctx) ∧
    (w.node ∉ nodes l ∧ w.node ∉ nodes u ∧ w.node ∉ nodesAround ctx' ∧
      w.node ∉ nodesAround ctx) ∧
    ((nodes l).Nodup ∧ (nodes u).Nodup ∧ (nodesAround ctx').Nodup ∧ (nodesAround ctx).Nodup) ∧
    (∀ x ∈ nodes l, x ∉ nodes u ∧ x ∉ nodesAround ctx' ∧ x ∉ nodesAround ctx) ∧
    (∀ x ∈ nodes u, x ∉ nodesAround ctx' ∧ x ∉ nodesAround ctx) ∧
    ∀ x ∈ nodesAround ctx', x ∉ nodesAround ctx := by
  simp only [nodesNext, List.nodup_cons, List.mem_cons, List.mem_append, not_or,
    List.nodup_append', List.disjoint_append_right] at hnodup
  obtain ⟨⟨hvw, hvl, hvu, hvs, hvc⟩, ⟨hwl, hwu, hws, hwc⟩, hl, ⟨hu, ⟨hs, hc, hsc⟩, hus, huc⟩,
    hlu, hls, hlc⟩ := hnodup
  exact ⟨⟨hvw, hvl, hvu, hvs, hvc⟩, ⟨hwl, hwu, hws, hwc⟩, ⟨hl, hu, hs, hc⟩,
    fun x hx => ⟨hlu hx, hls hx, hlc hx⟩, fun x hx => ⟨hus hx, huc hx⟩, fun x hx => hsc hx⟩

/-- The next node below the parent, with the left child. -/
theorem Holds.next_left (hh : Holds base h
      (plug (ctx' ++ ⟨.right, red, v, l⟩ :: ctx) (.node red' .nil w u)))
    (hh₁ : h₁ = ((((h.replace (up none ctx) v.node (some w.node)).setRed w.node red).write w.node
      fun n => n.setChild .left (addr l)).setParent (addr l) (some w.node))) :
    Above h₁ ctx (some w.node) ∧
      h₁.node w.node = ⟨addr l, addr u, up (some v.node) ctx', w.key, red⟩ ∧
      Rep h₁.node (some w.node) l ∧
      ∀ x ∉ nodesAround ctx, x ≠ w.node → x ∉ nodes l → h₁.node x = h.node x := by
  obtain ⟨habove, -, hl, -, hw, -, hnodup, -⟩ := hh.next
  obtain ⟨⟨-, -, -, -, hvc⟩, ⟨hwl, -, -, hwc⟩, ⟨hlnodup, -, -, hc⟩, hldis, -, -⟩ :=
    nodup_nodesNext hnodup
  have habove₂ : Above (h.replace (up none ctx) v.node (some w.node)) ctx (some w.node) :=
    habove.replace hvc hc
  have hnode₂ : ∀ x ∉ nodesAround ctx,
      (h.replace (up none ctx) v.node (some w.node)).node x = h.node x := fun x =>
    replace_node_of_notMem
  subst hh₁
  generalize h.replace (up none ctx) v.node (some w.node) = h₂ at habove₂ hnode₂ ⊢
  have hw₃ : ((h₂.setRed w.node red).write w.node fun n => n.setChild .left (addr l)).node w.node =
      ⟨addr l, addr u, up (some v.node) ctx', w.key, red⟩ := by
    rw [write_node_self, TreeHeap.setRed, write_node_self, hnode₂ _ hwc, hw]
    rfl
  have hnode₃ : ∀ x ≠ w.node,
      ((h₂.setRed w.node red).write w.node fun n => n.setChild .left (addr l)).node x =
        h₂.node x := by
    intro x hx
    rw [write_node_of_ne hx, TreeHeap.setRed, write_node_of_ne hx]
  have hroot₃ : ((h₂.setRed w.node red).write w.node fun n => n.setChild .left (addr l)).root =
      h₂.root := rfl
  generalize (h₂.setRed w.node red).write w.node _ = h₃ at hw₃ hnode₃ hroot₃ ⊢
  have hnode : ∀ x ∉ nodes l, (h₃.setParent (addr l) (some w.node)).node x = h₃.node x := fun x =>
    setParent_node_of_notMem
  refine ⟨habove₂.congr (setParent_root.trans hroot₃) fun x hx => ?_, (hnode _ hwl).trans hw₃, ?_,
    fun x hxc hxw hxl => ?_⟩
  · rw [hnode x fun hxl => (hldis x hxl).2.2 hx, hnode₃ x (ne_of_mem_of_not_mem hx hwc)]
  · refine Rep.setParent (hl.congr fun x hx => ?_) hlnodup
    rw [hnode₃ x (ne_of_mem_of_not_mem hx hwl), hnode₂ x (hldis x hx).2.2]
  · rw [hnode x hxl, hnode₃ x hxw, hnode₂ x hxc]

/-- The next node is the right child. -/
theorem Holds.splice_right
    (hh : Holds base h (plug (⟨.right, red, v, l⟩ :: ctx) (.node red' .nil w u)))
    (hh₁ : h₁ = ((((h.replace (up none ctx) v.node (some w.node)).setRed w.node red).write w.node
      fun n => n.setChild .left (addr l)).setParent (addr l) (some w.node))) :
    Holds (Function.update base v.node (h.node v.node))
      ((h₁.write w.node fun n => { n with parent := up none ctx }).setParent (addr u)
        (some w.node)) (plug (⟨.right, red, w, l⟩ :: ctx) u) := by
  have hnext : Holds base h (plug ([] ++ ⟨.right, red, v, l⟩ :: ctx) (.node red' .nil w u)) := hh
  obtain ⟨-, -, -, -, -, hu, hnodup, hout⟩ := hnext.next
  obtain ⟨habove₁, hw₁, hl₁, hnode₁⟩ := hnext.next_left hh₁
  obtain ⟨⟨hvw, hvl, hvu, -, hvc⟩, ⟨hwl, hwu, -, hwc⟩, ⟨-, hunodup, -, -⟩, hldis, hudis, -⟩ :=
    nodup_nodesNext hnodup
  have hw₂ : (h₁.write w.node fun n => { n with parent := up none ctx }).node w.node =
      ⟨addr l, addr u, up none ctx, w.key, red⟩ := by
    rw [write_node_self, hw₁]
  have hnode₂ : ∀ x ≠ w.node,
      (h₁.write w.node fun n => { n with parent := up none ctx }).node x = h₁.node x :=
    fun x => write_node_of_ne
  have hroot₂ : (h₁.write w.node fun n => { n with parent := up none ctx }).root = h₁.root := rfl
  generalize h₁.write w.node _ = h₂ at hw₂ hnode₂ hroot₂ ⊢
  have hu₃ : Rep (h₂.setParent (addr u) (some w.node)).node (some w.node) u := by
    refine Rep.setParent (hu.congr fun x hx => ?_) hunodup
    rw [hnode₂ x (ne_of_mem_of_not_mem hx hwu)]
    exact hnode₁ x (hudis x hx).2 (ne_of_mem_of_not_mem hx hwu) fun hxl => (hldis x hxl).1 hx
  have hnode₃ : ∀ x ∉ nodes u, (h₂.setParent (addr u) (some w.node)).node x = h₂.node x :=
    fun x => setParent_node_of_notMem
  have hroot₃ : (h₂.setParent (addr u) (some w.node)).root = h₁.root := setParent_root.trans hroot₂
  generalize h₂.setParent (addr u) (some w.node) = h₃ at hu₃ hnode₃ hroot₃ ⊢
  have hother : ∀ x, x ∉ nodes u → x ≠ w.node → h₃.node x = h₁.node x := fun x hxu hxw =>
    (hnode₃ x hxu).trans (hnode₂ x hxw)
  refine holds_next hnodup (habove₁.congr hroot₃ fun x hx => ?_) ((hnode₃ _ hwu).trans hw₂)
    (hl₁.congr fun x hx => ?_) trivial hu₃ (fun x hx => ?_) ?_
  · exact hother x (fun hxu => (hudis x hxu).2 hx) (ne_of_mem_of_not_mem hx hwc)
  · exact hother x (hldis x hx).1 (ne_of_mem_of_not_mem hx hwl)
  · have hx' := hx
    simp only [nodesNext, List.mem_cons, List.mem_append, not_or] at hx'
    obtain ⟨-, hxw, hxl, hxu, -, hxc⟩ := hx'
    rw [hother x hxu hxw, hnode₁ x hxc hxw hxl, hout x hx]
  · rw [hother _ hvu hvw, hnode₁ _ hvc hvw hvl]

/-- The next node is below the right child. -/
theorem Holds.splice_below {right : Option ℕ} (hside : f.side = .left)
    (hh : Holds base h
      (plug (f :: ctx' ++ ⟨.right, red, v, l⟩ :: ctx) (.node red' .nil w u)))
    (hright : right = start (f :: ctx') (some w.node))
    (hh₁ : h₁ = ((((h.replace (up none ctx) v.node (some w.node)).setRed w.node red).write w.node
      fun n => n.setChild .left (addr l)).setParent (addr l) (some w.node))) :
    Holds (Function.update base v.node (h.node v.node))
      (((((h₁.write w.node fun n => { n with parent := up none ctx }).write f.value.node
        fun n => n.setChild .left (addr u)).write w.node
        fun n => n.setChild .right right).setParent right (some w.node)).setParent (addr u)
        (some f.value.node)) (plug (f :: ctx' ++ ⟨.right, red, w, l⟩ :: ctx) u) := by
  obtain ⟨-, -, -, hway, -, hu, hnodup, hout⟩ := hh.next
  obtain ⟨habove₁, hw₁, hl₁, hnode₁⟩ := hh.next_left hh₁
  obtain ⟨⟨hvw, hvl, hvu, hvs, hvc⟩, ⟨hwl, hwu, hws, hwc⟩, ⟨-, hunodup, hs, -⟩, hldis, hudis,
    hsdis⟩ := nodup_nodesNext hnodup
  have hf : f.value.node ∈ nodesAround (f :: ctx') := mem_nodesAround_cons.2 (.inl rfl)
  have hfw : f.value.node ≠ w.node := ne_of_mem_of_not_mem hf hws
  -- the next node below the one above, and the child that takes its place
  have hw₂ : ((h₁.write w.node fun n => { n with parent := up none ctx }).write f.value.node
      fun n => n.setChild .left (addr u)).node w.node =
      ⟨addr l, addr u, up none ctx, w.key, red⟩ := by
    rw [write_node_of_ne hfw.symm, write_node_self, hw₁]
  have hway₂ : Way ((h₁.write w.node fun n => { n with parent := up none ctx }).write f.value.node
      fun n => n.setChild .left (addr u)).node (some v.node) (f :: ctx') (addr u) := by
    rw [← hside]
    refine Way.setChild (hway.congr fun x hx => ?_) hs
    rw [write_node_of_ne (ne_of_mem_of_not_mem hx hws)]
    exact hnode₁ x (hsdis x hx) (ne_of_mem_of_not_mem hx hws) fun hxl => (hldis x hxl).2.1 hx
  have hnode₂ : ∀ x ≠ w.node, x ≠ f.value.node →
      ((h₁.write w.node fun n => { n with parent := up none ctx }).write f.value.node
        fun n => n.setChild .left (addr u)).node x = h₁.node x := by
    intro x hxw hxf
    rw [write_node_of_ne hxf, write_node_of_ne hxw]
  have hroot₂ : ((h₁.write w.node fun n => { n with parent := up none ctx }).write f.value.node
      fun n => n.setChild .left (addr u)).root = h₁.root := rfl
  generalize (h₁.write w.node _).write f.value.node _ = h₂ at hw₂ hway₂ hnode₂ hroot₂ ⊢
  -- the right child
  have hw₃ : (h₂.write w.node fun n => n.setChild .right right).node w.node =
      ⟨addr l, right, up none ctx, w.key, red⟩ := by
    rw [write_node_self, hw₂]
    rfl
  have hnode₃ : ∀ x ≠ w.node, (h₂.write w.node fun n => n.setChild .right right).node x =
      h₂.node x := fun x => write_node_of_ne
  have hroot₃ : (h₂.write w.node fun n => n.setChild .right right).root = h₁.root := hroot₂
  generalize h₂.write w.node _ = h₃ at hw₃ hnode₃ hroot₃ ⊢
  have hway₃ : Way h₃.node (some v.node) (f :: ctx') (addr u) :=
    hway₂.congr fun x hx => hnode₃ x (ne_of_mem_of_not_mem hx hws)
  have hway₄ : Way (h₃.setParent right (some w.node)).node (some w.node) (f :: ctx') (addr u) := by
    rw [hright]
    exact hway₃.setParent hs
  have hnode₄ : ∀ x ∉ nodesAround (f :: ctx'),
      (h₃.setParent right (some w.node)).node x = h₃.node x := by
    intro x hx
    obtain ⟨y, hy, hstart⟩ := start_mem f ctx' (some w.node)
    rw [hright, hstart, setParent_some]
    exact write_node_of_ne (ne_of_mem_of_not_mem hy hx).symm
  have hroot₄ : (h₃.setParent right (some w.node)).root = h₁.root := setParent_root.trans hroot₃
  generalize h₃.setParent right (some w.node) = h₄ at hway₄ hnode₄ hroot₄ ⊢
  -- the subtree that takes its place
  have hsame₄ : ∀ x, x ∉ nodesAround (f :: ctx') → x ≠ w.node → h₄.node x = h₁.node x := by
    intro x hxs hxw
    rw [hnode₄ x hxs, hnode₃ x hxw, hnode₂ x hxw (ne_of_mem_of_not_mem hf hxs).symm]
  have hu₅ : Rep (h₄.setParent (addr u) (some f.value.node)).node (some f.value.node) u := by
    refine Rep.setParent (hu.congr fun x hx => ?_) hunodup
    rw [hsame₄ x (hudis x hx).1 (ne_of_mem_of_not_mem hx hwu)]
    exact hnode₁ x (hudis x hx).2 (ne_of_mem_of_not_mem hx hwu) fun hxl => (hldis x hxl).1 hx
  have hnode₅ : ∀ x ∉ nodes u, (h₄.setParent (addr u) (some f.value.node)).node x = h₄.node x :=
    fun x => setParent_node_of_notMem
  have hroot₅ : (h₄.setParent (addr u) (some f.value.node)).root = h₁.root :=
    setParent_root.trans hroot₄
  generalize h₄.setParent (addr u) (some f.value.node) = h₅ at hu₅ hnode₅ hroot₅ ⊢
  have hother : ∀ x, x ∉ nodes u → x ∉ nodesAround (f :: ctx') → x ≠ w.node →
      h₅.node x = h₁.node x := fun x hxu hxs hxw => (hnode₅ x hxu).trans (hsame₄ x hxs hxw)
  refine holds_next hnodup (habove₁.congr hroot₅ fun x hx => ?_) ?_ (hl₁.congr fun x hx => ?_)
    (hway₄.congr fun x hx => hnode₅ x fun hxu => (hudis x hxu).1 hx) hu₅ (fun x hx => ?_) ?_
  · exact hother x (fun hxu => (hudis x hxu).2 hx) (fun hxs => hsdis x hxs hx)
      (ne_of_mem_of_not_mem hx hwc)
  · rw [hnode₅ _ hwu, hnode₄ _ hws, hw₃, hright]
    rfl
  · exact hother x (hldis x hx).1 (hldis x hx).2.1 (ne_of_mem_of_not_mem hx hwl)
  · have hx' := hx
    simp only [nodesNext, List.mem_cons (a := x), List.mem_append, not_or] at hx'
    obtain ⟨-, hxw, hxl, hxu, hxs, hxc⟩ := hx'
    rw [hother x hxu hxs hxw, hnode₁ x hxc hxw hxl, hout x hx]
  · rw [hother _ hvu hvs hvw, hnode₁ _ hvc hvw hvl]

/-! ### The whole of it -/

theorem sorted_remove {xs ys : List Entry}
    (h : (xs ++ v :: ys).Pairwise (Entry.key · < Entry.key ·)) :
    (xs ++ ys).Pairwise (Entry.key · < Entry.key ·) :=
  h.sublist (List.Sublist.append_left (List.sublist_cons_self v ys) xs)

/-- What is behind the splice keeps the order. -/
theorem remove_rest_stores {x : Entry} {fuel : ℕ}
    (hb : IsRedBlack (plug ctx (.facing s red .nil x t))) (hh : Holds base h (plug ctx t))
    (hsorted : (plug ctx t).toList.Pairwise (Entry.key · < Entry.key ·))
    (hfuel : ctx.length < fuel) :
    ∃ h' t', (if red then some h
        else if h.isRed (addr t) then some (h.setBlack (addr t))
        else remove_loop fuel h (addr t) (up none ctx)) = some h' ∧
      Stores base h' t' ∧ t'.toList = (plug ctx t).toList := by
  obtain ⟨k, hfits⟩ := hb.fits
  obtain ⟨h', t', hrun, hh', hlist, hb'⟩ := remove_rest hfits hh hfuel
  exact ⟨h', t', hrun, ⟨hh', hb', hlist ▸ hsorted⟩, hlist⟩

/-- A node that has one child at most. -/
theorem tree_del_one {fuel : ℕ} (hh : Stores base h (plug ctx (.facing s red .nil v t)))
    (hfuel : (plug ctx (.facing s red .nil v t)).depth < fuel) :
    ∃ h' t', tree_del fuel h v.node = some h' ∧
      Stores (Function.update base v.node (h.node v.node)) h' t' ∧
      ∃ xs ys, (plug ctx (.facing s red .nil v t)).toList = xs ++ v :: ys ∧
        t'.toList = xs ++ ys := by
  have hlength := length_add_depth_le ctx (.facing s red .nil v t)
  have hlist : (plug ctx (.facing s red .nil v t)).toList =
      before ctx ++ v :: (t.toList ++ after ctx) ∨
      (plug ctx (.facing s red .nil v t)).toList =
        (before ctx ++ t.toList) ++ v :: after ctx := by
    rw [toList_plug]
    cases s
    · exact .inl (by simp [RBTree.facing, RBTree.toList])
    · exact .inr (by simp [RBTree.facing, RBTree.toList])
  obtain ⟨xs, ys, hxs, hys⟩ : ∃ xs ys, (plug ctx (.facing s red .nil v t)).toList = xs ++ v :: ys ∧
      (plug ctx t).toList = xs ++ ys := by
    rcases hlist with hlist | hlist
    · exact ⟨_, _, hlist, by rw [toList_plug, List.append_assoc]⟩
    · exact ⟨_, _, hlist, by rw [toList_plug]⟩
  have hsorted : (plug ctx t).toList.Pairwise (Entry.key · < Entry.key ·) := by
    rw [hys]
    exact sorted_remove (hxs ▸ hh.sorted)
  obtain ⟨h', t', hrun, hh', hlist'⟩ :=
    remove_rest_stores hh.redBlack hh.toHolds.splice hsorted (by omega : ctx.length < fuel)
  refine ⟨h', t', ?_, hh', xs, ys, hxs, hlist'.trans hys⟩
  have hv := hh.toHolds.node
  have hred : ((h.replace (up none ctx) v.node (addr t)).node v.node).red = red := by
    rw [replace_node_of_notMem, hv, TreeNode.red_facing]
    exact (nodup_facing.1 (holds_plug.1 hh.toHolds).2.2.1).1.2.2
  cases s with
  | left =>
    have hleft : (h.node v.node).left = none := by rw [hv]; rfl
    have hright : (h.node v.node).right = addr t := by rw [hv]; rfl
    have hparent : (h.node v.node).parent = up none ctx := by rw [hv]; rfl
    simp only [tree_del, hleft, hright, hparent, Option.bind_eq_bind, Option.bind_some, hred]
    exact hrun
  | right =>
    have hleft : (h.node v.node).left = addr t := by rw [hv]; rfl
    have hright : (h.node v.node).right = none := by rw [hv]; rfl
    have hparent : (h.node v.node).parent = up none ctx := by rw [hv]; rfl
    cases ht : addr t with
    | none =>
      rw [ht] at hleft hred hrun
      simp only [tree_del, hleft, hright, hparent, Option.bind_eq_bind, Option.bind_some, hred]
      exact hrun
    | some x =>
      rw [ht] at hleft hred hrun
      simp only [tree_del, hleft, hright, hparent, Option.bind_eq_bind, Option.bind_some, hred]
      exact hrun

theorem before_eq_nil (hside : ∀ f ∈ ctx', f.side = .left) : before ctx' = [] := by
  induction ctx' with
  | nil => rfl
  | cons f ctx' ih =>
    have hf := hside f List.mem_cons_self
    rw [before, ih fun g hg => hside g (List.mem_cons_of_mem f hg), Frame.before, hf]
    rfl

/-- The next node is the first on the right. -/
theorem toList_next (red red' : Bool) (v w : Entry) (l u : RBTree Entry) (ctx : List (Frame Entry))
    (hside : ∀ f ∈ ctx', f.side = .left) :
    (plug (ctx' ++ ⟨.right, red, v, l⟩ :: ctx) (.node red' .nil w u)).toList =
        (before ctx ++ l.toList) ++ v :: (w :: (u.toList ++ (after ctx' ++ after ctx))) ∧
      (plug (ctx' ++ ⟨.right, red, w, l⟩ :: ctx) u).toList =
        (before ctx ++ l.toList) ++ (w :: (u.toList ++ (after ctx' ++ after ctx))) := by
  have hbefore := before_eq_nil hside
  constructor
  · simp [toList_plug, before_append, after_append, hbefore, before, after, Frame.before,
      Frame.after, RBTree.toList]
  · simp [toList_plug, before_append, after_append, hbefore, before, after, Frame.before,
      Frame.after]

/-- A node that has two children. -/
theorem tree_del_two {fuel : ℕ} {left right : ℕ}
    (hh : Stores base h (plug ctx (.node red l v r))) (hl : addr l = some left)
    (hr : addr r = some right) (hfuel : (plug ctx (.node red l v r)).depth < fuel) :
    ∃ h' t', tree_del fuel h v.node = some h' ∧
      Stores (Function.update base v.node (h.node v.node)) h' t' ∧
      ∃ xs ys, (plug ctx (.node red l v r)).toList = xs ++ v :: ys ∧ t'.toList = xs ++ ys := by
  have hdepth := length_add_depth_le ctx (.node red l v r)
  obtain ⟨ctx', red', w, u, hrun, hctx', hside⟩ : ∃ ctx' red' w u,
      leftmost fuel h right = some w.node ∧ r = plug ctx' (.node red' .nil w u) ∧
        ∀ f ∈ ctx', f.side = .left := by
    cases r with
    | nil => cases hr
    | node redr lr vr rr =>
      obtain rfl : vr.node = right := Option.some.inj hr
      have hdown : Holds base h (plug (⟨.right, red, v, l⟩ :: ctx) (.node redr lr vr rr)) :=
        hh.toHolds
      refine leftmost_spec ?_ hdown
      simp only [RBTree.depth] at hdepth ⊢
      omega
  have hwhole : plug ctx (.node red l v r) =
      plug (ctx' ++ ⟨.right, red, v, l⟩ :: ctx) (.node red' .nil w u) := by
    rw [plug_append, ← hctx']
    rfl
  rw [hwhole] at hh hfuel ⊢
  have hlength := length_add_depth_le (ctx' ++ ⟨.right, red, v, l⟩ :: ctx) (.node red' .nil w u)
  obtain ⟨hxs, hys⟩ := toList_next red red' v w l u ctx hside
  have hsorted : (plug (ctx' ++ ⟨.right, red, w, l⟩ :: ctx) u).toList.Pairwise
      (Entry.key · < Entry.key ·) := by
    rw [hys]
    exact sorted_remove (hxs ▸ hh.sorted)
  have hbalanced : IsRedBlack (plug (ctx' ++ ⟨.right, red, w, l⟩ :: ctx)
      (.facing .left red' .nil w u)) := hh.redBlack.of_value w
  have hlt : (ctx' ++ ⟨.right, red, w, l⟩ :: ctx).length < fuel := by
    simp only [List.length_append, List.length_cons] at hlength ⊢
    omega
  obtain ⟨-, hv, -, -, hw, -, hnodup, -⟩ := hh.toHolds.next
  obtain ⟨hw₁, -⟩ := (hh.toHolds.next_left rfl).2
  have hleft : (h.node v.node).left = some left := by rw [hv, hl]
  have hstart : start ctx' (some w.node) = some right := by
    rw [← hr, hctx', addr_plug]
    rfl
  have hright : (h.node v.node).right = some right := by rw [hv, hstart]
  have hparent : (h.node v.node).parent = up none ctx := by rw [hv]
  obtain ⟨⟨hvw, hvl, -, -, hvc⟩, ⟨-, -, hws, hwc⟩, -⟩ := nodup_nodesNext hnodup
  have hvred : ((h.replace (up none ctx) v.node (some w.node)).node v.node).red = red := by
    rw [replace_node_of_notMem hvc, hv]
  have hwred : ((h.replace (up none ctx) v.node (some w.node)).node w.node).red = red' := by
    rw [replace_node_of_notMem hwc, hw]
  simp only [tree_del, hleft, hright, hparent, Option.bind_eq_bind, Option.bind_some, hrun, hvred,
    hwred]
  generalize hh₁ : ((((h.replace (up none ctx) v.node (some w.node)).setRed w.node red).write w.node
    fun n => n.setChild .left (some left)).setParent (some left) (some w.node)) = h₁
  rw [← hl] at hh₁
  obtain ⟨-, hw₁, -, hnode₁⟩ := hh.toHolds.next_left hh₁.symm
  have hv₁ : h₁.node v.node = h.node v.node := hnode₁ _ hvc hvw hvl
  cases ctx' with
  | nil =>
    obtain rfl : w.node = right := Option.some.inj hstart
    obtain ⟨h', t', hrun', hh', hlist⟩ := remove_rest_stores hbalanced
      (Holds.splice_right hh.toHolds hh₁.symm) hsorted hlt
    refine ⟨h', t', ?_, hh', _, _, hxs, hlist.trans hys⟩
    simp only [ne_eq, not_true_eq_false, if_false, write_node_self, hw₁]
    exact hrun'
  | cons f ctx' =>
    have hne : w.node ≠ right := by
      obtain ⟨x, hx, hx'⟩ := start_mem f ctx' (some w.node)
      rintro rfl
      rw [hx'] at hstart
      exact hws (Option.some.inj hstart ▸ hx)
    obtain ⟨h', t', hrun', hh', hlist⟩ := remove_rest_stores hbalanced
      (Holds.splice_below (hside f List.mem_cons_self) hh.toHolds hstart.symm hh₁.symm) hsorted hlt
    refine ⟨h', t', ?_, hh', _, _, hxs, hlist.trans hys⟩
    simp only [ne_eq, hne, not_false_eq_true, if_true, write_node_self, hw₁, hv₁, hparent, up,
      Option.bind_some]
    exact hrun'

/-- **`tree_del`.** -/
theorem tree_del_spec {fuel : ℕ} (hh : Stores base h t) (hv : v ∈ t.toList)
    (hfuel : t.depth < fuel) :
    ∃ h' t', tree_del fuel h v.node = some h' ∧
      Stores (Function.update base v.node (h.node v.node)) h' t' ∧
      ∃ xs ys, t.toList = xs ++ v :: ys ∧ t'.toList = xs ++ ys := by
  obtain ⟨ctx, red, l, r, rfl⟩ := exists_plug_of_mem hv
  cases l with
  | nil => exact tree_del_one (s := .left) hh hfuel
  | node redl ll vl rl =>
    cases r with
    | nil => exact tree_del_one (s := .right) hh hfuel
    | node redr lr vr rr => exact tree_del_two hh rfl rfl hfuel

end RedBlackTree
end Wepoll
end Net
end Sevent
