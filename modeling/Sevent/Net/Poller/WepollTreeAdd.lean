/-
# `tree_add`
-/

import Sevent.Net.Poller.WepollTreeSpec

namespace Sevent
namespace Net
namespace Wepoll
namespace RedBlackTree

open RedBlack TreeHeap

variable {base : ℕ → TreeNode} {h : TreeHeap} {t c d o u : RBTree Entry} {s s' : Side}
  {red : Bool} {v p g : Entry} {f : Frame Entry} {ctx : List (Frame Entry)} {n : ℕ}

/-- The side on which a node is. -/
theorem Holds.side (hh : Holds base h (plug (f :: ctx) t)) (hne : addr f.other ≠ addr t) :
    (if addr t = (h.node f.value.node).left then Side.left else .right) = f.side := by
  rw [hh.above]
  obtain ⟨_ | _, red, v, o⟩ := f
  · exact if_pos rfl
  · exact if_neg hne.symm

/-- The nodes in one line. -/
theorem rotate_grandparent
    (hh : Holds base h (plug ctx (.facing s false (.facing s true t p o) g u))) :
    ∃ h', tree_rotate s.other ((h.setRed p.node false).setRed g.node true) g.node = some h' ∧
      Holds base h' (plug ctx (.facing s false t p (.facing s true o g u))) := by
  have hbelow : Holds base h (plug (⟨s, false, g, u⟩ :: ctx) (.facing s true t p o)) := hh
  have hparent : Holds base (h.setRed p.node false)
      (plug ctx (.facing s false (.facing s false t p o) g u)) := hbelow.setRed false
  have hgrandparent := hparent.setRed true
  rw [← RBTree.facing_other, ← RBTree.facing_other s false o] at hgrandparent
  obtain ⟨h', hrun, hh'⟩ := hgrandparent.rotate
  refine ⟨h', hrun, ?_⟩
  rwa [RBTree.facing_other, RBTree.facing_other] at hh'

/-- An uncle that is red. -/
theorem rebalance_after_insert_red (hu : u.isRed = true)
    (hh : Holds base h (plug (⟨s, true, p, o⟩ :: ⟨s', false, g, u⟩ :: ctx) t)) (node : ℕ) :
    ∃ h', rebalance_after_insert s' h node p.node = some (h', g.node) ∧
      Holds base h' (plug ctx (.facing s' true (.facing s false t p o) g u.blacken)) := by
  have hparent := hh.above
  have hgrandparent : Holds base h
      (plug (⟨s', false, g, u⟩ :: ctx) (.facing s true t p o)) := hh
  have huncle : Holds base h (plug (⟨s'.other, false, g, .facing s true t p o⟩ :: ctx) u) := by
    rwa [plug_other] at hgrandparent
  have h₁ := huncle.setBlack
  rw [← plug_other] at h₁
  have h₂ : Holds base _ (plug ctx (.facing s' false (.facing s false t p o) g u.blacken)) :=
    Holds.setRed h₁ false
  refine ⟨_, ?_, h₂.setRed true⟩
  simp only [rebalance_after_insert, hparent, TreeNode.parent_facing, up,
    hgrandparent.above, TreeNode.child_other_facing, huncle.isRed, hu, Option.bind_eq_bind,
    Option.bind_some, if_true]

/-- An uncle that is black. -/
theorem rebalance_after_insert_black (hu : u.isRed = false)
    (hh : Holds base h (plug (⟨s, true, p, o⟩ :: ⟨s', false, g, u⟩ :: ctx)
      (.facing s' true c v d)))
    (ht : IsBalanced (.facing s' true c v d) n) (ho : IsBalanced o n) (hor : o.isRed = false)
    (hub : IsBalanced u n) :
    ∃ h' w q c' d' o', rebalance_after_insert s' h v.node p.node = some (h', w.node) ∧
      Holds base h' (plug (⟨s', false, q, o'⟩ :: ctx) (.facing s' true c' w d')) ∧
      (plug (⟨s', false, q, o'⟩ :: ctx) (.facing s' true c' w d')).toList =
        (plug (⟨s, true, p, o⟩ :: ⟨s', false, g, u⟩ :: ctx) (.facing s' true c v d)).toList ∧
      IsBalanced (.facing s' true c' w d') n ∧ IsBalanced o' n := by
  obtain ⟨hc, hd, hcr, hdr⟩ := balanced_red.1 ht
  have hparent := hh.above
  have hgrandparent : Holds base h
      (plug (⟨s', false, g, u⟩ :: ctx) (.facing s true (.facing s' true c v d) p o)) := hh
  have huncle : Holds base h
      (plug (⟨s'.other, false, g, .facing s true (.facing s' true c v d) p o⟩ :: ctx) u) := by
    rwa [plug_other] at hgrandparent
  simp only [rebalance_after_insert, hparent, TreeNode.parent_facing, up,
    hgrandparent.above, TreeNode.child_other_facing, huncle.isRed, hu, Option.bind_eq_bind,
    Option.bind_some, Bool.false_eq_true, if_false]
  by_cases hs : s = s'
  · subst hs
    have hne : some v.node ≠ addr o := (hh.addr_ne addr_facing).symm
    obtain ⟨h', hrun, hh'⟩ := rotate_grandparent hgrandparent
    simp only [TreeNode.child_other_facing, if_neg hne, Option.bind_some, hrun]
    refine ⟨h', v, p, c, d, .facing s true o g u, rfl, hh', ?_, ht, ?_⟩
    · refine toList_plug_congr ctx ?_
      cases s <;> simp [Frame.fill, RBTree.facing, RBTree.toList]
    · exact balanced_red.2 ⟨ho, hub, hor, hu⟩
  -- the node between the two others is turned out first
  · obtain rfl := Side.eq_other hs
    have hinner : Holds base h (plug (⟨s', false, g, u⟩ :: ctx)
        (.facing s' true o p (.facing s' true c v d))) := by
      rwa [RBTree.facing_other] at hgrandparent
    obtain ⟨h₁, hrun₁, hh₁⟩ := hinner.rotate
    have hturned : Holds base h₁ (plug (⟨s', true, v, d⟩ :: ⟨s', false, g, u⟩ :: ctx)
      (.facing s' true o p c)) := hh₁
    obtain ⟨h', hrun, hh'⟩ := rotate_grandparent hh₁
    simp only [TreeNode.child_facing, addr_facing, if_true, hrun₁, Option.bind_some,
      hturned.node, TreeNode.parent_facing, up, hrun]
    refine ⟨h', p, v, o, c, .facing s' true d g u, rfl, hh', ?_, ?_, ?_⟩
    · refine toList_plug_congr ctx ?_
      cases s' <;> simp [Frame.fill, RBTree.facing, RBTree.toList, Side.other]
    · exact balanced_red.2 ⟨ho, hc, hor, hcr⟩
    · exact balanced_red.2 ⟨hd, hub, hdr, hu⟩

/-- The loop ends, with the values in the order they had. -/
theorem insert_loop_spec {fuel : ℕ} (hfuel : ctx.length ≤ fuel)
    (hh : Holds base h (plug ctx (.facing s true c v d))) (hctx : Around ctx n)
    (ht : IsBalanced (.facing s true c v d) n) :
    ∃ h' t', insert_loop fuel h v.node (up none ctx) = some h' ∧ Holds base h' t' ∧
      t'.toList = (plug ctx (.facing s true c v d)).toList ∧ IsRedBlack t'.blacken := by
  induction fuel generalizing ctx h s c v d n with
  | zero =>
    obtain rfl : ctx = [] := List.length_eq_zero_iff.1 (by omega)
    exact ⟨h, _, by simp [up, insert_loop], hh, rfl, ht.isRedBlack_blacken⟩
  | succ fuel ih =>
    cases ctx with
    | nil => exact ⟨h, _, by simp [up, insert_loop], hh, rfl, ht.isRedBlack_blacken⟩
    | cons f ctx =>
      obtain ⟨s₁, red₁, p, o⟩ := f
      cases red₁ with
      | false =>
        have hdone : IsRedBlack (plug (⟨s₁, false, p, o⟩ :: ctx) (.facing s true c v d)) :=
          Fits.isRedBlack ⟨hctx, ht, fun _ => rfl⟩
        exact ⟨h, _, by simp [up, insert_loop, hh.above], hh, rfl, hdone.blacken⟩
      | true =>
        obtain ⟨s', g, u, ctx, rfl, ho, hor, hub, hctx⟩ := hctx.grandparent
        have hparent := hh.above
        have hgrandparent : Holds base h
            (plug (⟨s', false, g, u⟩ :: ctx) (.facing s₁ true (.facing s true c v d) p o)) := hh
        have hside := hgrandparent.side fun heq =>
          hgrandparent.addr_ne addr_facing (heq.trans addr_facing)
        rw [addr_facing] at hside
        simp only [up, insert_loop, hparent, TreeNode.red_facing, if_true,
          TreeNode.parent_facing, Option.bind_eq_bind, Option.bind_some, hside]
        by_cases hu : u.isRed = true
        · obtain ⟨h₁, hrun, hh₁⟩ := rebalance_after_insert_red hu hh v.node
          have hnext : IsBalanced (.facing s' true (.facing s₁ false (.facing s true c v d) p o) g
              u.blacken) (n + 1) :=
            balanced_red.2 ⟨balanced_black.2 ⟨n, rfl, ht, ho⟩, hub.blacken_of_red hu,
              RBTree.isRed_facing, isRed_blacken⟩
          have hlength : ctx.length ≤ fuel := by
            simp only [List.length_cons] at hfuel
            omega
          obtain ⟨h', t', hloop, hh', hlist, hbalanced⟩ := ih hlength hh₁ hctx hnext
          simp only [hrun, Option.bind_some, hh₁.node, TreeNode.parent_facing, hloop]
          refine ⟨h', t', rfl, hh', hlist.trans (toList_plug_congr ctx ?_), hbalanced⟩
          exact RBTree.toList_facing_congr (RBTree.toList_facing_congr rfl rfl)
            RBTree.toList_blacken
        · obtain ⟨c₁, d₁, heq⟩ := RBTree.exists_facing s s' true c v d
          rw [heq] at hh ht ⊢
          obtain ⟨h₁, w, q, c', d', o', hrun, hh₁, hlist, hb, ho'⟩ :=
            rebalance_after_insert_black (eq_false_of_ne_true hu) hh ht ho hor hub
          have hdone : IsRedBlack (plug (⟨s', false, q, o'⟩ :: ctx) (.facing s' true c' w d')) :=
            Fits.isRedBlack ⟨.black ho' hctx, hb, fun _ => rfl⟩
          have hstop : insert_loop fuel h₁ w.node (some q.node) = some h₁ := by
            cases fuel <;> simp [insert_loop, hh₁.above]
          simp only [hrun, Option.bind_some, hh₁.node, TreeNode.parent_facing, up, hstop]
          exact ⟨h₁, _, rfl, hh₁, hlist, hdone.blacken⟩

/-! ### The new node -/

/-- A node at the end of a way, where nothing is. -/
theorem Holds.leaf {h₁ : TreeHeap} (hh : Holds base h (plug ctx .nil))
    (hnew : v.node ∉ nodesAround ctx) (habove : Above h₁ ctx (some v.node))
    (hsame : ∀ x ∉ nodesAround ctx, h₁.node x = h.node x) :
    Holds base (h₁.write v.node fun _ => ⟨none, none, up none ctx, v.key, true⟩)
      (plug ctx (.facing .left true .nil v .nil)) := by
  obtain ⟨-, -, hnodup, hout⟩ := holds_plug.1 hh
  refine holds_plug.2 ⟨?_, ⟨write_node_self, trivial, trivial⟩, ?_, fun x hx hx' => ?_⟩
  · refine habove.congr rfl fun x hx => write_node_of_ne ?_
    rintro rfl
    exact hnew hx
  · exact List.nodup_cons.2 ⟨hnew, hnodup⟩
  · rw [mem_nodes_facing, not_or, not_or] at hx
    rw [write_node_of_ne hx.1, hsame x hx', hout x List.not_mem_nil hx']

theorem insert_or_descend_spec (node : ℕ) {fuel key : ℕ} {l r : RBTree Entry}
    (hh : Holds base h (plug ctx (.node red l v r))) (hkey : Toward Entry.key ctx key)
    (hsorted : (plug ctx (.node red l v r)).toList.Pairwise (Entry.key · < Entry.key ·))
    (hfuel : (RBTree.node red l v r).depth ≤ fuel) :
    (insert_or_descend node key fuel h v.node = some (h, none) ∧
      ∃ w ∈ (plug ctx (.node red l v r)).toList, w.key = key) ∨
    ∃ f ctx', insert_or_descend node key fuel h v.node =
        some (h.write f.value.node fun n => n.setChild f.side (some node), some f.value.node) ∧
      plug (f :: ctx') .nil = plug ctx (.node red l v r) ∧ Toward Entry.key (f :: ctx') key := by
  induction fuel generalizing ctx red l v r with
  | zero => simp [RBTree.depth] at hfuel
  | succ fuel ih =>
    have hv : h.node v.node = ⟨addr l, addr r, up none ctx, v.key, red⟩ :=
      Holds.node (s := .left) hh
    simp only [RBTree.depth] at hfuel
    simp only [insert_or_descend, hv]
    by_cases hlt : key < v.key
    · have hkey' := hkey.left hsorted hlt
      rw [if_pos hlt]
      cases l with
      | nil => exact .inr ⟨_, _, rfl, rfl, hkey'⟩
      | node red' l' v' r' =>
        have hh' : Holds base h (plug (⟨.left, red, v, r⟩ :: ctx) (.node red' l' v' r')) := hh
        exact ih hh' hkey' hsorted (by omega)
    · by_cases hgt : v.key < key
      · have hkey' := hkey.right hsorted hgt
        rw [if_neg hlt, if_pos hgt]
        cases r with
        | nil => exact .inr ⟨_, _, rfl, rfl, hkey'⟩
        | node red' l' v' r' =>
          have hh' : Holds base h (plug (⟨.right, red, v, l⟩ :: ctx) (.node red' l' v' r')) := hh
          exact ih hh' hkey' hsorted (by omega)
      · rw [if_neg hlt, if_neg hgt]
        refine .inl ⟨rfl, v, ?_, by omega⟩
        simp [toList_plug, RBTree.toList]

/-- The loop from the new node on, and the colour of the root. -/
theorem add_leaf {fuel : ℕ} {h₁ : TreeHeap} (hh : Stores base h (plug ctx .nil))
    (hnew : v.node ∉ nodesAround ctx) (habove : Above h₁ ctx (some v.node))
    (hsame : ∀ x ∉ nodesAround ctx, h₁.node x = h.node x) (hkey : Toward Entry.key ctx v.key)
    (hfuel : ctx.length ≤ fuel) :
    ∃ h₂ root t', insert_loop fuel (h₁.write v.node fun _ => ⟨none, none, up none ctx, v.key, true⟩)
        v.node (up none ctx) = some h₂ ∧ h₂.root = some root ∧
      Stores base (h₂.setRed root false) t' ∧ t'.toList.Perm (v :: (plug ctx .nil).toList) := by
  obtain ⟨n, hctx, hnil, -⟩ := hh.redBlack.fits
  cases hnil
  have hleaf : IsBalanced (.facing .left true .nil v .nil) 0 := .red .nil .nil rfl rfl
  obtain ⟨h₂, t', hrun, hh₂, hlist, hbalanced⟩ :=
    insert_loop_spec hfuel (hh.toHolds.leaf hnew habove hsame) hctx hleaf
  cases t' with
  | nil =>
    have := congrArg List.length hlist
    simp [toList_plug, RBTree.toList, RBTree.facing] at this
  | node red l w r =>
    have hplug : Holds base h₂ (plug [] (.node red l w r)) := hh₂
    refine ⟨h₂, w.node, _, hrun, hh₂.root, ⟨hplug.setBlack, hbalanced, ?_⟩, ?_⟩
    · change (RBTree.node red l w r).toList.Pairwise _
      rw [hlist]
      exact hkey.sorted hh.sorted
    · change (RBTree.node red l w r).toList.Perm _
      rw [hlist, toList_plug, toList_plug]
      simp [RBTree.facing, RBTree.toList]

/-- **`tree_add`.**  A key that is there is not added again. -/
theorem tree_add_spec (key : ℕ) {fuel node : ℕ} (hh : Stores base h t) (hnew : node ∉ nodes t)
    (hfuel : t.depth ≤ fuel) :
    (tree_add fuel h node key = some (h, false) ∧ ∃ v ∈ t.toList, v.key = key) ∨
    ∃ h' t', tree_add fuel h node key = some (h', true) ∧ (∀ v ∈ t.toList, v.key ≠ key) ∧
      Stores base h' t' ∧ t'.toList.Perm (⟨node, key⟩ :: t.toList) := by
  cases t with
  | nil =>
    have hroot : h.root = none := hh.root
    have hplug : Stores base h (plug [] .nil) := hh
    have habove : Above { h with root := some node } [] (some node) := ⟨rfl, trivial⟩
    obtain ⟨h₂, root, t', hrun, hroot₂, hh', hperm⟩ :=
      add_leaf (v := ⟨node, key⟩) hplug List.not_mem_nil habove (fun _ _ => rfl) .nil
        (Nat.zero_le fuel)
    refine .inr ⟨_, t', ?_, fun v hv => absurd hv List.not_mem_nil, hh', hperm⟩
    simp only [up] at hrun
    simp only [tree_add, hroot, Option.bind_eq_bind, Option.bind_some, hrun, hroot₂]
  | node red l v r =>
    have hroot : h.root = some v.node := hh.root
    have hplug : Stores base h (plug [] (.node red l v r)) := hh
    rcases insert_or_descend_spec node hplug.toHolds .nil hplug.sorted hfuel with
      ⟨hrun, hmem⟩ | ⟨f, ctx, hrun, heq, hkey⟩
    · refine .inl ⟨?_, hmem⟩
      simp only [tree_add, hroot, Option.bind_eq_bind, Option.bind_some, hrun, Option.map_none]
    · rw [← heq] at hplug
      obtain ⟨habove, -, hnodup, -⟩ := holds_plug.1 hplug.toHolds
      have hnew' : node ∉ nodesAround (f :: ctx) := fun hmem =>
        hnew (by
          change node ∈ nodes (plug [] (.node red l v r))
          rw [← heq, nodes_plug_perm.mem_iff]
          exact List.mem_append_right _ hmem)
      have hdepth : (f :: ctx).length ≤ fuel := by
        have := length_add_depth_le (f :: ctx) (.nil : RBTree Entry)
        rw [heq] at this
        exact (Nat.le_add_right ..).trans (this.trans hfuel)
      obtain ⟨h₂, root, t', hrun₂, hroot₂, hh', hperm⟩ :=
        add_leaf (v := ⟨node, key⟩) hplug hnew' (habove.setChild (List.nodup_append.1 hnodup).2.1)
          (fun x hx => write_node_of_ne fun hxf => hx (mem_nodesAround_cons.2 (.inl hxf)))
          hkey hdepth
      rw [heq] at hperm
      have habsent := hkey.notMem
      rw [heq] at habsent
      refine .inr ⟨_, t', ?_, habsent, hh', hperm⟩
      simp only [up] at hrun₂
      simp only [tree_add, hroot, Option.bind_eq_bind, Option.bind_some, hrun, Option.map_some,
        hrun₂, hroot₂]

end RedBlackTree
end Wepoll
end Net
end Sevent
