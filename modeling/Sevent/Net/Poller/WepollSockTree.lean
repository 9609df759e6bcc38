/-
# The sockets of a port in the tree

`sock_tree` of a port is a map in the model of `Wepoll`.  Here it is in the memory: what
a function of the port does to the map is a run of `tree_add` and `tree_del`, of a node
that is not in the tree or of one that is (`Edits`), so that over any run of the system
the red-black tree has the sockets of the port (`port_tree_refines`).

The invariant is that the tree has every socket that is not to be deleted, under its own
key, and nothing else (`Keyed`).
-/

import Sevent.Net.Poller.WepollRun
import Sevent.Net.Poller.WepollTreeRun

namespace Sevent
namespace Net
namespace Wepoll

open Transition
open RedBlackTree (Op Map Result)

variable {p p' p'' : Port} {a b key socket : ℕ} {s s' : Sock} {ans ans' : Answers}
  {nodes nodes' nodes'' : ℕ → Option ℕ} {ops ops' : List Op}

/-! ### Operations on a map -/

/-- Operations that may be run, and what they make of the map. -/
def Edits (nodes : ℕ → Option ℕ) (ops : List Op) (nodes' : ℕ → Option ℕ) : Prop :=
  ∀ results, Steps Map.step Map.Legal ⟨nodes, results⟩ ops ∧
    ∃ results', run Map.step ⟨nodes, results⟩ ops = some ⟨nodes', results'⟩

/-- Nothing was done to the tree, and the map is the same. -/
theorem Edits.nil : Edits nodes [] nodes := fun results => ⟨trivial, results, rfl⟩

/-- What two functions do to the map, one after the other, is done by the
operations of both in that order. -/
theorem Edits.append (h : Edits nodes ops nodes') (h' : Edits nodes' ops' nodes'') :
    Edits nodes (ops ++ ops') nodes'' := by
  intro results
  obtain ⟨hsteps, results₁, hrun⟩ := h results
  obtain ⟨hsteps', results₂, hrun'⟩ := h' results₁
  refine ⟨hsteps.append fun y hy => ?_, results₂, run_append_eq_some.2 ⟨_, hrun, hrun'⟩⟩
  rw [hrun] at hy
  cases hy
  exact hsteps'

/-- A key that is not there is added for a node that is not in the tree: legal,
and the map has it then. -/
theorem edits_add (hnew : nodes socket = none) (habsent : ∀ key, nodes key ≠ some a) :
    Edits nodes [.add a socket] (Function.update nodes socket (some a)) := by
  intro results
  have hstep : Map.step ⟨nodes, results⟩ (.add a socket) =
      some ⟨Function.update nodes socket (some a), results ++ [.added true]⟩ := by
    simp only [Map.step, hnew]
  exact ⟨⟨habsent, fun _ _ => trivial⟩, _, (run_singleton _ _).trans hstep⟩

/-- A node whose key is there is not added. -/
theorem edits_add_present (hkey : nodes socket = some b) (habsent : ∀ key, nodes key ≠ some a) :
    Edits nodes [.add a socket] nodes := by
  intro results
  have hstep : Map.step ⟨nodes, results⟩ (.add a socket) =
      some ⟨nodes, results ++ [.added false]⟩ := by
    simp only [Map.step, hkey]
  exact ⟨⟨habsent, fun _ _ => trivial⟩, _, (run_singleton _ _).trans hstep⟩

/-- A node is deleted under the key that it has: legal, and the map is without
the key then. -/
theorem edits_del (hkey : nodes key = some a) :
    Edits nodes [.del a key] (Function.update nodes key none) :=
  fun results => ⟨⟨hkey, fun _ _ => trivial⟩, results, rfl⟩

/-! ### Functions of a port -/

/-- The key of a socket, and whether it is to be deleted. -/
def Sock.node (s : Sock) : Bool × ℕ := (s.delete_pending, s.socket)

/-- What the tree has to know about the socket at an address, if there is one. -/
def Port.nodeOf (p : Port) (a : ℕ) : Option (Bool × ℕ) := (p.socks a).map Sock.node

/-- The tree has what is not to be deleted. -/
def Keyed (p : Port) : Prop :=
  ∀ key a, p.sock_tree key = some a ↔ p.nodeOf a = some (false, key)

/-- The tree is left alone. -/
structure SameTree (p p' : Port) : Prop where
  tree : p'.sock_tree = p.sock_tree
  nodes : p'.nodeOf = p.nodeOf

/-- A function that does nothing leaves the tree alone. -/
theorem SameTree.refl (p : Port) : SameTree p p := ⟨rfl, rfl⟩

/-- Two functions that leave the tree alone, one after the other. -/
theorem SameTree.trans (h : SameTree p p') (h' : SameTree p' p'') : SameTree p p'' :=
  ⟨h'.tree.trans h.tree, h'.nodes.trans h.nodes⟩

/-- The invariant holds on while the tree is left alone and no socket changes
its key or its `delete_pending`. -/
theorem SameTree.keyed (h : SameTree p p') (hk : Keyed p) : Keyed p' := by
  intro key a
  rw [h.tree, h.nodes]
  exact hk key a

/-- A write to the other fields of a socket leaves the tree alone. -/
theorem sameTree_modify {f : Sock → Sock} (a : ℕ) (hf : ∀ s, (f s).node = s.node) :
    SameTree p (p.modify a f) := by
  refine ⟨rfl, funext fun b => ?_⟩
  unfold Port.nodeOf Port.modify
  dsimp only
  rw [Function.update_apply]
  split_ifs with hb
  · rw [hb, Option.map_map]
    exact congrArg (Option.map · (p.socks a)) (funext hf)
  · rfl

/-- A new record for a socket leaves the tree alone as long as its key and its
`delete_pending` are the same. -/
theorem sameTree_setSock (hs : p.socks a = some s) (hnode : s'.node = s.node) :
    SameTree p (p.setSock a s') := by
  refine ⟨rfl, funext fun b => ?_⟩
  unfold Port.nodeOf Port.setSock
  dsimp only
  rw [Function.update_apply]
  split_ifs with hb
  · rw [hb, hs, Option.map_some, Option.map_some, hnode]
  · rfl

/-- A packet that arrives at the port leaves the tree alone; the tree knows
nothing of what is outstanding. -/
theorem sameTree_complete (p : Port) (a : ℕ) (c : Completion) : SameTree p (p.complete a c) :=
  ⟨rfl, (sameTree_modify (f := .completed c) a fun _ => rfl).nodes⟩

/-- The queue of the sockets to update is another field of the port. -/
theorem sameTree_request_update (p : Port) (a : ℕ) :
    SameTree p (p.port_request_socket_update a) := by
  unfold Port.port_request_socket_update
  split_ifs
  · exact .refl p
  · exact ⟨rfl, rfl⟩

/-- A socket that leaves the queue of updates stays where it is in the tree. -/
theorem sameTree_cancel_update (p : Port) (a : ℕ) : SameTree p (p.port_cancel_socket_update a) := by
  unfold Port.port_cancel_socket_update
  split_ifs
  · exact ⟨rfl, rfl⟩
  · exact .refl p

/-- The queue of deleted sockets is another field of the port; the node is out
of the tree before its socket gets there. -/
theorem sameTree_add_deleted (p : Port) (a : ℕ) : SameTree p (p.port_add_deleted_socket a) := by
  unfold Port.port_add_deleted_socket
  split_ifs
  · exact .refl p
  · exact ⟨rfl, rfl⟩

/-- A socket that leaves the queue of deleted sockets was taken out of the tree
long before. -/
theorem sameTree_remove_deleted (p : Port) (a : ℕ) :
    SameTree p (p.port_remove_deleted_socket a) := sameTree_cancel_update p a

/-- The poll groups of a port are a queue of their own. -/
theorem sameTree_release {handle : ℕ} (hrun : poll_group_release p handle = some p') :
    SameTree p p' := by
  unfold poll_group_release at hrun
  split at hrun
  · cases hrun
  · split_ifs at hrun
    cases hrun
    exact ⟨rfl, rfl⟩

/-- A poll group taken for a new socket, made if there was none free, is not
seen by the tree. -/
theorem sameTree_acquire {device : Option ℕ} {handle : ℕ}
    (hrun : poll_group_acquire device p = some (handle, p')) : SameTree p p' := by
  unfold poll_group_acquire at hrun
  dsimp only at hrun
  split at hrun
  · cases hrun
  · cases hrun
    exact ⟨rfl, rfl⟩

/-- Cancelling a poll leaves the tree alone, whichever way the driver answers. -/
theorem sameTree_cancel_poll {c : CancelAnswer} {ok : Bool}
    (hrun : sock_cancel_poll c p a = some (ok, p')) : SameTree p p' := by
  unfold sock_cancel_poll at hrun
  cases hs : p.socks a with
  | none =>
    rw [hs] at hrun
    cases hrun
  | some s =>
    simp only [hs] at hrun
    unfold afd_cancel_poll at hrun
    split_ifs at hrun
    · cases hrun
      exact sameTree_modify a fun _ => rfl
    · have hcancelled : ∀ q : Port, SameTree q (q.modify a Sock.cancelled) :=
        fun q => sameTree_modify a fun _ => rfl
      cases c with
      | found =>
        cases hrun
        have hcancel : SameTree p (p.cancel a) := ⟨rfl, rfl⟩
        exact hcancel.trans (hcancelled _)
      | completed c =>
        cases hrun
        exact (sameTree_complete p a c).trans (hcancelled _)
      | failed =>
        cases hrun
        exact .refl p

/-- Nodes are deleted, and the tree stays as it has to be. -/
def Clears (p p' : Port) : Prop :=
  Keyed p → Keyed p' ∧ ∃ ops, (∀ op ∈ ops, ∃ a key, op = Op.del a key) ∧
    Edits p.sock_tree ops p'.sock_tree

/-- A function that leaves the tree alone deletes nothing, and so keeps the
invariant. -/
theorem SameTree.clears (h : SameTree p p') : Clears p p' :=
  fun hk => ⟨h.keyed hk, [], nofun, h.tree ▸ .nil⟩

/-- Two functions that only delete, one after the other. -/
theorem Clears.trans (h : Clears p p') (h' : Clears p' p'') : Clears p p'' := by
  intro hk
  obtain ⟨hk₁, ops, hdel, hedits⟩ := h hk
  obtain ⟨hk₂, ops', hdel', hedits'⟩ := h' hk₁
  refine ⟨hk₂, ops ++ ops', fun op hop => ?_, hedits.append hedits'⟩
  exact (List.mem_append.1 hop).elim (hdel op) (hdel' op)

/-- What the tree knows about a socket, from its record. -/
theorem nodeOf_eq (hs : p.socks a = some s) : p.nodeOf a = some (s.delete_pending, s.socket) := by
  unfold Port.nodeOf
  rw [hs]
  rfl

/-- `port_unregister_socket` of a node that is in the tree. -/
theorem clears_unregister (hs : p.nodeOf a = some (false, socket)) :
    Clears p ((p.port_unregister_socket socket).modify a Sock.retired) ∧
      ((p.port_unregister_socket socket).modify a Sock.retired).nodeOf a =
        some (true, socket) := by
  have hself : ((p.port_unregister_socket socket).modify a Sock.retired).nodeOf a =
      some (true, socket) := by
    obtain ⟨s, hsock, hnode⟩ := Option.map_eq_some_iff.1 hs
    unfold Port.nodeOf Port.modify Port.port_unregister_socket
    dsimp only
    rw [Function.update_self, hsock]
    exact congrArg some (congrArg (Prod.mk true) (congrArg Prod.snd hnode))
  have hother : ∀ b ≠ a,
      ((p.port_unregister_socket socket).modify a Sock.retired).nodeOf b = p.nodeOf b := by
    intro b hb
    unfold Port.nodeOf Port.modify
    dsimp only
    rw [Function.update_of_ne hb]
    rfl
  refine ⟨fun hk => ?_, hself⟩
  have hkey : p.sock_tree socket = some a := (hk socket a).2 hs
  refine ⟨fun key b => ?_, [.del a socket], ?_, edits_del hkey⟩
  · change Function.update p.sock_tree socket none key = some b ↔ _
    by_cases hb : b = a
    · rw [hb, hself, Function.update_apply]
      split_ifs with hkey'
      · simp
      · rw [hk key a, hs]
        simp [Ne.symm hkey']
    · rw [hother b hb, ← hk key b, Function.update_apply]
      split_ifs with hkey'
      · rw [hkey', hkey]
        exact ⟨nofun, fun heq => absurd (Option.some.inj heq).symm hb⟩
      · rfl
  · rintro op hop
    exact ⟨a, socket, List.mem_singleton.1 hop⟩

/-- A socket that is to be deleted is not in the tree. -/
theorem clears_free (hs : p.nodeOf a = some (true, socket)) : Clears p (p.sock_free a) := by
  refine fun hk => ⟨fun key b => ?_, [], nofun, .nil⟩
  change p.sock_tree key = some b ↔ _
  rw [hk key b]
  unfold Port.nodeOf Port.sock_free at *
  dsimp only
  by_cases hb : b = a
  · rw [hb, hs, Function.update_self]
    simp
  · rw [Function.update_of_ne hb]

/-- `sock_unregister` of a socket that was in the tree takes it out, and marks
it as to be deleted: both sides of the invariant lose it together. -/
theorem clears_sock_unregister (hs : p.socks a = some s) (hdel : s.delete_pending = false)
    (hrun : sock_unregister ans p a s = some p') :
    Clears p p' ∧ p'.nodeOf a = some (true, s.socket) := by
  unfold sock_unregister at hrun
  obtain ⟨p₁, hcancel, rfl⟩ := Option.map_eq_some_iff.1 hrun
  have hsame : SameTree p p₁ := by
    split_ifs at hcancel
    · obtain ⟨⟨ok, q⟩, hr, rfl⟩ := Option.map_eq_some_iff.1 hcancel
      exact sameTree_cancel_poll hr
    · cases hcancel
      exact .refl p
  have hqueues := hsame.trans (sameTree_cancel_update p₁ a)
  have hnode : (p₁.port_cancel_socket_update a).nodeOf a = some (false, s.socket) := by
    rw [hqueues.nodes, nodeOf_eq hs, hdel]
  obtain ⟨hclears, hself⟩ := clears_unregister hnode
  exact ⟨hqueues.clears.trans hclears, hself⟩

/-- **`sock_delete`.** -/
theorem clears_delete {force : Bool} (hrun : sock_delete ans p a force = some p') :
    Clears p p' := by
  unfold sock_delete at hrun
  cases hs : p.socks a with
  | none =>
    rw [hs] at hrun
    cases hrun
  | some s =>
    simp only [hs] at hrun
    have hfirst : ∀ p₁, (if s.delete_pending then some p else sock_unregister ans p a s) =
        some p₁ → Clears p p₁ ∧ p₁.nodeOf a = some (true, s.socket) := by
      intro p₁ h₁
      split_ifs at h₁ with hdel
      · cases h₁
        exact ⟨(SameTree.refl p).clears, by rw [nodeOf_eq hs, hdel]⟩
      · exact clears_sock_unregister hs (eq_false_of_ne_true hdel) h₁
    split at hrun
    · cases hrun
    · rename_i p₁ h₁
      obtain ⟨hclears, hnode⟩ := hfirst p₁ h₁
      split at hrun
      · cases hrun
      · rename_i s₁ hs₁
        split_ifs at hrun
        · obtain ⟨p₂, hrelease, rfl⟩ := Option.map_eq_some_iff.1 hrun
          have hsame := (sameTree_remove_deleted p₁ a).trans (sameTree_release hrelease)
          have hnode₂ : p₂.nodeOf a = some (true, s.socket) := by rw [hsame.nodes, hnode]
          exact hclears.trans (hsame.clears.trans (clears_free hnode₂))
        · cases hrun
          exact hclears.trans (sameTree_add_deleted p₁ a).clears

/-- New events for a socket change what it is polled for, and the queue of
updates, but not its key. -/
theorem sameTree_set_event {ev : EpollEvent} (hrun : sock_set_event p a ev = some p') :
    SameTree p p' := by
  unfold sock_set_event at hrun
  cases hs : p.socks a with
  | none =>
    rw [hs] at hrun
    cases hrun
  | some s =>
    simp only [hs] at hrun
    have hset : SameTree p (p.setSock a
        { s with user_events := ev.events ||| EPOLLERR ||| EPOLLHUP, user_data := ev.data }) :=
      sameTree_setSock hs rfl
    split_ifs at hrun
    · cases hrun
      exact hset.trans (sameTree_request_update _ a)
    · cases hrun
      exact hset

/-- **`sock_update`.** -/
theorem clears_update {ok : Bool} (hrun : sock_update ans p a = some (ok, p')) : Clears p p' := by
  unfold sock_update at hrun
  cases hs : p.socks a with
  | none =>
    rw [hs] at hrun
    cases hrun
  | some s =>
    simp only [hs] at hrun
    by_cases hdel : s.delete_pending = true
    · rw [if_pos hdel] at hrun
      cases hrun
    rw [if_neg hdel] at hrun
    cases hstatus : s.poll_status with
    | SOCK_POLL_PENDING =>
      simp only [hstatus] at hrun
      split_ifs at hrun
      · cases hrun
        exact (sameTree_cancel_update p a).clears
      · split at hrun
        · cases hrun
        · rename_i hcancel
          cases hrun
          exact (sameTree_cancel_poll hcancel).clears
        · rename_i p₁ hcancel
          cases hrun
          exact ((sameTree_cancel_poll hcancel).trans (sameTree_cancel_update p₁ a)).clears
    | SOCK_POLL_CANCELLED =>
      simp only [hstatus] at hrun
      cases hrun
      exact (sameTree_cancel_update p a).clears
    | SOCK_POLL_IDLE =>
      simp only [hstatus] at hrun
      have hpoll : ∀ answer, SameTree p (afd_poll answer p a s).2 := by
        intro answer
        have hasking : SameTree p (p.setSock a s.asking) := sameTree_setSock hs rfl
        have hrequest : ∀ q r, SameTree q (Port.setRequest q a r) := fun _ _ => ⟨rfl, rfl⟩
        unfold afd_poll
        cases answer with
        | pending => exact hasking.trans (hrequest _ _)
        | completed c => exact (hasking.trans (hrequest _ _)).trans (sameTree_complete _ a c)
        | invalidHandle => exact hasking
        | failed => exact hasking
      have hsame := hpoll (ans.poll a s.base_socket)
      split at hrun
      · rename_i p₁ heq
        rw [heq] at hsame
        cases hrun
        exact hsame.clears
      · rename_i p₁ heq
        rw [heq] at hsame
        obtain ⟨p₂, hdelete, h₂⟩ := Option.map_eq_some_iff.1 hrun
        cases h₂
        exact hsame.clears.trans (clears_delete hdelete)
      · rename_i p₁ _ _ heq
        rw [heq] at hsame
        cases hrun
        exact (hsame.trans ((sameTree_modify (f := .submitted) a fun _ => rfl).trans
          (sameTree_cancel_update _ a))).clears

/-- **`sock_feed_event`.** -/
theorem clears_feed_event {ev : Option EpollEvent}
    (hrun : sock_feed_event ans p a = some (ev, p')) : Clears p p' := by
  unfold sock_feed_event at hrun
  cases hs : p.socks a with
  | none =>
    rw [hs] at hrun
    cases hrun
  | some s =>
    simp only [hs] at hrun
    have hended : SameTree p (p.setSock a s.ended) := sameTree_setSock hs rfl
    have hdelete : ∀ o : Option EpollEvent,
        (sock_delete ans (p.setSock a s.ended) a false).map (none, ·) = some (o, p') →
          Clears p p' := by
      intro o ho
      obtain ⟨p₁, hdelete, h₁⟩ := Option.map_eq_some_iff.1 ho
      cases h₁
      exact hended.clears.trans (clears_delete hdelete)
    split_ifs at hrun with hdel
    · exact hdelete _ hrun
    · split at hrun
      · exact hdelete _ hrun
      · have hrequest := hended.trans (sameTree_request_update _ a)
        split_ifs at hrun
        · cases hrun
          exact hrequest.clears
        · cases hrun
          have hsocks : ((p.setSock a s.ended).port_request_socket_update a).socks a =
              some s.ended := by
            unfold Port.port_request_socket_update
            split_ifs <;> exact setSock_socks p a s.ended
          have hset : SameTree ((p.setSock a s.ended).port_request_socket_update a)
              (Port.setSock _ a { s.ended with user_events := afterReport s.user_events }) :=
            sameTree_setSock hsocks rfl
          exact (hrequest.trans hset).clears

/-! ### The port -/

/-- The updates before a wait: a socket of the queue may be found closed, and is
then deleted. -/
theorem clears_update_events {fuel : ℕ} {ok : Bool}
    (hrun : port_update_events ans fuel p = some (ok, p')) : Clears p p' := by
  induction fuel generalizing p with
  | zero =>
    unfold port_update_events at hrun
    split_ifs at hrun
    cases hrun
    exact (SameTree.refl _).clears
  | succ fuel ih =>
    unfold port_update_events at hrun
    split at hrun
    · cases hrun
      exact (SameTree.refl _).clears
    · split at hrun
      · cases hrun
      · rename_i hupdate
        cases hrun
        exact clears_update hupdate
      · rename_i p₁ hupdate
        exact (clears_update hupdate).trans (ih hrun)

/-- The updates after an `epoll_ctl` are done while another thread waits, and
are the same function. -/
theorem clears_update_events_if_polling
    (hrun : port_update_events_if_polling ans p = some p') : Clears p p' := by
  unfold port_update_events_if_polling at hrun
  split_ifs at hrun
  · obtain ⟨⟨ok, p₁⟩, hupdate, rfl⟩ := Option.map_eq_some_iff.1 hrun
    exact clears_update_events hupdate
  · cases hrun
    exact (SameTree.refl _).clears

/-- The events that a wait has got: each packet may tell that its socket has
been closed, which deletes it. -/
theorem clears_feed_events {l : List ℕ} {events : List EpollEvent}
    (hrun : port_feed_events ans l p = some (events, p')) : Clears p p' := by
  induction l generalizing p events with
  | nil =>
    cases hrun
    exact (SameTree.refl _).clears
  | cons a l ih =>
    unfold port_feed_events at hrun
    split at hrun
    · cases hrun
    · rename_i ev p₁ hfeed
      obtain ⟨⟨events', p₂⟩, hrest, h₂⟩ := Option.map_eq_some_iff.1 hrun
      cases h₂
      exact (clears_feed_event hfeed).trans (ih hrest)

/-- `EPOLL_CTL_ADD` and `EPOLL_CTL_MOD` end with the new events of the socket
and the updates; behind the addition they can only delete. -/
theorem clears_set_and_update {ev : EpollEvent}
    (hrun : (sock_set_event p a ev).bind (port_update_events_if_polling ans) = some p') :
    Clears p p' := by
  obtain ⟨p₁, hset, hupdate⟩ := Option.bind_eq_some_iff.1 hrun
  exact (sameTree_set_event hset).clears.trans (clears_update_events_if_polling hupdate)

/-- Where there is no socket, the tree has no node: what the allocator gives out
is not in the tree, and may be added. -/
theorem Keyed.absent (hk : Keyed p) (hfree : p.nodeOf a = none) (key : ℕ) :
    p.sock_tree key ≠ some a := by
  intro hkey
  have hnode := (hk key a).1 hkey
  rw [hfree] at hnode
  cases hnode

/-- `port_register_socket` of a socket that is new. -/
theorem register_edits (hk : Keyed p) (hfree : p.nodeOf a = none)
    (hnew : p.sock_tree s.socket = none) (hdel : s.delete_pending = false) :
    Keyed { p.setSock a s with sock_tree := Function.update p.sock_tree s.socket (some a) } ∧
      Edits p.sock_tree [.add a s.socket] (Function.update p.sock_tree s.socket (some a)) := by
  have habsent := hk.absent hfree
  refine ⟨fun key b => ?_, edits_add hnew habsent⟩
  unfold Port.nodeOf Port.setSock
  dsimp only
  by_cases hb : b = a
  · rw [hb, Function.update_self, Option.map_some, Function.update_apply]
    unfold Sock.node
    rw [hdel]
    split_ifs with hkey
    · simp [hkey]
    · simp [habsent key, Ne.symm hkey]
  · rw [Function.update_of_ne hb, Function.update_apply]
    have hnode := hk key b
    unfold Port.nodeOf at hnode
    rw [← hnode]
    split_ifs with hkey
    · rw [hkey, hnew]
      exact ⟨fun heq => absurd (Option.some.inj heq).symm hb, nofun⟩
    · rfl

/-- **`sock_new`**: the socket that it makes is added, unless its key is there. -/
theorem new_edits {new : New} {r : Option ℕ} (hk : Keyed p)
    (haddress : ∀ a, new.address = some a → p.socks a = none)
    (hrun : sock_new new p socket = some (r, p')) :
    Keyed p' ∧ ∃ added, Edits p.sock_tree added p'.sock_tree ∧
      (added = [] ∨ ∃ a, new.address = some a ∧ added = [Op.add a socket]) := by
  have hnone : ∀ {q : Port}, SameTree p q → Keyed q ∧ ∃ added, Edits p.sock_tree added q.sock_tree ∧
      (added = [] ∨ ∃ a, new.address = some a ∧ added = [Op.add a socket]) :=
    fun hsame => ⟨hsame.keyed hk, [], hsame.tree ▸ .nil, .inl rfl⟩
  unfold sock_new at hrun
  split_ifs at hrun
  · cases hrun
    exact hnone (.refl p)
  · split at hrun
    · cases hrun
      exact hnone (.refl p)
    · split at hrun
      · cases hrun
        exact hnone (.refl p)
      · rename_i handle p₁ hacquire
        have hsame : SameTree p p₁ := sameTree_acquire hacquire
        split at hrun
        · obtain ⟨p₂, hrelease, h₂⟩ := Option.map_eq_some_iff.1 hrun
          cases h₂
          exact hnone (hsame.trans (sameTree_release hrelease))
        · rename_i a ha
          have hfree : p₁.nodeOf a = none := by
            rw [hsame.nodes]
            unfold Port.nodeOf
            rw [haddress a ha]
            rfl
          split_ifs at hrun with hexists
          · obtain ⟨p₂, hrelease, h₂⟩ := Option.map_eq_some_iff.1 hrun
            cases h₂
            have hsame₂ := hsame.trans (sameTree_release hrelease)
            obtain ⟨b, hb⟩ := Option.ne_none_iff_exists'.1 hexists
            have hadd := edits_add_present hb ((hsame.keyed hk).absent hfree)
            refine ⟨hsame₂.keyed hk, _, ?_, .inr ⟨a, ha, rfl⟩⟩
            rw [hsame₂.tree, ← hsame.tree]
            exact hadd
          · cases hrun
            obtain ⟨hkeyed, hedits⟩ := register_edits (s := Sock.new socket handle _)
              (hsame.keyed hk) hfree (not_not.1 hexists) rfl
            exact ⟨hkeyed, _, hsame.tree ▸ hedits, .inr ⟨a, ha, rfl⟩⟩

/-! ### Runs -/

/-- What an event runs on the tree: `EPOLL_CTL_ADD` adds the socket that it has
allocated, and behind that nodes are deleted. -/
def Event.Accesses (e : Event) (ops : List Op) : Prop :=
  ∃ added deleted, ops = added ++ deleted ∧ (∀ op ∈ deleted, ∃ a key, op = Op.del a key) ∧
    (added = [] ∨ ∃ sock ev new ans a, e = .ctl .EPOLL_CTL_ADD sock ev new ans ∧
      new.address = some a ∧ added = [.add a sock])

/-- The tree after an event. -/
def Event.Leaves (e : Event) (p p' : Port) : Prop :=
  Keyed p' ∧ ∃ ops, e.Accesses ops ∧ Edits p.sock_tree ops p'.sock_tree

variable {e : Event} {es : List Event} {sys sys' : System} {t now : ℕ} {w : Wait}

/-- A function that only deletes is one that an event of any kind may run. -/
theorem Clears.leaves (h : Clears p p') (hk : Keyed p) : e.Leaves p p' := by
  obtain ⟨hk', ops, hdel, hedits⟩ := h hk
  exact ⟨hk', ops, ⟨[], ops, rfl, hdel, .inl rfl⟩, hedits⟩

/-- **`port_ctl`.** -/
theorem ctl_leaves {new : New} {op : CtlOp} {sock : ℕ} {ev : EpollEvent} {ok : Bool}
    (hk : Keyed p) (haddress : ∀ a, new.address = some a → p.socks a = none)
    (hrun : port_ctl new ans p op sock ev = some (ok, p')) :
    (Event.ctl op sock ev new ans).Leaves p p' := by
  unfold port_ctl at hrun
  cases op with
  | EPOLL_CTL_ADD =>
    dsimp only at hrun
    split at hrun
    · cases hrun
    · rename_i p₁ hnew
      cases hrun
      obtain ⟨hk₁, added, hedits, hadded⟩ := new_edits hk haddress hnew
      refine ⟨hk₁, added, ⟨added, [], (List.append_nil added).symm, nofun, ?_⟩, hedits⟩
      exact hadded.imp id fun ⟨a, ha, hop⟩ => ⟨sock, ev, new, ans, a, rfl, ha, hop⟩
    · rename_i a p₁ hnew
      obtain ⟨p₂, hset, h₂⟩ := Option.map_eq_some_iff.1 hrun
      cases h₂
      obtain ⟨hk₁, added, hedits, hadded⟩ := new_edits hk haddress hnew
      obtain ⟨hk₂, ops, hdel, hedits'⟩ := clears_set_and_update hset hk₁
      refine ⟨hk₂, _, ⟨added, ops, rfl, hdel, ?_⟩, hedits.append hedits'⟩
      exact hadded.imp id fun ⟨a, ha, hop⟩ => ⟨sock, ev, new, ans, a, rfl, ha, hop⟩
  | EPOLL_CTL_MOD =>
    dsimp only at hrun
    split at hrun
    · cases hrun
      exact (SameTree.refl _).clears.leaves hk
    · obtain ⟨p₂, hset, h₂⟩ := Option.map_eq_some_iff.1 hrun
      cases h₂
      exact (clears_set_and_update hset).leaves hk
  | EPOLL_CTL_DEL =>
    dsimp only at hrun
    split at hrun
    · cases hrun
      exact (SameTree.refl _).clears.leaves hk
    · obtain ⟨p₂, hdelete, h₂⟩ := Option.map_eq_some_iff.1 hrun
      cases h₂
      exact (clears_delete hdelete).leaves hk

/-- The end of a wait: the sockets are updated once more if another thread
waits, which can only delete. -/
theorem clears_finish {events : List EpollEvent} (hrun : sys.finish ans t events = some sys') :
    Clears sys.port sys'.port := by
  unfold System.finish at hrun
  obtain ⟨p₁, hupdate, rfl⟩ := Option.map_eq_some_iff.1 hrun
  exact clears_update_events_if_polling hupdate

/-- A wait up to where it sleeps is the updates of the sockets; if one of them
fails the wait ends. -/
theorem clears_poll (hrun : sys.poll ans ans' t w = some sys') : Clears sys.port sys'.port := by
  unfold System.poll at hrun
  split at hrun
  · cases hrun
  · rename_i p₁ hupdate
    exact (clears_update_events hupdate).trans (clears_finish hrun)
  · rename_i p₁ hupdate
    cases hrun
    have hcount : SameTree p₁ { p₁ with active_poll_count := p₁.active_poll_count + 1 } :=
      ⟨rfl, rfl⟩
    exact (clears_update_events hupdate).trans hcount.clears

/-- A wait that goes on has fed the events of its packets; it sleeps again if
there was none and there is time left, and ends otherwise. -/
theorem clears_resume (hrun : sys.resume ans ans' t now = some sys') :
    Clears sys.port sys'.port := by
  have hback : SameTree sys.port sys.back.port := ⟨rfl, rfl⟩
  unfold System.resume at hrun
  split at hrun
  · split at hrun
    · cases hrun
    · rename_i events p₁ hfeed
      have hfed := hback.clears.trans (clears_feed_events hfeed)
      split_ifs at hrun
      · exact hfed.trans (clears_poll hrun)
      · exact hfed.trans (clears_finish hrun)
  · exact hback.clears.trans (clears_finish hrun)
  · cases hrun

/-- **One event.** -/
theorem step_leaves (hk : Keyed sys.port) (hpossible : sys.Possible e)
    (hstep : sys.step e = some sys') : e.Leaves sys.port sys'.port := by
  cases e with
  | ctl op sock ev new ans =>
    obtain ⟨⟨ok, p₁⟩, hctl, rfl⟩ := Option.map_eq_some_iff.1 hstep
    exact ctl_leaves hk hpossible.1 hctl
  | wait t w ans ans' => exact (clears_poll hstep).leaves hk
  | dequeue t n =>
    unfold System.step at hstep
    dsimp only at hstep
    split at hstep
    · cases hstep
      have hsame : SameTree sys.port { sys.port with iocp := sys.port.iocp.drop n } := ⟨rfl, rfl⟩
      exact hsame.clears.leaves hk
    · cases hstep
  | expire t =>
    unfold System.step at hstep
    dsimp only at hstep
    split at hstep
    · cases hstep
      exact (SameTree.refl sys.port).clears.leaves hk
    · cases hstep
  | resume t now ans ans' => exact (clears_resume hstep).leaves hk
  | complete a c =>
    cases hstep
    exact (sameTree_complete sys.port a c).clears.leaves hk

/-- A run of events, with what each of them runs on the tree.  That may be run on the tree
that the port has before the event, and makes of it the one that the port has after it. -/
inductive Traced : System → List Event → List (List Op) → System → Prop
  | nil (sys : System) : Traced sys [] [] sys
  | cons {sys sys' sys'' : System} {e : Event} {es : List Event} {ops : List Op}
      {accesses : List (List Op)} (hstep : sys.step e = some sys') (hops : e.Accesses ops)
      (hedits : Edits sys.port.sock_tree ops sys'.port.sock_tree)
      (hrest : Traced sys' es accesses sys'') : Traced sys (e :: es) (ops :: accesses) sys''

variable {accesses : List (List Op)}

/-- The accesses of all the events, one after the other. -/
theorem Traced.edits (h : Traced sys es accesses sys') :
    Edits sys.port.sock_tree accesses.flatten sys'.port.sock_tree := by
  induction h with
  | nil sys => exact .nil
  | cons _ _ hedits _ ih => exact hedits.append ih

/-- **A run of events** is a run on the tree. -/
theorem traced_run (hk : Keyed sys.port) (hpossible : Steps System.step System.Possible sys es)
    (hrun : run System.step sys es = some sys') : ∃ accesses, Traced sys es accesses sys' := by
  induction es generalizing sys with
  | nil =>
    cases hrun
    exact ⟨[], .nil _⟩
  | cons e es ih =>
    obtain ⟨sys₁, hstep, hrest⟩ := run_cons_eq_some.1 hrun
    obtain ⟨hk₁, ops, hops, hedits⟩ := step_leaves hk hpossible.1 hstep
    obtain ⟨accesses, htraced⟩ := ih hk₁ (hpossible.2 sys₁ hstep) hrest
    exact ⟨ops :: accesses, .cons hstep hops hedits htraced⟩

/-- **The sockets of a port are in a red-black tree.**  Over any calls by any threads, in
any order with what the driver does, an event adds the socket that it has allocated and
deletes nodes, and the tree allows all of it (`Traced`): what is added is not there and
what is deleted is.  Run on the tree in any memory, `NULL` is never followed, each loop
ends within twice the logarithm of the number of accesses, the tree is a red-black tree
of the sockets that the port has, and `tree_find` finds them. -/
theorem port_tree_refines (C : Set ℕ) (m : ℕ → RedBlackTree.TreeNode) (es : List Event)
    (hgood : Steps System.step (Good C) .init es) :
    ∃ s accesses, run System.step .init es = some s ∧ Traced .init es accesses s ∧
      Steps Map.step Map.Legal .init accesses.flatten ∧
      ∀ fuel, 2 * Nat.log 2 (accesses.flatten.length + 1) < fuel →
        ∃ tree, run (RedBlackTree.System.step fuel) (.init m) accesses.flatten = some tree ∧
          (∃ base t, RedBlackTree.Stores base tree.heap t ∧
            ∀ v, v ∈ t.toList ↔ s.port.sock_tree v.key = some v.node) ∧
          ∀ key, RedBlackTree.TreeHeap.tree_find key fuel tree.heap tree.heap.root =
            some (s.port.sock_tree key) := by
  obtain ⟨s, hrun, -⟩ := run_spec (ok_init C) hgood
  have hkeyed : Keyed System.init.port := fun key a => ⟨nofun, nofun⟩
  obtain ⟨accesses, htraced⟩ := traced_run hkeyed (hgood.mono fun _ _ h => h.1) hrun
  obtain ⟨hsteps, results, hmap⟩ := htraced.edits []
  refine ⟨s, accesses, hrun, htraced, hsteps, fun fuel hfuel => ?_⟩
  have hfuel₀ : 2 * Nat.log 2 ((RedBlack.RBTree.nil : RedBlack.RBTree RedBlackTree.Entry
      ).toList.length + accesses.flatten.length + 1) < fuel := by
    rwa [RedBlack.RBTree.toList, List.length_nil, Nat.zero_add]
  obtain ⟨base, tree, t, nodes, htree, hnodes, hr, hlength, -⟩ :=
    (RedBlackTree.refines_init m).run hsteps hfuel₀
  obtain rfl : nodes = ⟨s.port.sock_tree, results⟩ := Option.some.inj (hnodes.symm.trans hmap)
  refine ⟨tree, htree, ⟨base, t, hr.stores, hr.mem⟩, fun key => ?_⟩
  have hdepth : t.depth ≤ fuel := by
    have hlog : Nat.log 2 (t.toList.length + 1) ≤ Nat.log 2 (accesses.flatten.length + 1) := by
      refine Nat.log_mono_right ?_
      rw [RedBlack.RBTree.toList, List.length_nil] at hlength
      omega
    have := hr.stores.redBlack.depth_le
    omega
  exact hr.tree_find_eq hdepth key

/-- The run of the example of the port has a tree in memory for it, with every
access legal. -/
theorem port_tree_refines_one :
    ∃ s accesses, run System.step .init someRun = some s ∧ Traced .init someRun accesses s := by
  obtain ⟨s, accesses, hrun, htraced, -⟩ := port_tree_refines ∅
    (fun _ => ⟨none, none, none, 0, false⟩) someRun (good_someRun.mono fun _ _ h => h.1)
  exact ⟨s, accesses, hrun, htraced⟩

end Wepoll
end Net
end Sevent
