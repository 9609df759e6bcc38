/-
# What the functions of wepoll do

`sevent/net/poller/wepoll/wepoll.c`.

The specifications of `sock_delete`, `sock_set_event`, `sock_update`,
`sock_feed_event`, `sock_new` and of the loops of the port over them: from a port
that is `Ok` no assertion fails, no memory that is free is read, and the port is
`Ok` again.

What a user sees of a port is `Port.entry`: the socket at an address, with the
events and the data of the last `epoll_ctl`.  What becomes of the entries is said with
each function.
-/

import Sevent.Net.Poller.WepollSpec

namespace Sevent
namespace Net
namespace Wepoll

variable {C : Set ℕ} {p p' p'' : Port} {hand : Set ℕ} {a b : ℕ} {s s' : Sock} {ans : Answers}

/-! ### The queues -/

/-- Taking a socket out of the queue of updates, when it is not among the
deleted ones: `queue_remove` takes a node out of whichever queue it is in. -/
theorem cancel_update_eq (hd : a ∉ p.sock_deleted_queue) :
    p.port_cancel_socket_update a =
      { p with sock_update_queue := p.sock_update_queue.erase a } := by
  unfold Port.port_cancel_socket_update Port.queue_remove Port.enqueued
  rw [List.erase_of_not_mem hd]
  split_ifs with h
  · rfl
  · rw [Bool.or_eq_true, not_or] at h
    rw [List.erase_of_not_mem fun hmem => h.1 (List.contains_iff_mem.2 hmem)]

/-- Taking a socket out of the queue of deleted ones, when it does not wait for
an update. -/
theorem remove_deleted_eq (hu : a ∉ p.sock_update_queue) :
    p.port_remove_deleted_socket a =
      { p with sock_deleted_queue := p.sock_deleted_queue.erase a } := by
  unfold Port.port_remove_deleted_socket Port.queue_remove Port.enqueued
  rw [List.erase_of_not_mem hu]
  split_ifs with h
  · rfl
  · rw [Bool.or_eq_true, not_or] at h
    rw [List.erase_of_not_mem fun hmem => h.2 (List.contains_iff_mem.2 hmem)]

/-- Putting a socket among the deleted ones, when it does not wait for an
update; twice is once. -/
theorem add_deleted_eq (hu : a ∉ p.sock_update_queue) :
    p.port_add_deleted_socket a = { p with
      sock_deleted_queue := if a ∈ p.sock_deleted_queue then p.sock_deleted_queue
        else p.sock_deleted_queue ++ [a] } := by
  unfold Port.port_add_deleted_socket Port.enqueued
  by_cases hd : a ∈ p.sock_deleted_queue
  · rw [if_pos hd, if_pos]
    rw [Bool.or_eq_true]
    exact .inr (List.contains_iff_mem.2 hd)
  · rw [if_neg hd, if_neg]
    rw [Bool.or_eq_true, List.contains_iff_mem, List.contains_iff_mem]
    exact not_or.2 ⟨hu, hd⟩

/-- Asking for an update of a socket that is not among the deleted ones; twice
is once. -/
theorem request_update_eq (hd : a ∉ p.sock_deleted_queue) :
    p.port_request_socket_update a = { p with
      sock_update_queue := if a ∈ p.sock_update_queue then p.sock_update_queue
        else p.sock_update_queue ++ [a] } := by
  unfold Port.port_request_socket_update Port.enqueued
  by_cases hu : a ∈ p.sock_update_queue
  · rw [if_pos hu, if_pos]
    rw [Bool.or_eq_true]
    exact .inl (List.contains_iff_mem.2 hu)
  · rw [if_neg hu, if_neg]
    rw [Bool.or_eq_true, List.contains_iff_mem, List.contains_iff_mem]
    exact not_or.2 ⟨hu, hd⟩

/-- `queue_append` for a node that may be there already. -/
theorem nodup_enqueue {l : List ℕ} (h : l.Nodup) (a : ℕ) :
    (if a ∈ l then l else l ++ [a]).Nodup := by
  split_ifs with ha
  · exact h
  · exact List.nodup_append.2 ⟨h, List.nodup_singleton a, fun x hx y hy hxy =>
      ha (List.mem_singleton.1 hy ▸ hxy ▸ hx)⟩

/-- A node is in the queue that it was put into. -/
theorem mem_enqueue (l : List ℕ) (a : ℕ) : a ∈ if a ∈ l then l else l ++ [a] := by
  split_ifs with ha
  · exact ha
  · exact List.mem_append_right _ (List.mem_singleton_self a)

/-! ### The socket and its request -/

/-- Only the socket at `a`, its request and its packet have changed. -/
structure Inner (a : ℕ) (p p' : Port) : Prop extends Only a p p' where
  update_eq : p'.sock_update_queue = p.sock_update_queue
  deleted_eq : p'.sock_deleted_queue = p.sock_deleted_queue
  tree_eq : p'.sock_tree = p.sock_tree
  groups_eq : p'.poll_group_queue = p.poll_group_queue

/-- Nothing done changes nothing else. -/
theorem Inner.refl (a : ℕ) (p : Port) : Inner a p p := ⟨.refl a p, rfl, rfl, rfl, rfl⟩

/-- Two functions that change only this socket, its request and its packet. -/
theorem Inner.trans (h : Inner a p p') (h' : Inner a p' p'') : Inner a p p'' :=
  ⟨h.toOnly.trans h'.toOnly, h'.update_eq.trans h.update_eq, h'.deleted_eq.trans h.deleted_eq,
    h'.tree_eq.trans h.tree_eq, h'.groups_eq.trans h.groups_eq⟩

/-- A new record for the socket is a change of it only. -/
theorem inner_setSock (p : Port) (a : ℕ) (s : Sock) : Inner a p (p.setSock a s) :=
  ⟨only_setSock p a s, rfl, rfl, rfl, rfl⟩

/-- A change of the record is a change of it only. -/
theorem inner_modify (p : Port) (a : ℕ) (f : Sock → Sock) : Inner a p (p.modify a f) :=
  ⟨only_modify p a f, rfl, rfl, rfl, rfl⟩

/-- A request of the socket is a change of it only. -/
theorem inner_setRequest (p : Port) (a : ℕ) (r : Request) : Inner a p (p.setRequest a r) :=
  ⟨only_setRequest p a r, rfl, rfl, rfl, rfl⟩

/-- The end of the request by cancellation is a change of it only. -/
theorem inner_cancel (p : Port) (a : ℕ) : Inner a p (p.cancel a) :=
  ⟨only_cancel p a, rfl, rfl, rfl, rfl⟩

/-- The end of the request is a change of it only; its packet is behind the
others. -/
theorem inner_complete (p : Port) (a : ℕ) (c : Completion) : Inner a p (p.complete a c) :=
  ⟨only_complete p a c, rfl, rfl, rfl, rfl⟩

/-- The queues and the packets are still well formed, for none of them has
changed. -/
theorem Lists.inner (h : Lists p hand) (hi : Inner a p p') (hiocp : p'.iocp = p.iocp) :
    Lists p' hand :=
  ⟨hi.update_eq ▸ h.update, hi.deleted_eq ▸ h.deleted, hiocp ▸ h.iocp, hiocp ▸ h.apart⟩

/-- A packet more, of a socket that had none on its way. -/
theorem Lists.complete (h : Lists p hand) (ha : ¬ (a ∈ p.iocp ∨ a ∈ hand)) (c : Completion) :
    Lists (p.complete a c) hand := by
  rw [not_or] at ha
  refine ⟨h.update, h.deleted, ?_, fun b hb => ?_⟩
  · exact List.nodup_append.2 ⟨h.iocp, List.nodup_singleton a, fun x hx y hy hxy =>
      ha.1 (List.mem_singleton.1 hy ▸ hxy ▸ hx)⟩
  · rcases List.mem_append.1 hb with hb | hb
    · exact h.apart b hb
    · exact List.mem_singleton.1 hb ▸ ha.2

/-- Which poll groups there are is nothing to the queues. -/
theorem Lists.groups (h : Lists p hand) (queue : List PollGroup) :
    Lists { p with poll_group_queue := queue } hand :=
  ⟨h.update, h.deleted, h.iocp, h.apart⟩

/-- What no request changes of a socket. -/
structure SameSock (s s' : Sock) : Prop where
  socket : s'.socket = s.socket
  poll_group : s'.poll_group = s.poll_group
  base_socket : s'.base_socket = s.base_socket
  user_data : s'.user_data = s.user_data
  user_events : s'.user_events = s.user_events
  delete_pending : s'.delete_pending = s.delete_pending

/-- The port after a change of the socket and its request. -/
structure Turned (hand : Set ℕ) (a : ℕ) (p p' : Port) (s s' : Sock) : Prop extends
    Inner a p p' where
  sock : p'.socks a = some s'
  same : SameSock s s'
  lists : Lists p' hand

/-- Where the queues and the tree are as they were, a socket is still sound. -/
theorem Turned.sound (h : Turned hand a p p' s s') (hsound : Sound C (p.view hand a) s)
    (hidle : s'.poll_status = .SOCK_POLL_IDLE → p'.requests a = none ∧ ¬ (a ∈ p'.iocp ∨ a ∈ hand))
    (hbusy : s'.poll_status ≠ .SOCK_POLL_IDLE → Busy C (p'.view hand a) s')
    (hpending : s'.poll_status ≠ .SOCK_POLL_PENDING → s'.pending_events = 0) :
    Sound C (p'.view hand a) s' := by
  have hkeys := hsound.keys
  have hretired := hsound.retired
  have hupdating := hsound.updating
  unfold Port.view at hkeys hretired hupdating
  refine ⟨?_, ?_, ?_, hidle, hbusy, hpending⟩
  · unfold Port.view
    dsimp only
    rw [h.tree_eq, h.same.delete_pending, h.same.socket]
    exact hkeys
  · unfold Port.view
    dsimp only
    rw [h.deleted_eq, h.same.delete_pending]
    exact hretired
  · unfold Port.view
    dsimp only
    rw [h.update_eq, h.same.delete_pending]
    exact hupdating

/-- The poll groups count as before, for the socket has kept its group. -/
theorem Turned.groups (h : Turned hand a p p' s s') (hs : p.socks a = some s)
    (hg : Groups p.members p.poll_group_queue) : Groups p'.members p'.poll_group_queue := by
  have hsame := h.same.poll_group
  rw [h.groups_eq, h.toOnly.members]
  · exact hg
  · rw [h.sock, hs, Option.map_some, Option.map_some, hsame]

/-- What is read at the address of a changed socket. -/
theorem modify_socks (hs : p.socks a = some s) (f : Sock → Sock) :
    (p.modify a f).socks a = some (f s) := by
  unfold Port.modify
  dsimp only
  rw [Function.update_self, hs, Option.map_some]

/-- What is read at the address of a socket whose request has ended. -/
theorem complete_socks (hs : p.socks a = some s) (c : Completion) :
    (p.complete a c).socks a = some (s.completed c) :=
  modify_socks hs _

/-- A socket that has not changed is the same to the user. -/
theorem sameSock_refl (s : Sock) : SameSock s s := ⟨rfl, rfl, rfl, rfl, rfl, rfl⟩

/-- A packet that has `none` to report is one that says that the socket was
closed. -/
theorem closes_of_reported {c : Completion} (h : (s.completed c).reported = none) : c.closes := by
  unfold Sock.reported Sock.completed at h
  dsimp only at h
  split_ifs at h with hcancelled hfailure hnumber hclose
  refine ⟨?_, hnumber, hclose⟩
  cases hstatus : c.Status with
  | STATUS_SUCCESS => rfl
  | STATUS_CANCELLED => exact absurd (congrArg some hstatus) hcancelled
  | failure => exact absurd (congrArg some hstatus) hfailure

/-- The port after the call in `afd_cancel_poll` has gone well. -/
theorem sound_cancelled {s₁ : Sock} (h : Turned hand a p p' s s₁)
    (hsound : Sound C (p.view hand a) s) (hbusy : Busy C (p'.view hand a) s₁.cancelled) :
    Turned hand a p (p'.modify a Sock.cancelled) s s₁.cancelled ∧
      Sound C ((p'.modify a Sock.cancelled).view hand a) s₁.cancelled := by
  have hsame := h.same
  have hturned : Turned hand a p (p'.modify a Sock.cancelled) s s₁.cancelled :=
    ⟨h.toInner.trans (inner_modify p' a _), modify_socks h.sock _,
      ⟨hsame.socket, hsame.poll_group, hsame.base_socket, hsame.user_data, hsame.user_events,
        hsame.delete_pending⟩, h.lists.inner (inner_modify p' a _) rfl⟩
  refine ⟨hturned, hturned.sound hsound nofun (fun _ => ?_) fun _ => rfl⟩
  cases hbusy with
  | asked r hrequest hstatus hpacket hhandle hpending hcancelled =>
    exact .asked r hrequest hstatus hpacket hhandle hpending hcancelled
  | done hrequest hstatus hpacket hclosed => exact .done hrequest hstatus hpacket hclosed

/-- **`sock_cancel_poll`.** -/
theorem sock_cancel_poll_spec (hl : Lists p hand) (hs : p.socks a = some s)
    (hsound : Sound C (p.view hand a) s) (hpend : s.poll_status = .SOCK_POLL_PENDING)
    (c : CancelAnswer) (hc : ∀ c', c = .completed c' → c'.closes → s.base_socket ∈ C) :
    (∃ p' s', sock_cancel_poll c p a = some (true, p') ∧ Turned hand a p p' s s' ∧
      s'.poll_status = .SOCK_POLL_CANCELLED ∧ Sound C (p'.view hand a) s') ∨
    c = .failed ∧ sock_cancel_poll c p a = some (false, p) := by
  have hne : s.poll_status ≠ .SOCK_POLL_IDLE := by
    rw [hpend]
    exact nofun
  unfold sock_cancel_poll afd_cancel_poll
  rw [hs]
  dsimp only
  rw [if_neg (not_not.2 hpend)]
  rcases hsound.busy hne with ⟨r, hrequest, hstatus, hpacket, hhandle, -, -⟩ |
    ⟨hrequest, hstatus, hpacket, hclosed⟩
  · rw [if_neg (not_not.2 hstatus)]
    cases c with
    | found =>
      have hturned : Turned hand a p (p.cancel a) s s :=
        ⟨inner_cancel p a, hs, sameSock_refl s, hl.inner (inner_cancel p a) rfl⟩
      obtain ⟨hturned, hsound'⟩ := sound_cancelled hturned hsound
        (.asked { r with cancelled := true } (by
          have hr : p.requests a = some r := hrequest
          change Function.update p.requests a _ a = _
          rw [Function.update_self, hr, Option.map_some]) hstatus hpacket hhandle nofun
          fun _ => rfl)
      exact .inl ⟨_, _, rfl, hturned, rfl, hsound'⟩
    | completed c =>
      have hturned : Turned hand a p (p.complete a c) s (s.completed c) :=
        ⟨inner_complete p a c, complete_socks hs c, ⟨rfl, rfl, rfl, rfl, rfl, rfl⟩,
          hl.complete hpacket c⟩
      obtain ⟨hturned, hsound'⟩ := sound_cancelled hturned hsound
        (.done (by
          change Function.update p.requests a none a = none
          exact Function.update_self ..) nofun
          (.inl (List.mem_append_right _ (List.mem_singleton_self a)))
          fun hnone => hc c rfl (closes_of_reported (s := s) hnone))
      exact .inl ⟨_, _, rfl, hturned, rfl, hsound'⟩
    | failed => exact .inr ⟨rfl, rfl⟩
  · rw [if_pos hstatus]
    have hturned : Turned hand a p p s s :=
      ⟨.refl a p, hs, sameSock_refl s, hl⟩
    obtain ⟨hturned, hsound'⟩ := sound_cancelled hturned hsound
      (.done hrequest hstatus hpacket hclosed)
    exact .inl ⟨_, _, rfl, hturned, rfl, hsound'⟩

/-! ### The members of the groups -/

/-- Freeing a socket takes one member from its poll group, which had it. -/
theorem members_free {queue : List PollGroup} (hs : p.socks a = some s)
    (hg : Groups p.members queue) : ∃ n : ℕ, p.members s.poll_group = n + 1 ∧
      (p.sock_free a).members = Function.update p.members s.poll_group n := by
  have hset : ∀ handle, {b | ∃ s, (p.sock_free a).socks b = some s ∧ s.poll_group = handle} =
      {b | ∃ s, p.socks b = some s ∧ s.poll_group = handle} \ {a} := by
    intro handle
    ext b
    unfold Port.sock_free
    by_cases hb : b = a
    · rw [hb]
      simp
    · simp [hb]
  have hmem : a ∈ {b | ∃ s', p.socks b = some s' ∧ s'.poll_group = s.poll_group} := ⟨s, hs, rfl⟩
  have hcard := Set.encard_sdiff_singleton_add_one hmem
  have hne : p.members s.poll_group ≠ 0 := Set.encard_ne_zero.2 ⟨a, hmem⟩
  obtain ⟨l₁, g, l₂, -, -, hsize⟩ := hg.exists_size hne
  have hfinite : (p.sock_free a).members s.poll_group ≠ ⊤ := by
    intro htop
    unfold Port.members at htop hsize
    rw [hset] at htop
    rw [htop, hsize] at hcard
    exact absurd hcard (by simp)
  obtain ⟨n, hn⟩ := ENat.ne_top_iff_exists.1 hfinite
  refine ⟨n, ?_, ?_⟩
  · rw [hn]
    unfold Port.members
    rw [hset, hcard]
  · funext handle
    by_cases hh : handle = s.poll_group
    · rw [hh, Function.update_self, hn]
    · rw [Function.update_of_ne hh]
      unfold Port.members
      rw [hset, Set.sdiff_singleton_eq_self]
      rintro ⟨s', hs', hgroup⟩
      rw [hs] at hs'
      obtain rfl := Option.some.inj hs'
      exact hh hgroup.symm

/-- A new socket is one member more of its poll group. -/
theorem members_alloc (hs : p.socks a = none) (s : Sock) :
    (p.setSock a s).members =
      Function.update p.members s.poll_group (p.members s.poll_group + 1) := by
  have hnot : ∀ handle, a ∉ {b | ∃ s, p.socks b = some s ∧ s.poll_group = handle} := by
    rintro handle ⟨s', hs', -⟩
    rw [hs] at hs'
    cases hs'
  funext handle
  by_cases hh : handle = s.poll_group
  · have hset : {b | ∃ s', (p.setSock a s).socks b = some s' ∧ s'.poll_group = handle} =
        insert a {b | ∃ s', p.socks b = some s' ∧ s'.poll_group = handle} := by
      ext b
      unfold Port.setSock
      by_cases hb : b = a
      · simp [hb, hh]
      · simp [hb]
    unfold Port.members
    rw [hset, Set.encard_insert_of_notMem (hnot handle), hh, Function.update_self]
  · have hset : {b | ∃ s', (p.setSock a s).socks b = some s' ∧ s'.poll_group = handle} =
        {b | ∃ s', p.socks b = some s' ∧ s'.poll_group = handle} := by
      ext b
      unfold Port.setSock
      by_cases hb : b = a
      · simp [hb, Ne.symm hh, hs]
      · simp [hb]
    rw [Function.update_of_ne hh]
    unfold Port.members
    rw [hset]

/-! ### `sock_delete` -/

/-- A socket that has been taken out of the tree and of the update queue. -/
structure Unregistered (C hand : Set ℕ) (a : ℕ) (p p' : Port) (s' : Sock) : Prop extends
    Only a p p' where
  sock : p'.socks a = some s'
  lists : Lists p' hand
  groups : Groups p'.members p'.poll_group_queue
  update_eq : p'.sock_update_queue = p.sock_update_queue.erase a
  delete_pending : s'.delete_pending = true
  keys : ∀ k, p'.sock_tree k ≠ some a
  idle : s'.poll_status = .SOCK_POLL_IDLE → p'.requests a = none ∧ ¬ (a ∈ p'.iocp ∨ a ∈ hand)
  busy : s'.poll_status ≠ .SOCK_POLL_IDLE → Busy C (p'.view hand a) s'
  pending : s'.poll_status ≠ .SOCK_POLL_PENDING → s'.pending_events = 0

/-- A socket that was to be deleted already is out of the tree and of the queue
of updates, so `sock_unregister` has nothing to do. -/
theorem unregistered_of_retired (h : OkBut C p hand a) (hs : p.socks a = some s)
    (hsound : Sound C (p.view hand a) s) (hdel : s.delete_pending = true) :
    Unregistered C hand a p p s where
  toOnly := .refl a p
  sock := hs
  lists := h.lists
  groups := h.groups
  update_eq := by
    rw [List.erase_of_not_mem]
    intro hmem
    rw [hsound.updating hmem] at hdel
    cases hdel
  delete_pending := hdel
  keys k hk := by
    have hkeys := hsound.keys
    rw [if_pos hdel] at hkeys
    exact Set.notMem_empty k (hkeys ▸ (hk : k ∈ (p.view hand a).keys))
  idle := hsound.idle
  busy := hsound.busy
  pending := hsound.pending

/-- **`sock_unregister`** takes it out. -/
theorem sock_unregister_spec (hans : ans.Honest C) (h : OkBut C p hand a) (hs : p.socks a = some s)
    (hsound : Sound C (p.view hand a) s) (hdel : s.delete_pending = false) :
    ∃ p' s', sock_unregister ans p a s = some p' ∧ Unregistered C hand a p p' s' := by
  have hcancelled : ∃ p₁ s₁, (if s.poll_status = .SOCK_POLL_PENDING then
      (sock_cancel_poll (ans.cancel a s.base_socket) p a).map Prod.snd else some p) = some p₁ ∧
      Turned hand a p p₁ s s₁ ∧ Sound C (p₁.view hand a) s₁ := by
    split_ifs with hpend
    · rcases sock_cancel_poll_spec h.lists hs hsound hpend (ans.cancel a s.base_socket)
        (hans.cancelled a s.base_socket) with
        ⟨p₁, s₁, hcall, hturned, -, hsound₁⟩ | ⟨-, hcall⟩
      · exact ⟨p₁, s₁, by rw [hcall]; rfl, hturned, hsound₁⟩
      · exact ⟨p, s, by rw [hcall]; rfl, ⟨.refl a p, hs, sameSock_refl s, h.lists⟩, hsound⟩
    · exact ⟨p, s, rfl, ⟨.refl a p, hs, sameSock_refl s, h.lists⟩, hsound⟩
  obtain ⟨p₁, s₁, hcall, hturned, hsound₁⟩ := hcancelled
  have hdel₁ : s₁.delete_pending = false := hturned.same.delete_pending.trans hdel
  have hret : a ∉ p₁.sock_deleted_queue := by
    intro hmem
    have htrue := hsound₁.retired.1 hmem
    rw [hdel₁] at htrue
    cases htrue
  have hkeys : ∀ k, p₁.sock_tree k = some a ↔ k = s.socket := by
    intro k
    have hset := hsound₁.keys
    rw [hdel₁, if_neg Bool.false_ne_true, hturned.same.socket] at hset
    exact Set.ext_iff.1 hset k
  have honly : Only a p₁ (((p₁.port_cancel_socket_update a).port_unregister_socket
      s.socket).modify a Sock.retired) := by
    refine ((only_cancel_update p₁ a).trans (only_unregister ?_)).trans (only_modify _ a _)
    intro b hb
    rw [cancel_update_eq hret] at hb
    exact Option.some.inj (hb.symm.trans ((hkeys s.socket).2 rfl))
  refine ⟨_, s₁.retired, ?_, ⟨hturned.toOnly.trans honly, ?_, ?_, ?_, ?_, rfl, ?_, ?_, ?_, ?_⟩⟩
  · unfold sock_unregister
    dsimp only
    rw [hcall]
    rfl
  · refine modify_socks ?_ _
    rw [cancel_update_eq hret]
    exact hturned.sock
  · rw [cancel_update_eq hret]
    exact ⟨hturned.lists.update.erase a, hturned.lists.deleted, hturned.lists.iocp,
      hturned.lists.apart⟩
  · have hmembers := hturned.groups hs h.groups
    rw [honly.members]
    · rw [cancel_update_eq hret]
      exact hmembers
    · rw [cancel_update_eq hret]
      refine (congrArg (Option.map Sock.poll_group) (modify_socks (p := _) hturned.sock
        Sock.retired)).trans ?_
      rw [hturned.sock]
      rfl
  · rw [cancel_update_eq hret]
    exact congrArg (List.erase · a) hturned.update_eq
  · intro k hk
    rw [cancel_update_eq hret] at hk
    change Function.update p₁.sock_tree s.socket none k = some a at hk
    rw [Function.update_apply] at hk
    split_ifs at hk with hks
    exact hks ((hkeys k).1 hk)
  · intro hidle
    rw [cancel_update_eq hret]
    exact hsound₁.idle hidle
  · intro hne
    rw [cancel_update_eq hret]
    cases hsound₁.busy hne with
    | asked r hrequest hstatus hpacket hhandle hpending hcancelled =>
      exact .asked r hrequest hstatus hpacket hhandle hpending hcancelled
    | done hrequest hstatus hpacket hclosed => exact .done hrequest hstatus hpacket hclosed
  · exact hsound₁.pending

/-- A socket that has been deleted: its memory is free, or waits for a packet. -/
structure Deleted (a : ℕ) (p p' : Port) : Prop extends Only a p p' where
  update_eq : p'.sock_update_queue = p.sock_update_queue.erase a
  gone : ∀ s', p'.socks a = some s' → s'.delete_pending = true

/-- A socket that has been unregistered does not wait for an update. -/
theorem Unregistered.not_updating (h : Unregistered C hand a p p' s') (hl : Lists p hand) :
    a ∉ p'.sock_update_queue := by
  rw [h.update_eq]
  exact hl.update.not_mem_erase

/-- A socket that has been unregistered has no key in the tree. -/
theorem Unregistered.keys_eq (h : Unregistered C hand a p p' s') :
    {k | p'.sock_tree k = some a} = ∅ :=
  Set.eq_empty_of_forall_notMem h.keys

/-- An idle socket is freed. -/
theorem Unregistered.free (h : Unregistered C hand a p p' s') (hb : OkBut C p hand a)
    (hidle : s'.poll_status = .SOCK_POLL_IDLE) :
    ∃ p'', (poll_group_release (p'.port_remove_deleted_socket a) s'.poll_group).map
        (·.sock_free a) = some p'' ∧ Ok C p'' hand ∧ Deleted a p p'' := by
  have hnot := h.not_updating hb.lists
  obtain ⟨n, hn, hfree⟩ := members_free h.sock h.groups
  rw [remove_deleted_eq hnot]
  obtain ⟨queue, hrelease, hgroups⟩ := Groups.release
    (p := { p' with sock_deleted_queue := p'.sock_deleted_queue.erase a }) h.groups hn
  rw [hrelease, Option.map_some]
  have honly : Only a p' (Port.sock_free { p' with
      sock_deleted_queue := p'.sock_deleted_queue.erase a
      poll_group_queue := queue } a) :=
    { Only.refl a p' with
      socks := fun _ hb => Function.update_of_ne hb _ _
      deleted := fun _ hb => List.mem_erase_of_ne hb }
  have hnone : (Port.sock_free { p' with
      sock_deleted_queue := p'.sock_deleted_queue.erase a
      poll_group_queue := queue } a).socks a = none := by
    change Function.update p'.socks a none a = none
    exact Function.update_self ..
  refine ⟨_, rfl, OkBut.ok (hb.of_only (h.toOnly.trans honly) ?_ ?_) ?_, h.toOnly.trans honly,
    h.update_eq, fun s₁ hs₁ => ?_⟩
  · exact ⟨h.lists.update, h.lists.deleted.erase a, h.lists.iocp, h.lists.apart⟩
  · exact hfree ▸ hgroups
  · obtain ⟨hrequest, hpacket⟩ := h.idle hidle
    unfold View.Ok Port.view
    rw [hnone]
    exact ⟨hrequest, hpacket, hnot, h.lists.deleted.not_mem_erase, h.keys_eq⟩
  · rw [hnone] at hs₁
    cases hs₁

/-- Any other waits for its packet. -/
theorem Unregistered.keep (h : Unregistered C hand a p p' s') (hb : OkBut C p hand a)
    (hbusy : s'.poll_status ≠ .SOCK_POLL_IDLE) :
    Ok C (p'.port_add_deleted_socket a) hand ∧ Deleted a p (p'.port_add_deleted_socket a) := by
  have hnot := h.not_updating hb.lists
  have honly := h.toOnly.trans (only_add_deleted p' a)
  rw [add_deleted_eq hnot] at honly ⊢
  refine ⟨OkBut.ok (hb.of_only honly ?_ h.groups) ?_, honly, h.update_eq, fun s₁ hs₁ => ?_⟩
  · exact ⟨h.lists.update, nodup_enqueue h.lists.deleted a, h.lists.iocp, h.lists.apart⟩
  · refine View.ok_of_sock h.sock ⟨⟨?_, ?_, fun hmem => absurd hmem hnot,
      fun hidle => absurd hidle hbusy, fun hne => ?_, h.pending⟩,
      fun hidle => absurd hidle hbusy, fun _ hdel => ?_⟩
    · rw [h.delete_pending, if_pos rfl]
      exact h.keys_eq
    · exact ⟨fun _ => h.delete_pending, fun _ => mem_enqueue _ a⟩
    · cases h.busy hne with
      | asked r hrequest hstatus hpacket hhandle hpending hcancelled =>
        exact .asked r hrequest hstatus hpacket hhandle hpending hcancelled
      | done hrequest hstatus hpacket hclosed => exact .done hrequest hstatus hpacket hclosed
    · rw [h.delete_pending] at hdel
      cases hdel
  · have hs := h.sock
    dsimp only at hs₁
    rw [hs] at hs₁
    cases hs₁
    exact h.delete_pending

/-- **`sock_delete`.** -/
theorem sock_delete_spec (hans : ans.Honest C) (h : OkBut C p hand a) (hs : p.socks a = some s)
    (hsound : Sound C (p.view hand a) s) :
    ∃ p', sock_delete ans p a false = some p' ∧ Ok C p' hand ∧ Deleted a p p' := by
  have hunregister : ∃ p₁ s₁, (if s.delete_pending then some p else sock_unregister ans p a s) =
      some p₁ ∧ Unregistered C hand a p p₁ s₁ := by
    split_ifs with hdel
    · exact ⟨p, s, rfl, unregistered_of_retired h hs hsound hdel⟩
    · exact sock_unregister_spec hans h hs hsound (Bool.not_eq_true _ ▸ hdel)
  obtain ⟨p₁, s₁, hcall, hun⟩ := hunregister
  unfold sock_delete
  rw [hs]
  dsimp only
  rw [hcall]
  dsimp only
  rw [hun.sock]
  dsimp only
  by_cases hidle : s₁.poll_status = .SOCK_POLL_IDLE
  · rw [if_pos (.inr hidle)]
    exact hun.free h hidle
  · rw [if_neg (by simp [hidle])]
    exact ⟨_, rfl, hun.keep h hidle⟩

/-! ### `sock_set_event` and `sock_update` -/

/-- What the user wants of a socket and has given for it, and the handle that stands
for the socket. -/
structure Interest where
  base_socket : ℕ
  events : BitVec 32
  data : ℕ

/-- The socket at an address. -/
def Sock.entry (s : Sock) : Option (ℕ × Interest) :=
  if s.delete_pending then none else some (s.socket, ⟨s.base_socket, s.user_events, s.user_data⟩)

/-- What a user sees of the socket at an address. -/
def Port.entry (p : Port) (a : ℕ) : Option (ℕ × Interest) := (p.socks a).bind Sock.entry

/-- What a user sees of a socket that is not to be deleted. -/
theorem entry_eq (hs : p.socks a = some s) (hdel : s.delete_pending = false) :
    p.entry a = some (s.socket, ⟨s.base_socket, s.user_events, s.user_data⟩) := by
  unfold Port.entry Sock.entry
  rw [hs, Option.bind_some, hdel, if_neg Bool.false_ne_true]

/-- A deleted socket is not seen. -/
theorem Deleted.entry (h : Deleted a p p') : p'.entry a = none := by
  unfold Port.entry
  cases hs : p'.socks a with
  | none => rfl
  | some s' =>
    rw [Option.bind_some]
    unfold Sock.entry
    rw [h.gone s' hs, if_pos rfl]

/-- Errors are always wanted. -/
theorem missing_ne_zero (events : BitVec 32) :
    (events ||| EPOLLERR ||| EPOLLHUP) &&& SOCK_KNOWN_EPOLL_EVENTS &&& ~~~(0 : BitVec 32) ≠ 0 := by
  intro h
  have hbit := congrArg (BitVec.getLsbD · 3) h
  rw [BitVec.getLsbD_and, BitVec.getLsbD_and, BitVec.getLsbD_or, BitVec.getLsbD_or] at hbit
  have herr : EPOLLERR.getLsbD 3 = true := by decide
  have hknown : SOCK_KNOWN_EPOLL_EVENTS.getLsbD 3 = true := by decide
  have hall : (~~~(0 : BitVec 32)).getLsbD 3 = true := by decide
  rw [herr, hknown, hall] at hbit
  simp at hbit

/-- **`sock_set_event`**: the socket is put into the update queue when its request
does not ask for all that is wanted now. -/
theorem sock_set_event_spec (h : OkBut C p hand a) (hs : p.socks a = some s)
    (hsound : Sound C (p.view hand a) s) (hdel : s.delete_pending = false) (ev : EpollEvent) :
    ∃ p', sock_set_event p a ev = some p' ∧ Ok C p' hand ∧ Only a p p' ∧
      p'.entry a =
        some (s.socket, ⟨s.base_socket, ev.events ||| EPOLLERR ||| EPOLLHUP, ev.data⟩) := by
  have hret : a ∉ p.sock_deleted_queue := by
    intro hmem
    rw [hsound.retired.1 hmem] at hdel
    cases hdel
  have hkeys := hsound.keys
  unfold sock_set_event
  rw [hs]
  dsimp only
  generalize hs' : { s with
    user_events := ev.events ||| EPOLLERR ||| EPOLLHUP, user_data := ev.data } = s'
  have hsame : s'.socket = s.socket ∧ s'.delete_pending = false ∧ s'.poll_group = s.poll_group := by
    rw [← hs']
    exact ⟨rfl, hdel, rfl⟩
  have hsock : (p.setSock a s').socks a = some s' := by
    change Function.update p.socks a (some s') a = some s'
    exact Function.update_self ..
  have hentry : s'.entry =
      some (s.socket, ⟨s.base_socket, ev.events ||| EPOLLERR ||| EPOLLHUP, ev.data⟩) := by
    unfold Sock.entry
    rw [← hs', hdel, if_neg Bool.false_ne_true]
  have hgroups : Groups (p.setSock a s').members p.poll_group_queue := by
    rw [(only_setSock p a s').members]
    · exact h.groups
    · rw [hsock, hs, Option.map_some, Option.map_some, hsame.2.2]
  have hbusy : ∀ v : View, v.request = p.requests a → (v.packet ↔ a ∈ p.iocp ∨ a ∈ hand) →
      s'.poll_status ≠ .SOCK_POLL_IDLE → Busy C v s' := by
    intro v hv hpacket' hne
    rw [← hs'] at hne ⊢
    cases hsound.busy hne with
    | asked r hrequest hstatus hpacket hhandle hpending hcancelled =>
      exact .asked r (hv.trans hrequest) hstatus (fun hp => hpacket (hpacket'.1 hp)) hhandle
        hpending hcancelled
    | done hrequest hstatus hpacket hclosed =>
      exact .done (hv.trans hrequest) hstatus (hpacket'.2 hpacket) hclosed
  have hsound' : ∀ v : View, v.request = p.requests a → (v.packet ↔ a ∈ p.iocp ∨ a ∈ hand) →
      v.keys = {k | p.sock_tree k = some a} → (v.retired ↔ a ∈ p.sock_deleted_queue) →
      Sound C v s' := by
    intro v hrequest hpacket hvkeys hvret
    refine ⟨?_, ?_, fun _ => hsame.2.1, fun hidle => ?_, hbusy v hrequest hpacket, fun hne => ?_⟩
    · rw [hvkeys, hsame.2.1, hsame.1]
      rw [hdel] at hkeys
      exact hkeys
    · rw [hvret, hsame.2.1]
      exact ⟨fun hmem => absurd hmem hret, nofun⟩
    · rw [hrequest, hpacket]
      exact hsound.idle (by rw [← hs'] at hidle; exact hidle)
    · rw [← hs'] at hne ⊢
      exact hsound.pending hne
  split_ifs with hmissing
  · have honly := (only_setSock p a s').trans (only_request_update (p.setSock a s') a)
    rw [request_update_eq (p := p.setSock a s') hret] at honly ⊢
    refine ⟨_, rfl, OkBut.ok (h.of_only honly ?_ hgroups) ?_, honly, ?_⟩
    · exact ⟨nodup_enqueue h.lists.update a, h.lists.deleted, h.lists.iocp, h.lists.apart⟩
    · exact View.ok_of_sock hsock ⟨hsound' _ rfl .rfl rfl .rfl,
        fun _ => ⟨hsame.2.1, mem_enqueue _ a⟩, fun _ _ hnot => absurd (mem_enqueue _ a) hnot⟩
    · unfold Port.entry
      dsimp only
      rw [hsock]
      exact hentry
  · have honly := only_setSock p a s'
    have hzero : s'.missing = 0 := by
      unfold Sock.missing
      rw [← hs']
      exact not_not.1 hmissing
    refine ⟨_, rfl, OkBut.ok (h.of_only honly ?_ hgroups) ?_, honly, ?_⟩
    · exact ⟨h.lists.update, h.lists.deleted, h.lists.iocp, h.lists.apart⟩
    · refine View.ok_of_sock hsock ⟨hsound' _ rfl .rfl rfl .rfl, fun hidle => ?_,
        fun _ _ _ => hzero⟩
      -- an idle socket has nothing asked for it, so something is missing
      have hpend : s.pending_events = 0 := hsound.pending (by
        rw [← hs'] at hidle
        rw [show s.poll_status = .SOCK_POLL_IDLE from hidle]
        exact nofun)
      rw [hpend] at hmissing
      exact absurd (missing_ne_zero ev.events) hmissing
    · unfold Port.entry
      rw [hsock]
      exact hentry

/-- What `sock_update` does to the port; `ok` is whether it returns 0. -/
structure Updated (C : Set ℕ) (ans : Answers) (hand : Set ℕ) (a : ℕ) (p : Port) (ok : Bool)
    (p' : Port) : Prop extends Only a p p' where
  invariant : Ok C p' hand
  dequeued : ok = true → p'.sock_update_queue = p.sock_update_queue.erase a
  failed : ok = false → ∃ h, ans.poll a h = .failed ∨ ans.cancel a h = .failed
  entry : p'.entry a = p.entry a ∨
    p'.entry a = none ∧ ∀ k i, p.entry a = some (k, i) → i.base_socket ∈ C

/-- A socket that is busy, and that has nothing missing, leaves the queue. -/
theorem updated_of_turned (h : Ok C p hand) (hs : p.socks a = some s)
    (hdel : s.delete_pending = false)
    (hturned : Turned hand a p p' s s') (hsound : Sound C (p'.view hand a) s')
    (hbusy : s'.poll_status ≠ .SOCK_POLL_IDLE)
    (hcovered : s'.poll_status = .SOCK_POLL_PENDING → s'.missing = 0) :
    Updated C ans hand a p true (p'.port_cancel_socket_update a) := by
  have hdel' : s'.delete_pending = false := hturned.same.delete_pending.trans hdel
  have hret : a ∉ p'.sock_deleted_queue := by
    intro hmem
    rw [hsound.retired.1 hmem] at hdel'
    cases hdel'
  have honly := hturned.toOnly.trans (only_cancel_update p' a)
  have hkeys := hsound.keys
  have hretired := hsound.retired
  rw [cancel_update_eq hret] at honly ⊢
  refine ⟨honly, OkBut.ok ((h.but a).of_only honly ?_ (hturned.groups hs h.groups)) ?_,
    fun _ => congrArg (List.erase · a) hturned.update_eq, nofun, .inl ?_⟩
  · exact ⟨hturned.lists.update.erase a, hturned.lists.deleted, hturned.lists.iocp,
      hturned.lists.apart⟩
  · refine View.ok_of_sock hturned.sock ⟨⟨hkeys, hretired, fun _ => hdel', hsound.idle,
      fun hne => ?_, hsound.pending⟩, fun hidle => absurd hidle hbusy,
      fun hpend _ _ => hcovered hpend⟩
    cases hsound.busy hne with
    | asked r hrequest hstatus hpacket hhandle hpending hcancelled =>
      exact .asked r hrequest hstatus hpacket hhandle hpending hcancelled
    | done hrequest hstatus hpacket hclosed => exact .done hrequest hstatus hpacket hclosed
  · have hsame := hturned.same
    rw [entry_eq hs hdel]
    refine (entry_eq (s := s') ?_ hdel').trans ?_
    · exact hturned.sock
    · rw [hsame.socket, hsame.base_socket, hsame.user_events, hsame.user_data]

/-- What is read at the address of a new record. -/
theorem setSock_socks (p : Port) (a : ℕ) (s : Sock) : (p.setSock a s).socks a = some s := by
  change Function.update p.socks a (some s) a = some s
  exact Function.update_self ..

/-- The fields of a request are written before it is made; nothing else of the
port changes. -/
theorem turned_asking (hl : Lists p hand) (s : Sock) :
    Turned hand a p (p.setSock a s.asking) s s.asking :=
  ⟨inner_setSock p a _, setSock_socks p a _, ⟨rfl, rfl, rfl, rfl, rfl, rfl⟩,
    hl.inner (inner_setSock p a _) rfl⟩

/-- An idle socket of which the request has been taken. -/
theorem updated_of_submitted (h : Ok C p hand) (hs : p.socks a = some s)
    (hdel : s.delete_pending = false) (hturned : Turned hand a p p' s s')
    (hbusy : Busy C (p'.view hand a) s'.submitted) :
    Updated C ans hand a p true ((p'.modify a Sock.submitted).port_cancel_socket_update a) := by
  have hsame := hturned.same
  have hsubmitted : Turned hand a p (p'.modify a Sock.submitted) s s'.submitted :=
    ⟨hturned.toInner.trans (inner_modify p' a _), modify_socks hturned.sock _,
      ⟨hsame.socket, hsame.poll_group, hsame.base_socket, hsame.user_data, hsame.user_events,
        hsame.delete_pending⟩, hturned.lists.inner (inner_modify p' a _) rfl⟩
  refine updated_of_turned h hs hdel hsubmitted
    (hsubmitted.sound (h.sock hs).toSound nofun (fun _ => ?_) fun hne => absurd rfl hne) nofun
    fun _ => ?_
  · cases hbusy with
    | asked r hrequest hstatus hpacket hhandle hpending hcancelled =>
      exact .asked r hrequest hstatus hpacket hhandle hpending hcancelled
    | done hrequest hstatus hpacket hclosed => exact .done hrequest hstatus hpacket hclosed
  · change s'.user_events &&& SOCK_KNOWN_EPOLL_EVENTS &&& ~~~s'.user_events = 0
    rw [BitVec.and_comm s'.user_events, BitVec.and_assoc, BitVec.and_not_self]
    exact BitVec.and_zero

/-- **`sock_update`.** -/
theorem sock_update_spec (hans : ans.Honest C) (h : Ok C p hand) (hup : a ∈ p.sock_update_queue) :
    ∃ ok p', sock_update ans p a = some (ok, p') ∧ Updated C ans hand a p ok p' := by
  cases hs : p.socks a with
  | none => exact absurd hup (h.unused hs).updating
  | some s =>
    have hok := h.sock hs
    have hsound := hok.toSound
    have hdel : s.delete_pending = false := hsound.updating hup
    have hself : Turned hand a p p s s := ⟨.refl a p, hs, sameSock_refl s, h.lists⟩
    unfold sock_update
    rw [hs]
    dsimp only
    rw [hdel, if_neg Bool.false_ne_true]
    cases hstatus : s.poll_status with
    | SOCK_POLL_PENDING =>
      dsimp only
      have hne : s.poll_status ≠ .SOCK_POLL_IDLE := by
        rw [hstatus]
        exact nofun
      split_ifs with hmissing
      · exact ⟨_, _, rfl, updated_of_turned h hs hdel hself hsound hne fun _ => hmissing⟩
      · rcases sock_cancel_poll_spec h.lists hs hsound hstatus (ans.cancel a s.base_socket)
          (hans.cancelled a s.base_socket) with
          ⟨p₁, s₁, hcall, hturned, hcancelled, hsound₁⟩ | ⟨hfailed, hcall⟩
        · rw [hcall]
          exact ⟨_, _, rfl, updated_of_turned h hs hdel hturned hsound₁
            (by rw [hcancelled]; exact nofun) (by rw [hcancelled]; exact nofun)⟩
        · rw [hcall]
          exact ⟨_, _, rfl, .refl a p, h, nofun, fun _ => ⟨_, .inr hfailed⟩, .inl rfl⟩
    | SOCK_POLL_CANCELLED =>
      exact ⟨_, _, rfl, updated_of_turned h hs hdel hself hsound (by rw [hstatus]; exact nofun)
        (by rw [hstatus]; exact nofun)⟩
    | SOCK_POLL_IDLE =>
      obtain ⟨hrequest, hpacket⟩ := hsound.idle hstatus
      have hturned : Turned hand a p (p.setSock a s.asking) s s.asking := turned_asking h.lists s
      have hpend : s.asking.pending_events = 0 := hsound.pending (by rw [hstatus]; exact nofun)
      have hsound₁ : Sound C ((p.setSock a s.asking).view hand a) s.asking :=
        hturned.sound hsound (fun _ => ⟨hrequest, hpacket⟩) (fun hne => absurd hstatus hne)
          fun _ => hpend
      have hok₁ : Ok C (p.setSock a s.asking) hand := by
        refine OkBut.ok ((h.but a).of_only hturned.toOnly hturned.lists
          (hturned.groups hs h.groups)) (View.ok_of_sock hturned.sock ?_)
        exact ⟨hsound₁, fun _ => ⟨hdel, hup⟩, fun hpend _ _ =>
          absurd (hstatus.symm.trans hpend) nofun⟩
      have hentry : (p.setSock a s.asking).entry a = p.entry a :=
        (entry_eq hturned.sock hdel).trans (entry_eq hs hdel).symm
      dsimp only
      unfold afd_poll
      dsimp only
      cases hpoll : ans.poll a s.base_socket with
      | pending =>
        have hasked : Turned hand a p ((p.setSock a s.asking).setRequest a
            ⟨s.base_socket, s.asking.Events, false⟩) s s.asking :=
          ⟨hturned.toInner.trans (inner_setRequest _ a _), hturned.sock, hturned.same,
            hturned.lists.inner (inner_setRequest _ a _) rfl⟩
        refine ⟨_, _, rfl, updated_of_submitted h hs hdel hasked
          (.asked ⟨s.base_socket, s.asking.Events, false⟩ ?_ rfl hpacket rfl (fun _ => rfl) nofun)⟩
        change Function.update p.requests a _ a = _
        exact Function.update_self ..
      | completed c =>
        have hasked : Turned hand a p ((p.setSock a s.asking).setRequest a
            ⟨s.base_socket, s.asking.Events, false⟩) s s.asking :=
          ⟨hturned.toInner.trans (inner_setRequest _ a _), hturned.sock, hturned.same,
            hturned.lists.inner (inner_setRequest _ a _) rfl⟩
        have hended : Turned hand a p (((p.setSock a s.asking).setRequest a
            ⟨s.base_socket, s.asking.Events, false⟩).complete a c) s (s.asking.completed c) :=
          ⟨hasked.toInner.trans (inner_complete _ a c), complete_socks hasked.sock c,
            ⟨rfl, rfl, rfl, rfl, rfl, rfl⟩, hasked.lists.complete hpacket c⟩
        refine ⟨_, _, rfl, updated_of_submitted h hs hdel hended (.done ?_ nofun
          (.inl (List.mem_append_right _ (List.mem_singleton_self a))) fun hnone =>
            hans.polled a s.base_socket c hpoll (closes_of_reported (s := s.asking) hnone))⟩
        change Function.update (Function.update p.requests a _) a none a = none
        exact Function.update_self ..
      | invalidHandle =>
        obtain ⟨p₂, hcall, hok₂, hdeleted⟩ := sock_delete_spec hans (hok₁.but a)
          hturned.sock hsound₁
        dsimp only
        refine ⟨true, p₂, ?_, hturned.toOnly.trans hdeleted.toOnly, hok₂,
          fun _ => hdeleted.update_eq, nofun, .inr ⟨hdeleted.entry, fun k i hi => ?_⟩⟩
        · exact congrArg (Option.map (true, ·)) hcall
        · rw [entry_eq hs hdel] at hi
          cases hi
          exact hans.invalid a s.base_socket hpoll
      | failed =>
        exact ⟨_, _, rfl, hturned.toOnly, hok₁, nofun, fun _ => ⟨_, .inl hpoll⟩, .inl hentry⟩

/-! ### `sock_feed_event` -/

/-- What `sock_feed_event` does to the port, and what it reports. -/
structure Fed (C hand : Set ℕ) (a : ℕ) (p : Port) (ev : Option EpollEvent) (p' : Port) :
    Prop extends Only a p p' where
  invariant : Ok C p' hand
  silent : ev = none → p'.entry a = p.entry a ∨
    p'.entry a = none ∧ ∀ k i, p.entry a = some (k, i) → i.base_socket ∈ C
  report : ∀ e, ev = some e → ∃ k i, p.entry a = some (k, i) ∧ e.data = i.data ∧ e.events ≠ 0 ∧
    e.events &&& i.events = e.events ∧
      p'.entry a = some (k, { i with events := afterReport i.events })

/-- A registered socket that is idle comes into the update queue, whatever is
wanted. -/
theorem ok_request_update (events : BitVec 32) (h : OkBut C p hand a) (hs : p.socks a = some s)
    (hsound : Sound C (p.view hand a) s) (hdel : s.delete_pending = false)
    (hidle : s.poll_status = .SOCK_POLL_IDLE) :
    let p' := (p.port_request_socket_update a).setSock a { s with user_events := events }
    Ok C p' hand ∧ Only a p p' ∧
      p'.entry a = some (s.socket, ⟨s.base_socket, events, s.user_data⟩) := by
  have hret : a ∉ p.sock_deleted_queue := by
    intro hmem
    rw [hsound.retired.1 hmem] at hdel
    cases hdel
  have honly := (only_request_update p a).trans (only_setSock _ a { s with user_events := events })
  have hsock := setSock_socks (p.port_request_socket_update a) a { s with user_events := events }
  have hgroups : Groups ((p.port_request_socket_update a).setSock a
      { s with user_events := events }).members p.poll_group_queue := by
    rw [honly.members]
    · exact h.groups
    · rw [hsock, hs]
      rfl
  rw [request_update_eq hret] at honly hsock hgroups ⊢
  refine ⟨OkBut.ok (h.of_only honly ?_ hgroups) ?_, honly, entry_eq hsock hdel⟩
  · exact ⟨nodup_enqueue h.lists.update a, h.lists.deleted, h.lists.iocp, h.lists.apart⟩
  · obtain ⟨hrequest, hpacket⟩ := hsound.idle hidle
    refine View.ok_of_sock hsock ⟨⟨hsound.keys, hsound.retired, fun _ => hdel,
      fun _ => ⟨hrequest, hpacket⟩, fun hne => absurd hidle hne, hsound.pending⟩,
      fun _ => ⟨hdel, mem_enqueue _ a⟩,
      fun _ _ hnot => absurd (mem_enqueue _ a) hnot⟩

/-- **`sock_feed_event`** with a packet that was in the hand of the thread. -/
theorem sock_feed_event_spec (hans : ans.Honest C) (h : Ok C p (insert a hand)) (hnot : a ∉ hand) :
    ∃ ev p', sock_feed_event ans p a = some (ev, p') ∧ Fed C hand a p ev p' := by
  have hpacket : (p.view (insert a hand) a).packet := .inr (Set.mem_insert a hand)
  cases hs : p.socks a with
  | none => exact absurd hpacket (h.unused hs).packet
  | some s =>
    have hsound := (h.sock hs).toSound
    have hbusy : s.poll_status ≠ .SOCK_POLL_IDLE := fun hidle => (hsound.idle hidle).2 hpacket
    have hdone : p.requests a = none ∧ (s.reported = none → s.base_socket ∈ C) := by
      cases hsound.busy hbusy with
      | asked r hr hstatus hnopacket => exact absurd hpacket hnopacket
      | done hr _ _ hclosed => exact ⟨hr, hclosed⟩
    have hiocp : ¬ (a ∈ p.iocp ∨ a ∈ hand) := by
      rintro (hmem | hmem)
      · exact h.lists.apart a hmem (Set.mem_insert a hand)
      · exact hnot hmem
    have hsock := setSock_socks p a s.ended
    have hsound₁ : Sound C ((p.setSock a s.ended).view hand a) s.ended :=
      ⟨hsound.keys, hsound.retired, hsound.updating, fun _ => ⟨hdone.1, hiocp⟩,
        fun hne => absurd rfl hne, fun _ => rfl⟩
    have hbut : OkBut C (p.setSock a s.ended) hand a := by
      refine ⟨fun b hb => ?_, ⟨h.lists.update, h.lists.deleted, h.lists.iocp, fun b hb hmem =>
        h.lists.apart b hb (Set.mem_insert_of_mem a hmem)⟩, ?_⟩
      · rw [(only_setSock p a s.ended).view hb (Set.mem_insert_iff.trans (or_iff_right hb)).symm]
        exact h.views b
      · rw [(only_setSock p a s.ended).members]
        · exact h.groups
        · rw [hsock, hs]
          rfl
    have hdelete : (s.delete_pending = false → s.base_socket ∈ C) →
        ∃ p', sock_delete ans (p.setSock a s.ended) a false = some p' ∧ Fed C hand a p none p' := by
      intro hclosed
      obtain ⟨p', hcall, hok, hdeleted⟩ := sock_delete_spec hans hbut hsock hsound₁
      refine ⟨p', hcall, (only_setSock p a _).trans hdeleted.toOnly, hok, fun _ =>
        .inr ⟨hdeleted.entry, fun k i hi => ?_⟩, nofun⟩
      unfold Port.entry Sock.entry at hi
      rw [hs, Option.bind_some] at hi
      split_ifs at hi with hdel
      cases hi
      exact hclosed (Bool.not_eq_true _ ▸ hdel)
    unfold sock_feed_event
    rw [hs]
    dsimp only
    by_cases hdel : s.delete_pending = true
    · obtain ⟨p', hcall, hfed⟩ := hdelete fun hfalse => absurd (hdel.symm.trans hfalse) nofun
      rw [if_pos hdel, hcall]
      exact ⟨_, _, rfl, hfed⟩
    · have hregistered : s.delete_pending = false := Bool.not_eq_true _ ▸ hdel
      rw [if_neg hdel]
      cases hreported : s.reported with
      | none =>
        obtain ⟨p', hcall, hfed⟩ := hdelete fun _ => hdone.2 hreported
        dsimp only
        rw [hcall]
        exact ⟨_, _, rfl, hfed⟩
      | some events =>
        have hentry := entry_eq hs hregistered
        dsimp only
        by_cases hzero : events &&& s.user_events = 0
        · rw [if_pos hzero]
          obtain ⟨hok, honly, hentry'⟩ := ok_request_update s.user_events hbut hsock
            hsound₁ hregistered rfl
          have hsame : (((p.setSock a s.ended).port_request_socket_update a).setSock a
              { s.ended with user_events := s.user_events }) =
              (p.setSock a s.ended).port_request_socket_update a := by
            have hret := (request_update_eq (p := p.setSock a s.ended) (a := a) fun hmem =>
              hdel (hsound.retired.1 hmem))
            rw [hret]
            unfold Port.setSock
            dsimp only
            rw [Function.update_idem]
            rfl
          rw [hsame] at hok honly hentry'
          exact ⟨_, _, rfl, (only_setSock p a _).trans honly, hok, fun _ =>
            .inl (hentry'.trans hentry.symm), nofun⟩
        · rw [if_neg hzero]
          obtain ⟨hok, honly, hentry'⟩ := ok_request_update (afterReport s.user_events) hbut
            hsock hsound₁ hregistered rfl
          refine ⟨_, _, rfl, (only_setSock p a _).trans honly, hok, nofun, ?_⟩
          rintro e he
          cases he
          refine ⟨_, _, hentry, rfl, hzero, ?_, hentry'⟩
          rw [BitVec.and_assoc, BitVec.and_self]

/-! ### `sock_new` -/

/-- A socket that has been registered and not been set yet. -/
structure Registered (C hand : Set ℕ) (a socket : ℕ) (p p' : Port) : Prop extends
    Only a p p' where
  but : OkBut C p' hand a
  free : p.socks a = none
  fresh : p.sock_tree socket = none
  sock : ∃ s, p'.socks a = some s ∧ Sound C (p'.view hand a) s ∧ s.delete_pending = false ∧
    s.socket = socket

/-- **`sock_new`**: either nothing but the groups has changed, or there is a new
socket. -/
theorem sock_new_spec {new : New} (socket : ℕ) (h : Ok C p hand)
    (haddress : ∀ a, new.address = some a → p.socks a = none)
    (hdevice : ∀ d, new.device = some d → ∀ g ∈ p.poll_group_queue, g.afd_device_handle ≠ d) :
    (∃ queue, sock_new new p socket = some (none, { p with poll_group_queue := queue }) ∧
      Ok C { p with poll_group_queue := queue } hand) ∨
    ∃ a p', sock_new new p socket = some (some a, p') ∧ Registered C hand a socket p p' := by
  have hsame : Ok C { p with poll_group_queue := p.poll_group_queue } hand := h
  unfold sock_new
  split_ifs with hbad
  · exact .inl ⟨_, rfl, hsame⟩
  · cases new.base_socket with
    | none => exact .inl ⟨_, rfl, hsame⟩
    | some base_socket =>
      dsimp only
      cases hacq : poll_group_acquire new.device p with
      | none => exact .inl ⟨_, rfl, hsame⟩
      | some r =>
        obtain ⟨handle, p₁⟩ := r
        obtain ⟨queue, rfl, hgroups, -⟩ := h.groups.acquire hdevice hacq
        -- the group is given back where the socket cannot be made
        have hback : ∃ queue', poll_group_release { p with poll_group_queue := queue } handle =
            some { p with poll_group_queue := queue' } ∧ Groups p.members queue' := by
          have hself := Function.update_self (β := fun _ => ℕ∞) handle (p.members handle + 1)
            p.members
          have hne : Function.update p.members handle (p.members handle + 1) handle ≠ 0 := by
            rw [hself]
            simp
          obtain ⟨l₁, g, l₂, -, -, hsize⟩ := hgroups.exists_size hne
          rw [hself] at hsize
          have hfinite : p.members handle ≠ ⊤ := by
            intro htop
            rw [htop] at hsize
            exact absurd hsize (by simp)
          obtain ⟨n, hn⟩ := ENat.ne_top_iff_exists.1 hfinite
          obtain ⟨queue', hrelease, hgroups'⟩ := Groups.release
            (p := { p with poll_group_queue := queue }) hgroups (n := n) (by rw [hself, hn])
          refine ⟨queue', hrelease, ?_⟩
          rwa [Function.update_idem, hn, Function.update_eq_self] at hgroups'
        obtain ⟨queue', hrelease, hgroups'⟩ := hback
        have hok' : Ok C { p with poll_group_queue := queue' } hand :=
          ⟨h.views, h.lists.groups queue', hgroups'⟩
        dsimp only
        cases ha : new.address with
        | none =>
          dsimp only
          rw [hrelease]
          exact .inl ⟨_, rfl, hok'⟩
        | some a =>
          dsimp only
          split_ifs with hexists
          · rw [hrelease]
            exact .inl ⟨_, rfl, hok'⟩
          · have hfree := haddress a ha
            have hunused := h.unused hfree
            have hfresh : p.sock_tree socket = none := not_not.1 hexists
            have hkeys : ∀ k, p.sock_tree k ≠ some a := by
              intro k hk
              exact Set.notMem_empty k (hunused.keys ▸ (hk : k ∈ (p.view hand a).keys))
            have honly : Only a p { Port.setSock { p with poll_group_queue := queue } a
                (.new socket handle base_socket) with
                sock_tree := Function.update p.sock_tree socket (some a) } :=
              { only_setSock p a (.new socket handle base_socket) with
                tree := fun b hb k => by
                  dsimp only
                  rw [Function.update_apply]
                  split_ifs with hk
                  · rw [hk, hfresh]
                    exact ⟨fun heq => absurd (Option.some.inj heq).symm hb, nofun⟩
                  · rfl }
            have hsock := setSock_socks { p with poll_group_queue := queue } a
              (.new socket handle base_socket)
            refine .inr ⟨a, _, rfl, honly, (h.but a).of_only honly
              ⟨h.lists.update, h.lists.deleted, h.lists.iocp, h.lists.apart⟩ ?_, hfree, hfresh,
              Sock.new socket handle base_socket, hsock, ?_, rfl, rfl⟩
            · have hmembers := members_alloc (p := { p with poll_group_queue := queue }) hfree
                (.new socket handle base_socket)
              exact hmembers ▸ hgroups
            · refine ⟨?_, ?_, fun _ => rfl, fun _ => ⟨hunused.request, hunused.packet⟩,
                fun hne => absurd rfl hne, fun _ => rfl⟩
              · refine Set.ext fun k => ?_
                change Function.update p.sock_tree socket (some a) k = some a ↔
                  k ∈ ({socket} : Set ℕ)
                rw [Function.update_apply, Set.mem_singleton_iff]
                split_ifs with hk
                · exact ⟨fun _ => hk, fun _ => rfl⟩
                · exact ⟨fun heq => absurd heq (hkeys k), fun heq => absurd heq hk⟩
              · exact ⟨fun hmem => absurd hmem hunused.retired, nofun⟩

end Wepoll
end Net
end Sevent
