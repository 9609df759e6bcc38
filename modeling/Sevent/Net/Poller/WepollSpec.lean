/-
# What holds of a port

`sevent/net/poller/wepoll/wepoll.c`.

Everything that concerns a socket is at its address: the `sock_state_t`, the
request that the driver has, the packet, the queues it is in and its key in the
tree (`View`).  What has to hold there is `View.Ok`.  An idle socket is in the
update queue and nothing is out for it; of any other there is exactly one
request or one packet, and when nothing is left to update the request asks for
all that the user wants.  Every function changes the view of one address
(`Only`), so each is a case of `OkBut.of_only`.
-/

import Mathlib.Data.Set.Card
import Sevent.Lib.Run
import Sevent.Net.Poller.Wepoll

namespace Sevent
namespace Net
namespace Wepoll

variable {C : Set ℕ} {p p' p'' : Port} {hand hand' : Set ℕ} {a b : ℕ} {s : Sock}

/-! ### What holds at an address -/

/-- What there is at an address; a packet is in the completion port, or in the hand
of a thread. -/
structure View where
  sock : Option Sock
  request : Option Request
  packet : Prop
  updating : Prop
  retired : Prop
  keys : Set ℕ

/-- What there is at an address; `hand` are the packets that threads have taken
and not fed yet. -/
def Port.view (p : Port) (hand : Set ℕ) (a : ℕ) : View where
  sock := p.socks a
  request := p.requests a
  packet := a ∈ p.iocp ∨ a ∈ hand
  updating := a ∈ p.sock_update_queue
  retired := a ∈ p.sock_deleted_queue
  keys := {k | p.sock_tree k = some a}

/-- What a poll request asks for. -/
def Sock.request (s : Sock) : Request :=
  ⟨s.base_socket, sock_epoll_events_to_afd_events s.pending_events, false⟩

/-- Either the driver has the request of a socket, or it has ended and there is a
packet; `C` are the handles that are closed. -/
inductive Busy (C : Set ℕ) (v : View) (s : Sock) : Prop
  | asked (r : Request) (hrequest : v.request = some r) (hstatus : s.Status = none)
      (hpacket : ¬ v.packet) (hhandle : r.handle = s.base_socket)
      (hpending : s.poll_status = .SOCK_POLL_PENDING → r = s.request)
      (hcancelled : s.poll_status = .SOCK_POLL_CANCELLED → r.cancelled = true)
  | done (hrequest : v.request = none) (hstatus : s.Status ≠ none) (hpacket : v.packet)
      (hclosed : s.reported = none → s.base_socket ∈ C)

/-- The events that the user wants and that the request does not ask for. -/
def Sock.missing (s : Sock) : BitVec 32 :=
  s.user_events &&& SOCK_KNOWN_EPOLL_EVENTS &&& ~~~s.pending_events

/-- A socket with its queues, its key and its request. -/
structure Sound (C : Set ℕ) (v : View) (s : Sock) : Prop where
  keys : v.keys = if s.delete_pending then ∅ else {s.socket}
  retired : v.retired ↔ s.delete_pending = true
  updating : v.updating → s.delete_pending = false
  idle : s.poll_status = .SOCK_POLL_IDLE → v.request = none ∧ ¬ v.packet
  busy : s.poll_status ≠ .SOCK_POLL_IDLE → Busy C v s
  pending : s.poll_status ≠ .SOCK_POLL_PENDING → s.pending_events = 0

/-- And whatever is to be done for it is in the update queue, or is being done. -/
structure SockOk (C : Set ℕ) (v : View) (s : Sock) : Prop extends Sound C v s where
  scheduled : s.poll_status = .SOCK_POLL_IDLE → s.delete_pending = false ∧ v.updating
  covered : s.poll_status = .SOCK_POLL_PENDING → s.delete_pending = false → ¬ v.updating →
    s.missing = 0

/-- Nothing is left of memory that is free. -/
structure Unused (v : View) : Prop where
  request : v.request = none
  packet : ¬ v.packet
  updating : ¬ v.updating
  retired : ¬ v.retired
  keys : v.keys = ∅

/-- What has to hold at an address: nothing is there, or a socket with what
belongs to it. -/
def View.Ok (C : Set ℕ) (v : View) : Prop :=
  match v.sock with
  | none => Unused v
  | some s => SockOk C v s

/-- At the address of a socket, what holds of the socket is all there is to say. -/
theorem View.ok_of_sock {v : View} {s : Sock} (hs : v.sock = some s) (h : SockOk C v s) :
    v.Ok C := by
  unfold View.Ok
  rw [hs]
  exact h

/-- The queues have nothing twice, and no packet is in two places. -/
structure Lists (p : Port) (hand : Set ℕ) : Prop where
  update : p.sock_update_queue.Nodup
  deleted : p.sock_deleted_queue.Nodup
  iocp : p.iocp.Nodup
  apart : ∀ b ∈ p.iocp, b ∉ hand

/-- How many sockets a poll group has. -/
noncomputable def Port.members (p : Port) (handle : ℕ) : ℕ∞ :=
  {a | ∃ s, p.socks a = some s ∧ s.poll_group = handle}.encard

/-- The poll groups: their sizes are right, and the full ones are in front. -/
structure Groups (members : ℕ → ℕ∞) (queue : List PollGroup) : Prop where
  handles : (queue.map PollGroup.afd_device_handle).Nodup
  size : ∀ g ∈ queue, members g.afd_device_handle = g.group_size
  listed : ∀ h, members h ≠ 0 → h ∈ queue.map PollGroup.afd_device_handle
  bounded : ∀ g ∈ queue, g.group_size ≤ POLL_GROUP_MAX_GROUP_SIZE
  full_first : queue.Pairwise fun g g' => g.group_size < POLL_GROUP_MAX_GROUP_SIZE →
    g'.group_size < POLL_GROUP_MAX_GROUP_SIZE

/-- What holds of a port: what holds at each address, no queue with anything
twice, and the members of the poll groups counted right. -/
structure Ok (C : Set ℕ) (p : Port) (hand : Set ℕ) : Prop where
  views : ∀ a, (p.view hand a).Ok C
  lists : Lists p hand
  groups : Groups p.members p.poll_group_queue

/-- What holds while a function is at work on `a`. -/
structure OkBut (C : Set ℕ) (p : Port) (hand : Set ℕ) (a : ℕ) : Prop where
  views : ∀ b ≠ a, (p.view hand b).Ok C
  lists : Lists p hand
  groups : Groups p.members p.poll_group_queue

/-- The invariant everywhere is the invariant everywhere else. -/
theorem Ok.but (h : Ok C p hand) (a : ℕ) : OkBut C p hand a :=
  ⟨fun b _ => h.views b, h.lists, h.groups⟩

/-- The invariant at the address of a socket. -/
theorem Ok.sock (h : Ok C p hand) (hs : p.socks a = some s) : SockOk C (p.view hand a) s := by
  have hok := h.views a
  unfold View.Ok Port.view at hok
  rw [hs] at hok
  unfold Port.view
  rw [hs]
  exact hok

/-- The invariant at an address without a socket: nothing is out for it, and it
is in no queue. -/
theorem Ok.unused (h : Ok C p hand) (hs : p.socks a = none) : Unused (p.view hand a) := by
  have hok := h.views a
  unfold View.Ok Port.view at hok
  rw [hs] at hok
  unfold Port.view
  rw [hs]
  exact hok

/-! ### Changes at one address -/

/-- Only what concerns `a` has changed. -/
structure Only (a : ℕ) (p p' : Port) : Prop where
  socks : ∀ b ≠ a, p'.socks b = p.socks b
  requests : ∀ b ≠ a, p'.requests b = p.requests b
  iocp : ∀ b ≠ a, (b ∈ p'.iocp ↔ b ∈ p.iocp)
  update : ∀ b ≠ a, (b ∈ p'.sock_update_queue ↔ b ∈ p.sock_update_queue)
  deleted : ∀ b ≠ a, (b ∈ p'.sock_deleted_queue ↔ b ∈ p.sock_deleted_queue)
  tree : ∀ b ≠ a, ∀ k, p'.sock_tree k = some b ↔ p.sock_tree k = some b
  active : p'.active_poll_count = p.active_poll_count

/-- Nothing done changes nothing elsewhere. -/
theorem Only.refl (a : ℕ) (p : Port) : Only a p p :=
  ⟨fun _ _ => rfl, fun _ _ => rfl, fun _ _ => .rfl, fun _ _ => .rfl, fun _ _ => .rfl,
    fun _ _ _ => .rfl, rfl⟩

/-- Two functions that change only this address. -/
theorem Only.trans (h : Only a p p') (h' : Only a p' p'') : Only a p p'' where
  socks b hb := (h'.socks b hb).trans (h.socks b hb)
  requests b hb := (h'.requests b hb).trans (h.requests b hb)
  iocp b hb := (h'.iocp b hb).trans (h.iocp b hb)
  update b hb := (h'.update b hb).trans (h.update b hb)
  deleted b hb := (h'.deleted b hb).trans (h.deleted b hb)
  tree b hb k := (h'.tree b hb k).trans (h.tree b hb k)
  active := h'.active.trans h.active

/-- A change at one address is not seen at another. -/
theorem Only.view (h : Only a p p') (hb : b ≠ a) (hhand : b ∈ hand' ↔ b ∈ hand) :
    p'.view hand' b = p.view hand b := by
  have hkeys : {k | p'.sock_tree k = some b} = {k | p.sock_tree k = some b} :=
    Set.ext fun k => h.tree b hb k
  unfold Port.view
  rw [h.socks b hb, h.requests b hb, hkeys, propext (h.iocp b hb), propext (h.update b hb),
    propext (h.deleted b hb), propext hhand]

/-- A change at one address keeps the invariant everywhere else, as long as the
queues and the groups are well formed. -/
theorem OkBut.of_only (h : OkBut C p hand a) (ho : Only a p p') (hl : Lists p' hand)
    (hg : Groups p'.members p'.poll_group_queue) : OkBut C p' hand a :=
  ⟨fun b hb => ho.view hb Iff.rfl ▸ h.views b hb, hl, hg⟩

/-- The invariant at the address that was left out makes it hold everywhere. -/
theorem OkBut.ok (h : OkBut C p hand a) (ha : (p.view hand a).Ok C) : Ok C p hand := by
  refine ⟨fun b => ?_, h.lists, h.groups⟩
  by_cases hb : b = a
  · exact hb ▸ ha
  · exact h.views b hb

/-- The poll groups have the members they had, when the socket keeps its group,
or was not there and is not. -/
theorem Only.members (h : Only a p p')
    (ha : (p'.socks a).map Sock.poll_group = (p.socks a).map Sock.poll_group) :
    p'.members = p.members := by
  have hmap : ∀ b, (p'.socks b).map Sock.poll_group = (p.socks b).map Sock.poll_group := by
    intro b
    by_cases hb : b = a
    · exact hb ▸ ha
    · rw [h.socks b hb]
  funext handle
  unfold Port.members
  congr 1
  ext b
  have hiff : ∀ o : Option Sock, (∃ s, o = some s ∧ s.poll_group = handle) ↔
      o.map Sock.poll_group = some handle := fun o => Option.map_eq_some_iff.symm
  rw [Set.mem_ofPred_eq, Set.mem_ofPred_eq, hiff, hiff, hmap]

/-! ### The primitives -/

/-- A new record is a change at its address. -/
theorem only_setSock (p : Port) (a : ℕ) (s : Sock) : Only a p (p.setSock a s) :=
  { Only.refl a p with socks := fun _ hb => Function.update_of_ne hb _ _ }

/-- A change of the record is a change at its address. -/
theorem only_modify (p : Port) (a : ℕ) (f : Sock → Sock) : Only a p (p.modify a f) :=
  { Only.refl a p with socks := fun _ hb => Function.update_of_ne hb _ _ }

/-- A request is a change at the address of its socket. -/
theorem only_setRequest (p : Port) (a : ℕ) (r : Request) : Only a p (p.setRequest a r) :=
  { Only.refl a p with requests := fun _ hb => Function.update_of_ne hb _ _ }

/-- A cancellation is a change at the address of its socket. -/
theorem only_cancel (p : Port) (a : ℕ) : Only a p (p.cancel a) :=
  { Only.refl a p with requests := fun _ hb => Function.update_of_ne hb _ _ }

/-- The end of a request is a change at the address of its socket: the packet is
put behind the others. -/
theorem only_complete (p : Port) (a : ℕ) (c : Completion) : Only a p (p.complete a c) :=
  { Only.refl a p with
    socks := fun _ hb => Function.update_of_ne hb _ _
    requests := fun _ hb => Function.update_of_ne hb _ _
    iocp := fun b hb => by
      unfold Port.complete
      simp [hb] }

/-- Leaving the queues is a change at the address. -/
theorem only_queue_remove (p : Port) (a : ℕ) : Only a p (p.queue_remove a) :=
  { Only.refl a p with
    update := fun _ hb => List.mem_erase_of_ne hb
    deleted := fun _ hb => List.mem_erase_of_ne hb }

/-- Leaving the queue of updates is a change at the address. -/
theorem only_cancel_update (p : Port) (a : ℕ) : Only a p (p.port_cancel_socket_update a) := by
  unfold Port.port_cancel_socket_update
  split
  · exact only_queue_remove p a
  · exact .refl a p

/-- Entering the queue of updates is a change at the address. -/
theorem only_request_update (p : Port) (a : ℕ) : Only a p (p.port_request_socket_update a) := by
  unfold Port.port_request_socket_update
  split
  · exact .refl a p
  · exact { Only.refl a p with update := fun b hb => by simp [hb] }

/-- Entering the queue of deleted sockets is a change at the address. -/
theorem only_add_deleted (p : Port) (a : ℕ) : Only a p (p.port_add_deleted_socket a) := by
  unfold Port.port_add_deleted_socket
  split
  · exact .refl a p
  · exact { Only.refl a p with deleted := fun b hb => by simp [hb] }

/-- Leaving the tree is a change at the address, when the key is that of no
other socket. -/
theorem only_unregister (hk : ∀ b, p.sock_tree k = some b → b = a) :
    Only a p (p.port_unregister_socket k) :=
  { Only.refl a p with
    tree := fun b hb k' => by
      unfold Port.port_unregister_socket
      dsimp only
      rw [Function.update_apply]
      split_ifs with hkk
      · rw [hkk]
        exact ⟨nofun, fun hb' => absurd (hk b hb') hb⟩
      · rfl }

/-! ### The poll groups -/

variable {m : ℕ → ℕ∞} {queue : List PollGroup} {handle : ℕ}

/-- A handle that sockets use is that of one group of the queue, which counts
them. -/
theorem Groups.exists_size (h : Groups m queue) (hm : m handle ≠ 0) :
    ∃ l₁ g l₂, queue = l₁ ++ g :: l₂ ∧ g.afd_device_handle = handle ∧ m handle = g.group_size := by
  obtain ⟨g, hg, hhandle⟩ := List.mem_map.1 (h.listed handle hm)
  obtain ⟨l₁, l₂, hsplit⟩ := List.append_of_mem hg
  exact ⟨l₁, g, l₂, hsplit, hhandle, hhandle ▸ h.size g hg⟩

/-- The other groups of a queue. -/
theorem Groups.others {l₁ l₂ : List PollGroup} {g : PollGroup} (h : Groups m (l₁ ++ g :: l₂)) :
    ∀ g' ∈ l₁ ++ l₂, g'.afd_device_handle ≠ g.afd_device_handle := by
  intro g' hg' heq
  have hnodup := h.handles
  rw [List.map_append, List.map_cons, List.nodup_middle, List.nodup_cons, ← List.map_append]
    at hnodup
  exact hnodup.1 (heq ▸ List.mem_map_of_mem hg')

/-- A group changes its size and its place. -/
theorem Groups.move {l₁ l₂ l : List PollGroup} {g : PollGroup} (g' : PollGroup)
    (h : Groups m (l₁ ++ g :: l₂)) (hsame : g'.afd_device_handle = g.afd_device_handle)
    (hperm : l.Perm (g' :: (l₁ ++ l₂))) (hle : g'.group_size ≤ POLL_GROUP_MAX_GROUP_SIZE)
    (hfull : l.Pairwise fun g g' => g.group_size < POLL_GROUP_MAX_GROUP_SIZE →
      g'.group_size < POLL_GROUP_MAX_GROUP_SIZE) :
    Groups (Function.update m g.afd_device_handle g'.group_size) l := by
  have hmem : ∀ x, x ∈ l ↔ x = g' ∨ x ∈ l₁ ++ l₂ := fun x =>
    hperm.mem_iff.trans List.mem_cons
  have hold : ∀ x ∈ l₁ ++ l₂, x ∈ l₁ ++ g :: l₂ := by
    intro x hx
    rw [List.mem_append, List.mem_cons]
    rw [List.mem_append] at hx
    tauto
  refine ⟨?_, fun x hx => ?_, fun handle hhandle => ?_, fun x hx => ?_, hfull⟩
  · have hnodup := h.handles
    rw [List.map_append, List.map_cons, List.nodup_middle, ← List.map_append, ← hsame,
      ← List.map_cons] at hnodup
    exact (hperm.map _).nodup_iff.2 hnodup
  · rcases (hmem x).1 hx with rfl | hx
    · rw [hsame, Function.update_self]
    · rw [Function.update_of_ne (h.others x hx)]
      exact h.size x (hold x hx)
  · by_cases hg : handle = g.afd_device_handle
    · exact List.mem_map.2 ⟨g', (hmem g').2 (.inl rfl), hsame.trans hg.symm⟩
    · rw [Function.update_of_ne hg] at hhandle
      obtain ⟨x, hx, rfl⟩ := List.mem_map.1 (h.listed handle hhandle)
      refine List.mem_map_of_mem ((hmem x).2 (.inr ?_))
      rw [List.mem_append, List.mem_cons] at hx
      rw [List.mem_append]
      rcases hx with hx | rfl | hx
      · exact .inl hx
      · exact absurd rfl hg
      · exact .inr hx
  · rcases (hmem x).1 hx with rfl | hx
    · exact hle
    · exact h.bounded x (hold x hx)

/-- Taking a group out of the queue leaves the full ones behind those with room. -/
theorem Groups.sublist {l₁ l₂ : List PollGroup} {g : PollGroup} (h : Groups m (l₁ ++ g :: l₂)) :
    (l₁ ++ l₂).Pairwise fun g g' => g.group_size < POLL_GROUP_MAX_GROUP_SIZE →
      g'.group_size < POLL_GROUP_MAX_GROUP_SIZE :=
  h.full_first.sublist (List.Sublist.append_left (List.sublist_cons_self g l₂) l₁)

/-- **A socket leaves its group.** -/
theorem Groups.release {n : ℕ} (h : Groups m p.poll_group_queue) (hm : m handle = n + 1) :
    ∃ queue, poll_group_release p handle = some { p with poll_group_queue := queue } ∧
      Groups (Function.update m handle n) queue := by
  have hne : m handle ≠ 0 := by
    rw [hm]
    exact_mod_cast Nat.succ_ne_zero n
  obtain ⟨l₁, g, l₂, hsplit, hhandle, hsize⟩ := h.exists_size hne
  have hn : g.group_size = n + 1 := by
    rw [hm] at hsize
    exact_mod_cast hsize.symm
  have hle := h.bounded g (hsplit ▸ by simp)
  unfold POLL_GROUP_MAX_GROUP_SIZE at hle
  rw [hsplit] at h
  have hfirst : ∀ g' ∈ l₁, ¬ (g'.afd_device_handle == handle) = true := by
    intro g' hg' heq
    exact h.others g' (List.mem_append_left _ hg') ((beq_iff_eq.1 heq).trans hhandle.symm)
  have hbeq : (g.afd_device_handle == handle) = true := beq_iff_eq.2 hhandle
  have hfind : p.poll_group_queue.find? (·.afd_device_handle == handle) = some g := by
    rw [hsplit, List.find?_append, List.find?_eq_none.2 hfirst, Option.none_or,
      List.find?_cons_of_pos (p := fun g => PollGroup.afd_device_handle g == handle) hbeq]
  have herase : p.poll_group_queue.eraseP (·.afd_device_handle == handle) = l₁ ++ l₂ := by
    rw [hsplit, List.eraseP_append_right _ hfirst,
      List.eraseP_cons_of_pos (p := fun g => PollGroup.afd_device_handle g == handle) hbeq]
  have hlast : { g with group_size := g.group_size - 1 } = (⟨handle, n⟩ : PollGroup) := by
    rw [hhandle, hn, Nat.add_sub_cancel]
  refine ⟨l₁ ++ l₂ ++ [⟨handle, n⟩], ?_, ?_⟩
  · unfold poll_group_release
    rw [hfind]
    dsimp only
    rw [if_neg, herase, hlast]
    unfold POLL_GROUP_MAX_GROUP_SIZE
    omega
  · have hmoved := h.move (l := l₁ ++ l₂ ++ [⟨handle, n⟩]) ⟨handle, n⟩ hhandle.symm
      (List.perm_append_singleton _ _) (by
        unfold POLL_GROUP_MAX_GROUP_SIZE
        dsimp only
        omega) ?_
    · rwa [hhandle] at hmoved
    · refine List.pairwise_append.2 ⟨h.sublist, List.pairwise_singleton _ _, ?_⟩
      intro x hx y hy hlt
      rw [List.mem_singleton] at hy
      rw [hy]
      unfold POLL_GROUP_MAX_GROUP_SIZE
      dsimp only
      omega

/-- A device that is not in use becomes a group with nothing in it. -/
theorem Groups.opened (h : Groups m queue) (hdev : ∀ g ∈ queue, g.afd_device_handle ≠ handle)
    (hfull : ∀ g ∈ queue, POLL_GROUP_MAX_GROUP_SIZE ≤ g.group_size) :
    Groups m (queue ++ [⟨handle, 0⟩]) ∧ m handle = 0 := by
  have hzero : m handle = 0 := by
    by_contra hne
    obtain ⟨g, hg, heq⟩ := List.mem_map.1 (h.listed handle hne)
    exact hdev g hg heq
  refine ⟨⟨?_, ?_, ?_, ?_, ?_⟩, hzero⟩
  · rw [List.map_append, List.map_singleton]
    refine List.nodup_append.2 ⟨h.handles, List.nodup_singleton _, ?_⟩
    intro x hx y hy hxy
    obtain ⟨g, hg, rfl⟩ := List.mem_map.1 hx
    exact hdev g hg (hxy.trans (List.mem_singleton.1 hy))
  · intro g hg
    rcases List.mem_append.1 hg with hg | hg
    · exact h.size g hg
    · rw [List.mem_singleton.1 hg]
      exact hzero
  · intro x hx
    rw [List.map_append]
    exact List.mem_append_left _ (h.listed x hx)
  · intro g hg
    rcases List.mem_append.1 hg with hg | hg
    · exact h.bounded g hg
    · rw [List.mem_singleton.1 hg]
      exact Nat.zero_le _
  · refine List.pairwise_append.2 ⟨h.full_first, List.pairwise_singleton _ _, ?_⟩
    intro x hx y hy hlt
    exact absurd hlt (Nat.not_lt.2 (hfull x hx))

/-- A socket comes into the last group, which is not full. -/
theorem Groups.enter {g : PollGroup} (h : Groups m (queue ++ [g]))
    (hlt : g.group_size < POLL_GROUP_MAX_GROUP_SIZE) :
    Groups (Function.update m g.afd_device_handle (m g.afd_device_handle + 1))
      (if g.group_size + 1 = POLL_GROUP_MAX_GROUP_SIZE then
        { g with group_size := g.group_size + 1 } :: queue
      else queue ++ [{ g with group_size := g.group_size + 1 }]) := by
  have hsize : m g.afd_device_handle + 1 = ((g.group_size + 1 : ℕ) : ℕ∞) := by
    rw [h.size g (by simp)]
    rfl
  have hsub := h.sublist
  rw [List.append_nil] at hsub
  rw [hsize]
  refine h.move { g with group_size := g.group_size + 1 } rfl ?_ hlt ?_
  · rw [List.append_nil]
    split_ifs
    · exact .refl _
    · exact List.perm_append_singleton _ _
  · split_ifs with heq
    · refine List.pairwise_cons.2 ⟨fun x _ hlt' => ?_, hsub⟩
      exact absurd heq (Nat.ne_of_lt hlt')
    · refine List.pairwise_append.2 ⟨hsub, List.pairwise_singleton _ _, ?_⟩
      intro x hx y hy hlt'
      rw [List.mem_singleton.1 hy]
      exact lt_of_le_of_ne hlt heq

/-- **A socket comes into a group**, a new one only when all are full. -/
theorem Groups.acquire {device : Option ℕ} (h : Groups m p.poll_group_queue)
    (hdev : ∀ d, device = some d → ∀ g ∈ p.poll_group_queue, g.afd_device_handle ≠ d)
    (hacq : poll_group_acquire device p = some (handle, p')) :
    ∃ queue, p' = { p with poll_group_queue := queue } ∧
      Groups (Function.update m handle (m handle + 1)) queue ∧
      (queue.length = p.poll_group_queue.length ∨
        ∀ g ∈ p.poll_group_queue, g.group_size = POLL_GROUP_MAX_GROUP_SIZE) := by
  have hnew : ∀ d, device = some d →
      (∀ g ∈ p.poll_group_queue, POLL_GROUP_MAX_GROUP_SIZE ≤ g.group_size) →
      Groups (Function.update m d (m d + 1)) (p.poll_group_queue ++ [⟨d, 1⟩]) := by
    intro d hd hfull
    exact (h.opened (hdev d hd) hfull).1.enter (Nat.zero_lt_succ 31)
  unfold poll_group_acquire at hacq
  dsimp only at hacq
  cases hlast : p.poll_group_queue.getLast? with
  | none =>
    have hempty : p.poll_group_queue = [] := List.getLast?_eq_none_iff.1 hlast
    rw [hlast] at hacq
    cases device with
    | none => cases hacq
    | some d =>
      cases hacq
      refine ⟨_, rfl, hnew d rfl (by rw [hempty]; exact nofun), .inr (by rw [hempty]; exact nofun)⟩
  | some g =>
    obtain ⟨l, hl⟩ := List.getLast?_eq_some_iff.1 hlast
    rw [hlast] at hacq
    dsimp only at hacq
    split_ifs at hacq with hfull
    · have hall : ∀ x ∈ p.poll_group_queue, POLL_GROUP_MAX_GROUP_SIZE ≤ x.group_size := by
        intro x hx
        have hpair := h.full_first
        rw [hl] at hpair hx
        rcases List.mem_append.1 hx with hx | hx
        · by_contra hlt
          exact absurd ((List.pairwise_append.1 hpair).2.2 x hx g (List.mem_singleton_self g)
            (Nat.lt_of_not_le hlt)) (Nat.not_lt.2 hfull)
        · exact List.mem_singleton.1 hx ▸ hfull
      cases device with
      | none => cases hacq
      | some d =>
        cases hacq
        exact ⟨_, rfl, hnew d rfl hall, .inr fun x hx => le_antisymm (h.bounded x hx) (hall x hx)⟩
    · rw [Option.some_or] at hacq
      dsimp only at hacq
      cases hacq
      rw [hl, List.dropLast_concat]
      have henter := (hl ▸ h : Groups m (l ++ [g])).enter (Nat.lt_of_not_le hfull)
      refine ⟨_, rfl, henter, .inl ?_⟩
      split_ifs <;> simp

end Wepoll
end Net
end Sevent
