/-
# wepoll as epoll

`sevent/net/poller/wepoll/wepoll.c`.

What epoll is for is `Interests`: the sockets that have been added, with what is wanted
of each.  `Follows` says which calls and reports it allows.

Over any calls of any threads and whatever the driver does, in any order, no
assertion of wepoll fails and no memory that is free is used, by wepoll or by the
driver (`wepoll_sound`); the calls and the reports are those of epoll
(`wepoll_follows`); and while a thread waits the driver is asked, of every socket, for
all that is wanted of it, or something is on its way (`wepoll_watches`).
-/

import Sevent.Net.Poller.WepollSock

namespace Sevent
namespace Net
namespace Wepoll

open Transition

variable {C : Set ℕ} {p p' p'' : Port} {hand : Set ℕ} {a b k : ℕ} {s s' : Sock}
  {ans ans' : Answers}

/-! ### What epoll is for -/

/-- The sockets that have been added. -/
def Interests : Type := ℕ → Option Interest

namespace Interests

/-- No socket has been added. -/
def empty : Interests := fun _ => none

/-- The interest in one socket is set, or taken away. -/
def set (I : Interests) (k : ℕ) (i : Option Interest) : Interests := Function.update I k i

/-- What can become of the interests while events are reported: a socket that has been
closed is dropped, and an event that is reported is one that is wanted. -/
inductive Moves (C : Set ℕ) : Interests → List EpollEvent → Interests → Prop
  | refl (I : Interests) : Moves C I [] I
  | closed {I I' : Interests} {es : List EpollEvent} {k : ℕ} {i : Interest} (h : Moves C I es I')
      (hk : I' k = some i) (hc : i.base_socket ∈ C) : Moves C I es (I'.set k none)
  | report {I I' : Interests} {es : List EpollEvent} {k : ℕ} {i : Interest} {e : EpollEvent}
      (h : Moves C I es I') (hk : I' k = some i) (hdata : e.data = i.data)
      (hne : e.events ≠ 0) (hsub : e.events &&& i.events = e.events) :
      Moves C I (es ++ [e]) (I'.set k (some { i with events := afterReport i.events }))

/-- What becomes of the interests in two rounds of reports. -/
theorem Moves.trans {I I' I'' : Interests} {es es' : List EpollEvent} (h : Moves C I es I')
    (h' : Moves C I' es' I'') : Moves C I (es ++ es') I'' := by
  induction h' with
  | refl => rwa [List.append_nil]
  | closed _ hk hc ih => exact .closed ih hk hc
  | report _ hk hdata hne hsub ih =>
    rw [← List.append_assoc]
    exact .report ih hk hdata hne hsub

/-- The log of the calls, and the interests behind it. -/
inductive Follows (C : Set ℕ) : List Entry → Interests → Prop
  | nil : Follows C [] empty
  | add {l : List Entry} {I I' : Interests} {sock base_socket : ℕ} {ev : EpollEvent}
      (h : Follows C l I) (hnew : I sock = none)
      (hmoves : Moves C
        (I.set sock (some ⟨base_socket, ev.events ||| EPOLLERR ||| EPOLLHUP, ev.data⟩)) [] I') :
      Follows C (l ++ [.ctl .EPOLL_CTL_ADD sock ev true]) I'
  | addFails {l : List Entry} {I : Interests} {sock : ℕ} {ev : EpollEvent} (h : Follows C l I) :
      Follows C (l ++ [.ctl .EPOLL_CTL_ADD sock ev false]) I
  | mod {l : List Entry} {I I' : Interests} {sock : ℕ} {i : Interest} {ev : EpollEvent}
      (h : Follows C l I) (hold : I sock = some i)
      (hmoves : Moves C
        (I.set sock (some ⟨i.base_socket, ev.events ||| EPOLLERR ||| EPOLLHUP, ev.data⟩)) [] I') :
      Follows C (l ++ [.ctl .EPOLL_CTL_MOD sock ev true]) I'
  | modFails {l : List Entry} {I : Interests} {sock : ℕ} {ev : EpollEvent} (h : Follows C l I)
      (hnone : I sock = none) : Follows C (l ++ [.ctl .EPOLL_CTL_MOD sock ev false]) I
  | del {l : List Entry} {I : Interests} {sock : ℕ} {i : Interest} {ev : EpollEvent}
      (h : Follows C l I) (hold : I sock = some i) :
      Follows C (l ++ [.ctl .EPOLL_CTL_DEL sock ev true]) (I.set sock none)
  | delFails {l : List Entry} {I : Interests} {sock : ℕ} {ev : EpollEvent} (h : Follows C l I)
      (hnone : I sock = none) : Follows C (l ++ [.ctl .EPOLL_CTL_DEL sock ev false]) I
  | waited {l : List Entry} {I I' : Interests} {t : ℕ} {es : List EpollEvent}
      (h : Follows C l I) (hmoves : Moves C I es I') : Follows C (l ++ [.waited t es]) I'
  | closed {l : List Entry} {I I' : Interests} (h : Follows C l I) (hmoves : Moves C I [] I') :
      Follows C l I'

end Interests

open Interests

/-- The interests that a port stands for. -/
def Port.interests (p : Port) : Interests := fun k =>
  (p.sock_tree k).bind fun a => (p.socks a).map fun s => ⟨s.base_socket, s.user_events, s.user_data⟩

/-- The tree has exactly the sockets that are not to be deleted, each under its
own key. -/
theorem Ok.tree_eq (h : Ok C p hand) :
    p.sock_tree k = some a ↔ ∃ s, p.socks a = some s ∧ s.delete_pending = false ∧ s.socket = k := by
  cases hs : p.socks a with
  | none =>
    have hkeys := (h.unused hs).keys
    constructor
    · intro hk
      exact absurd (hkeys ▸ (hk : k ∈ (p.view hand a).keys)) (Set.notMem_empty k)
    · rintro ⟨s, hs', -⟩
      cases hs'
  | some s =>
    have hkeys := Set.ext_iff.1 (h.sock hs).keys k
    refine hkeys.trans ?_
    cases hdel : s.delete_pending with
    | true =>
      rw [if_pos rfl]
      constructor
      · intro hk
        exact absurd hk (Set.notMem_empty k)
      · rintro ⟨s', hs', hdel', -⟩
        cases hs'
        rw [hdel] at hdel'
        cases hdel'
    | false =>
      rw [if_neg Bool.false_ne_true, Set.mem_singleton_iff]
      constructor
      · intro hk
        exact ⟨s, rfl, hdel, hk.symm⟩
      · rintro ⟨s', hs', -, hk⟩
        cases hs'
        exact hk.symm

/-- The interests are what is at the addresses. -/
theorem Ok.interests (h : Ok C p hand) {i : Interest} :
    p.interests k = some i ↔ ∃ a, p.entry a = some (k, i) := by
  unfold Port.interests Port.entry Sock.entry
  rw [Option.bind_eq_some_iff]
  refine exists_congr fun a => ?_
  rw [h.tree_eq]
  constructor
  · rintro ⟨⟨s, hs, hdel, rfl⟩, hi⟩
    rw [hs] at hi ⊢
    rw [Option.bind_some, hdel, if_neg Bool.false_ne_true]
    cases hi
    rfl
  · intro hi
    obtain ⟨s, hs, hi⟩ := Option.bind_eq_some_iff.1 hi
    split_ifs at hi with hdel
    cases hi
    exact ⟨⟨s, hs, Bool.not_eq_true _ ▸ hdel, rfl⟩, by rw [hs]; rfl⟩

/-- What is done to one socket leaves the entries of the others. -/
theorem Only.entry (h : Only a p p') (hb : b ≠ a) : p'.entry b = p.entry b := by
  unfold Port.entry
  rw [h.socks b hb]

/-- Two addresses do not have one socket. -/
theorem Ok.entry_inj (h : Ok C p hand) {i j : Interest} (ha : p.entry a = some (k, i))
    (hb : p.entry b = some (k, j)) : a = b := by
  have htree : ∀ {c : ℕ} {x : Interest}, p.entry c = some (k, x) → p.sock_tree k = some c := by
    intro c x hc
    unfold Port.entry Sock.entry at hc
    obtain ⟨s, hs, hx⟩ := Option.bind_eq_some_iff.1 hc
    split_ifs at hx with hdel
    cases hx
    exact h.tree_eq.2 ⟨s, hs, Bool.not_eq_true _ ▸ hdel, rfl⟩
  exact Option.some.inj ((htree ha).symm.trans (htree hb))

/-- A change at one address changes the interest in one socket. -/
theorem interests_of_only (h : Ok C p hand) {hand' : Set ℕ} (h' : Ok C p' hand')
    (honly : Only a p p') {o : Option Interest} (hold : ∀ k' i, p.entry a = some (k', i) → k' = k)
    (hnew : p'.entry a = o.map (k, ·)) (hfree : ∀ b ≠ a, ∀ i, p.entry b ≠ some (k, i)) :
    p'.interests = p.interests.set k o := by
  funext k'
  apply Option.ext
  intro i
  have hset : p.interests.set k o k' = if k' = k then o else p.interests k' :=
    Function.update_apply ..
  rw [hset, h'.interests]
  split_ifs with hk
  · rw [hk]
    constructor
    · rintro ⟨b, hb⟩
      by_cases hba : b = a
      · rw [hba, hnew] at hb
        obtain ⟨j, hj, heq⟩ := Option.map_eq_some_iff.1 hb
        cases heq
        exact hj
      · rw [honly.entry hba] at hb
        exact absurd hb (hfree b hba i)
    · intro ho
      exact ⟨a, by rw [hnew, ho]; rfl⟩
  · rw [h.interests]
    refine exists_congr fun b => ?_
    by_cases hba : b = a
    · rw [hba, hnew]
      constructor
      · intro hb
        obtain ⟨j, -, heq⟩ := Option.map_eq_some_iff.1 hb
        exact absurd (congrArg Prod.fst heq).symm hk
      · intro hb
        exact absurd (hold k' i hb) hk
    · rw [honly.entry hba]

/-- Where nothing changes at any address, nothing changes. -/
theorem interests_of_entry (h : Ok C p hand) {hand' : Set ℕ} (h' : Ok C p' hand')
    (hentry : ∀ b, p'.entry b = p.entry b) : p'.interests = p.interests := by
  funext k
  apply Option.ext
  intro i
  rw [h'.interests, h.interests]
  exact exists_congr fun b => by rw [hentry]

/-- A socket is as it was or has been dropped. -/
theorem moves_of_dropped (h : Ok C p hand) {hand' : Set ℕ} (h' : Ok C p' hand')
    (honly : Only a p p') (hentry : p'.entry a = p.entry a ∨
      p'.entry a = none ∧ ∀ k i, p.entry a = some (k, i) → i.base_socket ∈ C) :
    Moves C p.interests [] p'.interests := by
  have hall : p'.entry a = p.entry a → Moves C p.interests [] p'.interests := by
    intro hsame
    rw [interests_of_entry h h' fun b => ?_]
    · exact .refl _
    · by_cases hb : b = a
      · exact hb ▸ hsame
      · exact honly.entry hb
  rcases hentry with hsame | ⟨hnone, hclosed⟩
  · exact hall hsame
  · cases hp : p.entry a with
    | none => exact hall (hnone.trans hp.symm)
    | some r =>
      obtain ⟨k, i⟩ := r
      rw [interests_of_only h h' honly (k := k) (o := none)]
      · exact .closed (.refl _) (h.interests.2 ⟨a, hp⟩) (hclosed k i hp)
      · intro k' i' hk'
        rw [hp] at hk'
        cases hk'
        rfl
      · exact hnone
      · intro b hb j hj
        exact hb (h.entry_inj hj hp)

/-- An update reports nothing, and drops the socket if it finds it closed. -/
theorem Updated.moves {ok : Bool} (h : Ok C p hand) (hu : Updated C ans hand a p ok p') :
    Moves C p.interests [] p'.interests :=
  moves_of_dropped h hu.invariant hu.toOnly hu.entry

/-- A packet reports at most one event, one that is wanted, and drops the socket
if it says that it was closed. -/
theorem Fed.moves {hand' : Set ℕ} {ev : Option EpollEvent} (h : Ok C p hand')
    (hf : Fed C hand a p ev p') : Moves C p.interests ev.toList p'.interests := by
  cases ev with
  | none => exact moves_of_dropped h hf.invariant hf.toOnly (hf.silent rfl)
  | some e =>
    obtain ⟨k, i, hi, hdata, hne, hsub, hi'⟩ := hf.report e rfl
    rw [interests_of_only h hf.invariant hf.toOnly (k := k)
      (o := some { i with events := afterReport i.events }) ?_ hi' ?_]
    · exact .report (.refl _) (h.interests.2 ⟨a, hi⟩) hdata hne hsub
    · intro k' i' hk'
      rw [hi] at hk'
      cases hk'
      rfl
    · intro b hb j hj
      exact hb (h.entry_inj hj hi)

/-- How many threads wait is nothing that the invariant speaks of. -/
theorem Ok.count (h : Ok C p hand) (n : ℕ) : Ok C { p with active_poll_count := n } hand :=
  ⟨h.views, ⟨h.lists.update, h.lists.deleted, h.lists.iocp, h.lists.apart⟩, h.groups⟩

/-! ### The loops of the port -/

/-- Every call of the driver goes well, or finds a closed socket. -/
def Answers.GoWell (ans : Answers) : Prop :=
  ∀ a h, ans.poll a h ≠ .failed ∧ ans.cancel a h ≠ .failed

/-- What a loop of the port over the update queue leaves. -/
structure Settled (C : Set ℕ) (hand : Set ℕ) (p p' : Port) : Prop where
  invariant : Ok C p' hand
  active : p'.active_poll_count = p.active_poll_count
  moves : Moves C p.interests [] p'.interests

/-- Two functions that leave the port settled, one after the other. -/
theorem Settled.trans (h : Settled C hand p p') (h' : Settled C hand p' p'') :
    Settled C hand p p'' :=
  ⟨h'.invariant, h'.active.trans h.active, h.moves.trans h'.moves⟩

/-- **`port_update_events`** ends, with nothing left in the queue if all went well. -/
theorem port_update_events_spec (hans : ans.Honest C) (fuel : ℕ) (h : Ok C p hand)
    (hfuel : p.sock_update_queue.length ≤ fuel) :
    ∃ ok p', port_update_events ans fuel p = some (ok, p') ∧ Settled C hand p p' ∧
      (ok = true → p'.sock_update_queue = []) ∧ (ok = false → ¬ ans.GoWell) := by
  have hempty : p.sock_update_queue = [] → Settled C hand p p := fun _ => ⟨h, rfl, .refl _⟩
  induction fuel generalizing p with
  | zero =>
    have hnil := List.length_eq_zero_iff.1 (Nat.le_zero.1 hfuel)
    unfold port_update_events
    rw [if_pos hnil]
    exact ⟨_, _, rfl, hempty hnil, fun _ => hnil, nofun⟩
  | succ fuel ih =>
    unfold port_update_events
    cases hqueue : p.sock_update_queue with
    | nil => exact ⟨_, _, rfl, hempty hqueue, fun _ => hqueue, nofun⟩
    | cons a queue =>
      have hup : a ∈ p.sock_update_queue := by
        rw [hqueue]
        exact List.mem_cons_self
      obtain ⟨ok, p₁, hcall, hupdated⟩ := sock_update_spec hans h hup
      have hsettled : Settled C hand p p₁ :=
        ⟨hupdated.invariant, hupdated.active, hupdated.moves h⟩
      dsimp only
      rw [hcall]
      cases ok with
      | false =>
        refine ⟨_, _, rfl, hsettled, nofun, fun _ hwell => ?_⟩
        obtain ⟨handle, hfailed | hfailed⟩ := hupdated.failed rfl
        · exact (hwell a handle).1 hfailed
        · exact (hwell a handle).2 hfailed
      | true =>
        have hlen : p₁.sock_update_queue.length ≤ fuel := by
          rw [hupdated.dequeued rfl, List.length_erase_of_mem hup]
          omega
        obtain ⟨ok, p₂, hloop, hsettled₂, htrue, hfalse⟩ := ih hupdated.invariant hlen
          fun _ => ⟨hupdated.invariant, rfl, .refl _⟩
        exact ⟨ok, p₂, hloop, hsettled.trans hsettled₂, htrue, hfalse⟩

/-- **`port_update_events_if_polling`.** -/
theorem port_update_events_if_polling_spec (hans : ans.Honest C) (h : Ok C p hand) :
    ∃ p', port_update_events_if_polling ans p = some p' ∧ Settled C hand p p' ∧
      (0 < p.active_poll_count → ans.GoWell → p'.sock_update_queue = []) := by
  unfold port_update_events_if_polling
  split_ifs with hactive
  · obtain ⟨ok, p', hcall, hsettled, htrue, hfalse⟩ := port_update_events_spec hans _ h le_rfl
    rw [hcall]
    refine ⟨_, rfl, hsettled, fun _ hwell => ?_⟩
    cases ok with
    | true => exact htrue rfl
    | false => exact absurd hwell (hfalse rfl)
  · exact ⟨_, rfl, ⟨h, rfl, .refl _⟩, fun hpos => absurd hpos hactive⟩

/-- **`port_feed_events`** with the packets that a thread has in its hand. -/
theorem port_feed_events_spec (hans : ans.Honest C) (l : List ℕ) (hl : l.Nodup)
    (hnot : ∀ a ∈ l, a ∉ hand) (h : Ok C p ({a | a ∈ l} ∪ hand)) :
    ∃ es p', port_feed_events ans l p = some (es, p') ∧ Ok C p' hand ∧
      p'.active_poll_count = p.active_poll_count ∧ Moves C p.interests es p'.interests := by
  induction l generalizing p with
  | nil =>
    have hhand : {a | a ∈ ([] : List ℕ)} ∪ hand = hand := by simp
    rw [hhand] at h
    exact ⟨_, _, rfl, h, rfl, .refl _⟩
  | cons a l ih =>
    have hhand : {b | b ∈ a :: l} ∪ hand = insert a ({b | b ∈ l} ∪ hand) := by
      ext b
      simp [or_assoc]
    rw [hhand] at h
    have hfresh : a ∉ ({b | b ∈ l} : Set ℕ) ∪ hand := by
      rintro (hmem | hmem)
      · exact (List.nodup_cons.1 hl).1 hmem
      · exact hnot a List.mem_cons_self hmem
    obtain ⟨ev, p₁, hcall, hfed⟩ := sock_feed_event_spec hans h hfresh
    obtain ⟨es, p₂, hrest, hok, hactive, hmoves⟩ := ih (List.nodup_cons.1 hl).2
      (fun b hb => hnot b (List.mem_cons_of_mem a hb)) hfed.invariant
    unfold port_feed_events
    rw [hcall]
    dsimp only
    rw [hrest]
    exact ⟨_, _, rfl, hok, hactive.trans hfed.active, (hfed.moves h).trans hmoves⟩

/-! ### `port_ctl` -/

/-- A socket that is set. -/
theorem set_and_update (hans : ans.Honest C) (h : OkBut C p hand a) (hs : p.socks a = some s)
    (hsound : Sound C (p.view hand a) s) (hdel : s.delete_pending = false) (ev : EpollEvent) :
    ∃ p₁ p', (sock_set_event p a ev).bind (port_update_events_if_polling ans) = some p' ∧
      Ok C p₁ hand ∧ Only a p p₁ ∧ p₁.entry a =
        some (s.socket, ⟨s.base_socket, ev.events ||| EPOLLERR ||| EPOLLHUP, ev.data⟩) ∧
      Settled C hand p₁ p' ∧
      (0 < p.active_poll_count → ans.GoWell → p'.sock_update_queue = []) := by
  obtain ⟨p₁, hset, hok, honly, hentry⟩ := sock_set_event_spec h hs hsound hdel ev
  obtain ⟨p', hupdate, hsettled, hempty⟩ := port_update_events_if_polling_spec hans hok
  refine ⟨p₁, p', ?_, hok, honly, hentry, hsettled, fun hactive => hempty ?_⟩
  · rw [hset, Option.bind_some, hupdate]
  · rwa [honly.active]

/-- What `port_ctl` does, and that it is what epoll does. -/
structure Called (C hand : Set ℕ) (p p' : Port) (op : CtlOp) (sock : ℕ) (ev : EpollEvent)
    (ok : Bool) : Prop where
  invariant : Ok C p' hand
  active : p'.active_poll_count = p.active_poll_count
  follows : ∀ l, Follows C l p.interests → Follows C (l ++ [.ctl op sock ev ok]) p'.interests

/-- A key without an interest is that of no socket. -/
theorem interests_none (h : Ok C p hand) (hk : p.interests k = none) (b : ℕ) (i : Interest) :
    p.entry b ≠ some (k, i) := by
  intro hb
  rw [h.interests.2 ⟨b, hb⟩] at hk
  cases hk

/-- A key that is not in the tree has no interest. -/
theorem interests_of_tree (htree : p.sock_tree k = none) : p.interests k = none := by
  unfold Port.interests
  rw [htree]
  rfl

/-- **`port_ctl`.** -/
theorem port_ctl_spec {new : New} (op : CtlOp) (sock : ℕ) (ev : EpollEvent) (hans : ans.Honest C)
    (h : Ok C p hand) (haddress : ∀ a, new.address = some a → p.socks a = none)
    (hdevice : ∀ d, new.device = some d → ∀ g ∈ p.poll_group_queue, g.afd_device_handle ≠ d) :
    ∃ ok p', port_ctl new ans p op sock ev = some (ok, p') ∧ Called C hand p p' op sock ev ok ∧
      (p.sock_update_queue = [] → 0 < p.active_poll_count → ans.GoWell →
        p'.sock_update_queue = []) := by
  cases op with
  | EPOLL_CTL_ADD =>
    unfold port_ctl
    dsimp only
    rcases sock_new_spec sock h haddress hdevice with
      ⟨queue, hnew, hok⟩ | ⟨a, p₁, hnew, hregistered⟩
    · rw [hnew]
      refine ⟨_, _, rfl, ⟨hok, rfl, fun l hl => ?_⟩, fun hempty _ _ => hempty⟩
      exact .addFails hl
    · obtain ⟨s, hs, hsound, hdel, hsocket⟩ := hregistered.sock
      obtain ⟨p₂, p', hcall, hok, honly, hentry, hsettled, hempty⟩ :=
        set_and_update hans hregistered.but hs hsound hdel ev
      have hfresh := interests_of_tree hregistered.fresh
      have hold : ∀ k' i, p.entry a ≠ some (k', i) := by
        intro k' i hi
        unfold Port.entry at hi
        rw [hregistered.free] at hi
        cases hi
      rw [hnew]
      dsimp only
      rw [hcall]
      refine ⟨_, _, rfl, ⟨hsettled.invariant, ?_, fun l hl => ?_⟩, fun _ hactive => hempty ?_⟩
      · exact hsettled.active.trans (honly.active.trans hregistered.active)
      · have hset := interests_of_only h hok (hregistered.toOnly.trans honly) (k := sock)
          (o := some ⟨s.base_socket, ev.events ||| EPOLLERR ||| EPOLLHUP, ev.data⟩)
          (fun k' i hi => absurd hi (hold k' i)) (hsocket ▸ hentry)
          fun b _ i => interests_none h hfresh b i
        exact .add hl hfresh (hset ▸ hsettled.moves)
      · rwa [hregistered.active]
  | EPOLL_CTL_MOD =>
    unfold port_ctl
    dsimp only
    cases htree : p.sock_tree sock with
    | none =>
      exact ⟨_, _, rfl, ⟨h, rfl, fun l hl => .modFails hl (interests_of_tree htree)⟩,
        fun hempty _ _ => hempty⟩
    | some a =>
      obtain ⟨s, hs, hdel, hsocket⟩ := h.tree_eq.1 htree
      obtain ⟨p₂, p', hcall, hok, honly, hentry, hsettled, hempty⟩ :=
        set_and_update hans (h.but a) hs (h.sock hs).toSound hdel ev
      have hbefore : p.entry a = some (sock, ⟨s.base_socket, s.user_events, s.user_data⟩) :=
        hsocket ▸ entry_eq hs hdel
      dsimp only
      rw [hcall]
      refine ⟨_, _, rfl, ⟨hsettled.invariant, hsettled.active.trans honly.active, fun l hl => ?_⟩,
        fun _ => hempty⟩
      have hset := interests_of_only h hok honly (k := sock)
        (o := some ⟨s.base_socket, ev.events ||| EPOLLERR ||| EPOLLHUP, ev.data⟩) (by
          intro k' i hi
          rw [hbefore] at hi
          cases hi
          rfl) (hsocket ▸ hentry) fun b hb i hi => hb (h.entry_inj hi hbefore)
      exact .mod (i := ⟨s.base_socket, s.user_events, s.user_data⟩) hl
        (h.interests.2 ⟨a, hbefore⟩) (hset ▸ hsettled.moves)
  | EPOLL_CTL_DEL =>
    unfold port_ctl
    dsimp only
    cases htree : p.sock_tree sock with
    | none =>
      exact ⟨_, _, rfl, ⟨h, rfl, fun l hl => .delFails hl (interests_of_tree htree)⟩,
        fun hempty _ _ => hempty⟩
    | some a =>
      obtain ⟨s, hs, hdel, hsocket⟩ := h.tree_eq.1 htree
      obtain ⟨p', hcall, hok, hdeleted⟩ := sock_delete_spec hans (h.but a) hs (h.sock hs).toSound
      have hbefore : p.entry a = some (sock, ⟨s.base_socket, s.user_events, s.user_data⟩) :=
        hsocket ▸ entry_eq hs hdel
      dsimp only
      rw [hcall]
      refine ⟨_, _, rfl, ⟨hok, hdeleted.active, fun l hl => ?_⟩, fun hempty _ _ => ?_⟩
      · have hset := interests_of_only h hok hdeleted.toOnly (k := sock) (o := none) (by
          intro k' i hi
          rw [hbefore] at hi
          cases hi
          rfl) hdeleted.entry fun b hb i hi => hb (h.entry_inj hi hbefore)
        rw [hset]
        exact .del hl (h.interests.2 ⟨a, hbefore⟩)
      · rw [hdeleted.update_eq, hempty]
        rfl

/-! ### A request ends -/

/-- The driver ends a request: the packet is on its way, and neither the sockets
nor the interests have changed. -/
theorem ok_complete (h : Ok C p hand) {r : Request} (hr : p.requests a = some r) (c : Completion)
    (hc : c.closes → r.handle ∈ C) :
    Ok C (p.complete a c) hand ∧ (p.complete a c).interests = p.interests := by
  cases hs : p.socks a with
  | none =>
    have hrequest : p.requests a = none := (h.unused hs).request
    rw [hr] at hrequest
    cases hrequest
  | some s =>
    have hok := h.sock hs
    have hne : s.poll_status ≠ .SOCK_POLL_IDLE := by
      intro hidle
      have hrequest : p.requests a = none := (hok.idle hidle).1
      rw [hr] at hrequest
      cases hrequest
    have hpacket : ¬ (a ∈ p.iocp ∨ a ∈ hand) ∧ r.handle = s.base_socket := by
      rcases hok.busy hne with ⟨r', hrequest, -, hpacket, hhandle, -, -⟩ | ⟨hrequest, -, -, -⟩
      · have hrr : some r = some r' := hr.symm.trans hrequest
        cases hrr
        exact ⟨hpacket, hhandle⟩
      · have hnone : some r = none := hr.symm.trans hrequest
        cases hnone
    have hturned : Turned hand a p (p.complete a c) s (s.completed c) :=
      ⟨inner_complete p a c, complete_socks hs c, ⟨rfl, rfl, rfl, rfl, rfl, rfl⟩,
        h.lists.complete hpacket.1 c⟩
    have hsound : Sound C ((p.complete a c).view hand a) (s.completed c) := by
      refine hturned.sound hok.toSound (fun hidle => absurd hidle hne) (fun _ => ?_) hok.pending
      refine .done ?_ nofun (.inl (List.mem_append_right _ (List.mem_singleton_self a)))
        fun hnone => hpacket.2 ▸ hc (closes_of_reported (s := s) hnone)
      change Function.update p.requests a none a = none
      exact Function.update_self ..
    have hok' : Ok C (p.complete a c) hand := by
      refine OkBut.ok ((h.but a).of_only hturned.toOnly hturned.lists
        (hturned.groups hs h.groups)) (View.ok_of_sock hturned.sock ?_)
      exact ⟨hsound, fun hidle => absurd hidle hne, hok.covered⟩
    refine ⟨hok', interests_of_entry h hok' fun b => ?_⟩
    by_cases hb : b = a
    · unfold Port.entry
      rw [hb, hturned.sock, hs]
      rfl
    · exact hturned.toOnly.entry hb

/-! ### The threads -/

/-- The packets that a thread has. -/
def Place.packets : Place → List ℕ
  | .dequeued _ l => l
  | _ => []

/-- The packets that threads have taken out of the completion port and not fed
yet. -/
def handOf (threads : ℕ → Place) : Set ℕ := {a | ∃ t, a ∈ (threads t).packets}

/-- What the other threads have. -/
def others (threads : ℕ → Place) (t : ℕ) : Set ℕ := {a | ∃ t' ≠ t, a ∈ (threads t').packets}

/-- The packets that threads have: those of this thread and those of the others. -/
theorem handOf_eq (threads : ℕ → Place) (t : ℕ) :
    handOf threads = {a | a ∈ (threads t).packets} ∪ others threads t := by
  ext a
  constructor
  · rintro ⟨t', ha⟩
    by_cases ht : t' = t
    · exact .inl (ht ▸ ha)
    · exact .inr ⟨t', ht, ha⟩
  · rintro (ha | ⟨t', -, ha⟩)
    · exact ⟨t, ha⟩
    · exact ⟨t', ha⟩

/-- Where a thread goes does not change what the others have. -/
theorem others_update (threads : ℕ → Place) (t : ℕ) (place : Place) :
    others (Function.update threads t place) t = others threads t := by
  ext a
  refine exists_congr fun t' => and_congr_right fun ht => ?_
  rw [Function.update_of_ne ht]

/-- The packets that threads have after one of them has gone to another place. -/
theorem handOf_update (threads : ℕ → Place) (t : ℕ) (place : Place) :
    handOf (Function.update threads t place) = {a | a ∈ place.packets} ∪ others threads t := by
  rw [handOf_eq _ t, others_update, Function.update_self]

/-- No packet is with two threads, or twice with one. -/
structure Apart (threads : ℕ → Place) : Prop where
  nodup : ∀ t, (threads t).packets.Nodup
  apart : ∀ t t', t ≠ t' → ∀ a ∈ (threads t).packets, a ∉ (threads t').packets

/-- No packet is with two threads: a thread may go to a place with packets that
the others do not have. -/
theorem Apart.update {threads : ℕ → Place} (h : Apart threads) (t : ℕ) {place : Place}
    (hnodup : place.packets.Nodup) (hnot : ∀ a ∈ place.packets, a ∉ others threads t) :
    Apart (Function.update threads t place) := by
  refine ⟨fun t₁ => ?_, fun t₁ t₂ hne a ha ha' => ?_⟩
  · by_cases h₁ : t₁ = t
    · rw [h₁, Function.update_self]
      exact hnodup
    · rw [Function.update_of_ne h₁]
      exact h.nodup t₁
  · by_cases h₁ : t₁ = t
    · rw [h₁, Function.update_self] at ha
      have h₂ : t₂ ≠ t := fun h₂ => hne (h₁.trans h₂.symm)
      rw [Function.update_of_ne h₂] at ha'
      exact hnot a ha ⟨t₂, h₂, ha'⟩
    · rw [Function.update_of_ne h₁] at ha
      by_cases h₂ : t₂ = t
      · rw [h₂, Function.update_self] at ha'
        exact hnot a ha' ⟨t₁, h₁, ha⟩
      · rw [Function.update_of_ne h₂] at ha'
        exact h.apart t₁ t₂ hne a ha ha'

/-- The threads that are in `port_wait`, but for one. -/
def waiting (threads : ℕ → Place) (t : ℕ) : Set ℕ := {t' | t' ≠ t ∧ threads t' ≠ .out}

/-- Where a thread goes does not change which others wait. -/
theorem waiting_update (threads : ℕ → Place) (t : ℕ) (place : Place) :
    waiting (Function.update threads t place) t = waiting threads t := by
  ext t'
  refine and_congr_right fun ht => ?_
  rw [Function.update_of_ne ht]

/-- A thread that is outside is not among those that wait. -/
theorem encard_waiting_out {threads : ℕ → Place} {t : ℕ} (ht : threads t = .out) :
    {t' | threads t' ≠ .out} = waiting threads t := by
  ext t'
  refine ⟨fun h => ⟨?_, h⟩, fun h => h.2⟩
  rintro rfl
  exact h ht

/-- A thread that waits is one more than the others. -/
theorem encard_waiting {threads : ℕ → Place} {t : ℕ} (ht : threads t ≠ .out) :
    {t' | threads t' ≠ .out}.encard = (waiting threads t).encard + 1 := by
  have hset : {t' | threads t' ≠ .out} = insert t (waiting threads t) := by
    ext t'
    rw [Set.mem_insert_iff]
    by_cases h : t' = t
    · exact ⟨fun _ => .inl h, fun _ => h ▸ ht⟩
    · exact ⟨fun h' => .inr ⟨h, h'⟩, fun h' => (h'.resolve_left h).2⟩
  rw [hset, Set.encard_insert_of_notMem fun h => h.1 rfl]

/-- What holds of the whole. -/
structure System.Ok (C : Set ℕ) (s : System) : Prop where
  port : Wepoll.Ok C s.port (handOf s.threads)
  apart : Apart s.threads
  active : {t | s.threads t ≠ .out}.encard = s.port.active_poll_count
  follows : Follows C s.log s.port.interests

/-- What holds while a thread has the lock, and has reported some events: it is not
counted, and has no packets. -/
structure System.Ready (C : Set ℕ) (s : System) (t : ℕ) (es : List EpollEvent) : Prop where
  port : Wepoll.Ok C s.port (others s.threads t)
  apart : Apart s.threads
  active : (waiting s.threads t).encard = s.port.active_poll_count
  follows : ∃ I, Follows C s.log I ∧ Moves C I es s.port.interests

/-- Nothing is left to update while somebody waits. -/
def System.UpToDate (s : System) : Prop :=
  0 < s.port.active_poll_count → s.port.sock_update_queue = []

/-- Without packets of its own, a thread has what the others have. -/
theorem others_of_no_packets {threads : ℕ → Place} {t : ℕ} (ht : (threads t).packets = []) :
    others threads t = handOf threads := by
  rw [handOf_eq threads t, ht]
  simp

/-- **The end of `port_wait`.** -/
theorem finish_spec {s : System} {t : ℕ} {es : List EpollEvent} (hans : ans.Honest C)
    (h : s.Ready C t es) : ∃ s', s.finish ans t es = some s' ∧ s'.Ok C ∧
      (ans.GoWell → s'.UpToDate) := by
  obtain ⟨p', hcall, hsettled, hempty⟩ := port_update_events_if_polling_spec hans h.port
  obtain ⟨I, hfollows, hmoves⟩ := h.follows
  unfold System.finish
  rw [hcall]
  refine ⟨_, rfl, ⟨?_, ?_, ?_, ?_⟩, fun hwell hpos => ?_⟩
  · have hhand : handOf (Function.update s.threads t .out) = others s.threads t := by
      rw [handOf_update]
      simp [Place.packets]
    exact hhand ▸ hsettled.invariant
  · exact h.apart.update t List.nodup_nil nofun
  · refine (congrArg Set.encard (encard_waiting_out (Function.update_self ..))).trans ?_
    rw [waiting_update, h.active]
    exact congrArg Nat.cast hsettled.active.symm
  · have hall := hmoves.trans hsettled.moves
    rw [List.append_nil] at hall
    exact .waited hfollows hall
  · exact hempty (hsettled.active ▸ hpos) hwell

/-- **`port__poll` up to where it leaves the lock.** -/
theorem poll_spec {s : System} {t : ℕ} {w : Wait} (hans : ans.Honest C) (hans' : ans'.Honest C)
    (h : s.Ready C t []) : ∃ s', s.poll ans ans' t w = some s' ∧ s'.Ok C ∧
      (ans.GoWell → ans'.GoWell → s'.UpToDate) := by
  obtain ⟨ok, p', hcall, hsettled, htrue, hfalse⟩ := port_update_events_spec hans _ h.port le_rfl
  obtain ⟨I, hfollows, hmoves⟩ := h.follows
  have hall := hmoves.trans hsettled.moves
  unfold System.poll
  rw [hcall]
  cases ok with
  | false =>
    have hready : System.Ready C { s with port := p' } t [] :=
      ⟨hsettled.invariant, h.apart, by rw [h.active, hsettled.active], I, hfollows, hall⟩
    obtain ⟨s', hfinish, hok, -⟩ := finish_spec hans' hready
    exact ⟨s', hfinish, hok, fun hwell => absurd hwell (hfalse rfl)⟩
  | true =>
    refine ⟨_, rfl, ⟨?_, ?_, ?_, ?_⟩, fun _ _ _ => htrue rfl⟩
    · have hhand : handOf (Function.update s.threads t (.polling w)) = others s.threads t := by
        rw [handOf_update]
        simp [Place.packets]
      exact hhand ▸ hsettled.invariant.count _
    · exact h.apart.update t List.nodup_nil nofun
    · have hin : Function.update s.threads t (.polling w) t ≠ .out := by
        rw [Function.update_self]
        exact nofun
      refine (encard_waiting hin).trans ?_
      rw [waiting_update, h.active, ← hsettled.active]
      rfl
    · exact .closed hfollows hall

/-- A thread that begins a call finds the port as the invariant says, with
nothing of its own. -/
theorem System.Ok.ready {s : System} (h : s.Ok C) {t : ℕ} (ht : s.threads t = .out) :
    s.Ready C t [] := by
  refine ⟨?_, h.apart, ?_, s.port.interests, h.follows, .refl _⟩
  · rw [others_of_no_packets (by rw [ht]; rfl)]
    exact h.port
  · rw [← h.active, encard_waiting_out ht]

/-- A thread that takes the lock again is not counted any more. -/
theorem System.Ok.active_back {s : System} (h : s.Ok C) {t : ℕ} (ht : s.threads t ≠ .out) :
    (waiting s.threads t).encard = ((s.port.active_poll_count - 1 : ℕ) : ℕ∞) := by
  have hcount := h.active
  rw [encard_waiting ht] at hcount
  cases hn : s.port.active_poll_count with
  | zero =>
    rw [hn] at hcount
    exact absurd hcount (by simp)
  | succ n =>
    rw [hn, Nat.cast_succ] at hcount
    rw [Nat.add_sub_cancel]
    exact ENat.add_left_injective_of_ne_top ENat.one_ne_top hcount

/-- A thread goes to another place in `port_wait`. -/
theorem active_move {threads : ℕ → Place} {t : ℕ} (ht : threads t ≠ .out) (place : Place)
    (hplace : place ≠ .out) :
    {t' | Function.update threads t place t' ≠ .out}.encard = {t' | threads t' ≠ .out}.encard := by
  have hin : Function.update threads t place t ≠ .out := by
    rw [Function.update_self]
    exact hplace
  exact (encard_waiting hin).trans ((waiting_update threads t place) ▸ (encard_waiting ht).symm)

/-- The driver says of closed sockets only that they are closed. -/
def Event.Honest (C : Set ℕ) (s : System) : Event → Prop
  | .ctl _ _ _ _ ans => ans.Honest C
  | .wait _ _ ans ans' => ans.Honest C ∧ ans'.Honest C
  | .resume _ _ ans ans' => ans.Honest C ∧ ans'.Honest C
  | .complete a c => c.closes → ∀ r, s.port.requests a = some r → r.handle ∈ C
  | _ => True

/-- None of the calls of the system fails in the course of the event. -/
def Event.GoesWell : Event → Prop
  | .ctl _ _ _ _ ans => ans.GoWell
  | .wait _ _ ans ans' => ans.GoWell ∧ ans'.GoWell
  | .resume _ _ ans ans' => ans.GoWell ∧ ans'.GoWell
  | _ => True

/-- Packets go from the completion port to a thread. -/
theorem ok_dequeue {s : System} (h : s.Ok C) {t n : ℕ} {w : Wait} (ht : s.threads t = .polling w) :
    System.Ok C { s with
      port := { s.port with iocp := s.port.iocp.drop n }
      threads := Function.update s.threads t (.dequeued w (s.port.iocp.take n)) } := by
  have hnone : (s.threads t).packets = [] := by rw [ht]; rfl
  have hhand : handOf (Function.update s.threads t (.dequeued w (s.port.iocp.take n))) =
      {a | a ∈ s.port.iocp.take n} ∪ handOf s.threads := by
    rw [handOf_update, others_of_no_packets hnone]
    rfl
  have hsplit := h.port.lists.iocp
  rw [← List.take_append_drop n s.port.iocp, List.nodup_append] at hsplit
  have hnot : ∀ a ∈ s.port.iocp.take n, a ∉ handOf s.threads := fun a ha =>
    h.port.lists.apart a (List.mem_of_mem_take ha)
  refine ⟨⟨fun a => ?_, ⟨h.port.lists.update, h.port.lists.deleted, hsplit.2.1, fun a ha => ?_⟩,
    h.port.groups⟩, h.apart.update t hsplit.1 fun a ha => ?_, ?_, h.follows⟩
  · have hview : Port.view { s.port with iocp := s.port.iocp.drop n }
        (handOf (Function.update s.threads t (.dequeued w (s.port.iocp.take n)))) a =
        s.port.view (handOf s.threads) a := by
      unfold Port.view
      dsimp only
      congr 1
      rw [hhand, eq_iff_iff]
      conv_rhs => rw [← List.take_append_drop n s.port.iocp, List.mem_append]
      rw [Set.mem_union, Set.mem_ofPred_eq]
      tauto
    rw [hview]
    exact h.port.views a
  · rw [hhand]
    rintro (hmem | hmem)
    · exact hsplit.2.2 a hmem a ha rfl
    · exact h.port.lists.apart a (List.mem_of_mem_drop ha) hmem
  · rw [others_of_no_packets hnone]
    exact hnot a ha
  · exact (active_move (by rw [ht]; exact nofun) (.dequeued w _) nofun).trans h.active

/-- **Every event that can happen goes through**, and the whole stays as it has to
be. -/
theorem step_spec {s : System} {e : Event} (h : s.Ok C) (hpossible : s.Possible e)
    (hhonest : e.Honest C s) :
    ∃ s', s.step e = some s' ∧ s'.Ok C ∧ (s.UpToDate → e.GoesWell → s'.UpToDate) := by
  cases e with
  | ctl op sock ev new ans =>
    obtain ⟨ok, p', hcall, hcalled, hempty⟩ := port_ctl_spec op sock ev
      hhonest h.port hpossible.1 hpossible.2
    unfold System.step
    dsimp only
    rw [hcall]
    refine ⟨_, rfl, ⟨hcalled.invariant, h.apart, h.active.trans ?_, hcalled.follows _ h.follows⟩,
      fun hup hwell hpos => ?_⟩
    · exact congrArg Nat.cast hcalled.active.symm
    · have hbefore : 0 < s.port.active_poll_count := hcalled.active ▸ hpos
      exact hempty (hup hbefore) hbefore hwell
  | wait t w ans ans' =>
    obtain ⟨s', hpoll, hok, hup⟩ := poll_spec (w := w) hhonest.1 hhonest.2 (h.ready hpossible.1)
    exact ⟨s', hpoll, hok, fun _ hwell => hup hwell.1 hwell.2⟩
  | dequeue t n =>
    obtain ⟨w, ht, -⟩ := hpossible
    unfold System.step
    dsimp only
    rw [ht]
    exact ⟨_, rfl, ok_dequeue h ht, fun hup _ => hup⟩
  | expire t =>
    obtain ⟨w, ht⟩ := hpossible
    have hnone : (s.threads t).packets = [] := by rw [ht]; rfl
    unfold System.step
    dsimp only
    rw [ht]
    refine ⟨_, rfl, ⟨?_, h.apart.update t List.nodup_nil nofun, ?_, h.follows⟩, fun hup _ => hup⟩
    · have hhand : handOf (Function.update s.threads t (.expired w)) = handOf s.threads := by
        rw [handOf_update, others_of_no_packets hnone]
        simp [Place.packets]
      exact hhand.symm ▸ h.port
    · exact (active_move (by rw [ht]; exact nofun) (.expired w) nofun).trans h.active
  | resume t now ans ans' =>
    unfold System.step System.resume
    dsimp only
    rcases hpossible with ⟨w, l, ht⟩ | ⟨w, ht⟩
    · have hne : s.threads t ≠ .out := by rw [ht]; exact nofun
      have hpackets : (s.threads t).packets = l := by rw [ht]; rfl
      have hport : Ok C s.back.port ({a | a ∈ l} ∪ others s.threads t) := by
        have hall := h.port
        rw [handOf_eq s.threads t, hpackets] at hall
        exact hall.count _
      have hnot : ∀ a ∈ l, a ∉ others s.threads t := by
        rintro a ha ⟨t', ht', ha'⟩
        exact h.apart.apart t t' (Ne.symm ht') a (hpackets ▸ ha) ha'
      obtain ⟨es, p', hfeed, hok, hactive, hmoves⟩ := port_feed_events_spec hhonest.1 l
        (hpackets ▸ h.apart.nodup t) hnot hport
      have hready : System.Ready C { s with port := p' } t es :=
        ⟨hok, h.apart, (h.active_back hne).trans (congrArg Nat.cast hactive.symm),
          s.port.interests, h.follows, hmoves⟩
      rw [ht]
      dsimp only
      rw [hfeed]
      dsimp only
      split_ifs with hagain
      · rw [hagain.1] at hready
        obtain ⟨s', hpoll, hok', hup⟩ := poll_spec (w := w) hhonest.1 hhonest.2 hready
        exact ⟨s', hpoll, hok', fun _ hwell => hup hwell.1 hwell.2⟩
      · obtain ⟨s', hfinish, hok', hup⟩ := finish_spec hhonest.2 hready
        exact ⟨s', hfinish, hok', fun _ hwell => hup hwell.2⟩
    · have hne : s.threads t ≠ .out := by rw [ht]; exact nofun
      have hport : Ok C s.back.port (others s.threads t) := by
        rw [others_of_no_packets (by rw [ht]; rfl)]
        exact h.port.count _
      have hready : System.Ready C s.back t [] :=
        ⟨hport, h.apart, h.active_back hne, s.port.interests, h.follows, .refl _⟩
      rw [ht]
      obtain ⟨s', hfinish, hok', hup⟩ := finish_spec hhonest.2 hready
      exact ⟨s', hfinish, hok', fun _ hwell => hup hwell.2⟩
  | complete a c =>
    obtain ⟨r, hr⟩ := Option.ne_none_iff_exists'.1 hpossible
    obtain ⟨hok, hinterests⟩ := ok_complete h.port hr c fun hcloses => hhonest hcloses r hr
    refine ⟨_, rfl, ⟨hok, h.apart, h.active, ?_⟩, fun hup _ => hup⟩
    dsimp only
    rw [hinterests]
    exact h.follows

/-! ### Runs -/

/-- The invariant holds of a new port. -/
theorem ok_init (C : Set ℕ) : System.init.Ok C := by
  refine ⟨⟨fun a => ⟨rfl, ?_, nofun, nofun, ?_⟩, ⟨List.nodup_nil, List.nodup_nil, List.nodup_nil,
    nofun⟩, ⟨List.nodup_nil, nofun, fun h hne => ?_, nofun, List.Pairwise.nil⟩⟩,
    ⟨fun _ => List.nodup_nil, fun _ _ _ _ ha => nomatch ha⟩, ?_, ?_⟩
  · rintro (ha | ⟨t, ha⟩)
    · cases ha
    · cases ha
  · exact Set.eq_empty_of_forall_notMem nofun
  · refine absurd ?_ hne
    unfold Port.members
    rw [Set.encard_eq_zero]
    exact Set.eq_empty_of_forall_notMem fun a ⟨s, hs, _⟩ => nomatch hs
  · have hempty : {t | System.init.threads t ≠ .out} = ∅ :=
      Set.eq_empty_of_forall_notMem fun t ht => ht rfl
    rw [hempty, Set.encard_empty]
    rfl
  · have hnone : System.init.port.interests = Interests.empty := rfl
    rw [hnone]
    exact .nil

/-- What can happen, with a driver that does not lie. -/
def Good (C : Set ℕ) (s : System) (e : Event) : Prop := s.Possible e ∧ e.Honest C s

/-- **A run goes through.** -/
theorem run_spec {s : System} {es : List Event} (h : s.Ok C)
    (hgood : Steps System.step (Good C) s es) : ∃ s', run System.step s es = some s' ∧ s'.Ok C := by
  refine exists_run_of_steps (fun s e hs he => ?_) h hgood
  obtain ⟨s', hstep, hok, -⟩ := step_spec hs he.1 he.2
  exact ⟨s', hstep, hok⟩

/-- Memory that the driver has been told of, or that a packet is for. -/
def System.Outstanding (s : System) (a : ℕ) : Prop :=
  s.port.requests a ≠ none ∨ a ∈ s.port.iocp ∨ a ∈ handOf s.threads

/-- The driver has a request of a socket, or its packet is on the way, exactly
while the socket is not idle. -/
theorem outstanding_iff {s : System} {sock : Sock} (h : s.Ok C) (hs : s.port.socks a = some sock) :
    s.Outstanding a ↔ sock.poll_status ≠ .SOCK_POLL_IDLE := by
  have hok := h.port.sock hs
  constructor
  · intro hout hidle
    obtain ⟨hrequest, hpacket⟩ := hok.idle hidle
    exact hout.elim (fun hr => hr hrequest) hpacket
  · intro hne
    rcases hok.busy hne with ⟨r, hrequest, -, -, -, -, -⟩ | ⟨-, -, hpacket, -⟩
    · refine .inl ?_
      rw [show s.port.requests a = some r from hrequest]
      exact nofun
    · exact .inr hpacket

/-- **No assertion fails and no free memory is used.**  Over any calls of `epoll_ctl`
and `epoll_wait` by any threads, in any order with what the driver does: every call
goes through; the driver and the packets know of memory only that is not free; they
know of it once; what is not free is a socket in the tree, or waits for its packet;
and a poll group has as many sockets as it says, 32 at most. -/
theorem wepoll_sound (C : Set ℕ) (es : List Event)
    (hgood : Steps System.step (Good C) .init es) :
    ∃ s, run System.step .init es = some s ∧
      (∀ a, s.Outstanding a → s.port.socks a ≠ none) ∧
      (∀ a, s.port.requests a ≠ none → a ∉ s.port.iocp ∧ a ∉ handOf s.threads) ∧
      (∀ a, s.port.iocp.count a ≤ 1 ∧ (a ∈ s.port.iocp → a ∉ handOf s.threads)) ∧
      (∀ a sock, s.port.socks a = some sock →
        s.port.sock_tree sock.socket = some a ∨ s.Outstanding a) ∧
      ∀ g ∈ s.port.poll_group_queue, s.port.members g.afd_device_handle = g.group_size ∧
        g.group_size ≤ POLL_GROUP_MAX_GROUP_SIZE := by
  obtain ⟨s, hrun, hok⟩ := run_spec (ok_init C) hgood
  have hlive : ∀ a, s.Outstanding a → s.port.socks a ≠ none := by
    intro a hout hnone
    have hunused := hok.port.unused hnone
    exact hout.elim (fun hr => hr hunused.request) hunused.packet
  refine ⟨s, hrun, hlive, fun a hr => ?_, fun a => ⟨?_, hok.port.lists.apart a⟩,
    fun a sock hs => ?_, fun g hg => ⟨hok.port.groups.size g hg, hok.port.groups.bounded g hg⟩⟩
  · obtain ⟨sock, hs⟩ := Option.ne_none_iff_exists'.1 (hlive a (.inl hr))
    have hne := (outstanding_iff hok hs).1 (.inl hr)
    rcases (hok.port.sock hs).busy hne with ⟨r, -, -, hpacket, -, -, -⟩ | ⟨hrequest, -, -, -⟩
    · exact not_or.1 hpacket
    · exact absurd hrequest hr
  · exact List.nodup_iff_count_le_one.1 hok.port.lists.iocp a
  · by_cases hidle : sock.poll_status = .SOCK_POLL_IDLE
    · exact .inl (hok.port.tree_eq.2 ⟨sock, hs, ((hok.port.sock hs).scheduled hidle).1, rfl⟩)
    · exact .inr ((outstanding_iff hok hs).2 hidle)

/-- The driver takes every request, and finds what it is to cancel. -/
def willing : Answers := ⟨fun _ _ => .pending, fun _ _ => .found⟩

/-- A socket is added for one event.  A thread waits, gets the event and waits again; the
socket is set once more, another one is added, and the first is deleted. -/
def someRun : List Event :=
  [.ctl .EPOLL_CTL_ADD 7 ⟨EPOLLIN ||| EPOLLONESHOT, 5⟩ ⟨some 7, some 3, some 1⟩ willing,
    .wait 0 ⟨1, -1, 0⟩ willing willing,
    .complete 1 ⟨.STATUS_SUCCESS, 1, AFD_POLL_RECEIVE⟩,
    .dequeue 0 1,
    .resume 0 0 willing willing,
    .wait 0 ⟨1, -1, 0⟩ willing willing,
    .ctl .EPOLL_CTL_MOD 7 ⟨EPOLLIN, 6⟩ ⟨none, none, none⟩ willing,
    .ctl .EPOLL_CTL_ADD 9 ⟨EPOLLOUT, 8⟩ ⟨some 9, none, some 2⟩ willing,
    .ctl .EPOLL_CTL_DEL 7 ⟨0, 0⟩ ⟨none, none, none⟩ willing]

/-- The run of the example is one that the allocator, the driver and the threads
can have. -/
theorem good_someRun : Steps System.step (fun s e => Good ∅ s e ∧ e.GoesWell) .init someRun := by
  have hhonest : willing.Honest ∅ := ⟨nofun, nofun, nofun⟩
  have hwell : willing.GoWell := fun _ _ => ⟨nofun, nofun⟩
  have hnone : ∀ p : Port, (∀ a, none = some a → p.socks a = none) ∧
      ∀ h, none = some h → ∀ g ∈ p.poll_group_queue, g.afd_device_handle ≠ h :=
    fun _ => ⟨nofun, nofun⟩
  refine .cons ⟨⟨⟨fun _ _ => rfl, nofun⟩, hhonest⟩, hwell⟩ rfl ?_
  refine .cons ⟨⟨⟨rfl, Nat.one_pos⟩, hhonest, hhonest⟩, hwell, hwell⟩ rfl ?_
  -- what the driver reports does not close the socket
  refine .cons ⟨⟨nofun, fun hcloses => absurd rfl hcloses.2.2⟩, trivial⟩ rfl ?_
  refine .cons ⟨⟨⟨_, rfl, by decide, by decide, by decide⟩, trivial⟩, trivial⟩ rfl ?_
  refine .cons ⟨⟨.inl ⟨_, _, rfl⟩, hhonest, hhonest⟩, hwell, hwell⟩ rfl ?_
  refine .cons ⟨⟨⟨rfl, Nat.one_pos⟩, hhonest, hhonest⟩, hwell, hwell⟩ rfl ?_
  refine .cons ⟨⟨hnone _, hhonest⟩, hwell⟩ rfl ?_
  refine .cons ⟨⟨⟨fun a ha => ?_, nofun⟩, hhonest⟩, hwell⟩ rfl ?_
  · cases ha
    rfl
  exact ⟨⟨⟨hnone _, hhonest⟩, hwell⟩, fun _ _ => trivial⟩

/-- The run of the example: it goes through, and what is outstanding has its
memory. -/
theorem wepoll_sound_one : ∃ s, run System.step .init someRun = some s ∧
    ∀ a, s.Outstanding a → s.port.socks a ≠ none := by
  obtain ⟨s, hrun, hlive, -⟩ := wepoll_sound ∅ someRun (good_someRun.mono fun _ _ h => h.1)
  exact ⟨s, hrun, hlive⟩

/-- **wepoll is epoll.**  What the calls return and what they report is what epoll
allows, over an interest list of sockets and events that the calls alone edit; and a
socket is dropped from it on its own only if it has been closed. -/
theorem wepoll_follows (C : Set ℕ) (es : List Event)
    (hgood : Steps System.step (Good C) .init es) :
    ∃ s, run System.step .init es = some s ∧ Follows C s.log s.port.interests := by
  obtain ⟨s, hrun, hok⟩ := run_spec (ok_init C) hgood
  exact ⟨s, hrun, hok.follows⟩

/-- The run of the example: an event is reported, as epoll would. -/
theorem wepoll_follows_one : ∃ s, run System.step .init someRun = some s ∧
    Entry.waited 0 [⟨EPOLLIN, 5⟩] ∈ s.log ∧ Follows ∅ s.log s.port.interests := by
  obtain ⟨s, hrun, hfollows⟩ := wepoll_follows ∅ someRun (good_someRun.mono fun _ _ h => h.1)
  refine ⟨s, hrun, ?_, hfollows⟩
  cases hrun
  exact .tail _ (.head _)

/-! ### Nothing is missed -/

/-- Every bit of one mask is in the other. -/
def Within (x y : BitVec 32) : Prop := ∀ i, x.getLsbD i = true → y.getLsbD i = true

/-- Masks within masks, joined. -/
theorem Within.or {x x' y y' : BitVec 32} (h : Within x y) (h' : Within x' y') :
    Within (x ||| x') (y ||| y') := by
  intro i hi
  rw [BitVec.getLsbD_or, Bool.or_eq_true] at hi ⊢
  exact hi.imp (h i) (h' i)

/-- A mask that is not empty has a bit. -/
theorem ne_zero_iff {x : BitVec 32} : x ≠ 0 ↔ ∃ i, x.getLsbD i = true := by
  constructor
  · intro h
    by_contra hnot
    refine h (BitVec.eq_of_getLsbD_eq fun i _ => ?_)
    rw [Bool.eq_false_iff.2 fun hi => hnot ⟨i, hi⟩]
    exact BitVec.getLsbD_zero.symm
  · rintro ⟨i, hi⟩ rfl
    rw [show ((0 : BitVec 32)).getLsbD i = false from BitVec.getLsbD_zero] at hi
    cases hi

/-- A request asks for a group of events if they are known and any of them is wanted
and nothing is missing. -/
theorem within_whenAny {s : Sock} (h : s.missing = 0) {group : BitVec 32}
    (hknown : Within group SOCK_KNOWN_EPOLL_EVENTS) (result : BitVec 32) :
    Within (whenAny s.user_events group result) (whenAny s.pending_events group result) := by
  unfold whenAny
  by_cases hany : s.user_events &&& group ≠ 0
  · have hpending : s.pending_events &&& group ≠ 0 := by
      obtain ⟨i, hi⟩ := ne_zero_iff.1 hany
      rw [BitVec.getLsbD_and, Bool.and_eq_true] at hi
      refine ne_zero_iff.2 ⟨i, ?_⟩
      rw [BitVec.getLsbD_and, Bool.and_eq_true]
      refine ⟨?_, hi.2⟩
      by_contra hnot
      refine ne_zero_iff.2 ⟨i, ?_⟩ h
      have hlt := BitVec.lt_of_getLsbD hi.1
      unfold Sock.missing
      rw [BitVec.getLsbD_and, BitVec.getLsbD_and, BitVec.getLsbD_not, hi.1, hknown i hi.2,
        Bool.eq_false_iff.2 hnot]
      simp [hlt]
    rw [if_pos hany, if_pos hpending]
    exact fun _ hi => hi
  · rw [if_neg hany]
    intro i hi
    rw [show ((0 : BitVec 32)).getLsbD i = false from BitVec.getLsbD_zero] at hi
    cases hi

/-- A group of known events is within what is known. -/
theorem within_known {group : BitVec 32} (h : group &&& SOCK_KNOWN_EPOLL_EVENTS = group) :
    Within group SOCK_KNOWN_EPOLL_EVENTS := by
  intro i hi
  rw [← h, BitVec.getLsbD_and, Bool.and_eq_true] at hi
  exact hi.2

/-- **A request with nothing missing asks the driver for all that is wanted.** -/
theorem within_afd_events {s : Sock} (h : s.missing = 0) :
    Within (sock_epoll_events_to_afd_events s.user_events)
      (sock_epoll_events_to_afd_events s.pending_events) := by
  have hall : ∀ group : BitVec 32, group &&& SOCK_KNOWN_EPOLL_EVENTS = group → ∀ result,
      Within (whenAny s.user_events group result) (whenAny s.pending_events group result) :=
    fun group hgroup result => within_whenAny h (within_known hgroup) result
  unfold sock_epoll_events_to_afd_events
  refine .or (.or (.or (.or (.or (.or (fun _ hi => hi) ?_) ?_) ?_) ?_) ?_) ?_
  all_goals exact hall _ (by decide) _

/-- The driver has been asked for all that is wanted of a socket, or will answer
shortly: a request that has been cancelled, or a packet. -/
def System.Watched (s : System) (a : ℕ) (i : Interest) : Prop :=
  (∃ r, s.port.requests a = some r ∧ r.handle = i.base_socket ∧
    (r.cancelled = true ∨ Within (sock_epoll_events_to_afd_events i.events) r.events)) ∨
  a ∈ s.port.iocp ∨ a ∈ handOf s.threads

/-- After the updates every socket of interest is watched: nothing of it is
still to be asked for. -/
theorem watched {s : System} (h : s.Ok C) (hup : s.port.sock_update_queue = []) {i : Interest}
    (hi : s.port.interests k = some i) : ∃ a, s.port.sock_tree k = some a ∧ s.Watched a i := by
  obtain ⟨a, htree, hsock⟩ := Option.bind_eq_some_iff.1 hi
  obtain ⟨sock, hs, rfl⟩ := Option.map_eq_some_iff.1 hsock
  obtain ⟨sock', hs', hdel, -⟩ := h.port.tree_eq.1 htree
  obtain rfl : sock = sock' := Option.some.inj (hs.symm.trans hs')
  have hok := h.port.sock hs
  have hnot : ¬ (s.port.view (handOf s.threads) a).updating := by
    intro hmem
    have hin : a ∈ s.port.sock_update_queue := hmem
    rw [hup] at hin
    cases hin
  have hne : sock.poll_status ≠ .SOCK_POLL_IDLE := fun hidle => hnot (hok.scheduled hidle).2
  refine ⟨a, htree, ?_⟩
  rcases hok.busy hne with ⟨r, hrequest, -, -, hhandle, hpending, hcancelled⟩ | ⟨-, -, hpacket, -⟩
  · refine .inl ⟨r, hrequest, hhandle, ?_⟩
    cases hstatus : sock.poll_status with
    | SOCK_POLL_IDLE => exact absurd hstatus hne
    | SOCK_POLL_PENDING =>
      rw [hpending hstatus]
      exact .inr (within_afd_events (hok.covered hstatus hdel hnot))
    | SOCK_POLL_CANCELLED => exact .inl (hcancelled hstatus)
  · exact .inr hpacket

/-- **While a thread waits nothing is missed**, as long as no call of the driver fails:
of every socket that has been added the driver has been asked for all that is wanted
now, or the answer is on its way. -/
theorem wepoll_watches (C : Set ℕ) (es : List Event)
    (hgood : Steps System.step (fun s e => Good C s e ∧ e.GoesWell) .init es) :
    ∃ s, run System.step .init es = some s ∧
      ∀ t w, s.threads t = .polling w → ∀ k i, s.port.interests k = some i →
        ∃ a, s.port.sock_tree k = some a ∧ s.Watched a i := by
  have hall : ∀ s : System, s.Ok C → s.UpToDate →
      Steps System.step (fun s e => Good C s e ∧ e.GoesWell) s es →
      ∃ s', run System.step s es = some s' ∧ s'.Ok C ∧ s'.UpToDate := by
    clear hgood
    induction es with
    | nil => exact fun s hok hup _ => ⟨s, rfl, hok, hup⟩
    | cons e es ih =>
      intro s hok hup hgood
      obtain ⟨s₁, hstep, hok₁, hup₁⟩ := step_spec hok hgood.1.1.1 hgood.1.1.2
      obtain ⟨s', hrun, hrest⟩ := ih s₁ hok₁ (hup₁ hup hgood.1.2) (hgood.2 s₁ hstep)
      exact ⟨s', run_cons_eq_some.2 ⟨s₁, hstep, hrun⟩, hrest⟩
  obtain ⟨s, hrun, hok, hup⟩ := hall .init (ok_init C) (fun _ => rfl) hgood
  refine ⟨s, hrun, fun t w ht k i hi => watched hok (hup ?_) hi⟩
  have hcount := hok.active
  rw [encard_waiting (t := t) (by rw [ht]; exact nofun)] at hcount
  refine Nat.pos_of_ne_zero fun hzero => ?_
  rw [hzero] at hcount
  exact absurd hcount (by simp)

/-- The run of the example: while the thread waits, the driver is asked for what
is wanted. -/
theorem wepoll_watches_one : ∃ s, run System.step .init someRun = some s ∧
    ∀ t w, s.threads t = .polling w → ∀ k i, s.port.interests k = some i →
      ∃ a, s.port.sock_tree k = some a ∧ s.Watched a i :=
  wepoll_watches ∅ someRun good_someRun

end Wepoll
end Net
end Sevent
