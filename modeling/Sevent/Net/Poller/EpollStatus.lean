/-
# `EpollPoller`: the status of a channel and the kernel's interest set

`sevent/net/poller/EpollPoller.cpp`, `updateChannel`, `removeChannel` and
`update`.

The channels call `updateChannel` and `removeChannel` in any order, with any
masks, and change their masks in between.  A channel keeps its descriptor while
it is registered, no two registered channels have the same one, and
`removeChannel` is not called on an unregistered channel whose descriptor a
registered one has; these are the steps of `step`.  `live` holds the registered
channels, `lastMask` the mask at the last update.

In every state the status of a channel tells what is in the two tables, so that
every `epoll_ctl` of the next call is one that the kernel accepts, and the
asserts hold (`status_agrees`).
-/

import Sevent.Lib.Run
import Sevent.Net.Poller.EpollPoller
import Mathlib.Data.Finset.Basic

namespace Sevent
namespace Net
namespace EpollPoller

open Transition

variable {Fd : Type*} [DecidableEq Fd]

/-! ### What a call asks of the kernel -/

/-- The operation of the one `epoll_ctl` of `updateChannel`. -/
def updateCtl (ch : Channel Fd) : EpollCtl :=
  if ch.index = ready then .EPOLL_CTL_ADD
  else if ch.index = normal then if ch.isNoneEvent then .EPOLL_CTL_DEL else .EPOLL_CTL_MOD
  else .EPOLL_CTL_ADD

/-- The asserts of `updateChannel`. -/
def updateAsserts (p : EpollPoller Fd) (c : ChanId) (ch : Channel Fd) : Prop :=
  (ch.index = ready → p.channelMap ch.fd = none) ∧
    (ch.index = normal → p.channelMap ch.fd = some c)

/-- Does the kernel accept the operation on the descriptor?  Otherwise it
answers `EEXIST` or `ENOENT`. -/
def Legal (p : EpollPoller Fd) (op : EpollCtl) (fd : Fd) : Prop :=
  match op with
  | .EPOLL_CTL_ADD => p.interest fd = none
  | .EPOLL_CTL_MOD | .EPOLL_CTL_DEL => p.interest fd ≠ none

/-! ### Runs -/

/-- The poller and the channels; who is registered, and with what mask since
its last update. -/
structure Board (Fd : Type*) where
  poller : EpollPoller Fd
  channels : ChanId → Channel Fd
  live : Finset ChanId
  lastMask : ChanId → Events

/-- What the channels do. -/
inductive Move (Fd : Type*)
  | setFd (c : ChanId) (fd : Fd)
  | setEvents (c : ChanId) (events : Events)
  | updateChannel (c : ChanId)
  | removeChannel (c : ChanId)

namespace Board

/-- No other registered channel has the descriptor of `c`. -/
def Apart (s : Board Fd) (c : ChanId) : Prop :=
  ∀ d ∈ s.live, (s.channels d).fd = (s.channels c).fd → d = c

instance (s : Board Fd) (c : ChanId) : Decidable (s.Apart c) := by
  unfold Apart; infer_instance

/-- A move of the program; a registered channel keeps its descriptor. -/
def step (s : Board Fd) : Move Fd → Option (Board Fd)
  | .setFd c fd =>
    if c ∈ s.live then none
    else some { s with channels := Function.update s.channels c { s.channels c with fd } }
  | .setEvents c events =>
    some { s with channels := Function.update s.channels c { s.channels c with events } }
  | .updateChannel c =>
    if s.Apart c then
      let r := s.poller.updateChannel c (s.channels c)
      some
        { poller := r.1
          channels := Function.update s.channels c r.2
          live := insert c s.live
          lastMask := Function.update s.lastMask c (s.channels c).events }
    else none
  | .removeChannel c =>
    if c ∈ s.live ∨ s.Apart c then
      let r := s.poller.removeChannel c (s.channels c)
      some
        { poller := r.1
          channels := Function.update s.channels c r.2
          live := s.live.erase c
          lastMask := s.lastMask }
    else none

/-- No channel is registered. -/
def init (fd : ChanId → Fd) : Board Fd where
  poller := .empty
  channels := fun c => .new (fd c)
  live := ∅
  lastMask := fun _ => .NoneEvent

/-- What the next call asks of the kernel is legal, and its asserts hold. -/
def Safe (s : Board Fd) : Move Fd → Prop
  | .updateChannel c =>
    s.poller.Legal (updateCtl (s.channels c)) (s.channels c).fd ∧
      s.poller.updateAsserts c (s.channels c)
  | .removeChannel c =>
    (s.channels c).index = normal → s.poller.Legal .EPOLL_CTL_DEL (s.channels c).fd
  | .setFd _ _ | .setEvents _ _ => True

/-- The status of each channel tells what is in the interest set and in
`channelMap`, and nothing else is in them. -/
structure Agrees (s : Board Fd) : Prop where
  normal_iff : ∀ c, (s.channels c).index = normal ↔
    s.poller.interest (s.channels c).fd = some (c, s.lastMask c)
  interest : ∀ fd c e, s.poller.interest fd = some (c, e) →
    fd = (s.channels c).fd ∧ e = s.lastMask c
  map_iff : ∀ c, s.poller.channelMap (s.channels c).fd = some c ↔ (s.channels c).index ≠ ready
  map : ∀ fd c, s.poller.channelMap fd = some c → fd = (s.channels c).fd
  live_iff : ∀ c, c ∈ s.live ↔ (s.channels c).index ≠ ready
  safe : ∀ m s', s.step m = some s' → s.Safe m

/-! ### The invariant -/

/-- The channel with the mask of its last update. -/
def tracked (s : Board Fd) (c : ChanId) : Channel Fd :=
  { s.channels c with events := s.lastMask c }

/-- The poller's tables say of each channel what its index says, and the live
channels have descriptors of their own. -/
structure Inv (s : Board Fd) : Prop where
  tracks : ∀ c, s.poller.Tracks c (s.tracked c)
  live_iff : ∀ c, c ∈ s.live ↔ (s.channels c).index ≠ ready
  distinct : ∀ c ∈ s.live, s.Apart c

variable {s s' : Board Fd} {c d : ChanId}

omit [DecidableEq Fd] in
/-- A channel that is not live is in neither table. -/
theorem Inv.gone (h : Inv s) (hc : c ∉ s.live) : s.poller.Gone c :=
  (h.tracks c).gone (not_not.1 (mt (h.live_iff c).2 hc))

omit [DecidableEq Fd] in
/-- The interest set names no other channel under the descriptor. -/
theorem Inv.free (h : Inv s) (hc : s.Apart c) : s.poller.Free c (s.channels c).fd := by
  intro d e hd
  obtain ⟨hfd, hnormal, -⟩ := ((h.tracks d).interest_iff _ _).1 hd
  refine hc d ((h.live_iff d).2 fun hready => ?_) hfd.symm
  exact normal_ne_ready (hnormal.symm.trans hready)

/-- A step keeps the preconditions of the poller's functions. -/
theorem Inv.agrees_safe (h : Inv s) {m : Move Fd} (hstep : s.step m = some s') : s.Safe m := by
  cases m with
  | setFd => trivial
  | setEvents => trivial
  | updateChannel c =>
    simp only [step] at hstep
    split_ifs at hstep with hapart
    have htracks := h.tracks c
    have hinterest := htracks.interest_eq (h.free hapart)
    refine ⟨?_, fun hready => ?_, fun hnormal => ?_⟩
    · unfold updateCtl
      rcases htracks.status with hs | hs | hs <;> change (s.channels c).index = _ at hs <;>
        simp only [tracked, hs] at hinterest
      · simpa [Legal, hs] using hinterest
      · split_ifs <;> simp_all [Legal]
      · simpa [Legal, hs] using hinterest
    · refine Option.eq_none_iff_forall_ne_some.2 fun d hd => ?_
      obtain ⟨hfd, hready'⟩ := ((h.tracks d).map_iff _).1 hd
      obtain rfl := hapart d ((h.live_iff d).2 hready') hfd.symm
      exact hready' hready
    · exact (htracks.map_iff _).2 ⟨rfl, fun hready => normal_ne_ready (hnormal.symm.trans hready)⟩
  | removeChannel c =>
    intro hnormal
    have hin := ((h.tracks c).interest_iff (s.channels c).fd (s.lastMask c)).2 ⟨rfl, hnormal, rfl⟩
    exact ne_of_eq_of_ne hin (Option.some_ne_none _)

/-- The invariant makes the three ways to ask agree. -/
theorem Inv.agrees (h : Inv s) : Agrees s where
  normal_iff c := by
    rw [(h.tracks c).interest_iff]
    exact ⟨fun hn => ⟨rfl, hn, rfl⟩, fun hn => hn.2.1⟩
  interest fd c e he := by
    obtain ⟨hfd, -, hmask⟩ := ((h.tracks c).interest_iff _ _).1 he
    exact ⟨hfd, hmask⟩
  map_iff c := by
    rw [(h.tracks c).map_iff]
    exact ⟨fun hn => hn.2, fun hn => ⟨rfl, hn⟩⟩
  map fd c hc := (((h.tracks c).map_iff _).1 hc).1
  live_iff := h.live_iff
  safe _ _ hstep := h.agrees_safe hstep

/-! ### The steps -/

/-- A channel that is in neither table stays out of them when another one is updated. -/
theorem gone_updateChannel {p : EpollPoller Fd} {ch : Channel Fd} (h : p.Gone d) (hd : d ≠ c) :
    (p.updateChannel c ch).1.Gone d := by
  refine ⟨fun f hf => ?_, fun f e hf => ?_⟩
  · rw [updateChannel_channelMap] at hf
    split_ifs at hf
    · exact hd (Option.some.inj hf).symm
    · exact h.1 f hf
  · rcases updateChannel_interest_cases p c ch f with hsame | ⟨-, hother⟩
    · exact h.2 f e (hsame ▸ hf)
    · exact hd (hother d e hf)

/-- A channel that is in neither table does not come into one by the removal of
another. -/
theorem gone_remove {p : EpollPoller Fd} {ch : Channel Fd} (h : p.Gone d) (hd : d ≠ c) :
    (p.remove c ch).1.Gone d := by
  refine ⟨fun f hf => ?_, fun f e hf => ?_⟩
  · rw [remove_channelMap] at hf
    split_ifs at hf
    exact h.1 f hf
  · rcases remove_interest_cases p c ch f with hsame | ⟨-, hother⟩
    · exact h.2 f e (hsame ▸ hf)
    · exact hd (hother d e hf)

/-- A removal does not look at the mask. -/
theorem removeChannel_poller (p : EpollPoller Fd) (c : ChanId) (ch : Channel Fd) (e : Events) :
    (p.removeChannel c ch).1 = (p.remove c { ch with events := e }).1 := by
  unfold EpollPoller.remove removeChannel
  dsimp only
  split_ifs
  · unfold EpollPoller.update
    dsimp only
    split <;> simp_all
  · rfl

omit [DecidableEq Fd] in
/-- A new descriptor for a channel that is not live keeps the invariant. -/
theorem Inv.setFd (h : Inv s) (hc : c ∉ s.live) (fd : Fd) :
    Inv { s with channels := Function.update s.channels c { s.channels c with fd } } := by
  have hready : (s.channels c).index = ready := not_not.1 (mt (h.live_iff c).2 hc)
  have hlive : ∀ d ∈ s.live, Function.update s.channels c { s.channels c with fd } d =
      s.channels d := fun d hd => Function.update_of_ne (ne_of_mem_of_not_mem hd hc) _ _
  refine ⟨fun d => ?_, fun d => ?_, fun d hd e he hfd => ?_⟩
  · by_cases hd : d = c
    · subst hd
      refine (h.gone hc).tracks ?_
      simp only [tracked, Function.update_self, hready]
    · have := h.tracks d
      simp only [tracked, Function.update_of_ne hd] at this ⊢
      exact this
  · by_cases hd : d = c
    · subst hd
      simp only [Function.update_self]
      exact h.live_iff d
    · dsimp only
      rw [Function.update_of_ne hd]
      exact h.live_iff d
  · simp only [hlive d hd, hlive e he] at hfd
    exact h.distinct d hd e he hfd

omit [DecidableEq Fd] in
/-- A new mask keeps the invariant; the poller does not know it yet. -/
theorem Inv.setEvents (h : Inv s) (c : ChanId) (events : Events) :
    Inv { s with channels := Function.update s.channels c { s.channels c with events } } := by
  have hfd : ∀ d, (Function.update s.channels c { s.channels c with events } d).fd =
      (s.channels d).fd := by
    intro d
    by_cases hd : d = c
    · rw [hd, Function.update_self]
    · rw [Function.update_of_ne hd]
  have hindex : ∀ d, (Function.update s.channels c { s.channels c with events } d).index =
      (s.channels d).index := by
    intro d
    by_cases hd : d = c
    · rw [hd, Function.update_self]
    · rw [Function.update_of_ne hd]
  refine ⟨fun d => ?_, fun d => ?_, fun d hd e he heq => ?_⟩
  · have := h.tracks d
    simp only [tracked] at this ⊢
    rwa [hfd, hindex]
  · dsimp only
    rw [hindex]
    exact h.live_iff d
  · simp only [hfd] at heq
    exact h.distinct d hd e he heq

/-- An update of a channel with a descriptor of its own keeps the invariant. -/
theorem Inv.updateChannel (h : Inv s) (hapart : s.Apart c) :
    Inv
      { poller := (s.poller.updateChannel c (s.channels c)).1
        channels := Function.update s.channels c (s.poller.updateChannel c (s.channels c)).2
        live := insert c s.live
        lastMask := Function.update s.lastMask c (s.channels c).events } := by
  have hfd : ∀ d, (Function.update s.channels c
      (s.poller.updateChannel c (s.channels c)).2 d).fd = (s.channels d).fd := by
    intro d
    by_cases hd : d = c
    · rw [hd, Function.update_self, updateChannel_fd]
    · rw [Function.update_of_ne hd]
  refine ⟨fun d => ?_, fun d => ?_, fun d hd e he heq => ?_⟩
  · by_cases hd : d = c
    · subst hd
      have hself := ((h.tracks d).updateChannel (h.free hapart) (s.channels d).events).1
      have hevents : (s.poller.updateChannel d (s.channels d)).2.events = (s.channels d).events :=
        updateChannel_events
      simp only [tracked, Function.update_self, ← hevents]
      exact hself
    · simp only [tracked, Function.update_of_ne hd]
      by_cases hlive : d ∈ s.live
      · exact (h.tracks d).updateChannel_other (Ne.symm hd) fun heq => hd (hapart d hlive heq.symm)
      · have hready : (s.channels d).index = ready := not_not.1 (mt (h.live_iff d).2 hlive)
        exact (gone_updateChannel (h.gone hlive) hd).tracks hready
  · by_cases hd : d = c
    · subst hd
      dsimp only
      rw [Function.update_self]
      exact iff_of_true (Finset.mem_insert_self ..) updateChannel_index_ne
    · dsimp only
      rw [Function.update_of_ne hd, Finset.mem_insert, or_iff_right hd]
      exact h.live_iff d
  · simp only [hfd] at heq
    rcases Finset.mem_insert.1 hd with rfl | hdlive
    · rcases Finset.mem_insert.1 he with rfl | helive
      · rfl
      · exact hapart e helive heq
    · rcases Finset.mem_insert.1 he with rfl | helive
      · exact (hapart d hdlive heq.symm).symm
      · exact h.distinct d hdlive e helive heq

/-- A removal keeps the invariant. -/
theorem Inv.removeChannel (h : Inv s) (hc : c ∈ s.live ∨ s.Apart c) :
    Inv
      { poller := (s.poller.removeChannel c (s.channels c)).1
        channels := Function.update s.channels c (s.poller.removeChannel c (s.channels c)).2
        live := s.live.erase c
        lastMask := s.lastMask } := by
  have hapart : s.Apart c := hc.elim (h.distinct c) id
  have hne : ∀ d ∈ s.live.erase c, Function.update s.channels c
      (s.poller.removeChannel c (s.channels c)).2 d = s.channels d :=
    fun d hd => Function.update_of_ne (Finset.ne_of_mem_erase hd) _ _
  refine ⟨fun d => ?_, fun d => ?_, fun d hd e he heq => ?_⟩
  · dsimp only
    rw [removeChannel_poller _ _ _ (s.lastMask c)]
    by_cases hd : d = c
    · subst hd
      refine (h.tracks d).remove.tracks ?_
      simp only [tracked, Function.update_self]
      rfl
    · simp only [tracked, Function.update_of_ne hd]
      by_cases hlive : d ∈ s.live
      · exact (h.tracks d).remove_other (Ne.symm hd) fun heq => hd (hapart d hlive heq.symm)
      · have hready : (s.channels d).index = ready := not_not.1 (mt (h.live_iff d).2 hlive)
        exact (gone_remove (h.gone hlive) hd).tracks hready
  · by_cases hd : d = c
    · subst hd
      dsimp only
      rw [Function.update_self]
      exact iff_of_false (Finset.notMem_erase d s.live) (not_not.2 rfl)
    · dsimp only
      rw [Function.update_of_ne hd, Finset.mem_erase, and_iff_right hd]
      exact h.live_iff d
  · simp only [hne d hd, hne e he] at heq
    exact h.distinct d (Finset.mem_of_mem_erase hd) e (Finset.mem_of_mem_erase he) heq

/-- **Every move keeps the invariant.** -/
theorem Inv.step (h : Inv s) {m : Move Fd} (hstep : s.step m = some s') : Inv s' := by
  cases m with
  | setFd c fd =>
    simp only [Board.step] at hstep
    split_ifs at hstep with hc
    exact Option.some.inj hstep ▸ h.setFd hc fd
  | setEvents c events => exact Option.some.inj hstep ▸ h.setEvents c events
  | updateChannel c =>
    simp only [Board.step] at hstep
    split_ifs at hstep with hapart
    exact Option.some.inj hstep ▸ h.updateChannel hapart
  | removeChannel c =>
    simp only [Board.step] at hstep
    split_ifs at hstep with hc
    exact Option.some.inj hstep ▸ h.removeChannel hc

omit [DecidableEq Fd] in
/-- The invariant holds before any channel is registered. -/
theorem inv_init (fd : ChanId → Fd) : Inv (init fd) where
  tracks _ := gone_empty.tracks rfl
  live_iff _ := iff_of_false (Finset.notMem_empty _) (not_not.2 rfl)
  distinct c hc := absurd hc (Finset.notMem_empty c)

/-- **The status matches the kernel.**  In every run, whatever the channels do
with their masks and in whatever order they are updated and removed, the status
of each channel tells what is in the interest set and in `channelMap`, no
`epoll_ctl` is one that the kernel refuses, and no assert fails. -/
theorem status_agrees (fd : ChanId → Fd) (ms : List (Move Fd)) :
    Always step Agrees (init fd) ms :=
  (always_invariant (fun _ _ _ h hstep => h.step hstep) (inv_init fd)).mono fun _ h => h.agrees

end Board
end EpollPoller
end Net
end Sevent
