/-
# `EpollPoller`: channels and the kernel's interest set

`sevent/net/poller/EpollPoller.cpp`.

The poller keeps `channelMap`, from descriptors to channels, and the kernel
keeps the interest set, from descriptors to a channel pointer and a mask.  The
channel's `index` field holds its status: `ready` (in neither), `normal` (in
both), `removed` (in `channelMap` only, its mask is empty).  A failing
`epoll_ctl` is logged and changes nothing.

`Tracks p c ch` says that both tables agree with the status of channel `c`.
Every call on `c` keeps it while no other channel has the same descriptor in
the interest set (`Free`), and the calls of other channels keep it as well.
-/

import Sevent.Net.Channel
import Mathlib.Logic.Function.Basic
import Mathlib.Tactic.SplitIfs

namespace Sevent
namespace Net

/-- `channelMap`, and the interest set of the epoll instance. -/
structure EpollPoller (Fd : Type*) where
  channelMap : Fd → Option ChanId
  interest : Fd → Option (ChanId × Events)

/-- The operation of an `epoll_ctl` call. -/
inductive EpollCtl
  | EPOLL_CTL_ADD
  | EPOLL_CTL_MOD
  | EPOLL_CTL_DEL
  deriving DecidableEq

namespace EpollPoller

/-- Neither in the interest set nor in `channelMap`. -/
def ready : ℤ := -1

/-- In the interest set and in `channelMap`. -/
def normal : ℤ := 1

/-- Not in the interest set, in `channelMap`. -/
def removed : ℤ := 2

/-- A channel that is in both tables is not told to be in neither: the values of
`index` are three different ones. -/
@[simp]
theorem normal_ne_ready : normal ≠ ready := of_decide_eq_true rfl

@[simp]
theorem ready_ne_normal : ready ≠ normal := of_decide_eq_true rfl

@[simp]
theorem removed_ne_ready : removed ≠ ready := of_decide_eq_true rfl

@[simp]
theorem removed_ne_normal : removed ≠ normal := of_decide_eq_true rfl

variable {Fd : Type*}

/-- A poller without channels. -/
def empty : EpollPoller Fd := { channelMap := fun _ => none, interest := fun _ => none }

section Calls

variable [DecidableEq Fd]

/-- `EpollPoller::update`, one call of `epoll_ctl`.  `EPOLL_CTL_ADD` fails for
a descriptor that is in the set, the other two for one that is not. -/
def update (p : EpollPoller Fd) (op : EpollCtl) (c : ChanId) (ch : Channel Fd) : EpollPoller Fd :=
  match op, p.interest ch.fd with
  | .EPOLL_CTL_ADD, none =>
    { p with interest := Function.update p.interest ch.fd (some (c, ch.events)) }
  | .EPOLL_CTL_MOD, some _ =>
    { p with interest := Function.update p.interest ch.fd (some (c, ch.events)) }
  | .EPOLL_CTL_DEL, some _ => { p with interest := Function.update p.interest ch.fd none }
  | _, _ => p

/-- `EpollPoller::updateChannel`: the poller and the channel after the call. -/
def updateChannel (p : EpollPoller Fd) (c : ChanId) (ch : Channel Fd) :
    EpollPoller Fd × Channel Fd :=
  if ch.index = ready then
    let p := { p with channelMap := Function.update p.channelMap ch.fd (some c) }
    (p.update .EPOLL_CTL_ADD c ch, { ch with index := normal })
  else if ch.index = normal then
    if ch.isNoneEvent then (p.update .EPOLL_CTL_DEL c ch, { ch with index := removed })
    else (p.update .EPOLL_CTL_MOD c ch, ch)
  else (p.update .EPOLL_CTL_ADD c ch, { ch with index := normal })

/-- `EpollPoller::removeChannel`. -/
def removeChannel (p : EpollPoller Fd) (c : ChanId) (ch : Channel Fd) :
    EpollPoller Fd × Channel Fd :=
  let p := { p with channelMap := Function.update p.channelMap ch.fd none }
  (if ch.index = normal then p.update .EPOLL_CTL_DEL c ch else p, { ch with index := ready })

/-- `Channel::remove`: the mask is cleared first. -/
def remove (p : EpollPoller Fd) (c : ChanId) (ch : Channel Fd) : EpollPoller Fd × Channel Fd :=
  p.removeChannel c { ch with events := .NoneEvent }

/-- What `close(fd)` does to the interest set. -/
def closeFd (p : EpollPoller Fd) (fd : Fd) : EpollPoller Fd :=
  { p with interest := Function.update p.interest fd none }

end Calls

/-- Is the descriptor in one of the two tables? -/
def contains (p : EpollPoller Fd) (fd : Fd) : Bool :=
  (p.interest fd).isSome || (p.channelMap fd).isSome

/-! ### The tables and the status of a channel -/

/-- The poller's tables agree with the status of channel `c`. -/
structure Tracks (p : EpollPoller Fd) (c : ChanId) (ch : Channel Fd) : Prop where
  map_iff : ∀ f, p.channelMap f = some c ↔ f = ch.fd ∧ ch.index ≠ ready
  interest_iff : ∀ f e, p.interest f = some (c, e) ↔ f = ch.fd ∧ ch.index = normal ∧ e = ch.events
  status : ch.index = ready ∨ ch.index = normal ∨ ch.index = removed

/-- No other channel is in the interest set under the descriptor. -/
def Free (p : EpollPoller Fd) (c : ChanId) (fd : Fd) : Prop :=
  ∀ d e, p.interest fd = some (d, e) → d = c

/-- No other channel is in one of the tables. -/
structure Only (p : EpollPoller Fd) (c : ChanId) : Prop where
  map : ∀ fd d, p.channelMap fd = some d → d = c
  interest : ∀ fd d e, p.interest fd = some (d, e) → d = c

/-- The channel is in neither table. -/
def Gone (p : EpollPoller Fd) (c : ChanId) : Prop :=
  (∀ f, p.channelMap f ≠ some c) ∧ ∀ f e, p.interest f ≠ some (c, e)

variable {p : EpollPoller Fd} {c d : ChanId} {ch other : Channel Fd} {fd : Fd} {e : Events}

/-- A channel that says `ready` is in neither table. -/
theorem Tracks.gone (h : p.Tracks c ch) (hready : ch.index = ready) : p.Gone c := by
  refine ⟨fun f hf => ((h.map_iff f).1 hf).2 hready, fun f e hf => ?_⟩
  have := ((h.interest_iff f e).1 hf).2.1
  rw [hready] at this
  exact absurd this ready_ne_normal

/-- A channel that says anything else is in one of the tables. -/
theorem Tracks.not_gone (h : p.Tracks c ch) (hready : ch.index ≠ ready) : ¬ p.Gone c :=
  fun hg => hg.1 ch.fd ((h.map_iff ch.fd).2 ⟨rfl, hready⟩)

/-- A channel that is in neither table is tracked with status `ready`. -/
theorem Gone.tracks (h : p.Gone c) (hready : ch.index = ready) : p.Tracks c ch := by
  refine ⟨fun f => ⟨fun hf => absurd hf (h.1 f), fun hf => absurd hready hf.2⟩,
    fun f e => ⟨fun hf => absurd hf (h.2 f e), fun hf => ?_⟩, Or.inl hready⟩
  exact absurd (hready.symm.trans hf.2.1) ready_ne_normal

/-- A new poller has no channel. -/
theorem gone_empty : (empty : EpollPoller Fd).Gone c := by
  simp [Gone, empty]

/-- The mask of the channel in the interest set, when no other channel has its
descriptor there. -/
theorem Tracks.interest_eq (h : p.Tracks c ch) (hfree : p.Free c ch.fd) :
    p.interest ch.fd = if ch.index = normal then some (c, ch.events) else none := by
  split
  case isTrue hn => exact (h.interest_iff _ _).2 ⟨rfl, hn, rfl⟩
  case isFalse hn =>
    refine Option.eq_none_iff_forall_ne_some.2 fun ⟨d, e⟩ hd => ?_
    obtain rfl := hfree d e hd
    exact hn ((h.interest_iff _ _).1 hd).2.1

/-- A poller whose tables differ only under a descriptor that is not the
channel's, and do not name the channel there, still tracks it. -/
theorem Tracks.frame {q : EpollPoller Fd} (h : p.Tracks c ch) (hfd : fd ≠ ch.fd)
    (hmap : ∀ f, q.channelMap f = p.channelMap f ∨ f = fd ∧ q.channelMap f ≠ some c)
    (hint : ∀ f, q.interest f = p.interest f ∨ f = fd ∧ ∀ e, q.interest f ≠ some (c, e)) :
    q.Tracks c ch := by
  refine ⟨fun f => ?_, fun f e => ?_, h.status⟩
  · rcases hmap f with hf | ⟨rfl, hf⟩
    · rw [hf]
      exact h.map_iff f
    · exact ⟨fun hc => absurd hc hf, fun hc => absurd hc.1 hfd⟩
  · rcases hint f with hf | ⟨rfl, hf⟩
    · rw [hf]
      exact h.interest_iff f e
    · exact ⟨fun hc => absurd hc (hf e), fun hc => absurd hc.1 hfd⟩

variable [DecidableEq Fd]

/-- What one `epoll_ctl` does when the descriptor belongs to the channel. -/
theorem interest_update (op : EpollCtl) (f : Fd) :
    (p.update op c ch).interest f =
      if f = ch.fd then
        match op, p.interest ch.fd with
        | .EPOLL_CTL_ADD, none => some (c, ch.events)
        | .EPOLL_CTL_MOD, some _ => some (c, ch.events)
        | .EPOLL_CTL_DEL, some _ => none
        | _, r => r
      else p.interest f := by
  by_cases hf : f = ch.fd
  · subst hf
    cases op <;> cases hp : p.interest ch.fd <;> simp [update, hp]
  · cases op <;> cases hp : p.interest ch.fd <;> simp [update, hp, hf]

/-- `epoll_ctl` does not touch the map of the program. -/
@[simp]
theorem channelMap_update (op : EpollCtl) : (p.update op c ch).channelMap = p.channelMap := by
  unfold update
  split <;> rfl

/-- An update leaves the channel its descriptor. -/
@[simp]
theorem updateChannel_fd : (p.updateChannel c ch).2.fd = ch.fd := by
  unfold updateChannel
  split_ifs <;> rfl

/-- An update leaves the channel its mask. -/
@[simp]
theorem updateChannel_events : (p.updateChannel c ch).2.events = ch.events := by
  unfold updateChannel
  split_ifs <;> rfl

/-- An update leaves the channel registered. -/
theorem updateChannel_index_ne : (p.updateChannel c ch).2.index ≠ ready := by
  unfold updateChannel
  split_ifs with h1 h2 h3
  · exact normal_ne_ready
  · exact removed_ne_ready
  · exact h1
  · exact normal_ne_ready

/-- A channel whose mask is not empty has status `normal` after an update. -/
theorem updateChannel_index_of_event (he : ch.events ≠ .NoneEvent) :
    (p.updateChannel c ch).2.index = normal := by
  unfold updateChannel
  split_ifs with h1 h2 h3
  · rfl
  · exact absurd (Channel.isNoneEvent_iff.1 h3) he
  · exact h2
  · rfl

/-- The interest set under the channel's descriptor after an update. -/
theorem updateChannel_interest (h : p.Tracks c ch) (hfree : p.Free c ch.fd) (f : Fd) :
    (p.updateChannel c { ch with events := e }).1.interest f =
      if f = ch.fd then
        if (p.updateChannel c { ch with events := e }).2.index = normal then some (c, e) else none
      else p.interest f := by
  have hint := h.interest_eq hfree
  by_cases hf : f = ch.fd
  · subst hf
    unfold updateChannel
    rcases h.status with hs | hs | hs
    · simp [hs, interest_update, hint]
    · by_cases hn : e = .NoneEvent
      · simp [hs, interest_update, hint, hn]
      · simp [hs, interest_update, hint, hn]
    · simp [hs, interest_update, hint]
  · unfold updateChannel
    split_ifs <;> simp_all [interest_update]

/-- What the map has after an update: a channel that was new is under its
descriptor. -/
theorem updateChannel_channelMap (f : Fd) :
    (p.updateChannel c ch).1.channelMap f =
      if f = ch.fd ∧ ch.index = ready then some c else p.channelMap f := by
  unfold updateChannel
  split_ifs <;> simp_all

/-- An update leaves one of the two registered statuses. -/
theorem updateChannel_status :
    (p.updateChannel c ch).2.index = normal ∨ (p.updateChannel c ch).2.index = removed := by
  unfold EpollPoller.updateChannel
  split_ifs with h1 h2 h3
  · exact Or.inl rfl
  · exact Or.inr rfl
  · exact Or.inl h2
  · exact Or.inl rfl

/-- `EPOLL_CTL_MOD` of a descriptor that is not in the set changes nothing. -/
theorem updateChannel_of_missing (hindex : ch.index = normal) (he : ch.events ≠ .NoneEvent)
    (hnone : p.interest ch.fd = none) : (p.updateChannel c ch).1 = p := by
  unfold EpollPoller.updateChannel
  rw [if_neg (by rw [hindex]; exact normal_ne_ready), if_pos hindex,
    if_neg fun hn => he (Channel.isNoneEvent_iff.1 hn)]
  unfold update
  rw [hnone]

/-- **An update keeps the tables in agreement.** -/
theorem Tracks.updateChannel (h : p.Tracks c ch) (hfree : p.Free c ch.fd) (e : Events) :
    (p.updateChannel c { ch with events := e }).1.Tracks c
        (p.updateChannel c { ch with events := e }).2 ∧
      (p.updateChannel c { ch with events := e }).1.Free c ch.fd := by
  have hne : (p.updateChannel c { ch with events := e }).2.index ≠ ready := updateChannel_index_ne
  have hstatus : (p.updateChannel c { ch with events := e }).2.index = normal ∨
      (p.updateChannel c { ch with events := e }).2.index = removed := updateChannel_status
  have hfd : (p.updateChannel c { ch with events := e }).2.fd = ch.fd := updateChannel_fd
  have hev : (p.updateChannel c { ch with events := e }).2.events = e := updateChannel_events
  have hmap : ∀ f, (p.updateChannel c { ch with events := e }).1.channelMap f =
      if f = ch.fd ∧ ch.index = ready then some c else p.channelMap f := updateChannel_channelMap
  have hint := updateChannel_interest (e := e) h hfree
  generalize p.updateChannel c { ch with events := e } = r at *
  refine ⟨⟨fun f => ?_, fun f e' => ?_, Or.inr hstatus⟩, fun d e' hd => ?_⟩
  · rw [hmap, hfd]
    by_cases hs : f = ch.fd ∧ ch.index = ready
    · simp [hs, hne]
    · rw [if_neg hs, h.map_iff f]
      exact and_congr_right fun hf => iff_of_true (fun hi => hs ⟨hf, hi⟩) hne
  · rw [hint, hfd, hev]
    split_ifs with hf hn
    · simp [hf, hn, eq_comm]
    · simp [hn]
    · rw [h.interest_iff]
      exact iff_of_false (fun hc => hf hc.1) fun hc => hf hc.1
  · rw [hint, if_pos rfl] at hd
    split_ifs at hd
    simp_all

/-- What the map has after a removal: nothing under the descriptor. -/
theorem remove_channelMap (f : Fd) :
    (p.remove c ch).1.channelMap f = if f = ch.fd then none else p.channelMap f := by
  unfold EpollPoller.remove removeChannel
  dsimp only
  split_ifs <;> simp_all

/-- **A removed channel is in neither table.** -/
theorem Tracks.remove (h : p.Tracks c ch) : (p.remove c ch).1.Gone c := by
  refine ⟨fun f hf => ?_, fun f e hf => ?_⟩
  · rw [remove_channelMap] at hf
    split_ifs at hf with hfd
    exact hfd ((h.map_iff f).1 hf).1
  · unfold EpollPoller.remove removeChannel at hf
    dsimp only at hf
    split_ifs at hf with hn
    · rw [interest_update] at hf
      by_cases hfd : f = ch.fd
      · subst hfd
        have := (h.interest_iff ch.fd ch.events).2 ⟨rfl, hn, rfl⟩
        simp [this] at hf
      · simp only [hfd, ↓reduceIte] at hf
        exact hfd ((h.interest_iff f e).1 hf).1
    · exact hn ((h.interest_iff f e).1 hf).2.1

/-- A removal takes no descriptor. -/
theorem Free.remove (h : p.Free c fd) : (p.remove c ch).1.Free c fd := by
  intro d e hd
  unfold EpollPoller.remove removeChannel at hd
  dsimp only at hd
  split_ifs at hd with hn
  · rw [interest_update] at hd
    split_ifs at hd with hf
    · subst hf
      cases hp : p.interest ch.fd with
      | none => simp [hp] at hd
      | some r => simp [hp] at hd
    · exact h d e hd
  · exact h d e hd

/-! ### Calls of other channels, and `close` -/

/-- An `epoll_ctl` call writes the entry of its own descriptor: it is cleared or
gets the caller's pointer. -/
theorem interest_update_cases (p : EpollPoller Fd) (other : Channel Fd) (op : EpollCtl) (f : Fd) :
    (p.update op d other).interest f = p.interest f ∨
      f = other.fd ∧ ∀ c e, (p.update op d other).interest f = some (c, e) → c = d := by
  rw [interest_update]
  split_ifs with hf
  · cases op <;> cases hp : p.interest other.fd <;> simp_all
  · exact Or.inl rfl

/-- An update changes the interest set at the descriptor of its channel at most,
and puts nothing there but that channel. -/
theorem updateChannel_interest_cases (p : EpollPoller Fd) (d : ChanId) (other : Channel Fd)
    (f : Fd) :
    (p.updateChannel d other).1.interest f = p.interest f ∨
      f = other.fd ∧ ∀ c e, (p.updateChannel d other).1.interest f = some (c, e) → c = d := by
  unfold updateChannel
  split_ifs <;> exact interest_update_cases _ _ _ f

/-- A removal changes the interest set at the descriptor of its channel at most,
and puts nothing there but that channel. -/
theorem remove_interest_cases (p : EpollPoller Fd) (d : ChanId) (other : Channel Fd) (f : Fd) :
    (p.remove d other).1.interest f = p.interest f ∨
      f = other.fd ∧ ∀ c e, (p.remove d other).1.interest f = some (c, e) → c = d := by
  unfold EpollPoller.remove removeChannel
  dsimp only
  split_ifs
  · exact interest_update_cases _ { other with events := .NoneEvent } _ f
  · exact Or.inl rfl

/-- An update of another channel with another descriptor leaves both tables in
agreement with this one. -/
theorem Tracks.updateChannel_other (h : p.Tracks c ch) (hd : d ≠ c) (hfd : other.fd ≠ ch.fd) :
    (p.updateChannel d other).1.Tracks c ch := by
  refine h.frame hfd (fun f => ?_) (fun f => ?_)
  · rw [updateChannel_channelMap]
    split_ifs with hf
    · exact Or.inr ⟨hf.1, by simpa using hd⟩
    · exact Or.inl rfl
  · exact (updateChannel_interest_cases p d other f).imp_right fun hf =>
      ⟨hf.1, fun e hc => hd (hf.2 c e hc).symm⟩

/-- A removal of another channel with another descriptor leaves both tables in
agreement with this one. -/
theorem Tracks.remove_other (h : p.Tracks c ch) (hd : d ≠ c) (hfd : other.fd ≠ ch.fd) :
    (p.remove d other).1.Tracks c ch := by
  refine h.frame hfd (fun f => ?_) (fun f => ?_)
  · rw [remove_channelMap]
    split_ifs with hf
    · exact Or.inr ⟨hf, by simp⟩
    · exact Or.inl rfl
  · exact (remove_interest_cases p d other f).imp_right fun hf =>
      ⟨hf.1, fun e hc => hd (hf.2 c e hc).symm⟩

/-- An update of a channel with another descriptor does not take this one. -/
theorem Free.updateChannel_other (h : p.Free c fd) (hfd : other.fd ≠ fd) :
    (p.updateChannel d other).1.Free c fd := by
  intro b e hb
  rcases updateChannel_interest_cases p d other fd with hf | ⟨hf, -⟩
  · exact h b e (hf ▸ hb)
  · exact absurd hf.symm hfd

/-- A removal of a channel with another descriptor does not take this one. -/
theorem Free.remove_other (h : p.Free c fd) (hfd : other.fd ≠ fd) :
    (p.remove d other).1.Free c fd := by
  intro b e hb
  rcases remove_interest_cases p d other fd with hf | ⟨hf, -⟩
  · exact h b e (hf ▸ hb)
  · exact absurd hf.symm hfd

/-- A channel that is gone stays so when any descriptor is closed. -/
theorem Gone.closeFd (h : p.Gone c) (fd : Fd) : (p.closeFd fd).Gone c := by
  refine ⟨h.1, fun f e hf => ?_⟩
  unfold EpollPoller.closeFd at hf
  dsimp only at hf
  rw [Function.update_apply] at hf
  split_ifs at hf
  exact h.2 f e hf

/-- Closing another descriptor takes only that one out of the kernel's interest
set. -/
theorem Tracks.closeFd_other (h : p.Tracks c ch) (hfd : fd ≠ ch.fd) :
    (p.closeFd fd).Tracks c ch := by
  refine h.frame hfd (fun f => Or.inl rfl) (fun f => ?_)
  unfold EpollPoller.closeFd
  dsimp only
  rw [Function.update_apply]
  split_ifs with hf
  · exact Or.inr ⟨hf, fun e he => by cases he⟩
  · exact Or.inl rfl

/-! ### A poller with one channel -/

omit [DecidableEq Fd] in
/-- A new poller has no channel at all, so none but `c`. -/
theorem only_empty : (empty : EpollPoller Fd).Only c :=
  ⟨fun _ _ h => (by cases h), fun _ _ _ h => (by cases h)⟩

omit [DecidableEq Fd] in
/-- A poller with no channel but `c` has every descriptor free for it. -/
theorem Only.free (h : p.Only c) : p.Free c fd := h.interest fd

omit [DecidableEq Fd] in
/-- When the only channel is gone, the tables are empty. -/
theorem Only.contains_eq_false (h : p.Only c) (hgone : p.Gone c) : p.contains fd = false := by
  have hint : p.interest fd = none := by
    refine Option.eq_none_iff_forall_ne_some.2 fun ⟨d, e⟩ hd => ?_
    obtain rfl := h.interest fd d e hd
    exact hgone.2 fd e hd
  have hmap : p.channelMap fd = none := by
    refine Option.eq_none_iff_forall_ne_some.2 fun d hd => ?_
    obtain rfl := h.map fd d hd
    exact hgone.1 fd hd
  simp [contains, hint, hmap]

/-- Updates of `c` bring no other channel. -/
theorem Only.updateChannel (h : p.Only c) : (p.updateChannel c ch).1.Only c := by
  refine ⟨fun f d hd => ?_, fun f d e hd => ?_⟩
  · rw [updateChannel_channelMap] at hd
    split_ifs at hd
    · exact (Option.some.inj hd).symm
    · exact h.map f d hd
  · rcases updateChannel_interest_cases p c ch f with hf | ⟨-, hf⟩
    · exact h.interest f d e (hf ▸ hd)
    · exact hf d e hd

/-- Removing `c` brings no other channel. -/
theorem Only.remove (h : p.Only c) : (p.remove c ch).1.Only c := by
  refine ⟨fun f d hd => ?_, fun f d e hd => ?_⟩
  · rw [remove_channelMap] at hd
    split_ifs at hd
    exact h.map f d hd
  · rcases remove_interest_cases p c ch f with hf | ⟨-, hf⟩
    · exact h.interest f d e (hf ▸ hd)
    · exact hf d e hd

/-- Closing a descriptor brings no channel. -/
theorem Only.closeFd (h : p.Only c) (fd : Fd) : (p.closeFd fd).Only c := by
  refine ⟨h.map, fun f d e hd => ?_⟩
  unfold EpollPoller.closeFd at hd
  dsimp only at hd
  rw [Function.update_apply] at hd
  split_ifs at hd
  exact h.interest f d e hd

end EpollPoller

end Net
end Sevent
