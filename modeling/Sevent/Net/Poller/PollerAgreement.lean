/-
# Three pollers, one interest set

`EpollPoller`, `PollPoller` and `SelectPoller` keep what the next poll looks at
in different forms: the kernel's interest set, an array with negated
descriptors, three sets built from a map.  `Backends` runs the three on the
same calls of the same channels, each with its own `index` in a channel.
`wanted` is what all of them stand for: the masks of the channels that were
updated and not removed since, without the empty ones.

They do not always agree.  A channel whose mask is empty is taken out of the
interest set by `EpollPoller` only when it was in there with events; its first
update with an empty mask, and the second of two such updates, put it into the
set with an empty mask, for which the kernel still reports errors and hang-ups,
and the first one does the same in `PollPoller`.  And `PollPoller` loses track
of the slots when a channel is removed.  `agree_iff` shows that this is all.
-/

import Sevent.Net.Poller.EpollPoller
import Sevent.Net.Poller.PollPoller
import Sevent.Net.Poller.SelectPoller
import Mathlib.Data.List.Perm.Basic
import Mathlib.Data.Finset.Card

namespace Sevent
namespace Net

open Transition

/-- What `epoll_wait` looks at. -/
def EpollPoller.monitored (p : EpollPoller ℤ) : Set (ℤ × Events) :=
  { x | ∃ c, p.interest x.1 = some (c, x.2) }

/-- What `poll` looks at: it ignores entries with a negative descriptor. -/
def PollPoller.monitored (p : PollPoller) : Set (ℤ × Events) :=
  { x | 0 ≤ x.1 ∧ { fd := x.1, events := x.2 } ∈ p.pollfdList }

namespace Pollers

/-- The methods of `Channel` that change the mask. -/
inductive Toggle
  | enableReadEvent
  | enableWriteEvent
  | disableReadEvent
  | disableWriteEvent
  | disableAll
  deriving DecidableEq

/-- The mask of a channel after the method. -/
def Toggle.mask (events : Events) : Toggle → Events
  | .enableReadEvent => events.union .ReadEvent
  | .enableWriteEvent => events.union .WriteEvent
  | .disableReadEvent => events.diff .ReadEvent
  | .disableWriteEvent => events.diff .WriteEvent
  | .disableAll => .NoneEvent

/-- A call of a channel's owner: one of the methods above, or `remove`. -/
inductive Call
  | toggle (c : ChanId) (t : Toggle)
  | remove (c : ChanId)
  deriving DecidableEq

/-- The three pollers with the same channels.  `live` holds the channels updated
and not removed since; `asserted` says that every assert of `PollPoller` has
held so far. -/
structure Backends where
  channels : Finset ChanId
  fd : ChanId → ℤ
  events : ChanId → Events
  epoll : EpollPoller ℤ
  poll : PollPoller
  select : SelectPoller
  epollIndex : ChanId → ℤ
  pollIndex : ChanId → ℤ
  selectIndex : ChanId → ℤ
  live : Finset ChanId
  asserted : Bool

/-- A channel as a poller sees it. -/
def Backends.channel (w : Backends) (index : ChanId → ℤ) (c : ChanId) : Channel ℤ :=
  { fd := w.fd c, events := w.events c, index := index c }

/-- `Channel::updateEvent` with a new mask, on each of the pollers. -/
def Backends.update (w : Backends) (c : ChanId) (events : Events) : Backends :=
  let w := { w with events := Function.update w.events c events }
  let e := w.epoll.updateChannel c (w.channel w.epollIndex c)
  let p := w.poll.updateChannel c (w.channel w.pollIndex c)
  let s := w.select.updateChannel c (w.channel w.selectIndex c)
  { w with
    epoll := e.1
    poll := p.1
    select := s.1
    epollIndex := Function.update w.epollIndex c e.2.index
    pollIndex := Function.update w.pollIndex c p.2.index
    selectIndex := Function.update w.selectIndex c s.2.index
    live := insert c w.live
    asserted := w.asserted && w.poll.updateAsserts c (w.channel w.pollIndex c) }

/-- `Channel::remove`, on each of the pollers. -/
def Backends.remove (w : Backends) (c : ChanId) : Backends :=
  let w := { w with events := Function.update w.events c .NoneEvent }
  let e := w.epoll.removeChannel c (w.channel w.epollIndex c)
  let p := w.poll.removeChannel (w.channel w.pollIndex c)
  let s := w.select.removeChannel (w.channel w.selectIndex c)
  { w with
    epoll := e.1
    poll := p.1
    select := s.1
    epollIndex := Function.update w.epollIndex c e.2.index
    pollIndex := Function.update w.pollIndex c p.2.index
    selectIndex := Function.update w.selectIndex c s.2.index
    live := w.live.erase c
    asserted := w.asserted && w.poll.removeAsserts (w.channel w.pollIndex c) }

/-- One call of a channel that exists. -/
def step (w : Backends) : Call → Option Backends
  | .toggle c t => if c ∈ w.channels then some (w.update c (t.mask (w.events c))) else none
  | .remove c => if c ∈ w.channels then some (w.remove c) else none

/-- Pollers without channels, and channels without events. -/
def init (channels : Finset ChanId) (fd : ChanId → ℤ) : Backends where
  channels := channels
  fd := fd
  events := fun _ => .NoneEvent
  epoll := .empty
  poll := { pollfdList := [], channelMap := fun _ => none }
  select := { channelMap := [] }
  epollIndex := fun _ => -1
  pollIndex := fun _ => -1
  selectIndex := fun _ => -1
  live := ∅
  asserted := true

/-- What the next poll should look at. -/
def wanted (w : Backends) : Set (ℤ × Events) :=
  { x | ∃ c ∈ w.live, w.fd c = x.1 ∧ w.events c = x.2 ∧ w.events c ≠ .NoneEvent }

/-- The three pollers look at what they should, and the program has not been
stopped by an assert. -/
structure Agree (w : Backends) : Prop where
  epoll : w.epoll.monitored = wanted w
  poll : w.poll.monitored = wanted w
  select : w.select.monitored (w.channel w.selectIndex) = wanted w
  asserts : w.asserted = true

/-- The index that `PollPoller` has left in a channel is right: the slot of the
channel's entry when it is registered, negative when it is not. -/
def Placed (w : Backends) (c : ChanId) : Prop :=
  if c ∈ w.live then
    0 ≤ w.pollIndex c ∧ ∃ pfd, w.poll.pollfdList[(w.pollIndex c).toNat]? = some pfd ∧
      (pfd.fd = w.fd c ∨ pfd.fd = -w.fd c - 1)
  else w.pollIndex c < 0

/-- The condition on a call: its channel is placed, and a mask becomes empty
only for a registered channel whose mask was not. -/
def Good (w : Backends) : Call → Prop
  | .toggle c t => c ∈ w.channels → Placed w c ∧
    (t.mask (w.events c) = .NoneEvent → c ∈ w.live ∧ w.events c ≠ .NoneEvent)
  | .remove c => c ∈ w.channels → Placed w c

/-- The status of a channel in `EpollPoller` and `SelectPoller`. -/
def status (w : Backends) (c : ChanId) : ℤ :=
  if c ∈ w.live then
    if w.events c = .NoneEvent then EpollPoller.removed else EpollPoller.normal
  else EpollPoller.ready

/-- The entry of a channel in `pollfdList`. -/
def slot (w : Backends) (c : ChanId) : PollFd := PollPoller.entry (w.channel w.pollIndex c)

/-- What good calls keep. -/
structure Inv (w : Backends) : Prop where
  distinct : ∀ c ∈ w.channels, ∀ d ∈ w.channels, w.fd c = w.fd d → c = d
  nonneg : ∀ c ∈ w.channels, 0 ≤ w.fd c
  few : w.channels.card < SelectPoller.FD_SETSIZE
  sub : w.live ⊆ w.channels
  tracks : ∀ c ∈ w.channels, w.epoll.Tracks c (w.channel w.epollIndex c)
  owned : ∀ f c e, w.epoll.interest f = some (c, e) → c ∈ w.channels
  epollIndex : ∀ c ∈ w.channels, w.epollIndex c = status w c
  selectIndex : ∀ c ∈ w.channels, w.selectIndex c = status w c
  slots : w.poll.pollfdList.Perm (w.live.toList.map (slot w))
  pollIndex : ∀ c ∈ w.live, 0 ≤ w.pollIndex c
  pollMap : ∀ f c, w.poll.channelMap f = some c ↔ c ∈ w.live ∧ w.fd c = f
  selectMap : w.select.channelMap.Perm (w.live.toList.map fun c => (w.fd c, c))
  asserts : w.asserted = true

variable {w : Backends} {c d : ChanId}

/-! ### What the pollers look at -/

/-- What all three pollers stand for: the registered channels' descriptors and
masks that are not empty. -/
theorem mem_wanted {fd : ℤ} {events : Events} : (fd, events) ∈ wanted w ↔
    ∃ c ∈ w.live, w.fd c = fd ∧ w.events c = events ∧ w.events c ≠ .NoneEvent := Iff.rfl

/-- `EpollPoller` has a channel in its interest set exactly when it is live with
a mask that is not empty. -/
theorem status_eq_normal : status w c = EpollPoller.normal ↔
    c ∈ w.live ∧ w.events c ≠ .NoneEvent := by
  unfold status
  split_ifs with hlive hnone
  · simp [hnone]
  · exact iff_of_true rfl ⟨hlive, hnone⟩
  · simp [hlive]

/-- A channel is new to `EpollPoller`, or removed, exactly when it is not live. -/
theorem status_eq_ready : status w c = EpollPoller.ready ↔ c ∉ w.live := by
  unfold status
  split_ifs with hlive hnone
  · simp [hlive]
  · simp [hlive]
  · exact iff_of_true rfl hlive

/-- Under the invariant, `epoll_wait` looks at what is wanted. -/
theorem monitored_epoll (h : Inv w) : w.epoll.monitored = wanted w := by
  ext ⟨fd, events⟩
  rw [mem_wanted]
  constructor
  · rintro ⟨c, hc⟩
    have hmem := h.owned fd c events hc
    obtain ⟨hfd, hnormal, hevents⟩ := ((h.tracks c hmem).interest_iff fd events).1 hc
    have hstatus := status_eq_normal.1 ((h.epollIndex c hmem).symm.trans hnormal)
    exact ⟨c, hstatus.1, hfd.symm, hevents.symm, hstatus.2⟩
  · rintro ⟨c, hlive, rfl, rfl, hne⟩
    have hmem := h.sub hlive
    have hnormal := (h.epollIndex c hmem).trans (status_eq_normal.2 ⟨hlive, hne⟩)
    exact ⟨c, ((h.tracks c hmem).interest_iff _ _).2 ⟨rfl, hnormal, rfl⟩⟩

/-- The descriptor of a slot: the channel's own, or its negation less one, which
`poll` ignores, when the mask is empty. -/
theorem slot_fd (w : Backends) (c : ChanId) : (slot w c).fd =
    if w.events c = .NoneEvent then -w.fd c - 1 else w.fd c := by
  by_cases h : w.events c = .NoneEvent <;>
    simp [slot, PollPoller.entry, Backends.channel, Channel.isNoneEvent, h]

/-- Under the invariant, `poll` looks at what is wanted: an entry with an empty
mask has a negative descriptor, and any other is the channel's. -/
theorem monitored_poll (h : Inv w) : w.poll.monitored = wanted w := by
  ext ⟨fd, events⟩
  rw [mem_wanted]
  unfold PollPoller.monitored
  simp only [Set.mem_ofPred_eq, h.slots.mem_iff, List.mem_map, Finset.mem_toList]
  constructor
  · rintro ⟨hpos, c, hlive, hslot⟩
    have hnonneg := h.nonneg c (h.sub hlive)
    have hfd := (slot_fd w c).symm.trans (congrArg PollFd.fd hslot)
    have hevents : w.events c = events := congrArg PollFd.events hslot
    by_cases hnone : w.events c = .NoneEvent
    · rw [if_pos hnone] at hfd
      dsimp only at hfd
      omega
    · rw [if_neg hnone] at hfd
      exact ⟨c, hlive, hfd, hevents, hnone⟩
  · rintro ⟨c, hlive, rfl, rfl, hne⟩
    have hfd : (slot w c).fd = w.fd c := by rw [slot_fd, if_neg hne]
    refine ⟨h.nonneg c (h.sub hlive), c, hlive, ?_⟩
    rw [← hfd]
    rfl

/-- Under the invariant, `select` looks at what is wanted: `fillActiveChannels`
builds the sets from the map, and a mask that is empty puts a descriptor into
none. -/
theorem monitored_select (h : Inv w) :
    w.select.monitored (w.channel w.selectIndex) = wanted w := by
  have hlen : w.select.channelMap.length < SelectPoller.FD_SETSIZE := by
    rw [h.selectMap.length_eq, List.length_map, Finset.length_toList]
    exact (Finset.card_le_card h.sub).trans_lt h.few
  have hentry : ∀ e, e ∈ w.select.channelMap ↔ e.2 ∈ w.live ∧ w.fd e.2 = e.1 := by
    rintro ⟨f, c⟩
    simp only [h.selectMap.mem_iff, List.mem_map, Finset.mem_toList, Prod.mk.injEq]
    exact ⟨fun ⟨d, hd, hfd, hdc⟩ => hdc ▸ ⟨hd, hfd⟩, fun ⟨hc, hfd⟩ => ⟨c, hc, hfd, rfl⟩⟩
  ext ⟨fd, events⟩
  rw [mem_wanted, SelectPoller.mem_monitored w.select _ hlen]
  · constructor
    · rintro ⟨e, he, hnormal, rfl, rfl, hne⟩
      exact ⟨e.2, ((hentry e).1 he).1, rfl, rfl, hne⟩
    · rintro ⟨c, hlive, rfl, rfl, hne⟩
      have hnormal := (h.selectIndex c (h.sub hlive)).trans (status_eq_normal.2 ⟨hlive, hne⟩)
      exact ⟨(w.fd c, c), (hentry _).2 ⟨hlive, rfl⟩, hnormal, rfl, rfl, hne⟩
  · intro e he e' he' hfd
    exact h.distinct _ (h.sub ((hentry e).1 he).1) _ (h.sub ((hentry e').1 he').1) hfd

/-- **Under the invariant the pollers agree.** -/
theorem Inv.agree (h : Inv w) : Agree w :=
  ⟨monitored_epoll h, monitored_poll h, monitored_select h, h.asserts⟩

/-! ### One poller at a time -/

/-- An update leaves `removed` for a channel that lost its last event, and
`normal` for every other. -/
theorem epoll_index (p : EpollPoller ℤ) (c : ChanId) (ch : Channel ℤ) :
    (p.updateChannel c ch).2.index =
      if ch.index = EpollPoller.normal ∧ ch.events = .NoneEvent then EpollPoller.removed
      else EpollPoller.normal := by
  unfold EpollPoller.updateChannel
  split_ifs <;> simp_all [Channel.isNoneEvent]

/-- What an update leaves in a channel's index under `SelectPoller`, which uses
the values of `EpollPoller` for it. -/
theorem select_index (p : SelectPoller) (c : ChanId) (ch : Channel ℤ) :
    (p.updateChannel c ch).2.index =
      if ch.index = EpollPoller.normal ∧ ch.events = .NoneEvent then EpollPoller.removed
      else EpollPoller.normal := by
  have hready : SelectPoller.ready = EpollPoller.ready := rfl
  have hnormal : SelectPoller.normal = EpollPoller.normal := rfl
  have hremoved : SelectPoller.removed = EpollPoller.removed := rfl
  unfold SelectPoller.updateChannel
  rw [hready, hnormal, hremoved]
  split_ifs <;> simp_all [Channel.isNoneEvent]

/-- A first update of `PollPoller` appends an entry. -/
theorem poll_append (p : PollPoller) (c : ChanId) {ch : Channel ℤ} (h : ch.index < 0) :
    (p.updateChannel c ch).1 =
      { pollfdList := p.pollfdList ++ [{ fd := ch.fd, events := ch.events }]
        channelMap := Function.update p.channelMap ch.fd (some c) } := by
  unfold PollPoller.updateChannel
  rw [if_pos h]

/-- Every other one writes the channel's slot. -/
theorem poll_set (p : PollPoller) (c : ChanId) {ch : Channel ℤ} (h : ¬ ch.index < 0) :
    (p.updateChannel c ch).1 =
      { p with pollfdList := p.pollfdList.set ch.index.toNat (PollPoller.entry ch) } := by
  unfold PollPoller.updateChannel
  rw [if_neg h]

/-- A first update of `SelectPoller` enters the channel into the map. -/
theorem select_insert (p : SelectPoller) (c : ChanId) {ch : Channel ℤ}
    (h : ch.index = SelectPoller.ready) :
    (p.updateChannel c ch).1.channelMap = p.channelMap.set ch.fd c := by
  unfold SelectPoller.updateChannel
  rw [if_pos h]

/-- Every other one leaves the map. -/
theorem select_keep (p : SelectPoller) (c : ChanId) {ch : Channel ℤ}
    (h : ¬ ch.index = SelectPoller.ready) : (p.updateChannel c ch).1 = p := by
  unfold SelectPoller.updateChannel
  rw [if_neg h]
  split_ifs <;> rfl

/-- The index of a channel after an update is a slot. -/
theorem poll_index_nonneg (p : PollPoller) (c : ChanId) (ch : Channel ℤ) :
    0 ≤ (p.updateChannel c ch).2.index := by
  unfold PollPoller.updateChannel
  split_ifs with hneg
  · simp
  · exact not_lt.1 hneg

/-- A channel without an index is one that the poller does not have. -/
theorem Placed.index_iff (h : Placed w c) : w.pollIndex c < 0 ↔ c ∉ w.live := by
  unfold Placed at h
  split_ifs at h with hlive
  · exact iff_of_false (Int.not_lt.2 h.1) (not_not.2 hlive)
  · exact iff_of_true h hlive

/-- The entry of a registered channel is nobody else's. -/
theorem slot_unique (h : Inv w) (hc : c ∈ w.channels) (hd : d ∈ w.live)
    (hfd : (slot w d).fd = w.fd c ∨ (slot w d).fd = -w.fd c - 1) : d = c := by
  have hcpos := h.nonneg c hc
  have hdpos := h.nonneg d (h.sub hd)
  refine h.distinct d (h.sub hd) c hc ?_
  rw [slot_fd] at hfd
  split_ifs at hfd <;> omega

/-- The array without the entry of a placed channel. -/
theorem slots_erase (h : Inv w) (hc : c ∈ w.live) (hplaced : Placed w c) :
    (w.pollIndex c).toNat < w.poll.pollfdList.length ∧
      (w.poll.pollfdList.eraseIdx (w.pollIndex c).toNat).Perm
        ((w.live.erase c).toList.map (slot w)) := by
  unfold Placed at hplaced
  rw [if_pos hc] at hplaced
  obtain ⟨-, pfd, hpfd, hfd⟩ := hplaced
  obtain ⟨hlt, hget⟩ := List.getElem?_eq_some_iff.1 hpfd
  refine ⟨hlt, ?_⟩
  -- the entry is the channel's own
  have hown : pfd = slot w c := by
    have hmem := h.slots.mem_iff.1 (hget ▸ List.getElem_mem hlt)
    obtain ⟨d, hd, rfl⟩ := List.mem_map.1 hmem
    rw [slot_unique h (h.sub hc) (Finset.mem_toList.1 hd) hfd]
  have hlive : w.live.toList.Perm (c :: (w.live.erase c).toList) := by
    have hins := Finset.toList_insert (Finset.notMem_erase c w.live)
    rwa [Finset.insert_erase hc] at hins
  have hall := (List.getElem_cons_eraseIdx_perm hlt).trans (h.slots.trans (hlive.map (slot w)))
  rw [hget, hown, List.map_cons] at hall
  exact hall.cons_inv

/-- Moving the last entry into a slot and dropping the last one removes the
slot. -/
theorem swap_pop_perm {α : Type*} {l : List α} {k : ℕ} (hk : k + 1 < l.length) {last : α}
    (hlast : l.getLast? = some last) : (l.set k last).dropLast.Perm (l.eraseIdx k) := by
  obtain ⟨init, rfl⟩ : ∃ init, l = init ++ [last] :=
    ⟨l.dropLast, (List.dropLast_append_getLast? last hlast).symm⟩
  rw [List.length_append, List.length_singleton] at hk
  have hinit : k < init.length := by omega
  rw [List.set_append_left _ _ hinit, List.dropLast_concat, List.eraseIdx_append_of_lt_length hinit]
  exact (List.set_perm_cons_eraseIdx hinit last).trans (List.perm_append_singleton last _).symm

/-- The removal of a channel with a negative index returns at once. -/
theorem poll_remove_skip (p : PollPoller) {ch : Channel ℤ} (h : ch.index < 0) :
    (p.removeChannel ch).1 = p := by
  unfold PollPoller.removeChannel
  rw [if_pos h]

/-- `removeChannel` takes the descriptor of the channel out of the map. -/
theorem poll_remove_map (p : PollPoller) {ch : Channel ℤ} (h : ¬ ch.index < 0) :
    (p.removeChannel ch).1.channelMap = Function.update p.channelMap ch.fd none := by
  unfold PollPoller.removeChannel
  rw [if_neg h]
  dsimp only
  split_ifs <;> rfl

/-- Every other one takes out the slot. -/
theorem poll_remove_list (p : PollPoller) {ch : Channel ℤ} (h : ¬ ch.index < 0)
    (hlt : ch.index.toNat < p.pollfdList.length) (hlen : p.pollfdList.length < 2 ^ 64) :
    (p.removeChannel ch).1.pollfdList.Perm (p.pollfdList.eraseIdx ch.index.toNat) := by
  have hsize : Bytes.subSize p.pollfdList.length 1 = p.pollfdList.length - 1 :=
    Bytes.subSize_of_le (by omega) hlen
  unfold PollPoller.removeChannel
  rw [if_neg h, hsize]
  by_cases hlast : ch.index.toNat = p.pollfdList.length - 1
  · rw [if_pos hlast, hlast, List.eraseIdx_length_sub_one]
  · obtain ⟨last, hget⟩ : ∃ last, p.pollfdList.getLast? = some last :=
      ⟨_, List.getLast?_eq_some_getLast (List.ne_nil_of_length_pos (by omega))⟩
    rw [if_neg hlast, hget]
    exact swap_pop_perm (by omega) hget

/-! ### Updates -/

section Fields

variable (w : Backends) (c : ChanId) (events : Events)

/-- The channel of an update as a poller sees it. -/
theorem channel_self (index : ChanId → ℤ) :
    { w with events := Function.update w.events c events }.channel index c =
      { w.channel index c with events := events } := by
  simp [Backends.channel]

/-- The interest set after an update of a channel. -/
theorem update_epoll : (w.update c events).epoll =
    (w.epoll.updateChannel c { w.channel w.epollIndex c with events := events }).1 := by
  simp only [Backends.update, channel_self]

/-- Only the updated channel's index changes under `EpollPoller`. -/
theorem update_epollIndex : (w.update c events).epollIndex = Function.update w.epollIndex c
    (w.epoll.updateChannel c { w.channel w.epollIndex c with events := events }).2.index := by
  simp only [Backends.update, channel_self]

/-- The array after an update of a channel. -/
theorem update_poll : (w.update c events).poll =
    (w.poll.updateChannel c { w.channel w.pollIndex c with events := events }).1 := by
  simp only [Backends.update, channel_self]

/-- Only the updated channel's index changes under `PollPoller`. -/
theorem update_pollIndex : (w.update c events).pollIndex = Function.update w.pollIndex c
    (w.poll.updateChannel c { w.channel w.pollIndex c with events := events }).2.index := by
  simp only [Backends.update, channel_self]

/-- The map of `SelectPoller` after an update of a channel. -/
theorem update_select : (w.update c events).select =
    (w.select.updateChannel c { w.channel w.selectIndex c with events := events }).1 := by
  simp only [Backends.update, channel_self]

/-- Only the updated channel's index changes under `SelectPoller`. -/
theorem update_selectIndex : (w.update c events).selectIndex = Function.update w.selectIndex c
    (w.select.updateChannel c { w.channel w.selectIndex c with events := events }).2.index := by
  simp only [Backends.update, channel_self]

/-- The assertions of `PollPoller::updateChannel`, added to those that have held
so far. -/
theorem update_asserted : (w.update c events).asserted = (w.asserted &&
    w.poll.updateAsserts c { w.channel w.pollIndex c with events := events }) := by
  simp only [Backends.update, channel_self]

/-- Only the updated channel's mask changes. -/
theorem update_events : (w.update c events).events = Function.update w.events c events := rfl

/-- An updated channel is live from then on. -/
theorem update_live : (w.update c events).live = insert c w.live := rfl

/-- The channels of the others are as they were. -/
theorem update_channel_ne {d : ChanId} (hd : d ≠ c) :
    (w.update c events).channel (w.update c events).epollIndex d = w.channel w.epollIndex d := by
  simp only [Backends.channel, update_epollIndex, update_events, Function.update_of_ne hd]
  rfl

/-- What `EpollPoller` sees of the channel after the update: the new mask, and
the index that it stored. -/
theorem update_channel_self :
    (w.update c events).channel (w.update c events).epollIndex c =
      (w.epoll.updateChannel c { w.channel w.epollIndex c with events := events }).2 := by
  have hfd : (w.epoll.updateChannel c { w.channel w.epollIndex c with events := events }).2.fd =
      w.fd c := EpollPoller.updateChannel_fd
  have hevents : (w.epoll.updateChannel c
      { w.channel w.epollIndex c with events := events }).2.events = events :=
    EpollPoller.updateChannel_events
  have hindex := congrFun (update_epollIndex w c events) c
  rw [Function.update_self] at hindex
  generalize (w.epoll.updateChannel c { w.channel w.epollIndex c with events := events }).2 = r
    at hfd hevents hindex
  obtain ⟨f, e, i⟩ := r
  dsimp only at hfd hevents hindex
  simp only [Backends.channel, hindex, update_events, Function.update_self, hevents, hfd]
  rfl

/-- The slots of the other channels do not change. -/
theorem update_slot_ne {d : ChanId} (hd : d ≠ c) : slot (w.update c events) d = slot w d := by
  simp only [slot, PollPoller.entry, Backends.channel, Channel.isNoneEvent, update_events,
    Function.update_of_ne hd]
  rfl

/-- The slot of the updated channel is the entry that `updateChannel` writes. -/
theorem update_slot_self : slot (w.update c events) c =
    PollPoller.entry { w.channel w.pollIndex c with events := events } := by
  simp only [slot, PollPoller.entry, Backends.channel, Channel.isNoneEvent, update_events,
    Function.update_self]
  rfl

/-- The entries of channels other than `c` are as they were. -/
theorem map_slot_update {l : List ChanId} (hl : c ∉ l) :
    l.map (slot (w.update c events)) = l.map (slot w) :=
  List.map_congr_left fun _ hd => update_slot_ne w c events fun hdc => hl (hdc ▸ hd)

/-- The status after an update is the one that the two pollers leave. -/
theorem update_status (hempty : events = .NoneEvent → c ∈ w.live ∧ w.events c ≠ .NoneEvent) :
    status (w.update c events) c =
      if status w c = EpollPoller.normal ∧ events = .NoneEvent then EpollPoller.removed
      else EpollPoller.normal := by
  have hlive : c ∈ (w.update c events).live := Finset.mem_insert_self c w.live
  have hevents : (w.update c events).events c = events := Function.update_self ..
  have hnormal : events = .NoneEvent → status w c = EpollPoller.normal :=
    fun hnone => status_eq_normal.2 (hempty hnone)
  unfold status at hnormal ⊢
  rw [if_pos hlive, hevents]
  split_ifs <;> simp_all

/-- The status of the other channels does not change. -/
theorem update_status_ne {d : ChanId} (hd : d ≠ c) :
    status (w.update c events) d = status w d := by
  have hlive : d ∈ (w.update c events).live ↔ d ∈ w.live := by
    rw [update_live, Finset.mem_insert, or_iff_right hd]
  unfold status
  rw [update_events, Function.update_of_ne hd]
  simp only [hlive]

end Fields

section Update

variable (h : Inv w) (hc : c ∈ w.channels) (events : Events)
include h hc

/-- No other channel has the descriptor in the kernel's set. -/
theorem Inv.free : w.epoll.Free c (w.fd c) := by
  intro d e hd
  have hmem := h.owned _ _ _ hd
  have hfd := (((h.tracks d hmem).interest_iff _ _).1 hd).1
  exact h.distinct d hmem c hc hfd.symm

/-- `EpollPoller` keeps track of every channel. -/
theorem tracks_update {d : ChanId} (hd : d ∈ w.channels) :
    (w.update c events).epoll.Tracks d
      ((w.update c events).channel (w.update c events).epollIndex d) := by
  by_cases hdc : d = c
  · subst hdc
    have hself := ((h.tracks d hd).updateChannel (h.free hd) events).1
    rw [update_epoll, update_channel_self]
    exact hself
  · rw [update_epoll, update_channel_ne w c events hdc]
    refine (h.tracks d hd).updateChannel_other (Ne.symm hdc) fun hfd => hdc ?_
    exact (h.distinct c hc d hd hfd).symm

/-- After an update the interest set still has channels of the program only. -/
theorem owned_update {f : ℤ} {d : ChanId} {e : Events}
    (hd : (w.update c events).epoll.interest f = some (d, e)) : d ∈ w.channels := by
  rw [update_epoll] at hd
  rcases EpollPoller.updateChannel_interest_cases w.epoll c
    { w.channel w.epollIndex c with events := events } f with hsame | ⟨-, hown⟩
  · exact h.owned f d e (hsame ▸ hd)
  · rw [hown d e hd]
    exact hc

/-- After an update the index says the status, under `EpollPoller` and
`SelectPoller` alike; an update with an empty mask has to be of a channel that
was in with events, or the two indices part. -/
theorem index_update (hempty : events = .NoneEvent → c ∈ w.live ∧ w.events c ≠ .NoneEvent)
    {d : ChanId} (hd : d ∈ w.channels) :
    (w.update c events).epollIndex d = status (w.update c events) d ∧
      (w.update c events).selectIndex d = status (w.update c events) d := by
  rw [update_epollIndex, update_selectIndex]
  by_cases hdc : d = c
  · subst hdc
    rw [Function.update_self, Function.update_self, epoll_index, select_index,
      update_status w d events hempty]
    simp only [Backends.channel, h.epollIndex d hd, h.selectIndex d hd, and_self]
  · rw [Function.update_of_ne hdc, Function.update_of_ne hdc, update_status_ne w c events hdc]
    exact ⟨h.epollIndex d hd, h.selectIndex d hd⟩

omit hc in
/-- `PollPoller` keeps one entry for each registered channel. -/
theorem slots_update (hplaced : Placed w c)
    (hempty : events = .NoneEvent → c ∈ w.live ∧ w.events c ≠ .NoneEvent) :
    (w.update c events).poll.pollfdList.Perm
      ((w.update c events).live.toList.map (slot (w.update c events))) := by
  rw [update_poll, update_live]
  have hnew := update_slot_self w c events
  by_cases hlive : c ∈ w.live
  · obtain ⟨hlt, herase⟩ := slots_erase h hlive hplaced
    have hindex : ¬ w.pollIndex c < 0 := fun hneg => hplaced.index_iff.1 hneg hlive
    have hins := Finset.toList_insert (Finset.notMem_erase c w.live)
    rw [Finset.insert_erase hlive] at hins
    have hother : c ∉ (w.live.erase c).toList := by simp
    rw [poll_set _ _ hindex, Finset.insert_eq_of_mem hlive]
    -- the slot of the channel is written, and the others stay
    refine (List.set_perm_cons_eraseIdx hlt _).trans ((herase.cons _).trans ?_)
    refine List.Perm.trans ?_ (hins.map _).symm
    rw [List.map_cons, map_slot_update w c events hother, hnew]
  · have hindex : w.pollIndex c < 0 := hplaced.index_iff.2 hlive
    have hother : c ∉ w.live.toList := by simpa using hlive
    have hne : ¬ events = .NoneEvent := fun hnone => hlive (hempty hnone).1
    rw [poll_append _ _ hindex]
    -- the new entry goes to the end
    refine (List.perm_append_singleton _ _).trans ((h.slots.cons _).trans ?_)
    refine List.Perm.trans ?_ ((Finset.toList_insert hlive).map _).symm
    rw [List.map_cons, map_slot_update w c events hother, hnew]
    have hentry : PollPoller.entry { w.channel w.pollIndex c with events := events } =
        { fd := w.fd c, events := events } := by
      simp [PollPoller.entry, Backends.channel, Channel.isNoneEvent, hne]
    rw [hentry]
    exact List.Perm.refl _

omit hc in
/-- Every live channel has a slot after an update. -/
theorem pollIndex_update {d : ChanId} (hd : d ∈ (w.update c events).live) :
    0 ≤ (w.update c events).pollIndex d := by
  rw [update_pollIndex]
  by_cases hdc : d = c
  · subst hdc
    rw [Function.update_self]
    exact poll_index_nonneg _ _ _
  · rw [Function.update_of_ne hdc]
    exact h.pollIndex d (Finset.mem_of_mem_insert_of_ne hd hdc)

/-- After an update the map of `PollPoller` has the live channels under their
descriptors. -/
theorem pollMap_update (hplaced : Placed w c) (f : ℤ) (d : ChanId) :
    (w.update c events).poll.channelMap f = some d ↔
      d ∈ (w.update c events).live ∧ (w.update c events).fd d = f := by
  have hold := h.pollMap f d
  show _ ↔ _ ∧ w.fd d = f
  rw [update_poll, update_live, Finset.mem_insert]
  by_cases hlive : c ∈ w.live
  · rw [poll_set _ _ fun hneg => hplaced.index_iff.1 hneg hlive]
    refine hold.trans (and_congr_left fun _ => ⟨Or.inr, fun hd => ?_⟩)
    exact hd.elim (fun hdc => hdc ▸ hlive) id
  · rw [poll_append _ _ (hplaced.index_iff.2 hlive)]
    dsimp only [Backends.channel]
    by_cases hf : f = w.fd c
    · subst hf
      rw [Function.update_self, Option.some.injEq]
      constructor
      · rintro rfl
        exact ⟨Or.inl rfl, rfl⟩
      · rintro ⟨rfl | hd, hfd⟩
        · rfl
        · exact h.distinct c hc d (h.sub hd) hfd.symm
    · rw [Function.update_of_ne hf, hold]
      refine and_congr_left fun hfd => ⟨Or.inr, fun hd => hd.resolve_left ?_⟩
      rintro rfl
      exact hf hfd.symm

/-- After an update the map of `SelectPoller` has the live channels under their
descriptors, in some order. -/
theorem selectMap_update : (w.update c events).select.channelMap.Perm
    ((w.update c events).live.toList.map fun d => ((w.update c events).fd d, d)) := by
  have hindex : w.selectIndex c = SelectPoller.ready ↔ c ∉ w.live := by
    rw [h.selectIndex c hc]
    exact status_eq_ready
  have hfd : (w.update c events).fd = w.fd := rfl
  rw [update_select, update_live, hfd]
  by_cases hlive : c ∈ w.live
  · have hne : ¬ w.selectIndex c = SelectPoller.ready := fun hr => hindex.1 hr hlive
    rw [select_keep _ _ hne, Finset.insert_eq_of_mem hlive]
    exact h.selectMap
  · have hins := (Finset.toList_insert hlive).map fun d => (w.fd d, d)
    rw [List.map_cons] at hins
    rw [select_insert _ _ (hindex.2 hlive)]
    -- no entry had the descriptor before
    have hkeys : w.select.channelMap.filter (fun e => e.1 ≠ w.fd c) = w.select.channelMap := by
      refine List.filter_eq_self.2 fun e he => decide_eq_true fun hfd => hlive ?_
      obtain ⟨d, hd, rfl⟩ := List.mem_map.1 (h.selectMap.mem_iff.1 he)
      rw [Finset.mem_toList] at hd
      rwa [h.distinct c hc d (h.sub hd) hfd.symm]
    have hset := List.perm_orderedInsert (fun a b : ℤ × ChanId => a.1 ≤ b.1) (w.fd c, c)
      (w.select.channelMap.filter fun e => e.1 ≠ w.fd c)
    rw [hkeys] at hset
    have hmap := hset.trans ((h.selectMap.cons _).trans hins.symm)
    rwa [← hkeys] at hmap

/-- The assertions of an update hold for a channel that has its slot, or none. -/
theorem asserts_update (hplaced : Placed w c) : (w.update c events).asserted = true := by
  rw [update_asserted, h.asserts, Bool.true_and]
  unfold PollPoller.updateAsserts
  by_cases hlive : c ∈ w.live
  · obtain ⟨hlt, -⟩ := slots_erase h hlive hplaced
    have hindex : ¬ w.pollIndex c < 0 := fun hneg => hplaced.index_iff.1 hneg hlive
    have hmap : w.poll.channelMap (w.fd c) = some c := (h.pollMap _ _).2 ⟨hlive, rfl⟩
    unfold Placed at hplaced
    rw [if_pos hlive] at hplaced
    obtain ⟨-, pfd, hpfd, hfd⟩ := hplaced
    simp only [Backends.channel, hindex, ↓reduceIte, hmap, beq_self_eq_true, hlt, decide_true,
      Bool.and_self, Bool.true_and, hpfd, Option.any_some, Bool.or_eq_true, beq_iff_eq]
    exact hfd
  · have hindex : w.pollIndex c < 0 := hplaced.index_iff.2 hlive
    have hmap : w.poll.channelMap (w.fd c) = none := by
      refine Option.eq_none_iff_forall_ne_some.2 fun d hd => hlive ?_
      obtain ⟨hd, hfd⟩ := (h.pollMap _ _).1 hd
      rwa [h.distinct c hc d (h.sub hd) hfd.symm]
    simp only [Backends.channel, hindex, ↓reduceIte, hmap, beq_self_eq_true]

/-- **A good update keeps the invariant.** -/
theorem inv_update (hplaced : Placed w c)
    (hempty : events = .NoneEvent → c ∈ w.live ∧ w.events c ≠ .NoneEvent) :
    Inv (w.update c events) where
  distinct := h.distinct
  nonneg := h.nonneg
  few := h.few
  sub := Finset.insert_subset hc h.sub
  tracks _ hd := tracks_update h hc events hd
  owned _ _ _ hd := owned_update h hc events hd
  epollIndex _ hd := (index_update h hc events hempty hd).1
  selectIndex _ hd := (index_update h hc events hempty hd).2
  slots := slots_update h events hplaced hempty
  pollIndex _ hd := pollIndex_update h events hd
  pollMap := pollMap_update h hc events hplaced
  selectMap := selectMap_update h hc events
  asserts := asserts_update h hc events hplaced

end Update

/-! ### Removals -/

section RemoveFields

variable (w : Backends) (c : ChanId)

/-- The interest set after a channel was removed; its mask is not read any more. -/
theorem remove_epoll : (w.remove c).epoll =
    (w.epoll.remove c (w.channel w.epollIndex c)).1 := by
  simp only [Backends.remove, channel_self]
  rfl

/-- A removed channel is new to `EpollPoller` again. -/
theorem remove_epollIndex :
    (w.remove c).epollIndex = Function.update w.epollIndex c EpollPoller.ready := rfl

/-- A removed channel is new to `SelectPoller` again. -/
theorem remove_selectIndex :
    (w.remove c).selectIndex = Function.update w.selectIndex c SelectPoller.ready := rfl

/-- The array after a channel was removed, with the empty mask that
`Channel::remove` has set before. -/
theorem remove_poll : (w.remove c).poll =
    (w.poll.removeChannel { w.channel w.pollIndex c with events := .NoneEvent }).1 := by
  simp only [Backends.remove, channel_self]

/-- `PollPoller` leaves the index that the channel had. -/
theorem remove_pollIndex : (w.remove c).pollIndex = w.pollIndex := by
  simp only [Backends.remove, PollPoller.removeChannel_index]
  exact Function.update_eq_self c w.pollIndex

/-- The assertions of `PollPoller::removeChannel`, added to those that have held
so far. -/
theorem remove_asserted : (w.remove c).asserted = (w.asserted &&
    w.poll.removeAsserts { w.channel w.pollIndex c with events := .NoneEvent }) := by
  simp only [Backends.remove, channel_self]

/-- A removed channel has no events. -/
theorem remove_events : (w.remove c).events = Function.update w.events c .NoneEvent := rfl

/-- A removed channel is not live. -/
theorem remove_live : (w.remove c).live = w.live.erase c := rfl

/-- What `EpollPoller` sees of the other channels is as it was. -/
theorem remove_channel_ne {d : ChanId} (hd : d ≠ c) :
    (w.remove c).channel (w.remove c).epollIndex d = w.channel w.epollIndex d := by
  simp only [Backends.channel, remove_epollIndex, remove_events, Function.update_of_ne hd]
  rfl

/-- The slots that the other channels ought to have do not change. -/
theorem remove_slot_ne {d : ChanId} (hd : d ≠ c) : slot (w.remove c) d = slot w d := by
  simp only [slot, PollPoller.entry, Backends.channel, Channel.isNoneEvent, remove_events,
    Function.update_of_ne hd]
  rfl

/-- The status after a removal: the channel is new again, the others are as they
were. -/
theorem remove_status (d : ChanId) :
    status (w.remove c) d = if d = c then EpollPoller.ready else status w d := by
  unfold status
  rw [remove_live, remove_events]
  by_cases hdc : d = c
  · rw [if_pos hdc, if_neg (hdc ▸ Finset.notMem_erase c w.live)]
  · rw [if_neg hdc, Function.update_of_ne hdc]
    simp only [Finset.mem_erase, hdc, ne_eq, not_false_eq_true, true_and]

end RemoveFields

section Remove

variable (h : Inv w)
include h

/-- The interest set follows each channel after a removal. -/
theorem tracks_remove {d : ChanId} (hc : c ∈ w.channels) (hd : d ∈ w.channels) :
    (w.remove c).epoll.Tracks d ((w.remove c).channel (w.remove c).epollIndex d) := by
  rw [remove_epoll]
  by_cases hdc : d = c
  · subst hdc
    refine (h.tracks d hd).remove.tracks ?_
    rw [remove_epollIndex]
    exact Function.update_self ..
  · rw [remove_channel_ne w c hdc]
    refine (h.tracks d hd).remove_other (Ne.symm hdc) fun hfd => hdc ?_
    exact (h.distinct c hc d hd hfd).symm

/-- After a removal the interest set still has channels of the program only. -/
theorem owned_remove {f : ℤ} {d : ChanId} {e : Events} (hc : c ∈ w.channels)
    (hd : (w.remove c).epoll.interest f = some (d, e)) : d ∈ w.channels := by
  rw [remove_epoll] at hd
  rcases EpollPoller.remove_interest_cases w.epoll c (w.channel w.epollIndex c) f with
    hsame | ⟨-, hown⟩
  · exact h.owned f d e (hsame ▸ hd)
  · rw [hown d e hd]
    exact hc

/-- After a removal the index says the status, under `EpollPoller` and
`SelectPoller` alike. -/
theorem index_remove {d : ChanId} (hd : d ∈ w.channels) :
    (w.remove c).epollIndex d = status (w.remove c) d ∧
      (w.remove c).selectIndex d = status (w.remove c) d := by
  rw [remove_epollIndex, remove_selectIndex, remove_status]
  by_cases hdc : d = c
  · subst hdc
    rw [Function.update_self, Function.update_self, if_pos rfl]
    exact ⟨rfl, rfl⟩
  · rw [Function.update_of_ne hdc, Function.update_of_ne hdc, if_neg hdc]
    exact ⟨h.epollIndex d hd, h.selectIndex d hd⟩

/-- A channel that is not registered is not in the array. -/
theorem slots_erase_of_notMem (hc : c ∉ w.live) :
    w.poll.pollfdList.Perm ((w.live.erase c).toList.map (slot w)) := by
  rw [Finset.erase_eq_of_notMem hc]
  exact h.slots

/-- The array without the slot of a removed channel. -/
theorem removeChannel_perm (hc : c ∈ w.live) (hplaced : Placed w c) :
    (w.remove c).poll.pollfdList.Perm ((w.live.erase c).toList.map (slot w)) := by
  obtain ⟨hlt, herase⟩ := slots_erase h hc hplaced
  have hlen : w.poll.pollfdList.length < 2 ^ 64 := by
    rw [h.slots.length_eq, List.length_map, Finset.length_toList]
    have hfew := (Finset.card_le_card h.sub).trans_lt h.few
    unfold SelectPoller.FD_SETSIZE at hfew
    omega
  have hneg : ¬ w.pollIndex c < 0 := not_lt.2 (h.pollIndex c hc)
  rw [remove_poll]
  exact (poll_remove_list _ hneg hlt hlen).trans herase

/-- After a removal the array has the slots of the live channels, in some order:
the last entry was moved into the gap. -/
theorem slots_remove (hplaced : Placed w c) :
    (w.remove c).poll.pollfdList.Perm ((w.remove c).live.toList.map (slot (w.remove c))) := by
  have hmap : (w.remove c).live.toList.map (slot (w.remove c)) =
      (w.live.erase c).toList.map (slot w) := by
    refine List.map_congr_left fun d hd => remove_slot_ne w c ?_
    exact (Finset.mem_erase.1 (Finset.mem_toList.1 hd)).1
  rw [hmap]
  by_cases hlive : c ∈ w.live
  · exact removeChannel_perm h hlive hplaced
  · have hneg : w.pollIndex c < 0 := hplaced.index_iff.2 hlive
    rw [remove_poll, poll_remove_skip _ hneg]
    exact slots_erase_of_notMem h hlive

/-- After a removal the map of `PollPoller` has the live channels under their
descriptors. -/
theorem pollMap_remove (hplaced : Placed w c) (hc : c ∈ w.channels) (f : ℤ) (d : ChanId) :
    (w.remove c).poll.channelMap f = some d ↔
      d ∈ (w.remove c).live ∧ (w.remove c).fd d = f := by
  have hold := h.pollMap f d
  show _ ↔ _ ∧ w.fd d = f
  rw [remove_live, Finset.mem_erase]
  by_cases hlive : c ∈ w.live
  · have hneg : ¬ w.pollIndex c < 0 := not_lt.2 (h.pollIndex c hlive)
    have hmap : (w.remove c).poll.channelMap =
        Function.update w.poll.channelMap (w.fd c) none := by
      rw [remove_poll]
      exact poll_remove_map _ hneg
    rw [hmap]
    by_cases hf : f = w.fd c
    · subst hf
      rw [Function.update_self]
      refine iff_of_false (by simp) ?_
      rintro ⟨⟨hdc, hd⟩, hfd⟩
      exact hdc (h.distinct d (h.sub hd) c hc hfd)
    · rw [Function.update_of_ne hf, hold]
      refine and_congr_left fun hfd => ⟨fun hd => ⟨?_, hd⟩, And.right⟩
      rintro rfl
      exact hf hfd.symm
  · have hneg : w.pollIndex c < 0 := hplaced.index_iff.2 hlive
    have hmap : (w.remove c).poll = w.poll := by
      rw [remove_poll]
      exact poll_remove_skip _ hneg
    rw [hmap, hold]
    refine and_congr_left fun _ => ⟨fun hd => ⟨?_, hd⟩, And.right⟩
    rintro rfl
    exact hlive hd

/-- After a removal the map of `SelectPoller` has the live channels under their
descriptors. -/
theorem selectMap_remove (hc : c ∈ w.channels) : (w.remove c).select.channelMap.Perm
    ((w.remove c).live.toList.map fun d => ((w.remove c).fd d, d)) := by
  have hperm : (w.remove c).select.channelMap.Perm
      ((w.live.toList.map fun d => (w.fd d, d)).filter fun e => e.1 ≠ w.fd c) :=
    h.selectMap.filter _
  have hlive : (w.live.toList.filter fun d => w.fd d ≠ w.fd c).Perm (w.live.erase c).toList := by
    refine (List.perm_ext_iff_of_nodup (w.live.nodup_toList.filter _)
      (Finset.nodup_toList _)).2 fun d => ?_
    simp only [List.mem_filter, Finset.mem_toList, decide_eq_true_eq, Finset.mem_erase]
    rw [and_comm]
    refine and_congr_left fun hd => not_congr ⟨h.distinct d (h.sub hd) c hc, ?_⟩
    rintro rfl
    rfl
  rw [List.filter_map] at hperm
  exact hperm.trans (hlive.map fun d => (w.fd d, d))

/-- The assertions of a removal hold for a channel that has its slot. -/
theorem asserts_remove (hplaced : Placed w c) : (w.remove c).asserted = true := by
  rw [remove_asserted, h.asserts, Bool.true_and]
  unfold PollPoller.removeAsserts Placed at *
  split_ifs at hplaced with hlive
  · obtain ⟨-, pfd, hpfd, hfd⟩ := hplaced
    simp only [Backends.channel, hpfd, Option.any_some, Bool.or_eq_true, beq_iff_eq]
    exact Or.inr hfd
  · simp only [Backends.channel, hplaced, decide_true, Bool.true_or]

/-- **A good removal keeps the invariant.** -/
theorem inv_remove (hc : c ∈ w.channels) (hplaced : Placed w c) : Inv (w.remove c) where
  distinct := h.distinct
  nonneg := h.nonneg
  few := h.few
  sub := (Finset.erase_subset c w.live).trans h.sub
  tracks _ hd := tracks_remove h hc hd
  owned _ _ _ hd := owned_remove h hc hd
  epollIndex _ hd := (index_remove h hd).1
  selectIndex _ hd := (index_remove h hd).2
  slots := slots_remove h hplaced
  pollIndex d hd := by
    rw [remove_pollIndex]
    exact h.pollIndex d (Finset.mem_of_mem_erase hd)
  pollMap := pollMap_remove h hplaced hc
  selectMap := selectMap_remove h hc
  asserts := asserts_remove h hplaced

end Remove

/-! ### Calls that are not good -/

section Bad

variable (h : Inv w)
include h

/-- An empty mask that `EpollPoller` did not have as `normal` goes into the
kernel's set. -/
theorem not_agree_of_empty (hc : c ∈ w.channels)
    (hempty : ¬ (c ∈ w.live ∧ w.events c ≠ .NoneEvent)) : ¬ Agree (w.update c .NoneEvent) := by
  intro hagree
  have hindex : w.epollIndex c ≠ EpollPoller.normal := by
    rw [h.epollIndex c hc]
    exact fun hnormal => hempty (status_eq_normal.1 hnormal)
  have hint := EpollPoller.updateChannel_interest (e := .NoneEvent) (h.tracks c hc)
    (h.free hc) (w.channel w.epollIndex c).fd
  have hnormal := epoll_index w.epoll c { w.channel w.epollIndex c with events := .NoneEvent }
  rw [if_neg fun hold => hindex hold.1] at hnormal
  rw [if_pos rfl, if_pos hnormal] at hint
  have hmem : (w.fd c, Events.NoneEvent) ∈ (w.update c .NoneEvent).epoll.monitored := by
    refine ⟨c, ?_⟩
    rw [update_epoll]
    exact hint
  rw [hagree.epoll] at hmem
  obtain ⟨d, -, -, hnone, hne⟩ := hmem
  exact hne hnone

/-- The asserts of an update hold for placed channels only. -/
theorem placed_of_update {events : Events} (hassert : (w.update c events).asserted = true) :
    Placed w c := by
  rw [update_asserted, Bool.and_eq_true] at hassert
  have hassert := hassert.2
  unfold PollPoller.updateAsserts at hassert
  unfold Placed
  by_cases hlive : c ∈ w.live
  · have hpos := h.pollIndex c hlive
    have hneg : ¬ w.pollIndex c < 0 := not_lt.2 hpos
    simp only [Backends.channel, hneg, ↓reduceIte, Bool.and_eq_true, Option.any_eq_true,
      Bool.or_eq_true, beq_iff_eq] at hassert
    rw [if_pos hlive]
    exact ⟨hpos, hassert.2⟩
  · rw [if_neg hlive]
    by_contra hneg
    simp only [Backends.channel, hneg, ↓reduceIte, Bool.and_eq_true, beq_iff_eq] at hassert
    exact hlive ((h.pollMap _ _).1 hassert.1.1).1

/-- So does the assert of a removal. -/
theorem placed_of_remove (hc : c ∈ w.channels) (hassert : (w.remove c).asserted = true) :
    Placed w c := by
  rw [remove_asserted, Bool.and_eq_true] at hassert
  have hassert := hassert.2
  simp only [PollPoller.removeAsserts, Backends.channel, Bool.or_eq_true, Option.any_eq_true,
    beq_iff_eq] at hassert
  replace hassert := hassert.imp_left of_decide_eq_true
  unfold Placed
  by_cases hlive : c ∈ w.live
  · have hpos := h.pollIndex c hlive
    rw [if_pos hlive]
    exact ⟨hpos, hassert.resolve_left (not_lt.2 hpos)⟩
  · rw [if_neg hlive]
    refine hassert.resolve_right ?_
    rintro ⟨pfd, hpfd, hfd⟩
    -- the entry would be that of a registered channel with the same descriptor
    obtain ⟨d, hd, rfl⟩ := List.mem_map.1 (h.slots.mem_iff.1 (List.mem_of_getElem? hpfd))
    rw [Finset.mem_toList] at hd
    exact hlive (slot_unique h hc hd hfd ▸ hd)

end Bad

/-! ### Runs -/

/-- The invariant holds at the start, when nothing is registered; the
descriptors are valid and distinct, and fit an `fd_set`. -/
theorem inv_init {channels : Finset ChanId} {fd : ChanId → ℤ}
    (hfd : ∀ c ∈ channels, 0 ≤ fd c)
    (hdistinct : ∀ c ∈ channels, ∀ d ∈ channels, fd c = fd d → c = d)
    (hfew : channels.card < SelectPoller.FD_SETSIZE) : Inv (init channels fd) where
  distinct := hdistinct
  nonneg := hfd
  few := hfew
  sub := Finset.empty_subset channels
  tracks _ _ := EpollPoller.gone_empty.tracks rfl
  owned _ _ _ hd := by cases hd
  epollIndex _ _ := rfl
  selectIndex _ _ := rfl
  slots := by simp [init]
  pollIndex c hc := absurd hc (Finset.notMem_empty c)
  pollMap f c := by simp [init]
  selectMap := by simp [init]
  asserts := rfl

/-- A good call keeps the invariant. -/
theorem inv_step (w : Backends) (i : Call) (w' : Backends) (h : Inv w) (hgood : Good w i)
    (hstep : step w i = some w') : Inv w' := by
  cases i with
  | toggle c t =>
    by_cases hc : c ∈ w.channels
    · obtain rfl := Option.some.inj ((if_pos hc).symm.trans hstep)
      exact inv_update h hc _ (hgood hc).1 (hgood hc).2
    · cases (if_neg hc).symm.trans hstep
  | remove c =>
    by_cases hc : c ∈ w.channels
    · obtain rfl := Option.some.inj ((if_pos hc).symm.trans hstep)
      exact inv_remove h hc (hgood hc)
    · cases (if_neg hc).symm.trans hstep

/-- After any other call the pollers disagree. -/
theorem not_agree_of_not_good (w : Backends) (i : Call) (h : Inv w) (hgood : ¬ Good w i) :
    ∃ w', step w i = some w' ∧ ¬ Agree w' := by
  cases i with
  | toggle c t =>
    obtain ⟨hc, hbad⟩ := Classical.not_imp.1 hgood
    refine ⟨_, if_pos hc, fun hagree => hbad ⟨placed_of_update h hagree.asserts, fun hnone => ?_⟩⟩
    by_contra hempty
    rw [hnone] at hagree
    exact not_agree_of_empty h hc hempty hagree
  | remove c =>
    obtain ⟨hc, hbad⟩ := Classical.not_imp.1 hgood
    exact ⟨_, if_pos hc, fun hagree => hbad (placed_of_remove h hc hagree.asserts)⟩

/-- **When the pollers agree.**  Over every sequence of calls on channels with
distinct descriptors, the three pollers look at the masks of the registered
channels in every state if and only if a mask becomes empty only when it was
not and its channel is registered, and `PollPoller` has the right slot for the
channel of every call. -/
theorem agree_iff (channels : Finset ChanId) (fd : ChanId → ℤ)
    (hfd : ∀ c ∈ channels, 0 ≤ fd c ∧ fd c < SelectPoller.FD_SETSIZE)
    (hdistinct : ∀ c ∈ channels, ∀ d ∈ channels, fd c = fd d → c = d)
    (hfew : channels.card < SelectPoller.FD_SETSIZE) (calls : List Call) :
    Always step Agree (init channels fd) calls ↔ Steps step Good (init channels fd) calls :=
  always_iff_steps inv_step (fun _ h => h.agree) not_agree_of_not_good
    (inv_init (fun c hc => (hfd c hc).1) hdistinct hfew)

/-- Two channels with the descriptors `3` and `4`, one of them enabled. -/
theorem agree_iff_two :
    Always step Agree (init {0, 1} fun c => c + 3) [.toggle 0 .enableReadEvent] ↔
      Steps step Good (init {0, 1} fun c => c + 3) [.toggle 0 .enableReadEvent] :=
  agree_iff {0, 1} (fun c => c + 3) (by decide) (by decide) (by decide) _

/-- **A first update with an empty mask, and a removal.**  Channel `0` disables
its read event before anything was enabled: `EpollPoller` puts the descriptor
into the interest set with an empty mask, and so does `PollPoller` into its
array, while `SelectPoller` looks at nothing.  And channel `1`, moved by the
removal of channel `0`, fails an assert of `PollPoller` in its next update. -/
theorem pollers_disagree :
    ((run step (init {0, 1} fun c => c + 3) [.toggle 0 .disableReadEvent]).map fun w =>
      (w.epoll.interest 3, w.poll.pollfdList, (w.select.reset (w.channel w.selectIndex)).rset)) =
        some (some (0, .NoneEvent), [{ fd := 3, events := .NoneEvent }], ∅) ∧
    ((run step (init {0, 1} fun c => c + 3) [.toggle 0 .enableReadEvent,
      .toggle 1 .enableReadEvent, .remove 0, .toggle 1 .enableWriteEvent]).map
        Backends.asserted) = some false ∧
    ¬ Always step Agree (init {0, 1} fun c => c + 3) [.toggle 0 .disableReadEvent] := by
  refine ⟨by decide, by decide, fun h => ?_⟩
  have hepoll := (h.last (t := _) rfl).epoll
  obtain ⟨d, -, -, hnone, hne⟩ := (Set.ext_iff.1 hepoll (3, .NoneEvent)).1 ⟨0, by decide⟩
  exact hne hnone

end Pollers

end Net
end Sevent
