/-
# `PollPoller`: the index a channel keeps into `pollfdList`

`sevent/net/poller/PollPoller.cpp`.

The poller keeps an array of `pollfd` for `poll(2)` and, in each channel, the
slot of that channel.  `updateChannel` inserts at the end when the index is
negative and otherwise writes the slot; `removeChannel` moves the last entry
into the freed slot and drops the last one.

After that swap the code calls `channel->setIndex(index)` on the channel it
removes, which has that index already: the channel of the moved entry keeps the
index of a slot that is gone, and the removed one keeps a non-negative index,
so that its next `updateChannel` does not insert it.  `Indexed` is the
agreement the rest of the poller relies on; `indexed_iff` shows that a run
keeps it exactly as long as no registered channel is removed.
-/

import Sevent.Lib.Bytes
import Sevent.Lib.Run
import Sevent.Net.Channel
import Mathlib.Data.Finset.Basic
import Mathlib.Logic.Function.Basic

namespace Sevent
namespace Net

open Bytes Transition

/-- The fields of a `pollfd` that the poller sets. -/
structure PollFd where
  fd : ℤ
  events : Events
  deriving DecidableEq

structure PollPoller where
  pollfdList : List PollFd
  channelMap : ℤ → Option ChanId

namespace PollPoller

/-- The slot of a registered channel; a mask without events is stored with the
descriptor `-fd - 1`, which `poll` ignores. -/
def entry (ch : Channel ℤ) : PollFd :=
  { fd := if ch.isNoneEvent then -ch.fd - 1 else ch.fd, events := ch.events }

/-- `PollPoller::updateChannel`: the poller and the channel after the call. -/
def updateChannel (p : PollPoller) (c : ChanId) (ch : Channel ℤ) : PollPoller × Channel ℤ :=
  if ch.index < 0 then
    let pfd : PollFd := { fd := ch.fd, events := ch.events }
    let pollfdList := p.pollfdList ++ [pfd]
    ({ pollfdList := pollfdList, channelMap := Function.update p.channelMap ch.fd (some c) },
      { ch with index := (pollfdList.length : ℤ) - 1 })
  else
    ({ p with pollfdList := p.pollfdList.set ch.index.toNat (entry ch) }, ch)

/-- The asserts of `updateChannel`; the access `pollfdList[index]` is inside
the vector by the third. -/
def updateAsserts (p : PollPoller) (c : ChanId) (ch : Channel ℤ) : Bool :=
  if ch.index < 0 then p.channelMap ch.fd == none
  else
    p.channelMap ch.fd == some c && ch.index.toNat < p.pollfdList.length &&
      p.pollfdList[ch.index.toNat]?.any fun pfd => pfd.fd == ch.fd || pfd.fd == -ch.fd - 1

/-- `PollPoller::removeChannel`.  The channel of the entry that moves into the
freed slot is not touched; `setIndex(index)` goes to the removed channel. -/
def removeChannel (p : PollPoller) (ch : Channel ℤ) : PollPoller × Channel ℤ :=
  if ch.index < 0 then (p, ch)
  else
    let index := ch.index.toNat
    let channelMap := Function.update p.channelMap ch.fd none
    if index = subSize p.pollfdList.length 1 then
      ({ pollfdList := p.pollfdList.dropLast, channelMap := channelMap }, ch)
    else
      let moved := match p.pollfdList.getLast? with
        | some last => p.pollfdList.set index last
        | none => p.pollfdList
      ({ pollfdList := moved.dropLast, channelMap := channelMap }, { ch with index := index })

/-- The assert of `removeChannel`, on the slot it reads. -/
def removeAsserts (p : PollPoller) (ch : Channel ℤ) : Bool :=
  ch.index < 0 ||
    p.pollfdList[ch.index.toNat]?.any fun pfd => pfd.fd == ch.fd || pfd.fd == -ch.fd - 1

/-! ### Runs -/

/-- A poller with its channels.  `live` is the set of channels updated and not
removed since, and `asserted` says that every assert has held so far. -/
structure World where
  poller : PollPoller
  channels : ChanId → Channel ℤ
  live : Finset ChanId
  asserted : Bool

/-- What the owner of a channel does: set its mask and call `updateChannel`,
call `Channel::remove`, or give an unregistered channel another descriptor
(`Channel::setFdUnSafe`). -/
inductive Call
  | update (c : ChanId) (events : Events)
  | remove (c : ChanId)
  | setFd (c : ChanId) (fd : ℤ)

/-- A call cannot occur where it would break what the callers promise: a
channel is registered with a descriptor, one no other registered channel has,
and its descriptor does not change while it is registered. -/
def step (w : World) : Call → Option World
  | .update c events =>
    let ch := { w.channels c with events := events }
    if 0 ≤ ch.fd ∧ ∀ d ∈ w.live, d ≠ c → (w.channels d).fd ≠ ch.fd then
      let r := w.poller.updateChannel c ch
      some
        { poller := r.1
          channels := Function.update w.channels c r.2
          live := insert c w.live
          asserted := w.asserted && w.poller.updateAsserts c ch }
    else none
  | .remove c =>
    let ch := { w.channels c with events := .NoneEvent }
    let r := w.poller.removeChannel ch
    some
      { poller := r.1
        channels := Function.update w.channels c r.2
        live := w.live.erase c
        asserted := w.asserted && w.poller.removeAsserts ch }
  | .setFd c fd =>
    if c ∉ w.live then
      some { w with channels := Function.update w.channels c { w.channels c with fd := fd } }
    else none

/-- A poller without channels; the channels hold any descriptors. -/
def init (fds : ChanId → ℤ) : World where
  poller := { pollfdList := [], channelMap := fun _ => none }
  channels := fun c => Channel.new (fds c)
  live := ∅
  asserted := true

/-- `channelMap` and `pollfdList` describe the same set of channels, a channel
that is not registered has a negative index, and no assert has failed. -/
structure Indexed (w : World) : Prop where
  map_iff : ∀ f c, w.poller.channelMap f = some c ↔ c ∈ w.live ∧ (w.channels c).fd = f
  slot : ∀ c ∈ w.live, 0 ≤ (w.channels c).index ∧
    ∃ pfd, w.poller.pollfdList[(w.channels c).index.toNat]? = some pfd ∧
      (pfd.fd = (w.channels c).fd ∨ pfd.fd = -(w.channels c).fd - 1)
  distinct : ∀ c ∈ w.live, ∀ d ∈ w.live, (w.channels c).index = (w.channels d).index → c = d
  owned : ∀ i < w.poller.pollfdList.length, ∃ c ∈ w.live, (w.channels c).index = i
  removed : ∀ c ∉ w.live, (w.channels c).index < 0
  asserts : w.asserted = true

/-- The condition: the call does not remove a registered channel. -/
def Good (w : World) : Call → Prop
  | .remove c => c ∉ w.live
  | _ => True

theorem indexed_init (fds : ChanId → ℤ) : Indexed (init fds) := by
  refine ⟨?_, ?_, ?_, ?_, ?_, rfl⟩ <;> simp [init, Channel.new]

/-- A registered channel's index is a slot of the vector. -/
theorem Indexed.index_lt {w : World} (h : Indexed w) {c : ChanId} (hc : c ∈ w.live) :
    (w.channels c).index.toNat < w.poller.pollfdList.length := by
  obtain ⟨-, pfd, hpfd, -⟩ := h.slot c hc
  exact (List.getElem?_eq_some_iff.1 hpfd).1

/-- The entry of a channel stands for its descriptor, watched or ignored. -/
theorem entry_fd (ch : Channel ℤ) : (entry ch).fd = ch.fd ∨ (entry ch).fd = -ch.fd - 1 := by
  unfold entry
  split
  · exact Or.inr rfl
  · exact Or.inl rfl

/-- A first update appends the channel's entry and gives it the new slot. -/
theorem indexed_insert {w : World} (h : Indexed w) {c : ChanId} (hc : c ∉ w.live)
    {events : Events} {w' : World} (hstep : step w (.update c events) = some w') :
    Indexed w' := by
  have hneg := h.removed c hc
  simp only [step, updateChannel, updateAsserts, hneg, ↓reduceIte] at hstep
  split at hstep
  case isFalse => cases hstep
  case isTrue hfd =>
    obtain ⟨-, hfds⟩ := hfd
    obtain rfl := Option.some.inj hstep
    have hfresh : ∀ d ∈ w.live, d ≠ c := fun d hd hdc => hc (hdc ▸ hd)
    have hnone : w.poller.channelMap (w.channels c).fd = none := by
      refine Option.eq_none_iff_forall_ne_some.2 fun d hd => ?_
      obtain ⟨hd, hdfd⟩ := (h.map_iff _ _).1 hd
      exact hfds d hd (hfresh d hd) hdfd
    have hold : ∀ d ∈ w.live, 0 ≤ (w.channels d).index ∧
        (w.channels d).index < w.poller.pollfdList.length := by
      intro d hd
      have := h.index_lt hd
      have := (h.slot d hd).1
      omega
    refine ⟨?_, ?_, ?_, ?_, ?_, ?_⟩
    · intro f d
      by_cases hf : f = (w.channels c).fd
      · subst hf
        by_cases hdc : d = c
        · subst hdc
          simp
        · simp only [Function.update_self, Option.some.injEq, Finset.mem_insert, hdc, false_or,
            Function.update_of_ne hdc]
          exact ⟨fun hm => absurd hm.symm hdc, fun hm => absurd hm.2 (hfds d hm.1 hdc)⟩
      · simp only [Function.update_of_ne hf]
        rw [h.map_iff f d]
        by_cases hdc : d = c
        · subst hdc
          simp only [hc, false_and, Finset.mem_insert_self, Function.update_self, true_and,
            false_iff]
          exact fun hm => hf hm.symm
        · simp only [Finset.mem_insert, hdc, false_or, Function.update_of_ne hdc]
    · intro d hd
      by_cases hdc : d = c
      · subst hdc
        simp
      · simp only [Finset.mem_insert, hdc, false_or] at hd
        obtain ⟨hpos, pfd, hpfd, hpfdfd⟩ := h.slot d hd
        simp only [Function.update_of_ne hdc]
        exact ⟨hpos, pfd, by rw [List.getElem?_append_left (h.index_lt hd)]; exact hpfd, hpfdfd⟩
    · intro d hd e he hde
      by_cases hdc : d = c
      · by_cases hec : e = c
        · exact hdc.trans hec.symm
        · -- the new index is past every index there was
          simp only [Finset.mem_insert, hec, false_or] at he
          simp only [hdc, Function.update_self, Function.update_of_ne hec, List.length_append,
            List.length_singleton] at hde
          have := hold e he
          omega
      · simp only [Finset.mem_insert, hdc, false_or] at hd
        by_cases hec : e = c
        · simp only [hec, Function.update_self, Function.update_of_ne hdc, List.length_append,
            List.length_singleton] at hde
          have := hold d hd
          omega
        · simp only [Finset.mem_insert, hec, false_or] at he
          simp only [Function.update_of_ne hdc, Function.update_of_ne hec] at hde
          exact h.distinct d hd e he hde
    · intro i hi
      simp only [List.length_append, List.length_singleton] at hi
      by_cases hil : i = w.poller.pollfdList.length
      · exact ⟨c, by simp, by simp [hil]⟩
      · obtain ⟨d, hd, hdi⟩ := h.owned i (by omega)
        refine ⟨d, Finset.mem_insert_of_mem hd, ?_⟩
        simpa only [Function.update_of_ne (hfresh d hd)] using hdi
    · intro d hd
      simp only [Finset.mem_insert, not_or] at hd
      simpa only [Function.update_of_ne hd.1] using h.removed d hd.2
    · simp [h.asserts, hnone]

/-- An update of a registered channel writes its own slot and no other. -/
theorem indexed_update {w : World} (h : Indexed w) {c : ChanId} (hc : c ∈ w.live)
    {events : Events} {w' : World} (hstep : step w (.update c events) = some w') :
    Indexed w' := by
  obtain ⟨hpos, pfd, hpfd, hpfdfd⟩ := h.slot c hc
  have hlt := h.index_lt hc
  simp only [step, updateChannel, updateAsserts, not_lt.2 hpos, ↓reduceIte] at hstep
  split at hstep
  case isFalse => cases hstep
  case isTrue =>
    obtain rfl := Option.some.inj hstep
    have hfd : ∀ d, (Function.update w.channels c { w.channels c with events := events } d).fd =
        (w.channels d).fd := by
      intro d
      by_cases hdc : d = c
      · subst hdc; simp
      · rw [Function.update_of_ne hdc]
    have hindex : ∀ d, (Function.update w.channels c
        { w.channels c with events := events } d).index = (w.channels d).index := by
      intro d
      by_cases hdc : d = c
      · subst hdc; simp
      · rw [Function.update_of_ne hdc]
    have hlive : insert c w.live = w.live := Finset.insert_eq_of_mem hc
    refine ⟨?_, ?_, ?_, ?_, ?_, ?_⟩
    · intro f d
      simp only [hlive, hfd]
      exact h.map_iff f d
    · intro d hd
      simp only [hlive] at hd
      simp only [hfd, hindex]
      by_cases hdc : d = c
      · subst hdc
        exact ⟨hpos, entry { w.channels d with events := events },
          by simp [List.getElem?_set_self hlt], entry_fd _⟩
      · obtain ⟨hdpos, q, hq, hqfd⟩ := h.slot d hd
        have hne : (w.channels c).index.toNat ≠ (w.channels d).index.toNat := fun he =>
          hdc (h.distinct d hd c hc (by omega))
        exact ⟨hdpos, q, by rw [List.getElem?_set_ne hne]; exact hq, hqfd⟩
    · intro d hd e he hde
      simp only [hlive] at hd he
      simp only [hindex] at hde
      exact h.distinct d hd e he hde
    · intro i hi
      rw [List.length_set] at hi
      simp only [hlive, hindex]
      exact h.owned i hi
    · intro d hd
      simp only [hlive] at hd
      simp only [hindex]
      exact h.removed d hd
    · have hmap : w.poller.channelMap (w.channels c).fd = some c :=
        (h.map_iff _ _).2 ⟨hc, rfl⟩
      obtain ⟨_, rfl⟩ := List.getElem?_eq_some_iff.1 hpfd
      simpa [h.asserts, hmap, hlt] using hpfdfd

/-- The removal of a channel that is not registered returns at once. -/
theorem indexed_remove {w : World} (h : Indexed w) {c : ChanId} (hc : c ∉ w.live)
    {w' : World} (hstep : step w (.remove c) = some w') : Indexed w' := by
  have hneg := h.removed c hc
  simp only [step, removeChannel, removeAsserts, hneg, ↓reduceIte, decide_true, Bool.true_or,
    Bool.and_true, Finset.erase_eq_of_notMem hc] at hstep
  obtain rfl := Option.some.inj hstep
  have hsame : ∀ d ∈ w.live, d ≠ c := fun d hd hdc => hc (hdc ▸ hd)
  refine ⟨?_, ?_, ?_, ?_, ?_, h.asserts⟩
  · intro f d
    rw [h.map_iff]
    refine and_congr_right fun hd => ?_
    simp only [Function.update_of_ne (hsame d hd)]
  · intro d hd
    simp only [Function.update_of_ne (hsame d hd)]
    exact h.slot d hd
  · intro d hd e he hde
    simp only [Function.update_of_ne (hsame d hd), Function.update_of_ne (hsame e he)] at hde
    exact h.distinct d hd e he hde
  · intro i hi
    obtain ⟨d, hd, hdi⟩ := h.owned i hi
    exact ⟨d, hd, by simpa only [Function.update_of_ne (hsame d hd)] using hdi⟩
  · intro d hd
    by_cases hdc : d = c
    · subst hdc
      simpa using hneg
    · simpa only [Function.update_of_ne hdc] using h.removed d hd

/-- An unregistered channel may take another descriptor. -/
theorem indexed_setFd {w : World} (h : Indexed w) {c : ChanId} {fd : ℤ} {w' : World}
    (hstep : step w (.setFd c fd) = some w') : Indexed w' := by
  simp only [step] at hstep
  split at hstep
  case isFalse => cases hstep
  case isTrue hc =>
    obtain rfl := Option.some.inj hstep
    have hsame : ∀ d ∈ w.live, d ≠ c := fun d hd hdc => hc (hdc ▸ hd)
    refine ⟨?_, ?_, ?_, ?_, ?_, h.asserts⟩
    · intro f d
      rw [h.map_iff]
      refine and_congr_right fun hd => ?_
      simp only [Function.update_of_ne (hsame d hd)]
    · intro d hd
      simp only [Function.update_of_ne (hsame d hd)]
      exact h.slot d hd
    · intro d hd e he hde
      simp only [Function.update_of_ne (hsame d hd), Function.update_of_ne (hsame e he)] at hde
      exact h.distinct d hd e he hde
    · intro i hi
      obtain ⟨d, hd, hdi⟩ := h.owned i hi
      exact ⟨d, hd, by simpa only [Function.update_of_ne (hsame d hd)] using hdi⟩
    · intro d hd
      by_cases hdc : d = c
      · subst hdc
        simpa using h.removed d hd
      · simpa only [Function.update_of_ne hdc] using h.removed d hd

/-- Every good call keeps the index invariant. -/
theorem indexed_step (w : World) (i : Call) (w' : World) (h : Indexed w) (hgood : Good w i)
    (hstep : step w i = some w') : Indexed w' := by
  cases i with
  | update c events =>
    by_cases hc : c ∈ w.live
    · exact indexed_update h hc hstep
    · exact indexed_insert h hc hstep
  | remove c => exact indexed_remove h hgood hstep
  | setFd c fd => exact indexed_setFd h hstep

/-- The removed channel gets back the index it had. -/
theorem removeChannel_index (p : PollPoller) (ch : Channel ℤ) :
    (p.removeChannel ch).2.index = ch.index := by
  unfold removeChannel
  split
  · rfl
  · dsimp only
    split
    · rfl
    · simp only
      omega

/-- The removal of a registered channel leaves that channel with a slot. -/
theorem not_indexed_of_remove {w : World} (h : Indexed w) {c : ChanId} (hc : c ∈ w.live) :
    ∃ w', step w (.remove c) = some w' ∧ ¬ Indexed w' := by
  refine ⟨_, rfl, fun h' => ?_⟩
  have hneg := h'.removed c (Finset.notMem_erase c w.live)
  simp only [Function.update_self, removeChannel_index] at hneg
  exact absurd (h.slot c hc).1 (not_le.2 hneg)

/-- **When the index invariant holds.**  Over every sequence of calls by
channels with distinct descriptors, the poller and its channels agree in every
state if and only if no registered channel is ever removed. -/
theorem indexed_iff (fds : ChanId → ℤ) (is : List Call) :
    Always step Indexed (init fds) is ↔ Steps step Good (init fds) is := by
  refine always_iff_steps indexed_step (fun _ h => h) ?_ (indexed_init fds)
  intro w i h hgood
  cases i with
  | remove c => exact not_indexed_of_remove h (not_not.1 hgood)
  | update c events => exact absurd trivial hgood
  | setFd c fd => exact absurd trivial hgood

/-- **Two channels are enough.**  Channels `0` and `1` register with the
descriptors `3` and `4` and channel `0` is removed: the entry of channel `1`
moves to slot `0` while its index still says `1`, so its next update fails the
assert on the slot and would write past the end of the vector. -/
theorem stale_index :
    let w := run step (init fun c => c + 3)
      [.update 0 .ReadEvent, .update 1 .ReadEvent, .remove 0]
    w.map (fun w => (w.asserted, w.poller.pollfdList.length, (w.channels 0).index,
      (w.channels 1).index)) = some (true, 1, 0, 1) ∧
    (w.bind fun w => step w (.update 1 .WriteEvent)).map World.asserted = some false ∧
    ¬ Always step Indexed (init fun c => c + 3)
      [.update 0 .ReadEvent, .update 1 .ReadEvent, .remove 0] := by
  refine ⟨by decide, by decide, fun h => ?_⟩
  have hlast := h.last (t := _) rfl
  have : (0 : ℤ) < 0 := hlast.removed 0 (by decide)
  omega

end PollPoller

end Net
end Sevent
