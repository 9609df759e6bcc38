/-
# `SelectPoller`: bits and channels

`sevent/net/poller/SelectPoller.cpp`, `reset` and `fillActiveChannels`.

On Linux an `fd_set` is a set of `FD_SETSIZE` bits, one for each descriptor below
that.  `reset` keeps to it in the number of the descriptors and not in their
values, as an array of descriptors would need it: a channel with a descriptor
of `FD_SETSIZE` or more is put into the sets all the same.

After the poll `fillActiveChannels` goes over the map until it has found as many
channels as `select` has counted bits.  A channel has up to three bits and is
counted once, so the scan never ends too early; when a channel has more than one
it goes to the end of the map, and tests the bits of all channels on the way,
also of those that are not watched.

`selectPoller_bounds_iff` puts this together.  `tested` is not in the code: the
descriptors that `FD_ISSET` was given.
-/

import Sevent.Net.Poller.SelectPoller
import Mathlib.Data.Finset.Card
import Mathlib.Order.Interval.Finset.Nat
import Mathlib.Data.Int.Interval

namespace Sevent
namespace Net

/-- The sets as `select` leaves them. -/
structure Selected where
  rset : Finset ℤ
  wset : Finset ℤ
  eset : Finset ℤ

namespace Selected

/-- What `select` returns: the number of bits that are set. -/
def count (a : Selected) : ℕ := a.rset.card + a.wset.card + a.eset.card

/-- `FD_ISSET(fd, &rset) || FD_ISSET(fd, &eset)`. -/
def isread (a : Selected) (fd : ℤ) : Bool := fd ∈ a.rset ∨ fd ∈ a.eset

/-- `FD_ISSET(fd, &wset)`. -/
def iswrite (a : Selected) (fd : ℤ) : Bool := fd ∈ a.wset

/-- `select` clears bits and sets none. -/
structure Of (a : Selected) (s : FdSets) : Prop where
  rset : a.rset ⊆ s.rset
  wset : a.wset ⊆ s.wset
  eset : a.eset ⊆ s.eset

/-- No descriptor has a bit in two of the sets. -/
def Single (a : Selected) : Prop :=
  Disjoint a.rset a.wset ∧ Disjoint a.rset a.eset ∧ Disjoint a.wset a.eset

/-- A descriptor has a bit or more. -/
theorem card_le (a : Selected) : (a.rset ∪ a.wset ∪ a.eset).card ≤ a.count :=
  (Finset.card_union_le ..).trans (Nat.add_le_add_right (Finset.card_union_le ..) _)

theorem card_eq_iff (a : Selected) :
    (a.rset ∪ a.wset ∪ a.eset).card = a.count ↔ a.Single := by
  have h1 := Finset.card_union_add_card_inter (a.rset ∪ a.wset) a.eset
  have h2 := Finset.card_union_add_card_inter a.rset a.wset
  have hcard : (a.rset ∪ a.wset ∪ a.eset).card = a.count ↔
      (a.rset ∩ a.wset).card = 0 ∧ ((a.rset ∪ a.wset) ∩ a.eset).card = 0 := by
    unfold count
    omega
  rw [hcard, Finset.card_eq_zero, Finset.card_eq_zero, ← Finset.disjoint_iff_inter_eq_empty,
    ← Finset.disjoint_iff_inter_eq_empty, Finset.disjoint_union_left]
  rfl

end Selected

namespace SelectPoller

/-- What `fillActiveChannels` leaves behind: the list, the `revents` of the
channels, and the descriptors that it has tested. -/
structure Scan where
  activeChannels : List ChanId
  revents : ChanId → Events
  tested : List ℤ

/-- The loop of `fillActiveChannels`. -/
def fillLoop (channels : ChanId → Channel ℤ) (a : Selected) : ChannelMap → ℕ → Scan → Scan
  | [], _, s => s
  | (_, c) :: rest, count, s =>
    if count > 0 then
      let curfd := (channels c).fd
      let isread := a.isread curfd
      let iswrite := a.iswrite curfd
      let s := { s with tested := s.tested ++ [curfd] }
      let s := if isread then { s with revents := Function.update s.revents c .ReadEvent } else s
      let s := if iswrite then
        { s with
          revents := Function.update s.revents c
            (if isread then Events.WriteEvent.union .ReadEvent else .WriteEvent) }
        else s
      if isread ∨ iswrite then
        fillLoop channels a rest (count - 1) { s with activeChannels := s.activeChannels ++ [c] }
      else fillLoop channels a rest count s
    else s

/-- `SelectPoller::fillActiveChannels`, after `poll` has cleared the list. -/
def fillActiveChannels (p : SelectPoller) (channels : ChanId → Channel ℤ) (a : Selected)
    (count : ℕ) (revents : ChanId → Events) : Scan :=
  fillLoop channels a p.channelMap count { activeChannels := [], revents, tested := [] }

/-- The map holds the registered channels by their descriptors. -/
structure Registered (p : SelectPoller) (channels : ChanId → Channel ℤ) : Prop where
  sorted : p.channelMap.Pairwise fun e e' => e.1 < e'.1
  key : ∀ e ∈ p.channelMap, (channels e.2).fd = e.1
  nonneg : ∀ e ∈ p.channelMap, 0 ≤ e.1

/-- A channel for which `select` has left a bit. -/
def hasBit (channels : ChanId → Channel ℤ) (a : Selected) (e : ℤ × ChanId) : Bool :=
  a.isread (channels e.2).fd || a.iswrite (channels e.2).fd

/-- What one poll has to do: to watch all that is to be watched, to stay inside
the sets, and to report the channels with a bit, each once and with its events. -/
structure CoversWithinBounds (p : SelectPoller) (channels : ChanId → Channel ℤ) (a : Selected)
    (revents : ChanId → Events) : Prop where
  puts : ∀ e ∈ p.channelMap, (channels e.2).index = normal →
    ((channels e.2).isEnableRead = true → (channels e.2).fd ∈ (p.reset channels).rset ∧
      (channels e.2).fd ∈ (p.reset channels).eset) ∧
    ((channels e.2).isEnableWrite = true → (channels e.2).fd ∈ (p.reset channels).wset)
  setBound : ∀ fd, fd ∈ (p.reset channels).rset ∨ fd ∈ (p.reset channels).wset ∨
    fd ∈ (p.reset channels).eset → fd < FD_SETSIZE
  testBound : ∀ fd ∈ (p.fillActiveChannels channels a a.count revents).tested, fd < FD_SETSIZE
  once : (p.fillActiveChannels channels a a.count revents).activeChannels.Nodup
  reported : ∀ c, c ∈ (p.fillActiveChannels channels a a.count revents).activeChannels ↔
    ∃ e ∈ p.channelMap, e.2 = c ∧ hasBit channels a e = true
  matching : ∀ c ∈ (p.fillActiveChannels channels a a.count revents).activeChannels,
    (p.fillActiveChannels channels a a.count revents).revents c =
      ⟨a.isread (channels c).fd, a.iswrite (channels c).fd⟩

/-! ### The scan -/

section
variable {channels : ChanId → Channel ℤ} {a : Selected}

/-- The events of a channel with a bit, after its turn. -/
theorem fillLoop_cons {key : ℤ} {c : ChanId} {rest : ChannelMap} {count : ℕ} (s : Scan)
    (hcount : 0 < count) :
    fillLoop channels a ((key, c) :: rest) count s =
      if hasBit channels a (key, c) then
        fillLoop channels a rest (count - 1)
          { activeChannels := s.activeChannels ++ [c]
            revents := Function.update s.revents c
              ⟨a.isread (channels c).fd, a.iswrite (channels c).fd⟩
            tested := s.tested ++ [(channels c).fd] }
      else fillLoop channels a rest count { s with tested := s.tested ++ [(channels c).fd] } := by
  rw [fillLoop, if_pos hcount, hasBit]
  dsimp only
  cases a.isread (channels c).fd <;> cases a.iswrite (channels c).fd <;>
    simp [Events.union, Events.ReadEvent, Events.WriteEvent]

/-- **What is reported**, when the count does not run out. -/
theorem fillLoop_active {m : ChannelMap} :
    ∀ {count : ℕ} {s : Scan}, (m.filter (hasBit channels a)).length ≤ count →
      (fillLoop channels a m count s).activeChannels =
        s.activeChannels ++ (m.filter (hasBit channels a)).map Prod.snd := by
  induction m with
  | nil => simp [fillLoop]
  | cons e m ih =>
    obtain ⟨key, c⟩ := e
    intro count s hcount
    rcases Nat.eq_zero_or_pos count with rfl | hpos
    · rw [List.eq_nil_of_length_eq_zero (Nat.le_zero.1 hcount)]
      simp [fillLoop]
    · rw [fillLoop_cons s hpos]
      by_cases hbit : hasBit channels a (key, c) = true
      · rw [List.filter_cons_of_pos hbit, List.length_cons] at hcount
        rw [if_pos hbit, List.filter_cons_of_pos hbit, ih (by omega), List.map_cons,
          List.append_assoc]
        rfl
      · rw [List.filter_cons_of_neg hbit] at hcount
        rw [if_neg hbit, List.filter_cons_of_neg hbit, ih hcount]

/-- A channel outside the map keeps its `revents`. -/
theorem fillLoop_revents_of_not_mem {m : ChannelMap} {c : ChanId} :
    ∀ {count : ℕ} {s : Scan}, (∀ e ∈ m, e.2 ≠ c) →
      (fillLoop channels a m count s).revents c = s.revents c := by
  induction m with
  | nil => exact fun _ => rfl
  | cons e m ih =>
    obtain ⟨key, d⟩ := e
    intro count s hne
    have hrest : ∀ e ∈ m, e.2 ≠ c := fun e he => hne e (List.mem_cons_of_mem _ he)
    rcases Nat.eq_zero_or_pos count with rfl | hpos
    · rfl
    · rw [fillLoop_cons s hpos]
      split
      · rw [ih hrest]
        exact Function.update_of_ne (hne (key, d) List.mem_cons_self).symm _ _
      · rw [ih hrest]

/-- **The events of what is reported.** -/
theorem fillLoop_revents {m : ChannelMap} :
    ∀ {count : ℕ} {s : Scan}, (m.map Prod.snd).Nodup →
      (m.filter (hasBit channels a)).length ≤ count →
      ∀ e ∈ m, hasBit channels a e = true →
        (fillLoop channels a m count s).revents e.2 =
          ⟨a.isread (channels e.2).fd, a.iswrite (channels e.2).fd⟩ := by
  induction m with
  | nil => exact fun _ _ e he => absurd he List.not_mem_nil
  | cons e₀ m ih =>
    obtain ⟨key, c⟩ := e₀
    intro count s hnodup hcount e he hbit
    rw [List.map_cons, List.nodup_cons] at hnodup
    have hpos : 0 < count := (List.length_pos_of_mem (List.mem_filter.2 ⟨he, hbit⟩)).trans_le hcount
    rw [fillLoop_cons s hpos]
    rcases List.mem_cons.1 he with rfl | he
    · have hrest : ∀ e ∈ m, e.2 ≠ c := fun e he heq =>
        hnodup.1 (List.mem_map.2 ⟨e, he, heq⟩)
      rw [if_pos hbit, fillLoop_revents_of_not_mem hrest]
      exact Function.update_self ..
    · by_cases hhead : hasBit channels a (key, c) = true
      · rw [List.filter_cons_of_pos hhead, List.length_cons] at hcount
        rw [if_pos hhead]
        exact ih hnodup.2 (by omega) e he hbit
      · rw [List.filter_cons_of_neg hhead] at hcount
        rw [if_neg hhead]
        exact ih hnodup.2 hcount e he hbit

/-- With bits to spare the scan goes to the end of the map. -/
theorem fillLoop_tested_of_lt {m : ChannelMap} :
    ∀ {count : ℕ} {s : Scan}, (m.filter (hasBit channels a)).length < count →
      (fillLoop channels a m count s).tested = s.tested ++ m.map fun e => (channels e.2).fd := by
  induction m with
  | nil => simp [fillLoop]
  | cons e m ih =>
    obtain ⟨key, c⟩ := e
    intro count s hcount
    rw [fillLoop_cons s (by omega)]
    by_cases hbit : hasBit channels a (key, c) = true
    · rw [List.filter_cons_of_pos hbit, List.length_cons] at hcount
      rw [if_pos hbit, ih (by omega)]
      simp
    · rw [List.filter_cons_of_neg hbit] at hcount
      rw [if_neg hbit, ih hcount]
      simp

/-- What is tested is in the map. -/
theorem mem_of_tested {m : ChannelMap} {fd : ℤ} :
    ∀ {count : ℕ} {s : Scan}, fd ∈ (fillLoop channels a m count s).tested →
      fd ∈ s.tested ∨ ∃ e ∈ m, (channels e.2).fd = fd := by
  induction m with
  | nil => exact fun h => .inl h
  | cons e m ih =>
    obtain ⟨key, c⟩ := e
    intro count s h
    have hturn : ∀ {count' : ℕ} {s' : Scan}, s'.tested = s.tested ++ [(channels c).fd] →
        fd ∈ (fillLoop channels a m count' s').tested →
          fd ∈ s.tested ∨ ∃ e ∈ (key, c) :: m, (channels e.2).fd = fd := by
      intro count' s' hs' h
      rcases ih h with hold | ⟨e, he, hfd⟩
      · rw [hs', List.mem_append, List.mem_singleton] at hold
        exact hold.imp_right fun h => ⟨(key, c), List.mem_cons_self, h.symm⟩
      · exact .inr ⟨e, List.mem_cons_of_mem _ he, hfd⟩
    rcases Nat.eq_zero_or_pos count with rfl | hpos
    · exact .inl h
    · rw [fillLoop_cons s hpos] at h
      split at h
      · exact hturn (by rfl) h
      · exact hturn (by rfl) h

/-- With no bit to spare the scan ends at the last channel that has one. -/
theorem le_of_tested {m : ChannelMap} {fd : ℤ} :
    ∀ {count : ℕ} {s : Scan},
      (m.Pairwise fun e e' => (channels e.2).fd < (channels e'.2).fd) →
      count = (m.filter (hasBit channels a)).length →
      fd ∈ (fillLoop channels a m count s).tested →
        fd ∈ s.tested ∨ ∃ e ∈ m, hasBit channels a e = true ∧ fd ≤ (channels e.2).fd := by
  induction m with
  | nil => exact fun _ _ h => .inl h
  | cons e m ih =>
    obtain ⟨key, c⟩ := e
    intro count s hsorted hcount h
    obtain ⟨hhead, htail⟩ := List.pairwise_cons.1 hsorted
    rcases Nat.eq_zero_or_pos count with rfl | hpos
    · exact .inl h
    -- a bit is still to come, here or later
    have hhere : ∃ e ∈ (key, c) :: m, hasBit channels a e = true ∧
        (channels c).fd ≤ (channels e.2).fd := by
      obtain ⟨e, he⟩ := List.exists_mem_of_length_pos (hcount ▸ hpos)
      obtain ⟨he, hbit⟩ := List.mem_filter.1 he
      refine ⟨e, he, hbit, ?_⟩
      rcases List.mem_cons.1 he with rfl | he
      · exact le_rfl
      · exact (hhead e he).le
    have hturn : ∀ {count' : ℕ} {s' : Scan}, s'.tested = s.tested ++ [(channels c).fd] →
        count' = (m.filter (hasBit channels a)).length →
        fd ∈ (fillLoop channels a m count' s').tested →
          fd ∈ s.tested ∨ ∃ e ∈ (key, c) :: m, hasBit channels a e = true ∧
            fd ≤ (channels e.2).fd := by
      intro count' s' hs' hcount' h
      rcases ih htail hcount' h with hold | ⟨e, he, hbit, hle⟩
      · rw [hs', List.mem_append, List.mem_singleton] at hold
        rcases hold with hold | rfl
        · exact .inl hold
        · exact .inr hhere
      · exact .inr ⟨e, List.mem_cons_of_mem _ he, hbit, hle⟩
    rw [fillLoop_cons s hpos] at h
    by_cases hbit : hasBit channels a (key, c) = true
    · rw [if_pos hbit] at h
      rw [List.filter_cons_of_pos hbit, List.length_cons] at hcount
      exact hturn (by rfl) (by omega) h
    · rw [if_neg hbit] at h
      rw [List.filter_cons_of_neg hbit] at hcount
      exact hturn (by rfl) hcount h

end

/-! ### The sets and the map -/

section
variable {p : SelectPoller} {channels : ChanId → Channel ℤ} {a : Selected}

theorem Registered.fd_sorted (hr : Registered p channels) :
    p.channelMap.Pairwise fun e e' => (channels e.2).fd < (channels e'.2).fd := by
  refine List.Pairwise.imp_of_mem (fun {e e'} he he' hlt => ?_) hr.sorted
  rwa [hr.key e he, hr.key e' he']

/-- No channel is in the map twice. -/
theorem Registered.nodup (hr : Registered p channels) : (p.channelMap.map Prod.snd).Nodup := by
  refine List.pairwise_map.2 (hr.fd_sorted.imp fun hlt heq => ?_)
  rw [heq] at hlt
  exact lt_irrefl _ hlt

/-- The descriptors of some channels of the map, as a set. -/
def fds (channels : ChanId → Channel ℤ) (m : ChannelMap) : Finset ℤ :=
  (m.map fun e => (channels e.2).fd).toFinset

theorem Registered.card_fds (hr : Registered p channels) (q : ℤ × ChanId → Bool) :
    (fds channels (p.channelMap.filter q)).card = (p.channelMap.filter q).length := by
  rw [fds, List.toFinset_card_of_nodup, List.length_map]
  exact List.pairwise_map.2 ((hr.fd_sorted.filter q).imp fun hlt => hlt.ne)

/-- Descriptors below `FD_SETSIZE` are not too many. -/
theorem Registered.watched_le (hr : Registered p channels)
    (hbound : ∀ e ∈ p.channelMap, watched channels e = true → (channels e.2).fd < FD_SETSIZE) :
    (p.channelMap.filter (watched channels)).length ≤ FD_SETSIZE := by
  rw [← hr.card_fds]
  refine (Finset.card_le_card (t := Finset.Ico 0 (FD_SETSIZE : ℤ)) fun fd hfd => ?_).trans ?_
  · obtain ⟨e, he, rfl⟩ := List.mem_map.1 (List.mem_toFinset.1 hfd)
    obtain ⟨he, hw⟩ := List.mem_filter.1 he
    exact Finset.mem_Ico.2 ⟨by rw [hr.key e he]; exact hr.nonneg e he, hbound e he hw⟩
  · rw [Int.card_Ico]
    omega

/-- Every bit that `select` leaves belongs to a watched channel. -/
theorem watched_of_bit (hcount : (p.channelMap.filter (watched channels)).length ≤ FD_SETSIZE)
    (ha : a.Of (p.reset channels)) {fd : ℤ} (hfd : fd ∈ a.rset ∪ a.wset ∪ a.eset) :
    ∃ e ∈ p.channelMap, watched channels e = true ∧ (channels e.2).fd = fd := by
  obtain ⟨hread, hwrite, hok⟩ := reset_spec p channels hcount
  have hputs : Puts channels Channel.isEnableRead p.channelMap fd ∨
      Puts channels Channel.isEnableWrite p.channelMap fd := by
    rw [Finset.mem_union, Finset.mem_union] at hfd
    rcases hfd with (h | h) | h
    · exact .inl ((hread fd).1 (ha.rset h))
    · exact .inr ((hwrite fd).1 (ha.wset h))
    · exact .inl ((hread fd).1 (hok.eset ▸ ha.eset h))
  rcases hputs with ⟨e, he, hnormal, hset, hefd⟩ | ⟨e, he, hnormal, hset, hefd⟩
  · exact ⟨e, he, watched_iff.2 ⟨hnormal, .inl hset⟩, hefd⟩
  · exact ⟨e, he, watched_iff.2 ⟨hnormal, .inr hset⟩, hefd⟩

theorem hasBit_iff {e : ℤ × ChanId} :
    hasBit channels a e = true ↔ (channels e.2).fd ∈ a.rset ∪ a.wset ∪ a.eset := by
  simp only [hasBit, Selected.isread, Selected.iswrite, Bool.or_eq_true, decide_eq_true_eq,
    Finset.mem_union]
  exact or_right_comm

/-- The channels with a bit are as many as the descriptors with a bit. -/
theorem length_hasBit (hr : Registered p channels)
    (hcount : (p.channelMap.filter (watched channels)).length ≤ FD_SETSIZE)
    (ha : a.Of (p.reset channels)) :
    (p.channelMap.filter (hasBit channels a)).length = (a.rset ∪ a.wset ∪ a.eset).card := by
  rw [← hr.card_fds]
  congr 1
  ext fd
  rw [fds, List.mem_toFinset, List.mem_map]
  refine ⟨fun ⟨e, he, hfd⟩ => ?_, fun hfd => ?_⟩
  · exact hfd ▸ hasBit_iff.1 (List.mem_filter.1 he).2
  · obtain ⟨e, he, -, rfl⟩ := watched_of_bit hcount ha hfd
    exact ⟨e, List.mem_filter.2 ⟨he, hasBit_iff.2 hfd⟩, rfl⟩

/-! ### One poll -/

/-- **Where a poll stays inside the sets.**  With the answer `a` of `select`, all
that is watched is put into the sets, no index of `FD_SET` and `FD_ISSET` is
`FD_SETSIZE` or more, and the channels with a bit are reported, each once and
with its events, if and only if no watched channel has such a descriptor, and no
other channel has one either, unless no descriptor has got more than one bit. -/
theorem selectPoller_bounds_iff (hr : Registered p channels) (ha : a.Of (p.reset channels))
    (revents : ChanId → Events) :
    CoversWithinBounds p channels a revents ↔
      (∀ e ∈ p.channelMap, watched channels e = true → (channels e.2).fd < FD_SETSIZE) ∧
        ((∀ e ∈ p.channelMap, (channels e.2).fd < FD_SETSIZE) ∨ a.Single) := by
  refine ⟨fun h => ?_, fun ⟨hwatched, hothers⟩ => ?_⟩
  · have hwatched : ∀ e ∈ p.channelMap, watched channels e = true →
        (channels e.2).fd < FD_SETSIZE := by
      intro e he hw
      obtain ⟨hnormal, hmask⟩ := watched_iff.1 hw
      obtain ⟨hread, hwrite⟩ := h.puts e he hnormal
      rcases hmask with hset | hset
      · exact h.setBound _ (.inl (hread hset).1)
      · exact h.setBound _ (.inr (.inl (hwrite hset)))
    refine ⟨hwatched, ?_⟩
    by_contra hnot
    obtain ⟨hhigh, hsingle⟩ := not_or.1 hnot
    have hlt : (p.channelMap.filter (hasBit channels a)).length < a.count := by
      rw [length_hasBit hr (hr.watched_le hwatched) ha]
      exact lt_of_le_of_ne a.card_le fun heq => hsingle (a.card_eq_iff.1 heq)
    refine hhigh fun e he => h.testBound _ ?_
    rw [fillActiveChannels, fillLoop_tested_of_lt hlt]
    exact List.mem_map_of_mem he
  · have hcount := hr.watched_le hwatched
    obtain ⟨hread, hwrite, hok⟩ := reset_spec p channels hcount
    have hlen := length_hasBit hr hcount ha
    have hle : (p.channelMap.filter (hasBit channels a)).length ≤ a.count := hlen ▸ a.card_le
    have hactive : (p.fillActiveChannels channels a a.count revents).activeChannels =
        (p.channelMap.filter (hasBit channels a)).map Prod.snd := fillLoop_active hle
    refine ⟨fun e he hnormal => ⟨fun hset => ?_, fun hset => ?_⟩, fun fd hfd => ?_,
      fun fd hfd => ?_, ?_, fun c => ?_, fun c hc => ?_⟩
    · rw [hok.eset, and_self, hread]
      exact ⟨e, he, hnormal, hset, rfl⟩
    · rw [hwrite]
      exact ⟨e, he, hnormal, hset, rfl⟩
    · rw [hok.eset, hread, hwrite] at hfd
      have hputs : ∃ e ∈ p.channelMap, watched channels e = true ∧ (channels e.2).fd = fd := by
        rcases hfd with ⟨e, he, hn, hset, hefd⟩ | ⟨e, he, hn, hset, hefd⟩ | ⟨e, he, hn, hset, hefd⟩
        · exact ⟨e, he, watched_iff.2 ⟨hn, .inl hset⟩, hefd⟩
        · exact ⟨e, he, watched_iff.2 ⟨hn, .inr hset⟩, hefd⟩
        · exact ⟨e, he, watched_iff.2 ⟨hn, .inl hset⟩, hefd⟩
      obtain ⟨e, he, hw, rfl⟩ := hputs
      exact hwatched e he hw
    · rcases hothers with hall | hsingle
      · obtain ⟨e, he, rfl⟩ := (mem_of_tested hfd).resolve_left List.not_mem_nil
        exact hall e he
      · have heq : a.count = (p.channelMap.filter (hasBit channels a)).length := by
          rw [hlen, a.card_eq_iff.2 hsingle]
        obtain ⟨e, he, hbit, hle⟩ :=
          (le_of_tested hr.fd_sorted heq hfd).resolve_left List.not_mem_nil
        obtain ⟨e', he', hw, hfd'⟩ := watched_of_bit hcount ha (hasBit_iff.1 hbit)
        exact hle.trans_lt (hfd' ▸ hwatched e' he' hw)
    · rw [hactive]
      exact (List.filter_sublist.map _).nodup hr.nodup
    · rw [hactive]
      refine List.mem_map.trans ⟨fun ⟨e, he, hec⟩ => ?_, fun ⟨e, he, hec, hbit⟩ => ?_⟩
      · exact ⟨e, (List.mem_filter.1 he).1, hec, (List.mem_filter.1 he).2⟩
      · exact ⟨e, List.mem_filter.2 ⟨he, hbit⟩, hec⟩
    · rw [hactive] at hc
      obtain ⟨e, he, rfl⟩ := List.mem_map.1 hc
      obtain ⟨he, hbit⟩ := List.mem_filter.1 he
      exact fillLoop_revents hr.nodup hle e he hbit

end

/-- A channel that is read, and one that is in the map without being watched. -/
theorem selectPoller_bounds_two :
    let p : SelectPoller := { channelMap := [(5, 0), (2000, 1)] }
    let channels : ChanId → Channel ℤ := fun c =>
      if c = 0 then ⟨5, ⟨true, true⟩, normal⟩ else ⟨2000, .NoneEvent, removed⟩
    p.CoversWithinBounds channels ⟨{5}, ∅, ∅⟩ (fun _ => .NoneEvent) ∧
      ¬ p.CoversWithinBounds channels ⟨{5}, {5}, ∅⟩ (fun _ => .NoneEvent) := by
  have hr : Registered { channelMap := [(5, 0), (2000, 1)] } fun c =>
      if c = 0 then ⟨5, ⟨true, true⟩, normal⟩ else ⟨2000, .NoneEvent, removed⟩ :=
    ⟨by simp, by simp, by simp⟩
  refine ⟨(selectPoller_bounds_iff hr ⟨by decide, by decide, by decide⟩ _).2 ⟨by decide, .inr ?_⟩,
    fun h => ?_⟩
  · exact ⟨by decide, by decide, by decide⟩
  · have hbound := (selectPoller_bounds_iff hr ⟨by decide, by decide, by decide⟩ _).1 h
    rcases hbound.2 with hall | hsingle
    · exact absurd (hall (2000, 1) (by simp)) (by decide)
    · exact absurd hsingle.1 (by decide)

/-- **A channel with descriptor 1024**: `FD_SET` is called for it without a test, and
its bit is behind the end of the sets. -/
theorem selectPoller_out_of_bounds :
    let p : SelectPoller := { channelMap := [(1024, 0)] }
    let channels : ChanId → Channel ℤ := fun _ => ⟨1024, .ReadEvent, normal⟩
    (1024 : ℤ) ∈ (p.reset channels).rset ∧
      ¬ p.CoversWithinBounds channels ⟨∅, ∅, ∅⟩ (fun _ => .NoneEvent) :=
  ⟨by decide, fun h => absurd (h.setBound 1024 (by decide)) (by decide)⟩

end SelectPoller
end Net
end Sevent
