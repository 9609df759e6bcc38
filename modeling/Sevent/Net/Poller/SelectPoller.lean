/-
# `SelectPoller`: three sets rebuilt for every poll

`sevent/net/poller/SelectPoller.cpp`.

The poller keeps `channelMap`, from descriptors to channels in the order of the
descriptors, and in each channel the status that `EpollPoller` keeps there.
`reset` builds the three descriptor sets of `select` from the map before every
poll: it goes over the channels with status `normal`, and stops when it has
counted `FD_SETSIZE` of them.

`reset_spec` says what the sets hold when no more than that are to be watched.
-/

import Sevent.Net.Channel
import Mathlib.Data.Finset.Basic
import Mathlib.Data.List.Sort

namespace Sevent
namespace Net

/-- `std::map<socket_t, Channel *>`, ordered by the descriptor. -/
abbrev ChannelMap := List (ℤ × ChanId)

namespace ChannelMap

/-- `channelMap[fd] = channel`. -/
def set (m : ChannelMap) (fd : ℤ) (c : ChanId) : ChannelMap :=
  (m.filter fun e => e.1 ≠ fd).orderedInsert (fun a b => a.1 ≤ b.1) (fd, c)

/-- `channelMap.erase(fd)`. -/
def erase (m : ChannelMap) (fd : ℤ) : ChannelMap := m.filter fun e => e.1 ≠ fd

end ChannelMap

/-- The sets that `select` is given, and its first argument less one. -/
structure FdSets where
  rset : Finset ℤ
  wset : Finset ℤ
  eset : Finset ℤ
  maxfd : ℤ

/-- What `reset` does with one channel. -/
def FdSets.put (s : FdSets) (ch : Channel ℤ) : FdSets :=
  let s := if ch.isEnableRead then
    { s with rset := insert ch.fd s.rset, eset := insert ch.fd s.eset } else s
  let s := if ch.isEnableWrite then { s with wset := insert ch.fd s.wset } else s
  if ch.isEnableRead ∨ ch.isEnableWrite then
    { s with maxfd := if ch.fd > s.maxfd then ch.fd else s.maxfd }
  else s

structure SelectPoller where
  channelMap : ChannelMap

namespace SelectPoller

/-- The size of an `fd_set`. -/
def FD_SETSIZE : ℕ := 1024

def ready : ℤ := -1
def normal : ℤ := 1
def removed : ℤ := 2

/-- The loop of `SelectPoller::reset`. -/
def resetLoop (channels : ChanId → Channel ℤ) : ChannelMap → FdSets → ℕ → FdSets
  | [], s, _ => s
  | (_, c) :: rest, s, count =>
    let ch := channels c
    if ch.index ≠ normal then resetLoop channels rest s count
    else
      let s := s.put ch
      if ch.isEnableRead ∨ ch.isEnableWrite then
        if count + 1 ≥ FD_SETSIZE then s else resetLoop channels rest s (count + 1)
      else resetLoop channels rest s count

/-- `SelectPoller::reset`. -/
def reset (p : SelectPoller) (channels : ChanId → Channel ℤ) : FdSets :=
  resetLoop channels p.channelMap { rset := ∅, wset := ∅, eset := ∅, maxfd := -1 } 0

/-- `SelectPoller::updateChannel`: the poller and the channel after the call. -/
def updateChannel (p : SelectPoller) (c : ChanId) (ch : Channel ℤ) : SelectPoller × Channel ℤ :=
  if ch.index = ready then
    ({ channelMap := p.channelMap.set ch.fd c }, { ch with index := normal })
  else if ch.index = normal then
    (p, if ch.isNoneEvent then { ch with index := removed } else ch)
  else (p, { ch with index := normal })

/-- `SelectPoller::removeChannel`. -/
def removeChannel (p : SelectPoller) (ch : Channel ℤ) : SelectPoller × Channel ℤ :=
  ({ channelMap := p.channelMap.erase ch.fd }, { ch with index := ready })

/-- The pairs of a descriptor and a mask that `select` will look at: the
descriptors in the sets up to `maxfd`. -/
def monitored (p : SelectPoller) (channels : ChanId → Channel ℤ) : Set (ℤ × Events) :=
  let s := p.reset channels
  { x | x.1 ≤ s.maxfd ∧ (x.1 ∈ s.rset ∨ x.1 ∈ s.eset ∨ x.1 ∈ s.wset) ∧
    x.2 = ⟨x.1 ∈ s.rset, x.1 ∈ s.wset⟩ }

/-! ### The sets -/

variable {channels : ChanId → Channel ℤ}

/-- A channel that `reset` puts into a set, for the flag that is tested. -/
def Puts (channels : ChanId → Channel ℤ) (flag : Channel ℤ → Bool) (m : ChannelMap) (fd : ℤ) :
    Prop :=
  ∃ e ∈ m, (channels e.2).index = normal ∧ flag (channels e.2) = true ∧ (channels e.2).fd = fd

theorem puts_cons {flag : Channel ℤ → Bool} {e : ℤ × ChanId} {m : ChannelMap} {fd : ℤ} :
    Puts channels flag (e :: m) fd ↔
      (channels e.2).index = normal ∧ flag (channels e.2) = true ∧ (channels e.2).fd = fd ∨
        Puts channels flag m fd := by
  simp [Puts]

/-- The two sets for reading agree, and `maxfd` is a bound. -/
structure FdSets.Ok (s : FdSets) : Prop where
  eset : s.eset = s.rset
  maxfd : ∀ fd, fd ∈ s.rset ∨ fd ∈ s.wset → fd ≤ s.maxfd

theorem FdSets.put_spec {s : FdSets} (h : FdSets.Ok s) (ch : Channel ℤ) :
    (∀ fd, fd ∈ (s.put ch).rset ↔ fd ∈ s.rset ∨ ch.isEnableRead = true ∧ ch.fd = fd) ∧
      (∀ fd, fd ∈ (s.put ch).wset ↔ fd ∈ s.wset ∨ ch.isEnableWrite = true ∧ ch.fd = fd) ∧
      FdSets.Ok (s.put ch) := by
  have hmax := h.maxfd
  unfold FdSets.put
  cases hr : ch.isEnableRead <;> cases hw : ch.isEnableWrite
  · simp [h]
  all_goals
    refine ⟨fun fd => by simp [eq_comm, or_comm], fun fd => by simp [eq_comm, or_comm],
      by simp [h.eset], fun fd hfd => ?_⟩
    have hold := hmax fd
    simp only [↓reduceIte, Bool.false_eq_true, Finset.mem_insert, or_false, or_true] at hfd ⊢
    split_ifs <;> grind

/-- A channel that is put into a set. -/
def watched (channels : ChanId → Channel ℤ) (e : ℤ × ChanId) : Bool :=
  (channels e.2).index = normal ∧ (channels e.2).events ≠ .NoneEvent

theorem watched_iff {e : ℤ × ChanId} : watched channels e = true ↔ (channels e.2).index = normal ∧
    ((channels e.2).isEnableRead = true ∨ (channels e.2).isEnableWrite = true) := by
  have hevents : (channels e.2).events ≠ .NoneEvent ↔
      (channels e.2).isEnableRead = true ∨ (channels e.2).isEnableWrite = true := by
    unfold Channel.isEnableRead Channel.isEnableWrite Events.NoneEvent
    rcases (channels e.2).events with ⟨read, write⟩
    cases read <;> cases write <;> simp
  rw [watched, decide_eq_true_iff, hevents]

theorem not_puts_of_watched {flag : Channel ℤ → Bool}
    (hflag : ∀ ch, flag ch = true → ch.isEnableRead = true ∨ ch.isEnableWrite = true)
    {m : ChannelMap} (hm : ∀ e ∈ m, watched channels e = false) (fd : ℤ) :
    ¬ Puts channels flag m fd := by
  rintro ⟨e, he, hnormal, hset, -⟩
  exact Bool.false_ne_true ((hm e he).symm.trans (watched_iff.2 ⟨hnormal, hflag _ hset⟩))

/-- What the loop adds, when no more channels are to come than it still counts. -/
theorem resetLoop_spec (channels : ChanId → Channel ℤ) (m : ChannelMap) (s : FdSets) (count : ℕ)
    (hcount : count + (m.filter (watched channels)).length ≤ FD_SETSIZE) (hs : FdSets.Ok s) :
    (∀ fd, fd ∈ (resetLoop channels m s count).rset ↔
        fd ∈ s.rset ∨ Puts channels Channel.isEnableRead m fd) ∧
      (∀ fd, fd ∈ (resetLoop channels m s count).wset ↔
        fd ∈ s.wset ∨ Puts channels Channel.isEnableWrite m fd) ∧
      FdSets.Ok (resetLoop channels m s count) := by
  induction m generalizing s count with
  | nil => simp [resetLoop, Puts, hs]
  | cons e m ih =>
    obtain ⟨key, c⟩ := e
    unfold resetLoop
    dsimp only
    by_cases hnormal : (channels c).index = normal
    · rw [if_neg (not_not.2 hnormal)]
      obtain ⟨hputr, hputw, hput⟩ := FdSets.put_spec hs (channels c)
      have hrest : ∀ count', count' + (m.filter (watched channels)).length ≤ FD_SETSIZE →
          (∀ fd, fd ∈ (resetLoop channels m (s.put (channels c)) count').rset ↔
            fd ∈ s.rset ∨ Puts channels Channel.isEnableRead ((key, c) :: m) fd) ∧
          (∀ fd, fd ∈ (resetLoop channels m (s.put (channels c)) count').wset ↔
            fd ∈ s.wset ∨ Puts channels Channel.isEnableWrite ((key, c) :: m) fd) ∧
          FdSets.Ok (resetLoop channels m (s.put (channels c)) count') := by
        intro count' hcount'
        obtain ⟨hread, hwrite, hok⟩ := ih (s.put (channels c)) count' hcount' hput
        simp only [puts_cons, hnormal, true_and, hread, hwrite, hputr, hputw, or_assoc,
          implies_true]
        exact hok
      by_cases hmask : (channels c).isEnableRead = true ∨ (channels c).isEnableWrite = true
      · rw [if_pos hmask]
        rw [List.filter_cons_of_pos (watched_iff.2 ⟨hnormal, hmask⟩), List.length_cons] at hcount
        by_cases hstop : count + 1 ≥ FD_SETSIZE
        · -- the last that is counted: none is to come
          rw [if_pos hstop]
          have hnone : ∀ e ∈ m, watched channels e = false := by
            have hnil := List.eq_nil_of_length_eq_zero
              (show (m.filter (watched channels)).length = 0 by omega)
            exact fun e he => Bool.eq_false_iff.2 (List.filter_eq_nil_iff.1 hnil e he)
          refine ⟨fun fd => ?_, fun fd => ?_, hput⟩
          · have hnot := not_puts_of_watched (fun _ => Or.inl) hnone fd
            simp only [hputr, puts_cons, hnormal, true_and, hnot, or_false]
          · have hnot := not_puts_of_watched (fun _ => Or.inr) hnone fd
            simp only [hputw, puts_cons, hnormal, true_and, hnot, or_false]
        · rw [if_neg hstop]
          exact hrest (count + 1) (by omega)
      · rw [if_neg hmask]
        refine hrest count (le_trans ?_ hcount)
        exact Nat.add_le_add_left ((List.sublist_cons_self ..).filter _).length_le _
    · rw [if_pos hnormal]
      obtain ⟨hread, hwrite, hok⟩ := ih s count
        (hcount.trans' (Nat.add_le_add_left ((List.sublist_cons_self ..).filter _).length_le _)) hs
      simp only [puts_cons, hnormal, false_and, false_or]
      exact ⟨hread, hwrite, hok⟩

/-- **The sets of `reset`** hold the registered descriptors by their masks, and
none of them is above `maxfd`, as long as the loop does not stop early. -/
theorem reset_spec (p : SelectPoller) (channels : ChanId → Channel ℤ)
    (hcount : (p.channelMap.filter (watched channels)).length ≤ FD_SETSIZE) :
    (∀ fd, fd ∈ (p.reset channels).rset ↔ Puts channels Channel.isEnableRead p.channelMap fd) ∧
      (∀ fd, fd ∈ (p.reset channels).wset ↔
        Puts channels Channel.isEnableWrite p.channelMap fd) ∧
      FdSets.Ok (p.reset channels) := by
  have hempty : FdSets.Ok { rset := ∅, wset := ∅, eset := ∅, maxfd := -1 } :=
    ⟨rfl, fun fd hfd => by simp at hfd⟩
  obtain ⟨hread, hwrite, hok⟩ := resetLoop_spec channels p.channelMap _ 0 (by omega) hempty
  simp only [Finset.notMem_empty, false_or] at hread hwrite
  exact ⟨hread, hwrite, hok⟩

/-- **What `select` looks at**: the channels of the map with status `normal` and
a mask that is not empty, when their descriptors are distinct. -/
theorem mem_monitored (p : SelectPoller) (channels : ChanId → Channel ℤ)
    (hlen : p.channelMap.length < FD_SETSIZE)
    (hfd : ∀ e ∈ p.channelMap, ∀ e' ∈ p.channelMap,
      (channels e.2).fd = (channels e'.2).fd → e.2 = e'.2) (fd : ℤ) (events : Events) :
    (fd, events) ∈ p.monitored channels ↔ ∃ e ∈ p.channelMap,
      (channels e.2).index = normal ∧ (channels e.2).fd = fd ∧ (channels e.2).events = events ∧
        events ≠ .NoneEvent := by
  obtain ⟨hread, hwrite, hok⟩ := reset_spec p channels
    ((List.length_filter_le ..).trans hlen.le)
  -- a flag is in its set when the one channel with the descriptor has it
  have hflag : ∀ flag : Channel ℤ → Bool, ∀ e ∈ p.channelMap, (channels e.2).index = normal →
      (channels e.2).fd = fd →
        (Puts channels flag p.channelMap fd ↔ flag (channels e.2) = true) := by
    intro flag e he hnormal hefd
    constructor
    · rintro ⟨e', he', -, hset, hfd'⟩
      rwa [hfd e he e' he' (hefd.trans hfd'.symm)]
    · exact fun hset => ⟨e, he, hnormal, hset, hefd⟩
  have hmask : ∀ e ∈ p.channelMap, (channels e.2).index = normal → (channels e.2).fd = fd →
      (⟨fd ∈ (p.reset channels).rset, fd ∈ (p.reset channels).wset⟩ : Events) =
        (channels e.2).events := by
    intro e he hnormal hefd
    have hr := (hread fd).trans (hflag Channel.isEnableRead e he hnormal hefd)
    have hw := (hwrite fd).trans (hflag Channel.isEnableWrite e he hnormal hefd)
    simp only [hr, hw, Channel.isEnableRead, Channel.isEnableWrite, Bool.decide_eq_true]
  unfold monitored
  simp only [Set.mem_ofPred_eq, hok.eset]
  constructor
  · rintro ⟨-, hin, hevents⟩
    have hmem : fd ∈ (p.reset channels).rset ∨ fd ∈ (p.reset channels).wset := by
      rcases hin with h | h | h
      · exact Or.inl h
      · exact Or.inl h
      · exact Or.inr h
    obtain ⟨e, he, hnormal, hefd⟩ : ∃ e ∈ p.channelMap, (channels e.2).index = normal ∧
        (channels e.2).fd = fd := by
      rcases hmem with h | h
      · obtain ⟨e, he, hn, -, hefd⟩ := (hread fd).1 h
        exact ⟨e, he, hn, hefd⟩
      · obtain ⟨e, he, hn, -, hefd⟩ := (hwrite fd).1 h
        exact ⟨e, he, hn, hefd⟩
    refine ⟨e, he, hnormal, hefd, (hevents.trans (hmask e he hnormal hefd)).symm, ?_⟩
    rw [hevents]
    rcases hmem with h | h <;> simp [h, Events.NoneEvent]
  · rintro ⟨e, he, hnormal, hefd, rfl, hne⟩
    have hevents := hmask e he hnormal hefd
    have hmem : fd ∈ (p.reset channels).rset ∨ fd ∈ (p.reset channels).wset := by
      by_contra hnone
      rw [not_or] at hnone
      refine hne (hevents.symm.trans ?_)
      simp [hnone.1, hnone.2, Events.NoneEvent]
    refine ⟨hok.maxfd fd hmem, ?_, hevents.symm⟩
    rcases hmem with h | h
    · exact Or.inl h
    · exact Or.inr (Or.inr h)

end SelectPoller

end Net
end Sevent
