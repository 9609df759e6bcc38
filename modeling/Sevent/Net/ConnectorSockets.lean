/-
# Who owns a connector's descriptors

Every descriptor that `createNBlockfd` returns should be closed once by the
connector, or be handed to one `TcpConnection`, or be the one the connector is
waiting for.  `accounted` counts the three, and `Owned` says that they add up to
one for every descriptor, and that no attempt replaces the channel's descriptor
while it is in the poller or open.

`connect` and the retry timers start attempts without looking at the state, and
a retry timer is never cancelled: after `shutdown` and `connect` the timer of
the earlier `connect` still fires, and its attempt replaces the descriptor that
the new one waits for.  `owned_iff` shows that such attempts are all that can go
wrong: a run owns its descriptors in every state if and only if each of its
attempts starts when no other is in progress and after the connection that took
the channel's descriptor has closed it (`StartsAfterClose`).
-/

import Sevent.Net.ConnectorSpec
import Sevent.Lib.Log
import Sevent.Lib.Run

namespace Sevent
namespace Net
namespace Connector

open Transition Log

namespace Core

/-- The connector waits for the descriptor. -/
def Holds (c : Core) (s : ℕ) : Prop := c.state = .connecting ∧ c.channel.fd = some s

instance (c : Core) (s : ℕ) : Decidable (c.Holds s) := inferInstanceAs (Decidable (_ ∧ _))

/-- In how many places the descriptor is: closed by the connector, handed to a
connection, held by the connector. -/
def accounted (c : Core) (s : ℕ) : ℕ :=
  c.log.count (.close (some s)) + c.log.count (.handOver (some s)) + if c.Holds s then 1 else 0

/-- A descriptor that is replaced is out of the poller and closed. -/
def Released (past : List Act) : Act → Prop
  | .replace old registered => old ≠ none →
    registered = false ∧ (Act.close old ∈ past ∨ Act.connClose old ∈ past)
  | _ => True

/-- **Every descriptor is in exactly one place**, at most one of them is held,
and none is replaced before it is released. -/
structure Owned (c : Core) : Prop where
  once : ∀ s, Act.socket s ∈ c.log → c.accounted s = 1
  held : ∀ s s', c.Holds s → c.Holds s' → s = s'
  replaced : Justified Released c.log

end Core

/-- The condition: an attempt starts when no other is in progress, and when the
connection that took the channel's descriptor, if one did, has closed it. -/
def StartsAfterClose (w : Connector) (i : Input) : Prop :=
  w.Attempts i → w.state ≠ .connecting ∧
    ∀ id k, w.conns id = some k → k.fd = w.channel.fd → k.fdClosed = true

namespace Core

/-- The descriptors up to the last `socket` call are accounted for. -/
structure Ledger (c : Core) : Prop where
  once : ∀ s < c.sockets, c.accounted s = 1
  created : ∀ s, Act.socket s ∈ c.log → s < c.sockets
  fresh : ∀ s, Act.close (some s) ∈ c.log ∨ Act.handOver (some s) ∈ c.log → s < c.sockets
  fd : ∀ s, c.channel.fd = some s → s < c.sockets

/-- The connections and the descriptors they were given. -/
structure Handed (c : Core) : Prop where
  given : ∀ id k, c.conns id = some k → ∃ s, k.fd = some s ∧ Act.handOver (some s) ∈ c.log
  conn : ∀ fd, Act.handOver fd ∈ c.log ∨ Act.connClose fd ∈ c.log →
    ∃ id k, c.conns id = some k ∧ k.fd = fd
  closed : ∀ id k, c.conns id = some k → (k.fdClosed = true ↔ Act.connClose k.fd ∈ c.log)
  unique : ∀ id k id' k', c.conns id = some k → c.conns id' = some k' → k.fd = k'.fd → id = id'
  lt : ∀ id k, c.conns id = some k → id < c.nextId
  dead : ∀ id k, c.conns id = some k → k.fdClosed = true → k.state = .disconnected
  idle : ∀ id k, c.conns id = some k → k.fdClosed = false →
    c.channel.fd = k.fd ∧ c.state ≠ .connecting

/-- The running calls of `handleClose` are of different connections, which have
not closed their descriptors. -/
structure Frames (c : Core) : Prop where
  isOpen : ∀ f ∈ c.closing, ∃ k, c.conns f.id = some k ∧ k.fdClosed = false ∧
    k.state = .disconnected
  nodup : (c.closing.map Frame.id).Nodup

/-- What a run of good steps keeps. -/
structure SocketInv (c : Core) : Prop where
  registered : c.Registered
  ledger : c.Ledger
  handed : c.Handed
  frames : c.Frames
  replaced : Justified Released c.log

variable {c c' : Core} {a : Attempt} {id : ℕ} {k : Conn}

/-- The invariant says the account of every descriptor. -/
theorem SocketInv.owned (h : c.SocketInv) : c.Owned :=
  ⟨fun s hs => h.ledger.once s (h.ledger.created s hs),
    fun _ _ hs hs' => Option.some.inj (hs.2.symm.trans hs'.2), h.replaced⟩

/-! ### The ledger -/

/-- An act that closes no descriptor of the connector and hands none over. -/
def Neutral : Act → Prop
  | .close _ | .handOver _ => False
  | _ => True

/-- A descriptor that the connector holds is counted once for that. -/
theorem accounted_held {s : ℕ} (h : c.Holds s) : c.accounted s =
    c.log.count (.close (some s)) + c.log.count (.handOver (some s)) + 1 := by
  rw [accounted, if_pos h]

/-- A descriptor that it does not hold is counted in the log only. -/
theorem accounted_not_held {s : ℕ} (h : ¬ c.Holds s) : c.accounted s =
    c.log.count (.close (some s)) + c.log.count (.handOver (some s)) := by
  rw [accounted, if_neg h, Nat.add_zero]

/-- What neither closes nor hands over a descriptor leaves its account. -/
theorem count_neutral (log : List Act) {acts : List Act} (h : ∀ x ∈ acts, Neutral x) (s : ℕ) :
    (log ++ acts).count (.close (some s)) = log.count (.close (some s)) ∧
      (log ++ acts).count (.handOver (some s)) = log.count (.handOver (some s)) := by
  have hnot : ∀ x, ¬ Neutral x → x ∉ acts := fun x hx hmem => hx (h x hmem)
  have hclose : Act.close (some s) ∉ acts := hnot _ not_false
  have hhand : Act.handOver (some s) ∉ acts := hnot _ not_false
  constructor
  · rw [List.count_append, List.count_eq_zero_of_not_mem hclose, Nat.add_zero]
  · rw [List.count_append, List.count_eq_zero_of_not_mem hhand, Nat.add_zero]

/-- A step that only writes neutral acts, and after which the same descriptors
are held. -/
theorem Ledger.neutral (h : c.Ledger) {acts : List Act} (hlog : c'.log = c.log ++ acts)
    (hacts : ∀ x ∈ acts, Neutral x) (hsocket : ∀ s, Act.socket s ∉ acts)
    (hsockets : c'.sockets = c.sockets) (hfd : c'.channel.fd = c.channel.fd)
    (hstate : c'.state = .connecting ↔ c.state = .connecting) : c'.Ledger := by
  refine ⟨fun s hs => ?_, fun s hs => ?_, fun s hs => ?_, fun s hs => ?_⟩
  · obtain ⟨hclose, hhand⟩ := count_neutral c.log hacts s
    have hholds : c'.Holds s ↔ c.Holds s := by
      unfold Holds
      rw [hstate, hfd]
    unfold accounted
    rw [hlog, hclose, hhand, if_congr hholds rfl rfl]
    exact h.once s (hsockets ▸ hs)
  · rw [hlog, List.mem_append] at hs
    rw [hsockets]
    exact h.created s (hs.resolve_right (hsocket s))
  · rw [hlog, List.mem_append, List.mem_append] at hs
    rw [hsockets]
    refine h.fresh s (hs.imp (fun hs => hs.resolve_right ?_) (fun hs => hs.resolve_right ?_))
    · exact fun hm => hacts _ hm
    · exact fun hm => hacts _ hm
  · rw [hsockets]
    exact h.fd s (hfd ▸ hs)

/-- **The end of an attempt**: the descriptor that was held is closed or handed
over. -/
theorem Ledger.settle (h : c.Ledger) {s₀ : ℕ} (hheld : c.Holds s₀) {acts : List Act} {x : Act}
    (hlog : c'.log = c.log ++ acts ++ [x]) (hacts : ∀ y ∈ acts, Neutral y)
    (hsocket : ∀ s, Act.socket s ∉ acts)
    (hx : x = .close (some s₀) ∨ x = .handOver (some s₀)) (hsockets : c'.sockets = c.sockets)
    (hfd : c'.channel.fd = c.channel.fd) (hstate : c'.state ≠ .connecting) : c'.Ledger := by
  have hlt : s₀ < c.sockets := h.fd s₀ hheld.2
  refine ⟨fun s hs => ?_, fun s hs => ?_, fun s hs => ?_, fun s hs => ?_⟩
  · have hbefore := h.once s (hsockets ▸ hs)
    obtain ⟨hclose, hhand⟩ := count_neutral c.log hacts s
    have hcount : ∀ y, c'.log.count y = (c.log ++ acts).count y + [x].count y := fun y => by
      rw [hlog, List.count_append]
    rw [accounted_not_held fun hn => hstate hn.1, hcount, hcount, hclose, hhand]
    by_cases heq : s = s₀
    · subst heq
      rw [accounted_held hheld] at hbefore
      rcases hx with rfl | rfl
      · simp
        omega
      · simp
        omega
    · have hne : ¬ c.Holds s := fun hn => heq (Option.some.inj (hn.2.symm.trans hheld.2))
      have hne' : s₀ ≠ s := fun he => heq he.symm
      rw [accounted_not_held hne] at hbefore
      rcases hx with rfl | rfl
      · simpa [hne'] using hbefore
      · simpa [hne'] using hbefore
  · rw [hlog, List.mem_append, List.mem_append] at hs
    rw [hsockets]
    refine h.created s ((hs.resolve_right ?_).resolve_right (hsocket s))
    rcases hx with rfl | rfl <;> simp
  · rw [hsockets]
    simp only [hlog, List.mem_append, List.mem_singleton] at hs
    by_cases heq : s = s₀
    · rw [heq]
      exact hlt
    · refine h.fresh s (hs.imp (fun hs => (hs.resolve_right ?_).resolve_right ?_)
        (fun hs => (hs.resolve_right ?_).resolve_right ?_))
      · rcases hx with rfl | rfl <;> simp [heq]
      · exact fun hm => hacts _ hm
      · rcases hx with rfl | rfl <;> simp [heq]
      · exact fun hm => hacts _ hm
  · rw [hsockets]
    exact h.fd s (hfd ▸ hs)

/-- Without an attempt on its way, all descriptors are closed or handed over. -/
theorem Ledger.settled (h : c.Ledger) (hstate : c.state ≠ .connecting) {s : ℕ}
    (hs : s < c.sockets) :
    c.log.count (.close (some s)) + c.log.count (.handOver (some s)) = 1 := by
  rw [← accounted_not_held fun hn => hstate hn.1]
  exact h.once s hs

/-- A descriptor to come has not been closed or handed over. -/
theorem Ledger.unused (h : c.Ledger) : c.log.count (.close (some c.sockets)) = 0 ∧
    c.log.count (.handOver (some c.sockets)) = 0 := by
  constructor
  · exact List.count_eq_zero_of_not_mem fun hm => absurd (h.fresh _ (Or.inl hm)) (by omega)
  · exact List.count_eq_zero_of_not_mem fun hm => absurd (h.fresh _ (Or.inr hm)) (by omega)

/-- An attempt whose `socket` fails. -/
theorem Ledger.attempt_noSocket (h : c.Ledger) (hstate : c.state ≠ .connecting)
    (hsock : a.sock = false) : (c.attempt a).Ledger := by
  obtain ⟨-, -, -, -, hsockets⟩ := attempt_rest (c := c) (a := a)
  have hfd := attempt_fd (c := c) (a := a)
  have hlog := attempt_log (c := c) (a := a)
  have hwaits : a.waits = false := by simp [Attempt.waits, hsock]
  rw [hsock, if_neg Bool.false_ne_true] at hsockets
  rw [hsock, newFd_false] at hfd
  rw [openFd_log, hsock, hwaits, newFd_false, if_neg Bool.false_ne_true, if_neg Bool.false_ne_true,
    List.append_nil] at hlog
  refine ⟨fun s hs => ?_, fun s hs => ?_, fun s hs => ?_, fun s hs => ?_⟩
  · have hnot : ¬ (c.attempt a).Holds s := by
      rintro ⟨-, hn⟩
      rw [hfd] at hn
      cases hn
    rw [hsockets] at hs
    rw [accounted_not_held hnot, hlog]
    simpa using h.settled hstate hs
  · rw [hsockets]
    rw [hlog] at hs
    exact h.created s (by simpa using hs)
  · rw [hsockets]
    rw [hlog] at hs
    exact h.fresh s (by simpa using hs)
  · rw [hfd] at hs
    cases hs

/-- An attempt with a new descriptor, which is held or closed. -/
theorem Ledger.attempt_socket (h : c.Ledger) (hstate : c.state ≠ .connecting)
    (hsock : a.sock = true) : (c.attempt a).Ledger := by
  obtain ⟨-, -, -, -, hsockets⟩ := attempt_rest (c := c) (a := a)
  have hfd := attempt_fd (c := c) (a := a)
  have hst := attempt_state (c := c) (a := a)
  have hlog := attempt_log (c := c) (a := a)
  rw [hsock, if_pos rfl] at hsockets
  rw [hsock, newFd_true] at hfd
  rw [openFd_log, hsock, newFd_true, if_pos rfl] at hlog
  obtain ⟨hclose, hhand⟩ := h.unused
  refine ⟨fun s hs => ?_, fun s hs => ?_, fun s hs => ?_, fun s hs => ?_⟩
  · rw [hsockets] at hs
    rcases Nat.lt_succ_iff_lt_or_eq.1 hs with hlt | rfl
    · have hne : c.sockets ≠ s := by omega
      have hnot : ¬ (c.attempt a).Holds s := fun hn => hne (Option.some.inj (hfd.symm.trans hn.2))
      have hbefore := h.settled hstate hlt
      rw [accounted_not_held hnot, hlog]
      rcases hw : a.waits with _ | _
      · simpa [hne] using hbefore
      · simpa using hbefore
    · rcases hw : a.waits with _ | _
      · have hnot : ¬ (c.attempt a).Holds c.sockets := by
          rintro ⟨hn, -⟩
          rw [hst, hw] at hn
          cases hn
        rw [accounted_not_held hnot, hlog, hw]
        simp [hclose, hhand]
      · rw [hw, if_pos rfl] at hst
        rw [accounted_held ⟨hst, hfd⟩, hlog, hw]
        simp [hclose, hhand]
  · rw [hsockets]
    rw [hlog] at hs
    have hs' : Act.socket s ∈ c.log ∨ s = c.sockets := by
      rcases hw : a.waits with _ | _ <;> simpa [hw] using hs
    rcases hs' with hs' | rfl
    · exact Nat.lt_succ_of_lt (h.created s hs')
    · exact Nat.lt_succ_self _
  · rw [hsockets]
    rw [hlog] at hs
    have hs' : (Act.close (some s) ∈ c.log ∨ Act.handOver (some s) ∈ c.log) ∨ s = c.sockets := by
      rcases hw : a.waits with _ | _
      · have : (Act.close (some s) ∈ c.log ∨ s = c.sockets) ∨ Act.handOver (some s) ∈ c.log := by
          simpa [hw] using hs
        tauto
      · exact Or.inl (by simpa [hw] using hs)
    rcases hs' with hs' | rfl
    · exact Nat.lt_succ_of_lt (h.fresh s hs')
    · exact Nat.lt_succ_self _
  · rw [hfd] at hs
    rw [hsockets, ← Option.some.inj hs]
    exact Nat.lt_succ_self _

/-- **An attempt**: its descriptor is new, and it is held or closed. -/
theorem Ledger.attempt (h : c.Ledger) (hstate : c.state ≠ .connecting) :
    (c.attempt a).Ledger := by
  rcases hsock : a.sock with _ | _
  · exact h.attempt_noSocket hstate hsock
  · exact h.attempt_socket hstate hsock

/-! ### The connections -/

/-- A step that writes nothing about connections. -/
theorem Handed.quiet (h : c.Handed) {acts : List Act} (hlog : c'.log = c.log ++ acts)
    (hacts : ∀ fd, Act.handOver fd ∉ acts ∧ Act.connClose fd ∉ acts)
    (hconns : c'.conns = c.conns) (hnext : c'.nextId = c.nextId)
    (hidle : ∀ id k, c.conns id = some k → k.fdClosed = false →
      c'.channel.fd = k.fd ∧ c'.state ≠ .connecting) : c'.Handed := by
  have hhand : ∀ fd, Act.handOver fd ∈ c'.log ↔ Act.handOver fd ∈ c.log := fun fd => by
    rw [hlog, List.mem_append, or_iff_left (hacts fd).1]
  have hclose : ∀ fd, Act.connClose fd ∈ c'.log ↔ Act.connClose fd ∈ c.log := fun fd => by
    rw [hlog, List.mem_append, or_iff_left (hacts fd).2]
  refine ⟨?_, ?_, ?_, ?_, ?_, ?_, ?_⟩
  · simpa only [hconns, hhand] using h.given
  · simpa only [hconns, hhand, hclose] using h.conn
  · simpa only [hconns, hclose] using h.closed
  · simpa only [hconns] using h.unique
  · simpa only [hconns, hnext] using h.lt
  · simpa only [hconns] using h.dead
  · rw [hconns]
    exact hidle

/-- The state of one connection changes. -/
theorem Handed.setState (h : c.Handed) (hk : c.conns id = some k) (k' : Conn) (hfd : k'.fd = k.fd)
    (hopen : k'.fdClosed = k.fdClosed) (hdead : k'.fdClosed = true → k'.state = .disconnected)
    (hconns : c'.conns = Function.update c.conns id (some k')) (hlog : c'.log = c.log)
    (hnext : c'.nextId = c.nextId) (hchannel : c'.channel = c.channel)
    (hstate : c'.state = c.state) : c'.Handed := by
  have hget : ∀ j q, c'.conns j = some q →
      (j = id ∧ q = k') ∨ (j ≠ id ∧ c.conns j = some q) := by
    intro j q hq
    rw [hconns, Function.update_apply] at hq
    split_ifs at hq with hj
    · exact Or.inl ⟨hj, (Option.some.inj hq).symm⟩
    · exact Or.inr ⟨hj, hq⟩
  -- every connection has the descriptor it had
  have hold : ∀ j q, c'.conns j = some q →
      ∃ q₀, c.conns j = some q₀ ∧ q.fd = q₀.fd ∧ q.fdClosed = q₀.fdClosed := by
    intro j q hq
    rcases hget j q hq with ⟨rfl, rfl⟩ | ⟨-, hq⟩
    · exact ⟨k, hk, hfd, hopen⟩
    · exact ⟨q, hq, rfl, rfl⟩
  refine ⟨fun j q hq => ?_, fun fd hf => ?_, fun j q hq => ?_, fun j q j' q' hq hq' he => ?_,
    fun j q hq => ?_, fun j q hq hc => ?_, fun j q hq ho => ?_⟩
  · obtain ⟨q₀, hq₀, hqfd, -⟩ := hold j q hq
    rw [hqfd, hlog]
    exact h.given j q₀ hq₀
  · rw [hlog] at hf
    obtain ⟨j, q, hq, hqfd⟩ := h.conn fd hf
    rw [hconns]
    by_cases hj : j = id
    · subst hj
      obtain rfl := Option.some.inj (hk.symm.trans hq)
      exact ⟨j, k', Function.update_self .., hfd.trans hqfd⟩
    · exact ⟨j, q, (Function.update_of_ne hj ..).trans hq, hqfd⟩
  · obtain ⟨q₀, hq₀, hqfd, hqo⟩ := hold j q hq
    rw [hqfd, hqo, hlog]
    exact h.closed j q₀ hq₀
  · obtain ⟨q₀, hq₀, hqfd, -⟩ := hold j q hq
    obtain ⟨q₁, hq₁, hqfd', -⟩ := hold j' q' hq'
    exact h.unique j q₀ j' q₁ hq₀ hq₁ (hqfd.symm.trans (he.trans hqfd'))
  · obtain ⟨q₀, hq₀, -⟩ := hold j q hq
    rw [hnext]
    exact h.lt j q₀ hq₀
  · rcases hget j q hq with ⟨-, rfl⟩ | ⟨-, hq⟩
    · exact hdead hc
    · exact h.dead j q hq hc
  · obtain ⟨q₀, hq₀, hqfd, hqo⟩ := hold j q hq
    rw [hchannel, hstate, hqfd]
    exact h.idle j q₀ hq₀ (hqo.symm.trans ho)

/-- A disconnected connection closes its descriptor. -/
theorem Handed.connCloseFd (h : c.Handed) (hdead : ∀ k, c.conns id = some k →
    k.state = .disconnected) : (c.connCloseFd id).Handed := by
  unfold Core.connCloseFd
  split
  case h_2 => exact h
  case h_1 k hk =>
    have hget : ∀ j q, Function.update c.conns id (some { k with fdClosed := true }) j = some q →
        (j = id ∧ q = { k with fdClosed := true }) ∨ (j ≠ id ∧ c.conns j = some q) := by
      intro j q hq
      rw [Function.update_apply] at hq
      split_ifs at hq with hj
      · exact Or.inl ⟨hj, (Option.some.inj hq).symm⟩
      · exact Or.inr ⟨hj, hq⟩
    refine ⟨fun j q hq => ?_, fun fd hf => ?_, fun j q hq => ?_, fun j q j' q' hq hq' he => ?_,
      fun j q hq => ?_, fun j q hq hc => ?_, fun j q hq ho => ?_⟩
    · have hgiven : ∃ s, q.fd = some s ∧ Act.handOver (some s) ∈ c.log := by
        rcases hget j q hq with ⟨-, rfl⟩ | ⟨-, hq⟩
        · exact h.given id k hk
        · exact h.given j q hq
      obtain ⟨s, hs, hmem⟩ := hgiven
      exact ⟨s, hs, List.mem_append_left _ hmem⟩
    · have hconn : ∃ j q, c.conns j = some q ∧ q.fd = fd := by
        dsimp only at hf
        simp only [List.mem_append, List.mem_singleton, reduceCtorEq, or_false,
          Act.connClose.injEq] at hf
        rcases hf with hf | hf | rfl
        · exact h.conn fd (Or.inl hf)
        · exact h.conn fd (Or.inr hf)
        · exact ⟨id, k, hk, rfl⟩
      obtain ⟨j, q, hq, hqfd⟩ := hconn
      by_cases hj : j = id
      · subst hj
        obtain rfl := Option.some.inj (hk.symm.trans hq)
        exact ⟨j, _, Function.update_self .., hqfd⟩
      · exact ⟨j, q, (Function.update_of_ne hj ..).trans hq, hqfd⟩
    · rcases hget j q hq with ⟨-, rfl⟩ | ⟨hj, hq⟩
      · simp
      · have hne : q.fd ≠ k.fd := fun he => hj (h.unique j q id k hq hk he)
        rw [h.closed j q hq]
        simp [hne]
    · rcases hget j q hq with ⟨rfl, rfl⟩ | ⟨-, hj⟩
      · rcases hget j' q' hq' with ⟨rfl, rfl⟩ | ⟨-, hj'⟩
        · rfl
        · exact h.unique _ k j' q' hk hj' he
      · rcases hget j' q' hq' with ⟨rfl, rfl⟩ | ⟨-, hj'⟩
        · exact h.unique j q _ k hj hk he
        · exact h.unique j q j' q' hj hj' he
    · rcases hget j q hq with ⟨rfl, rfl⟩ | ⟨-, hq⟩
      · exact h.lt _ k hk
      · exact h.lt j q hq
    · rcases hget j q hq with ⟨rfl, rfl⟩ | ⟨-, hq⟩
      · exact hdead k hk
      · exact h.dead j q hq hc
    · rcases hget j q hq with ⟨rfl, rfl⟩ | ⟨-, hq⟩
      · cases ho
      · exact h.idle j q hq ho

/-- While an attempt is in progress every connection has closed its descriptor. -/
theorem Handed.all_closed (h : c.Handed) (hs : c.state = .connecting)
    (hk : c.conns id = some k) : k.fdClosed = true := by
  cases hc : k.fdClosed with
  | true => rfl
  | false => exact absurd hs (h.idle id k hk hc).2

/-! ### The effects -/

/-- A new connector has made no descriptor. -/
theorem socketInv_new : Connector.new.SocketInv := by
  refine ⟨registered_new, ⟨?_, ?_, ?_, ?_⟩, ⟨?_, ?_, ?_, ?_, ?_, ?_, ?_⟩, ⟨?_, ?_⟩,
    justified_nil⟩ <;> simp [Connector.new, Channel.new]

/-- An attempt keeps the account, when none is in progress and the descriptor of
the channel is that of no open connection. -/
theorem SocketInv.attempt (h : c.SocketInv) (hs : c.state ≠ .connecting)
    (hclosed : ∀ id k, c.conns id = some k → k.fd = c.channel.fd → k.fdClosed = true) :
    (c.attempt a).SocketInv := by
  obtain ⟨-, hnext, hconns, hclosing, -⟩ := attempt_rest (c := c) (a := a)
  have hlog : (c.attempt a).log = c.log ++ ((if a.sock then [Act.socket c.sockets] else []) ++
      ([.replace c.channel.fd (c.poller.contains c.channel.fd)] ++
        if a.waits then [] else [.close (c.newFd a.sock)])) := by
    rw [attempt_log, openFd_log, List.append_assoc, List.append_assoc]
  refine ⟨h.registered.attempt hs, h.ledger.attempt hs,
    h.handed.quiet hlog (fun fd => ?_) hconns hnext fun id k hk ho => ?_, ⟨?_, ?_⟩, ?_⟩
  · cases a.sock <;> cases a.waits <;> simp
  · have := hclosed id k hk (h.handed.idle id k hk ho).1.symm
    rw [ho] at this
    cases this
  · rw [hclosing, hconns]
    exact h.frames.isOpen
  · rw [hclosing]
    exact h.frames.nodup
  · have hreplace : Released (c.log ++ if a.sock then [Act.socket c.sockets] else [])
        (.replace c.channel.fd (c.poller.contains c.channel.fd)) := by
      intro hne
      obtain ⟨s, hfd⟩ := Option.ne_none_iff_exists'.1 hne
      refine ⟨h.registered.only.contains_eq_false (h.registered.idle hs).1, ?_⟩
      have hone := h.ledger.once s (h.ledger.fd s hfd)
      rw [accounted_not_held fun hn => hs hn.1] at hone
      rw [hfd]
      by_cases hclose : Act.close (some s) ∈ c.log
      · exact Or.inl (List.mem_append_left _ hclose)
      · have hhand : Act.handOver (some s) ∈ c.log := by
          refine List.count_pos_iff.1 ?_
          have := List.count_eq_zero_of_not_mem hclose
          omega
        obtain ⟨id, k, hk, hkfd⟩ := h.handed.conn _ (Or.inl hhand)
        have hkc := (h.handed.closed id k hk).1 (hclosed id k hk (hkfd.trans hfd.symm))
        rw [hkfd] at hkc
        exact Or.inr (List.mem_append_left _ hkc)
    have hopen : Justified Released (c.openFd a.sock).log := by
      rw [openFd_log]
      refine Justified.concat ?_ hreplace
      split
      · exact h.replaced.concat trivial
      · rw [List.append_nil]
        exact h.replaced
    rw [attempt_log]
    split
    · rw [List.append_nil]
      exact hopen
    · exact hopen.concat trivial

/-- Giving up keeps the account: the descriptor is closed, and no longer held. -/
theorem SocketInv.release (h : c.SocketInv) (hs : c.state = .connecting) :
    c.release.SocketInv := by
  obtain ⟨s, hfd⟩ := Option.ne_none_iff_exists'.1 (h.registered.connecting hs).2.2.2
  have hlog : c.release.log = c.log ++ [] ++ [.close (some s)] := by
    rw [release_log, hfd, List.append_nil]
  refine ⟨h.registered.release hs, ?_, ?_, ⟨h.frames.isOpen, h.frames.nodup⟩, ?_⟩
  · refine h.ledger.settle ⟨hs, hfd⟩ hlog ?_ ?_ (Or.inl rfl) rfl rfl ?_
    · simp
    · simp
    · simp
  · have hlog' : c.release.log = c.log ++ [.close c.channel.fd] := release_log
    refine h.handed.quiet hlog' ?_ rfl rfl fun id k hk ho => ?_
    · simp
    · rw [h.handed.all_closed hs hk] at ho
      cases ho
  · exact h.replaced.concat trivial

/-- The acts of a released reference are about no descriptor. -/
theorem neutral_drops {x : Act} (hx : x ∈ c.drops) : Neutral x := by
  obtain ⟨id, -, rfl⟩ := mem_drops.1 hx
  trivial

/-- Dropping a connection logs nothing else. -/
theorem not_mem_drops {x : Act} (hx : ∀ id b, x ≠ .drop id b) : x ∉ c.drops := by
  intro hm
  obtain ⟨id, -, rfl⟩ := mem_drops.1 hm
  exact hx _ _ rfl

/-- Released references are justified. -/
theorem justified_drops (h : Justified Released c.log) :
    Justified Released (c.log ++ c.drops) := by
  unfold drops
  cases c.connection with
  | none => simpa using h
  | some id => exact h.concat trivial

/-- A descriptor is handed over once: it was held by an attempt until then. -/
theorem Handed.establish (h : c.Handed) {s : ℕ} (hs : c.state = .connecting)
    (hfd : c.channel.fd = some s) (hhand : Act.handOver (some s) ∉ c.log) :
    c.remove.onConnection.Handed := by
  obtain ⟨hstate, -, hnext, hchannel, hconns, -, -, hlog⟩ := establish_rest (c := c)
  rw [hfd] at hconns hlog hchannel
  generalize c.remove.onConnection = d at *
  have hget : ∀ j q, d.conns j = some q →
      (j = c.nextId ∧ q = { fd := some s, state := .connected, fdClosed := false }) ∨
        c.conns j = some q := by
    intro j q hq
    rw [hconns, Function.update_apply] at hq
    split_ifs at hq with hj
    · exact Or.inl ⟨hj, (Option.some.inj hq).symm⟩
    · exact Or.inr hq
  have hkeep : ∀ j q, c.conns j = some q → d.conns j = some q := by
    intro j q hq
    have hj : j ≠ c.nextId := fun he => absurd (h.lt j q hq) (by omega)
    rw [hconns, Function.update_of_ne hj]
    exact hq
  have hdiff : ∀ j q, c.conns j = some q → q.fd ≠ some s := by
    intro j q hq he
    obtain ⟨s', hs', hmem⟩ := h.given j q hq
    obtain rfl := Option.some.inj (hs'.symm.trans he)
    exact hhand hmem
  have hmemHand : ∀ fd, Act.handOver fd ∈ d.log ↔ Act.handOver fd ∈ c.log ∨ fd = some s := by
    intro fd
    rw [hlog, List.mem_append, List.mem_append, or_iff_left (not_mem_drops (by simp))]
    simp
  have hmemClose : ∀ fd, Act.connClose fd ∈ d.log ↔ Act.connClose fd ∈ c.log := by
    intro fd
    rw [hlog, List.mem_append, List.mem_append, or_iff_left (by simp),
      or_iff_left (not_mem_drops (by simp))]
  refine ⟨fun j q hq => ?_, fun fd hf => ?_, fun j q hq => ?_, fun j q j' q' hq hq' he => ?_,
    fun j q hq => ?_, fun j q hq hc => ?_, fun j q hq ho => ?_⟩
  · rcases hget j q hq with ⟨-, rfl⟩ | hq
    · exact ⟨s, rfl, (hmemHand _).2 (Or.inr rfl)⟩
    · obtain ⟨s', hs', hmem⟩ := h.given j q hq
      exact ⟨s', hs', (hmemHand _).2 (Or.inl hmem)⟩
  · rw [hmemHand, hmemClose] at hf
    have hcase : (Act.handOver fd ∈ c.log ∨ Act.connClose fd ∈ c.log) ∨ fd = some s := by tauto
    rcases hcase with hf | rfl
    · obtain ⟨j, q, hq, hqfd⟩ := h.conn fd hf
      exact ⟨j, q, hkeep j q hq, hqfd⟩
    · exact ⟨c.nextId, _, by rw [hconns, Function.update_self], rfl⟩
  · rw [hmemClose]
    rcases hget j q hq with ⟨-, rfl⟩ | hq
    · refine iff_of_false (by simp) fun hm => ?_
      obtain ⟨j', q', hq', hqfd'⟩ := h.conn _ (Or.inr hm)
      exact hdiff j' q' hq' hqfd'
    · exact h.closed j q hq
  · rcases hget j q hq with ⟨rfl, rfl⟩ | hj
    · rcases hget j' q' hq' with ⟨rfl, -⟩ | hj'
      · rfl
      · exact absurd he.symm (hdiff j' q' hj')
    · rcases hget j' q' hq' with ⟨rfl, rfl⟩ | hj'
      · exact absurd he (hdiff j q hj)
      · exact h.unique j q j' q' hj hj' he
  · rw [hnext]
    rcases hget j q hq with ⟨rfl, -⟩ | hq
    · exact Nat.lt_succ_self _
    · exact Nat.lt_succ_of_lt (h.lt j q hq)
  · rcases hget j q hq with ⟨-, rfl⟩ | hq
    · cases hc
    · exact h.dead j q hq hc
  · rcases hget j q hq with ⟨-, rfl⟩ | hq
    · exact ⟨hchannel, by simp [hstate]⟩
    · rw [h.all_closed hs hq] at ho
      cases ho

/-- An attempt that has succeeded keeps the account: the descriptor goes from
the connector to the connection. -/
theorem SocketInv.establish (h : c.SocketInv) (hs : c.state = .connecting) :
    c.remove.onConnection.SocketInv := by
  obtain ⟨s, hfd⟩ := Option.ne_none_iff_exists'.1 (h.registered.connecting hs).2.2.2
  have hheld : c.Holds s := ⟨hs, hfd⟩
  have hhand : Act.handOver (some s) ∉ c.log := by
    have hone := h.ledger.once s (h.ledger.fd s hfd)
    rw [accounted_held hheld] at hone
    exact List.count_eq_zero.1 (by omega)
  obtain ⟨hstate, -, -, hchannel, hconns, hclosing, hsockets, hlog⟩ := establish_rest (c := c)
  refine ⟨h.registered.establish hs, ?_, h.handed.establish hs hfd hhand, ⟨fun f hf => ?_, ?_⟩, ?_⟩
  · rw [hfd] at hlog
    exact h.ledger.settle hheld hlog (fun y hy => neutral_drops hy)
      (fun s => not_mem_drops (by simp)) (Or.inr rfl) hsockets hchannel (by simp [hstate])
  · rw [hclosing] at hf
    obtain ⟨k, hk, ho, -⟩ := h.frames.isOpen f hf
    rw [h.handed.all_closed hs hk] at ho
    cases ho
  · rw [hclosing]
    exact h.frames.nodup
  · rw [hlog]
    exact (justified_drops h.replaced).concat trivial

/-- The connections of the running calls of `handleClose` stay as they are when
another one changes. -/
theorem Frames.update (h : c.Frames) (hconns : ∀ f ∈ c.closing, c'.conns f.id = c.conns f.id)
    (hclosing : c'.closing = c.closing) : c'.Frames := by
  refine ⟨fun f hf => ?_, by rw [hclosing]; exact h.nodup⟩
  rw [hclosing] at hf
  rw [hconns f hf]
  exact h.isOpen f hf

/-- Shutting a connection down keeps the account. -/
theorem SocketInv.connShutdown (h : c.SocketInv) (id : ℕ) : (c.connShutdown id).SocketInv := by
  have hreg := h.registered.connShutdown id
  unfold Core.connShutdown at hreg ⊢
  split
  case h_2 => exact h
  case h_1 k hk =>
    simp only [hk] at hreg
    split
    case isFalse => exact h
    case isTrue hs =>
      rw [if_pos hs] at hreg
      have hfresh : ∀ f ∈ c.closing, f.id ≠ id := by
        rintro f hf rfl
        obtain ⟨q, hq, -, hdead⟩ := h.frames.isOpen f hf
        obtain rfl := Option.some.inj (hk.symm.trans hq)
        rw [hdead] at hs
        cases hs
      refine ⟨hreg, h.ledger.neutral (List.append_nil _).symm ?_ ?_ rfl rfl Iff.rfl,
        h.handed.setState hk { k with state := .disconnecting } rfl rfl (fun hc => ?_) rfl rfl
          rfl rfl rfl,
        h.frames.update (fun f hf => Function.update_of_ne (hfresh f hf) ..) rfl, h.replaced⟩
      · simp
      · simp
      · have := h.handed.dead id k hk hc
        rw [hs] at this
        cases this

/-- Closing a connection keeps the account of the connector's descriptors; the
connection closes its own. -/
theorem SocketInv.connClose (h : c.SocketInv) (id : ℕ) (force : Bool) :
    (c.connClose id force).SocketInv := by
  have hreg := h.registered.connClose id force
  unfold Core.connClose at hreg ⊢
  split
  case h_2 => exact h
  case h_1 k hk =>
    simp only [hk] at hreg
    split
    case isTrue => exact h
    case isFalse hs =>
      rw [if_neg hs] at hreg
      have hfresh : ∀ f ∈ c.closing, f.id ≠ id := by
        rintro f hf rfl
        obtain ⟨q, hq, -, hdead⟩ := h.frames.isOpen f hf
        obtain rfl := Option.some.inj (hk.symm.trans hq)
        exact hs hdead
      have hopen : k.fdClosed = false := by
        cases hc : k.fdClosed with
        | false => rfl
        | true => exact absurd (h.handed.dead id k hk hc) hs
      refine ⟨hreg, h.ledger.neutral (List.append_nil _).symm ?_ ?_ rfl rfl Iff.rfl,
        h.handed.setState hk { k with state := .disconnected } rfl rfl (fun _ => rfl) rfl
          rfl rfl rfl
          rfl, ⟨fun f hf => ?_, ?_⟩, h.replaced⟩
      · simp
      · simp
      · rcases List.mem_cons.1 hf with rfl | hf
        · exact ⟨_, Function.update_self .., hopen, rfl⟩
        · obtain ⟨q, hq, hrest⟩ := h.frames.isOpen f hf
          exact ⟨q, (Function.update_of_ne (hfresh f hf) ..).trans hq, hrest⟩
      · rw [List.map_cons, List.nodup_cons]
        refine ⟨fun hm => ?_, h.frames.nodup⟩
        obtain ⟨f, hf, hid⟩ := List.mem_map.1 hm
        exact hfresh f hf hid

/-- A connection that no running `handleClose` is about closes its descriptor. -/
theorem SocketInv.connCloseFd (h : c.SocketInv) {id : ℕ}
    (hdead : ∀ k, c.conns id = some k → k.state = .disconnected)
    (hstate : c.state = .connecting → ∀ k, c.conns id = some k → k.fd ≠ c.channel.fd)
    (hframes : ∀ f ∈ c.closing, f.id ≠ id) : (c.connCloseFd id).SocketInv := by
  have hreg := h.registered.connCloseFd hstate
  have hhanded := h.handed.connCloseFd hdead
  unfold Core.connCloseFd at hreg hhanded ⊢
  split
  case h_2 => exact h
  case h_1 k hk =>
    simp only [hk] at hreg hhanded
    refine ⟨hreg, h.ledger.neutral rfl ?_ ?_ rfl rfl Iff.rfl, hhanded,
      h.frames.update (fun f hf => Function.update_of_ne (hframes f hf) ..) rfl,
      h.replaced.concat trivial⟩
    · simp [Neutral]
    · simp

/-- The descriptor that the connector waits for belongs to no connection. -/
theorem SocketInv.ne_held (h : c.SocketInv) (hs : c.state = .connecting)
    (hk : c.conns id = some k) : k.fd ≠ c.channel.fd := by
  intro he
  obtain ⟨s, hfd, hmem⟩ := h.handed.given id k hk
  have hheld : c.Holds s := ⟨hs, he.symm.trans hfd⟩
  have hone := h.ledger.once s (h.ledger.fd s hheld.2)
  rw [accounted_held hheld] at hone
  have := List.count_pos_iff.2 hmem
  omega

/-- `removeConnection` at the end of a `handleClose`: the connection still has its
descriptor, so no attempt is in progress. -/
theorem SocketInv.removeConnection (h : c.SocketInv) {f : Frame} {rest : List Frame}
    (hf : c.closing = f :: rest) :
    (({ c with closing := rest } : Core).removeConnection f.id).SocketInv := by
  have hmem : f ∈ c.closing := by
    rw [hf]
    exact List.mem_cons_self
  obtain ⟨k, hk, ho, -⟩ := h.frames.isOpen f hmem
  have hs : c.state ≠ .connecting := (h.handed.idle f.id k hk ho).2
  have hreg : ({ c with closing := rest } : Core).Registered := h.registered.congr Iff.rfl rfl rfl
  obtain ⟨hstate, -, hnext, hchannel, -, hconns, hclosing, hsockets⟩ :=
    removeConnection_rest { c with closing := rest } f.id
  have hlog := removeConnection_log { c with closing := rest } f.id
  rw [List.append_assoc] at hlog
  refine ⟨hreg.removeConnection f.id hs, ?_, ?_, ⟨fun g hg => ?_, ?_⟩, ?_⟩
  · refine h.ledger.neutral hlog (fun x hx => ?_) (fun s hm => ?_) hsockets
      (congrArg Channel.fd hchannel) (iff_of_false (by rw [hstate]; simp) hs)
    · rcases List.mem_append.1 hx with hx | hx
      · exact neutral_drops hx
      · obtain rfl := List.mem_singleton.1 hx
        trivial
    · rcases List.mem_append.1 hm with hm | hm
      · exact not_mem_drops (by simp) hm
      · simp at hm
  · refine h.handed.quiet hlog (fun fd => ⟨fun hm => ?_, fun hm => ?_⟩) hconns hnext
      fun j q hq hqo => ⟨?_, by rw [hstate]; simp⟩
    · rcases List.mem_append.1 hm with hm | hm
      · exact not_mem_drops (by simp) hm
      · simp at hm
    · rcases List.mem_append.1 hm with hm | hm
      · exact not_mem_drops (by simp) hm
      · simp at hm
    · rw [hchannel]
      exact (h.handed.idle j q hq hqo).1
  · rw [hclosing] at hg
    rw [hconns]
    exact h.frames.isOpen g (by rw [hf]; exact List.mem_cons_of_mem _ hg)
  · rw [hclosing]
    have := h.frames.nodup
    rw [hf, List.map_cons, List.nodup_cons] at this
    exact this.2
  · rw [removeConnection_log]
    have hbase : Justified Released ({ c with closing := rest } : Core).log := h.replaced
    exact (justified_drops hbase).concat trivial

/-- The end of a close keeps the account. -/
theorem SocketInv.connCloseEnd (h : c.SocketInv) (hend : c.connCloseEnd = some c') :
    c'.SocketInv := by
  unfold Core.connCloseEnd at hend
  split at hend
  case h_1 => cases hend
  case h_2 f rest hf =>
    rw [← Option.some.inj hend]
    have hremoved := h.removeConnection hf
    obtain ⟨hstate, -, -, -, -, hconns, hclosing, -⟩ :=
      removeConnection_rest { c with closing := rest } f.id
    split
    case isFalse => exact hremoved
    case isTrue =>
      refine hremoved.connCloseFd (fun k hk => ?_) (fun hs => ?_) (fun g hg hid => ?_)
      · obtain ⟨q, hq, -, hdead⟩ := h.frames.isOpen f (by rw [hf]; exact List.mem_cons_self)
        rw [hconns] at hk
        obtain rfl := Option.some.inj (hq.symm.trans hk)
        exact hdead
      · rw [hstate] at hs
        cases hs
      · have hnodup := h.frames.nodup
        rw [hf, List.map_cons, List.nodup_cons] at hnodup
        rw [hclosing] at hg
        exact hnodup.1 (List.mem_map.2 ⟨g, hg, hid⟩)

/-- The end of a connection object keeps the account. -/
theorem SocketInv.connDestroy (h : c.SocketInv) (hdestroy : c.connDestroy id = some c') :
    c'.SocketInv := by
  unfold Core.connDestroy at hdestroy
  split at hdestroy
  case h_2 => cases hdestroy
  case h_1 k hk =>
    split at hdestroy
    case isFalse => cases hdestroy
    case isTrue hguard =>
      rw [← Option.some.inj hdestroy]
      refine h.connCloseFd (fun q hq => ?_) (fun hs q hq => h.ne_held hs hq) hguard.2.2.1
      obtain rfl := Option.some.inj (hk.symm.trans hq)
      exact hguard.1

end Core

variable {w w' : Connector} {i : Input}

/-- A good step keeps the invariant. -/
theorem socketInv_step (h : w.toCore.SocketInv) (hgood : w.StartsAfterClose i)
    (hstep : step w i = some w') : w'.toCore.SocketInv := by
  obtain ⟨e, he, hallowed⟩ := step_core hstep
  cases e with
  | none =>
    rw [← Option.some.inj he]
    exact h
  | attempt a =>
    rw [← Option.some.inj he]
    obtain ⟨hs, hclosed⟩ := hgood hallowed
    exact h.attempt hs hclosed
  | release =>
    simp only [Core.apply] at he
    split_ifs at he with hs
    rw [← Option.some.inj he]
    exact h.release hs
  | establish =>
    simp only [Core.apply] at he
    split_ifs at he with hs
    rw [← Option.some.inj he]
    exact h.establish hs.1
  | connShutdown id =>
    rw [← Option.some.inj he]
    exact h.connShutdown id
  | connClose id force =>
    rw [← Option.some.inj he]
    exact h.connClose id force
  | connCloseEnd => exact h.connCloseEnd he
  | connDestroy id => exact h.connDestroy he

/-- An attempt that is not good replaces a descriptor that is registered or
open. -/
theorem Core.SocketInv.not_owned {c : Core} {a : Attempt} (h : c.SocketInv)
    (hbad : c.state = .connecting ∨
      ∃ id k, c.conns id = some k ∧ k.fd = c.channel.fd ∧ k.fdClosed = false) :
    ¬ (c.attempt a).Owned := by
  intro howned
  have hopen : Justified Core.Released (c.openFd a.sock).log := by
    have := howned.replaced
    rw [Core.attempt_log] at this
    exact this.of_append
  rw [Core.openFd_log] at hopen
  have hreleased := (justified_concat.1 hopen).2
  rcases hbad with hs | ⟨id, k, hk, hkfd, hkopen⟩
  · have hcontains : c.poller.contains c.channel.fd = true := by
      unfold EpollPoller.contains
      rw [h.registered.interest hs]
      rfl
    have := (hreleased (h.registered.connecting hs).2.2.2).1
    rw [hcontains] at this
    cases this
  · obtain ⟨s, hfd, hhand⟩ := h.handed.given id k hk
    have hne : c.channel.fd ≠ none := by
      rw [← hkfd, hfd]
      exact Option.some_ne_none _
    have hmem : Act.close c.channel.fd ∈ c.log ∨ Act.connClose c.channel.fd ∈ c.log := by
      refine (hreleased hne).2.imp (fun hm => ?_) (fun hm => ?_)
      · exact (List.mem_append.1 hm).resolve_right (by split <;> simp)
      · exact (List.mem_append.1 hm).resolve_right (by split <;> simp)
    rw [← hkfd] at hmem
    rcases hmem with hm | hm
    · rw [hfd] at hm
      have hone := h.ledger.once s (h.ledger.fresh s (Or.inl hm))
      have hclose := List.count_pos_iff.2 hm
      have hgiven := List.count_pos_iff.2 hhand
      unfold Core.accounted at hone
      omega
    · rw [← h.handed.closed id k hk, hkopen] at hm
      cases hm

/-- **Who owns the descriptors of a connector.**  In every state of a run each
descriptor is in exactly one place and none is replaced early, if and only if
every attempt of the run starts when no other is in progress and after the
connection that took the channel's descriptor has closed it. -/
theorem owned_iff (is : List Input) :
    Always step (fun w => w.toCore.Owned) new is ↔ Steps step StartsAfterClose new is := by
  have hkeep : ∀ w i w', w.toCore.SocketInv → StartsAfterClose w i → step w i = some w' →
      w'.toCore.SocketInv := fun w i w' h hgood hstep => socketInv_step h hgood hstep
  have hbad : ∀ w i, w.toCore.SocketInv → ¬ StartsAfterClose w i →
      ∃ w', step w i = some w' ∧ ¬ w'.toCore.Owned := by
    intro w i h hbad
    obtain ⟨hattempts, hnot⟩ := Classical.not_imp.1 hbad
    obtain ⟨a, w', hstep, hcore⟩ := step_attempt hattempts
    refine ⟨w', hstep, ?_⟩
    rw [hcore]
    refine h.not_owned ?_
    by_cases hs : w.state = .connecting
    · exact Or.inl hs
    · right
      simpa [hs] using hnot
  exact always_iff_steps hkeep (fun w h => h.owned) hbad Core.socketInv_new

/-- The first attempt is refused and starts a retry timer; after `shutdown` and
`connect` the second attempt is in progress when the timer fires. -/
def staleRetry : List Input :=
  [.connect false ⟨true, .ECONNREFUSED⟩, .shutdown false, .connect false ⟨true, .EINPROGRESS⟩,
    .tick 500, .fire 0 ⟨true, .EINPROGRESS⟩]

/-- The descriptor of the second attempt is neither closed nor handed over, and
the connector does not hold it any more. -/
theorem stale_retry_timer :
    ¬ ∀ is, Always step (fun w => w.toCore.Owned) new is := by
  intro h
  have hrun : ∃ w, run step new staleRetry = some w ∧ Act.socket 1 ∈ w.log ∧ w.accounted 1 = 0 := by
    refine ⟨_, rfl, ?_, ?_⟩
    · decide
    · decide
  obtain ⟨w, hw, hsocket, hzero⟩ := hrun
  have hone := ((h staleRetry).last hw).once 1 hsocket
  omega

end Connector
end Net
end Sevent
