/-
# A connector's state and its connection

While the state is `connecting` the connector's channel should be in the poller
for writing; while it is `connected`, and only then, `connection` should be a
`TcpConnection` that is not disconnected.  The close of a connection should
touch the connector only when it is the one held, and the connector should not
give up a connection that is alive.  `Agrees` says all four.

Nothing in the code ties them together.  `connect` starts an attempt whatever
the state, also when the connection of the last one is only half-closed, and
`removeConnection` ignores its `id`.  `agrees_iff` shows what a program has to
respect: `Agrees` holds in every state of a run if and only if every attempt
starts when no other is in progress and no connection is alive, and no
`handleClose` ends while an attempt is in progress (`StartsAlone`).
-/

import Sevent.Net.ConnectorSpec
import Sevent.Lib.Log
import Sevent.Lib.Run

namespace Sevent
namespace Net
namespace Connector

open Transition Log

namespace Core

/-- A close changes the connector only when it is the close of the connection
that is held, and a connection that is given up is disconnected. -/
def Apt (_ : List Act) : Act → Prop
  | .drop _ alive => alive = false
  | .removed id held changed => changed = true → held = some id
  | _ => True

/-- **The state, the poller and the connection agree.**  The middle of a
`handleClose`, where the connection is disconnected and `removeConnection` is
still to come, is not between steps of the loop. -/
structure Agrees (c : Core) : Prop where
  connecting : c.state = .connecting → c.poller.interest c.channel.fd = some (self, .WriteEvent)
  idle : c.state ≠ .connecting → c.poller.Gone self
  connected : c.closing = [] →
    (c.state = .connected ↔ ∃ id, c.connection = some id ∧ c.alive id = true)
  apt : Justified Apt c.log

end Core

/-- The condition: an attempt starts when no other is in progress and no
connection is alive, and no `handleClose` ends while an attempt is in
progress. -/
def StartsAlone (w : Connector) (i : Input) : Prop :=
  (w.Attempts i → w.state ≠ .connecting ∧ ∀ id, w.alive id = false) ∧
    (i = .connCloseEnd → w.closing ≠ [] → w.state ≠ .connecting)

namespace Core

/-- The descriptors of connections are older than the one the connector waits
for. -/
structure Older (c : Core) : Prop where
  lt : ∀ id k, c.conns id = some k → id < c.nextId
  fd : ∀ id k, c.conns id = some k → ∃ s, k.fd = some s ∧ s < c.sockets ∧
    (c.state = .connecting → c.channel.fd ≠ some s)
  channel : ∀ s, c.channel.fd = some s → s < c.sockets

/-- The connection that is held is the one that is alive, or its `handleClose`
is running. -/
structure Linked (c : Core) : Prop where
  alive : ∀ id, c.alive id = true → c.connection = some id ∧ c.state = .connected
  held : ∀ id, c.connection = some id → c.alive id = true ∨ ∃ f ∈ c.closing, f.id = id
  connected : c.state = .connected → c.connection ≠ none
  closing : ∀ f ∈ c.closing, c.connection = some f.id ∧ c.alive f.id = false
  single : c.closing.length ≤ 1

/-- What a run of good steps keeps. -/
structure StateInv (c : Core) : Prop where
  registered : c.Registered
  older : c.Older
  linked : c.Linked
  apt : Justified Apt c.log

variable {c c' : Core} {a : Attempt} {id : ℕ} {k : Conn}

/-- The invariant gives the agreement that is wanted. -/
theorem StateInv.agrees (h : c.StateInv) : c.Agrees := by
  refine ⟨fun hs => h.registered.interest hs, fun hs => (h.registered.idle hs).1,
    fun hc => ⟨fun hs => ?_, fun ⟨id, _, halive⟩ => (h.linked.alive id halive).2⟩, h.apt⟩
  obtain ⟨id, hid⟩ := Option.ne_none_iff_exists'.1 (h.linked.connected hs)
  rcases h.linked.held id hid with halive | ⟨f, hf, -⟩
  · exact ⟨id, hid, halive⟩
  · rw [hc] at hf
    cases hf

/-! ### Which connections are alive -/

/-- A connection is alive when it was made and is not yet disconnected. -/
theorem alive_eq_true : c.alive id = true ↔ ∃ k, c.conns id = some k ∧ k.state ≠ .disconnected := by
  unfold alive
  cases c.conns id with
  | none => simp
  | some k => simp

/-- Whether a connection is alive depends on that connection alone. -/
theorem alive_congr (hconns : c'.conns id = c.conns id) : c'.alive id = c.alive id := by
  unfold alive
  rw [hconns]

/-- Where one connection changes. -/
theorem alive_update (hconns : c'.conns = Function.update c.conns id (some k)) (j : ℕ) :
    c'.alive j = if j = id then decide (k.state ≠ .disconnected) else c.alive j := by
  unfold alive
  rw [hconns, Function.update_apply]
  split_ifs <;> rfl

/-- While a `handleClose` is running no connection is alive. -/
theorem Linked.not_alive (h : c.Linked) (hc : c.closing ≠ []) : c.alive id = false := by
  obtain ⟨f, hf⟩ := List.exists_mem_of_ne_nil _ hc
  obtain ⟨hheld, hdead⟩ := h.closing f hf
  cases halive : c.alive id with
  | false => rfl
  | true =>
    have hid : some f.id = some id := hheld.symm.trans (h.alive id halive).1
    rw [Option.some.inj hid] at hdead
    exact halive.symm.trans hdead

/-- Older connections keep their descriptors when one of them changes. -/
theorem Older.update (h : c.Older) (hk : c.conns id = some k) {k' : Conn} (hfd : k'.fd = k.fd)
    (hconns : c'.conns = Function.update c.conns id (some k')) (hnext : c'.nextId = c.nextId)
    (hsockets : c'.sockets = c.sockets) (hchannel : c'.channel = c.channel)
    (hstate : c'.state = c.state) : c'.Older := by
  have hold : ∀ j q, c'.conns j = some q → ∃ q₀, c.conns j = some q₀ ∧ q.fd = q₀.fd := by
    intro j q hq
    rw [hconns, Function.update_apply] at hq
    split_ifs at hq with hj
    · subst hj
      exact ⟨k, hk, by rw [← Option.some.inj hq, hfd]⟩
    · exact ⟨q, hq, rfl⟩
  refine ⟨fun j q hq => ?_, fun j q hq => ?_, ?_⟩
  · obtain ⟨q₀, hq₀, -⟩ := hold j q hq
    rw [hnext]
    exact h.lt j q₀ hq₀
  · obtain ⟨q₀, hq₀, hqfd⟩ := hold j q hq
    rw [hqfd, hsockets, hchannel, hstate]
    exact h.fd j q₀ hq₀
  · rw [hchannel, hsockets]
    exact h.channel

/-! ### The effects -/

/-- A connector that was never started. -/
theorem stateInv_new : Connector.new.StateInv := by
  refine ⟨registered_new, ⟨?_, ?_, ?_⟩, ⟨?_, ?_, ?_, ?_, ?_⟩, justified_nil⟩ <;>
    simp [Connector.new, Channel.new, alive]

/-- An attempt is started, where none is in progress and no connection is alive. -/
theorem StateInv.attempt (h : c.StateInv) (hs : c.state ≠ .connecting)
    (hdead : ∀ id, c.alive id = false) : (c.attempt a).StateInv := by
  obtain ⟨hconnection, hnext, hconns, hclosing, hsockets⟩ := attempt_rest (c := c) (a := a)
  have halive : ∀ id, (c.attempt a).alive id = false := fun id => by
    rw [alive_congr (congrFun hconns id)]
    exact hdead id
  have hfd := attempt_fd (c := c) (a := a)
  have hle : c.sockets ≤ (c.attempt a).sockets := by
    rw [hsockets]
    split <;> omega
  refine ⟨h.registered.attempt hs, ⟨?_, fun id k hk => ?_, fun s hfd' => ?_⟩,
    ⟨fun id hid => ?_, fun id hid => ?_, fun hst => ?_, fun f hf => ?_, ?_⟩, ?_⟩
  · rw [hconns, hnext]
    exact h.older.lt
  · rw [hconns] at hk
    obtain ⟨s, hs, hlt, -⟩ := h.older.fd id k hk
    refine ⟨s, hs, Nat.lt_of_lt_of_le hlt hle, fun _ hn => ?_⟩
    rw [hfd] at hn
    cases hsock : a.sock with
    | true =>
      rw [hsock, newFd_true] at hn
      exact absurd (Option.some.inj hn) (by omega)
    | false =>
      rw [hsock, newFd_false] at hn
      cases hn
  · rw [hfd] at hfd'
    cases hsock : a.sock with
    | true =>
      rw [hsock, newFd_true] at hfd'
      rw [hsockets, hsock, if_pos rfl, ← Option.some.inj hfd']
      exact Nat.lt_succ_self _
    | false =>
      rw [hsock, newFd_false] at hfd'
      cases hfd'
  · rw [halive] at hid
    cases hid
  · rw [hconnection] at hid
    rw [hclosing]
    refine Or.inr ((h.linked.held id hid).resolve_left fun hl => ?_)
    rw [hdead] at hl
    cases hl
  · rw [attempt_state] at hst
    split at hst <;> cases hst
  · rw [hclosing] at hf
    rw [hconnection, halive]
    exact ⟨(h.linked.closing f hf).1, rfl⟩
  · rw [hclosing]
    exact h.linked.single
  · have hopen : Justified Apt (c.openFd a.sock).log := by
      rw [openFd_log]
      refine Justified.concat ?_ trivial
      split
      · exact h.apt.concat trivial
      · rw [List.append_nil]
        exact h.apt
    rw [attempt_log]
    split
    · rw [List.append_nil]
      exact hopen
    · exact hopen.concat trivial

/-- No connection is alive while an attempt is in progress. -/
theorem Linked.not_alive_of_connecting (h : c.Linked) (hs : c.state = .connecting) (id : ℕ) :
    c.alive id = false := by
  cases halive : c.alive id with
  | false => rfl
  | true =>
    have := (h.alive id halive).2
    rw [hs] at this
    cases this

/-- `release`: the attempt that was in progress is given up. -/
theorem StateInv.release (h : c.StateInv) (hs : c.state = .connecting) : c.release.StateInv := by
  have hdead : ∀ id, c.release.alive id = false := h.linked.not_alive_of_connecting hs
  refine ⟨h.registered.release hs, ⟨h.older.lt, fun id k hk => ?_, h.older.channel⟩,
    ⟨fun id hid => ?_, fun id hid => ?_, fun hst => (by cases hst), h.linked.closing,
      h.linked.single⟩, h.apt.concat trivial⟩
  · obtain ⟨s, hfd, hlt, -⟩ := h.older.fd id k hk
    exact ⟨s, hfd, hlt, fun hst => by cases hst⟩
  · rw [hdead] at hid
    cases hid
  · exact h.linked.held id hid

/-- **A connection is made when none is held.** -/
theorem StateInv.establish (h : c.StateInv) (hs : c.state = .connecting) (hc : c.closing = []) :
    c.remove.onConnection.StateInv := by
  have hnone : c.connection = none := by
    refine Option.eq_none_iff_forall_ne_some.2 fun id hid => ?_
    rcases h.linked.held id hid with halive | ⟨f, hf, -⟩
    · rw [h.linked.not_alive_of_connecting hs] at halive
      cases halive
    · rw [hc] at hf
      cases hf
  obtain ⟨s, hfd⟩ := Option.ne_none_iff_exists'.1 (h.registered.connecting hs).2.2.2
  have hreg := h.registered.establish hs
  obtain ⟨hstate, hheld, hnext, hchannel, hconns, hclosing, hsockets, hlog⟩ :=
    establish_rest (c := c)
  have halive : ∀ j, c.remove.onConnection.alive j = if j = c.nextId then true else c.alive j :=
    alive_update hconns
  have hdrops : c.drops = [] := by
    unfold drops
    rw [hnone]
    rfl
  generalize c.remove.onConnection = d at *
  refine ⟨hreg, ⟨fun id k hk => ?_, fun id k hk => ?_, ?_⟩,
    ⟨fun id hid => ?_, fun id hid => ?_, fun _ => by simp [hheld], fun f hf => ?_, ?_⟩, ?_⟩
  · rw [hnext]
    rw [hconns, Function.update_apply] at hk
    split_ifs at hk with hid
    · omega
    · exact Nat.lt_succ_of_lt (h.older.lt id k hk)
  · have hst : d.state ≠ .connecting := by simp [hstate]
    rw [hconns, Function.update_apply] at hk
    split_ifs at hk with hid
    · refine ⟨s, ?_, ?_, fun hn => absurd hn hst⟩
      · rw [← Option.some.inj hk]
        exact hfd
      · rw [hsockets]
        exact h.older.channel s hfd
    · obtain ⟨s', hfd', hlt, -⟩ := h.older.fd id k hk
      exact ⟨s', hfd', hsockets ▸ hlt, fun hn => absurd hn hst⟩
  · rw [hchannel, hsockets]
    exact h.older.channel
  · rw [halive] at hid
    split_ifs at hid with he
    · exact ⟨he ▸ hheld, hstate⟩
    · rw [h.linked.not_alive_of_connecting hs] at hid
      cases hid
  · rw [hheld] at hid
    rw [halive, if_pos (Option.some.inj hid).symm]
    exact Or.inl rfl
  · rw [hclosing, hc] at hf
    cases hf
  · rw [hclosing, hc]
    exact Nat.zero_le _
  · rw [hlog, hdrops, List.append_nil]
    exact h.apt.concat trivial

/-- A call of `shutdown` on a connection, old ones included. -/
theorem StateInv.connShutdown (h : c.StateInv) (id : ℕ) : (c.connShutdown id).StateInv := by
  have hreg := h.registered.connShutdown id
  unfold Core.connShutdown at hreg ⊢
  split
  case h_2 => exact h
  case h_1 k hk =>
    simp only [hk] at hreg
    split
    case isFalse => exact h
    case isTrue hs =>
      rw [if_pos hs] at hreg
      have hbefore : c.alive id = true := alive_eq_true.2 ⟨k, hk, by simp [hs]⟩
      refine ⟨hreg, h.older.update hk (by rfl) rfl rfl rfl rfl rfl, ?_, h.apt⟩
      have halive : ∀ j, Core.alive { c with
          conns := Function.update c.conns id (some { k with state := .disconnecting }) } j =
            c.alive j := by
        intro j
        rw [alive_update rfl]
        split_ifs with hj
        · rw [hj, hbefore]
          rfl
        · rfl
      refine ⟨fun j hj => ?_, fun j hj => ?_, h.linked.connected, fun f hf => ?_, h.linked.single⟩
      · exact h.linked.alive j ((halive j).symm.trans hj)
      · rw [halive]
        exact h.linked.held j hj
      · rw [halive]
        exact h.linked.closing f hf

/-- A call of `close` or of `forceClose` on a connection. -/
theorem StateInv.connClose (h : c.StateInv) (id : ℕ) (force : Bool) :
    (c.connClose id force).StateInv := by
  have hreg := h.registered.connClose id force
  unfold Core.connClose at hreg ⊢
  split
  case h_2 => exact h
  case h_1 k hk =>
    simp only [hk] at hreg
    split
    case isTrue => exact h
    case isFalse hs =>
      rw [if_neg hs] at hreg
      have hbefore : c.alive id = true := alive_eq_true.2 ⟨k, hk, hs⟩
      obtain ⟨hheld, hstate⟩ := h.linked.alive id hbefore
      have hnil : c.closing = [] := by
        by_contra hne
        rw [h.linked.not_alive hne] at hbefore
        cases hbefore
      refine ⟨hreg, h.older.update hk (by rfl) rfl rfl rfl rfl rfl, ?_, h.apt⟩
      have halive : ∀ j, Core.alive { c with
          conns := Function.update c.conns id (some { k with state := .disconnected })
          closing := { id := id, force := force } :: c.closing } j = false := by
        intro j
        rw [alive_update rfl]
        split_ifs with hj
        · rfl
        · cases hl : c.alive j with
          | false => rfl
          | true =>
            have hid : some id = some j := hheld.symm.trans (h.linked.alive j hl).1
            exact absurd (Option.some.inj hid).symm hj
      refine ⟨fun j hj => ?_, fun j hj => ?_, h.linked.connected, fun f hf => ?_, ?_⟩
      · rw [halive] at hj
        cases hj
      · have hid : some id = some j := hheld.symm.trans hj
        exact Or.inr ⟨_, List.mem_cons_self, Option.some.inj hid⟩
      · rw [hnil] at hf
        obtain rfl := List.mem_singleton.1 hf
        exact ⟨hheld, halive id⟩
      · rw [hnil]
        exact Nat.le_refl 1

/-- A connection closes its descriptor; it stays as alive as it is. -/
theorem StateInv.connCloseFd (h : c.StateInv) (id : ℕ) : (c.connCloseFd id).StateInv := by
  have hreg : (c.connCloseFd id).Registered := by
    refine h.registered.connCloseFd fun hs k hk he => ?_
    obtain ⟨s, hfd, -, hne⟩ := h.older.fd id k hk
    exact hne hs (he.symm.trans hfd)
  unfold Core.connCloseFd at hreg ⊢
  split
  case h_2 => exact h
  case h_1 k hk =>
    simp only [hk] at hreg
    refine ⟨hreg, h.older.update hk (by rfl) rfl rfl rfl rfl rfl, ?_, h.apt.concat trivial⟩
    have halive : ∀ j, Core.alive { c with
        conns := Function.update c.conns id (some { k with fdClosed := true })
        poller := c.poller.closeFd k.fd
        log := c.log ++ [.connClose k.fd] } j = c.alive j := by
      intro j
      rw [alive_update rfl]
      split_ifs with hj
      · rw [hj]
        unfold alive
        rw [hk]
      · rfl
    refine ⟨fun j hj => ?_, fun j hj => ?_, h.linked.connected, fun f hf => ?_, h.linked.single⟩
    · exact h.linked.alive j ((halive j).symm.trans hj)
    · rw [halive]
      exact h.linked.held j hj
    · rw [halive]
      exact h.linked.closing f hf

/-- **The end of the `handleClose` of the connection that is held.** -/
theorem StateInv.removeConnection (h : c.StateInv) {f : Frame} {rest : List Frame}
    (hf : c.closing = f :: rest) (hs : c.state ≠ .connecting) :
    (({ c with closing := rest } : Core).removeConnection f.id).StateInv := by
  have hmem : f ∈ c.closing := by
    rw [hf]
    exact List.mem_cons_self
  obtain ⟨hheld, hdead⟩ := h.linked.closing f hmem
  have hrest : rest = [] := by
    have := h.linked.single
    rw [hf, List.length_cons] at this
    exact List.length_eq_zero_iff.1 (by omega)
  subst hrest
  have hreg : ({ c with closing := [] } : Core).Registered := h.registered.congr Iff.rfl rfl rfl
  obtain ⟨hstate, hnone, hnext, hchannel, -, hconns, hclosing, hsockets⟩ :=
    removeConnection_rest { c with closing := [] } f.id
  have hlog := removeConnection_log { c with closing := [] } f.id
  have hregistered := hreg.removeConnection f.id hs
  have halive : ∀ j, (({ c with closing := [] } : Core).removeConnection f.id).alive j = false := by
    intro j
    rw [alive_congr (c := c) (congrFun hconns j)]
    exact h.linked.not_alive (List.ne_nil_of_mem hmem)
  have hdrops : ({ c with closing := [] } : Core).drops = [.drop f.id false] := by
    unfold drops
    dsimp only
    rw [hheld, ← hdead]
    rfl
  generalize ({ c with closing := [] } : Core).removeConnection f.id = d at *
  refine ⟨hregistered, ⟨?_, fun id k hk => ?_, ?_⟩,
    ⟨fun id hid => ?_, fun id hid => ?_, fun hst => ?_, fun g hg => ?_, ?_⟩, ?_⟩
  · rw [hconns, hnext]
    exact h.older.lt
  · rw [hconns] at hk
    obtain ⟨s, hfd, hlt, -⟩ := h.older.fd id k hk
    refine ⟨s, hfd, hsockets ▸ hlt, fun hst => ?_⟩
    rw [hstate] at hst
    cases hst
  · rw [hchannel, hsockets]
    exact h.older.channel
  · rw [halive] at hid
    cases hid
  · rw [hnone] at hid
    cases hid
  · rw [hstate] at hst
    cases hst
  · rw [hclosing] at hg
    cases hg
  · rw [hclosing]
    exact Nat.zero_le _
  · have hdropped : Justified Apt (c.log ++ [.drop f.id false]) := h.apt.concat rfl
    rw [hlog, hdrops]
    exact hdropped.concat fun _ => hheld

/-- The end of a close, where the connector is told that its connection is gone. -/
theorem StateInv.connCloseEnd (h : c.StateInv) (hs : c.state ≠ .connecting)
    (hend : c.connCloseEnd = some c') : c'.StateInv := by
  unfold Core.connCloseEnd at hend
  split at hend
  case h_1 => cases hend
  case h_2 f rest hf =>
    rw [← Option.some.inj hend]
    have hremoved := h.removeConnection hf hs
    split
    · exact hremoved.connCloseFd f.id
    · exact hremoved

/-- The last reference to a connection is given up. -/
theorem StateInv.connDestroy (h : c.StateInv) (hdestroy : c.connDestroy id = some c') :
    c'.StateInv := by
  unfold Core.connDestroy at hdestroy
  split at hdestroy
  · split at hdestroy
    · rw [← Option.some.inj hdestroy]
      exact h.connCloseFd id
    · cases hdestroy
  · cases hdestroy

/-! ### The steps that break the agreement -/

/-- The descriptor of a new attempt is not the one the connector waits for. -/
theorem StateInv.newFd_ne (h : c.StateInv) (hs : c.state = .connecting) (sock : Bool) :
    c.newFd sock ≠ c.channel.fd := by
  obtain ⟨s, hfd⟩ := Option.ne_none_iff_exists'.1 (h.registered.connecting hs).2.2.2
  have hlt := h.older.channel s hfd
  rw [hfd]
  cases sock with
  | true =>
    rw [newFd_true]
    intro he
    exact absurd (Option.some.inj he) (by omega)
  | false =>
    rw [newFd_false]
    exact fun he => by cases he

/-- An attempt while another one is in progress: the poller keeps the entry of the
old descriptor, and has none for the new one. -/
theorem StateInv.not_agrees_connecting (h : c.StateInv) (hs : c.state = .connecting) :
    ¬ (c.attempt a).Agrees := by
  intro hagrees
  obtain ⟨htracks, hindex, -⟩ := h.registered.connecting hs
  obtain ⟨hchannel, hpoller, -⟩ := c.openFd_rest a.sock
  have hne := h.newFd_ne hs a.sock
  have hnone : c.poller.interest (c.newFd a.sock) = none := by
    refine Option.eq_none_iff_forall_ne_some.2 fun ⟨d, e⟩ hd => ?_
    obtain rfl := h.registered.only.interest _ _ _ hd
    exact hne ((htracks.interest_iff _ _).1 hd).1
  have hstate := attempt_state (c := c) (a := a)
  cases hw : a.waits with
  | true =>
    rw [hw, if_pos rfl] at hstate
    have hkeep : (c.attempt a).poller = c.poller := by
      have hmiss : ((c.openFd a.sock).poller.updateChannel self
          { (c.openFd a.sock).channel with
            events := (c.openFd a.sock).channel.events.union .WriteEvent }).1 =
              (c.openFd a.sock).poller := by
        refine EpollPoller.updateChannel_of_missing ?_ ?_ ?_
        · rw [hchannel]
          exact hindex
        · intro he
          have := congrArg Events.write he
          simp [Events.union, Events.WriteEvent, Events.NoneEvent] at this
        · rw [hpoller, hchannel]
          exact hnone
      unfold Core.attempt
      rw [if_pos hw]
      exact hmiss.trans hpoller
    have := hagrees.connecting hstate
    rw [hkeep, attempt_fd, hnone] at this
    cases this
  | false =>
    rw [hw, if_neg Bool.false_ne_true] at hstate
    have hgone := hagrees.idle (by rw [hstate]; simp)
    refine hgone.2 c.channel.fd .WriteEvent ?_
    have hclose : (c.attempt a).poller = c.poller.closeFd (c.newFd a.sock) := by
      unfold Core.attempt
      rw [if_neg (by rw [hw]; simp)]
      unfold giveUp setState close
      rw [hpoller, hchannel]
    rw [hclose]
    exact (Function.update_of_ne hne.symm ..).trans (h.registered.interest hs)

/-- An attempt while a connection is alive. -/
theorem StateInv.not_agrees_alive (h : c.StateInv) (halive : c.alive id = true) :
    ¬ (c.attempt a).Agrees := by
  intro hagrees
  obtain ⟨hconnection, -, hconns, hclosing, -⟩ := attempt_rest (c := c) (a := a)
  have hnil : c.closing = [] := by
    by_contra hne
    rw [h.linked.not_alive hne] at halive
    cases halive
  have hconnected : (c.attempt a).state = .connected := by
    refine (hagrees.connected (hclosing.trans hnil)).2 ⟨id, ?_, ?_⟩
    · exact hconnection.trans (h.linked.alive id halive).1
    · rw [alive_congr (congrFun hconns id)]
      exact halive
  rw [attempt_state] at hconnected
  split at hconnected <;> cases hconnected

/-- The end of a `handleClose` while an attempt is in progress: the state forgets
the attempt and the poller does not. -/
theorem StateInv.not_agrees_close (h : c.StateInv) (hs : c.state = .connecting)
    (hc : c.closing ≠ []) : ∃ c', c.connCloseEnd = some c' ∧ ¬ c'.Agrees := by
  obtain ⟨f, rest, hf⟩ := List.exists_cons_of_ne_nil hc
  obtain ⟨hstate, -, -, -, hpoller, hconns, -, -⟩ :=
    removeConnection_rest { c with closing := rest } f.id
  unfold Core.connCloseEnd
  rw [hf]
  refine ⟨_, rfl, fun hagrees => ?_⟩
  generalize ({ c with closing := rest } : Core).removeConnection f.id = d at *
  have hinterest : c.poller.interest c.channel.fd = some (self, .WriteEvent) :=
    h.registered.interest hs
  split at hagrees
  case isFalse =>
    have hgone := hagrees.idle (by rw [hstate]; simp)
    rw [hpoller] at hgone
    exact hgone.2 _ _ hinterest
  case isTrue =>
    unfold Core.connCloseFd at hagrees
    split at hagrees
    case h_1 k hk =>
      rw [hconns] at hk
      obtain ⟨s, hfd, -, hne⟩ := h.older.fd f.id k hk
      have hgone := hagrees.idle (show d.state ≠ .connecting by rw [hstate]; simp)
      dsimp only at hgone
      rw [hpoller] at hgone
      refine hgone.2 c.channel.fd .WriteEvent ?_
      refine (Function.update_of_ne (fun he => hne hs ?_) ..).trans hinterest
      exact he.trans hfd
    case h_2 =>
      have hgone := hagrees.idle (by rw [hstate]; simp)
      rw [hpoller] at hgone
      exact hgone.2 _ _ hinterest

end Core

variable {w w' : Connector} {i : Input}

/-- A good step keeps the invariant. -/
theorem stateInv_step (h : w.toCore.StateInv) (hgood : w.StartsAlone i)
    (hstep : step w i = some w') : w'.toCore.StateInv := by
  obtain ⟨e, he, hallowed⟩ := step_core hstep
  cases e with
  | none =>
    rw [← Option.some.inj he]
    exact h
  | attempt a =>
    rw [← Option.some.inj he]
    obtain ⟨hs, hdead⟩ := hgood.1 hallowed
    exact h.attempt hs hdead
  | release =>
    simp only [Core.apply] at he
    split_ifs at he with hs
    rw [← Option.some.inj he]
    exact h.release hs
  | establish =>
    simp only [Core.apply] at he
    split_ifs at he with hs
    rw [← Option.some.inj he]
    exact h.establish hs.1 hs.2
  | connShutdown id =>
    rw [← Option.some.inj he]
    exact h.connShutdown id
  | connClose id force =>
    rw [← Option.some.inj he]
    exact h.connClose id force
  | connCloseEnd =>
    have hopen : w.closing ≠ [] := by
      intro hnil
      simp only [Core.apply, Core.connCloseEnd, hnil] at he
      cases he
    exact h.connCloseEnd (hgood.2 hallowed hopen) he
  | connDestroy id => exact h.connDestroy he

/-- **When a connector agrees with its connection.**  State, poller and
connection agree in every state of a run if and only if every attempt of the run
starts when no other is in progress and no connection is alive, and no
`handleClose` ends while an attempt is in progress. -/
theorem agrees_iff (is : List Input) :
    Always step (fun w => w.toCore.Agrees) new is ↔ Steps step StartsAlone new is := by
  have hkeep : ∀ w i w', w.toCore.StateInv → StartsAlone w i → step w i = some w' →
      w'.toCore.StateInv := fun w i w' h hgood hstep => stateInv_step h hgood hstep
  have hbad : ∀ w i, w.toCore.StateInv → ¬ StartsAlone w i →
      ∃ w', step w i = some w' ∧ ¬ w'.toCore.Agrees := by
    intro w i h hbad
    by_cases hattempts : w.Attempts i ∧ ¬ (w.state ≠ .connecting ∧ ∀ id, w.alive id = false)
    · obtain ⟨a, w', hstep, hcore⟩ := step_attempt hattempts.1
      refine ⟨w', hstep, ?_⟩
      rw [hcore]
      by_cases hs : w.state = .connecting
      · exact h.not_agrees_connecting hs
      · obtain ⟨id, halive⟩ : ∃ id, w.alive id = true := by simpa [hs] using hattempts.2
        exact h.not_agrees_alive halive
    · have hclose : i = .connCloseEnd ∧ w.closing ≠ [] ∧ w.state = .connecting := by
        by_contra hno
        refine hbad ⟨fun ha => ?_, fun hi hc hs => hno ⟨hi, hc, hs⟩⟩
        by_contra hn
        exact hattempts ⟨ha, hn⟩
      obtain ⟨rfl, hc, hs⟩ := hclose
      obtain ⟨c', hend, hnot⟩ := h.not_agrees_close hs hc
      exact ⟨{ w with toCore := c' }, by simp [step, hend], hnot⟩
  exact always_iff_steps hkeep (fun w h => h.agrees) hbad Core.stateInv_new

/-- A connection is shut down and still half-closed when `connect` starts a new
attempt; the close of the old connection lands in it. -/
def reconnectHalfClosed : List Input :=
  [.connect false ⟨true, .EINPROGRESS⟩, .handleWrite 0 false, .shutdown false,
    .connect false ⟨true, .EINPROGRESS⟩, .connClose 1 false, .connCloseEnd]

/-- The close of the old connection makes the connector forget the attempt, whose
channel stays in the poller: `removeConnection` does not look at which connection is
gone. -/
theorem close_lands_in_reconnect :
    ¬ ∀ is, Always step (fun w => w.toCore.Agrees) new is := by
  intro h
  have hrun : ∃ w, run step new reconnectHalfClosed = some w ∧ w.state = .disconnected ∧
      w.poller.interest (some 1) = some (self, .WriteEvent) := by
    refine ⟨_, rfl, ?_, ?_⟩
    · decide
    · decide
  obtain ⟨w, hw, hstate, hinterest⟩ := hrun
  have hagrees := (h reconnectHalfClosed).last hw
  exact (hagrees.idle (by rw [hstate]; simp)).2 _ _ hinterest

end Connector
end Net
end Sevent
