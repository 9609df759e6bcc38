/-
# The table of a server agrees with its connections

`sevent/net/TcpServer.cpp`, `sevent/net/TcpConnection.cpp`.

The table `connections` belongs to the owner loop, the state of a connection to
its worker; only queued tasks connect the two.  `TableAgrees` says what the
server may rely on while it lives, in every state of every run: ids are distinct
and never used again, a connection that is not closed is in the table, and for
a closed one that still is, exactly one removal is on its way.  It is a
`removeConnectionInLoop` on the owner loop, or, as long as `handleClose` has not
come to its call of the holder (it runs the user's `onClose` first), that call of
`handleClose` itself.

What carries it is `View.Told`: the message is on its way or has come, once the
connection is closed and never before.
-/

import Sevent.Net.ConnLife

namespace Sevent
namespace Net
namespace Service

/-- The `removeConnectionInLoop` of an id that the owner loop has still to run. -/
def inFlight (s : Service) (id : ℕ) : ℕ := (s.loops 0).all.count (.removeConnectionInLoop id)

/-- The calls of `handleClose` that run and have still to tell the holder. -/
def closing (s : Service) (c : ℕ) : ℕ :=
  let ops := (s.loops (s.conns c).loop).ops
  ops.count (.conn c .queueTie) + ops.count (.conn c .removeConnection)

/-- What the table of a server says of its connections, of those in it and of
those that have been. -/
structure TableAgrees (s : Service) : Prop where
  keys : (s.server.connections.map Prod.fst).Nodup
  entry : ∀ p ∈ s.server.connections,
    p.2 < s.created ∧ (s.conns p.2).tcpHolder = .server ∧ (s.conns p.2).id = p.1
  unused : ∀ c < s.created, (s.conns c).tcpHolder = .server → (s.conns c).id < s.server.nextId
  unique : ∀ c < s.created, ∀ c' < s.created, (s.conns c).tcpHolder = .server →
    (s.conns c').tcpHolder = .server → (s.conns c).id = (s.conns c').id → c = c'
  listed : ∀ c < s.created, (s.conns c).tcpHolder = .server →
    (s.conns c).state ≠ .disconnected → ((s.conns c).id, c) ∈ s.server.connections
  inFlight : ∀ p ∈ s.server.connections, (s.conns p.2).state = .disconnected →
    s.inFlight p.1 + s.closing p.2 = 1
  once : ∀ c < s.created, (s.conns c).tcpHolder = .server →
    (s.acts c).count .removeConnection ≤ 1
  live : ∀ c < s.created, (s.conns c).tcpHolder = .server →
    s.unreferenced c = true ∨ (s.conns c).destroyed = true → (s.conns c).state = .disconnected

/-! ### What the view says of the loops -/

variable {s : Service} {c : ℕ}

namespace View

variable {v : View}

/-- The ends of functions are in the running call only. -/
theorem Base.count_tail {x : ConnOp} (h : v.Base) (hx : x.isTail = true) :
    v.count x = v.running.count x := by
  have hz : (v.todo ++ v.pending).count x = 0 := List.count_eq_zero.2 fun hm => by
    simp [h.tails x hm] at hx
  rw [count, all, List.append_assoc, List.count_append, hz, Nat.add_zero]

end View

theorem removals_server (hholder : (s.conns c).tcpHolder = .server) :
    (s.view c).removals = s.inFlight (s.conns c).id := by
  simp [removals, removalsIn, hholder, inFlight]

/-- The messages that a connection's view counts. -/
theorem tokens_view (hb : (s.view c).Base) (hholder : (s.conns c).tcpHolder = .server) :
    (s.view c).tokens = s.inFlight (s.conns c).id + s.closing c := by
  rw [View.tokens, hb.count_tail rfl, hb.count_tail rfl, removals_server hholder, view_running,
    count_opsOf, count_opsOf, closing]
  omega

/-! ### All runs -/

/-- Of a connection of the server: its life, and what the server has been told. -/
def View.Listed (v : View) : Prop := v.Life ∧ (v.conn.tcpHolder = .server → v.Told)

theorem View.Listed.step {v v' : View} {cause : Cause} (hb : v.Base) (h : v.Listed)
    (hstep : View.Step v cause v') : v'.Listed := by
  refine ⟨h.1.step hb hstep, fun hholder => ?_⟩
  have hserver : v.conn.tcpHolder = .server := hstep.identity.2.2 ▸ hholder
  exact (h.2 hserver).step hb (hstep.ne_replaced hserver) hstep

/-- **The table of a live server agrees with its connections**, in every state of
every run, with any number of workers and the messages between the loops in any
order: the keys are the ids, which are given out once; every open connection is in
the table; and one removal is under way, or begun, for each entry whose connection is
closed. -/
theorem table_agrees (workers : ℕ) (connectorLoop : ℕ → ℕ) (is : List Input) :
    Transition.Always step (fun s => s.server.phase = .alive → TableAgrees s)
      (init workers connectorLoop) is := by
  refine (always_views_of_step (fun v hv => ⟨hv.life, fun _ => hv.told⟩)
    (fun v cause v' hb hl hst => View.Listed.step hb hl hst) workers connectorLoop is).mono
    fun s hs hphase => ?_
  obtain ⟨hwf, hviews⟩ := hs
  -- of a connection of the server
  have htold {c : ℕ} (hc : c < s.created) (hholder : (s.conns c).tcpHolder = .server) :
      s.inFlight (s.conns c).id + s.closing c + (if s.held c then 0 else 1) =
        (s.conns c).closed := by
    obtain ⟨hb, -, ht⟩ := hviews c hc
    rw [← tokens_view hb hholder]
    have hp : (s.view c).phase = .alive := by simp [phaseOf, hholder, hphase]
    exact ht hholder hp
  have hclosed {c : ℕ} (hc : c < s.created) (hholder : (s.conns c).tcpHolder = .server)
      (hheld : s.held c = false) : (s.conns c).state = .disconnected := by
    have ht := htold hc hholder
    have hle := (s.conns c).closed_le_one
    rw [hheld] at ht
    exact Conn.closed_eq_one.1 (by simp at ht; omega)
  refine ⟨hwf.keys, hwf.table, hwf.ids, hwf.inj, fun c hc hholder hst => ?_, fun p hp hst => ?_,
    fun c hc hholder => ?_, fun c hc hholder hgone => ?_⟩
  · by_contra hnot
    exact hst (hclosed hc hholder (Bool.eq_false_iff.2 (mt (held_server hholder).1 hnot)))
  · obtain ⟨hc, hholder, hid⟩ := hwf.table p hp
    have ht := htold hc hholder
    have hheld : s.held p.2 = true := (held_server hholder).2 (hid ▸ hp)
    rw [hheld, Conn.closed_eq_one.2 hst, hid] at ht
    simpa using ht
  · have hsent := (hviews c hc).2.1.sent
    have hle := (s.conns c).closed_le_one
    simp only [view_acts, view_conn] at hsent
    omega
  · refine hclosed hc hholder ?_
    rcases hgone with hgone | hgone
    · exact (unreferenced_view hgone).1
    · by_contra hheld
      have hlive := (hviews c hc).1.held (by simpa using hheld)
      simp [hgone] at hlive

end Service
end Net
end Sevent
