/-
# The end of a server

`sevent/net/TcpServer.cpp`, `sevent/net/TcpConnection.cpp`,
`sevent/net/EventLoop.cpp`, `sevent/net/EventLoopThread.cpp`.

`~TcpServer` has `removeItself` run for every connection, on the spot or as a
task of its worker, and then the workers quit and are joined.  `TeardownClean`
says what should be left: every connection has come to `onClose` once, is
disconnected before its last reference goes, and no `removeConnection` is on its
way to a server that is gone.

Three things break this.  `removeItself` does not look at the state, as
`handleClose` does, so a connection that is closed but still in `connections`
comes to `onClose` again; it is there as long as its removal is on the way.  A
worker that closes a connection after `~TcpServer` has begun closes it a second
time for the same reason, and sends a message to a server that is gone.  And a
worker that finds `isQuit` set leaves `loop()` with its tasks, `removeItself`
among them, not run.

`server_teardown` says that nothing else does: where no step of a run is one of
these, every state of it is clean.
-/

import Sevent.Net.ConnectionTable
import Sevent.Net.OwnerLoop

namespace Sevent
namespace Net
namespace Service

/-- How often a connection has come to `onClose`. -/
def onCloses (acts : List Act) : ℕ := (lifeCallbacks acts).count .onClose

/-- What the end of a server leaves of its connections. -/
structure TeardownClean (s : Service) : Prop where
  once : ∀ c < s.created, (s.conns c).tcpHolder = .server → onCloses (s.acts c) ≤ 1
  released : ∀ c < s.created, (s.conns c).tcpHolder = .server →
    s.unreferenced c = true ∨ (s.conns c).destroyed = true → (s.conns c).state = .disconnected
  closed : s.server.phase = .gone → ∀ c < s.created, (s.conns c).tcpHolder = .server →
    onCloses (s.acts c) = 1 ∧ (s.conns c).state = .disconnected
  addressed : s.server.phase = .gone → ∀ id, s.inFlight id = 0

/-- The connection that a step closes in `handleClose`. -/
def closing? (s : Service) : Input → Option ℕ
  | .exec l ch _ =>
    match (s.loops l).ops with
    | .conn c op :: _ => if op.closes (s.conns c) ch then some c else none
    | _ => none
  | _ => none

/-- The loop whose thread leaves `loop()`. -/
def leaving? (s : Service) : Input → Option ℕ
  | .testQuit l => if (s.loops l).isQuit ∧ l ≠ 0 then some l else none
  | _ => none

/-- The loop that an accepted connection gets. -/
def accepting? (s : Service) (i : Input) : Option ℕ :=
  match s.current i with
  | some (.accept _) => some s.getNextLoop.1
  | _ => none

/-- `~TcpServer` begins when no connection in the table is closed; no worker closes
a connection of the server after that; a worker leaves `loop()` when all of its
connections are closed; and it gets none after that. -/
def CleanStep (s : Service) (i : Input) : Prop :=
  (s.current i = some (.call .destroyServer) →
    ∀ p ∈ s.server.connections, (s.conns p.2).state ≠ .disconnected) ∧
  (∀ c ∈ s.closing? i, (s.conns c).tcpHolder = .server → (s.conns c).loop ≠ 0 →
    s.server.phase = .alive) ∧
  (∀ l ∈ s.leaving? i, ∀ c < s.created, (s.conns c).tcpHolder = .server → (s.conns c).loop = l →
    (s.conns c).state = .disconnected) ∧
  ∀ l ∈ s.accepting? i, (s.loops l).place ≠ .exited

instance (s : Service) (i : Input) : Decidable (s.CleanStep i) :=
  inferInstanceAs (Decidable (_ ∧ (∀ c ∈ s.closing? i, _) ∧ (∀ l ∈ s.leaving? i, _) ∧
    ∀ l ∈ s.accepting? i, _))

/-! ### `onClose` -/

/-- The calls of `onClose` in two parts of a log. -/
theorem onCloses_append (acts as : List Act) :
    onCloses (acts ++ as) = onCloses acts + onCloses as := by
  rw [onCloses, lifeCallbacks_append, List.count_append, onCloses, onCloses]

/-- Input and output are no calls of `onClose`. -/
theorem onCloses_of_isIo {as : List Act} (h : ∀ a ∈ as, a.isIo = true) : onCloses as = 0 := by
  rw [onCloses, lifeCallbacks_of_isIo h, List.count_nil]

/-- A connection comes to `onClose` when it is closed. -/
theorem onCloses_of_did {k : Conn} {ch : Choice} {op : ConnOp} {o : Outcome}
    (hdid : Outcome.Did k ch op o) (hi : op = .removeItself → k.closed = 0)
    (hc : op = .onConnection → k.closed = 0) : onCloses o.acts + k.closed = o.conn.closed := by
  cases hdid with
  | connect =>
    rw [hc rfl]
    rfl
  | io hq hnot hst hio =>
    obtain ⟨as, has, hall⟩ := hio.acts
    rw [has, onCloses_append, onCloses_of_isIo hall, Conn.closed, Conn.closed, hio.state]
    exact Nat.zero_add _
  | notify hop hcb => rcases hcb with rfl | rfl <;> exact Nat.zero_add _
  | shutdown hst hio =>
    obtain ⟨as, has, hall⟩ := hio.acts
    rw [has, onCloses_append, onCloses_of_isIo hall, Conn.closed_of_ne (by simp [hst]),
      Conn.closed_of_ne (by simp [hio.state])]
    rfl
  | @close op o hq hcl hst hio =>
    obtain ⟨as, has, hall⟩ := hio.acts
    rw [Outcome.start_acts, List.nil_append] at has
    simp only [Outcome.afterwards_acts, Outcome.removeItself_acts, onCloses_append, has,
      onCloses_of_isIo hall, Conn.closed_of_ne hst]
    rfl
  | forceClose hst =>
    have hne : k.state ≠ .disconnected := by rcases hst with hst | hst <;> simp [hst]
    rw [Conn.closed_of_ne hne]
    rfl
  | removeItself =>
    rw [hi rfl]
    rfl
  | _ => exact Nat.zero_add _

namespace View

variable {v v' : View} {cause : Cause}

/-- `1` if the loop of `~TcpServer` has still to come to the connection, which is
not closed. -/
def due (v : View) : ℕ :=
  if v.phase = .removing ∧ v.held = true ∧ v.visited = false ∧ v.conn.closed = 0 then 1 else 0

/-- What holds of a connection of the server up to its end. -/
structure Torn (v : View) : Prop where
  onClose : onCloses v.acts = v.conn.closed
  told : v.phase = .alive ∨ v.phase = .removing → v.visited = false →
    v.tokens + (if v.held then 0 else 1) = v.conn.closed
  once : v.phase ≠ .alive → v.count .removeItself + v.due + v.conn.closed = 1
  silent : v.phase ≠ .alive → v.conn.loop ≠ 0 ∨ v.phase ≠ .removing ∨ v.visited = true →
    v.tokens = 0
  exited : v.place = .exited → v.conn.closed = 1
  destroyed : v.conn.destroyed = true → v.conn.closed = 1

/-- The condition on the steps. -/
structure Clean (v : View) (cause : Cause) : Prop where
  begins : cause = .destroyServer → v.held = true → v.conn.closed = 0
  closes : cause = .handleClose → v.conn.loop ≠ 0 → v.phase = .alive
  leaves : cause = .exit → v.conn.closed = 1
  visits : cause = .visitDirect ∨ cause = .clear → v.tokens = 0

/-- A removal that is due: the server destroys its connections, holds this one,
and has not come to it. -/
theorem of_due (h : v.due = 1) : v.phase = .removing ∧ v.held = true ∧ v.visited = false := by
  by_contra hd
  have hz : v.due = 0 := if_neg fun hall => hd ⟨hall.1, hall.2.1, hall.2.2.1⟩
  omega

/-- Only while the server destroys its connections can a removal be due. -/
theorem due_eq_zero (hphase : v.phase ≠ .removing) : v.due = 0 :=
  if_neg fun h => hphase h.1

/-- What leaves `~TcpServer` and `removeItself` where they are. -/
theorem Torn.frame (hb : v.Base) (h : v.Torn) (hclean : v.Clean cause)
    (hacc : Account v v' cause) (hreplaced : cause ≠ .replaced) (hvisit : cause ≠ .visitDirect)
    (hclear : cause ≠ .clear) (hloop : v'.conn.loop = v.conn.loop) (hphase : v'.phase = v.phase)
    (hvisited : v'.visited = v.visited) (hremove : v'.count .removeItself = v.count .removeItself)
    (honClose : onCloses v'.acts + v.conn.closed = onCloses v.acts + v'.conn.closed)
    (hplace : v'.place = .exited → v.place = .exited ∨ v.conn.closed = 1)
    (hdestroyed : v'.conn.destroyed = true → v.conn.destroyed = true ∨ v.conn.closed = 1) :
    v'.Torn := by
  have htok := hb.tokens
  have hle := v.conn.closed_le_one
  have heq := h.onClose
  have hexited (hp : v'.place = .exited) : v.conn.closed = 1 :=
    (hplace hp).elim h.exited id
  have hgone (hd : v'.conn.destroyed = true) : v.conn.closed = 1 :=
    (hdestroyed hd).elim h.destroyed id
  cases hacc with
  | same hclosed hheld htokens =>
    have hdue : v'.due = v.due := by simp only [due, hphase, hvisited, hheld, hclosed]
    refine ⟨by omega, ?_, ?_, ?_, fun hp => hclosed ▸ hexited hp, fun hd => hclosed ▸ hgone hd⟩
    · rw [hphase, hvisited, htokens, hheld, hclosed]
      exact h.told
    · rw [hphase, hremove, hdue, hclosed]
      exact h.once
    · rw [hphase, hvisited, htokens, hloop]
      exact h.silent
  | close hopen hclosed hheld htokens =>
    have hdue : v'.due = 0 := if_neg fun hd => by simp [hclosed] at hd
    -- after `~TcpServer` has begun, a connection of the owner loop that it has not come to
    have howner (hp : v.phase ≠ .alive) : v.conn.loop = 0 ∧ v.count .removeItself = 0 ∧
        v.due = 1 := by
      have hl : v.conn.loop = 0 := by
        by_contra hl
        exact hp (hclean.closes rfl hl)
      have hz : v.count .removeItself = 0 := List.count_eq_zero.2 (hb.direct hl)
      have ho := h.once hp
      exact ⟨hl, hz, by omega⟩
    refine ⟨by omega, fun hp hv => ?_, fun hp => ?_, fun hp hor => ?_,
      fun hp => absurd (hexited hp) (by omega), fun hd => absurd (hgone hd) (by omega)⟩
    · rw [hphase] at hp
      rw [hvisited] at hv
      have ht := h.told hp hv
      rw [htokens, hheld]
      omega
    · rw [hphase] at hp
      obtain ⟨-, hz, -⟩ := howner hp
      omega
    · rw [hphase] at hp hor
      rw [hvisited, hloop] at hor
      obtain ⟨hl, -, hdue⟩ := howner hp
      obtain ⟨hremoving, -, hnv⟩ := of_due hdue
      rcases hor with hor | hor | hor
      · exact absurd hl hor
      · exact absurd hremoving hor
      · rw [hnv] at hor
        cases hor
  | arrive hclosed hheld htokens =>
    -- the connection is closed
    have hdue : v.due = 0 := if_neg fun hd => by omega
    have hdue' : v'.due = 0 := if_neg fun hd => by simp [hheld] at hd
    refine ⟨by omega, fun hp hv => ?_, fun hp => ?_, fun hp hor => ?_,
      fun hp => hclosed ▸ hexited hp, fun hd => hclosed ▸ hgone hd⟩
    · rw [hphase] at hp
      rw [hvisited] at hv
      have ht := h.told hp hv
      rw [hheld, if_neg (by simp)]
      split at ht <;> omega
    · rw [hphase] at hp
      have ho := h.once hp
      omega
    · rw [hphase] at hp hor
      rw [hvisited, hloop] at hor
      have hs := h.silent hp hor
      omega
  | release hcause => exact absurd hcause (by simp [hreplaced, hclear])
  | removeItself hcause hclosed hheld htokens =>
    rcases hcause with hc | hc
    · exact absurd hc hvisit
    · omega

/-- A connection that nothing has a reference to is closed. -/
theorem Torn.closed_of_unreferenced (h : v.Torn) (hheld : v.held = false)
    (howns : ∀ op ∈ v.all, op.owns = false) (hvisited : v.phase = .alive → v.visited = false) :
    v.conn.closed = 1 := by
  have hz : v.count .removeItself = 0 :=
    List.count_eq_zero.2 fun hm => by simpa [ConnOp.owns] using howns _ hm
  have hdue : v.due = 0 := if_neg fun hd => by simp [hheld] at hd
  have hle := v.conn.closed_le_one
  by_cases hp : v.phase = .alive
  · have ht := h.told (.inl hp) (hvisited hp)
    rw [hheld, if_neg (by simp)] at ht
    omega
  · have ho := h.once hp
    omega

/-- `removeItself` runs as a task. -/
theorem Torn.removeItself {rest : List ConnOp} {script : List Call} (hb : v.Base) (h : v.Torn)
    (hrun : v.running = .removeItself :: rest) :
    (v.after rest ((Outcome.start v.conn).removeItself script)).Torn := by
  have hmem : .removeItself ∈ v.all := by simp [all_of_running hrun]
  have hp : v.phase ≠ .alive := fun hp => (hb.alive hp).1 hmem
  have hone := h.once hp
  have hcount (x : ConnOp) :=
    count_after (x := x) (o := (Outcome.start v.conn).removeItself script) hrun
  have hi := hcount .removeItself
  have hq := hcount .queueTie
  have hr := hcount .removeConnection
  simp at hi hq hr
  have hdue : due (v.after rest ((Outcome.start v.conn).removeItself script)) = 0 :=
    if_neg fun hd => by simp [Conn.closed] at hd
  have htok : View.tokens (v.after rest ((Outcome.start v.conn).removeItself script)) =
      v.tokens := by
    simp only [View.tokens, after_removals]
    omega
  have hpos : 0 < v.count .removeItself := List.count_pos_iff.2 hmem
  refine ⟨?_, fun hp' hv => ?_, fun _ => ?_, fun _ hor => ?_, fun _ => rfl, fun _ => rfl⟩
  · have heq := h.onClose
    refine (onCloses_append _ _).trans ?_
    rw [heq, show v.conn.closed = 0 by omega]
    rfl
  · -- the loop of `~TcpServer` has come to it
    have hremoving : v.phase = .removing := hp'.resolve_left hp
    have ht := h.told hp' hv
    by_cases hheld : v.held = true
    · have hdue : v.due = 1 := if_pos ⟨hremoving, hheld, hv, by omega⟩
      omega
    · rw [if_neg hheld] at ht
      omega
  · rw [hdue, Conn.closed_eq_one.2 rfl]
    omega
  · rw [htok]
    exact h.silent hp hor

/-- `~TcpServer` begins. -/
theorem Torn.destroyServer (hb : v.Base) (h : v.Torn) (hphase : v.phase = .alive)
    (hopen : v.held = true → v.conn.closed = 0) : View.Torn { v with phase := .removing } := by
  obtain ⟨hno, hv⟩ := hb.alive hphase
  have ht := h.told (.inl hphase) hv
  have hle := v.conn.closed_le_one
  have hz : v.count .removeItself = 0 := List.count_eq_zero.2 hno
  refine ⟨h.onClose, fun _ _ => ht, fun _ => ?_, fun _ _ => ?_, h.exited, h.destroyed⟩
  · show v.count .removeItself + View.due { v with phase := .removing } + v.conn.closed = 1
    by_cases hheld : v.held = true
    · simp [due, hheld, hv, hz, hopen hheld]
    · rw [if_neg hheld] at ht
      simp [due, hheld, hz]
      omega
  · show v.tokens = 0
    by_cases hheld : v.held = true
    · rw [if_pos hheld, hopen hheld] at ht
      exact ht
    · rw [if_neg hheld] at ht
      omega

/-- Its loop closes a connection of the owner loop. -/
theorem Torn.visitDirect {script : List Call} (hb : v.Base) (h : v.Torn) (hloop : v.conn.loop = 0)
    (hphase : v.phase = .removing) (hheld : v.held = true) (hvisited : v.visited = false)
    (htokens : v.tokens = 0) :
    View.Torn { v.after v.running ((Outcome.start v.conn).removeItself script) with
      visited := true } := by
  have ht := h.told (.inr hphase) hvisited
  rw [htokens, if_pos hheld] at ht
  have hz : v.count .removeItself = 0 := List.count_eq_zero.2 (hb.direct hloop)
  refine ⟨?_, fun _ hv => absurd hv (by simp), fun _ => ?_, fun _ _ => ?_, fun _ => rfl,
    fun _ => rfl⟩
  · refine (onCloses_append _ _).trans ?_
    rw [h.onClose, ← ht]
    rfl
  · rw [show View.due _ = 0 from if_neg fun hd => by simp at hd, Conn.closed_eq_one.2 rfl]
    simpa [count, all] using hz
  · simpa [View.tokens, count, all] using htokens

/-- Its loop has a worker close a connection. -/
theorem Torn.visitQueued (h : v.Torn) (hloop : v.conn.loop ≠ 0) (hphase : v.phase = .removing)
    (hheld : v.held = true) (hvisited : v.visited = false) :
    View.Torn { v with pending := v.pending ++ [.removeItself], visited := true } := by
  have hp : v.phase ≠ .alive := by simp [hphase]
  have htokens := h.silent hp (.inl hloop)
  have ht := h.told (.inr hphase) hvisited
  rw [htokens, if_pos hheld] at ht
  have hdue : v.due = 1 := if_pos ⟨hphase, hheld, hvisited, ht.symm⟩
  have hone := h.once hp
  refine ⟨h.onClose, fun _ hv => absurd hv (by simp), fun _ => ?_, fun _ _ => ?_, h.exited,
    h.destroyed⟩
  · rw [show View.due _ = 0 from if_neg fun hd => by simp at hd]
    have hz : v.count .removeItself = 0 := by omega
    simp only [count, all] at hz
    simp [count, all, ← ht, ← List.append_assoc, List.count_append, hz]
  · simpa [View.tokens, count, all] using htokens

/-- The end of its loop. -/
theorem Torn.clear (h : v.Torn) (hphase : v.phase = .removing)
    (hvisited : v.held = true → v.visited = true) (htokens : v.tokens = 0) :
    View.Torn { v with held := false, phase := .joining } := by
  have hdue : v.due = 0 := if_neg fun hd => by simp [hvisited hd.2.1] at hd
  have hone := h.once (by simp [hphase])
  refine ⟨h.onClose, by simp, fun _ => ?_, fun _ _ => htokens, h.exited, h.destroyed⟩
  rw [due_eq_zero (by simp)]
  show v.count .removeItself + 0 + v.conn.closed = 1
  omega

/-- The threads were joined, and with them everything is gone that could still
touch a connection. -/
theorem Torn.serverGone (h : v.Torn) (hphase : v.phase = .joining) :
    View.Torn { v with phase := .gone } := by
  have hone := h.once (by simp [hphase])
  rw [due_eq_zero (by simp [hphase])] at hone
  refine ⟨h.onClose, by simp, fun _ => ?_, fun _ _ => ?_, h.exited, h.destroyed⟩
  · rw [due_eq_zero (by simp)]
    exact hone
  · exact h.silent (by simp [hphase]) (.inr (.inl (by simp [hphase])))

/-- **Every clean step keeps it.** -/
theorem Torn.step (hb : v.Base) (h : v.Torn) (hholder : v.conn.tcpHolder = .server)
    (hclean : v.Clean cause) (hstep : Step v cause v') : v'.Torn := by
  have hacc := hb.account hstep
  have hreplaced := hstep.ne_replaced hholder
  -- what runs nothing, and has the same left to run but for functions that are not `removeItself`
  have hframe {w : View} (hacc : Account v w cause) (hvisit : cause ≠ .visitDirect)
      (hclear : cause ≠ .clear) (hconn : w.conn.state = v.conn.state ∧ w.conn.loop = v.conn.loop)
      (hdestroyed : w.conn.destroyed = v.conn.destroyed) (hphase : w.phase = v.phase)
      (hvisited : w.visited = v.visited) (hremove : w.count .removeItself = v.count .removeItself)
      (hacts : onCloses w.acts = onCloses v.acts) (hplace : w.place = .exited → v.place = .exited) :
      w.Torn :=
    h.frame hb hclean hacc hreplaced hvisit hclear hconn.2 hphase hvisited hremove
      (by rw [hacts, Conn.closed, Conn.closed, hconn.1]) (fun hp => .inl (hplace hp))
      fun hd => .inl (hdestroyed ▸ hd)
  cases hstep with
  | @run op rest ch o hrun hlive hop hdid =>
    by_cases hi : op = .removeItself
    · subst hi
      obtain rfl := hdid.eq_removeItself
      exact h.removeItself hb hrun
    · have hc : op = .onConnection → v.conn.closed = 0 := fun heq => by
        subst heq
        exact Conn.closed_of_ne (by simp [(hb.onConnection (by simp [all_of_running hrun])).1])
      have hcb := onCloses_of_did hdid (fun heq => absurd heq hi) hc
      refine h.frame hb hclean hacc hreplaced (by split <;> simp) (by split <;> simp)
        hdid.identity.2.1 rfl rfl (count_removeItself_after hrun hdid hi) ?_ .inl fun hd => .inl ?_
      · simp only [after_acts, after_conn, onCloses_append]
        omega
      · rwa [after_conn, hdid.destroyed] at hd
  | addTimer hrun hlive =>
    exact hframe hacc (by simp) (by simp) ⟨rfl, rfl⟩ rfl rfl rfl (by simp [count, all, hrun]) rfl id
  | serverRemoves hrun hlive hholder =>
    exact hframe hacc (by simp) (by simp) ⟨rfl, rfl⟩ rfl rfl rfl (by simp [count, all, hrun])
      (onCloses_append _ _) id
  | connectorRemoves hrun hlive hk => simp [hholder] at hk
  | erase _ hn => exact hframe hacc (by simp) (by simp) ⟨rfl, rfl⟩ rfl rfl rfl rfl rfl id
  | replaced hk => simp [hholder] at hk
  | stop hk => simp [hholder] at hk
  | destroyServer _ hphase => exact h.destroyServer hb hphase (hclean.begins rfl)
  | visitDirect _ hloop hphase hheld hvisited =>
    exact h.visitDirect hb hloop hphase hheld hvisited (hclean.visits (.inl rfl))
  | visitQueued _ hloop hphase hheld hvisited => exact h.visitQueued hloop hphase hheld hvisited
  | clear _ hphase hvisited => exact h.clear hphase hvisited (hclean.visits (.inr rfl))
  | serverGone _ hphase => exact h.serverGone hphase
  | @call m hallowed hlive =>
    refine hframe hacc (by simp) (by simp) ⟨rfl, rfl⟩ rfl rfl rfl ?_ rfl id
    exact List.count_cons_of_ne (Method.op_not m).2.1
  | @queue m hst hlive =>
    refine hframe hacc (by simp) (by simp) ⟨rfl, rfl⟩ rfl rfl rfl ?_ rfl id
    simp [count, all, List.count_cons_of_ne (Method.op_not m).2.1]
  | setTcpHandler hst hlive =>
    exact hframe hacc (by simp) (by simp) ⟨rfl, rfl⟩ rfl rfl rfl rfl (onCloses_append _ _) id
  | configure hst => exact hframe hacc (by simp) (by simp) ⟨rfl, rfl⟩ rfl rfl rfl rfl rfl id
  | testQuit hplace hrun htodo =>
    exact hframe hacc (by simp) (by simp) ⟨rfl, rfl⟩ rfl rfl rfl rfl rfl (by simp)
  | exit hplace hrun htodo =>
    have hclosed := hclean.leaves rfl
    have hz : v.count .removeItself = 0 := by
      by_cases hp : v.phase = .alive
      · exact List.count_eq_zero.2 (hb.alive hp).1
      · have ho := h.once hp
        omega
    refine h.frame hb hclean hacc hreplaced (by simp) (by simp) rfl rfl rfl ?_ rfl
      (fun _ => .inr hclosed) .inl
    rw [hz]
    simp [count, all, hrun, htodo]
  | @poll ops timers hplace hrun htodo hops htimers =>
    refine hframe hacc (by simp) (by simp) ⟨rfl, rfl⟩ rfl rfl rfl ?_ rfl (by simp)
    have hz : ops.count .removeItself = 0 := List.count_eq_zero.2 fun hm => by
      simpa using hops _ hm
    simp [count, all, hrun, htodo, hz]
  | next hrun htodo =>
    exact hframe hacc (by simp) (by simp) ⟨rfl, rfl⟩ rfl rfl rfl
      (count_eq_of_all (by simp [all, hrun, htodo])) rfl id
  | swap hplace hrun htodo =>
    exact hframe hacc (by simp) (by simp) ⟨rfl, rfl⟩ rfl rfl rfl
      (count_eq_of_all (by simp [all, hrun, htodo])) rfl (by simp)
  | endTasks hplace hrun htodo =>
    exact hframe hacc (by simp) (by simp) ⟨rfl, rfl⟩ rfl rfl rfl rfl rfl (by simp)
  | destroy hlive hheld howns =>
    have hclosed := h.closed_of_unreferenced hheld howns fun hp => (hb.alive hp).2
    refine h.frame hb hclean hacc hreplaced (by simp) (by simp) rfl rfl rfl rfl ?_ .inl
      fun _ => .inr hclosed
    have hz : onCloses (if v.conn.fd ≥ 0 then [Act.close] else []) = 0 := by split <;> rfl
    rw [onCloses_append, hz]
    rfl

/-- A new connection is torn down by nothing yet, on a loop that still runs. -/
theorem Initial.torn (h : v.Initial) (hplace : v.place ≠ .exited) : v.Torn := by
  cases h with
  | queued hl =>
    exact ⟨rfl, by simp [fresh, View.tokens, count, all, Conn.closed, Conn.new], by simp [fresh],
      by simp [fresh], fun hp => absurd hp hplace, by simp [fresh, Conn.new]⟩
  | called hl =>
    exact ⟨rfl, by simp [fresh, View.tokens, count, all, Conn.closed], by simp [fresh],
      by simp [fresh], fun hp => absurd hp hplace, by simp [Conn.new]⟩

end View

/-! ### The messages and the owner loop -/

variable {s s' : Service} {i : Input} {c : ℕ}

/-- A message to the server is one of a connection of the server. -/
theorem exists_tokens_pos {op : Op} (hwf : WellFormed s) (hop : op ∈ (s.loops 0).all)
    (htoken : s.isToken op = true) :
    ∃ c < s.created, (s.conns c).tcpHolder = .server ∧ 0 < (s.view c).tokens := by
  have hknown := hwf.known 0 op hop
  -- what is left of a `handleClose`
  have htail {c : ℕ} {x : ConnOp} (hop : .conn c x ∈ (s.loops 0).all)
      (hc : (s.conns c).tcpHolder = .server ∧ (s.conns c).loop = 0) : 0 < (s.view c).count x := by
    refine List.count_pos_iff.2 ?_
    rw [View.all, view_running, view_todo, view_pending, ← opsOf_append, ← opsOf_append, hc.2]
    exact mem_opsOf.2 hop
  cases op with
  | removeConnectionInLoop id =>
    obtain ⟨c, hc, hholder, rfl⟩ := hknown
    refine ⟨c, hc, hholder, ?_⟩
    have hpos : 0 < s.inFlight (s.conns c).id := List.count_pos_iff.2 hop
    rw [View.tokens, removals_server hholder]
    omega
  | conn c x =>
    cases x with
    | queueTie =>
      have hc := of_decide_eq_true htoken
      have hpos := htail hop hc
      refine ⟨c, hknown, hc.1, ?_⟩
      rw [View.tokens]
      omega
    | removeConnection =>
      have hc := of_decide_eq_true htoken
      have hpos := htail hop hc
      refine ⟨c, hknown, hc.1, ?_⟩
      rw [View.tokens]
      omega
    | _ => simp [isToken] at htoken
  | _ => simp [isToken] at htoken

/-- Where the owner loop has no message to the server, a connection of it has
none. -/
theorem tokens_eq_zero (hb : (s.view c).Base) (hholder : (s.conns c).tcpHolder = .server)
    (hloop : (s.conns c).loop = 0) (hno : ∀ op ∈ (s.loops 0).all, s.isToken op = false) :
    (s.view c).tokens = 0 := by
  have hflight : s.inFlight (s.conns c).id = 0 := List.count_eq_zero.2 fun hm => by
    simpa [isToken] using hno _ hm
  have hops (x : ConnOp) (hx : s.isToken (.conn c x) = true) :
      (s.loops 0).ops.count (.conn c x) = 0 := List.count_eq_zero.2 fun hm => by
    simpa [hx] using hno (.conn c x) (by simp [Loop.all, hm])
  rw [tokens_view hb hholder, hflight, closing, hloop, hops .queueTie (by simp [isToken, *]),
    hops .removeConnection (by simp [isToken, *])]

/-! ### All runs -/

/-- What a run of clean steps keeps. -/
structure Ending (s : Service) : Prop where
  wellFormed : WellFormed s
  control : Control s
  views : ∀ c < s.created, (s.view c).Base ∧ ((s.conns c).tcpHolder = .server → (s.view c).Torn)

/-- The phase in which a connection of the server finds its holder is that of
the server. -/
theorem phaseOf_server (hholder : (s.conns c).tcpHolder = .server) :
    (s.view c).phase = s.server.phase := by simp [phaseOf, hholder]

/-- `~TcpServer` begins with no message on its way. -/
theorem Ending.no_tokens (h : Ending s) (hphase : s.server.phase = .alive)
    (hopen : ∀ p ∈ s.server.connections, (s.conns p.2).state ≠ .disconnected) :
    ∀ op ∈ (s.loops 0).all, s.isToken op = false := by
  intro op hop
  by_contra htoken
  obtain ⟨c, hc, hholder, hpos⟩ := exists_tokens_pos h.wellFormed hop (by simpa using htoken)
  obtain ⟨hb, ht⟩ := h.views c hc
  have hp := (phaseOf_server hholder).trans hphase
  have htold := (ht hholder).told (.inl hp) (hb.alive hp).2
  have hle := (s.view c).conn.closed_le_one
  by_cases hheld : (s.view c).held = true
  · have hclosed : (s.view c).conn.closed = 0 :=
      Conn.closed_of_ne (hopen _ ((held_server hholder).1 hheld))
    rw [if_pos hheld] at htold
    omega
  · rw [if_neg hheld] at htold
    omega

/-- What the condition says of one connection. -/
theorem Ending.clean {cause : Cause} (h : Ending s) (hgood : s.CleanStep i)
    (hstep : s.step i = some s') (hc : c < s.created) (hholder : (s.conns c).tcpHolder = .server)
    (hcause : s.Causes i c cause) : (s.view c).Clean cause := by
  obtain ⟨hbegins, hcloses, hleaves, -⟩ := hgood
  obtain ⟨hb, ht⟩ := h.views c hc
  refine ⟨?_, ?_, ?_, ?_⟩
  · rintro rfl hheld
    exact Conn.closed_of_ne (hbegins (Runs.current hcause) _ ((held_server hholder).1 hheld))
  · rintro rfl hloop
    obtain ⟨l, ch, pick, op, rest, rfl, hops, hcl⟩ := hcause
    rw [phaseOf_server hholder]
    exact hcloses c (by simp [closing?, hops, hcl]) hholder hloop
  · rintro rfl
    obtain ⟨rfl, hloop, hquit⟩ := hcause
    exact Conn.closed_eq_one.2 (hleaves _ (by simp [leaving?, hquit, hloop]) c hc hholder rfl)
  · intro hor
    have hruns : s.Runs i .removeAll := by rcases hor with rfl | rfl <;> exact hcause
    obtain ⟨l, ch, pick, rest, rfl, hops⟩ := hruns
    obtain ⟨op, rest', hops', hexec⟩ := exec_eq_some.1 hstep
    obtain ⟨rfl, rfl⟩ := List.cons.inj (hops.symm.trans hops')
    simp only [execOp, Option.ite_none_right_eq_some] at hexec
    obtain ⟨⟨rfl, hphase⟩, -⟩ := hexec
    have hp : (s.view c).phase = .removing := (phaseOf_server hholder).trans hphase
    by_cases hloop : (s.conns c).loop = 0
    · refine tokens_eq_zero hb hholder hloop fun op hop => ?_
      rw [Loop.all, hops, List.cons_append, List.cons_append, List.mem_cons] at hop
      rcases hop with rfl | hop
      · rfl
      · exact h.control.tokens_of_removeAll hphase hops op hop
    · exact (ht hholder).silent (by rw [hp]; simp) (.inl hloop)

/-- **A clean step keeps it.** -/
theorem Ending.step (h : Ending s) (hgood : s.CleanStep i) (hstep : s.step i = some s') :
    Ending s' := by
  refine ⟨h.wellFormed.step hstep, h.control.step h.wellFormed (fun c hmem hholder hloop hp => ?_)
    (fun hcurrent => ?_) hstep, ?_⟩
  · have hc : c < s.created := h.wellFormed.known (s.conns c).loop (.conn c .removeConnection)
      (by simp [Loop.all, hmem])
    have hphase := (phaseOf_server hholder).trans hp
    have hz := ((h.views c hc).2 hholder).silent (by rw [hphase]; simp) (.inl hloop)
    have hpos : 0 < (s.view c).count .removeConnection :=
      List.count_pos_iff.2 (by simp [View.all, mem_opsOf, hmem])
    rw [View.tokens] at hz
    omega
  · refine h.no_tokens ?_ (hgood.1 hcurrent)
    cases i with
    | exec l ch pick =>
      obtain ⟨op, rest, hops, hexec⟩ := exec_eq_some.1 hstep
      obtain rfl : op = .call .destroyServer := by simpa [current, hops] using hcurrent
      simp only [execOp, doCall, Option.ite_none_right_eq_some] at hexec
      exact hexec.1.2
    | _ => simp [current] at hcurrent
  · have hview := forall_view_step (P := fun v => v.Base ∧ (v.conn.tcpHolder = .server → v.Torn))
      h.wellFormed hstep (fun v hv hmakes => ⟨hv.base, fun hholder => ?_⟩) h.views
      fun c hc cause v hst hcause hv => ⟨hv.1.step hst, fun hholder => ?_⟩
    · exact hview
    · obtain ⟨⟨fd, hruns⟩, hplace⟩ := hmakes hholder
      refine hv.torn ?_
      rw [hplace]
      exact hgood.2.2.2 _ (by simp [accepting?, hruns.current])
    · have hserver : (s.conns c).tcpHolder = .server := hst.identity.2.2 ▸ hholder
      exact (hv.2 hserver).step hv.1 hserver (h.clean hgood hstep hc hserver hcause) hst

/-- The invariant gives a clean teardown. -/
theorem Ending.teardownClean (h : Ending s) : TeardownClean s := by
  refine ⟨fun c hc hholder => ?_, fun c hc hholder hgone => ?_, fun hphase c hc hholder => ?_,
    fun hphase id => ?_⟩
  · exact Nat.le_trans (Nat.le_of_eq ((h.views c hc).2 hholder).onClose) (s.conns c).closed_le_one
  · obtain ⟨hb, ht⟩ := h.views c hc
    refine Conn.closed_eq_one.1 ?_
    rcases hgone with hgone | hgone
    · obtain ⟨hheld, howns, -⟩ := unreferenced_view hgone
      exact (ht hholder).closed_of_unreferenced hheld howns fun hp => (hb.alive hp).2
    · exact (ht hholder).destroyed hgone
  · obtain ⟨hb, ht⟩ := h.views c hc
    have hp := (phaseOf_server hholder).trans hphase
    have hone := (ht hholder).once (by rw [hp]; simp)
    rw [View.due_eq_zero (by rw [hp]; simp)] at hone
    have hclosed : (s.conns c).closed = 1 := by
      obtain ⟨hiff, hle⟩ := h.wellFormed.worker c hc hholder
      by_cases hloop : (s.conns c).loop = 0
      · have hz : (s.view c).count .removeItself = 0 := List.count_eq_zero.2 (hb.direct hloop)
        rw [hz] at hone
        simpa using hone
      · exact (ht hholder).exited
          (h.control.gone hphase _ (Nat.one_le_iff_ne_zero.2 hloop) hle)
    exact ⟨((ht hholder).onClose).trans hclosed, Conn.closed_eq_one.1 hclosed⟩
  · by_contra hne
    obtain ⟨c, hc, hholder, rfl⟩ :=
      h.wellFormed.known 0 (.removeConnectionInLoop id)
        (List.count_pos_iff.1 (Nat.pos_of_ne_zero hne))
    obtain ⟨hb, ht⟩ := h.views c hc
    have hp := (phaseOf_server hholder).trans hphase
    have hz := (ht hholder).silent (by rw [hp]; simp) (.inr (.inl (by rw [hp]; simp)))
    rw [tokens_view hb hholder] at hz
    omega

/-- **The end of a server is clean**, in every state of a run whose steps are clean:
`onClose` comes to each of its connections once, none is released or destroyed before
it is `disconnected`, and once `~TcpServer` has returned all of them are closed and
no removal is on its way to it. -/
theorem server_teardown {workers : ℕ} {connectorLoop : ℕ → ℕ} {is : List Input}
    (h : Transition.Steps step CleanStep (init workers connectorLoop) is) :
    Transition.Always step TeardownClean (init workers connectorLoop) is := by
  refine (Transition.always_of_steps (fun s i s' hs hg hst => Ending.step hs hg hst)
    ⟨wellFormed_init workers connectorLoop, control_init workers connectorLoop, by simp [init]⟩
    h).mono fun s hs => hs.teardownClean

/-! ### Two runs -/

/-- One client is accepted, and its worker has run `onConnection`. -/
def accepted : List Input :=
  [.testQuit 0, .poll 0 [.accept 5], .next 0, .exec 0 (.calls []) 0, .swap 0, .endTasks 0,
    .testQuit 1, .poll 1 [], .swap 1, .next 1, .exec 1 (.calls []) 0, .endTasks 1, .testQuit 1]

/-- The end of a server whose connection is open: the worker runs `removeItself`
before it is told to quit. -/
theorem teardown_of_open : ∃ s, s.server.phase = .gone ∧ TeardownClean s ∧
    Transition.run step (init 1 fun _ => 1) (accepted ++ [.user 0,
      .exec 0 (.calls [.destroyServer]) 0, .exec 0 (.calls []) 0, .exec 0 (.calls []) 0,
      .exec 0 (.calls []) 0, .poll 1 [], .swap 1, .next 1, .exec 1 (.calls []) 0,
      .exec 1 (.calls []) 0, .endTasks 1, .exec 0 (.calls []) 0, .testQuit 1,
      .exec 0 (.calls []) 0, .exec 0 (.calls []) 0]) = some s := by
  have hphase : (Transition.run step (init 1 fun _ => 1) (accepted ++ [.user 0,
      .exec 0 (.calls [.destroyServer]) 0, .exec 0 (.calls []) 0, .exec 0 (.calls []) 0,
      .exec 0 (.calls []) 0, .poll 1 [], .swap 1, .next 1, .exec 1 (.calls []) 0,
      .exec 1 (.calls []) 0, .endTasks 1, .exec 0 (.calls []) 0, .testQuit 1,
      .exec 0 (.calls []) 0, .exec 0 (.calls []) 0])).map (·.server.phase) = some .gone := by
    decide
  obtain ⟨s, hrun, hs⟩ := Option.map_eq_some_iff.1 hphase
  exact ⟨s, hs, (server_teardown (by decide)).last hrun, hrun⟩

/-- The client closes, and `~TcpServer` begins while the removal of its connection
is in the queue of the owner loop: `onClose` comes twice. -/
def closedInFlight : List Input :=
  accepted ++ [.poll 1 [.channel 0 readable], .next 1, .exec 1 (.calls []) 0,
    .exec 1 { script := [], read := .eof, write := .accepted 0 } 0, .exec 1 (.calls []) 0,
    .exec 1 (.calls []) 0, .exec 1 (.calls []) 0, .user 0, .exec 0 (.calls [.destroyServer]) 0,
    .exec 0 (.calls []) 0, .exec 0 (.calls []) 0, .swap 1, .next 1, .exec 1 (.calls []) 0, .next 1,
    .exec 1 (.calls []) 0]

/-- So the teardown of this run is not clean: after `~TcpServer` has returned, the
log of the one connection has two calls of `onClose`. -/
theorem closed_twice :
    ¬ Transition.Always step TeardownClean (init 1 fun _ => 1) closedInFlight := by
  intro h
  have hcloses : (Transition.run step (init 1 fun _ => 1) closedInFlight).map
      (fun s => (s.created, (s.conns 0).tcpHolder, onCloses (s.acts 0))) =
        some (1, .server, 2) := by
    decide
  obtain ⟨s, hrun, hs⟩ := Option.map_eq_some_iff.1 hcloses
  simp only [Prod.mk.injEq] at hs
  have honce := (h.last hrun).once 0 (by omega) hs.2.1
  omega

end Service
end Net
end Sevent
