/-
# A step of a service, seen from one connection

`sevent/net/TcpServer.cpp`, `sevent/net/Connector.cpp`,
`sevent/net/EventLoop.cpp`.

For each connection a step of the service is nothing or one `View.Step`
(`view_step`), and a connection that is made starts in a `View.Initial`
(`view_created`).  `forall_view_step` puts the two together: a property that the
steps of a view keep holds of all connections in every run.

The first part says what the parts of a step do to a view, the functions of
other connections above all: nothing.
-/

import Sevent.Net.ServiceSpec

namespace Sevent
namespace Net
namespace Service

variable {s s' : Service} {c c' l : ℕ}

/-! ### Lists of a loop and of the log -/

/-- Nothing to run is nothing for the connection. -/
@[simp]
theorem opsOf_nil : opsOf c [] = [] := rfl

/-- What two lists have for a connection, one after the other. -/
@[simp]
theorem opsOf_append (ops ops' : List Op) : opsOf c (ops ++ ops') = opsOf c ops ++ opsOf c ops' :=
  List.filterMap_append

/-- A function of the connection comes first in its own list. -/
theorem opsOf_cons_self (op : ConnOp) (ops : List Op) :
    opsOf c (.conn c op :: ops) = op :: opsOf c ops :=
  List.filterMap_cons_some (by simp [Op.of])

/-- Anything else does not appear there. -/
theorem opsOf_cons_none {op : Op} (h : op.of c = none) (ops : List Op) :
    opsOf c (op :: ops) = opsOf c ops := List.filterMap_cons_none h

/-- An erasure of the server's is no function of a connection. -/
@[simp]
theorem opsOf_cons_removal (id : ℕ) (ops : List Op) :
    opsOf c (.removeConnectionInLoop id :: ops) = opsOf c ops := opsOf_cons_none rfl ops

/-- A function of another connection is none of this one's. -/
theorem of_conn_of_ne {op : ConnOp} (h : c' ≠ c) : (Op.conn c' op).of c = none := by
  simp [Op.of, h]

/-- A list with nothing for the connection is empty for it. -/
theorem opsOf_eq_nil {ops : List Op} (h : ∀ op ∈ ops, op.of c = none) : opsOf c ops = [] :=
  List.filterMap_eq_nil_iff.2 h

/-- Functions of the connection alone are all of its list. -/
@[simp]
theorem opsOf_map_conn (ops : List ConnOp) : opsOf c (ops.map (.conn c)) = ops := by
  induction ops with
  | nil => rfl
  | cons op ops ih => rw [List.map_cons, opsOf_cons_self, ih]

/-- Functions of another connection are none of its list. -/
theorem opsOf_map_conn_of_ne (h : c' ≠ c) (ops : List ConnOp) :
    opsOf c (ops.map (.conn c')) = [] := by
  refine opsOf_eq_nil fun op hop => ?_
  obtain ⟨op, -, rfl⟩ := List.mem_map.1 hop
  exact of_conn_of_ne h

/-- Calls of user code are no functions of a connection, until they are made. -/
@[simp]
theorem opsOf_map_call (ks : List Call) : opsOf c (ks.map .call) = [] := by
  refine opsOf_eq_nil fun op hop => ?_
  obtain ⟨k, -, rfl⟩ := List.mem_map.1 hop
  rfl

/-- The functions of a connection in a list, with their number. -/
theorem count_opsOf (ops : List Op) (op : ConnOp) :
    (opsOf c ops).count op = ops.count (.conn c op) := by
  unfold opsOf
  rw [List.count_filterMap, List.count_eq_countP]
  refine List.countP_congr fun x _ => ?_
  cases x with
  | conn c' op' =>
    by_cases hc : c' = c <;> simp [Op.of, hc]
  | _ => simp [Op.of]

/-- The list of a connection has those of its functions that the loop has. -/
theorem mem_opsOf {op : ConnOp} {ops : List Op} : op ∈ opsOf c ops ↔ .conn c op ∈ ops := by
  rw [← List.count_pos_iff, count_opsOf, List.count_pos_iff]

/-- What the log says about a connection comes in the order of the log. -/
@[simp]
theorem actsOf_append (log log' : List (ℕ × Act)) :
    actsOf c (log ++ log') = actsOf c log ++ actsOf c log' := List.filterMap_append

/-- Entries of the connection are all told to it. -/
@[simp]
theorem actsOf_map_self (as : List Act) : actsOf c (as.map (Prod.mk c)) = as := by
  induction as with
  | nil => rfl
  | cons a as ih =>
    rw [List.map_cons, actsOf, List.filterMap_cons_some (b := a) (by simp)]
    exact congrArg _ ih

/-- Entries of another connection are not told to it. -/
theorem actsOf_map_of_ne (h : c' ≠ c) (as : List Act) : actsOf c (as.map (Prod.mk c')) = [] := by
  refine List.filterMap_eq_nil_iff.2 fun p hp => ?_
  obtain ⟨a, -, rfl⟩ := List.mem_map.1 hp
  simp [h]

variable {k : Conn}

/-- The erasures waiting in two lists are counted apart. -/
theorem removalsIn_append (ops ops' : List Op) :
    removalsIn k (ops ++ ops') = removalsIn k ops + removalsIn k ops' := by
  unfold removalsIn
  split
  · exact List.count_append
  · rfl

/-- The first call of a list is counted apart from the rest. -/
theorem removalsIn_cons (op : Op) (ops : List Op) :
    removalsIn k (op :: ops) = removalsIn k [op] + removalsIn k ops := removalsIn_append [op] ops

/-- No erasure of this id, no count. -/
theorem removalsIn_eq_zero {ops : List Op} (h : .removeConnectionInLoop k.id ∉ ops) :
    removalsIn k ops = 0 := by
  unfold removalsIn
  split
  · exact List.count_eq_zero.2 h
  · rfl

/-- Functions of connections are no erasures. -/
@[simp]
theorem removalsIn_map_conn (ops : List ConnOp) : removalsIn k (ops.map (.conn c)) = 0 :=
  removalsIn_eq_zero (by simp)

/-- Calls of user code are no erasures. -/
@[simp]
theorem removalsIn_map_call (ks : List Call) : removalsIn k (ks.map .call) = 0 :=
  removalsIn_eq_zero (by simp)

/-- Nothing that the view of the connection reads. -/
structure Op.Apart (k : Conn) (c : ℕ) (op : Op) : Prop where
  of : op.of c = none
  removals : removalsIn k [op] = 0

/-- A function of another connection has nothing to do with this one, whatever
it erases. -/
theorem apart_conn {op : ConnOp} (h : c' ≠ c) : (Op.conn c' op).Apart k c :=
  ⟨of_conn_of_ne h, removalsIn_map_conn [op]⟩

/-- A call of user code has nothing to do with any connection before it is made. -/
theorem apart_call (x : Call) : (Op.call x).Apart k c := ⟨rfl, removalsIn_map_call [x]⟩

/-- A removal for another id, or for a connection of a connector. -/
theorem apart_removeConnectionInLoop {id : ℕ} (h : k.tcpHolder = .server → k.id ≠ id) :
    (Op.removeConnectionInLoop id).Apart k c := by
  refine ⟨rfl, ?_⟩
  unfold removalsIn
  split
  · next hk => simpa [List.count_eq_zero] using h hk
  · rfl

/-- What is neither a function of a connection nor a removal. -/
theorem apart_of {op : Op} (hconn : ∀ c' op', op ≠ .conn c' op')
    (hrem : ∀ id, op ≠ .removeConnectionInLoop id) : op.Apart k c := by
  refine ⟨?_, removalsIn_eq_zero ?_⟩
  · cases op with
    | conn c' op' => exact absurd rfl (hconn c' op')
    | _ => rfl
  · rw [List.mem_singleton]
    exact fun h => hrem _ h.symm

/-- A list apart from the connection has no erasure of its id. -/
theorem removalsIn_apart {ops : List Op} (h : ∀ op ∈ ops, op.Apart k c) : removalsIn k ops = 0 := by
  induction ops with
  | nil => exact removalsIn_eq_zero (by simp)
  | cons op ops ih =>
    rw [removalsIn_cons, (h op List.mem_cons_self).removals,
      ih fun x hx => h x (List.mem_cons_of_mem _ hx)]

/-- A list apart from the connection has none of its functions. -/
theorem opsOf_apart {ops : List Op} (h : ∀ op ∈ ops, op.Apart k c) : opsOf c ops = [] :=
  opsOf_eq_nil fun op hop => (h op hop).of

/-! ### What the parts of a step do to a view -/

/-- The view of a connection in the loop that changes. -/
theorem view_setLoop_self {L : Loop} (hl : (s.conns c).loop = l)
    (hrem : removalsIn (s.conns c) L.all = removalsIn (s.conns c) (s.loops l).all) :
    (s.setLoop l L).view c = { s.view c with
      place := L.place
      running := opsOf c L.ops
      todo := opsOf c L.todo
      pending := opsOf c L.pendingTasks
      timers := L.timers.count c } := by
  have hr : (s.setLoop l L).removals c = s.removals c := by
    unfold removals
    by_cases h0 : 0 = l
    · subst h0
      simpa using hrem
    · simp [h0]
  apply View.ext <;> simp [hl, hr, phaseOf, held, acts]

/-- The view of a connection in another loop. -/
theorem view_setLoop_of_ne {L : Loop} (hl : (s.conns c).loop ≠ l)
    (hrem : removalsIn (s.conns c) L.all = removalsIn (s.conns c) (s.loops l).all) :
    (s.setLoop l L).view c = s.view c := by
  have hr : (s.setLoop l L).removals c = s.removals c := by
    unfold removals
    by_cases h0 : 0 = l
    · subst h0
      simpa using hrem
    · simp [h0]
  apply View.ext <;> simp [hl, hr, phaseOf, held, acts]

/-- A loop that changes in nothing that the view reads. -/
theorem view_setLoop {L : Loop} (hplace : L.place = (s.loops l).place)
    (hops : opsOf c L.ops = opsOf c (s.loops l).ops)
    (htodo : opsOf c L.todo = opsOf c (s.loops l).todo)
    (hpending : opsOf c L.pendingTasks = opsOf c (s.loops l).pendingTasks)
    (htimers : L.timers.count c = (s.loops l).timers.count c)
    (hrem : removalsIn (s.conns c) L.all = removalsIn (s.conns c) (s.loops l).all) :
    (s.setLoop l L).view c = s.view c := by
  by_cases hl : (s.conns c).loop = l
  · rw [view_setLoop_self hl hrem, hplace, hops, htodo, hpending, htimers]
    subst hl
    rfl
  · exact view_setLoop_of_ne hl hrem

/-- What is pushed for others is not seen by the connection. -/
theorem view_push_apart {ops : List Op} (h : ∀ op ∈ ops, op.Apart (s.conns c) c) :
    (s.push l ops).view c = s.view c :=
  view_setLoop rfl (by simp [opsOf_apart h]) rfl rfl rfl
    (by rw [Loop.all_push, removalsIn_append, removalsIn_apart h, Nat.zero_add])

/-- What is queued for others is not seen by the connection. -/
theorem view_queueInLoop_apart {cbs : List Op} (h : ∀ op ∈ cbs, op.Apart (s.conns c) c) :
    (s.queueInLoop l cbs).view c = s.view c :=
  view_setLoop rfl rfl rfl (by simp [opsOf_apart h]) rfl
    (by rw [Loop.all_queueInLoop, removalsIn_append, removalsIn_apart h, Nat.add_zero])

/-- What runs for others, or is queued for them, is not seen by the connection. -/
theorem view_runInLoop_apart {cur : Option ℕ} {cb : Op} (h : cb.Apart (s.conns c) c) :
    (s.runInLoop cur l cb).view c = s.view c := by
  unfold runInLoop
  split
  · exact view_push_apart (by simpa using h)
  · exact view_queueInLoop_apart (by simpa using h)

/-- A direct call of functions of the connection. -/
theorem view_push_self {ops : List ConnOp} (hl : (s.conns c).loop = l) :
    (s.push l (ops.map (.conn c))).view c =
      { s.view c with running := ops ++ (s.view c).running } := by
  subst hl
  refine (view_setLoop_self rfl ?_).trans ?_
  · rw [Loop.all_push, removalsIn_append, removalsIn_map_conn, Nat.zero_add]
  · simp

/-- A connection's own functions queued in its loop come behind what it has
there. -/
theorem view_queueInLoop_self {cbs : List ConnOp} (hl : (s.conns c).loop = l) :
    (s.queueInLoop l (cbs.map (.conn c))).view c =
      { s.view c with pending := (s.view c).pending ++ cbs } := by
  subst hl
  refine (view_setLoop_self rfl ?_).trans ?_
  · rw [Loop.all_queueInLoop, removalsIn_append, removalsIn_map_conn, Nat.add_zero]
  · simp

/-- A delayed `forceClose` of the connection. -/
theorem view_addTimer (hl : (s.conns c).loop = l) :
    (s.setLoop l { s.loops l with timers := c :: (s.loops l).timers }).view c =
      { s.view c with timers := (s.view c).timers + 1 } := by
  have hL := view_setLoop_self (s := s) (c := c) (l := l)
    (L := { s.loops l with timers := c :: (s.loops l).timers }) hl rfl
  subst hl
  rw [hL]
  simp [view]

/-- Another connection's record is not seen. -/
theorem view_setConn_of_ne {x : Conn} (h : c' ≠ c) : (s.setConn c' x).view c = s.view c := by
  apply View.ext <;> simp [h.symm, phaseOf, held, acts, removals]

/-- Its own record is the view's, if the id, the loop and the holder stay: from
these the rest of the view is taken. -/
theorem view_setConn_self {x : Conn} (hid : x.id = (s.conns c).id)
    (hloop : x.loop = (s.conns c).loop) (hholder : x.tcpHolder = (s.conns c).tcpHolder) :
    (s.setConn c x).view c = { s.view c with conn := x } := by
  apply View.ext <;> simp [hid, hloop, hholder, phaseOf, held, acts, removals, removalsIn]

/-- What is logged of another connection is not told to it. -/
theorem view_emit_of_ne {as : List Act} (h : c' ≠ c) : (s.emit c' as).view c = s.view c := by
  apply View.ext <;> simp [phaseOf, held, acts, removals, actsOf_map_of_ne h]

/-- What is logged of it is told to it. -/
theorem view_emit_self {as : List Act} :
    (s.emit c as).view c = { s.view c with acts := (s.view c).acts ++ as } := by
  apply View.ext <;> simp [phaseOf, held, acts, removals]

/-- A function of another connection has run. -/
theorem view_apply_of_ne {o : Outcome} (h : c' ≠ c) : (s.apply l c' o).view c = s.view c := by
  have hc : (s.setConn c' o.conn).conns c = s.conns c := by simp [h.symm]
  have hL := view_setLoop (s := s.setConn c' o.conn) (c := c) (l := l)
    (L := ((s.loops l).push (o.script.map .call ++ o.ops.map (.conn c'))).queueInLoop
      (o.queued.map (.conn c'))) rfl (by simp [opsOf_map_conn_of_ne h]) rfl
    (by simp [opsOf_map_conn_of_ne h]) rfl
    (by simp [Loop.all_queueInLoop, Loop.all_push, removalsIn_append])
  exact (view_emit_of_ne h).trans (hL.trans (view_setConn_of_ne h))

/-- A function of the connection has run, in its loop. -/
theorem view_apply_self {o : Outcome} (hl : (s.conns c).loop = l) (hid : o.conn.id = (s.conns c).id)
    (hloop : o.conn.loop = (s.conns c).loop) (hholder : o.conn.tcpHolder = (s.conns c).tcpHolder) :
    (s.apply l c o).view c = (s.view c).after (s.view c).running o := by
  subst hl
  have hL := view_setLoop_self (s := s.setConn c o.conn) (c := c) (l := (s.conns c).loop)
    (L := ((s.loops (s.conns c).loop).push (o.script.map .call ++ o.ops.map (.conn c))).queueInLoop
      (o.queued.map (.conn c))) (by simp [hloop])
    (by simp [Loop.all_queueInLoop, Loop.all_push, removalsIn_append])
  refine view_emit_self.trans ?_
  rw [hL, view_setConn_self hid hloop hholder]
  simp [View.after]

/-- The first of a loop's `ops` is not of this connection. -/
theorem view_pop_apart {op : Op} {rest : List Op} (hops : (s.loops l).ops = op :: rest)
    (h : op.Apart (s.conns c) c) : (s.pop l rest).view c = s.view c := by
  refine view_setLoop rfl ?_ rfl rfl rfl ?_
  · rw [hops, opsOf_cons_none h.of]
  · simp only [Loop.all, hops, List.cons_append]
    rw [removalsIn_cons op, h.removals, Nat.zero_add]

/-- The first of its loop's `ops` is a function of this connection. -/
theorem view_pop_self {op : ConnOp} {rest : List Op} (hops : (s.loops l).ops = .conn c op :: rest)
    (hl : (s.conns c).loop = l) :
    s.view c = { (s.pop l rest).view c with running := op :: ((s.pop l rest).view c).running } := by
  subst hl
  have hL := view_setLoop_self (s := s) (c := c)
      (L := { s.loops (s.conns c).loop with ops := rest })
    rfl (by
      have hz : removalsIn (s.conns c) [.conn c op] = 0 := removalsIn_map_conn [op]
      simp only [Loop.all, hops, List.cons_append]
      rw [removalsIn_cons (.conn c op), hz, Nat.zero_add])
  rw [show (s.pop (s.conns c).loop rest).view c = _ from hL]
  apply View.ext <;> simp [hops, opsOf_cons_self]

/-! ### The holders -/

/-- The server holds a connection as long as its entry is in `connections`. -/
theorem held_server (hholder : (s.conns c).tcpHolder = .server) :
    s.held c = true ↔ ((s.conns c).id, c) ∈ s.server.connections := by
  simp [held, hholder]

/-- A connector holds its connection as long as it points to it. -/
theorem held_connector {k : ℕ} (hholder : (s.conns c).tcpHolder = .connector k) :
    s.held c = true ↔ (s.connectors k).connection = some c := by
  simp [held, hholder]

/-- The record of the server changes: a connection of a connector sees it only
if it is visited. -/
theorem view_server_of_connector {srv : Server} {k : ℕ}
    (hholder : (s.conns c).tcpHolder = .connector k)
    (hvisited : c ∈ srv.visited ↔ c ∈ s.server.visited) :
    (s.setServer srv).view c = s.view c := by
  apply View.ext <;> simp [phaseOf, held, removals, acts, hholder, hvisited]

/-- The record of the server changes, for one of its connections. -/
theorem view_server_of_server {srv : Server} (hholder : (s.conns c).tcpHolder = .server) :
    (s.setServer srv).view c = { s.view c with
      phase := srv.phase
      held := decide (((s.conns c).id, c) ∈ srv.connections)
      visited := decide (c ∈ srv.visited) } := by
  apply View.ext <;> simp [phaseOf, held, removals, acts, hholder]

/-- The server goes into another phase. -/
theorem view_server_phase (p : Phase) (hholder : (s.conns c).tcpHolder = .server) :
    (s.setServer { s.server with phase := p }).view c = { s.view c with phase := p } := by
  apply View.ext <;> simp [phaseOf, held, removals, acts, hholder]

/-- The record of the server changes in nothing that a view reads. -/
theorem view_server {srv : Server} (hphase : srv.phase = s.server.phase)
    (hconnections : srv.connections = s.server.connections)
    (hvisited : srv.visited = s.server.visited) : (s.setServer srv).view c = s.view c := by
  apply View.ext <;> simp [phaseOf, held, removals, acts, hphase, hconnections, hvisited]

/-- A connector changes, but not whether it has the connection. -/
theorem view_setConnector {k : ℕ} {x : Service.Connector}
    (h : (s.conns c).tcpHolder = .connector k →
      (x.connection = some c ↔ (s.connectors k).connection = some c)) :
    (s.setConnector k x).view c = s.view c := by
  have hheld : (s.setConnector k x).held c = s.held c := by
    unfold held
    rcases hholder : (s.conns c).tcpHolder with _ | k'
    · simp [hholder]
    · by_cases hk : k' = k
      · subst hk
        simp [hholder, h hholder]
      · simp [hholder, hk]
  apply View.ext <;> simp [phaseOf, hheld, removals, acts]

/-- A connector lets the connection go. -/
theorem view_setConnector_release {k : ℕ} {x : Service.Connector}
    (hholder : (s.conns c).tcpHolder = .connector k) (hx : x.connection ≠ some c) :
    (s.setConnector k x).view c = { s.view c with held := false } := by
  apply View.ext <;> simp [phaseOf, held, removals, acts, hholder, hx]

/-- `removeConnectionInLoop` is on its way. -/
theorem view_runInLoop_removal {cur : Option ℕ} (hholder : (s.conns c).tcpHolder = .server) :
    (s.runInLoop cur 0 (.removeConnectionInLoop (s.conns c).id)).view c =
      { s.view c with removals := (s.view c).removals + 1 } := by
  have hone : removalsIn (s.conns c) [.removeConnectionInLoop (s.conns c).id] = 1 := by
    simp [removalsIn, hholder]
  unfold runInLoop
  split
  · apply View.ext <;> simp only [view_conn, view_phase, view_place, view_running, view_todo,
      view_pending, view_timers, view_held, view_visited, view_removals, view_acts, push_conns]
    case removals =>
      simp only [removals, push_conns, push_loops, Function.update_self]
      rw [Loop.all_push, removalsIn_append, hone, Nat.add_comm]
    all_goals by_cases hl : (s.conns c).loop = 0 <;> simp [hl, phaseOf, held, acts]
  · apply View.ext <;> simp only [view_conn, view_phase, view_place, view_running, view_todo,
      view_pending, view_timers, view_held, view_visited, view_removals, view_acts,
      queueInLoop_conns]
    case removals =>
      simp only [removals, queueInLoop_conns, queueInLoop_loops, Function.update_self]
      rw [Loop.all_queueInLoop, removalsIn_append, hone]
    all_goals by_cases hl : (s.conns c).loop = 0 <;> simp [hl, phaseOf, held, acts]

/-- `removeConnectionInLoop` of its id has been taken off. -/
theorem view_pop_removal {rest : List Op} (hholder : (s.conns c).tcpHolder = .server)
    (hops : (s.loops 0).ops = .removeConnectionInLoop (s.conns c).id :: rest) :
    s.view c = { (s.pop 0 rest).view c with
      removals := ((s.pop 0 rest).view c).removals + 1 } := by
  have hone : removalsIn (s.conns c) [.removeConnectionInLoop (s.conns c).id] = 1 := by
    simp [removalsIn, hholder]
  apply View.ext <;> simp only [view_conn, view_phase, view_place, view_running, view_todo,
    view_pending, view_timers, view_held, view_visited, view_removals, view_acts, pop_conns]
  case removals =>
    simp only [removals, pop_conns, pop_loops, Function.update_self]
    simp only [Loop.all, hops, List.cons_append]
    rw [removalsIn_cons, hone, Nat.add_comm]
  all_goals by_cases hl : (s.conns c).loop = 0 <;>
    simp [hl, hops, phaseOf, held, acts]

/-! ### Steps -/

/-- The step runs `op`. -/
def Runs (s : Service) (i : Input) (op : Op) : Prop :=
  ∃ l ch pick rest, i = .exec l ch pick ∧ (s.loops l).ops = op :: rest

/-- The operation that a step runs. -/
def current (s : Service) : Input → Option Op
  | .exec l _ _ => (s.loops l).ops.head?
  | _ => none

/-- The call that a step runs is the one at the head of its loop. -/
theorem Runs.current {i : Input} {op : Op} (h : s.Runs i op) : s.current i = some op := by
  obtain ⟨l, ch, pick, rest, rfl, hops⟩ := h
  simp [Service.current, hops]

/-- What it is in the service that a condition on runs speaks of. -/
def Causes (s : Service) (i : Input) (c : ℕ) : Cause → Prop
  | .setTcpHandler h => s.Runs i (.call (.setTcpHandler c h))
  | .handleClose => ∃ l ch pick op rest, i = .exec l ch pick ∧
      (s.loops l).ops = .conn c op :: rest ∧ op.closes (s.conns c) ch = true
  | .destroyServer => s.Runs i (.call .destroyServer)
  | .exit => i = .testQuit (s.conns c).loop ∧ (s.conns c).loop ≠ 0 ∧
      (s.loops (s.conns c).loop).isQuit = true
  | .replaced =>
    (∃ k fd, s.Runs i (.establish k fd) ∧ (s.connectors k).connection = some c) ∨
      ∃ c' k, c' ≠ c ∧ s.Runs i (.conn c' .removeConnection) ∧
        (s.conns c').tcpHolder = .connector k ∧ (s.connectors k).connection = some c
  | .visitDirect | .visitQueued | .clear => s.Runs i .removeAll
  | .swap => i = .swap (s.conns c).loop
  | .other => True

/-- What a step may make of the view of a connection. -/
def Changes (s : Service) (i : Input) (c : ℕ) (v : View) : Prop :=
  v = s.view c ∨ ∃ cause, View.Step (s.view c) cause v ∧ s.Causes i c cause

variable {i : Input}

/-- A step that leaves the view as it is. -/
theorem Changes.same : s.Changes i c (s.view c) := .inl rfl

/-- A step of other code, which the view allows in any state. -/
theorem Changes.other {v : View} (h : View.Step (s.view c) .other v) : s.Changes i c v :=
  .inr ⟨.other, h, trivial⟩

section Exec

variable {ch : Choice} {pick : ℕ} {rest : List Op}

/-- A function of the connection itself. -/
theorem changes_conn_self {op : ConnOp} (hops : (s.loops l).ops = .conn c op :: rest)
    (hexec : (s.pop l rest).execOp l ch pick (.conn c op) = some s') :
    s.Changes (.exec l ch pick) c (s'.view c) := by
  obtain ⟨⟨hlive, hl⟩, hcase⟩ := execOp_conn_eq_some hexec
  have hv := view_pop_self hops hl
  rw [pop_conns] at hlive hl
  rcases hcase with ⟨rfl, rfl⟩ | ⟨rfl, rfl⟩ | ⟨hop, hop', rfl⟩
  · rcases hholder : (s.conns c).tcpHolder with _ | k
    · have hr : ((s.pop l rest).removeConnection l c).view c =
          { (s.pop l rest).view c with
            removals := ((s.pop l rest).view c).removals + 1
            acts := ((s.pop l rest).view c).acts ++ [.removeConnection] } := by
        simp only [removeConnection, emit_conns, pop_conns, hholder]
        have := @view_runInLoop_removal ((s.pop l rest).emit c [.removeConnection]) c (some l)
          hholder
        rw [emit_conns, pop_conns] at this
        rw [this, view_emit_self]
      refine .other ?_
      rw [hr, hv]
      exact .serverRemoves rfl hlive hholder
    · have hr : ((s.pop l rest).removeConnection l c).view c =
          { (s.pop l rest).view c with
            held := false
            acts := ((s.pop l rest).view c).acts ++ [.removeConnection] } := by
        simp only [removeConnection, emit_conns, pop_conns, hholder]
        rw [view_setConnector_release (s := (s.pop l rest).emit c _) (c := c) hholder (by simp),
          view_emit_self]
      refine .other ?_
      rw [hr, hv]
      exact .connectorRemoves rfl hlive hholder
  · refine .other ?_
    rw [view_addTimer (s := s.pop l rest) hl, hv]
    exact .addTimer rfl hlive
  · have hdid := Outcome.run_did (s.conns c) ch hop
    obtain ⟨hid, hloop, hholder⟩ := hdid.identity
    have hr := view_apply_self (s := s.pop l rest) (c := c) (l := l)
      (o := (Outcome.start (s.conns c)).run ch op) hl hid hloop hholder
    refine .inr ⟨if op.closes (s.conns c) ch then .handleClose else .other, ?_, ?_⟩
    · rw [pop_conns, hr, hv]
      exact .run rfl hlive hop' hdid
    · split
      · next hc => exact ⟨l, ch, pick, op, rest, rfl, hops, hc⟩
      · trivial

/-- A function of another connection. -/
theorem changes_conn_of_ne {op : ConnOp} (h : WellFormed s) (hc : c < s.created) (hne : c' ≠ c)
    (hops : (s.loops l).ops = .conn c' op :: rest)
    (hexec : (s.pop l rest).execOp l ch pick (.conn c' op) = some s') :
    s.Changes (.exec l ch pick) c (s'.view c) := by
  have hv : (s.pop l rest).view c = s.view c := view_pop_apart hops (apart_conn hne)
  have hc' : c' < s.created := (h.pop hops).2
  obtain ⟨-, ⟨rfl, rfl⟩ | ⟨rfl, rfl⟩ | ⟨-, -, rfl⟩⟩ := execOp_conn_eq_some hexec
  · have he : ((s.pop l rest).emit c' [.removeConnection]).view c = s.view c :=
      (view_emit_of_ne hne).trans hv
    rcases hholder : (s.conns c').tcpHolder with _ | k
    · have hid : (s.conns c).tcpHolder = .server → (s.conns c).id ≠ (s.conns c').id :=
        fun hserver heq => hne (h.inj c' hc' c hc hholder hserver heq.symm)
      simp only [removeConnection, emit_conns, pop_conns, hholder]
      rw [view_runInLoop_apart (s := (s.pop l rest).emit c' _)
        (apart_removeConnectionInLoop hid), he]
      exact .same
    · simp only [removeConnection, emit_conns, pop_conns, hholder]
      by_cases hk : (s.conns c).tcpHolder = .connector k ∧ (s.connectors k).connection = some c
      · rw [view_setConnector_release (s := (s.pop l rest).emit c' _) (c := c) hk.1 (by simp), he]
        refine .inr ⟨.replaced, .replaced (v := s.view c) hk.1 ?_, .inr ⟨c', k, hne, ?_, hholder,
          hk.2⟩⟩
        · exact (held_connector hk.1).2 hk.2
        · exact ⟨l, ch, pick, rest, rfl, hops⟩
      · rw [view_setConnector (s := (s.pop l rest).emit c' _) (c := c)
          (fun hh => by simpa using fun hs => hk ⟨hh, hs⟩), he]
        exact .same
  · have hl : ((s.pop l rest).setLoop l { (s.pop l rest).loops l with
        timers := c' :: ((s.pop l rest).loops l).timers }).view c = (s.pop l rest).view c :=
      view_setLoop rfl rfl rfl rfl (by simp [hne]) rfl
    rw [hl, hv]
    exact .same
  · rw [view_apply_of_ne hne, hv]
    exact .same

/-- `removeConnectionInLoop`. -/
theorem changes_removeConnectionInLoop {id : ℕ}
    (hops : (s.loops 0).ops = .removeConnectionInLoop id :: rest) :
    s.Changes i c (((s.pop 0 rest).removeConnectionInLoop id).view c) := by
  have hvisited : c ∈ s.server.visited ↔ c ∈ s.server.visited := Iff.rfl
  rcases hholder : (s.conns c).tcpHolder with _ | k
  · have hv : ((s.pop 0 rest).removeConnectionInLoop id).view c =
        { (s.pop 0 rest).view c with
          held := decide (((s.conns c).id, c) ∈
            s.server.connections.filter fun p => p.1 ≠ id) } :=
      (view_server_of_server (s := s.pop 0 rest) hholder).trans (by simp [phaseOf, view, hholder])
    by_cases hid : (s.conns c).id = id
    · subst hid
      refine .other ?_
      rw [hv, view_pop_removal hholder hops]
      simpa using View.Step.erase (v := { (s.pop 0 rest).view c with
        removals := ((s.pop 0 rest).view c).removals + 1 }) hholder rfl
    · have hheld : ((s.pop 0 rest).removeConnectionInLoop id).view c = (s.pop 0 rest).view c := by
        rw [hv]
        apply View.ext <;> simp [held, hholder, hid]
      rw [hheld, view_pop_apart hops (apart_removeConnectionInLoop fun _ => hid)]
      exact .same
  · have hv : ((s.pop 0 rest).removeConnectionInLoop id).view c = (s.pop 0 rest).view c :=
      view_server_of_connector (s := s.pop 0 rest) hholder hvisited
    rw [hv, view_pop_apart hops (apart_removeConnectionInLoop fun hs => by simp [hholder] at hs)]
    exact .same

/-- A connection added by the server is not seen by those made before. -/
theorem view_addConnection {fd : ℕ} (hc : c < s.created) :
    (s.addConnection fd).view c = s.view c := by
  have hne : c ≠ s.created := Nat.ne_of_lt hc
  have hconn : (s.addConnection fd).conns c = s.conns c := WellFormed.conns_addConnection hne
  have hacts : (s.addConnection fd).acts c = s.acts c := by
    show actsOf c (s.log ++ [_].map (Prod.mk s.created)) = actsOf c s.log
    rw [actsOf_append, actsOf_map_of_ne hne.symm, List.append_nil]
  have hheld : (s.addConnection fd).held c = s.held c := by
    unfold held
    rw [hconn]
    simp [addConnection, hne]
  apply View.ext <;> simp only [view_conn, view_phase, view_place, view_running, view_todo,
    view_pending, view_timers, view_held, view_visited, view_removals, view_acts, hconn, hacts,
    hheld, phaseOf, removals] <;> rfl

/-- A client that is accepted: nothing for the connections made before. -/
theorem changes_accept {fd : ℕ} (hc : c < s.created) (hops : (s.loops l).ops = .accept fd :: rest) :
    s.Changes i c (((s.pop l rest).accept fd ch).view c) := by
  have hne : (s.pop l rest).created ≠ c := Nat.ne_of_gt hc
  have hv : ((s.pop l rest).addConnection fd).view c = s.view c :=
    (view_addConnection (s := s.pop l rest) hc).trans
      (view_pop_apart hops (apart_of (by simp) (by simp)))
  unfold accept
  dsimp only
  split
  · rw [view_apply_of_ne hne, hv]
    exact .same
  · rw [view_queueInLoop_apart fun op hop => ?_, hv]
    · exact .same
    · obtain rfl := List.mem_singleton.1 hop
      exact apart_conn hne

/-- The connector takes a new connection: the one it had, if any, is let go. -/
theorem view_connectConnection {k fd : ℕ} (hc : c < s.created) :
    (s.connectConnection k fd).view c =
      if (s.conns c).tcpHolder = .connector k then { s.view c with held := false }
      else s.view c := by
  have hne : c ≠ s.created := Nat.ne_of_lt hc
  have hconn : (s.connectConnection k fd).conns c = s.conns c :=
    WellFormed.conns_connectConnection hne
  have hacts : (s.connectConnection k fd).acts c = s.acts c := by
    show actsOf c (s.log ++ [_].map (Prod.mk s.created)) = actsOf c s.log
    rw [actsOf_append, actsOf_map_of_ne hne.symm, List.append_nil]
  have hheld : (s.connectConnection k fd).held c =
      if (s.conns c).tcpHolder = .connector k then false else s.held c := by
    unfold held
    rw [hconn]
    rcases hholder : (s.conns c).tcpHolder with _ | k'
    · simp [connectConnection]
    · by_cases hk : k' = k
      · subst hk
        simp [connectConnection, hne.symm]
      · simp [connectConnection, hk]
  split
  · next hk =>
    apply View.ext <;> simp only [view_conn, view_phase, view_place, view_running, view_todo,
      view_pending, view_timers, view_held, view_visited, view_removals, view_acts, hconn, hacts,
      hheld, if_pos hk, phaseOf, removals] <;> rfl
  · next hk =>
    apply View.ext <;> simp only [view_conn, view_phase, view_place, view_running, view_todo,
      view_pending, view_timers, view_held, view_visited, view_removals, view_acts, hconn, hacts,
      hheld, if_neg hk, phaseOf, removals] <;> rfl

/-- A connect that has succeeded: nothing for the connections made before,
except that its connector may have held one. -/
theorem changes_establish {k fd : ℕ} (hc : c < s.created)
    (hops : (s.loops l).ops = .establish k fd :: rest) :
    s.Changes (.exec l ch pick) c (((s.pop l rest).establish k fd ch).view c) := by
  have hne : (s.pop l rest).created ≠ c := Nat.ne_of_gt hc
  have hpop : (s.pop l rest).view c = s.view c :=
    view_pop_apart hops (apart_of (by simp) (by simp))
  unfold establish
  dsimp only
  rw [view_apply_of_ne hne, view_connectConnection (s := s.pop l rest) hc, hpop]
  split
  · next hk =>
    rw [pop_conns] at hk
    by_cases hheld : (s.connectors k).connection = some c
    · exact .inr ⟨.replaced, .replaced (v := s.view c) hk ((held_connector hk).2 hheld),
        .inl ⟨k, fd, ⟨l, ch, pick, rest, rfl, hops⟩, hheld⟩⟩
    · have hf : s.held c = false :=
        Bool.eq_false_iff.2 fun h => hheld ((held_connector hk).1 h)
      refine .inl (View.ext ?_ ?_ ?_ ?_ ?_ ?_ ?_ ?_ ?_ ?_ ?_) <;> simp [hf]
  · exact .same

/-- `Connector::stopInLoop` closes the connector's connection, and is other code
for the rest. -/
theorem changes_stopInLoop {k : ℕ} (h : WellFormed s)
    (hops : (s.loops l).ops = .stopInLoop k :: rest) :
    s.Changes i c (((s.pop l rest).stopInLoop k).view c) := by
  have hpop : (s.pop l rest).view c = s.view c :=
    view_pop_apart hops (apart_of (by simp) (by simp))
  unfold stopInLoop
  split
  · next c' hslot =>
    obtain ⟨-, hholder, hloop⟩ := h.slot k c' hslot
    by_cases hc : c' = c
    · subst hc
      have hv := @view_push_self (s.pop l rest) c' (s.connectors k).loop [.handleClose] hloop
      refine .other ?_
      rw [show ((s.pop l rest).push ((s.pop l rest).connectors k).loop
        [.conn c' .handleClose]).view c' = _ from hv, hpop]
      exact .stop (v := s.view c') hholder ((held_connector hholder).2 hslot)
    · rw [view_push_apart fun op hop => ?_, hpop]
      · exact .same
      · obtain rfl := List.mem_singleton.1 hop
        exact apart_conn hc
  · rw [hpop]
    exact .same

/-- The loop of `~TcpServer`. -/
theorem changes_removeAll (h : WellFormed s) (hops : (s.loops 0).ops = .removeAll :: rest)
    (hphase : s.server.phase = .removing)
    (hexec : (s.pop 0 rest).removeAll ch pick = some s') :
    s.Changes (.exec 0 ch pick) c (s'.view c) := by
  have hpop : (s.pop 0 rest).view c = s.view c :=
    view_pop_apart hops (apart_of (by simp) (by simp))
  unfold removeAll at hexec
  split at hexec
  · next id c' hpick =>
    obtain ⟨hmem, hnew⟩ := WellFormed.mem_of_unvisited hpick
    obtain ⟨-, hholder, hid⟩ := h.table _ hmem
    dsimp only at hholder hid hexec
    by_cases hc : c' = c
    · subst hc
      have hheld : s.held c' = true := (held_server hholder).2 (hid ▸ hmem)
      have hv : (((s.pop 0 rest).setServer { (s.pop 0 rest).server with
          visited := c' :: (s.pop 0 rest).server.visited }).push 0 [.removeAll]).view c' =
            { s.view c' with visited := true } := by
        rw [view_push_apart (by simpa using apart_of (by simp) (by simp)),
          view_server_of_server (s := s.pop 0 rest) hholder, hpop]
        apply View.ext <;> simp [phaseOf, held, hholder]
      have hnv : (s.view c').visited = false := by simpa using hnew
      split at hexec
      · next hloop =>
        obtain rfl := Option.some.inj hexec
        refine .inr ⟨.visitDirect, ?_, ⟨0, ch, pick, rest, rfl, hops⟩⟩
        rw [view_apply_self hloop rfl rfl rfl, hv]
        exact .visitDirect (v := s.view c') hholder hloop (by simp [phaseOf, hholder, hphase]) hheld
          hnv
      · next hloop =>
        obtain rfl := Option.some.inj hexec
        refine .inr ⟨.visitQueued, ?_, ⟨0, ch, pick, rest, rfl, hops⟩⟩
        rw [show [Op.conn c' .removeItself] = [ConnOp.removeItself].map (.conn c') from rfl,
          view_queueInLoop_self rfl, hv]
        exact .visitQueued (v := s.view c') hholder hloop (by simp [phaseOf, hholder, hphase]) hheld
          hnv
    · have hv : (((s.pop 0 rest).setServer { (s.pop 0 rest).server with
          visited := c' :: (s.pop 0 rest).server.visited }).push 0 [.removeAll]).view c =
          s.view c := by
        rw [view_push_apart (by simpa using apart_of (by simp) (by simp)), ← hpop]
        rcases hh : (s.conns c).tcpHolder with _ | k
        · rw [view_server_of_server (s := s.pop 0 rest) hh]
          apply View.ext <;> simp [phaseOf, held, hh, Ne.symm hc]
        · exact view_server_of_connector (s := s.pop 0 rest) hh (by simp [Ne.symm hc])
      split at hexec
      · obtain rfl := Option.some.inj hexec
        rw [view_apply_of_ne hc]
        exact .inl hv
      · obtain rfl := Option.some.inj hexec
        rw [view_queueInLoop_apart fun op hop => ?_]
        · exact .inl hv
        · obtain rfl := List.mem_singleton.1 hop
          exact apart_conn hc
  · split at hexec
    · next hnone =>
      obtain rfl := Option.some.inj hexec
      rw [view_push_apart fun op hop => ?_]
      · rcases hh : (s.conns c).tcpHolder with _ | k
        · refine .inr ⟨.clear, ?_, ⟨0, ch, pick, rest, rfl, hops⟩⟩
          rw [view_server_of_server (s := s.pop 0 rest) hh, hpop]
          have hclear := View.Step.clear (v := s.view c) hh (by simp [phaseOf, hh, hphase])
            fun hheld => ?_
          · simpa [phaseOf, hh] using hclear
          · have hmem : ((s.conns c).id, c) ∈ s.server.connections := (held_server hh).1 hheld
            by_contra hnv
            have hun : ((s.conns c).id, c) ∈ (s.pop 0 rest).unvisited := by
              simpa [unvisited, hmem] using hnv
            simp [hnone] at hun
        · rw [view_server_of_connector (s := s.pop 0 rest) hh (by simp), hpop]
          exact .same
      · refine apart_of ?_ ?_ <;> simp only [teardown, List.mem_append, List.mem_flatMap,
          List.mem_cons, List.not_mem_nil, or_false] at hop <;> grind
    · exact absurd hexec (by simp)

end Exec

/-- What a call of user code may make of a view. -/
def CallChanges (s : Service) (cur : Option ℕ) (k : Call) (c : ℕ) (v : View) : Prop :=
  v = s.view c ∨ ∃ cause, View.Step (s.view c) cause v ∧
    (cause = .other ∨ cur ≠ none ∧
      ((∃ h, cause = .setTcpHandler h ∧ k = .setTcpHandler c h) ∨
        cause = .destroyServer ∧ k = .destroyServer))

/-- A method of a connection: a call of it in its loop, a task from elsewhere,
nothing for the others. -/
theorem callChanges_method {cur : Option ℕ} {m : Method}
    (hstep : s.doCall cur (.method m c') = some s') :
    s.CallChanges cur (.method m c') c (s'.view c) := by
  have happart (hne : c' ≠ c) : ∀ op ∈ [Op.conn c' m.op], op.Apart (s.conns c) c := by
    simpa using apart_conn hne
  simp only [doCall] at hstep
  split at hstep
  · next hu =>
    obtain ⟨-, hlive, hst⟩ := usable_iff.1 hu
    by_cases hne : c' = c
    · subst hne
      split at hstep
      · split at hstep
        · next hallowed =>
          obtain rfl := Option.some.inj hstep
          rw [show [Op.conn c' m.op] = [m.op].map (.conn c') from rfl, view_push_self rfl]
          exact .inr ⟨.other, .call (v := s.view c') hallowed hlive, .inl rfl⟩
        · obtain rfl := Option.some.inj hstep
          exact .inl rfl
      · obtain rfl := Option.some.inj hstep
        rw [show [Op.conn c' m.op] = [m.op].map (.conn c') from rfl, view_queueInLoop_self rfl]
        exact .inr ⟨.other, .queue (v := s.view c') hst hlive, .inl rfl⟩
    · split at hstep
      · split at hstep
        · obtain rfl := Option.some.inj hstep
          exact .inl (view_push_apart (happart hne))
        · obtain rfl := Option.some.inj hstep
          exact .inl rfl
      · obtain rfl := Option.some.inj hstep
        exact .inl (view_queueInLoop_apart (happart hne))
  · exact absurd hstep (by simp)

/-- A call of user code, whichever it is, is a step of every view. -/
theorem callChanges {cur : Option ℕ} {k : Call} (hstep : s.doCall cur k = some s') :
    s.CallChanges cur k c (s'.view c) := by
  cases k with
  | method m c' => exact callChanges_method hstep
  | setTcpHandler c' h =>
    simp only [doCall, Option.ite_none_right_eq_some] at hstep
    obtain ⟨⟨hu, hcur⟩, hs⟩ := hstep
    obtain rfl := Option.some.inj hs
    obtain ⟨-, hlive, hst⟩ := usable_iff.1 hu
    by_cases hne : c' = c
    · subst hne
      rw [view_emit_self, view_setConn_self (x := { s.conns c' with tcpHandler := h }) rfl rfl rfl]
      exact .inr ⟨.setTcpHandler h, .setTcpHandler (v := s.view c') hst hlive,
        .inr ⟨by simp [hcur], .inl ⟨h, rfl, rfl⟩⟩⟩
    · exact .inl ((view_emit_of_ne hne).trans (view_setConn_of_ne hne))
  | setHighWaterMark c' bytes =>
    simp only [doCall, Option.ite_none_right_eq_some] at hstep
    obtain ⟨⟨hu, -⟩, hs⟩ := hstep
    obtain rfl := Option.some.inj hs
    by_cases hne : c' = c
    · subst hne
      rw [view_setConn_self (x := { s.conns c' with hightWaterMark := bytes }) rfl rfl rfl]
      exact .inr ⟨.other, .configure (v := s.view c') (usable_iff.1 hu).2.2, .inl rfl⟩
    · exact .inl (view_setConn_of_ne hne)
  | fillOutputBuf c' len =>
    simp only [doCall, Option.ite_none_right_eq_some] at hstep
    obtain ⟨⟨hu, -⟩, hs⟩ := hstep
    obtain rfl := Option.some.inj hs
    by_cases hne : c' = c
    · subst hne
      rw [view_setConn_self (x := { s.conns c' with
        outputBuf := (s.conns c').outputBuf + len }) rfl rfl rfl]
      exact .inr ⟨.other, .configure (v := s.view c') (usable_iff.1 hu).2.2, .inl rfl⟩
    · exact .inl (view_setConn_of_ne hne)
  | serverSetTcpHandler h =>
    simp only [doCall, Option.ite_none_right_eq_some] at hstep
    obtain rfl := Option.some.inj hstep.2
    exact .inl (view_server rfl rfl rfl)
  | connectorSetTcpHandler k h =>
    simp only [doCall, Option.ite_none_right_eq_some] at hstep
    obtain rfl := Option.some.inj hstep.2
    exact .inl (view_setConnector fun _ => Iff.rfl)
  | connectorStop k =>
    obtain rfl := Option.some.inj hstep
    exact .inl (view_runInLoop_apart (apart_of (by simp) (by simp)))
  | queueInLoop l =>
    obtain rfl := Option.some.inj hstep
    exact .inl (view_queueInLoop_apart (by simpa using apart_of (by simp) (by simp)))
  | quit l =>
    obtain rfl := Option.some.inj hstep
    exact .inl (view_setLoop rfl rfl rfl rfl rfl rfl)
  | destroyServer =>
    simp only [doCall, Option.ite_none_right_eq_some] at hstep
    obtain ⟨⟨hcur, hphase⟩, hs⟩ := hstep
    obtain rfl := Option.some.inj hs
    rw [CallChanges, view_push_apart (by simpa using apart_of (by simp) (by simp))]
    rcases hholder : (s.conns c).tcpHolder with _ | k
    · rw [view_server_phase .removing hholder]
      exact .inr ⟨.destroyServer, .destroyServer (v := s.view c) hholder
        (by simp [phaseOf, hholder, hphase]), .inr ⟨by simp [hcur], .inr ⟨rfl, rfl⟩⟩⟩
    · exact .inl (view_server_of_connector hholder Iff.rfl)

/-- The loop goes on with what it does. -/
theorem changes_exec {ch : Choice} {pick : ℕ} (h : WellFormed s) (hc : c < s.created)
    (hstep : s.exec l ch pick = some s') : s.Changes (.exec l ch pick) c (s'.view c) := by
  obtain ⟨op, rest, hops, hexec⟩ := exec_eq_some.1 hstep
  have hpop (hconn : ∀ c' op', op ≠ .conn c' op') (hrem : ∀ id, op ≠ .removeConnectionInLoop id) :
      (s.pop l rest).view c = s.view c := view_pop_apart hops (apart_of hconn hrem)
  cases op with
  | conn c' op =>
    by_cases hne : c' = c
    · subst hne
      exact changes_conn_self hops hexec
    · exact changes_conn_of_ne h hc hne hops hexec
  | removeConnectionInLoop id =>
    simp only [execOp, Option.ite_none_right_eq_some] at hexec
    obtain ⟨rfl, hs⟩ := hexec
    obtain rfl := Option.some.inj hs
    exact changes_removeConnectionInLoop hops
  | accept fd =>
    simp only [execOp, Option.ite_none_right_eq_some] at hexec
    obtain rfl := Option.some.inj hexec.2
    exact changes_accept hc hops
  | establish k fd =>
    simp only [execOp, Option.ite_none_right_eq_some] at hexec
    obtain rfl := Option.some.inj hexec.2
    exact changes_establish hc hops
  | stopInLoop k =>
    simp only [execOp, Option.ite_none_right_eq_some] at hexec
    obtain rfl := Option.some.inj hexec.2
    exact changes_stopInLoop h hops
  | removeAll =>
    simp only [execOp, Option.ite_none_right_eq_some] at hexec
    obtain ⟨⟨rfl, hphase⟩, hs⟩ := hexec
    exact changes_removeAll h hops hphase hs
  | quitWorker w =>
    obtain rfl := Option.some.inj hexec
    have hv : ((s.pop l rest).setLoop w { (s.pop l rest).loops w with isQuit := true }).view c =
        (s.pop l rest).view c := view_setLoop rfl rfl rfl rfl rfl rfl
    rw [hv, hpop (by simp) (by simp)]
    exact .same
  | join w =>
    simp only [execOp, Option.ite_none_right_eq_some] at hexec
    obtain rfl := Option.some.inj hexec.2
    rw [hpop (by simp) (by simp)]
    exact .same
  | serverGone =>
    simp only [execOp, Option.ite_none_right_eq_some] at hexec
    obtain ⟨⟨rfl, hphase⟩, hs⟩ := hexec
    obtain rfl := Option.some.inj hs
    rcases hholder : (s.conns c).tcpHolder with _ | k
    · rw [view_server_phase (s := s.pop 0 rest) .gone hholder, hpop (by simp) (by simp)]
      exact .other (.serverGone (v := s.view c) hholder (by simpa [phaseOf, hholder] using hphase))
    · rw [view_server_of_connector (s := s.pop 0 rest) hholder (by simp), hpop (by simp) (by simp)]
      exact .same
  | user =>
    obtain rfl := Option.some.inj hexec
    rw [view_push_apart fun op hop => ?_, hpop (by simp) (by simp)]
    · exact .same
    · obtain ⟨k, -, rfl⟩ := List.mem_map.1 hop
      exact apart_call k
  | call k =>
    have hv := hpop (by simp) (by simp)
    rcases callChanges (c := c) hexec with heq | ⟨cause, hst, hcause⟩
    · exact .inl (heq.trans hv)
    · rw [hv] at hst
      refine .inr ⟨cause, hst, ?_⟩
      rcases hcause with rfl | ⟨-, ⟨hd, rfl, rfl⟩ | ⟨rfl, rfl⟩⟩
      · trivial
      · exact ⟨l, ch, pick, rest, rfl, hops⟩
      · exact ⟨l, ch, pick, rest, rfl, hops⟩

/-! ### The loops -/

/-- The loop's thread is somewhere else in `loop()`. -/
theorem view_setPlace (p : Place) : (s.setLoop l { s.loops l with place := p }).view c =
    if (s.conns c).loop = l then { s.view c with place := p } else s.view c := by
  have hrem : removalsIn (s.conns c) (Loop.all { s.loops l with place := p }) =
      removalsIn (s.conns c) (s.loops l).all := rfl
  split
  · next hl =>
    rw [view_setLoop_self hl hrem]
    subst hl
    rfl
  · next hl => exact view_setLoop_of_ne hl hrem

/-- A loop that has returned runs nothing of the connection and has nothing of
it in its round. -/
theorem returned_view (hret : (s.loops (s.conns c).loop).returned = true) :
    (s.view c).running = [] ∧ (s.view c).todo = [] := by
  obtain ⟨hops, htodo⟩ := Loop.returned_iff.1 hret
  rw [view_running, view_todo, hops, htodo, opsOf_nil]
  exact ⟨rfl, rfl⟩

/-- `while (!isQuit)`: a loop that goes on takes its round from nothing, and one
that ends leaves what is pending. -/
theorem changes_testQuit (hstep : s.testQuit l = some s') :
    s.Changes (.testQuit l) c (s'.view c) := by
  simp only [testQuit, Option.ite_none_right_eq_some] at hstep
  obtain ⟨⟨hplace, hret⟩, hs⟩ := hstep
  split at hs
  · obtain rfl := Option.some.inj hs
    rw [view_setPlace]
    split
    · next hl =>
      subst hl
      obtain ⟨hrun, htodo⟩ := returned_view hret
      exact .other (.testQuit (v := s.view c) hplace hrun htodo)
    · exact .same
  · next hquit =>
    split at hs
    · obtain rfl := Option.some.inj hs
      exact .same
    · next h0 =>
      obtain rfl := Option.some.inj hs
      by_cases hl : (s.conns c).loop = l
      · subst hl
        obtain ⟨hrun, htodo⟩ := returned_view hret
        refine .inr ⟨.exit, ?_, rfl, h0, by simpa using hquit⟩
        have hv : (s.setLoop (s.conns c).loop { s.loops (s.conns c).loop with
            place := .exited, pendingTasks := [], timers := [] }).view c =
            { s.view c with place := .exited, pending := [], timers := 0 } := by
          apply View.ext <;> simp [phaseOf, held, acts, removals, Ne.symm h0]
        rw [hv]
        exact .exit (v := s.view c) hplace hrun htodo
      · have hv : (s.setLoop l { s.loops l with
            place := .exited, pendingTasks := [], timers := [] }).view c = s.view c := by
          apply View.ext <;> simp [hl, phaseOf, held, acts, removals, Ne.symm h0]
        rw [hv]
        exact .same

/-- What `poll` returns for the connection. -/
theorem mem_opsOf_events {events : List Event} {op : ConnOp} (hfire : events.all (s.canFire l))
    (hfired : ∀ c ∈ Event.fired events,
      (Event.fired events).count c ≤ (s.loops l).timers.count c)
    (hop : op ∈ opsOf c (events.map Event.op)) :
    op = .forceCloseInLoop ∧ 0 < (s.loops l).timers.count c ∨
      (∃ revents, op = .handleEvent revents) ∧ (s.conns c).registered = true := by
  obtain ⟨x, hx, hof⟩ := List.mem_filterMap.1 hop
  obtain ⟨ev, hev, rfl⟩ := List.mem_map.1 hx
  have hcan := List.all_eq_true.1 hfire ev hev
  cases ev with
  | channel c' revents =>
    by_cases hc : c' = c
    · subst hc
      obtain rfl : ConnOp.handleEvent revents = op := by simpa [Event.op, Op.of] using hof
      simp only [canFire, Bool.and_eq_true] at hcan
      exact .inr ⟨⟨revents, rfl⟩, hcan.1.1.2⟩
    · simp [Event.op, Op.of, hc] at hof
  | timer c' =>
    by_cases hc : c' = c
    · subst hc
      obtain rfl : ConnOp.forceCloseInLoop = op := by simpa [Event.op, Op.of] using hof
      exact .inl ⟨rfl, List.count_pos_iff.2 (WellFormed.mem_timers_of_fired hfired hev)⟩
    · simp [Event.op, Op.of, hc] at hof
  | accept fd => simp [Event.op, Op.of] at hof
  | establish k fd => simp [Event.op, Op.of] at hof
  | user => simp [Event.op, Op.of] at hof

/-- `poll`: the connection's own events, if its channel is registered, become
its round. -/
theorem changes_poll {events : List Event} (hstep : s.poll l events = some s') :
    s.Changes (.poll l events) c (s'.view c) := by
  simp only [poll, Option.ite_none_right_eq_some] at hstep
  obtain ⟨⟨hplace, hret, hfire, hfired⟩, hs⟩ := hstep
  obtain rfl := Option.some.inj hs
  have hrem : removalsIn (s.conns c) (Loop.all { s.loops l with
      place := .handling
      todo := events.map Event.op
      timers := (s.loops l).timers.diff (Event.fired events) }) =
      removalsIn (s.conns c) (s.loops l).all := by
    have hz : removalsIn (s.conns c) (events.map Event.op) = 0 := by
      refine removalsIn_eq_zero fun hmem => ?_
      obtain ⟨ev, -, hev⟩ := List.mem_map.1 hmem
      cases ev <;> simp [Event.op] at hev
    rw [Loop.all_eq_of_returned hret]
    simp [Loop.all, (Loop.returned_iff.1 hret).1, removalsIn_append, hz]
  by_cases hl : (s.conns c).loop = l
  · subst hl
    obtain ⟨hrun, htodo⟩ := returned_view hret
    refine .other ?_
    rw [view_setLoop_self rfl hrem]
    refine View.Step.poll (v := s.view c) hplace hrun htodo (fun op hop => ?_) ?_
    · exact mem_opsOf_events hfire hfired hop
    · exact (List.diff_sublist _ _).count_le c
  · rw [view_setLoop_of_ne hl hrem]
    exact .same

/-- The next handler or task of the round: the connection's own, or other code. -/
theorem changes_next (hstep : s.next l = some s') : s.Changes (.next l) c (s'.view c) := by
  simp only [next] at hstep
  split at hstep
  · next op todo hops htodo =>
    obtain rfl := Option.some.inj hstep
    have hrem : removalsIn (s.conns c) (Loop.all { s.loops l with ops := [op], todo := todo }) =
        removalsIn (s.conns c) (s.loops l).all := by simp [Loop.all, hops, htodo]
    by_cases hl : (s.conns c).loop = l
    · subst hl
      have hv := view_setLoop_self (s := s) (c := c) (L := { s.loops (s.conns c).loop with
        ops := [op], todo := todo }) rfl hrem
      rcases hof : op.of c with _ | cop
      · refine .inl (hv.trans ?_)
        apply View.ext <;> simp [hops, htodo, opsOf_cons_none hof]
      · obtain rfl : Op.conn c cop = op := by
          cases op with
          | conn c' op' =>
            by_cases hc : c' = c
            · simp [Op.of, hc] at hof
              rw [hc, hof]
            · simp [Op.of, hc] at hof
          | _ => simp [Op.of] at hof
        refine .other ?_
        rw [hv]
        have hn := @View.Step.next (s.view c) cop (opsOf c todo) (by simp [hops])
            (by simp [htodo, opsOf_cons_self])
        simpa [opsOf_cons_self] using hn
    · rw [view_setLoop_of_ne hl hrem]
      exact .same
  · exact absurd hstep (by simp)

/-- The tasks are taken out of `pendingTasks`: for a view, its pending functions
become its round. -/
theorem changes_swap (hstep : s.swap l = some s') : s.Changes (.swap l) c (s'.view c) := by
  simp only [swap, Option.ite_none_right_eq_some] at hstep
  obtain ⟨⟨hplace, hret⟩, hs⟩ := hstep
  obtain rfl := Option.some.inj hs
  obtain ⟨hops, htodo⟩ := Loop.returned_iff.1 hret
  have hrem : removalsIn (s.conns c) (Loop.all { s.loops l with
      place := .tasking, todo := (s.loops l).pendingTasks, pendingTasks := [] }) =
      removalsIn (s.conns c) (s.loops l).all := by simp [Loop.all, hops, htodo]
  by_cases hl : (s.conns c).loop = l
  · subst hl
    obtain ⟨hrun, htodo⟩ := returned_view hret
    rw [view_setLoop_self rfl hrem]
    exact .inr ⟨.swap, .swap hplace hrun htodo, rfl⟩
  · rw [view_setLoop_of_ne hl hrem]
    exact .same

/-- The round of tasks is over. -/
theorem changes_endTasks (hstep : s.endTasks l = some s') :
    s.Changes (.endTasks l) c (s'.view c) := by
  simp only [endTasks, Option.ite_none_right_eq_some] at hstep
  obtain ⟨⟨hplace, hret⟩, hs⟩ := hstep
  obtain rfl := Option.some.inj hs
  rw [view_setPlace]
  split
  · next hl =>
    subst hl
    obtain ⟨hrun, htodo⟩ := returned_view hret
    exact .other (.endTasks (v := s.view c) hplace hrun htodo)
  · exact .same

/-- An object without references is held by nobody, no task or call that owns
one is left, and no timer. -/
theorem unreferenced_view (h : s.unreferenced c = true) :
    s.held c = false ∧ (∀ op ∈ (s.view c).all, op.owns = false) ∧ (s.view c).timers = 0 := by
  simp only [unreferenced, Bool.and_eq_true, Bool.not_eq_true', decide_eq_true_eq] at h
  refine ⟨h.1.1, fun op hop => ?_, List.count_eq_zero.2 h.1.2⟩
  have hmem : Op.conn c op ∈ (s.loops (s.conns c).loop).all := by
    exact mem_opsOf.1 (by simpa [View.all, Loop.all] using hop)
  simpa using List.all_eq_true.1 h.2 _ hmem

/-- The destructor of another connection is not seen; that of this one comes
when it is unreferenced. -/
theorem changes_destroy (hstep : s.destroy c' = some s') :
    s.Changes (.destroy c') c (s'.view c) := by
  simp only [destroy, Option.ite_none_right_eq_some] at hstep
  obtain ⟨⟨-, hlive, hun⟩, hs⟩ := hstep
  obtain rfl := Option.some.inj hs
  by_cases hc : c' = c
  · subst hc
    obtain ⟨hheld, howns, htimers⟩ := unreferenced_view hun
    refine .other ?_
    rw [view_emit_self,
      view_setConn_self (x := { s.conns c' with destroyed := true }) rfl rfl rfl]
    exact .destroy (v := s.view c') hlive hheld howns htimers
  · rw [view_emit_of_ne hc, view_setConn_of_ne hc]
    exact .same

/-- **A step of the service is, for each connection, a step of its view.** -/
theorem view_step (h : WellFormed s) (hc : c < s.created) (hstep : s.step i = some s') :
    s.Changes i c (s'.view c) := by
  cases i with
  | testQuit l => exact changes_testQuit hstep
  | poll l events => exact changes_poll hstep
  | next l => exact changes_next hstep
  | swap l => exact changes_swap hstep
  | endTasks l => exact changes_endTasks hstep
  | exec l ch pick => exact changes_exec h hc hstep
  | user l =>
    simp only [step, Option.ite_none_right_eq_some] at hstep
    obtain rfl := Option.some.inj hstep.2
    rw [view_push_apart (by simpa using apart_of (by simp) (by simp))]
    exact .same
  | foreign k =>
    rcases callChanges (c := c) hstep with heq | ⟨cause, hst, rfl | ⟨hcur, -⟩⟩
    · exact .inl heq
    · exact .other hst
    · exact absurd rfl hcur
  | destroy c' => exact changes_destroy hstep

/-! ### New connections -/

/-- Nothing is known of a connection that is not made yet. -/
theorem opsOf_created (h : WellFormed s) {ops : List Op}
    (hops : ∀ op ∈ ops, op ∈ (s.loops l).all) : opsOf s.created ops = [] := by
  refine opsOf_eq_nil fun op hop => ?_
  have hk : s.Known op := h.known l op (hops op hop)
  cases op with
  | conn c op => exact of_conn_of_ne (Nat.ne_of_lt hk)
  | _ => rfl

/-- Nothing has been logged of a connection that is not made yet. -/
theorem actsOf_created (h : WellFormed s) : actsOf s.created s.log = [] := by
  refine List.filterMap_eq_nil_iff.2 fun p hp => ?_
  simp [Nat.ne_of_lt (h.log p hp)]

/-- The view of a connection whose record has just been made. -/
theorem view_fresh {k : Conn} (h : WellFormed s) (hconn : s'.conns s.created = k)
    (hloops : s'.loops = s.loops)
    (hlog : s'.log = s.log ++ [(s.created, .setTcpHandler k.tcpHandler)])
    (hheld : s'.held s.created = true) (hvisited : s'.server.visited = s.server.visited)
    (hrem : removalsIn k (s.loops 0).all = 0) (hphase : s'.phaseOf s.created = .alive) :
    s'.view s.created = View.fresh k (s.loops k.loop).place := by
  have hops (l : ℕ) : opsOf s.created (s.loops l).ops = [] :=
    opsOf_created (l := l) h fun op hop => by simp [Loop.all, hop]
  have htodo (l : ℕ) : opsOf s.created (s.loops l).todo = [] :=
    opsOf_created (l := l) h fun op hop => by simp [Loop.all, hop]
  have hpending (l : ℕ) : opsOf s.created (s.loops l).pendingTasks = [] :=
    opsOf_created (l := l) h fun op hop => by simp [Loop.all, hop]
  have htimers (l : ℕ) : (s.loops l).timers.count s.created = 0 :=
    List.count_eq_zero.2 fun hmem => Nat.lt_irrefl _ (h.timers l _ hmem)
  have hnv : s.created ∉ s.server.visited := fun hmem => Nat.lt_irrefl _ (h.visited _ hmem).1
  have hacts : actsOf s.created s'.log = [.setTcpHandler k.tcpHandler] := by
    rw [hlog, actsOf_append, actsOf_created h]
    exact actsOf_map_self [_]
  apply View.ext <;> simp [View.fresh, hconn, hloops, hops, htodo, hpending, htimers, hheld,
    hvisited, hnv, hphase, removals, hrem, acts, hacts]

/-- The view of the connection that the server makes: fresh, in the loop that
`getNextLoop` chose. -/
theorem view_addConnection_self (fd : ℕ) (h : WellFormed s) (hphase : s.server.phase = .alive) :
    (s.addConnection fd).view s.created =
      View.fresh (Conn.new s.server.nextId s.getNextLoop.1 .server s.server.tcpHandler fd)
        (s.loops s.getNextLoop.1).place := by
  have hconn := WellFormed.conns_addConnection_self (s := s) fd
  refine view_fresh h hconn rfl rfl ?_ rfl ?_ ?_
  · simp [held, addConnection, Conn.new]
  · refine removalsIn_eq_zero fun hmem => ?_
    obtain ⟨c, hc, hholder, hid⟩ := h.known 0 _ hmem
    exact Nat.ne_of_lt (h.ids c hc hholder) hid
  · simpa [phaseOf, addConnection, Conn.new] using hphase

/-- The view of the connection that a connector makes: fresh, in the connector's
loop. -/
theorem view_connectConnection_self (k fd : ℕ) (h : WellFormed s) :
    (s.connectConnection k fd).view s.created =
      View.fresh (Conn.new s.connectorNextId (s.connectors k).loop (.connector k)
        (s.connectors k).tcpHandler fd) (s.loops (s.connectors k).loop).place := by
  have hconn := WellFormed.conns_connectConnection_self (s := s) k fd
  refine view_fresh h hconn rfl rfl ?_ rfl rfl ?_
  · simp [held, connectConnection, Conn.new]
  · simp [phaseOf, hconn, Conn.new]

/-- An accepted connection begins with its `onConnection`, running at once in
the owner loop or pending in the loop of a worker. -/
theorem initial_accept (fd : ℕ) (ch : Choice) (h : WellFormed s)
    (hphase : s.server.phase = .alive) : View.Initial ((s.accept fd ch).view s.created) ∧
      ((s.accept fd ch).view s.created).place = (s.loops s.getNextLoop.1).place := by
  have hv := view_addConnection_self fd h hphase
  have hconn := WellFormed.conns_addConnection_self (s := s) fd
  unfold accept
  dsimp only
  split
  · next hl =>
    rw [view_apply_self hl rfl rfl rfl, hv, hconn]
    rw [hconn] at hl
    exact ⟨.called fun _ => hl, rfl⟩
  · next hl =>
    rw [show [Op.conn s.created .onConnection] = [ConnOp.onConnection].map (.conn s.created)
      from rfl, view_queueInLoop_self rfl, hv]
    rw [hconn] at hl
    exact ⟨.queued hl, rfl⟩

/-- A connector's connection begins with its `onConnection` running, and is none
of the server's. -/
theorem initial_establish (k fd : ℕ) (ch : Choice) (h : WellFormed s) :
    View.Initial ((s.establish k fd ch).view s.created) ∧
      ((s.establish k fd ch).view s.created).conn.tcpHolder ≠ .server := by
  have hv := view_connectConnection_self k fd h
  have hconn := WellFormed.conns_connectConnection_self (s := s) k fd
  unfold establish
  dsimp only
  rw [view_apply_self rfl rfl rfl rfl, hv, hconn]
  exact ⟨.called fun hholder => by simp at hholder, by simp [Conn.new]⟩

/-- A call of user code makes no connection. -/
theorem created_doCall {cur : Option ℕ} {k : Call} (hstep : s.doCall cur k = some s') :
    s'.created = s.created := by
  cases k with
  | method m c =>
    simp only [doCall] at hstep
    split at hstep
    · split at hstep
      · split at hstep <;> (obtain rfl := Option.some.inj hstep; rfl)
      · obtain rfl := Option.some.inj hstep
        rfl
    · exact absurd hstep (by simp)
  | connectorStop k =>
    obtain rfl := Option.some.inj hstep
    simp only [runInLoop]
    split <;> rfl
  | queueInLoop l => obtain rfl := Option.some.inj hstep; rfl
  | quit l => obtain rfl := Option.some.inj hstep; rfl
  | _ =>
    simp only [doCall, Option.ite_none_right_eq_some] at hstep
    obtain rfl := Option.some.inj hstep.2
    rfl

/-- The destructor of the server makes no connection. -/
theorem created_removeAll {ch : Choice} {pick : ℕ} (hstep : s.removeAll ch pick = some s') :
    s'.created = s.created := by
  unfold removeAll at hstep
  split at hstep
  · dsimp only at hstep
    split at hstep <;> (obtain rfl := Option.some.inj hstep; rfl)
  · split at hstep
    · obtain rfl := Option.some.inj hstep
      rfl
    · exact absurd hstep (by simp)

/-- Where the loop is in which the server makes a connection. -/
def Makes (s : Service) (i : Input) (v : View) : Prop :=
  v.conn.tcpHolder = .server →
    (∃ fd, s.Runs i (.accept fd)) ∧ v.place = (s.loops s.getNextLoop.1).place

/-- A step makes no connection, or one. -/
theorem view_created (h : WellFormed s) (hstep : s.step i = some s') :
    s'.created = s.created ∨
      s'.created = s.created + 1 ∧ View.Initial (s'.view s.created) ∧
        s.Makes i (s'.view s.created) := by
  cases i with
  | testQuit l =>
    simp only [step, testQuit, Option.ite_none_right_eq_some] at hstep
    obtain ⟨-, hs⟩ := hstep
    split at hs
    · obtain rfl := Option.some.inj hs
      exact .inl rfl
    · split at hs <;> (obtain rfl := Option.some.inj hs; exact .inl rfl)
  | next l =>
    simp only [step, next] at hstep
    split at hstep
    · obtain rfl := Option.some.inj hstep
      exact .inl rfl
    · exact absurd hstep (by simp)
  | foreign k => exact .inl (created_doCall hstep)
  | exec l ch pick =>
    obtain ⟨op, rest, hops, hexec⟩ := exec_eq_some.1 hstep
    have hpop := (h.pop hops).1
    cases op with
    | conn c op =>
      obtain ⟨-, ⟨-, rfl⟩ | ⟨-, rfl⟩ | ⟨-, -, rfl⟩⟩ := execOp_conn_eq_some hexec
      · left
        simp only [removeConnection, runInLoop]
        split
        · split <;> rfl
        · rfl
      · exact .inl rfl
      · exact .inl rfl
    | accept fd =>
      simp only [execOp, Option.ite_none_right_eq_some] at hexec
      obtain ⟨⟨-, hphase⟩, hs⟩ := hexec
      obtain rfl := Option.some.inj hs
      obtain ⟨hinitial, hplace⟩ := initial_accept fd ch hpop hphase
      refine .inr ⟨?_, hinitial, fun _ => ⟨⟨fd, l, ch, pick, rest, rfl, hops⟩, hplace.trans ?_⟩⟩
      · simp only [accept]
        split <;> rfl
      · show ((s.pop l rest).loops s.getNextLoop.1).place = _
        by_cases hl : s.getNextLoop.1 = l <;> simp [hl]
    | establish k fd =>
      simp only [execOp, Option.ite_none_right_eq_some] at hexec
      obtain rfl := Option.some.inj hexec.2
      obtain ⟨hinitial, hholder⟩ := initial_establish k fd ch hpop
      exact .inr ⟨rfl, hinitial, fun hserver => absurd hserver hholder⟩
    | removeAll =>
      simp only [execOp, Option.ite_none_right_eq_some] at hexec
      exact .inl (created_removeAll (s := s.pop l rest) hexec.2)
    | stopInLoop k =>
      simp only [execOp, Option.ite_none_right_eq_some] at hexec
      obtain rfl := Option.some.inj hexec.2
      left
      simp only [stopInLoop]
      split <;> rfl
    | call k => exact .inl (created_doCall (s := s.pop l rest) hexec)
    | quitWorker w => obtain rfl := Option.some.inj hexec; exact .inl rfl
    | user => obtain rfl := Option.some.inj hexec; exact .inl rfl
    | _ =>
      simp only [execOp, Option.ite_none_right_eq_some] at hexec
      obtain rfl := Option.some.inj hexec.2
      exact .inl rfl
  | _ =>
    simp only [step, poll, swap, endTasks, destroy, Option.ite_none_right_eq_some] at hstep
    obtain rfl := Option.some.inj hstep.2
    exact .inl rfl

/-- **The induction rule for connections.**  A property that new connections
have, and that the steps of a view keep, is kept by the steps of the service. -/
theorem forall_view_step {P : View → Prop} (h : WellFormed s) (hstep : s.step i = some s')
    (hinit : ∀ v, View.Initial v → s.Makes i v → P v) (hP : ∀ c < s.created, P (s.view c))
    (hview : ∀ c < s.created, ∀ cause v, View.Step (s.view c) cause v → s.Causes i c cause →
      P (s.view c) → P v) : ∀ c < s'.created, P (s'.view c) := by
  intro c hc
  have hold (hc : c < s.created) : P (s'.view c) := by
    rcases view_step h hc hstep with heq | ⟨cause, hst, hcause⟩
    · rw [heq]
      exact hP c hc
    · exact hview c hc cause _ hst hcause (hP c hc)
  rcases view_created h hstep with heq | ⟨heq, hi, hmakes⟩
  · exact hold (heq ▸ hc)
  · rw [heq] at hc
    rcases Nat.lt_succ_iff_lt_or_eq.1 hc with hc | rfl
    · exact hold hc
    · exact hinit _ hi hmakes

end Service
end Net
end Sevent
