/-
# One connection of a service

`sevent/net/TcpConnection.cpp`, `sevent/net/TcpServer.cpp`,
`sevent/net/Connector.cpp`, `sevent/net/EventLoop.cpp`.

`View` is what the rest of a service can do to one connection and has done: the
connection, the functions that its loop has still to run for it, where its loop
is, whether its holder has it, how many `removeConnectionInLoop` are on their
way, and what has happened to it.  `View.Step` is everything that can happen to
a view; a `Cause` names the steps that a condition on a run speaks of.

`Sevent.Net.ServiceView` shows that a step of the service is, for each of its
connections, one of these or nothing.  What holds of a view along all its steps
then holds of every connection of every service.
-/

import Sevent.Net.ConnCallsSpec
import Sevent.Net.Service

namespace Sevent
namespace Net
namespace Service

/-- One connection, and what concerns it. `phase` is that of the server if that
is its holder; a connector stays. -/
@[ext]
structure View where
  conn : Conn
  phase : Phase
  place : Place
  running : List ConnOp
  todo : List ConnOp
  pending : List ConnOp
  timers : ℕ
  held : Bool
  visited : Bool
  removals : ℕ
  acts : List Act

/-- The steps that a condition on a run speaks of. -/
inductive Cause
  | setTcpHandler (h : Option ℕ)
  | handleClose
  | destroyServer
  | exit
  | replaced
  | visitDirect
  | visitQueued
  | clear
  | swap
  | other
  deriving DecidableEq, Repr

namespace View

/-- Everything that the loop has still to run for the connection. -/
def all (v : View) : List ConnOp := v.running ++ v.todo ++ v.pending

/-- A function has run. -/
@[simps]
def after (v : View) (rest : List ConnOp) (o : Outcome) : View :=
  { v with
    conn := o.conn
    running := o.ops ++ rest
    pending := v.pending ++ o.queued
    acts := v.acts ++ o.acts }

/-- **What can happen to one connection.** -/
inductive Step (v : View) : Cause → View → Prop
  /-- Its loop runs a function of it. -/
  | run {op : ConnOp} {rest : List ConnOp} {ch : Choice} {o : Outcome}
      (hrun : v.running = op :: rest) (hlive : v.conn.destroyed = false) (hop : op ≠ .addTimer)
      (hdid : Outcome.Did v.conn ch op o) :
      Step v (if op.closes v.conn ch then .handleClose else .other) (v.after rest o)
  | addTimer {rest : List ConnOp} (hrun : v.running = .addTimer :: rest)
      (hlive : v.conn.destroyed = false) :
      Step v .other { v with running := rest, timers := v.timers + 1 }
  /-- `handleClose` calls its holder, the server. -/
  | serverRemoves {rest : List ConnOp} (hrun : v.running = .removeConnection :: rest)
      (hlive : v.conn.destroyed = false) (hholder : v.conn.tcpHolder = .server) :
      Step v .other { v with
        running := rest
        removals := v.removals + 1
        acts := v.acts ++ [.removeConnection] }
  /-- `handleClose` calls its holder, a connector. -/
  | connectorRemoves {rest : List ConnOp} {k : ℕ} (hrun : v.running = .removeConnection :: rest)
      (hlive : v.conn.destroyed = false) (hholder : v.conn.tcpHolder = .connector k) :
      Step v .other { v with
        running := rest
        held := false
        acts := v.acts ++ [.removeConnection] }
  /-- `TcpServer::removeConnectionInLoop` of its id. -/
  | erase {n : ℕ} (hholder : v.conn.tcpHolder = .server) (hn : v.removals = n + 1) :
      Step v .other { v with removals := n, held := false }
  /-- The connector takes another connection, or lets go for another one. -/
  | replaced {k : ℕ} (hholder : v.conn.tcpHolder = .connector k) (hheld : v.held = true) :
      Step v .replaced { v with held := false }
  /-- `Connector::stopInLoop`. -/
  | stop {k : ℕ} (hholder : v.conn.tcpHolder = .connector k) (hheld : v.held = true) :
      Step v .other { v with running := .handleClose :: v.running }
  /-- `~TcpServer` starts. -/
  | destroyServer (hholder : v.conn.tcpHolder = .server) (hphase : v.phase = .alive) :
      Step v .destroyServer { v with phase := .removing }
  /-- The loop of `~TcpServer` runs `removeItself`. -/
  | visitDirect {script : List Call} (hholder : v.conn.tcpHolder = .server)
      (hloop : v.conn.loop = 0) (hphase : v.phase = .removing) (hheld : v.held = true)
      (hvisited : v.visited = false) :
      Step v .visitDirect
        { v.after v.running ((Outcome.start v.conn).removeItself script) with visited := true }
  /-- The loop of `~TcpServer` queues `removeItself`. -/
  | visitQueued (hholder : v.conn.tcpHolder = .server) (hloop : v.conn.loop ≠ 0)
      (hphase : v.phase = .removing) (hheld : v.held = true) (hvisited : v.visited = false) :
      Step v .visitQueued { v with pending := v.pending ++ [.removeItself], visited := true }
  /-- The end of that loop, and the destruction of `connections`. -/
  | clear (hholder : v.conn.tcpHolder = .server) (hphase : v.phase = .removing)
      (hvisited : v.held = true → v.visited = true) :
      Step v .clear { v with held := false, phase := .joining }
  /-- The end of `~TcpServer`. -/
  | serverGone (hholder : v.conn.tcpHolder = .server) (hphase : v.phase = .joining) :
      Step v .other { v with phase := .gone }
  /-- A public function, called in the thread of the loop. -/
  | call {m : Method} (hallowed : m.allowed v.conn.state = true)
      (hlive : v.conn.destroyed = false) :
      Step v .other { v with running := m.op :: v.running }
  /-- A public function, called in another thread. -/
  | queue {m : Method} (hst : v.conn.state ≠ .connecting) (hlive : v.conn.destroyed = false) :
      Step v .other { v with pending := v.pending ++ [m.op] }
  | setTcpHandler {h : Option ℕ} (hst : v.conn.state ≠ .connecting)
      (hlive : v.conn.destroyed = false) :
      Step v (.setTcpHandler h) { v with
        conn := { v.conn with tcpHandler := h }
        acts := v.acts ++ [.setTcpHandler h] }
  | configure {outputBuf hightWaterMark : ℕ} (hst : v.conn.state ≠ .connecting) :
      Step v .other { v with
        conn := { v.conn with outputBuf := outputBuf, hightWaterMark := hightWaterMark } }
  | testQuit (hplace : v.place = .idle) (hrun : v.running = []) (htodo : v.todo = []) :
      Step v .other { v with place := .polling }
  | exit (hplace : v.place = .idle) (hrun : v.running = []) (htodo : v.todo = []) :
      Step v .exit { v with place := .exited, pending := [], timers := 0 }
  /-- `poll`: the connection's own events, if it is in the poller, and its timers. -/
  | poll {ops : List ConnOp} {timers : ℕ} (hplace : v.place = .polling) (hrun : v.running = [])
      (htodo : v.todo = [])
      (hops : ∀ op ∈ ops, op = .forceCloseInLoop ∧ 0 < v.timers ∨
        (∃ revents, op = .handleEvent revents) ∧ v.conn.registered = true)
      (htimers : timers ≤ v.timers) :
      Step v .other { v with place := .handling, todo := ops, timers := timers }
  | next {op : ConnOp} {todo : List ConnOp} (hrun : v.running = []) (htodo : v.todo = op :: todo) :
      Step v .other { v with running := [op], todo := todo }
  | swap (hplace : v.place = .handling) (hrun : v.running = []) (htodo : v.todo = []) :
      Step v .swap { v with place := .tasking, todo := v.pending, pending := [] }
  | endTasks (hplace : v.place = .tasking) (hrun : v.running = []) (htodo : v.todo = []) :
      Step v .other { v with place := .idle }
  /-- `~TcpConnection`. -/
  | destroy (hlive : v.conn.destroyed = false) (hheld : v.held = false)
      (howns : ∀ op ∈ v.all, op.owns = false) (htimers : v.timers = 0) :
      Step v .other { v with
        conn := { v.conn with destroyed := true }
        acts := v.acts ++ if v.conn.fd ≥ 0 then [.close] else [] }

/-- A connection that has just been made and is held. -/
def fresh (k : Conn) (place : Place) : View where
  conn := k
  phase := .alive
  place := place
  running := []
  todo := []
  pending := []
  timers := 0
  held := true
  visited := false
  removals := 0
  acts := [.setTcpHandler k.tcpHandler]

/-- A new connection: its `onConnection` is queued in the loop of a worker, or
has been called. -/
inductive Initial : View → Prop
  | queued {id l fd : ℕ} {handler : Option ℕ} {place : Place} (hl : l ≠ 0) :
      Initial { fresh (Conn.new id l .server handler fd) place with pending := [.onConnection] }
  | called {id l fd : ℕ} {holder : Holder} {handler : Option ℕ} {place : Place}
      {script : List Call} (hl : holder = .server → l = 0) :
      Initial ((fresh (Conn.new id l holder handler fd) place).after []
        ((Outcome.start (Conn.new id l holder handler fd)).onConnection script))

end View

/-! ### The view of a connection in a service -/

/-- The function of connection `c` that an entry of a loop is, if it is one. -/
def Op.of (c : ℕ) : Op → Option ConnOp
  | .conn c' op => if c' = c then some op else none
  | _ => none

/-- The functions of connection `c` in a loop's list. -/
def opsOf (c : ℕ) (ops : List Op) : List ConnOp := ops.filterMap (Op.of c)

/-- What has happened to connection `c`. -/
def actsOf (c : ℕ) (log : List (ℕ × Act)) : List Act :=
  log.filterMap fun p => if p.1 = c then some p.2 else none

/-- What has happened to connection `c`. -/
def acts (s : Service) (c : ℕ) : List Act := actsOf c s.log

/-- The `removeConnectionInLoop` of the connection's id in a list. -/
def removalsIn (k : Conn) (ops : List Op) : ℕ :=
  match k.tcpHolder with
  | .server => ops.count (.removeConnectionInLoop k.id)
  | .connector _ => 0

/-- The `removeConnectionInLoop` of the connection's id on the owner loop. -/
def removals (s : Service) (c : ℕ) : ℕ := removalsIn (s.conns c) (s.loops 0).all

/-- The phase of the connection's holder. -/
def phaseOf (s : Service) (c : ℕ) : Phase :=
  match (s.conns c).tcpHolder with
  | .server => s.server.phase
  | .connector _ => .alive

/-- What there is of connection `c`. -/
@[simps]
def view (s : Service) (c : ℕ) : View where
  conn := s.conns c
  phase := s.phaseOf c
  place := (s.loops (s.conns c).loop).place
  running := opsOf c (s.loops (s.conns c).loop).ops
  todo := opsOf c (s.loops (s.conns c).loop).todo
  pending := opsOf c (s.loops (s.conns c).loop).pendingTasks
  timers := (s.loops (s.conns c).loop).timers.count c
  held := s.held c
  visited := decide (c ∈ s.server.visited)
  removals := s.removals c
  acts := s.acts c

end Service
end Net
end Sevent
