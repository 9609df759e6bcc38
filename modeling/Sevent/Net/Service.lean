/-
# A `TcpServer`, its workers, the connectors, and all their connections

`sevent/net/TcpServer.cpp`, `sevent/net/EventLoopWorkers.cpp`,
`sevent/net/EventLoopThread.cpp`, `sevent/net/EventLoop.cpp`,
`sevent/net/Acceptor.cpp`, `sevent/net/Connector.cpp`.

Loop `0` is the owner loop of the server, the loops `1` to `workers` are its
worker loops, any other is a loop of the user's.  With no workers the owner loop
does their work.  Every loop has its thread, and a step is what one of them, or
a thread without a loop, does up to the next point where another thread can see
a difference or user code takes over.

`Loop.ops` is what the function that runs still has to do, the calls of user
code included: the first of it is done next, and what that calls directly goes
in front.  `Loop.todo` is what is left of `activeChannels` or of `tmpTasks`.

A call of a public function of a connection from a thread that is not its
loop's reads `state` while the loop may change it, so it may act on any state
the connection has been in; user code has the connection from a callback, which
comes after `connecting`, so such a call can always have seen it connected.

A connection object is gone when its last reference is: `destroy` may come as
soon as no holder, task or timer has one, for the references of the user are not
in the model.  A function that would run for an object that is gone has no
`step`, nor has one that `assertInOwnerThread` stops.  But the poller and
`activeChannels` have plain pointers, which nothing checks: `dispatch` is `step`
with these followed, to an object that may be gone.  The identity of a
connection is the number of connections made before it, `log` what has happened
to each.
-/

import Sevent.Net.ConnCalls
import Sevent.Lib.Run
import Mathlib.Logic.Function.Basic

namespace Sevent
namespace Net
namespace Service

/-- What a loop runs: a function of a connection, of the server or of a
connector, user code (`user`, the handler of another channel or a task of the
user's), or one call in the middle of user code.  `removeAll` to `serverGone`
are the parts of `~TcpServer`. -/
inductive Op
  | conn (c : ℕ) (op : ConnOp)
  | removeConnectionInLoop (id : ℕ)
  | accept (fd : ℕ)
  | establish (k fd : ℕ)
  | stopInLoop (k : ℕ)
  | removeAll
  | quitWorker (w : ℕ)
  | join (w : ℕ)
  | serverGone
  | user
  | call (k : Call)
  deriving DecidableEq, Repr

/-- Where a loop's thread is in `loop()`; `idle` is before the test of `isQuit`,
and outside of `loop()`. -/
inductive Place
  | idle
  | polling
  | handling
  | tasking
  | exited
  deriving DecidableEq, Repr

/-- An `EventLoop`.  `timers` are the connections of its delayed `forceClose`
timers. -/
structure Loop where
  place : Place
  ops : List Op
  todo : List Op
  pendingTasks : List Op
  timers : List ℕ
  isQuit : Bool
  deriving DecidableEq, Repr

namespace Loop

def init : Loop where
  place := .idle
  ops := []
  todo := []
  pendingTasks := []
  timers := []
  isQuit := false

/-- Everything the loop has still to run, in the order in which it will. -/
def all (L : Loop) : List Op := L.ops ++ L.todo ++ L.pendingTasks

/-- Nothing runs, and nothing is left of the batch. -/
def returned (L : Loop) : Bool := decide (L.ops = []) && decide (L.todo = [])

/-- A direct call. -/
@[simps]
def push (L : Loop) (ops : List Op) : Loop := { L with ops := ops ++ L.ops }

/-- `EventLoop::queueInLoop`. -/
@[simps]
def queueInLoop (L : Loop) (cbs : List Op) : Loop :=
  { L with pendingTasks := L.pendingTasks ++ cbs }

end Loop

/-- A `Connector`: its loop, its handler and the connection it holds. -/
structure Connector where
  loop : ℕ
  tcpHandler : Option ℕ
  connection : Option ℕ
  deriving DecidableEq, Repr

/-- How far the server's life is: `removing` is the body of `~TcpServer`,
`joining` the destruction of its workers. -/
inductive Phase
  | alive
  | removing
  | joining
  | gone
  deriving DecidableEq, Repr

/-- A `TcpServer`.  `visited` are the connections that the loop of `~TcpServer`
has passed. -/
structure Server where
  tcpHandler : Option ℕ
  nextId : ℕ
  nextIndex : ℕ
  connections : List (ℕ × ℕ)
  phase : Phase
  visited : List ℕ
  deriving DecidableEq, Repr

end Service

open Service in
/-- All of it.  `created` counts the connections made so far, `connectorNextId`
is the static `Connector::nextId`. -/
structure Service where
  workers : ℕ
  conns : ℕ → Conn
  created : ℕ
  loops : ℕ → Loop
  connectors : ℕ → Service.Connector
  connectorNextId : ℕ
  server : Server
  log : List (ℕ × Act)

namespace Service

/-- A server that listens, with its workers started, and connectors in the loops
`connectorLoop`. -/
def init (workers : ℕ) (connectorLoop : ℕ → ℕ) : Service where
  workers := workers
  conns _ := Conn.new 0 0 .server none 0
  created := 0
  loops _ := Loop.init
  connectors k := { loop := connectorLoop k, tcpHandler := none, connection := none }
  connectorNextId := 1
  server :=
    { tcpHandler := none, nextId := 1, nextIndex := 0, connections := [], phase := .alive,
      visited := [] }
  log := []

@[simps]
def setConn (s : Service) (c : ℕ) (k : Conn) : Service :=
  { s with conns := Function.update s.conns c k }

@[simps]
def setLoop (s : Service) (l : ℕ) (L : Loop) : Service :=
  { s with loops := Function.update s.loops l L }

@[simps]
def setConnector (s : Service) (k : ℕ) (x : Service.Connector) : Service :=
  { s with connectors := Function.update s.connectors k x }

@[simps]
def setServer (s : Service) (srv : Server) : Service := { s with server := srv }

@[simps]
def emit (s : Service) (c : ℕ) (acts : List Act) : Service :=
  { s with log := s.log ++ acts.map (Prod.mk c) }

@[simps!]
def push (s : Service) (l : ℕ) (ops : List Op) : Service := s.setLoop l ((s.loops l).push ops)

@[simps!]
def queueInLoop (s : Service) (l : ℕ) (cbs : List Op) : Service :=
  s.setLoop l ((s.loops l).queueInLoop cbs)

/-- `EventLoop::runInLoop`, called in the thread of loop `cur`, if of any. -/
def runInLoop (s : Service) (cur : Option ℕ) (l : ℕ) (cb : Op) : Service :=
  if cur = some l then s.push l [cb] else s.queueInLoop l [cb]

/-! ### Connections and their holders -/

/-- Whether the holder of a connection has it. -/
def held (s : Service) (c : ℕ) : Bool :=
  match (s.conns c).tcpHolder with
  | .server => decide (((s.conns c).id, c) ∈ s.server.connections)
  | .connector k => decide ((s.connectors k).connection = some c)

/-- A function of connection `c` has run in loop `l`. -/
@[simps!]
def apply (s : Service) (l c : ℕ) (o : Outcome) : Service :=
  let L := s.loops l
  let L := L.push (o.script.map .call ++ o.ops.map (.conn c))
  ((s.setConn c o.conn).setLoop l (L.queueInLoop (o.queued.map (.conn c)))).emit c o.acts

/-- `make_shared<TcpConnection>`, with `setTcpHolder` and `setTcpHandler`. -/
@[simps!]
def makeConn (s : Service) (id l : ℕ) (holder : Holder) (handler : Option ℕ) (fd : ℕ) : Service :=
  { s.setConn s.created (Conn.new id l holder handler fd) with
    created := s.created + 1 }.emit s.created [.setTcpHandler handler]

/-- `EventLoopWorkers::getNextLoop`: the loop, and `nextIndex` after it. -/
def getNextLoop (s : Service) : ℕ × ℕ :=
  if s.workers = 0 then (0, 0)
  else
    let next := s.server.nextIndex + 1
    (next, if next ≥ s.workers then 0 else next)

/-- `TcpServer::onConnection` up to the new entry of `connections`. -/
def addConnection (s : Service) (fd : ℕ) : Service :=
  let (worker, nextIndex) := s.getNextLoop
  let id := s.server.nextId
  { s.makeConn id worker .server s.server.tcpHandler fd with
    server := { s.server with
      nextId := id + 1
      nextIndex := nextIndex
      connections := s.server.connections ++ [(id, s.created)] } }

/-- `TcpServer::onConnection`, the callback of the acceptor: at its end
`worker->runInLoop(std::bind(&TcpConnection::onConnection, connection))`. -/
def accept (s : Service) (fd : ℕ) (ch : Choice) : Service :=
  let c := s.created
  let s := s.addConnection fd
  if (s.conns c).loop = 0 then
    s.apply 0 c ((Outcome.start (s.conns c)).onConnection ch.script)
  else s.queueInLoop (s.conns c).loop [.conn c .onConnection]

/-- `Connector::onConnection` up to `connection->onConnection()`. -/
def connectConnection (s : Service) (k fd : ℕ) : Service :=
  let x := s.connectors k
  { s.makeConn s.connectorNextId x.loop (.connector k) x.tcpHandler fd with
    connectorNextId := s.connectorNextId + 1 }.setConnector k
      { x with connection := some s.created }

/-- `Connector::onConnection`, once its `connect` has succeeded. -/
def establish (s : Service) (k fd : ℕ) (ch : Choice) : Service :=
  let c := s.created
  let s := s.connectConnection k fd
  s.apply (s.conns c).loop c ((Outcome.start (s.conns c)).onConnection ch.script)

/-- `tcpHolder->removeConnection(id)`, in the thread of loop `l`. -/
def removeConnection (s : Service) (l c : ℕ) : Service :=
  let s := s.emit c [.removeConnection]
  match (s.conns c).tcpHolder with
  | .server => s.runInLoop (some l) 0 (.removeConnectionInLoop (s.conns c).id)
  | .connector k => s.setConnector k { s.connectors k with connection := none }

/-- `TcpServer::removeConnectionInLoop`. -/
def removeConnectionInLoop (s : Service) (id : ℕ) : Service :=
  s.setServer { s.server with
    connections := s.server.connections.filter fun p => p.1 ≠ id }

/-- `Connector::stopInLoop`, in state `connected`. -/
def stopInLoop (s : Service) (k : ℕ) : Service :=
  match (s.connectors k).connection with
  | some c => s.push (s.connectors k).loop [.conn c .handleClose]
  | none => s

/-! ### The destructor of the server -/

/-- The entries that the loop of `~TcpServer` has not passed. -/
def unvisited (s : Service) : List (ℕ × ℕ) :=
  s.server.connections.filter fun p => p.2 ∉ s.server.visited

/-- What follows the body of `~TcpServer`: for each worker thread
`~EventLoopThread`, that is `quit` and `join`. -/
def teardown (workers : ℕ) : List Op :=
  (List.range workers).flatMap fun w => [.quitWorker (w + 1), .join (w + 1)]

/-- The loop of `~TcpServer`, in the order of the hash table (`pick`): the next
entry, or its end and the destruction of `connections`. -/
def removeAll (s : Service) (ch : Choice) (pick : ℕ) : Option Service :=
  match s.unvisited[pick]? with
  | some (_, c) =>
    let s := (s.setServer { s.server with visited := c :: s.server.visited }).push 0 [.removeAll]
    if (s.conns c).loop = 0 then
      some (s.apply 0 c ((Outcome.start (s.conns c)).removeItself ch.script))
    else some (s.queueInLoop (s.conns c).loop [.conn c .removeItself])
  | none =>
    if s.unvisited = [] then
      some ((s.setServer { s.server with connections := [], phase := .joining }).push 0
        (teardown s.workers ++ [.serverGone]))
    else none

/-! ### User code -/

/-- Whether user code can have a reference to the connection: it has been given
one by a callback, and the object is there. -/
def usable (s : Service) (c : ℕ) : Bool :=
  decide (c < s.created) && !(s.conns c).destroyed && decide ((s.conns c).state ≠ .connecting)

/-- A call from user code in the thread of loop `cur`, or in a thread without a
loop.  What is not thread safe is called in the loop's thread only. -/
def doCall (s : Service) (cur : Option ℕ) : Call → Option Service
  | .method m c =>
    if s.usable c then
      if cur = some (s.conns c).loop then
        if m.allowed (s.conns c).state then some (s.push (s.conns c).loop [.conn c m.op])
        else some s
      else some (s.queueInLoop (s.conns c).loop [.conn c m.op])
    else none
  | .setTcpHandler c h =>
    if s.usable c ∧ cur = some (s.conns c).loop then
      some ((s.setConn c { s.conns c with tcpHandler := h }).emit c [.setTcpHandler h])
    else none
  | .setHighWaterMark c bytes =>
    if s.usable c ∧ cur = some (s.conns c).loop then
      some (s.setConn c { s.conns c with hightWaterMark := bytes })
    else none
  | .fillOutputBuf c len =>
    if s.usable c ∧ cur = some (s.conns c).loop then
      some (s.setConn c { s.conns c with outputBuf := (s.conns c).outputBuf + len })
    else none
  | .serverSetTcpHandler h =>
    if cur = some 0 ∧ s.server.phase = .alive then
      some (s.setServer { s.server with tcpHandler := h })
    else none
  | .connectorSetTcpHandler k h =>
    if cur = some (s.connectors k).loop then
      some (s.setConnector k { s.connectors k with tcpHandler := h })
    else none
  | .connectorStop k => some (s.runInLoop cur (s.connectors k).loop (.stopInLoop k))
  | .queueInLoop l => some (s.queueInLoop l [.user])
  | .quit l => some (s.setLoop l { s.loops l with isQuit := true })
  | .destroyServer =>
    if cur = some 0 ∧ s.server.phase = .alive then
      some ((s.setServer { s.server with phase := .removing }).push 0 [.removeAll])
    else none

/-! ### The loops -/

/-- A channel that `poll` returns, or what its handler comes to: an event of a
connection, a timer that fires, a client to accept, a finished connect, and user
code. -/
inductive Event
  | channel (c : ℕ) (revents : Revents)
  | timer (c : ℕ)
  | accept (fd : ℕ)
  | establish (k fd : ℕ)
  | user
  deriving DecidableEq, Repr

/-- What the loop runs for it. -/
def Event.op : Event → Op
  | .channel c revents => .conn c (.handleEvent revents)
  | .timer c => .conn c .forceCloseInLoop
  | .accept fd => .accept fd
  | .establish k fd => .establish k fd
  | .user => .user

/-- The timers that fire. -/
def Event.fired (events : List Event) : List ℕ :=
  events.filterMap fun
    | .timer c => some c
    | _ => none

/-- The connections of a batch. -/
def Event.channels (events : List Event) : List ℕ :=
  events.filterMap fun
    | .channel c _ => some c
    | _ => none

/-- Whether `poll` in loop `l` can return it: a channel is in the loop's poller. -/
def canFire (s : Service) (l : ℕ) : Event → Bool
  | .channel c _ =>
    decide (c < s.created) && (s.conns c).registered && !(s.conns c).destroyed &&
      decide ((s.conns c).loop = l)
  | .timer _ => true
  | .accept _ => decide (l = 0) && decide (s.server.phase = .alive)
  | .establish k _ => decide ((s.connectors k).loop = l)
  | .user => true

/-- `while (!isQuit)`.  A thread that leaves `loop()` destroys its loop, but for
loop `0`, which is not one of `EventLoopThread`. -/
def testQuit (s : Service) (l : ℕ) : Option Service :=
  let L := s.loops l
  if L.place = .idle ∧ L.returned then
    if L.isQuit = false then some (s.setLoop l { L with place := .polling })
    else if l = 0 then some s
    else some (s.setLoop l { L with place := .exited, pendingTasks := [], timers := [] })
  else none

/-- `poller->poll(timeout)`. -/
def poll (s : Service) (l : ℕ) (events : List Event) : Option Service :=
  let L := s.loops l
  let fired := Event.fired events
  if L.place = .polling ∧ L.returned ∧ events.all (s.canFire l) ∧
      ∀ c ∈ fired, fired.count c ≤ L.timers.count c then
    some (s.setLoop l { L with
      place := .handling
      todo := events.map Event.op
      timers := L.timers.diff fired })
  else none

/-- The next channel of `activeChannels`, or the next task of `tmpTasks`. -/
def next (s : Service) (l : ℕ) : Option Service :=
  let L := s.loops l
  match L.ops, L.todo with
  | [], op :: todo => some (s.setLoop l { L with ops := [op], todo := todo })
  | _, _ => none

/-- `tmpTasks.swap(pendingTasks)`. -/
def swap (s : Service) (l : ℕ) : Option Service :=
  let L := s.loops l
  if L.place = .handling ∧ L.returned then
    some (s.setLoop l { L with place := .tasking, todo := L.pendingTasks, pendingTasks := [] })
  else none

/-- The end of `doPendingTasks`. -/
def endTasks (s : Service) (l : ℕ) : Option Service :=
  let L := s.loops l
  if L.place = .tasking ∧ L.returned then
    some (s.setLoop l { L with place := .idle })
  else none

/-- The first of `ops` is done: `op`, which is no longer there. -/
def execOp (s : Service) (l : ℕ) (ch : Choice) (pick : ℕ) : Op → Option Service
  | .conn c op =>
    if (s.conns c).destroyed ∨ (s.conns c).loop ≠ l then none
    else
      match op with
      | .removeConnection => some (s.removeConnection l c)
      | .addTimer => some (s.setLoop l { s.loops l with timers := c :: (s.loops l).timers })
      | op => some (s.apply l c ((Outcome.start (s.conns c)).run ch op))
  | .removeConnectionInLoop id => if l = 0 then some (s.removeConnectionInLoop id) else none
  | .accept fd => if l = 0 ∧ s.server.phase = .alive then some (s.accept fd ch) else none
  | .establish k fd => if (s.connectors k).loop = l then some (s.establish k fd ch) else none
  | .stopInLoop k => if (s.connectors k).loop = l then some (s.stopInLoop k) else none
  | .removeAll => if l = 0 ∧ s.server.phase = .removing then s.removeAll ch pick else none
  | .quitWorker w => some (s.setLoop w { s.loops w with isQuit := true })
  | .join w => if (s.loops w).place = .exited then some s else none
  | .serverGone =>
    if l = 0 ∧ s.server.phase = .joining then
      some (s.setServer { s.server with phase := .gone })
    else none
  | .user => some (s.push l (ch.script.map .call))
  | .call k => s.doCall (some l) k

/-- The first of `ops` is taken off. -/
@[simps!]
def pop (s : Service) (l : ℕ) (rest : List Op) : Service :=
  s.setLoop l { s.loops l with ops := rest }

/-- The loop's thread goes on with what it is doing. -/
def exec (s : Service) (l : ℕ) (ch : Choice) (pick : ℕ) : Option Service :=
  match (s.loops l).ops with
  | [] => none
  | op :: rest => (s.pop l rest).execOp l ch pick op

/-! ### Steps -/

/-- Whether no holder, task or timer has a reference to the connection. -/
def unreferenced (s : Service) (c : ℕ) : Bool :=
  !s.held c && decide (c ∉ (s.loops (s.conns c).loop).timers) &&
    (s.loops (s.conns c).loop).all.all fun
      | .conn c' op => !(decide (c' = c) && op.owns)
      | _ => true

/-- `TcpConnection::~TcpConnection`, once the last reference is gone. -/
def destroy (s : Service) (c : ℕ) : Option Service :=
  let k := s.conns c
  if c < s.created ∧ k.destroyed = false ∧ s.unreferenced c then
    some ((s.setConn c { k with destroyed := true }).emit c (if k.fd ≥ 0 then [.close] else []))
  else none

/-- What can happen.  `user` is user code that the thread of a loop runs outside
of `loop()`, `foreign` a call from a thread without a loop. -/
inductive Input
  | testQuit (l : ℕ)
  | poll (l : ℕ) (events : List Event)
  | next (l : ℕ)
  | swap (l : ℕ)
  | endTasks (l : ℕ)
  | exec (l : ℕ) (ch : Choice) (pick : ℕ)
  | user (l : ℕ)
  | foreign (k : Call)
  | destroy (c : ℕ)
  deriving DecidableEq, Repr

/-- The next state, `none` where the input cannot occur. -/
def step (s : Service) : Input → Option Service
  | .testQuit l => s.testQuit l
  | .poll l events => s.poll l events
  | .next l => s.next l
  | .swap l => s.swap l
  | .endTasks l => s.endTasks l
  | .exec l ch pick => s.exec l ch pick
  | .user l =>
    if (s.loops l).place = .idle ∧ (s.loops l).returned then some (s.push l [.user]) else none
  | .foreign k => s.doCall none k
  | .destroy c => s.destroy c

/-! ### Plain pointers -/

/-- The connections whose objects the input reaches through a plain pointer: the
channels that `poll` returns, and the function that runs. -/
def reached (s : Service) : Input → List ℕ
  | .poll _ events => Event.channels events
  | .exec l _ _ =>
    match (s.loops l).ops with
    | .conn c _ :: _ => [c]
    | _ => []
  | _ => []

/-- Those of them whose objects are gone. -/
def freed (s : Service) (i : Input) : List ℕ :=
  (s.reached i).filter fun c => (s.conns c).destroyed

/-- The same, with these objects gone and the others there. -/
def withDestroyed (s : Service) (destroyed : ℕ → Bool) : Service :=
  { s with conns := fun c => { s.conns c with destroyed := destroyed c } }

/-- The next state where a plain pointer is followed whether its object is there or
not.  What is read of one that is gone, and what is written to it, is what its
memory held when it went. -/
def dispatch (s : Service) (i : Input) : Option Service :=
  if s.freed i = [] then s.step i
  else
    ((s.withDestroyed fun c => (s.conns c).destroyed && decide (c ∉ s.freed i)).step i).map fun t =>
      t.withDestroyed fun c => (t.conns c).destroyed || decide (c ∈ s.freed i)

end Service

end Net
end Sevent
