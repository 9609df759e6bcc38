/-
# `Connector`: the attempts of a client

`sevent/net/Connector.cpp`, `sevent/net/TcpClient.cpp`.

A connector opens a socket, connects it, waits for it to become writable and
hands it to a new `TcpConnection`.  A failed attempt is repeated by a timer; an
attempt can be given up by `shutdown`, `forceClose`, `stop` or the timeout.

`Core` is what the functions do to descriptors, to the poller and to the
connection; `Connector` adds the flags, the delays and the timers that decide
which function runs.  A descriptor is the number of the `socket` call that
returned it, so that a closed one and its successor under the same `int` are
told apart; `none` is `-1`.

A `TcpConnection` is its state and its descriptor here.  Its channel is not in
`poller`, which holds the entries of the connector's own channel.  The user may
shut it down or close it at any time.  `TcpConnection::handleClose` runs the
user's `onClose` between the change of the state and
`Connector::removeConnection`: `closing` is the stack of these calls, and while
it is not empty only calls the user makes from `onClose` run in the loop
thread.

A call from another thread writes `started` and `isStop` and queues its task in
separate steps (`calling`), so the loop thread may run in between.  Timers run
at any step after they are due.  The log texts are left out.
-/

import Sevent.Net.ConnCalls
import Sevent.Net.EventLoop
import Sevent.Net.Poller.EpollPoller

namespace Sevent
namespace Net

namespace Connector

/-- A descriptor: the number of the `socket` call that returned it, or `-1`. -/
abbrev Fd := Option ℕ

/-- The address of the connector's channel. -/
def self : ChanId := 0

inductive State
  | disconnected
  | connecting
  | connected
  deriving DecidableEq, Repr

/-- The states of a `TcpConnection`, from `onConnection` on. -/
inductive TcpState
  | connected
  | disconnecting
  | disconnected
  deriving DecidableEq, Repr

/-- A `TcpConnection`: `fdClosed` once it has closed its descriptor. -/
structure Conn where
  fd : Fd
  state : TcpState
  fdClosed : Bool
  deriving DecidableEq, Repr

/-- A running `TcpConnection::handleClose`, called by `forceCloseInLoop` or
not. -/
structure Frame where
  id : ℕ
  force : Bool
  deriving DecidableEq, Repr

/-- What happened to descriptors and connections. -/
inductive Act
  /-- `createNBlockfd` returned the descriptor. -/
  | socket (s : ℕ)
  /-- The channel's descriptor was replaced; was it in the poller? -/
  | replace (old : Fd) (registered : Bool)
  /-- The connector closed the descriptor. -/
  | close (fd : Fd)
  /-- A `TcpConnection` was made for the descriptor. -/
  | handOver (fd : Fd)
  /-- A `TcpConnection` closed its descriptor. -/
  | connClose (fd : Fd)
  /-- The connector gave up its reference; was the connection still alive? -/
  | drop (id : ℕ) (alive : Bool)
  /-- `removeConnection(id)`, the connection held at that time, and whether the
  call changed anything. -/
  | removed (id : ℕ) (held : Option ℕ) (changed : Bool)
  deriving DecidableEq, Repr

/-- The part of the connector that owns descriptors, with the poller and the
connections. -/
structure Core where
  state : State
  connection : Option ℕ
  nextId : ℕ
  channel : Channel Fd
  poller : EpollPoller Fd
  conns : ℕ → Option Conn
  closing : List Frame
  sockets : ℕ
  log : List Act

namespace Core

def setState (c : Core) (s : State) : Core := { c with state := s }

/-- `sockets::createNBlockfd`, which may fail. -/
def createNBlockfd (c : Core) (sock : Bool) : Fd × Core :=
  if sock then
    (some c.sockets, { c with sockets := c.sockets + 1, log := c.log ++ [.socket c.sockets] })
  else (none, c)

/-- `Channel::setFdUnSafe`: the channel gets another descriptor, without a word to
the poller.  The log says whether the poller knew the old one. -/
def setFdUnSafe (c : Core) (fd : Fd) : Core :=
  { c with
    channel := { c.channel with fd := fd }
    log := c.log ++ [.replace c.channel.fd (c.poller.contains c.channel.fd)] }

/-- `sockets::close`, called by the connector. -/
def close (c : Core) (fd : Fd) : Core :=
  { c with poller := c.poller.closeFd fd, log := c.log ++ [.close fd] }

/-- `Channel::enableWriteEvent`: the poller is asked to wait until the socket is
writable, which is how a connect ends. -/
def enableWriteEvent (c : Core) : Core :=
  let r := c.poller.updateChannel self
    { c.channel with events := c.channel.events.union .WriteEvent }
  { c with poller := r.1, channel := r.2 }

/-- `Channel::remove`: the poller forgets the channel, which keeps its descriptor. -/
def remove (c : Core) : Core :=
  let r := c.poller.remove self c.channel
  { c with poller := r.1, channel := r.2 }

/-- `Connector::doconnecting`: the attempt is in progress, and its end will be an
event. -/
def doconnecting (c : Core) : Core := (c.setState .connecting).enableWriteEvent

/-- `Connector::closeOnConnecting`: an attempt in progress is given up with its
socket. -/
def closeOnConnecting (c : Core) : Core :=
  if c.state = .connecting then
    let c := (c.setState .disconnected).remove
    c.close c.channel.fd
  else c

/-- Is the `TcpConnection` not disconnected yet? -/
def alive (c : Core) (id : ℕ) : Bool :=
  match c.conns id with
  | some k => k.state ≠ .disconnected
  | none => false

/-- `connection` loses its value. -/
def dropConnection (c : Core) : Core :=
  match c.connection with
  | some id => { c with connection := none, log := c.log ++ [.drop id (c.alive id)] }
  | none => c

/-- `Connector::onConnection`: the assignment releases the old value of
`connection`; `TcpConnection::onConnection` sets the state. -/
def onConnection (c : Core) : Core :=
  let c := (c.setState .connected).dropConnection
  let k : Conn := { fd := c.channel.fd, state := .connected, fdClosed := false }
  { c with
    connection := some c.nextId, nextId := c.nextId + 1
    conns := Function.update c.conns c.nextId (some k)
    log := c.log ++ [.handOver c.channel.fd] }

/-- `Connector::removeConnection`: the connection is dropped and the connector
`disconnected`, whatever `id` says.  The log keeps what was held. -/
def removeConnection (c : Core) (id : ℕ) : Core :=
  let held := c.connection
  let changed := c.connection.isSome || c.state ≠ .disconnected
  let c := c.dropConnection.setState .disconnected
  { c with log := c.log ++ [.removed id held changed] }

/-- `TcpConnection::shutdownInLoop`: an open connection begins to disconnect. -/
def connShutdown (c : Core) (id : ℕ) : Core :=
  match c.conns id with
  | some k =>
    if k.state = .connected then
      { c with conns := Function.update c.conns id (some { k with state := .disconnecting }) }
    else c
  | none => c

/-- `TcpConnection::handleClose`, and `forceCloseInLoop` with `force`, up to the
call of `onClose`. -/
def connClose (c : Core) (id : ℕ) (force : Bool) : Core :=
  match c.conns id with
  | some k =>
    if k.state = .disconnected then c
    else
      { c with
        conns := Function.update c.conns id (some { k with state := .disconnected })
        closing := { id := id, force := force } :: c.closing }
  | none => c

/-- A `TcpConnection` closes its descriptor. -/
def connCloseFd (c : Core) (id : ℕ) : Core :=
  match c.conns id with
  | some k =>
    { c with
      conns := Function.update c.conns id (some { k with fdClosed := true })
      poller := c.poller.closeFd k.fd
      log := c.log ++ [.connClose k.fd] }
  | none => c

/-- `onClose` returns: the rest of `handleClose`, and of `forceCloseInLoop`. -/
def connCloseEnd (c : Core) : Option Core :=
  match c.closing with
  | [] => none
  | f :: rest =>
    let c := ({ c with closing := rest } : Core).removeConnection f.id
    some (if f.force then c.connCloseFd f.id else c)

/-- `TcpConnection::~TcpConnection`, when neither the connector nor a running
`handleClose` refers to it.  Its assertion: the state is `disconnected`. -/
def connDestroy (c : Core) (id : ℕ) : Option Core :=
  match c.conns id with
  | some k =>
    if k.state = .disconnected ∧ c.connection ≠ some id ∧ (∀ f ∈ c.closing, f.id ≠ id) ∧
        k.fdClosed = false then
      some (c.connCloseFd id)
    else none
  | none => none

end Core

/-- The results of `connect` that `doconnect` distinguishes. -/
inductive Errno
  | zero
  | EINPROGRESS
  | EINTR
  | EISCONN
  | EAGAIN
  | EADDRINUSE
  | EADDRNOTAVAIL
  | ECONNREFUSED
  | ENETUNREACH
  | EACCES
  | EPERM
  | EAFNOSUPPORT
  | EALREADY
  | EBADF
  | EFAULT
  | ENOTSOCK
  | other (n : ℕ)
  deriving DecidableEq, Repr

/-- What the system calls of one attempt return: whether there is a socket, and
the result of `connect`. -/
structure Attempt where
  sock : Bool
  err : Errno
  deriving DecidableEq, Repr

/-- The tasks that go through the task queue. -/
inductive Task
  | connect
  | stopInLoop
  | shutdownInLoop
  | forceCloseInLoop
  deriving DecidableEq, Repr

/-- The callbacks that go through `addTimer`. -/
inductive TimerTask
  | doconnect
  | doTimeout
  deriving DecidableEq, Repr

/-- A call in another thread that has written `started` and has still to write
`isStop`, or only to queue its task. -/
inductive Calling
  | stop (task : Task)
  | queue (task : Task)
  deriving DecidableEq, Repr

end Connector

/-- A `TcpClient` with its `Connector`, the timers of the connector and the
queue of its loop.  `timeouts` counts the calls of `timeoutCallBacK`. -/
structure Connector extends Connector.Core where
  started : Bool
  isStop : Bool
  retryMs : ℤ
  retryCount : ℤ
  retryCur : ℤ
  timeout : ℤ
  timeoutCallBacK : Bool
  timeouts : ℕ
  clock : ℤ
  timers : List (ℤ × Connector.TimerTask)
  calling : List Connector.Calling
  loop : TaskQueue Connector.Task

namespace Connector

def maxRetryDelayMs : ℤ := 30 * 1000
def minRetryDelayMs : ℤ := 500

/-- `TcpClient::TcpClient`, `Connector::Connector`. -/
def new : Connector where
  state := .disconnected
  connection := none
  nextId := 1
  channel := .new none
  poller := .empty
  conns := fun _ => none
  closing := []
  sockets := 0
  log := []
  started := false
  isStop := true
  retryMs := minRetryDelayMs
  retryCount := -1
  retryCur := -1
  timeout := -1
  timeoutCallBacK := false
  timeouts := 0
  clock := 0
  timers := []
  calling := []
  loop := .empty

/-- A function of the core, in the connector. -/
def onCore (w : Connector) (f : Core → Core) : Connector := { w with toCore := f w.toCore }

/-- `EventLoop::addTimer(millisecond, cb)`. -/
def addTimer (w : Connector) (millisecond : ℤ) (cb : TimerTask) : Connector :=
  { w with timers := w.timers ++ [(w.clock + millisecond, cb)] }

/-- `Connector::retry`: the socket is closed, and where retries are left a timer will
connect again after `retryMs`, which is doubled up to its maximum. -/
def retry (w : Connector) : Connector :=
  let w := w.onCore fun c => (c.close c.channel.fd).setState .disconnected
  if !w.isStop && (w.retryCur < 0 || w.retryCur > 0) then
    let w := if w.retryCur > 0 then { w with retryCur := w.retryCur - 1 } else w
    let w := w.addTimer w.retryMs .doconnect
    { w with retryMs := if w.retryMs * 2 < maxRetryDelayMs then w.retryMs * 2 else maxRetryDelayMs }
  else w

/-- The `switch` of `Connector::doconnect`. -/
def onConnect (w : Connector) (sockfd : Fd) (err : Errno) : Connector :=
  match err with
  | .zero | .EINPROGRESS | .EINTR | .EISCONN => w.onCore Core.doconnecting
  | .EAGAIN | .EADDRINUSE | .EADDRNOTAVAIL | .ECONNREFUSED | .ENETUNREACH => w.retry
  | .EACCES | .EPERM | .EAFNOSUPPORT | .EALREADY | .EBADF | .EFAULT | .ENOTSOCK =>
    w.onCore fun c => (c.close sockfd).setState .disconnected
  | .other _ => w.onCore fun c => (c.close sockfd).setState .disconnected

/-- `Connector::doconnect`.  `connect(-1, …)` fails with `EBADF`. -/
def doconnect (w : Connector) (a : Attempt) : Connector :=
  if !w.isStop then
    let sockfd := (w.createNBlockfd a.sock).1
    let w := w.onCore fun c => (c.createNBlockfd a.sock).2.setFdUnSafe sockfd
    w.onConnect sockfd (if a.sock then a.err else .EBADF)
  else w

/-- `Connector::connect`: the attempts begin anew, with all retries left, and with a
timer for the time-out when one is set. -/
def connect (w : Connector) (a : Attempt) : Connector :=
  let w := { w with isStop := false, retryCur := w.retryCount }
  let w := w.doconnect a
  if w.timeout > 0 then w.addTimer w.timeout .doTimeout else w

/-- `Connector::doTimeout`: without a connection the connector stops, gives up an
attempt in progress, and calls back. -/
def doTimeout (w : Connector) : Connector :=
  if !w.isStop && w.state ≠ .connected then
    let w := { w with isStop := true }
    let w := w.onCore fun c =>
      if c.state = .connecting then
        let c := c.remove
        c.close c.channel.fd
      else c
    let w := w.onCore fun c => c.setState .disconnected
    if w.timeoutCallBacK then { w with timeouts := w.timeouts + 1 } else w
  else w

/-- `Connector::stopInLoop`: no more attempts, and the connection is closed. -/
def stopInLoop (w : Connector) : Connector :=
  ({ w with isStop := true } : Connector).onCore fun c =>
    let c := c.closeOnConnecting
    match c.state, c.connection with
    | .connected, some id => c.connClose id false
    | _, _ => c

/-- `Connector::shutdownInLoop`: no more attempts, and the connection is shut down
for writing. -/
def shutdownInLoop (w : Connector) : Connector :=
  ({ w with isStop := true } : Connector).onCore fun c =>
    let c := c.closeOnConnecting
    match c.state, c.connection with
    | .connected, some id => c.connShutdown id
    | _, _ => c

/-- `Connector::forceCloseInLoop`: no more attempts, and the connection is closed at
once. -/
def forceCloseInLoop (w : Connector) : Connector :=
  ({ w with isStop := true } : Connector).onCore fun c =>
    let c := c.closeOnConnecting
    match c.state, c.connection with
    | .connected, some id => c.connClose id true
    | _, _ => c

/-- `Connector::handleWrite`, with what `getSocketError` and `isSelfConnect`
return. -/
def handleWrite (w : Connector) (soError : ℕ) (selfConnect : Bool) : Connector :=
  if w.state = .connecting then
    let w := w.onCore Core.remove
    if soError ≠ 0 then w.retry
    else if selfConnect then w.retry
    else if !w.isStop then w.onCore Core.onConnection
    else w.onCore fun c => (c.close c.channel.fd).setState .disconnected
  else w

/-- `Connector::handleError`: an attempt in progress has failed, and is retried. -/
def handleError (w : Connector) : Connector :=
  if w.state = .connecting then (w.onCore Core.remove).retry else w

/-- `Channel::handleEvent` for the channel of a connector: its `handleRead` and
`handleClose` are those of `Channel`, which do nothing. -/
def handleEvent (w : Connector) (revents : Service.Revents) (soError : ℕ)
    (selfConnect : Bool) : Connector :=
  let w := if revents.POLLERR || revents.POLLNVAL then w.handleError else w
  if revents.POLLOUT then w.handleWrite soError selfConnect else w

/-- A task of the loop. -/
def runTask (w : Connector) (a : Attempt) : Task → Connector
  | .connect => w.connect a
  | .stopInLoop => w.stopInLoop
  | .shutdownInLoop => w.shutdownInLoop
  | .forceCloseInLoop => w.forceCloseInLoop

/-- A timer callback. -/
def runTimer (w : Connector) (a : Attempt) : TimerTask → Connector
  | .doconnect => w.doconnect a
  | .doTimeout => w.doTimeout

/-! ### Steps -/

/-- What can happen.  `foreign` says that the call comes from another thread
than the loop's; an `Attempt` is used by the steps that reach `doconnect`. -/
inductive Input
  /-- `TcpClient::connect`. -/
  | connect (foreign : Bool) (a : Attempt)
  /-- `TcpClient::shutdown`. -/
  | shutdown (foreign : Bool)
  /-- `TcpClient::forceClose`. -/
  | forceClose (foreign : Bool)
  /-- `TcpClient::~TcpClient`. -/
  | stop (foreign : Bool)
  | setRetryCount (count : ℤ)
  | setTimeout (millisecond : ℤ) (cb : Bool)
  /-- The next write of a call in another thread. -/
  | advance (k : ℕ)
  | swapTasks
  | nextTask (a : Attempt)
  | endTasks
  /-- Time passes. -/
  | tick (millisecond : ℕ)
  /-- A timer that is due runs. -/
  | fire (k : ℕ) (a : Attempt)
  | handleWrite (soError : ℕ) (selfConnect : Bool)
  | handleError
  /-- `TcpConnection::shutdown`. -/
  | connShutdown (id : ℕ)
  /-- An event or a call that leads to `TcpConnection::handleClose`. -/
  | connClose (id : ℕ) (force : Bool)
  /-- `onClose` returns. -/
  | connCloseEnd
  /-- The last reference to the connection is gone. -/
  | connDestroy (id : ℕ)
  deriving DecidableEq, Repr

/-- A call of `TcpClient` that ends in `Connector::shutdown`, `forceClose` or
`stop`, made in the loop thread or in another one. -/
def stopCall (w : Connector) (foreign : Bool) (task : Task) : Connector :=
  if foreign then { w with calling := w.calling ++ [.stop task] }
  else ({ w with isStop := true } : Connector).runTask ⟨false, .zero⟩ task

/-- The next write of the call at position `k` of `calling`. -/
def advance (w : Connector) (k : ℕ) : Option Connector :=
  match w.calling[k]? with
  | some (.stop task) => some { w with isStop := true, calling := w.calling.set k (.queue task) }
  | some (.queue task) =>
    some { w with calling := w.calling.eraseIdx k, loop := w.loop.queueInLoop task }
  | none => none

/-- The loop takes a timer that is due. -/
def takeTimer (w : Connector) (k : ℕ) : Option (TimerTask × Connector) :=
  match w.timers[k]? with
  | some (due, cb) =>
    if due ≤ w.clock then some (cb, { w with timers := w.timers.eraseIdx k }) else none
  | none => none

/-- One step.  The loop starts nothing new while an `onClose` is running. -/
def step (w : Connector) : Input → Option Connector
  | .connect foreign a =>
    if w.started then some w
    else if foreign then
      some { w with started := true, calling := w.calling ++ [.queue .connect] }
    else some (({ w with started := true } : Connector).connect a)
  | .shutdown foreign =>
    some (({ w with started := false } : Connector).stopCall foreign .shutdownInLoop)
  | .forceClose foreign =>
    some (({ w with started := false } : Connector).stopCall foreign .forceCloseInLoop)
  | .stop foreign => some (w.stopCall foreign .stopInLoop)
  | .setRetryCount count => some { w with retryCount := count }
  | .setTimeout millisecond cb => some { w with timeout := millisecond, timeoutCallBacK := cb }
  | .advance k => w.advance k
  | .swapTasks =>
    if w.closing = [] then w.loop.swapTasks.map fun q => { w with loop := q } else none
  | .nextTask a =>
    if w.closing = [] then
      w.loop.nextTask.map fun r => ({ w with loop := r.2 } : Connector).runTask a r.1
    else none
  | .endTasks =>
    if w.closing = [] then w.loop.endTasks.map fun q => { w with loop := q } else none
  | .tick millisecond => some { w with clock := w.clock + millisecond }
  | .fire k a =>
    if w.closing = [] then (w.takeTimer k).map fun r => r.2.runTimer a r.1 else none
  | .handleWrite soError selfConnect =>
    if w.closing = [] then some (w.handleWrite soError selfConnect) else none
  | .handleError => if w.closing = [] then some w.handleError else none
  | .connShutdown id => some (w.onCore fun c => c.connShutdown id)
  | .connClose id force => some (w.onCore fun c => c.connClose id force)
  | .connCloseEnd => w.toCore.connCloseEnd.map fun c => { w with toCore := c }
  | .connDestroy id => (w.toCore.connDestroy id).map fun c => { w with toCore := c }

end Connector

end Net
end Sevent
