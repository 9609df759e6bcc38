/-
# The functions of `TcpConnection`, cut at their callbacks

`sevent/net/TcpConnection.cpp`, `sevent/net/Channel.cpp`,
`sevent/net/TcpHandler.h`.

`Sevent.Net.TcpConnection` follows the bytes of one connection.  Here a
connection is one of many, and what counts is who calls whom: `Conn` keeps of a
`TcpConnection` what its control flow reads, of `outputBuf` the number of its
bytes, of a handler its identity.

A handler is user code and may call the library again, so a function is cut
where it calls its handler.  `Outcome` is what a function has done up to there:
the connection, what it did in order (`acts`), the tasks it queued in its loop,
the calls the user code makes (`script`, chosen by the environment), and what
is left of the function when the user code returns (`ops`).  `ConnOp` names the
functions, and the four remainders: `channelRemove` of `removeItself`,
`queueTie` and `removeConnection` of `handleClose`, `closeFd` of
`forceCloseInLoop`.

`sendInLoopStr` and `sendInLoopBuf` do the same to the length of `outputBuf` as
`sendInLoop` and are not told apart.
-/

import Sevent.Net.TcpConnection

namespace Sevent
namespace Net
namespace Service

/-- The `TcpConnectionHolder` of a connection: the server, or one of the
connectors. -/
inductive Holder
  | server
  | connector (k : ℕ)
  deriving DecidableEq, Repr

/-- The functions of a `TcpHandler`. -/
inductive Callback
  | onConnection
  | onMessage
  | onClose
  | onWriteComplete
  | onHighWaterMark
  deriving DecidableEq, Repr

/-- What happens to one connection.  `callback` is the point where a function
of the handler is due, with the handler that gets it: none where `tcpHandler`
is null. -/
inductive Act
  | setTcpHandler (h : Option ℕ)
  | setState (st : State)
  | callback (cb : Callback) (h : Option ℕ)
  | read
  | write
  | shutdownWrite
  | getSocketError
  | close
  | removeConnection
  deriving DecidableEq, Repr

/-- The bits of `revents` that `Channel::handleEvent` tests. -/
structure Revents where
  POLLIN : Bool
  POLLPRI : Bool
  POLLOUT : Bool
  POLLERR : Bool
  POLLHUP : Bool
  POLLNVAL : Bool
  POLLRDHUP : Bool
  deriving DecidableEq, Repr

/-- The functions a loop runs for a connection, and the rests of functions. -/
inductive ConnOp
  | onConnection
  | handleEvent (revents : Revents)
  | handleClose
  | handleError
  | handleRead
  | handleWrite
  | removeItself
  | channelRemove
  | queueTie
  | removeConnection
  | tie
  | sendInLoop (len : ℕ)
  | sendOutputBufInLoop
  | shutdownInLoop
  | forceCloseInLoop
  | closeFd
  | addTimer
  | onWriteComplete (h : ℕ)
  | onHighWaterMark (h len : ℕ)
  deriving DecidableEq, Repr

namespace ConnOp

/-- Whether the function object keeps a `shared_ptr` of its connection, as every
task does; the rest is called through a plain pointer.  `closeFd` is the end of
a task, or of a `forceClose` whose caller has a reference. -/
def owns : ConnOp → Bool
  | .handleEvent _ | .handleClose | .handleError | .handleRead | .handleWrite => false
  | .channelRemove | .queueTie | .removeConnection => false
  | _ => true

/-- The four functions that `Channel::handleEvent` may call. -/
def isHandler : ConnOp → Bool
  | .handleClose | .handleError | .handleRead | .handleWrite => true
  | _ => false

/-- The handler that a queued notification is bound to. -/
def boundTo : ConnOp → Option ℕ
  | .onWriteComplete h => some h
  | .onHighWaterMark h _ => some h
  | _ => none

end ConnOp

/-- The public functions of `TcpConnection` that run or queue another one. -/
inductive Method
  | send (len : ℕ)
  | sendOutputBuf
  | shutdown
  | forceClose
  | forceCloseDelay
  deriving DecidableEq, Repr

namespace Method

/-- The function that is run or queued. -/
def op : Method → ConnOp
  | .send len => .sendInLoop len
  | .sendOutputBuf => .sendOutputBufInLoop
  | .shutdown => .shutdownInLoop
  | .forceClose => .forceCloseInLoop
  | .forceCloseDelay => .addTimer

/-- The states in which it is. -/
def allowed : Method → State → Bool
  | .forceClose, st => st == .connected || st == .disconnecting
  | .forceCloseDelay, st => st == .connected || st == .disconnecting
  | _, st => st == .connected

end Method

/-- What user code calls.  `fillOutputBuf` appends to `getOutputBuf()`. -/
inductive Call
  | method (m : Method) (c : ℕ)
  | setTcpHandler (c : ℕ) (h : Option ℕ)
  | setHighWaterMark (c bytes : ℕ)
  | fillOutputBuf (c len : ℕ)
  | serverSetTcpHandler (h : Option ℕ)
  | connectorSetTcpHandler (k : ℕ) (h : Option ℕ)
  | connectorStop (k : ℕ)
  | queueInLoop (l : ℕ)
  | quit (l : ℕ)
  | destroyServer
  deriving DecidableEq, Repr

/-- A `TcpConnection`.  `registered` says that its channel is in the poller of
its loop, `destroyed` that the object is gone. -/
structure Conn where
  id : ℕ
  loop : ℕ
  tcpHolder : Holder
  tcpHandler : Option ℕ
  fd : ℤ
  state : State
  events : Events
  registered : Bool
  outputBuf : ℕ
  hightWaterMark : ℕ
  destroyed : Bool
  deriving DecidableEq, Repr

/-- `TcpConnection::TcpConnection`, `setTcpHolder` and `setTcpHandler`. -/
def Conn.new (id loop : ℕ) (tcpHolder : Holder) (tcpHandler : Option ℕ) (fd : ℕ) : Conn where
  id := id
  loop := loop
  tcpHolder := tcpHolder
  tcpHandler := tcpHandler
  fd := fd
  state := .connecting
  events := .NoneEvent
  registered := false
  outputBuf := 0
  hightWaterMark := 64 * 1024 * 1024
  destroyed := false

/-- What the environment decides for one function: the calls of the user code
it runs, and the results of its `read` and its `write`. -/
structure Choice where
  script : List Call
  read : ReadResult
  write : WriteResult
  deriving DecidableEq, Repr

/-- `POLLIN`, alone. -/
def readable : Revents where
  POLLIN := true
  POLLPRI := false
  POLLOUT := false
  POLLERR := false
  POLLHUP := false
  POLLNVAL := false
  POLLRDHUP := false

/-- The calls `script`, and a socket that is neither readable nor writable. -/
def Choice.calls (script : List Call) : Choice where
  script := script
  read := .failed
  write := .accepted 0

/-- A connection, and what the function that runs has done with it so far. -/
structure Outcome where
  conn : Conn
  acts : List Act
  queued : List ConnOp
  script : List Call
  ops : List ConnOp
  deriving DecidableEq, Repr

namespace Outcome

/-- The start of a function. -/
@[simps]
def start (k : Conn) : Outcome where
  conn := k
  acts := []
  queued := []
  script := []
  ops := []

@[simps]
def emit (o : Outcome) (a : Act) : Outcome := { o with acts := o.acts ++ [a] }

/-- `TcpConnection::setTcpState`: any state, which is also noted. -/
@[simps]
def setTcpState (o : Outcome) (st : State) : Outcome :=
  { o with conn := { o.conn with state := st }, acts := o.acts ++ [.setState st] }

/-- `ownerLoop->queueInLoop(std::bind(.., shared_from_this()))`. -/
@[simps]
def queueInLoop (o : Outcome) (cb : ConnOp) : Outcome := { o with queued := o.queued ++ [cb] }

/-- `tcpHandler->cb(shared_from_this())`, if a handler is set. -/
@[simps]
def callback (o : Outcome) (cb : Callback) (script : List Call) : Outcome :=
  { o with
    acts := o.acts ++ [.callback cb o.conn.tcpHandler]
    script := if o.conn.tcpHandler.isSome then script else [] }

/-- What is left to do when the user code has returned. -/
@[simps]
def afterwards (o : Outcome) (op : ConnOp) : Outcome := { o with ops := o.ops ++ [op] }

/-- `Channel::updateEvent`: the poller adds the channel if it does not have it. -/
@[simps]
def updateEvent (o : Outcome) (events : Events) : Outcome :=
  { o with conn := { o.conn with events := events, registered := true } }

@[simps!]
def enableReadEvent (o : Outcome) : Outcome := o.updateEvent (o.conn.events.union .ReadEvent)

def enableWriteEvent (o : Outcome) : Outcome := o.updateEvent (o.conn.events.union .WriteEvent)

def disableWriteEvent (o : Outcome) : Outcome := o.updateEvent (o.conn.events.diff .WriteEvent)

/-! ### Sending -/

/-- `onWriteComplete` is queued for the handler that is set now. -/
def writeComplete (o : Outcome) : Outcome :=
  match o.conn.tcpHandler with
  | some h => o.queueInLoop (.onWriteComplete h)
  | none => o

/-- `onHighWaterMark` is queued when `outputBuf` passes the mark upwards. -/
def highWater (o : Outcome) (remain : ℕ) : Outcome :=
  let oldLen := o.conn.outputBuf
  if oldLen + remain ≥ o.conn.hightWaterMark ∧ oldLen < o.conn.hightWaterMark then
    match o.conn.tcpHandler with
    | some h => o.queueInLoop (.onHighWaterMark h (oldLen + remain))
    | none => o
  else o

/-- The direct write of the sending functions: `n` and `isErr` after it. -/
def writeDirect (o : Outcome) (len : ℕ) : WriteResult → Outcome × ℕ × Bool
  | .accepted n =>
    let n := min n len
    let o := o.emit .write
    (if len - n = 0 then o.writeComplete else o, n, false)
  | .failed e => (o.emit .write, 0, TcpConnection.dealErr e)

/-- `if (!Channel::isEnableWrite()) Channel::enableWriteEvent()`. -/
def wantWrite (o : Outcome) : Outcome := if o.conn.events.write then o else o.enableWriteEvent

def setOutputBuf (o : Outcome) (len : ℕ) : Outcome :=
  { o with conn := { o.conn with outputBuf := len } }

/-- `TcpConnection::sendInLoop`: a write at once where nothing is before it, and what
is left behind the rest in `outputBuf`, with the write interest on. -/
def sendInLoop (o : Outcome) (len : ℕ) (r : WriteResult) : Outcome :=
  if o.conn.state = .disconnected then o
  else
    let (o, n, isErr) :=
      if o.conn.events.write = false ∧ o.conn.outputBuf = 0 then o.writeDirect len r
      else (o, 0, false)
    let remain := len - n
    if isErr = false ∧ remain > 0 then
      ((o.highWater remain).setOutputBuf (o.conn.outputBuf + remain)).wantWrite
    else o

/-- `TcpConnection::sendOutputBufInLoop`: the same for what user code put in
`outputBuf` itself. -/
def sendOutputBufInLoop (o : Outcome) (r : WriteResult) : Outcome :=
  if o.conn.state = .disconnected then o
  else
    let remain := o.conn.outputBuf
    let (o, n, isErr) :=
      if o.conn.events.write = false ∧ remain > 0 then
        let (o, n, isErr) := o.writeDirect remain r
        (o.setOutputBuf (remain - n), n, isErr)
      else (o, 0, false)
    if isErr = false ∧ remain - n > 0 then o.wantWrite else o

/-! ### Opening and closing -/

/-- `TcpConnection::onConnection`: `connected`, read interest on, and the callback.
-/
@[simps!]
def onConnection (o : Outcome) (script : List Call) : Outcome :=
  (o.setTcpState .connected).enableReadEvent.callback .onConnection script

/-- `TcpConnection::shutdownInLoop`: `disconnecting`, and `SHUT_WR` at once unless
the write interest is on. -/
def shutdownInLoop (o : Outcome) : Outcome :=
  if o.conn.state = .connected then
    let o := o.setTcpState .disconnecting
    if o.conn.events.write then o else o.emit .shutdownWrite
  else o

/-- `TcpConnection::removeItself`: `disconnected`, the callback, and then the poller
forgets the channel. -/
@[simps!]
def removeItself (o : Outcome) (script : List Call) : Outcome :=
  ((o.setTcpState .disconnected).callback .onClose script).afterwards .channelRemove

/-- `TcpConnection::handleClose`: `removeItself`, and after it the task that keeps
the connection and the message to its holder. -/
def handleClose (o : Outcome) (script : List Call) : Outcome :=
  if o.conn.state = .disconnected then o
  else (o.removeItself script).afterwards .queueTie

/-- `Channel::remove`, the end of `removeItself`. -/
@[simps!]
def channelRemove (o : Outcome) : Outcome :=
  { o with conn := { o.conn with events := .NoneEvent, registered := false } }

/-- `handleClose` after `removeItself`: the task that keeps the connection, then
the call of the holder. -/
@[simps!]
def queueTie (o : Outcome) : Outcome := (o.queueInLoop .tie).afterwards .removeConnection

/-- `TcpConnection::forceCloseInLoop`: an open connection goes through `handleClose`,
and after it the descriptor is closed. -/
def forceCloseInLoop (o : Outcome) (script : List Call) : Outcome :=
  if o.conn.state = .connected ∨ o.conn.state = .disconnecting then
    ((o.setTcpState .disconnecting).handleClose script).afterwards .closeFd
  else o

/-- `sockets::close(fd); fd = -fd - 1`, the end of `forceCloseInLoop`. -/
@[simps!]
def closeFd (o : Outcome) : Outcome :=
  { o.emit .close with conn := { o.conn with fd := -o.conn.fd - 1 } }

/-! ### Events -/

/-- `TcpConnection::handleError`: the error of the socket is read, and written to the
log. -/
def handleError (o : Outcome) : Outcome :=
  if o.conn.state = .disconnected then o else o.emit .getSocketError

/-- `TcpConnection::handleRead`: what is read goes to `onMessage`; the end of the
stream closes, an error is only looked at. -/
def handleRead (o : Outcome) (r : ReadResult) (script : List Call) : Outcome :=
  if o.conn.state = .disconnected then o
  else
    match r with
    | .data _ _ => (o.emit .read).callback .onMessage script
    | .eof => (o.emit .read).handleClose script
    | .failed => (o.emit .read).handleError

/-- `handleWrite` once `outputBuf` is empty. -/
def drained (o : Outcome) : Outcome :=
  let o := o.disableWriteEvent.writeComplete
  if o.conn.state = .disconnecting then o.emit .shutdownWrite else o

/-- `TcpConnection::handleWrite`: `outputBuf` is written as far as the socket takes
it, and a failed write closes. -/
def handleWrite (o : Outcome) (r : WriteResult) (script : List Call) : Outcome :=
  if o.conn.state = .disconnected then o
  else if o.conn.events.write then
    match r with
    | .failed _ => (o.emit .write).handleClose script
    | .accepted n =>
      let n := min n o.conn.outputBuf
      let o := o.emit .write
      if n > 0 then
        let o := o.setOutputBuf (o.conn.outputBuf - n)
        if o.conn.outputBuf = 0 then o.drained else o
      else o
  else o

/-- `Channel::handleEvent`: the functions it calls one after the other. -/
def handleEvent (o : Outcome) (revents : Revents) : Outcome :=
  let o := if revents.POLLHUP && !revents.POLLIN then o.afterwards .handleClose else o
  let o := if revents.POLLERR || revents.POLLNVAL then o.afterwards .handleError else o
  let o :=
    if revents.POLLIN || revents.POLLPRI || revents.POLLRDHUP then o.afterwards .handleRead else o
  if revents.POLLOUT then o.afterwards .handleWrite else o

/-- A function that a loop runs for a connection.  `removeConnection` and
`addTimer` concern the holder and the timers of the loop. -/
def run (o : Outcome) (ch : Choice) : ConnOp → Outcome
  | .onConnection => o.onConnection ch.script
  | .handleEvent revents => o.handleEvent revents
  | .handleClose => o.handleClose ch.script
  | .handleError => o.handleError
  | .handleRead => o.handleRead ch.read ch.script
  | .handleWrite => o.handleWrite ch.write ch.script
  | .removeItself => o.removeItself ch.script
  | .channelRemove => o.channelRemove
  | .queueTie => o.queueTie
  | .removeConnection => o
  | .tie => o
  | .sendInLoop len => o.sendInLoop len ch.write
  | .sendOutputBufInLoop => o.sendOutputBufInLoop ch.write
  | .shutdownInLoop => o.shutdownInLoop
  | .forceCloseInLoop => o.forceCloseInLoop ch.script
  | .closeFd => o.closeFd
  | .addTimer => o
  | .onWriteComplete h =>
    { o.emit (.callback .onWriteComplete (some h)) with script := ch.script }
  | .onHighWaterMark h _ =>
    { o.emit (.callback .onHighWaterMark (some h)) with script := ch.script }

end Outcome

end Service
end Net
end Sevent
