/-
# `TcpConnection`: one connection, its loop and the threads that use it

`sevent/net/TcpConnection.cpp`.

A connection belongs to one event loop.  Its public methods may be called from
any thread: in the loop's thread they act at once, from another thread they
queue a task.  `step` is everything that can happen to a connection: its holder
establishes it or tears it down, the poller delivers an event, a method is
called in the loop's thread (by a handler or by any other code there) or from
another thread, the loop runs a task, a delayed `forceClose` fires, and other
channels of the loop use the poller.

What the code asks the kernel is an input of the step: how much of a `write` is
accepted or with which `errno` it fails, what a `read` returns.  An event can be
delivered in any state, since the list of active channels is filled before the
first of them is handled.  A call from another thread reads `state` without a
lock, so it may act on an earlier state (`seen`); the states only move forward.

The handler's `onClose` runs in the middle of `removeItself`, between the
change of state and `Channel::remove`, so the calls it makes on the connection
are an input too.  The other callbacks are the last thing their caller does and
what they call are further steps.

`Buffer` is a byte queue here.  `log` records what a run has done; the code does
not read it, nor the numbers in it: `serial` counts the accepted `send` calls,
and a `shutdown` task carries the count at its call.
-/

import Sevent.Net.EventLoop
import Sevent.Net.Poller.EpollPoller
import Mathlib.Tactic.Simps.Basic

namespace Sevent
namespace Net

/-- `TcpConnection::State`, in the order of the source. -/
inductive State
  | connecting
  | connected
  | disconnecting
  | disconnected
  deriving DecidableEq, Repr

/-- The place of a state in the order in which a connection passes them. -/
def State.rank : State → ℕ
  | .connecting => 0
  | .connected => 1
  | .disconnecting => 2
  | .disconnected => 3

/-- The values of `errno` after a failed write that the code tells apart. -/
inductive Errno
  | EAGAIN
  | EPIPE
  | ECONNRESET
  | other (n : ℕ)
  deriving DecidableEq, Repr

/-- What `sockets::write` returns: how many bytes the kernel takes at most, or
`-1`. -/
inductive WriteResult
  | accepted (n : ℕ)
  | failed (e : Errno)
  deriving DecidableEq, Repr

/-- What `Buffer::readFd` returns: bytes, `0` or `-1`. -/
inductive ReadResult
  | data (byte : UInt8) (bytes : List UInt8)
  | eof
  | failed
  deriving DecidableEq, Repr

/-- Which thread made an accepted `send`, `none` for the loop's own, and how
many were accepted before it. -/
structure Tag where
  thread : Option ℕ
  serial : ℕ
  deriving DecidableEq, Repr

namespace TcpConnection

/-- The tasks that are queued for a connection. -/
inductive Task
  | sendInLoopStr (tag : Tag) (data : List UInt8)
  | sendInLoopBuf (tag : Tag) (buf : List UInt8)
  | sendOutputBufInLoop
  | shutdownInLoop (mark : ℕ)
  | forceCloseInLoop
  | enableReadInLoop
  | disableReadInLoop
  | enableWriteInLoop
  | disableWriteInLoop
  | removeItself
  | onWriteComplete
  | onHighWaterMark (len : ℕ)
  | tie
  deriving DecidableEq, Repr

/-- What a run does, in order. -/
inductive Act
  | send (tag : Tag) (data : List UInt8)
  | execute (tag : Tag) (data : List UInt8)
  | write (data : List UInt8)
  | writeErr (e : Errno)
  | shutdown (mark : ℕ)
  | shutdownWrite (pending : List UInt8)
  | close (fd : ℤ)
  | onConnection
  | onMessage
  | onClose
  | onWriteComplete
  | onHighWaterMark (len : ℕ)
  | removeConnection (id : ℤ)
  deriving DecidableEq, Repr

/-- The public methods that change a connection.  `sendBuffer` is `send` of a
`Buffer *` or `Buffer &`, `sendBufferMove` of a `Buffer &&`. -/
inductive Call
  | send (data : List UInt8)
  | sendBuffer (buf : List UInt8)
  | sendBufferMove (buf : List UInt8)
  | sendOutputBuf
  | shutdown
  | forceClose
  | forceCloseDelay
  | enableRead
  | disableRead
  | enableWrite
  | disableWrite
  | setHighWaterMark (bytes : ℕ)
  | setTcpHandler (handler : Bool)
  deriving DecidableEq, Repr

end TcpConnection

open TcpConnection in
/-- A connection, with the loop it belongs to.  `tcpHandler` says whether a
handler is set, `delayed` how many delayed `forceClose` timers are pending,
`accepted` how many calls of `send` found the connection connected. -/
structure TcpConnection where
  self : ChanId
  channel : Channel ℤ
  isRead : Bool
  isWrite : Bool
  id : ℤ
  state : State
  tcpHandler : Bool
  inputBuf : List UInt8
  outputBuf : List UInt8
  hightWaterMark : ℕ
  poller : EpollPoller ℤ
  loop : TaskQueue Task
  delayed : ℕ
  accepted : ℕ
  log : List Act

namespace TcpConnection

/-- A connection that its holder has just built, in a loop without other
channels; the descriptor is open. -/
def init (self : ChanId) (sockfd : ℕ) (connId : ℤ) (handler : Bool) : TcpConnection where
  self := self
  channel := Channel.new sockfd
  isRead := true
  isWrite := false
  id := connId
  state := .connecting
  tcpHandler := handler
  inputBuf := []
  outputBuf := []
  hightWaterMark := 64 * 1024 * 1024
  poller := .empty
  loop := .empty
  delayed := 0
  accepted := 0
  log := []

/-- The connection does something that others see. -/
@[simps]
def emit (w : TcpConnection) (a : Act) : TcpConnection := { w with log := w.log ++ [a] }

/-- `EventLoop::queueInLoop`: the task runs behind those that wait already. -/
@[simps]
def queueInLoop (w : TcpConnection) (cb : Task) : TcpConnection :=
  { w with loop := w.loop.queueInLoop cb }

/-! ### The channel -/

/-- `Channel::updateEvent`, after the mask has changed. -/
@[simps]
def updateEvent (w : TcpConnection) (events : Events) : TcpConnection :=
  let r := w.poller.updateChannel w.self { w.channel with events := events }
  { w with poller := r.1, channel := r.2 }

/-- `Channel::enableReadEvent`: the poller hears of the new events at once. -/
def enableReadEvent (w : TcpConnection) : TcpConnection :=
  w.updateEvent (w.channel.events.union .ReadEvent)

/-- `Channel::enableWriteEvent`. -/
def enableWriteEvent (w : TcpConnection) : TcpConnection :=
  w.updateEvent (w.channel.events.union .WriteEvent)

/-- `Channel::disableReadEvent`. -/
def disableReadEvent (w : TcpConnection) : TcpConnection :=
  w.updateEvent (w.channel.events.diff .ReadEvent)

/-- `Channel::disableWriteEvent`. -/
def disableWriteEvent (w : TcpConnection) : TcpConnection :=
  w.updateEvent (w.channel.events.diff .WriteEvent)

/-- `Channel::remove`: the poller forgets the channel. -/
@[simps]
def remove (w : TcpConnection) : TcpConnection :=
  let r := w.poller.remove w.self w.channel
  { w with poller := r.1, channel := r.2 }

/-! ### Sending -/

/-- `TcpConnection::dealErr`: is the connection broken? -/
def dealErr : Errno → Bool
  | .EPIPE => true
  | .ECONNRESET => true
  | _ => false

/-- `onWriteComplete` is queued when a handler is set. -/
def writeComplete (w : TcpConnection) : TcpConnection :=
  if w.tcpHandler then w.queueInLoop .onWriteComplete else w

/-- The direct write of the three sending functions: the connection, `n` and
`isErr` after it. -/
def writeDirect (w : TcpConnection) (data : List UInt8) :
    WriteResult → TcpConnection × ℕ × Bool
  | .accepted n =>
    let n := min n data.length
    let w := w.emit (.write (data.take n))
    (if data.length - n = 0 then w.writeComplete else w, n, false)
  | .failed e => (w.emit (.writeErr e), 0, dealErr e)

/-- `onHighWaterMark` is queued when the buffer passes the mark. -/
def highWater (w : TcpConnection) (remain : ℕ) : TcpConnection :=
  let oldLen := w.outputBuf.length
  if oldLen + remain ≥ w.hightWaterMark ∧ oldLen < w.hightWaterMark ∧ w.tcpHandler then
    w.queueInLoop (.onHighWaterMark (oldLen + remain))
  else w

/-- The end of the sending functions: write interest is on. -/
def wantWrite (w : TcpConnection) : TcpConnection :=
  if w.channel.isEnableWrite then w else w.enableWriteEvent

/-- `TcpConnection::sendInLoop`: where nothing is before it the data is written at
once, and what is left goes behind the rest in `outputBuf`, with the write interest
on. -/
def sendInLoop (w : TcpConnection) (tag : Tag) (data : List UInt8) (r : WriteResult) :
    TcpConnection :=
  if w.state = .disconnected then w
  else
    let w := w.emit (.execute tag data)
    let (w, n, isErr) :=
      if w.channel.isEnableWrite = false ∧ w.outputBuf.length = 0 then w.writeDirect data r
      else (w, 0, false)
    let remain := data.length - n
    if isErr = false ∧ remain > 0 then
      { w.highWater remain with outputBuf := w.outputBuf ++ data.drop n }.wantWrite
    else w

/-- `TcpConnection::sendInLoopBuf`, with what is left in the caller's buffer:
the rest of the buffer is appended, or becomes `outputBuf` by a swap when that
is empty. -/
def sendInLoopBuf (w : TcpConnection) (tag : Tag) (buf : List UInt8) (r : WriteResult) :
    TcpConnection × List UInt8 :=
  if w.state = .disconnected then (w, buf)
  else
    let len := buf.length
    let w := w.emit (.execute tag buf)
    let (w, n, isErr) :=
      if w.channel.isEnableWrite = false ∧ w.outputBuf.length = 0 then w.writeDirect buf r
      else (w, 0, false)
    let buf := buf.drop n
    let remain := len - n
    if isErr = false ∧ remain > 0 then
      if w.outputBuf.length = 0 then
        ({ w.highWater remain with outputBuf := buf }.wantWrite, w.outputBuf)
      else ({ w.highWater remain with outputBuf := w.outputBuf ++ buf.take remain }.wantWrite, [])
    else (w, buf)

/-- `TcpConnection::sendOutputBufInLoop`: the same for what user code has put in
`outputBuf` itself. -/
def sendOutputBufInLoop (w : TcpConnection) (r : WriteResult) : TcpConnection :=
  if w.state = .disconnected then w
  else
    let remain := w.outputBuf.length
    let (w, n, isErr) :=
      if w.channel.isEnableWrite = false ∧ remain > 0 then
        let (w', n, isErr) := w.writeDirect w.outputBuf r
        ({ w' with outputBuf := w'.outputBuf.drop n }, n, isErr)
      else (w, 0, false)
    if isErr = false ∧ remain - n > 0 then w.wantWrite else w

/-! ### Shutting down and closing -/

/-- `TcpConnection::shutdownInLoop`; `mark` is the number of accepted sends at
the call of `shutdown`. -/
def shutdownInLoop (w : TcpConnection) (mark : ℕ) : TcpConnection :=
  if w.state = .connected then
    let w := { w with state := .disconnecting }.emit (.shutdown mark)
    if w.channel.isEnableWrite then w else w.emit (.shutdownWrite w.outputBuf)
  else w

/-- `TcpConnection::removeItself`; `onClose` is what the handler's callback does
to the connection. -/
def removeItself (w : TcpConnection) (onClose : TcpConnection → TcpConnection) : TcpConnection :=
  let w := { w with state := .disconnected }
  let w := if w.tcpHandler then onClose (w.emit .onClose) else w
  w.remove

/-- `TcpConnection::handleClose`: once only, `removeItself`, the task that keeps the
connection for its events, and the message to its holder. -/
def handleClose (w : TcpConnection) (onClose : TcpConnection → TcpConnection) : TcpConnection :=
  if w.state = .disconnected then w
  else
    let w := w.removeItself onClose
    let w := w.queueInLoop .tie
    w.emit (.removeConnection w.id)

/-- `TcpConnection::forceCloseInLoop`; the kernel drops a closed descriptor from
the interest set. -/
def forceCloseInLoop (w : TcpConnection) (onClose : TcpConnection → TcpConnection) :
    TcpConnection :=
  if w.state = .connected ∨ w.state = .disconnecting then
    let w := { w with state := .disconnecting }.handleClose onClose
    let fd := w.channel.fd
    let w := { w with poller := w.poller.closeFd fd }.emit (.close fd)
    { w with channel := { w.channel with fd := -fd - 1 } }
  else w

/-! ### Read and write interest -/

/-- `enableReadInLoop`: nothing is done where the flag and the channel are both
on. -/
def enableReadInLoop (w : TcpConnection) : TcpConnection :=
  if w.channel.fd < 0 then w
  else if ¬ w.isRead ∨ ¬ w.channel.isEnableRead then
    { w.enableReadEvent with isRead := true }
  else w

/-- `disableReadInLoop`: nothing is done where both are off. -/
def disableReadInLoop (w : TcpConnection) : TcpConnection :=
  if w.channel.fd < 0 then w
  else if w.isRead ∨ w.channel.isEnableRead then
    { w.disableReadEvent with isRead := false }
  else w

/-- `enableWriteInLoop`: nothing is done where the flag and the channel are both
on. -/
def enableWriteInLoop (w : TcpConnection) : TcpConnection :=
  if w.channel.fd < 0 then w
  else if ¬ w.isWrite ∨ ¬ w.channel.isEnableWrite then
    { w.enableWriteEvent with isWrite := true }
  else w

/-- `disableWriteInLoop`: nothing is done where both are off. -/
def disableWriteInLoop (w : TcpConnection) : TcpConnection :=
  if w.channel.fd < 0 then w
  else if w.isWrite ∨ w.channel.isEnableWrite then
    { w.disableWriteEvent with isWrite := false }
  else w

/-! ### The public methods -/

/-- An accepted `send` is logged and numbered. -/
def accept (w : TcpConnection) (thread : Option ℕ) (data : List UInt8) : TcpConnection × Tag :=
  let tag := { thread := thread, serial := w.accepted }
  ({ w with accepted := w.accepted + 1 }.emit (.send tag data), tag)

/-- A public method called in the loop's thread. -/
def callInLoop (w : TcpConnection) (r : WriteResult) (onClose : TcpConnection → TcpConnection) :
    Call → TcpConnection
  | .send data =>
    if w.state = .connected then
      let (w, tag) := w.accept none data
      w.sendInLoop tag data r
    else w
  | .sendBuffer buf | .sendBufferMove buf =>
    if w.state = .connected then
      let (w, tag) := w.accept none buf
      (w.sendInLoopBuf tag buf r).1
    else w
  | .sendOutputBuf => if w.state = .connected then w.sendOutputBufInLoop r else w
  | .shutdown => if w.state = .connected then w.shutdownInLoop w.accepted else w
  | .forceClose =>
    if w.state = .connected ∨ w.state = .disconnecting then w.forceCloseInLoop onClose else w
  | .forceCloseDelay =>
    if w.state = .connected ∨ w.state = .disconnecting then { w with delayed := w.delayed + 1 }
    else w
  | .enableRead => w.enableReadInLoop
  | .disableRead => w.disableReadInLoop
  | .enableWrite => w.enableWriteInLoop
  | .disableWrite => w.disableWriteInLoop
  | .setHighWaterMark bytes => { w with hightWaterMark := bytes }
  | .setTcpHandler handler => { w with tcpHandler := handler }

/-- A public method called from another thread, which has read `seen` as the
state.  The two setters are for the loop's thread only. -/
def callForeign (w : TcpConnection) (thread : ℕ) (seen : State) : Call → TcpConnection
  | .send data | .sendBuffer data =>
    if seen = .connected then
      let (w, tag) := w.accept (some thread) data
      w.queueInLoop (.sendInLoopStr tag data)
    else w
  | .sendBufferMove buf =>
    if seen = .connected then
      let (w, tag) := w.accept (some thread) buf
      w.queueInLoop (.sendInLoopBuf tag buf)
    else w
  | .sendOutputBuf => if seen = .connected then w.queueInLoop .sendOutputBufInLoop else w
  | .shutdown => if seen = .connected then w.queueInLoop (.shutdownInLoop w.accepted) else w
  | .forceClose =>
    if seen = .connected ∨ seen = .disconnecting then w.queueInLoop .forceCloseInLoop else w
  | .forceCloseDelay =>
    if seen = .connected ∨ seen = .disconnecting then { w with delayed := w.delayed + 1 } else w
  | .enableRead => w.queueInLoop .enableReadInLoop
  | .disableRead => w.queueInLoop .disableReadInLoop
  | .enableWrite => w.queueInLoop .enableWriteInLoop
  | .disableWrite => w.queueInLoop .disableWriteInLoop
  | .setHighWaterMark _ | .setTcpHandler _ => w

/-- The calls that `onClose` makes on its connection.  The state is
`disconnected` by then, so none of them writes or closes again. -/
def runOnClose (calls : List Call) (w : TcpConnection) : TcpConnection :=
  calls.foldl (fun w c => w.callInLoop (.accepted 0) (fun w => w) c) w

/-! ### Events and tasks -/

/-- `TcpConnection::handleRead`.  On other systems than Windows an error is only
logged. -/
def handleRead (w : TcpConnection) (r : ReadResult) (onClose : TcpConnection → TcpConnection) :
    TcpConnection :=
  if w.state = .disconnected then w
  else
    match r with
    | .data b bytes =>
      let w := { w with inputBuf := w.inputBuf ++ b :: bytes }
      if w.tcpHandler then w.emit .onMessage else w
    | .eof => w.handleClose onClose
    | .failed => w

/-- The end of `handleWrite` when it has drained `outputBuf`. -/
def drained (w : TcpConnection) : TcpConnection :=
  let w := w.disableWriteEvent.writeComplete
  if w.state = .disconnecting then w.emit (.shutdownWrite w.outputBuf) else w

/-- `TcpConnection::handleWrite`: `outputBuf` is written as far as the socket takes
it, and once it is empty the write interest is given up; a failed write closes. -/
def handleWrite (w : TcpConnection) (r : WriteResult) (onClose : TcpConnection → TcpConnection) :
    TcpConnection :=
  if w.state = .disconnected then w
  else if w.channel.isEnableWrite then
    match r with
    | .failed e => (w.emit (.writeErr e)).handleClose onClose
    | .accepted n =>
      let n := min n w.outputBuf.length
      let w := w.emit (.write (w.outputBuf.take n))
      if n > 0 then
        let w := { w with outputBuf := w.outputBuf.drop n }
        if w.outputBuf.length = 0 then w.drained else w
      else w
  else w

/-- A task of the queue. -/
def runTask (w : TcpConnection) (r : WriteResult) (onClose : TcpConnection → TcpConnection) :
    Task → TcpConnection
  | .sendInLoopStr tag data => w.sendInLoop tag data r
  | .sendInLoopBuf tag buf => (w.sendInLoopBuf tag buf r).1
  | .sendOutputBufInLoop => w.sendOutputBufInLoop r
  | .shutdownInLoop mark => w.shutdownInLoop mark
  | .forceCloseInLoop => w.forceCloseInLoop onClose
  | .enableReadInLoop => w.enableReadInLoop
  | .disableReadInLoop => w.disableReadInLoop
  | .enableWriteInLoop => w.enableWriteInLoop
  | .disableWriteInLoop => w.disableWriteInLoop
  | .removeItself => w.removeItself onClose
  | .onWriteComplete => w.emit .onWriteComplete
  | .onHighWaterMark len => w.emit (.onHighWaterMark len)
  | .tie => w

/-! ### Runs -/

/-- What can happen to a connection. -/
inductive Input
  | onConnection
  | handleRead (r : ReadResult) (onClose : List Call)
  | handleWrite (r : WriteResult) (onClose : List Call)
  | handleClose (onClose : List Call)
  | handleError
  | call (c : Call) (r : WriteResult) (onClose : List Call)
  | foreign (thread : ℕ) (seen : State) (c : Call)
  | teardown (onClose : List Call)
  | foreignTeardown
  | delayedForceClose (onClose : List Call)
  | swapTasks
  | nextTask (r : WriteResult) (onClose : List Call)
  | endTasks
  | otherUpdate (c : ChanId) (ch : Channel ℤ)
  | otherRemove (c : ChanId) (ch : Channel ℤ)

/-- The next state, `none` where the input cannot occur: `onConnection` asserts
that the connection is new, another thread has read a state that was there, and
the descriptors of the other channels are other descriptors. -/
def step (w : TcpConnection) : Input → Option TcpConnection
  | .onConnection =>
    if w.state = .connecting then
      let w := { w with state := .connected }.enableReadEvent
      some (if w.tcpHandler then w.emit .onConnection else w)
    else none
  | .handleRead r onClose => some (w.handleRead r (runOnClose onClose))
  | .handleWrite r onClose => some (w.handleWrite r (runOnClose onClose))
  | .handleClose onClose => some (w.handleClose (runOnClose onClose))
  | .handleError => some w
  | .call c r onClose => some (w.callInLoop r (runOnClose onClose) c)
  | .foreign thread seen c =>
    if seen.rank ≤ w.state.rank then some (w.callForeign thread seen c) else none
  | .teardown onClose => some (w.removeItself (runOnClose onClose))
  | .foreignTeardown => some (w.queueInLoop .removeItself)
  | .delayedForceClose onClose =>
    if 0 < w.delayed then
      some ({ w with delayed := w.delayed - 1 }.forceCloseInLoop (runOnClose onClose))
    else none
  | .swapTasks => w.loop.swapTasks.map fun q => { w with loop := q }
  | .nextTask r onClose =>
    w.loop.nextTask.map fun t => { w with loop := t.2 }.runTask r (runOnClose onClose) t.1
  | .endTasks => w.loop.endTasks.map fun q => { w with loop := q }
  | .otherUpdate c ch =>
    if c ≠ w.self ∧ 0 ≤ ch.fd ∧ ch.fd ≠ w.channel.fd then
      some { w with poller := (w.poller.updateChannel c ch).1 }
    else none
  | .otherRemove c ch =>
    if c ≠ w.self ∧ 0 ≤ ch.fd ∧ ch.fd ≠ w.channel.fd then
      some { w with poller := (w.poller.remove c ch).1 }
    else none

end TcpConnection

end Net
end Sevent
