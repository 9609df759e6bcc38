/-
# wepoll

`sevent/net/poller/wepoll/wepoll.c`, on which `EpollPoller` stands on Windows.

A port has a `sock_state_t` for every socket that has been added.  What happens to
a socket it learns from the driver: a poll request, one for a socket at a time,
ends with a packet in the completion port, and the next request is made when the
socket comes up in the update queue.  A socket that is deleted while its request
is out is kept until the packet comes.

A `Port` is the `port_state_t` with the memory it has allocated, and behind it the
requests that the driver has and the packets in the completion port.  Addresses
and handles are numbers; reading memory that is not allocated, and an assertion
that fails, is `none`.  `System` has the threads that wait on the port, with the
places where they are while they do not hold the lock.  What the driver and the
system answer is in the events (`Answers`, `New`).

The tree of the sockets is a map here; `WepollSockTree` has it in memory.  Where the
source has two underscores in a name there is one.
-/

import Mathlib.Data.BitVec
import Mathlib.Data.Set.Basic
import Mathlib.Logic.Function.Basic

namespace Sevent
namespace Net
namespace Wepoll

/-! ### Events -/

def EPOLLIN : BitVec 32 := 0x0001
def EPOLLPRI : BitVec 32 := 0x0002
def EPOLLOUT : BitVec 32 := 0x0004
def EPOLLERR : BitVec 32 := 0x0008
def EPOLLHUP : BitVec 32 := 0x0010
def EPOLLRDNORM : BitVec 32 := 0x0040
def EPOLLRDBAND : BitVec 32 := 0x0080
def EPOLLWRNORM : BitVec 32 := 0x0100
def EPOLLWRBAND : BitVec 32 := 0x0200
def EPOLLMSG : BitVec 32 := 0x0400
def EPOLLRDHUP : BitVec 32 := 0x2000
def EPOLLONESHOT : BitVec 32 := 0x80000000

/-- The events that a socket may be polled for; others are ignored. -/
def SOCK_KNOWN_EPOLL_EVENTS : BitVec 32 :=
  EPOLLIN ||| EPOLLPRI ||| EPOLLOUT ||| EPOLLERR ||| EPOLLHUP ||| EPOLLRDNORM ||| EPOLLRDBAND |||
    EPOLLWRNORM ||| EPOLLWRBAND ||| EPOLLMSG ||| EPOLLRDHUP

def AFD_POLL_RECEIVE : BitVec 32 := 0x0001
def AFD_POLL_RECEIVE_EXPEDITED : BitVec 32 := 0x0002
def AFD_POLL_SEND : BitVec 32 := 0x0004
def AFD_POLL_DISCONNECT : BitVec 32 := 0x0008
def AFD_POLL_ABORT : BitVec 32 := 0x0010
def AFD_POLL_LOCAL_CLOSE : BitVec 32 := 0x0020
def AFD_POLL_ACCEPT : BitVec 32 := 0x0080
def AFD_POLL_CONNECT_FAIL : BitVec 32 := 0x0100

/-- `afd_events` where one of the `epoll_events` of a group is asked for. -/
def whenAny (events group result : BitVec 32) : BitVec 32 :=
  if events &&& group ≠ 0 then result else 0

/-- What the driver is asked for: `AFD_POLL_LOCAL_CLOSE` always, to hear of
sockets that are closed without `EPOLL_CTL_DEL`. -/
def sock_epoll_events_to_afd_events (epoll_events : BitVec 32) : BitVec 32 :=
  AFD_POLL_LOCAL_CLOSE |||
  whenAny epoll_events (EPOLLIN ||| EPOLLRDNORM) (AFD_POLL_RECEIVE ||| AFD_POLL_ACCEPT) |||
  whenAny epoll_events (EPOLLPRI ||| EPOLLRDBAND) AFD_POLL_RECEIVE_EXPEDITED |||
  whenAny epoll_events (EPOLLOUT ||| EPOLLWRNORM ||| EPOLLWRBAND) AFD_POLL_SEND |||
  whenAny epoll_events (EPOLLIN ||| EPOLLRDNORM ||| EPOLLRDHUP) AFD_POLL_DISCONNECT |||
  whenAny epoll_events EPOLLHUP AFD_POLL_ABORT |||
  whenAny epoll_events EPOLLERR AFD_POLL_CONNECT_FAIL

/-- What is reported to the user for the events of the driver. -/
def sock_afd_events_to_epoll_events (afd_events : BitVec 32) : BitVec 32 :=
  whenAny afd_events (AFD_POLL_RECEIVE ||| AFD_POLL_ACCEPT) (EPOLLIN ||| EPOLLRDNORM) |||
  whenAny afd_events AFD_POLL_RECEIVE_EXPEDITED (EPOLLPRI ||| EPOLLRDBAND) |||
  whenAny afd_events AFD_POLL_SEND (EPOLLOUT ||| EPOLLWRNORM ||| EPOLLWRBAND) |||
  whenAny afd_events AFD_POLL_DISCONNECT (EPOLLIN ||| EPOLLRDNORM ||| EPOLLRDHUP) |||
  whenAny afd_events AFD_POLL_ABORT EPOLLHUP |||
  whenAny afd_events AFD_POLL_CONNECT_FAIL
    (EPOLLIN ||| EPOLLOUT ||| EPOLLERR ||| EPOLLRDNORM ||| EPOLLWRNORM ||| EPOLLRDHUP)

/-- `struct epoll_event`. -/
structure EpollEvent where
  events : BitVec 32
  data : ℕ
  deriving DecidableEq

/-! ### Memory -/

/-- Whether the driver has a request of the socket: none, one that waits, or one
that was cancelled and has not come back. -/
inductive PollStatus
  | SOCK_POLL_IDLE
  | SOCK_POLL_PENDING
  | SOCK_POLL_CANCELLED
  deriving DecidableEq, Repr

/-- How a request ends; `failure` is every status that is not `NT_SUCCESS`. -/
inductive Outcome
  | STATUS_SUCCESS
  | STATUS_CANCELLED
  | failure
  deriving DecidableEq, Repr

/-- What the driver writes when a request ends. -/
structure Completion where
  Status : Outcome
  NumberOfHandles : ℕ
  Events : BitVec 32

/-- It says that the socket is closed. -/
def Completion.closes (c : Completion) : Prop :=
  c.Status = .STATUS_SUCCESS ∧ ¬ c.NumberOfHandles < 1 ∧ c.Events &&& AFD_POLL_LOCAL_CLOSE ≠ 0

/-- `sock_state_t`, with the key of its node in the tree.  `Status` is `none` for
`STATUS_PENDING`. -/
structure Sock where
  Status : Option Outcome
  NumberOfHandles : ℕ
  Events : BitVec 32
  socket : ℕ
  poll_group : ℕ
  base_socket : ℕ
  user_data : ℕ
  user_events : BitVec 32
  pending_events : BitVec 32
  poll_status : PollStatus
  delete_pending : Bool

/-- `poll_group_t`: a handle of the driver, and how many sockets share it. -/
structure PollGroup where
  afd_device_handle : ℕ
  group_size : ℕ

/-- The driver writes into a socket. -/
def Sock.completed (c : Completion) (s : Sock) : Sock :=
  { s with Status := some c.Status, NumberOfHandles := c.NumberOfHandles, Events := c.Events }

/-- The poll info for a request. -/
def Sock.asking (s : Sock) : Sock :=
  { s with
    NumberOfHandles := 1
    Events := sock_epoll_events_to_afd_events s.user_events
    Status := none }

/-- The request was cancelled: its packet is still to come, and what it reports
does not count. -/
def Sock.cancelled (s : Sock) : Sock :=
  { s with poll_status := .SOCK_POLL_CANCELLED, pending_events := 0 }

/-- The request was made, for the events that the user wants. -/
def Sock.submitted (s : Sock) : Sock :=
  { s with poll_status := .SOCK_POLL_PENDING, pending_events := s.user_events }

/-- The request is over. -/
def Sock.ended (s : Sock) : Sock :=
  { s with poll_status := .SOCK_POLL_IDLE, pending_events := 0 }

/-- The socket is to be deleted as soon as its request is over. -/
def Sock.retired (s : Sock) : Sock :=
  { s with delete_pending := true }

/-- How many sockets share the handle of one device. -/
def POLL_GROUP_MAX_GROUP_SIZE : ℕ := 32

/-- The handle that no socket has. -/
def INVALID_SOCKET : ℕ := 2 ^ 64 - 1

/-- A poll request that the driver has. -/
structure Request where
  handle : ℕ
  events : BitVec 32
  cancelled : Bool

/-- `port_state_t`; the requests are at the addresses of their status blocks. -/
structure Port where
  socks : ℕ → Option Sock
  sock_tree : ℕ → Option ℕ
  sock_update_queue : List ℕ
  sock_deleted_queue : List ℕ
  poll_group_queue : List PollGroup
  active_poll_count : ℕ
  requests : ℕ → Option Request
  iocp : List ℕ

/-- `port_new`: no socket, no poll group, nothing queued and nobody waiting. -/
def port_new : Port :=
  ⟨fun _ => none, fun _ => none, [], [], [], 0, fun _ => none, []⟩

/-! ### The driver -/

/-- What `NtDeviceIoControlFile` does with a request. -/
inductive PollAnswer
  | pending
  | completed (c : Completion)
  | invalidHandle
  | failed

/-- What `NtCancelIoFileEx` finds: a request, which it cancels, or that it has ended
just before. -/
inductive CancelAnswer
  | found
  | completed (c : Completion)
  | failed

/-- What the driver answers, for each address and handle. -/
structure Answers where
  poll : ℕ → ℕ → PollAnswer
  cancel : ℕ → ℕ → CancelAnswer

/-- It says of closed sockets only that they are closed. -/
structure Answers.Honest (closed : Set ℕ) (ans : Answers) : Prop where
  invalid : ∀ a h, ans.poll a h = .invalidHandle → h ∈ closed
  polled : ∀ a h c, ans.poll a h = .completed c → c.closes → h ∈ closed
  cancelled : ∀ a h c, ans.cancel a h = .completed c → c.closes → h ∈ closed

/-- What the system gives for a new socket: the base socket, a device, memory. -/
structure New where
  base_socket : Option ℕ
  device : Option ℕ
  address : Option ℕ

namespace Port

/-- A record for the socket at an address. -/
def setSock (p : Port) (a : ℕ) (s : Sock) : Port :=
  { p with socks := Function.update p.socks a (some s) }

/-- A change of the socket at an address, if there is one. -/
def modify (p : Port) (a : ℕ) (f : Sock → Sock) : Port :=
  { p with socks := Function.update p.socks a ((p.socks a).map f) }

/-- A request that the driver has from now on. -/
def setRequest (p : Port) (a : ℕ) (r : Request) : Port :=
  { p with requests := Function.update p.requests a (some r) }

/-- A request ends. -/
def complete (p : Port) (a : ℕ) (c : Completion) : Port :=
  { p.modify a (.completed c) with
    requests := Function.update p.requests a none
    iocp := p.iocp ++ [a] }

/-- A request is cancelled; it has not ended. -/
def cancel (p : Port) (a : ℕ) : Port :=
  { p with
    requests := Function.update p.requests a ((p.requests a).map fun r =>
      { r with cancelled := true }) }

end Port

/-- What the driver answers to a poll request. -/
inductive PollResult
  | success
  | ERROR_IO_PENDING
  | ERROR_INVALID_HANDLE
  | error
  deriving DecidableEq

/-- `afd_poll`, with the poll info that `sock_update` puts in. -/
def afd_poll (ans : PollAnswer) (p : Port) (a : ℕ) (s : Sock) : PollResult × Port :=
  let p := p.setSock a s.asking
  let r : Request := ⟨s.base_socket, s.asking.Events, false⟩
  match ans with
  | .pending => (.ERROR_IO_PENDING, p.setRequest a r)
  | .completed c => (.success, (p.setRequest a r).complete a c)
  | .invalidHandle => (.ERROR_INVALID_HANDLE, p)
  | .failed => (.error, p)

/-- `afd_cancel_poll`: nothing is to be done for an operation that has completed, and
one that is not found any more has done so in the meantime. -/
def afd_cancel_poll (ans : CancelAnswer) (p : Port) (a : ℕ) (s : Sock) : Bool × Port :=
  if s.Status ≠ none then (true, p)
  else
    match ans with
    | .found => (true, p.cancel a)
    | .completed c => (true, p.complete a c)
    | .failed => (false, p)

/-! ### Queues, tree, groups -/

namespace Port

/-- `queue_is_enqueued` for a socket's node, which is in one of the two queues at
most. -/
def enqueued (p : Port) (a : ℕ) : Bool :=
  p.sock_update_queue.contains a || p.sock_deleted_queue.contains a

/-- `queue_remove`: a socket is in one queue at most. -/
def queue_remove (p : Port) (a : ℕ) : Port :=
  { p with
    sock_update_queue := p.sock_update_queue.erase a
    sock_deleted_queue := p.sock_deleted_queue.erase a }

/-- A socket that needs a new request is put into the queue, once. -/
def port_request_socket_update (p : Port) (a : ℕ) : Port :=
  if p.enqueued a then p else { p with sock_update_queue := p.sock_update_queue ++ [a] }

/-- A socket is taken out of the queue of updates. -/
def port_cancel_socket_update (p : Port) (a : ℕ) : Port :=
  if p.enqueued a then p.queue_remove a else p

/-- A socket whose request is still out waits for its deletion here. -/
def port_add_deleted_socket (p : Port) (a : ℕ) : Port :=
  if p.enqueued a then p else { p with sock_deleted_queue := p.sock_deleted_queue ++ [a] }

/-- A socket is taken out of the queue of deleted sockets. -/
def port_remove_deleted_socket (p : Port) (a : ℕ) : Port :=
  if p.enqueued a then p.queue_remove a else p

/-- A key is taken out of the tree of the sockets. -/
def port_unregister_socket (p : Port) (socket : ℕ) : Port :=
  { p with sock_tree := Function.update p.sock_tree socket none }

/-- `sock_free`: the memory of the socket is gone, and no pointer to it may be used.
-/
def sock_free (p : Port) (a : ℕ) : Port :=
  { p with socks := Function.update p.socks a none }

end Port

/-- `poll_group_acquire`, with `poll_group_new`; `none` where there is no group. -/
def poll_group_acquire (device : Option ℕ) (p : Port) : Option (ℕ × Port) :=
  let last :=
    match p.poll_group_queue.getLast? with
    | some g =>
      if POLL_GROUP_MAX_GROUP_SIZE ≤ g.group_size then none
      else some (p.poll_group_queue.dropLast, g)
    | none => none
  match last.or (device.map fun handle => (p.poll_group_queue, ⟨handle, 0⟩)) with
  | none => none
  | some (queue, g) =>
    let g := { g with group_size := g.group_size + 1 }
    some (g.afd_device_handle, { p with
      poll_group_queue :=
        if g.group_size = POLL_GROUP_MAX_GROUP_SIZE then g :: queue else queue ++ [g] })

/-- `poll_group_release`: one socket less shares the handle, and there is room for
another. -/
def poll_group_release (p : Port) (handle : ℕ) : Option Port :=
  match p.poll_group_queue.find? (·.afd_device_handle == handle) with
  | none => none
  | some g =>
    -- `group_size` is a `size_t`, and 0 does not stay below the maximum either
    if g.group_size = 0 ∨ POLL_GROUP_MAX_GROUP_SIZE ≤ g.group_size - 1 then none
    else some { p with
      poll_group_queue :=
        p.poll_group_queue.eraseP (·.afd_device_handle == handle) ++
          [{ g with group_size := g.group_size - 1 }] }

/-! ### Sockets -/

/-- `sock_cancel_poll`: only a pending operation is cancelled, and it still has to
complete. -/
def sock_cancel_poll (ans : CancelAnswer) (p : Port) (a : ℕ) : Option (Bool × Port) :=
  match p.socks a with
  | none => none
  | some s =>
    if s.poll_status ≠ .SOCK_POLL_PENDING then none
    else
      match afd_cancel_poll ans p a s with
      | (false, p) => some (false, p)
      | (true, p) => some (true, p.modify a Sock.cancelled)

/-- A socket that has been allocated. -/
def Sock.new (socket poll_group base_socket : ℕ) : Sock :=
  ⟨some .STATUS_SUCCESS, 0, 0, socket, poll_group, base_socket, 0, 0, 0, .SOCK_POLL_IDLE, false⟩

/-- `sock_new`, with `port_register_socket`: the address, or `none` for an error. -/
def sock_new (new : New) (p : Port) (socket : ℕ) : Option (Option ℕ × Port) :=
  if socket = 0 ∨ socket = INVALID_SOCKET then some (none, p)
  else
    match new.base_socket with
    | none => some (none, p)
    | some base_socket =>
      match poll_group_acquire new.device p with
      | none => some (none, p)
      | some (poll_group, p) =>
        match new.address with
        | none => (poll_group_release p poll_group).map (none, ·)
        | some a =>
          if p.sock_tree socket ≠ none then
            (poll_group_release p poll_group).map (none, ·)
          else some (some a, { p.setSock a (.new socket poll_group base_socket) with
            sock_tree := Function.update p.sock_tree socket (some a) })

/-- What `sock_delete` does the first time. -/
def sock_unregister (ans : Answers) (p : Port) (a : ℕ) (s : Sock) : Option Port :=
  let cancelled :=
    if s.poll_status = .SOCK_POLL_PENDING then
      (sock_cancel_poll (ans.cancel a s.base_socket) p a).map Prod.snd
    else some p
  cancelled.map fun p =>
    ((p.port_cancel_socket_update a).port_unregister_socket s.socket).modify a Sock.retired

/-- `sock_delete`: the socket is unregistered, and freed at once when the driver does
not hold its memory; else it waits for its operation. -/
def sock_delete (ans : Answers) (p : Port) (a : ℕ) (force : Bool) : Option Port :=
  match p.socks a with
  | none => none
  | some s =>
    match if s.delete_pending then some p else sock_unregister ans p a s with
    | none => none
    | some p =>
      match p.socks a with
      | none => none
      | some s =>
        if force ∨ s.poll_status = .SOCK_POLL_IDLE then
          (poll_group_release (p.port_remove_deleted_socket a) s.poll_group).map (·.sock_free a)
        else some (p.port_add_deleted_socket a)

/-- `sock_set_event`: errors and hang-ups are always asked for, and an update is
requested when the pending operation does not cover all of it. -/
def sock_set_event (p : Port) (a : ℕ) (ev : EpollEvent) : Option Port :=
  match p.socks a with
  | none => none
  | some s =>
    let events := ev.events ||| EPOLLERR ||| EPOLLHUP
    let p := p.setSock a { s with user_events := events, user_data := ev.data }
    if events &&& SOCK_KNOWN_EPOLL_EVENTS &&& ~~~s.pending_events ≠ 0 then
      some (p.port_request_socket_update a)
    else some p

/-- `sock_update`; `false` for `-1`. -/
def sock_update (ans : Answers) (p : Port) (a : ℕ) : Option (Bool × Port) :=
  match p.socks a with
  | none => none
  | some s =>
    if s.delete_pending then none
    else
      match s.poll_status with
      | .SOCK_POLL_PENDING =>
        if s.user_events &&& SOCK_KNOWN_EPOLL_EVENTS &&& ~~~s.pending_events = 0 then
          some (true, p.port_cancel_socket_update a)
        else
          match sock_cancel_poll (ans.cancel a s.base_socket) p a with
          | none => none
          | some (false, p) => some (false, p)
          | some (true, p) => some (true, p.port_cancel_socket_update a)
      | .SOCK_POLL_CANCELLED => some (true, p.port_cancel_socket_update a)
      | .SOCK_POLL_IDLE =>
        match afd_poll (ans.poll a s.base_socket) p a s with
        | (.error, p) => some (false, p)
        | (.ERROR_INVALID_HANDLE, p) => (sock_delete ans p a false).map (true, ·)
        | (_, p) => some (true, (p.modify a Sock.submitted).port_cancel_socket_update a)

/-- What a request that has ended says; `none` where the socket is closed. -/
def Sock.reported (s : Sock) : Option (BitVec 32) :=
  if s.Status = some .STATUS_CANCELLED then some 0
  else if s.Status = some .failure then some EPOLLERR
  else if s.NumberOfHandles < 1 then some 0
  else if s.Events &&& AFD_POLL_LOCAL_CLOSE ≠ 0 then none
  else some (sock_afd_events_to_epoll_events s.Events)

/-- What is wanted once an event has been reported. -/
def afterReport (user_events : BitVec 32) : BitVec 32 :=
  if user_events &&& EPOLLONESHOT ≠ 0 then 0 else user_events

/-- `sock_feed_event`, with the event that it reports if there is one. -/
def sock_feed_event (ans : Answers) (p : Port) (a : ℕ) : Option (Option EpollEvent × Port) :=
  match p.socks a with
  | none => none
  | some s =>
    let p := p.setSock a s.ended
    if s.delete_pending then (sock_delete ans p a false).map (none, ·)
    else
      match s.reported with
      | none => (sock_delete ans p a false).map (none, ·)
      | some epoll_events =>
        let p := p.port_request_socket_update a
        let epoll_events := epoll_events &&& s.user_events
        if epoll_events = 0 then some (none, p)
        else
          some (some ⟨epoll_events, s.user_data⟩,
            p.setSock a { s.ended with user_events := afterReport s.user_events })

/-! ### The port -/

/-- `port_update_events`, `none` when it takes more rounds than the bound. -/
def port_update_events (ans : Answers) : ℕ → Port → Option (Bool × Port)
  | 0, p => if p.sock_update_queue = [] then some (true, p) else none
  | fuel + 1, p =>
    match p.sock_update_queue with
    | [] => some (true, p)
    | a :: _ =>
      match sock_update ans p a with
      | none => none
      | some (false, p) => some (false, p)
      | some (true, p) => port_update_events ans fuel p

/-- `port_update_events_if_polling`: without a thread that waits, updates can wait
too. -/
def port_update_events_if_polling (ans : Answers) (p : Port) : Option Port :=
  if 0 < p.active_poll_count then
    (port_update_events ans p.sock_update_queue.length p).map Prod.snd
  else some p

/-- `port_feed_events`: the completed operations one after another, each with an
event at most. -/
def port_feed_events (ans : Answers) : List ℕ → Port → Option (List EpollEvent × Port)
  | [], p => some ([], p)
  | a :: as, p =>
    match sock_feed_event ans p a with
    | none => none
    | some (ev, p) => (port_feed_events ans as p).map fun r => (ev.toList ++ r.1, r.2)

/-- The operations of `epoll_ctl`. -/
inductive CtlOp
  | EPOLL_CTL_ADD
  | EPOLL_CTL_MOD
  | EPOLL_CTL_DEL
  deriving DecidableEq

/-- `port_ctl`, with `port_ctl_add`, `port_ctl_mod` and `port_ctl_del`; `false` for
`-1`. -/
def port_ctl (new : New) (ans : Answers) (p : Port) (op : CtlOp) (sock : ℕ) (ev : EpollEvent) :
    Option (Bool × Port) :=
  match op with
  | .EPOLL_CTL_ADD =>
    match sock_new new p sock with
    | none => none
    | some (none, p) => some (false, p)
    | some (some a, p) =>
      ((sock_set_event p a ev).bind (port_update_events_if_polling ans)).map (true, ·)
  | .EPOLL_CTL_MOD =>
    match p.sock_tree sock with
    | none => some (false, p)
    | some a =>
      ((sock_set_event p a ev).bind (port_update_events_if_polling ans)).map (true, ·)
  | .EPOLL_CTL_DEL =>
    match p.sock_tree sock with
    | none => some (false, p)
    | some a => (sock_delete ans p a false).map (true, ·)

/-! ### The threads -/

/-- What a thread has called `port_wait` with, and when its time is up. -/
structure Wait where
  maxevents : ℕ
  timeout : ℤ
  due : ℕ

/-- Where a thread is while it does not hold the lock: not in `port_wait`, in
`GetQueuedCompletionStatusEx`, or behind it with packets or with an error. -/
inductive Place
  | out
  | polling (w : Wait)
  | dequeued (w : Wait) (packets : List ℕ)
  | expired (w : Wait)

/-- What a caller has seen. -/
inductive Entry
  | ctl (op : CtlOp) (sock : ℕ) (ev : EpollEvent) (ok : Bool)
  | waited (thread : ℕ) (events : List EpollEvent)

/-- The port, where each thread is that waits on it, and what was answered so
far. -/
structure System where
  port : Port
  threads : ℕ → Place
  log : List Entry

/-- A new port, with nobody waiting. -/
def System.init : System := ⟨port_new, fun _ => .out, []⟩

/-- What happens: a call of `epoll_ctl`, a thread that begins to wait, gets packets
or an error, and comes back to the lock, and a request that ends. -/
inductive Event
  | ctl (op : CtlOp) (sock : ℕ) (ev : EpollEvent) (new : New) (ans : Answers)
  | wait (t : ℕ) (w : Wait) (ans ans' : Answers)
  | dequeue (t n : ℕ)
  | expire (t : ℕ)
  | resume (t now : ℕ) (ans ans' : Answers)
  | complete (a : ℕ) (c : Completion)

namespace System

/-- The end of `port_wait`. -/
def finish (ans : Answers) (s : System) (t : ℕ) (events : List EpollEvent) : Option System :=
  (port_update_events_if_polling ans s.port).map fun p =>
    { s with
      port := p
      threads := Function.update s.threads t .out
      log := s.log ++ [.waited t events] }

/-- `port_poll` up to where it leaves the lock. -/
def poll (ans ans' : Answers) (s : System) (t : ℕ) (w : Wait) : Option System :=
  match port_update_events ans s.port.sock_update_queue.length s.port with
  | none => none
  | some (false, p) => { s with port := p }.finish ans' t []
  | some (true, p) => some { s with
      port := { p with active_poll_count := p.active_poll_count + 1 }
      threads := Function.update s.threads t (.polling w) }

/-- The lock is taken again, and `active_poll_count` goes down. -/
def back (s : System) : System :=
  { s with port := { s.port with active_poll_count := s.port.active_poll_count - 1 } }

/-- `port_poll` from there on, and what `port_wait` does with its result. -/
def resume (ans ans' : Answers) (s : System) (t now : ℕ) : Option System :=
  match s.threads t with
  | .dequeued w packets =>
    match port_feed_events ans packets s.back.port with
    | none => none
    | some (events, p) =>
      if events = [] ∧ (w.timeout < 0 ∨ now < w.due) then { s with port := p }.poll ans ans' t w
      else { s with port := p }.finish ans' t events
  | .expired _ => s.back.finish ans' t []
  | _ => none

/-- What can happen.  New memory and devices are not in use, and a request has to be
there to end. -/
def Possible (s : System) : Event → Prop
  | .ctl _ _ _ new _ =>
    (∀ a, new.address = some a → s.port.socks a = none) ∧
      ∀ h, new.device = some h → ∀ g ∈ s.port.poll_group_queue, g.afd_device_handle ≠ h
  | .wait t w _ _ => s.threads t = .out ∧ 0 < w.maxevents
  | .dequeue t n => ∃ w, s.threads t = .polling w ∧ 0 < n ∧ n ≤ w.maxevents ∧
      n ≤ s.port.iocp.length
  | .expire t => ∃ w, s.threads t = .polling w
  | .resume t _ _ _ => (∃ w l, s.threads t = .dequeued w l) ∨ ∃ w, s.threads t = .expired w
  | .complete a _ => s.port.requests a ≠ none

/-- What an event does to the port and to the thread that it is about. `none` is
an assertion that fails, or memory that is used and not allocated. -/
def step (s : System) : Event → Option System
  | .ctl op sock ev new ans =>
    (port_ctl new ans s.port op sock ev).map fun r =>
      { s with port := r.2, log := s.log ++ [.ctl op sock ev r.1] }
  | .wait t w ans ans' => s.poll ans ans' t w
  | .dequeue t n =>
    match s.threads t with
    | .polling w => some { s with
        port := { s.port with iocp := s.port.iocp.drop n }
        threads := Function.update s.threads t (.dequeued w (s.port.iocp.take n)) }
    | _ => none
  | .expire t =>
    match s.threads t with
    | .polling w => some { s with threads := Function.update s.threads t (.expired w) }
    | _ => none
  | .resume t now ans ans' => s.resume ans ans' t now
  | .complete a c => some { s with port := s.port.complete a c }

end System
end Wepoll
end Net
end Sevent
