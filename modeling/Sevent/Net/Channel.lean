/-
# `Channel`: a descriptor and the events it is registered for

`sevent/net/Channel.h`, `sevent/net/Channel.cpp`.

`events` only ever holds `NoneEvent`, `ReadEvent` (`POLLIN | POLLPRI`),
`WriteEvent` (`POLLOUT`) or both, so it is a pair of flags here.  `index` is the
one field the pollers keep in the channel: the slot of `pollfdList` for
`PollPoller`, the status for `EpollPoller` and `SelectPoller`; it starts at
`-1`.

The type of descriptors is a parameter: `int` for a connection, the number of
the `socket` call for a connector, whose descriptors the proofs tell apart.
-/

import Mathlib.Data.Nat.Notation
import Mathlib.Data.Int.Notation

namespace Sevent
namespace Net

/-- The event mask of a channel. -/
structure Events where
  read : Bool
  write : Bool
  deriving DecidableEq, Repr

namespace Events

def NoneEvent : Events := ⟨false, false⟩
def ReadEvent : Events := ⟨true, false⟩
def WriteEvent : Events := ⟨false, true⟩

/-- `events |= other`. -/
def union (a b : Events) : Events := ⟨a.read || b.read, a.write || b.write⟩

/-- `events &= ~other`. -/
def diff (a b : Events) : Events := ⟨a.read && !b.read, a.write && !b.write⟩

end Events

/-- What a poller reads of a `Channel`, and the `index` it keeps there. -/
structure Channel (Fd : Type*) where
  fd : Fd
  events : Events
  index : ℤ
  deriving DecidableEq, Repr

namespace Channel

variable {Fd : Type*}

/-- `Channel::Channel(fd, loop)`. -/
def new (fd : Fd) : Channel Fd := { fd := fd, events := .NoneEvent, index := -1 }

def isNoneEvent (ch : Channel Fd) : Bool := ch.events == .NoneEvent
def isEnableRead (ch : Channel Fd) : Bool := ch.events.read
def isEnableWrite (ch : Channel Fd) : Bool := ch.events.write

@[simp]
theorem isNoneEvent_iff {ch : Channel Fd} : ch.isNoneEvent = true ↔ ch.events = .NoneEvent := by
  simp [isNoneEvent]

end Channel

/-- The identity of a `Channel` object, its address. -/
abbrev ChanId := ℕ

end Net
end Sevent
