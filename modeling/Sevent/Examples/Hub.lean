/-
# The hub

`examples/hub/hub.cpp`.

Clients subscribe to topics and publish contents.  The hub has the subscribers
of every topic, and in the context of every connection the topics it has
subscribed to; it keeps the last content of a topic and sends it to whoever
subscribes later.  All handlers run in one loop, one after the other.

`Board` is what the hub is for: one relation of subscriptions, the last content
of every topic, and for every member what it has been told.  Every event that
the hub handles is the step of the board (`agrees_step`), so the two indices
agree, a closed connection is in neither, and what has been sent to a connection
are the publications that the board has told its member (`hub_refines`).

A set is a list without repetitions here; its order does not show, for each of
its members is treated once.  `Timestamp::toString`, a text from the C library, is
a parameter.
-/

import Mathlib.Data.List.Nodup
import Sevent.Examples.HubCodec
import Sevent.Lib.Run

namespace Sevent
namespace Examples
namespace Hub

open Net Net.Buffer Bytes Framing Transition
open Net.Http (text)

/-! ### The handler -/

/-- `Topic`; `subs` are connections. -/
structure Topic where
  topic : List UInt8
  content : List UInt8
  lastPubTime : ℤ
  subs : List ℕ

/-- `Topic::makeMsg`. -/
def Topic.makeMsg (t : Topic) : List UInt8 :=
  text "pub " ++ t.topic ++ CRLF ++ t.content ++ CRLF

/-- A connection: its input buffer, its context, what it has been given to send,
and its state. -/
structure Peer where
  inputBuf : Buffer
  subscription : List (List UInt8)
  sent : List (List UInt8)
  shutdown : Bool
  closed : Bool

/-- `TcpConnection::send`. -/
def Peer.send (p : Peer) (message : List UInt8) : Peer :=
  if p.shutdown || p.closed then p else { p with sent := p.sent ++ [message] }

/-- `PubSubHandler`, with the connections of the server. -/
structure PubSubHandler where
  topics : List UInt8 → Option Topic
  conns : ℕ → Option Peer

namespace PubSubHandler

/-- No connections, no topics. -/
def init : PubSubHandler := ⟨fun _ => none, fun _ => none⟩

/-- A change of the context of one connection, if it is there. -/
def modify (h : PubSubHandler) (conn : ℕ) (f : Peer → Peer) : PubSubHandler :=
  { h with conns := Function.update h.conns conn ((h.conns conn).map f) }

/-- `getTopic`, without the insertion of a new one. -/
def getTopic (h : PubSubHandler) (topic : List UInt8) : Topic :=
  (h.topics topic).getD ⟨topic, [], 0, []⟩

/-- The topic that `getTopic` has found or inserted is changed. -/
def setTopic (h : PubSubHandler) (topic : List UInt8) (t : Topic) : PubSubHandler :=
  { h with topics := Function.update h.topics topic (some t) }

/-- `doSubscribe`, with `Topic::add`. -/
def doSubscribe (h : PubSubHandler) (conn : ℕ) (topic : List UInt8) : PubSubHandler :=
  let h := h.modify conn fun p => { p with subscription := p.subscription.insert topic }
  let t := { h.getTopic topic with subs := (h.getTopic topic).subs.insert conn }
  let h := h.setTopic topic t
  if 0 < t.lastPubTime then h.modify conn (·.send t.makeMsg) else h

/-- `doPublish`, with `Topic::publish`. -/
def doPublish (h : PubSubHandler) (topic content : List UInt8) (time : ℤ) : PubSubHandler :=
  let t := { h.getTopic topic with content := content, lastPubTime := time }
  t.subs.foldl (fun h conn => h.modify conn (·.send t.makeMsg)) (h.setTopic topic t)

/-- `doUnsubscribe`, with `Topic::remove`. -/
def doUnsubscribe (h : PubSubHandler) (conn : ℕ) (topic : List UInt8) : PubSubHandler :=
  let t := { h.getTopic topic with subs := (h.getTopic topic).subs.erase conn }
  (h.setTopic topic t).modify conn fun p => { p with subscription := p.subscription.erase topic }

/-- `TcpConnection::shutdown`. -/
def shutdown (h : PubSubHandler) (conn : ℕ) : PubSubHandler :=
  h.modify conn fun p => { p with shutdown := true }

/-- The loop of `onMessage`, `none` when it takes more rounds than the bound. -/
def onMessage : ℕ → PubSubHandler → ℕ → ℤ → Option PubSubHandler
  | 0, _, _, _ => none
  | fuel + 1, h, conn, time =>
    match h.conns conn with
    | none => none
    | some p =>
      match parseMessage p.inputBuf with
      | (.kSuccess, buf, m) =>
        let h := h.modify conn fun p => { p with inputBuf := buf }
        if m.cmd = text "pub" then onMessage fuel (h.doPublish m.topic m.content time) conn time
        else if m.cmd = text "sub" then onMessage fuel (h.doSubscribe conn m.topic) conn time
        else if m.cmd = text "unsub" then onMessage fuel (h.doUnsubscribe conn m.topic) conn time
        else some (h.shutdown conn)
      | (.kError, _) => some (h.shutdown conn)
      | (.kContinue, _) => some h

/-- `onClose`. -/
def onClose (h : PubSubHandler) (conn : ℕ) : PubSubHandler :=
  (((h.conns conn).map Peer.subscription).getD []).foldl (·.doUnsubscribe conn ·) h

end PubSubHandler

/-- What happens: a connection comes, or has bytes to read, or is closed, or the
timer expires. -/
inductive Event
  | connection (conn : ℕ)
  | message (conn : ℕ) (data : List UInt8) (pollTime : ℤ)
  | close (conn : ℕ)
  | timePublish (now : ℤ)

/-- A connection that has come. -/
def Peer.new (inputBuf : Buffer) : Peer := ⟨inputBuf, [], [], false, false⟩

/-- The handlers.  A connection comes once and is closed once, and has nothing to
read before or after. -/
def step (toString : ℤ → List UInt8) (h : PubSubHandler) : Event → Option PubSubHandler
  | .connection conn =>
    match h.conns conn with
    | some _ => none
    | none => (Buffer.new initialSize).map fun buf =>
        { h with conns := Function.update h.conns conn (some (.new buf)) }
  | .message conn data pollTime =>
    match h.conns conn with
    | none => none
    | some p =>
      if p.closed then none
      else if data.length ≤ p.inputBuf.offered then
        (p.inputBuf.readFd data).bind fun buf =>
          (h.modify conn fun p => { p with inputBuf := buf }).onMessage (buf.readableBytes + 1) conn
            pollTime
      else none
  | .close conn =>
    match h.conns conn with
    | none => none
    | some p =>
      if p.closed then none
      else some ((h.onClose conn).modify conn fun p => { p with closed := true })
  | .timePublish now => some (h.doPublish (text "utc_time") (toString now) now)

/-! ### What the hub is for -/

/-- What a client may ask for. -/
inductive Command
  | pub (topic content : List UInt8)
  | sub (topic : List UInt8)
  | unsub (topic : List UInt8)
  deriving DecidableEq

/-- The commands of a message; any other text closes the connection. -/
def command (m : Message) : Option Command :=
  if m.cmd = text "pub" then some (.pub m.topic m.content)
  else if m.cmd = text "sub" then some (.sub m.topic)
  else if m.cmd = text "unsub" then some (.unsub m.topic)
  else none

/-- What some bytes ask for, what remains of them, and whether the hub has had
enough. -/
structure Asked where
  commands : List Command
  rest : List UInt8
  stop : Bool

/-- What a client has asked for in the bytes that have come: its commands, what
is left of the bytes, and whether they end with something that is no message or
no command. -/
def asked (a : List UInt8) : Asked :=
  match _hnext : front a with
  | .wait => ⟨[], a, false⟩
  | .bad => ⟨[], a, true⟩
  | .frame m r =>
    match command m with
    | some c =>
      let s := asked r
      ⟨c :: s.commands, s.rest, s.stop⟩
    | none => ⟨[], r, true⟩
termination_by a.length
decreasing_by exact hubReader.shorter _hnext

/-- A member: the bytes of it that are not a whole message yet, what it has been
told, and whether it is told no more, and has left. -/
structure Member where
  rest : List UInt8
  told : List (List UInt8 × List UInt8)
  muted : Bool
  left : Bool

/-- A member that has not been muted is told a publication. -/
def Member.tell (m : Member) (publication : List UInt8 × List UInt8) : Member :=
  if m.muted then m else { m with told := m.told ++ [publication] }

/-- Who has subscribed to what, the last content of the topics and when it came,
and the members. -/
structure Board where
  subs : Set (ℕ × List UInt8)
  last : List UInt8 → Option (List UInt8 × ℤ)
  members : ℕ → Option Member

namespace Board

/-- Nobody has subscribed, nothing was published, there are no members. -/
def init : Board := ⟨∅, fun _ => none, fun _ => none⟩

/-- A change of one member, if it is there. -/
def update (B : Board) (conn : ℕ) (f : Member → Member) : Board :=
  { B with members := Function.update B.members conn ((B.members conn).map f) }

open Classical in
/-- Everyone who has subscribed is told. -/
noncomputable def publish (B : Board) (topic content : List UInt8) (time : ℤ) : Board :=
  { B with
    last := Function.update B.last topic (some (content, time))
    members := fun conn =>
      if (conn, topic) ∈ B.subs then (B.members conn).map (·.tell (topic, content))
      else B.members conn }

/-- The new subscriber is told the last content. -/
def subscribe (B : Board) (conn : ℕ) (topic : List UInt8) : Board :=
  let B := { B with subs := insert (conn, topic) B.subs }
  match B.last topic with
  | some (content, time) => if 0 < time then B.update conn (·.tell (topic, content)) else B
  | none => B

/-- A subscription is taken back. -/
def unsubscribe (B : Board) (conn : ℕ) (topic : List UInt8) : Board :=
  { B with subs := B.subs \ {(conn, topic)} }

/-- What a command does to the board. -/
noncomputable def act (conn : ℕ) (time : ℤ) (B : Board) : Command → Board
  | .pub topic content => B.publish topic content time
  | .sub topic => B.subscribe conn topic
  | .unsub topic => B.unsubscribe conn topic

/-- What an event does to the board: the bytes of a message are added to what
was left of the earlier ones, and what they ask for is done. -/
noncomputable def step (toString : ℤ → List UInt8) (B : Board) : Event → Board
  | .connection conn =>
    { B with members := Function.update B.members conn (some ⟨[], [], false, false⟩) }
  | .message conn data pollTime =>
    let s := asked ((((B.members conn).map Member.rest).getD []) ++ data)
    (s.commands.foldl (act conn pollTime) B).update conn fun m =>
      { m with rest := s.rest, muted := m.muted || s.stop }
  | .close conn =>
    { B with subs := {e ∈ B.subs | e.1 ≠ conn} }.update conn fun m =>
      { m with muted := true, left := true }
  | .timePublish now => B.publish (text "utc_time") (toString now) now

end Board

/-! ### How the hub follows the board -/

/-- The bytes of a publication. -/
def wire (publication : List UInt8 × List UInt8) : List UInt8 :=
  encode ⟨text "pub", publication.1, publication.2⟩

/-- What a topic has sent last is what the board has for it. -/
def LastAgrees (t : Topic) : Option (List UInt8 × ℤ) → Prop
  | none => t.lastPubTime = 0
  | some (content, time) => t.content = content ∧ t.lastPubTime = time

/-- A connection has been sent what its member has been told. -/
structure PeerAgrees (p : Peer) (m : Member) : Prop where
  sent : p.sent = m.told.map wire
  muted : (p.shutdown || p.closed) = m.muted
  left : p.closed = m.left

/-- The topics that a connection has subscribed to. -/
def PubSubHandler.subscription (h : PubSubHandler) (conn : ℕ) : List (List UInt8) :=
  ((h.conns conn).map Peer.subscription).getD []

/-- The hub and the board, but for the bytes that have not been read. -/
structure Follows (h : PubSubHandler) (B : Board) : Prop where
  topic : ∀ t, (h.getTopic t).topic = t
  subs_nodup : ∀ t, (h.getTopic t).subs.Nodup
  subs : ∀ conn t, conn ∈ (h.getTopic t).subs ↔ (conn, t) ∈ B.subs
  subscription_nodup : ∀ conn, (h.subscription conn).Nodup
  subscription : ∀ conn t, t ∈ h.subscription conn ↔ (conn, t) ∈ B.subs
  last : ∀ t, LastAgrees (h.getTopic t) (B.last t)
  members : ∀ conn, Option.Rel PeerAgrees (h.conns conn) (B.members conn)

variable {h h' : PubSubHandler} {B B' : Board} {conn : ℕ}

/-- Nothing changes what has been received. -/
structure Keeps (h h' : PubSubHandler) (B B' : Board) : Prop where
  inputBuf : ∀ conn, (h'.conns conn).map Peer.inputBuf = (h.conns conn).map Peer.inputBuf
  closed : ∀ conn, (h'.conns conn).map Peer.closed = (h.conns conn).map Peer.closed
  rest : ∀ conn, (B'.members conn).map Member.rest = (B.members conn).map Member.rest

/-- Nothing done changes nothing that has been received. -/
theorem Keeps.refl (h : PubSubHandler) (B : Board) : Keeps h h B B :=
  ⟨fun _ => rfl, fun _ => rfl, fun _ => rfl⟩

/-- Two steps, one after the other, that change nothing that has been received. -/
theorem Keeps.trans {h'' : PubSubHandler} {B'' : Board} (hk : Keeps h h' B B')
    (hk' : Keeps h' h'' B' B'') : Keeps h h'' B B'' :=
  ⟨fun c => (hk'.inputBuf c).trans (hk.inputBuf c), fun c => (hk'.closed c).trans (hk.closed c),
    fun c => (hk'.rest c).trans (hk.rest c)⟩

/-- A change of one connection's context, read at any connection. -/
theorem modify_conns (h : PubSubHandler) (conn : ℕ) (f : Peer → Peer) (c : ℕ) :
    (h.modify conn f).conns c = if c = conn then (h.conns c).map f else h.conns c := by
  unfold PubSubHandler.modify
  dsimp only
  rw [Function.update_apply]
  split_ifs with hc
  · rw [hc]
  · rfl

/-- A change of one member, read at any member. -/
theorem update_members (B : Board) (conn : ℕ) (f : Member → Member) (c : ℕ) :
    (B.update conn f).members c = if c = conn then (B.members c).map f else B.members c := by
  unfold Board.update
  dsimp only
  rw [Function.update_apply]
  split_ifs with hc
  · rw [hc]
  · rfl

/-- A topic that is set, read at any topic. -/
theorem getTopic_setTopic (h : PubSubHandler) (topic t : List UInt8) (T : Topic) :
    (h.setTopic topic T).getTopic t = if t = topic then T else h.getTopic t := by
  unfold PubSubHandler.getTopic PubSubHandler.setTopic
  dsimp only
  rw [Function.update_apply]
  split_ifs <;> rfl

/-- A change of a context is no change of the topics. -/
theorem getTopic_modify (h : PubSubHandler) (conn : ℕ) (f : Peer → Peer) (t : List UInt8) :
    (h.modify conn f).getTopic t = h.getTopic t := rfl

/-- What holds of a context and its member before two changes of them holds
after them, when the changes keep it. -/
theorem rel_map {r : Peer → Member → Prop} {f : Peer → Peer} {g : Member → Member}
    {a : Option Peer} {b : Option Member} (hab : Option.Rel PeerAgrees a b)
    (hfg : ∀ p m, PeerAgrees p m → r (f p) (g m)) : Option.Rel r (a.map f) (b.map g) := by
  cases hab with
  | none => exact .none
  | some hpm => exact .some (hfg _ _ hpm)

/-- A change of the context that the member does not see. -/
theorem rel_map_left {f : Peer → Peer} {a : Option Peer} {b : Option Member}
    (hab : Option.Rel PeerAgrees a b) (hf : ∀ p m, PeerAgrees p m → PeerAgrees (f p) m) :
    Option.Rel PeerAgrees (a.map f) b := by
  cases hab with
  | none => exact .none
  | some hpm => exact .some (hf _ _ hpm)

/-! ### Sending -/

/-- The text of a topic's publication is the wire form of its content. -/
theorem makeMsg_eq (t : Topic) : t.makeMsg = wire (t.topic, t.content) := by
  have hpub : text "pub " = text "pub" ++ [32] := by decide +kernel
  unfold Topic.makeMsg wire encode
  dsimp only
  rw [if_pos rfl, hpub]
  simp only [List.append_assoc, List.cons_append, List.nil_append]

/-- A send changes what was sent, and neither the buffer, nor the subscriptions,
nor whether the connection is closed. -/
theorem send_cases (p : Peer) (message : List UInt8) :
    (p.send message).inputBuf = p.inputBuf ∧ (p.send message).closed = p.closed ∧
      (p.send message).subscription = p.subscription := by
  unfold Peer.send
  split <;> exact ⟨rfl, rfl, rfl⟩

/-- What a member is told does not touch the bytes it has left. -/
theorem tell_rest (m : Member) (e : List UInt8 × List UInt8) : (m.tell e).rest = m.rest := by
  unfold Member.tell
  split <;> rfl

/-- **What is sent is told.** -/
theorem PeerAgrees.send {p : Peer} {m : Member} (hpm : PeerAgrees p m)
    (e : List UInt8 × List UInt8) : PeerAgrees (p.send (wire e)) (m.tell e) := by
  unfold Peer.send Member.tell
  rw [← hpm.muted]
  split
  · exact hpm
  · refine ⟨?_, rfl, hpm.left⟩
    dsimp only
    rw [hpm.sent, List.map_append]
    rfl

/-- A send to one connection changes no subscriptions. -/
theorem subscription_modify_send (h : PubSubHandler) (conn : ℕ) (message : List UInt8) (c : ℕ) :
    (h.modify conn (·.send message)).subscription c = h.subscription c := by
  unfold PubSubHandler.subscription
  rw [modify_conns]
  split_ifs with hc
  · rw [Option.map_map]
    congr 2
    exact funext fun p => (send_cases p message).2.2
  · rfl

/-- A publication sent to a connection is told to its member, and the two still
follow each other. -/
theorem Follows.send (hf : Follows h B) (e : List UInt8 × List UInt8) :
    Follows (h.modify conn (·.send (wire e))) (B.update conn (·.tell e)) := by
  constructor
  · exact hf.topic
  · exact hf.subs_nodup
  · exact hf.subs
  · intro c
    rw [subscription_modify_send]
    exact hf.subscription_nodup c
  · intro c t
    rw [subscription_modify_send]
    exact hf.subscription c t
  · exact hf.last
  · intro c
    rw [modify_conns, update_members]
    split_ifs
    · exact rel_map (hf.members c) fun p m hpm => hpm.send e
    · exact hf.members c

/-- A send changes nothing that has been received. -/
theorem keeps_send (h : PubSubHandler) (B : Board) (conn : ℕ) (e : List UInt8 × List UInt8) :
    Keeps h (h.modify conn (·.send (wire e))) B (B.update conn (·.tell e)) := by
  constructor <;> intro c
  · rw [modify_conns]
    split_ifs
    · rw [Option.map_map]
      exact congrArg (fun f => Option.map f (h.conns c))
        (funext fun p => (send_cases p (wire e)).1)
    · rfl
  · rw [modify_conns]
    split_ifs
    · rw [Option.map_map]
      exact congrArg (fun f => Option.map f (h.conns c))
        (funext fun p => (send_cases p (wire e)).2.1)
    · rfl
  · rw [update_members]
    split_ifs
    · rw [Option.map_map]
      exact congrArg (fun f => Option.map f (B.members c)) (funext fun m => tell_rest m e)
    · rfl

/-- A message to each of some connections. -/
theorem foldl_send (message : List UInt8) (subs : List ℕ) (hnodup : subs.Nodup)
    (h : PubSubHandler) :
    (subs.foldl (fun h conn => h.modify conn (·.send message)) h).topics = h.topics ∧
      ∀ c, (subs.foldl (fun h conn => h.modify conn (·.send message)) h).conns c =
        if c ∈ subs then (h.conns c).map (·.send message) else h.conns c := by
  induction subs generalizing h with
  | nil => exact ⟨rfl, fun c => (if_neg List.not_mem_nil).symm⟩
  | cons conn subs ih =>
    obtain ⟨hnot, hnodup⟩ := List.nodup_cons.1 hnodup
    obtain ⟨htopics, hconns⟩ := ih hnodup (h.modify conn (·.send message))
    refine ⟨htopics, fun c => ?_⟩
    rw [List.foldl_cons, hconns, modify_conns]
    by_cases hc : c = conn
    · subst hc
      rw [if_neg hnot, if_pos rfl, if_pos List.mem_cons_self]
    · rw [if_neg hc]
      simp only [List.mem_cons, hc, false_or]

/-! ### Publishing -/

open Classical in
/-- What the hub has after a publication. -/
theorem doPublish_spec (hf : Follows h B) (topic content : List UInt8) (time : ℤ) :
    (∀ t, (h.doPublish topic content time).getTopic t =
      if t = topic then { h.getTopic topic with content := content, lastPubTime := time }
      else h.getTopic t) ∧
    ∀ c, (h.doPublish topic content time).conns c =
      if (c, topic) ∈ B.subs then (h.conns c).map (·.send (wire (topic, content)))
      else h.conns c := by
  let t : Topic := { h.getTopic topic with content := content, lastPubTime := time }
  obtain ⟨htopics, hconns⟩ := foldl_send t.makeMsg t.subs (hf.subs_nodup topic)
    (h.setTopic topic t)
  have hmsg : t.makeMsg = wire (topic, content) := by
    rw [makeMsg_eq]
    exact congrArg (fun s => wire (s, content)) (hf.topic topic)
  constructor
  · intro s
    refine Eq.trans ?_ (getTopic_setTopic h topic s t)
    unfold PubSubHandler.getTopic
    exact congrArg (fun f => (f s).getD (⟨s, [], 0, []⟩ : Topic)) htopics
  · intro c
    refine (hconns c).trans ?_
    rw [hmsg]
    exact if_congr (hf.subs c topic) rfl rfl

open Classical in
/-- A publication reaches the members that have subscribed to the topic. -/
theorem publish_members (B : Board) (topic content : List UInt8) (time : ℤ) (c : ℕ) :
    (B.publish topic content time).members c =
      if (c, topic) ∈ B.subs then (B.members c).map (·.tell (topic, content))
      else B.members c := rfl

/-- A change of a context that leaves its subscriptions, where there may be
none. -/
theorem option_map_subscription {a : Option Peer} {f : Peer → Peer}
    (hf : ∀ p, (f p).subscription = p.subscription) :
    ((a.map f).map Peer.subscription).getD [] = (a.map Peer.subscription).getD [] := by
  cases a with
  | none => rfl
  | some p => exact hf p

/-- Publishing changes no subscriptions. -/
theorem subscription_doPublish (hf : Follows h B) (topic content : List UInt8) (time : ℤ) (c : ℕ) :
    (h.doPublish topic content time).subscription c = h.subscription c := by
  unfold PubSubHandler.subscription
  rw [(doPublish_spec hf topic content time).2]
  split
  · exact option_map_subscription fun p => (send_cases p _).2.2
  · rfl

/-- **A publication.** -/
theorem Follows.publish (hf : Follows h B) (topic content : List UInt8) (time : ℤ) :
    Follows (h.doPublish topic content time) (B.publish topic content time) ∧
      Keeps h (h.doPublish topic content time) B (B.publish topic content time) := by
  obtain ⟨htopic, hconns⟩ := doPublish_spec hf topic content time
  refine ⟨⟨?_, ?_, ?_, ?_, ?_, ?_, ?_⟩, ?_, ?_, ?_⟩
  · intro t
    rw [htopic]
    split_ifs with ht
    · exact (hf.topic topic).trans ht.symm
    · exact hf.topic t
  · intro t
    rw [htopic]
    split_ifs
    · exact hf.subs_nodup topic
    · exact hf.subs_nodup t
  · intro c t
    rw [htopic]
    split_ifs with ht
    · exact ht ▸ hf.subs c topic
    · exact hf.subs c t
  · intro c
    rw [subscription_doPublish hf]
    exact hf.subscription_nodup c
  · intro c t
    rw [subscription_doPublish hf]
    exact hf.subscription c t
  · intro t
    have hlast : (B.publish topic content time).last t =
        if t = topic then some (content, time) else B.last t := Function.update_apply ..
    rw [htopic, hlast]
    split_ifs
    · exact ⟨rfl, rfl⟩
    · exact hf.last t
  · intro c
    rw [hconns, publish_members]
    split_ifs
    · exact rel_map (hf.members c) fun p m hpm => hpm.send (topic, content)
    · exact hf.members c
  · intro c
    rw [hconns]
    split_ifs
    · rw [Option.map_map]
      exact congrArg (fun f => Option.map f (h.conns c)) (funext fun p => (send_cases p _).1)
    · rfl
  · intro c
    rw [hconns]
    split_ifs
    · rw [Option.map_map]
      exact congrArg (fun f => Option.map f (h.conns c)) (funext fun p => (send_cases p _).2.1)
    · rfl
  · intro c
    rw [publish_members]
    split_ifs
    · rw [Option.map_map]
      exact congrArg (fun f => Option.map f (B.members c)) (funext fun m => tell_rest m _)
    · rfl

/-! ### Subscribing -/

/-- Other topics in the context of a connection. -/
theorem subscription_modify (h : PubSubHandler) (f : List (List UInt8) → List (List UInt8))
    (hconn : h.conns conn ≠ none) (c : ℕ) :
    (h.modify conn fun p => { p with subscription := f p.subscription }).subscription c =
      if c = conn then f (h.subscription c) else h.subscription c := by
  unfold PubSubHandler.subscription
  rw [modify_conns]
  split_ifs with hc
  · subst hc
    cases hp : h.conns c with
    | none => exact absurd hp hconn
    | some p => rfl
  · rfl

/-- **Both indices change in one place**: `P` says whether the connection has
subscribed to the topic then. -/
theorem Follows.index (hf : Follows h B) (hconn : h.conns conn ≠ none) (topic : List UInt8)
    {l : List ℕ} {f : List (List UInt8) → List (List UInt8)} {S : Set (ℕ × List UInt8)} (P : Prop)
    (hl : l.Nodup) (hlist : ∀ ts : List (List UInt8), ts.Nodup → (f ts).Nodup)
    (hS : ∀ c t, (c, t) ∈ S ↔ c = conn ∧ t = topic ∧ P ∨ ¬ (c = conn ∧ t = topic) ∧ (c, t) ∈ B.subs)
    (hmem : ∀ c, c ∈ l ↔ c = conn ∧ P ∨ c ≠ conn ∧ c ∈ (h.getTopic topic).subs)
    (htopics : ∀ ts : List (List UInt8), ts.Nodup →
      ∀ t, t ∈ f ts ↔ t = topic ∧ P ∨ t ≠ topic ∧ t ∈ ts) :
    Follows ((h.modify conn fun p => { p with subscription := f p.subscription }).setTopic topic
        { h.getTopic topic with subs := l }) { B with subs := S } ∧
      Keeps h ((h.modify conn fun p => { p with subscription := f p.subscription }).setTopic topic
        { h.getTopic topic with subs := l }) B { B with subs := S } := by
  have htopic := getTopic_setTopic
    (h.modify conn fun p => { p with subscription := f p.subscription }) topic
  have hsubscription : ∀ c, ((h.modify conn fun p =>
      { p with subscription := f p.subscription }).setTopic topic
        { h.getTopic topic with subs := l }).subscription c =
      if c = conn then f (h.subscription c) else h.subscription c :=
    subscription_modify h f hconn
  refine ⟨⟨?_, ?_, ?_, ?_, ?_, ?_, ?_⟩, ?_, ?_, fun _ => rfl⟩
  · intro t
    rw [htopic]
    split_ifs with ht
    · exact (hf.topic topic).trans ht.symm
    · exact hf.topic t
  · intro t
    rw [htopic]
    split_ifs
    · exact hl
    · exact hf.subs_nodup t
  · intro c t
    have hold := hf.subs c t
    rw [htopic, hS]
    split_ifs with ht
    · subst ht
      rw [← hold]
      have := hmem c
      tauto
    · rw [getTopic_modify]
      tauto
  · intro c
    rw [hsubscription]
    split_ifs
    · exact hlist _ (hf.subscription_nodup c)
    · exact hf.subscription_nodup c
  · intro c t
    have hold := hf.subscription c t
    rw [hsubscription, hS]
    split_ifs with hc
    · subst hc
      rw [← hold]
      have := htopics _ (hf.subscription_nodup c) t
      tauto
    · tauto
  · intro t
    rw [htopic]
    split_ifs with ht
    · exact ht ▸ hf.last topic
    · exact hf.last t
  · intro c
    have hpm := hf.members c
    show Option.Rel PeerAgrees ((h.modify conn _).conns c) (B.members c)
    rw [modify_conns]
    split_ifs
    · exact rel_map_left hpm fun p m hpm => ⟨hpm.sent, hpm.muted, hpm.left⟩
    · exact hpm
  · intro c
    show ((h.modify conn _).conns c).map Peer.inputBuf = _
    rw [modify_conns]
    split_ifs
    · rw [Option.map_map]
      rfl
    · rfl
  · intro c
    show ((h.modify conn _).conns c).map Peer.closed = _
    rw [modify_conns]
    split_ifs
    · rw [Option.map_map]
      rfl
    · rfl

/-- **A subscription**, and the last content for the new subscriber. -/
theorem Follows.subscribe (hf : Follows h B) (hconn : h.conns conn ≠ none) (topic : List UInt8) :
    Follows (h.doSubscribe conn topic) (B.subscribe conn topic) ∧
      Keeps h (h.doSubscribe conn topic) B (B.subscribe conn topic) := by
  obtain ⟨hindex, hkeeps⟩ := hf.index hconn topic (f := fun ts => ts.insert topic)
    (l := (h.getTopic topic).subs.insert conn) (S := insert (conn, topic) B.subs) True
    (List.Nodup.insert (hf.subs_nodup topic)) (fun ts hts => List.Nodup.insert hts)
    (fun c t => by
      rw [Set.mem_insert_iff, Prod.mk.injEq]
      tauto)
    (fun c => by
      rw [List.mem_insert_iff]
      tauto)
    (fun ts _ t => by
      rw [List.mem_insert_iff]
      tauto)
  have hlast := hf.last topic
  unfold PubSubHandler.doSubscribe Board.subscribe
  dsimp only
  rw [getTopic_modify]
  cases hB : B.last topic with
  | none =>
    rw [hB] at hlast
    have htime : (h.getTopic topic).lastPubTime = 0 := hlast
    have hnot : ¬ 0 < (h.getTopic topic).lastPubTime := by
      rw [htime]
      exact lt_irrefl 0
    rw [if_neg hnot]
    exact ⟨hindex, hkeeps⟩
  | some e =>
    obtain ⟨content, time⟩ := e
    rw [hB] at hlast
    obtain ⟨hcontent, htime⟩ := hlast
    have hmsg : Topic.makeMsg { h.getTopic topic with
        subs := (h.getTopic topic).subs.insert conn } = wire (topic, content) := by
      rw [makeMsg_eq]
      dsimp only
      rw [hf.topic topic, hcontent]
    dsimp only
    by_cases hpos : 0 < time
    · rw [if_pos hpos, if_pos (htime ▸ hpos), hmsg]
      exact ⟨hindex.send (topic, content), hkeeps.trans (keeps_send _ _ conn (topic, content))⟩
    · rw [if_neg hpos, if_neg (htime ▸ hpos)]
      exact ⟨hindex, hkeeps⟩

/-- **The end of a subscription.** -/
theorem Follows.unsubscribe (hf : Follows h B) (hconn : h.conns conn ≠ none)
    (topic : List UInt8) :
    Follows (h.doUnsubscribe conn topic) (B.unsubscribe conn topic) ∧
      Keeps h (h.doUnsubscribe conn topic) B (B.unsubscribe conn topic) :=
  hf.index hconn topic (f := fun ts => ts.erase topic)
    (l := (h.getTopic topic).subs.erase conn) (S := B.subs \ {(conn, topic)}) False
    (List.Nodup.erase conn (hf.subs_nodup topic)) (fun ts hts => List.Nodup.erase topic hts)
    (fun c t => by
      rw [Set.mem_sdiff, Set.mem_singleton_iff, Prod.mk.injEq]
      tauto)
    (fun c => by
      rw [(hf.subs_nodup topic).mem_erase_iff]
      tauto)
    (fun ts hts t => by
      rw [hts.mem_erase_iff]
      tauto)

/-- A connection that was there is there still. -/
theorem Keeps.conns_ne_none (hk : Keeps h h' B B') (hconn : h.conns conn ≠ none) :
    h'.conns conn ≠ none := by
  intro hnone
  have hbuf := hk.inputBuf conn
  rw [hnone] at hbuf
  exact hconn (Option.map_eq_none_iff.1 hbuf.symm)

/-! ### What a connection asks for -/

/-- What the hub does for a command. -/
def PubSubHandler.obey (conn : ℕ) (time : ℤ) (h : PubSubHandler) : Command → PubSubHandler
  | .pub topic content => h.doPublish topic content time
  | .sub topic => h.doSubscribe conn topic
  | .unsub topic => h.doUnsubscribe conn topic

/-- **What was asked for is done.** -/
theorem Follows.act (hf : Follows h B) (hconn : h.conns conn ≠ none) (time : ℤ) (c : Command) :
    Follows (h.obey conn time c) (B.act conn time c) ∧
      Keeps h (h.obey conn time c) B (B.act conn time c) := by
  cases c with
  | pub topic content => exact hf.publish topic content time
  | sub topic => exact hf.subscribe hconn topic
  | unsub topic => exact hf.unsubscribe hconn topic

/-- Only the one who asks is subscribed. -/
theorem act_subs {time : ℤ} {c : Command} {d : ℕ} {t : List UInt8}
    (h : (d, t) ∈ (B.act conn time c).subs) : (d, t) ∈ B.subs ∨ d = conn := by
  cases c with
  | pub topic content => exact .inl h
  | sub topic =>
    have hmem : (d, t) ∈ insert (conn, topic) B.subs := by
      have hsubs : (B.subscribe conn topic).subs = insert (conn, topic) B.subs := by
        unfold Board.subscribe
        dsimp only
        split
        · split_ifs <;> rfl
        · rfl
      exact hsubs ▸ h
    rcases Set.mem_insert_iff.1 hmem with heq | hold
    · exact .inr (Prod.mk.inj heq).1
    · exact .inl hold
  | unsub topic => exact .inl h.1

/-- An incomplete message asks for nothing yet; its bytes stay. -/
theorem asked_wait {a : List UInt8} (h : front a = .wait) : asked a = ⟨[], a, false⟩ := by
  unfold asked
  split <;> simp_all

/-- Bytes that are no message ask for nothing and end the conversation. -/
theorem asked_bad {a : List UInt8} (h : front a = .bad) : asked a = ⟨[], a, true⟩ := by
  unfold asked
  split <;> simp_all

/-- A message that is no command ends the conversation, and its bytes are gone. -/
theorem asked_unknown {a r : List UInt8} {m : Message} (h : front a = .frame m r)
    (hm : command m = none) : asked a = ⟨[], r, true⟩ := by
  unfold asked
  split
  case h_3 m' r' h' =>
    obtain ⟨rfl, rfl⟩ := Front.frame.inj (h'.symm.trans h)
    rw [hm]
  all_goals simp_all

/-- A command is asked for first, and then what the bytes behind it ask for. -/
theorem asked_command {a r : List UInt8} {m : Message} {c : Command} (h : front a = .frame m r)
    (hm : command m = some c) :
    asked a = ⟨c :: (asked r).commands, (asked r).rest, (asked r).stop⟩ := by
  rw [asked]
  split
  case h_3 m' r' h' =>
    obtain ⟨rfl, rfl⟩ := Front.frame.inj (h'.symm.trans h)
    rw [hm]
  all_goals simp_all

/-- A connection whose input buffer changes. -/
theorem Follows.modify (hf : Follows h B) (conn : ℕ) (f : Peer → Peer) (g : Member → Member)
    (hsub : ∀ p, (f p).subscription = p.subscription)
    (hfg : ∀ p m, PeerAgrees p m → PeerAgrees (f p) (g m)) :
    Follows (h.modify conn f) (B.update conn g) := by
  have hsubscription : ∀ c, (h.modify conn f).subscription c = h.subscription c := by
    intro c
    unfold PubSubHandler.subscription
    rw [modify_conns]
    split_ifs
    · exact option_map_subscription hsub
    · rfl
  constructor
  · exact hf.topic
  · exact hf.subs_nodup
  · exact hf.subs
  · intro c
    rw [hsubscription]
    exact hf.subscription_nodup c
  · intro c t
    rw [hsubscription]
    exact hf.subscription c t
  · exact hf.last
  · intro c
    rw [modify_conns, update_members]
    split_ifs
    · exact rel_map (hf.members c) hfg
    · exact hf.members c

/-- What a connection has after its bytes have been looked at: `rest` is left of
them, and the others have what they had. -/
structure Took (h h' : PubSubHandler) (conn : ℕ) (rest : List UInt8) : Prop where
  own : ∃ p, h'.conns conn = some p ∧ p.inputBuf.Input ∧ p.inputBuf.readable = rest
  other : ∀ c, c ≠ conn → (h'.conns c).map Peer.inputBuf = (h.conns c).map Peer.inputBuf
  closed : ∀ c, (h'.conns c).map Peer.closed = (h.conns c).map Peer.closed

/-- The members do not have other bytes, and nobody else has subscribed. -/
structure Stays (B B' : Board) (conn : ℕ) : Prop where
  rest : ∀ c, (B'.members c).map Member.rest = (B.members c).map Member.rest
  subs : ∀ c t, (c, t) ∈ B'.subs → (c, t) ∈ B.subs ∨ c = conn

/-- A handler that takes bytes from one connection's buffer has taken them, and
nothing from the others. -/
theorem Took.of_modify {p : Peer} (hp : h.conns conn = some p) (f : Peer → Peer)
    (hclosed : ∀ p, (f p).closed = p.closed) (hin : (f p).inputBuf.Input)
    {rest : List UInt8} (hrest : (f p).inputBuf.readable = rest) :
    Took h (h.modify conn f) conn rest := by
  constructor
  · refine ⟨f p, ?_, hin, hrest⟩
    rw [modify_conns, if_pos rfl, hp]
    rfl
  · intro c hc
    rw [modify_conns, if_neg hc]
  · intro c
    rw [modify_conns]
    split_ifs
    · rw [Option.map_map]
      exact congrArg (fun f => Option.map f (h.conns c)) (funext hclosed)
    · rfl

/-- The board after all that some bytes ask for. -/
noncomputable def Board.serve (B : Board) (conn : ℕ) (time : ℤ) (s : Asked) : Board :=
  (s.commands.foldl (Board.act conn time) B).update conn fun m =>
    { m with muted := m.muted || s.stop }

/-- A change that does nothing. -/
theorem update_id (B : Board) (conn : ℕ) (f : Member → Member) (hf : ∀ m, f m = m) :
    B.update conn f = B := by
  have hid : f = id := funext hf
  subst hid
  unfold Board.update
  rw [Option.map_id, id_eq, Function.update_eq_self]

/-- Nothing was asked for, so nothing is done. -/
theorem serve_nil (B : Board) (conn : ℕ) (time : ℤ) (rest : List UInt8) :
    B.serve conn time ⟨[], rest, false⟩ = B :=
  update_id B conn _ fun m => by rw [Bool.or_false]

/-- A board that is left alone stays. -/
theorem Stays.refl (B : Board) (conn : ℕ) : Stays B B conn := ⟨fun _ => rfl, fun _ _ => .inl⟩

/-- Two steps of one member, one after the other, in which the others keep their
bytes. -/
theorem Stays.trans {B'' : Board} (h : Stays B B' conn) (h' : Stays B' B'' conn) :
    Stays B B'' conn where
  rest c := (h'.rest c).trans (h.rest c)
  subs c t hmem := (h'.subs c t hmem).elim (h.subs c t) .inr

/-- Muting a member leaves everybody's bytes. -/
theorem Stays.mute (B : Board) (conn : ℕ) (stop : Bool) :
    Stays B (B.update conn fun m => { m with muted := m.muted || stop }) conn := by
  refine ⟨fun c => ?_, fun c t => .inl⟩
  rw [update_members]
  split_ifs
  · rw [Option.map_map]
    rfl
  · rfl

/-- Bytes taken in two parts. -/
theorem Took.trans {h'' : PubSubHandler} {rest rest' : List UInt8} (hk : Took h h' conn rest)
    (hk' : Took h' h'' conn rest') : Took h h'' conn rest' :=
  ⟨hk'.own, fun c hc => (hk'.other c hc).trans (hk.other c hc),
    fun c => (hk'.closed c).trans (hk.closed c)⟩

/-- Where nothing changes what has been received. -/
theorem Keeps.took (hk : Keeps h h' B B') {p : Peer} (hp : h.conns conn = some p)
    (hin : p.inputBuf.Input) : Took h h' conn p.inputBuf.readable := by
  refine ⟨?_, fun c _ => hk.inputBuf c, hk.closed⟩
  have hbuf := hk.inputBuf conn
  rw [hp] at hbuf
  obtain ⟨p', hp', hsame⟩ := Option.map_eq_some_iff.1 hbuf
  exact ⟨p', hp', hsame ▸ hin, by rw [hsame]⟩

/-- A round of the loop that has read a message. -/
theorem onMessage_success {fuel : ℕ} {time : ℤ} {p : Peer} {buf : Buffer} {m : Message}
    (hp : h.conns conn = some p) (hparse : parseMessage p.inputBuf = (.kSuccess, buf, m)) :
    h.onMessage (fuel + 1) conn time =
      match command m with
      | some c => ((h.modify conn fun p => { p with inputBuf := buf }).obey conn time c).onMessage
          fuel conn time
      | none => some ((h.modify conn fun p => { p with inputBuf := buf }).shutdown conn) := by
  rw [PubSubHandler.onMessage, hp]
  dsimp only
  rw [hparse]
  dsimp only
  unfold command
  split_ifs <;> rfl

/-- **The loop comes to its end**, and does what the bytes ask for. -/
theorem onMessage_total (time : ℤ) (fuel : ℕ) {p : Peer} (hf : Follows h B)
    (hp : h.conns conn = some p) (hin : p.inputBuf.Input)
    (hfuel : p.inputBuf.readableBytes < fuel) :
    ∃ h', h.onMessage fuel conn time = some h' ∧
      Follows h' (B.serve conn time (asked p.inputBuf.readable)) ∧
      Took h h' conn (asked p.inputBuf.readable).rest ∧
      Stays B (B.serve conn time (asked p.inputBuf.readable)) conn := by
  induction fuel generalizing h B p with
  | zero => exact absurd hfuel (Nat.not_lt_zero _)
  | succ fuel ih =>
    have hspec := parseMessage_spec hin
    rcases hparse : parseMessage p.inputBuf with ⟨result, buf, m⟩
    rw [hparse] at hspec
    cases hfront : front p.inputBuf.readable with
    | wait =>
      rw [hfront] at hspec
      obtain ⟨rfl, -⟩ := hspec
      refine ⟨h, ?_, ?_⟩
      · rw [PubSubHandler.onMessage, hp]
        dsimp only
        rw [hparse]
      · rw [asked_wait hfront, serve_nil]
        exact ⟨hf, (Keeps.refl h B).took hp hin, .refl B conn⟩
    | bad =>
      rw [hfront] at hspec
      obtain ⟨rfl, -⟩ := hspec
      refine ⟨h.shutdown conn, ?_, ?_⟩
      · rw [PubSubHandler.onMessage, hp]
        dsimp only
        rw [hparse]
      · rw [asked_bad hfront]
        exact ⟨hf.modify conn _ _ (fun _ => rfl) fun p m hpm =>
            ⟨hpm.sent, by rw [← hpm.muted, Bool.or_true, Bool.true_or], hpm.left⟩,
          .of_modify hp (fun p => { p with shutdown := true }) (fun _ => rfl) hin rfl,
          .mute B conn true⟩
    | frame m' r =>
      rw [hfront] at hspec
      obtain ⟨rfl, hinput, hread, rfl⟩ := hspec
      have htaken : Took h (h.modify conn fun p => { p with inputBuf := buf }) conn r :=
        .of_modify hp (fun p => { p with inputBuf := buf }) (fun _ => rfl) hinput hread
      have hmodified : Follows (h.modify conn fun p => { p with inputBuf := buf }) B := by
        have hsame := hf.modify conn (fun p => { p with inputBuf := buf }) id
          (fun _ => rfl) fun p m hpm => ⟨hpm.sent, hpm.muted, hpm.left⟩
        rwa [update_id B conn id fun _ => rfl] at hsame
      have hconn : (h.modify conn fun p => { p with inputBuf := buf }).conns conn =
          some { p with inputBuf := buf } := by
        rw [modify_conns, if_pos rfl, hp]
        rfl
      rw [onMessage_success hp hparse]
      cases hm : command m with
      | none =>
        refine ⟨_, rfl, ?_⟩
        rw [asked_unknown hfront hm]
        refine ⟨hmodified.modify conn _ _ (fun _ => rfl) fun p m hpm =>
            ⟨hpm.sent, by rw [← hpm.muted, Bool.or_true, Bool.true_or], hpm.left⟩,
          htaken.trans (.of_modify hconn (fun p => { p with shutdown := true }) (fun _ => rfl)
            hinput hread), .mute B conn true⟩
      | some c =>
        obtain ⟨hacted, hkeeps⟩ := hmodified.act (by rw [hconn]; exact Option.some_ne_none _)
          time c
        have htook := hkeeps.took hconn hinput
        obtain ⟨p', hp', hin', hread'⟩ := htook.own
        have hless : p'.inputBuf.readableBytes < fuel := by
          have hshort := hubReader.shorter hfront
          rw [hin'.toOk.readableBytes_eq, ← hin'.toOk.length_readable, hread', hread]
          rw [hin.toOk.readableBytes_eq, ← hin.toOk.length_readable] at hfuel
          omega
        obtain ⟨h', hrun, hfollows, hmore, hstays⟩ := ih hacted hp' hin' hless
        rw [hread', hread] at hfollows hmore hstays
        refine ⟨h', hrun, ?_⟩
        rw [asked_command hfront hm]
        exact ⟨hfollows, (htaken.trans htook).trans hmore,
          Stays.trans ⟨hkeeps.rest, fun _ _ => act_subs⟩ hstays⟩

/-! ### Events -/

/-- **The hub and the board**: also the bytes that have not been read, and who
has left. -/
structure Agrees (h : PubSubHandler) (B : Board) : Prop extends Follows h B where
  read : ∀ conn p m, h.conns conn = some p → B.members conn = some m →
    p.inputBuf.Input ∧ p.inputBuf.readable = m.rest
  gone : ∀ conn p, h.conns conn = some p → p.closed = true → ∀ t, (conn, t) ∉ B.subs

/-- The hub and the board agree before the first event. -/
theorem agrees_init : Agrees PubSubHandler.init Board.init where
  topic _ := rfl
  subs_nodup _ := List.nodup_nil
  subs _ _ := iff_of_false List.not_mem_nil (Set.notMem_empty _)
  subscription_nodup _ := List.nodup_nil
  subscription _ _ := iff_of_false List.not_mem_nil (Set.notMem_empty _)
  last _ := rfl
  members _ := .none
  read _ _ _ h _ := absurd h nofun
  gone _ _ h _ := absurd h nofun

/-- The bytes of a connection that has what it had. -/
theorem Agrees.read_of (ha : Agrees h B)
    (hbuf : (h'.conns conn).map Peer.inputBuf = (h.conns conn).map Peer.inputBuf)
    (hrest : (B'.members conn).map Member.rest = (B.members conn).map Member.rest) {p : Peer}
    {m : Member} (hp : h'.conns conn = some p) (hm : B'.members conn = some m) :
    p.inputBuf.Input ∧ p.inputBuf.readable = m.rest := by
  rw [hp] at hbuf
  rw [hm] at hrest
  obtain ⟨p₀, hp₀, hsame⟩ := Option.map_eq_some_iff.1 hbuf.symm
  obtain ⟨m₀, hm₀, hsame'⟩ := Option.map_eq_some_iff.1 hrest.symm
  have hold := ha.read conn p₀ m₀ hp₀ hm₀
  rwa [hsame, hsame'] at hold

/-- A connection that comes has subscribed to nothing. -/
theorem Agrees.connection (ha : Agrees h B) (hnone : h.conns conn = none) {buf : Buffer}
    (hbuf : Buffer.new initialSize = some buf) (toString : ℤ → List UInt8) :
    Agrees { h with conns := Function.update h.conns conn (some (.new buf)) }
      (B.step toString (.connection conn)) := by
  obtain ⟨hin, hnil⟩ := Buffer.Input.new (n := initialSize) (by decide) hbuf
  have hconns : ∀ c, Function.update h.conns conn (some (Peer.new buf)) c =
      if c = conn then some (.new buf) else h.conns c := fun c => Function.update_apply ..
  have hmembers : ∀ c, (B.step toString (.connection conn)).members c =
      if c = conn then some ⟨[], [], false, false⟩ else B.members c :=
    fun c => Function.update_apply ..
  have hsubscription : ∀ c, ({ h with
      conns := Function.update h.conns conn (some (Peer.new buf)) } :
      PubSubHandler).subscription c = h.subscription c := by
    intro c
    unfold PubSubHandler.subscription
    dsimp only
    rw [hconns]
    split_ifs with hc
    · rw [hc, hnone]
      rfl
    · rfl
  refine ⟨⟨ha.topic, ha.subs_nodup, ha.subs, ?_, ?_, ha.last, ?_⟩, ?_, ?_⟩
  · intro c
    rw [hsubscription]
    exact ha.subscription_nodup c
  · intro c t
    rw [hsubscription]
    exact ha.subscription c t
  · intro c
    dsimp only
    rw [hconns, hmembers]
    split_ifs
    · exact .some ⟨rfl, rfl, rfl⟩
    · exact ha.members c
  · intro c p m hp hm
    dsimp only at hp
    rw [hconns] at hp
    rw [hmembers] at hm
    split_ifs at hp hm
    · cases hp
      cases hm
      exact ⟨hin, hnil⟩
    · exact ha.read c p m hp hm
  · intro c p hp hclosed t
    dsimp only at hp
    rw [hconns] at hp
    split_ifs at hp
    · cases hp
      cases hclosed
    · exact ha.gone c p hp hclosed t

/-- A context in the relation has its member. -/
theorem some_of_rel {r : Peer → Member → Prop} {p : Peer} {b : Option Member}
    (h : Option.Rel r (some p) b) : ∃ m, b = some m ∧ r p m := by
  cases h with
  | some hr => exact ⟨_, rfl, hr⟩

/-- Bytes come. -/
theorem Agrees.message (ha : Agrees h B) {p : Peer} (hp : h.conns conn = some p)
    (hopen : p.closed = false) {data : List UInt8} {buf : Buffer}
    (hoffered : data.length ≤ p.inputBuf.offered) (hread : p.inputBuf.readFd data = some buf)
    (time : ℤ) (toString : ℤ → List UInt8) :
    ∃ h', (h.modify conn fun p => { p with inputBuf := buf }).onMessage (buf.readableBytes + 1)
        conn time = some h' ∧ Agrees h' (B.step toString (.message conn data time)) := by
  obtain ⟨m, hm, -⟩ := some_of_rel (hp ▸ ha.members conn)
  obtain ⟨hin, hrest⟩ := ha.read conn p m hp hm
  obtain ⟨hinput, hreadable⟩ := hin.readFd hoffered hread
  have hmodified : Follows (h.modify conn fun p => { p with inputBuf := buf }) B := by
    have hsame := ha.toFollows.modify conn (fun p => { p with inputBuf := buf }) id
      (fun _ => rfl) fun p m hpm => ⟨hpm.sent, hpm.muted, hpm.left⟩
    rwa [update_id B conn id fun _ => rfl] at hsame
  have hconn : (h.modify conn fun p => { p with inputBuf := buf }).conns conn =
      some { p with inputBuf := buf } := by
    rw [modify_conns, if_pos rfl, hp]
    rfl
  have htaken : Took h (h.modify conn fun p => { p with inputBuf := buf }) conn buf.readable :=
    .of_modify hp (fun p => { p with inputBuf := buf }) (fun _ => rfl) hinput rfl
  obtain ⟨h', hrun, hfollows, htook, hstays⟩ :=
    onMessage_total time (buf.readableBytes + 1) hmodified hconn hinput (Nat.lt_succ_self _)
  have htook := htaken.trans htook
  dsimp only at hfollows htook hstays
  rw [hreadable, hrest] at hfollows htook hstays
  have hasked : ((B.members conn).map Member.rest).getD [] = m.rest := by
    rw [hm]
    rfl
  refine ⟨h', hrun, ?_⟩
  -- the board keeps what is left of the bytes
  have hboard : B.step toString (.message conn data time) =
      (B.serve conn time (asked (m.rest ++ data))).update conn fun m' =>
        { m' with rest := (asked (m.rest ++ data)).rest } := by
    unfold Board.step
    dsimp only
    rw [hasked]
    unfold Board.serve Board.update
    dsimp only
    rw [Function.update_idem, Function.update_self, Option.map_map]
    rfl
  rw [hboard]
  generalize asked (m.rest ++ data) = s at hfollows htook hstays ⊢
  refine ⟨?_, ?_, ?_⟩
  · have hsame := hfollows.modify conn id (fun m' => { m' with rest := s.rest })
      (fun _ => rfl) fun p m hpm => ⟨hpm.sent, hpm.muted, hpm.left⟩
    have hid : h'.modify conn id = h' := by
      unfold PubSubHandler.modify
      rw [Option.map_id, id_eq, Function.update_eq_self]
    rwa [hid] at hsame
  · intro c p' m' hp' hm'
    rw [update_members] at hm'
    split_ifs at hm' with hc
    · subst hc
      obtain ⟨m₁, -, rfl⟩ := Option.map_eq_some_iff.1 hm'
      obtain ⟨p₁, hp₁, hin₁, hread₁⟩ := htook.own
      obtain rfl := Option.some.inj (hp₁.symm.trans hp')
      exact ⟨hin₁, hread₁⟩
    · exact ha.read_of (htook.other c hc) (hstays.rest c) hp' hm'
  · intro c p' hp' hclosed t hmem
    have hflag := htook.closed c
    rw [hp'] at hflag
    obtain ⟨p₀, hp₀, hsame⟩ := Option.map_eq_some_iff.1 hflag.symm
    rcases hstays.subs c t hmem with hold | rfl
    · exact ha.gone c p₀ hp₀ (hsame.trans hclosed) t hold
    · obtain rfl := Option.some.inj (hp.symm.trans hp₀)
      exact absurd (hopen.symm.trans (hsame.trans hclosed)) nofun

/-- The subscriptions of a connection end one after the other. -/
theorem Follows.unsubscribeAll (ts : List (List UInt8)) (hf : Follows h B)
    (hconn : h.conns conn ≠ none) :
    Follows (ts.foldl (·.doUnsubscribe conn ·) h)
        { B with subs := {e ∈ B.subs | ¬ (e.1 = conn ∧ e.2 ∈ ts)} } ∧
      Keeps h (ts.foldl (·.doUnsubscribe conn ·) h) B
        { B with subs := {e ∈ B.subs | ¬ (e.1 = conn ∧ e.2 ∈ ts)} } := by
  induction ts generalizing h B with
  | nil =>
    have hall : {e ∈ B.subs | ¬ (e.1 = conn ∧ e.2 ∈ ([] : List (List UInt8)))} = B.subs := by
      ext e
      simp
    rw [hall]
    exact ⟨hf, Keeps.refl h B⟩
  | cons t ts ih =>
    obtain ⟨hone, hkeeps⟩ := hf.unsubscribe hconn t
    obtain ⟨hrest, hkeeps'⟩ := ih hone (hkeeps.conns_ne_none hconn)
    have hsubs : {e ∈ (B.unsubscribe conn t).subs | ¬ (e.1 = conn ∧ e.2 ∈ ts)} =
        {e ∈ B.subs | ¬ (e.1 = conn ∧ e.2 ∈ t :: ts)} := by
      ext ⟨c, s⟩
      simp only [Board.unsubscribe, Set.mem_ofPred_eq, Set.mem_sdiff, Set.mem_singleton_iff,
        Prod.mk.injEq, List.mem_cons]
      tauto
    rw [hsubs] at hrest hkeeps'
    exact ⟨hrest, hkeeps.trans hkeeps'⟩

/-- A connection is closed. -/
theorem Agrees.close (ha : Agrees h B) {p : Peer} (hp : h.conns conn = some p)
    (toString : ℤ → List UInt8) :
    Agrees ((h.onClose conn).modify conn fun p => { p with closed := true })
      (B.step toString (.close conn)) := by
  have hconn : h.conns conn ≠ none := by
    rw [hp]
    exact Option.some_ne_none p
  obtain ⟨hf, hkeeps⟩ := ha.toFollows.unsubscribeAll (h.subscription conn) hconn
  have hsubs : {e ∈ B.subs | ¬ (e.1 = conn ∧ e.2 ∈ h.subscription conn)} =
      {e ∈ B.subs | e.1 ≠ conn} := by
    ext ⟨c, t⟩
    have hiff := ha.subscription conn t
    simp only [Set.mem_ofPred_eq, ne_eq]
    constructor
    · rintro ⟨hmem, hnot⟩
      refine ⟨hmem, fun hc => hnot ⟨hc, ?_⟩⟩
      rw [hiff, ← hc]
      exact hmem
    · rintro ⟨hmem, hne⟩
      exact ⟨hmem, fun h => hne h.1⟩
  rw [hsubs] at hf hkeeps
  have hclose : h.onClose conn = (h.subscription conn).foldl (·.doUnsubscribe conn ·) h := rfl
  rw [hclose]
  generalize (h.subscription conn).foldl (·.doUnsubscribe conn ·) h = h' at hf hkeeps ⊢
  refine ⟨hf.modify conn _ _ (fun _ => rfl) fun p m hpm => ⟨hpm.sent, ?_, rfl⟩, ?_, ?_⟩
  · exact Bool.or_true _
  · intro c p' m' hp' hm'
    refine ha.read_of ((?_ : Option.map _ _ = _).trans (hkeeps.inputBuf c))
      ((?_ : Option.map _ _ = _).trans (hkeeps.rest c)) hp' hm'
    · rw [modify_conns]
      split_ifs
      · rw [Option.map_map]
        rfl
      · rfl
    · refine (congrArg (Option.map Member.rest) (update_members _ conn _ c)).trans ?_
      split_ifs
      · rw [Option.map_map]
        rfl
      · rfl
  · intro c p' hp' hclosed t hmem
    rw [modify_conns] at hp'
    split_ifs at hp' with hc
    · exact hmem.2 hc
    · have hflag := hkeeps.closed c
      rw [hp'] at hflag
      obtain ⟨p₀, hp₀, hsame⟩ := Option.map_eq_some_iff.1 hflag.symm
      exact ha.gone c p₀ hp₀ (hsame.trans hclosed) t hmem.1

/-- The timer. -/
theorem Agrees.publish (ha : Agrees h B) (topic content : List UInt8) (time : ℤ) :
    Agrees (h.doPublish topic content time) (B.publish topic content time) := by
  obtain ⟨hf, hkeeps⟩ := ha.toFollows.publish topic content time
  refine ⟨hf, fun c p m hp hm => ha.read_of (hkeeps.inputBuf c) (hkeeps.rest c) hp hm, ?_⟩
  intro c p hp hclosed t hmem
  have hflag := hkeeps.closed c
  rw [hp] at hflag
  obtain ⟨p₀, hp₀, hsame⟩ := Option.map_eq_some_iff.1 hflag.symm
  exact ha.gone c p₀ hp₀ (hsame.trans hclosed) t hmem

/-- **Every event that the hub handles is the step of the board.** -/
theorem agrees_step (toString : ℤ → List UInt8) (ha : Agrees h B) (e : Event)
    (hstep : step toString h e = some h') : Agrees h' (B.step toString e) := by
  cases e with
  | connection conn =>
    unfold step at hstep
    dsimp only at hstep
    split at hstep
    · cases hstep
    case h_2 hnone =>
      obtain ⟨buf, hbuf, rfl⟩ := Option.map_eq_some_iff.1 hstep
      exact ha.connection hnone hbuf toString
  | message conn data time =>
    unfold step at hstep
    dsimp only at hstep
    split at hstep
    · cases hstep
    case h_2 p hp =>
      split_ifs at hstep with hopen hoffered
      obtain ⟨buf, hread, hrun⟩ := Option.bind_eq_some_iff.1 hstep
      obtain ⟨h₁, hrun₁, hagrees⟩ := ha.message hp (Bool.not_eq_true _ ▸ hopen) hoffered hread
        time toString
      obtain rfl := Option.some.inj (hrun₁.symm.trans hrun)
      exact hagrees
  | close conn =>
    unfold step at hstep
    dsimp only at hstep
    split at hstep
    · cases hstep
    case h_2 p hp =>
      split_ifs at hstep
      cases hstep
      exact ha.close hp toString
  | timePublish now =>
    cases hstep
    exact ha.publish _ _ now

/-- The hub and the board agree after any run of events. -/
theorem agrees_run (toString : ℤ → List UInt8) (es : List Event) (ha : Agrees h B)
    (hrun : run (step toString) h es = some h') :
    Agrees h' (es.foldl (Board.step toString) B) := by
  induction es generalizing h B with
  | nil =>
    cases hrun
    exact ha
  | cons e es ih =>
    obtain ⟨h₁, hstep, hrest⟩ := run_cons_eq_some.1 hrun
    exact ih (agrees_step toString ha e hstep) hrest

/-- The members and subscriptions after some events. -/
noncomputable def Board.after (toString : ℤ → List UInt8) (es : List Event) : Board :=
  es.foldl (Board.step toString) Board.init

/-- **The hub does what the board says.**  Over any events in any order: a
connection is among the subscribers of a topic exactly when the topic is in its
context, and when the board has it so; a closed connection is nowhere; and what
a connection has been sent are the publications its member has been told. -/
theorem hub_refines (toString : ℤ → List UInt8) (es : List Event) (h : PubSubHandler)
    (hrun : run (step toString) .init es = some h) :
    (∀ conn t, conn ∈ (h.getTopic t).subs ↔ t ∈ h.subscription conn) ∧
    (∀ conn t, conn ∈ (h.getTopic t).subs ↔ (conn, t) ∈ (Board.after toString es).subs) ∧
    ∀ conn p, h.conns conn = some p →
      (p.closed = true → ∀ t, conn ∉ (h.getTopic t).subs) ∧
      ∃ m, (Board.after toString es).members conn = some m ∧ p.sent = m.told.map wire := by
  have ha := agrees_run toString es agrees_init hrun
  refine ⟨fun conn t => (ha.subs conn t).trans (ha.subscription conn t).symm, ha.subs, ?_⟩
  intro conn p hp
  obtain ⟨m, hm, hpm⟩ := some_of_rel (hp ▸ ha.members conn)
  exact ⟨fun hclosed t hmem => ha.gone conn p hp hclosed t ((ha.subs conn t).1 hmem), m, hm,
    hpm.sent⟩

/-- A client that subscribes, before the timer expires. -/
def someEvents : List Event :=
  [.connection 1, .message 1 (text "sub utc_time" ++ CRLF) 3, .timePublish 5]

/-- A client that subscribes and then hears from the timer: one publication,
which its member has been told. -/
theorem hub_refines_one : ∃ h, run (step fun _ => text "now") .init someEvents = some h ∧
    ∀ conn p, h.conns conn = some p →
      ∃ m, (Board.after (fun _ => text "now") someEvents).members conn = some m ∧
        p.sent = m.told.map wire := by
  have hsome : (run (step fun _ => text "now") .init someEvents).isSome = true := by
    decide +kernel
  obtain ⟨h, hrun⟩ := Option.isSome_iff_exists.1 hsome
  exact ⟨h, hrun, fun conn p hp =>
    ((hub_refines (fun _ => text "now") someEvents h hrun).2.2 conn p hp).2⟩

end Hub
end Examples
end Sevent
