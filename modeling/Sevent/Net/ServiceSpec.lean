/-
# What holds of every service

`sevent/net/TcpServer.cpp`, `sevent/net/Connector.cpp`.

`WellFormed` says that a service only speaks of what there is: the functions in
its loops are those of connections that have been made, an entry of
`connections` has the id of its connection, which is one of the server's, a
connector has a connection of its own.  Among them are two facts about ids: the
keys of `connections` are distinct, and no id is used twice.

Every step keeps it (`WellFormed.step`): there is one lemma for each thing that a
step may do to the record, and the functions of the model are put together from
these.
-/

import Sevent.Net.ConnView

namespace Sevent
namespace Net
namespace Service

/-- A function of a connection that has been made, or a removal for the id of
one of the server's. -/
def Known (s : Service) : Op → Prop
  | .conn c _ => c < s.created
  | .removeConnectionInLoop id =>
    ∃ c < s.created, (s.conns c).tcpHolder = .server ∧ (s.conns c).id = id
  | _ => True

/-- What is known stays known while connections are only added, and those there
keep their holder and their id. -/
theorem Known.mono {s s' : Service} {op : Op} (hc : s.created ≤ s'.created)
    (hconns : ∀ c < s.created, (s'.conns c).tcpHolder = (s.conns c).tcpHolder ∧
      (s'.conns c).id = (s.conns c).id) (h : s.Known op) : s'.Known op := by
  cases op with
  | conn c op => exact Nat.lt_of_lt_of_le h hc
  | removeConnectionInLoop id =>
    obtain ⟨c, hlt, hholder, hid⟩ := h
    obtain ⟨hholder', hid'⟩ := hconns c hlt
    exact ⟨c, Nat.lt_of_lt_of_le hlt hc, hholder'.trans hholder, hid'.trans hid⟩
  | _ => trivial

/-- The records of a service agree. -/
structure WellFormed (s : Service) : Prop where
  known : ∀ l, ∀ op ∈ (s.loops l).all, s.Known op
  timers : ∀ l, ∀ c ∈ (s.loops l).timers, c < s.created
  log : ∀ p ∈ s.log, p.1 < s.created
  table : ∀ p ∈ s.server.connections, p.2 < s.created ∧
    (s.conns p.2).tcpHolder = .server ∧ (s.conns p.2).id = p.1
  slot : ∀ k c, (s.connectors k).connection = some c → c < s.created ∧
    (s.conns c).tcpHolder = .connector k ∧ (s.conns c).loop = (s.connectors k).loop
  visited : ∀ c ∈ s.server.visited, c < s.created ∧ (s.conns c).tcpHolder = .server
  ids : ∀ c < s.created, (s.conns c).tcpHolder = .server → (s.conns c).id < s.server.nextId
  inj : ∀ c < s.created, ∀ c' < s.created, (s.conns c).tcpHolder = .server →
    (s.conns c').tcpHolder = .server → (s.conns c).id = (s.conns c').id → c = c'
  keys : (s.server.connections.map Prod.fst).Nodup
  index : s.workers = 0 ∨ s.server.nextIndex < s.workers
  worker : ∀ c < s.created, (s.conns c).tcpHolder = .server →
    ((s.conns c).loop = 0 ↔ s.workers = 0) ∧ (s.conns c).loop ≤ s.workers

/-- A service that has just been made: no connections, no functions in its
loops, every id still unused. -/
theorem wellFormed_init (workers : ℕ) (connectorLoop : ℕ → ℕ) :
    WellFormed (init workers connectorLoop) := by
  constructor <;> simp [init, Loop.init, Loop.all]
  omega

variable {s s' : Service}

namespace Loop

variable {L : Loop}

/-- What a loop has to run after a push: the calls pushed, which come first, and
what it had. -/
theorem all_push (ops : List Op) : (L.push ops).all = ops ++ L.all := by simp [all]

/-- What a loop has to run after `queueInLoop`: the tasks come last, behind
everything it had. -/
theorem all_queueInLoop (cbs : List Op) : (L.queueInLoop cbs).all = L.all ++ cbs := by
  simp [all]

/-- A function has returned to `loop()` with nothing left of `activeChannels` or
`tmpTasks`, so only `pendingTasks` is still to be run. -/
theorem all_eq_of_returned (h : L.returned = true) : L.all = L.pendingTasks := by
  simp only [returned, Bool.and_eq_true, decide_eq_true_eq] at h
  simp [all, h.1, h.2]

/-- `returned` as a proposition: neither the running function nor the round of
the loop has anything left. -/
theorem returned_iff : L.returned = true ↔ L.ops = [] ∧ L.todo = [] := by simp [returned]

end Loop

/-- `usable` as a proposition: the connection has been made, is not destroyed,
and has left `connecting`. -/
theorem usable_iff {c : ℕ} : s.usable c = true ↔
    c < s.created ∧ (s.conns c).destroyed = false ∧ (s.conns c).state ≠ .connecting := by
  simp [usable, and_assoc]

/-- A run of the next call takes the first of the loop's `ops` off and executes
it in the service without it. -/
theorem exec_eq_some {l : ℕ} {ch : Choice} {pick : ℕ} : s.exec l ch pick = some s' ↔
    ∃ op rest, (s.loops l).ops = op :: rest ∧ (s.pop l rest).execOp l ch pick op = some s' := by
  unfold exec
  split
  · next h => simp [h]
  · next op rest h => simp [h]

/-- A function of a connection is run for an object that is there, in its loop. -/
theorem execOp_conn_eq_some {l c : ℕ} {ch : Choice} {pick : ℕ} {op : ConnOp}
    (h : s.execOp l ch pick (.conn c op) = some s') :
    ((s.conns c).destroyed = false ∧ (s.conns c).loop = l) ∧
      ((op = .removeConnection ∧ s' = s.removeConnection l c) ∨
        (op = .addTimer ∧
          s' = s.setLoop l { s.loops l with timers := c :: (s.loops l).timers }) ∨
        (op ≠ .removeConnection ∧ op ≠ .addTimer ∧
          s' = s.apply l c ((Outcome.start (s.conns c)).run ch op))) := by
  simp only [execOp] at h
  split at h
  · exact absurd h (by simp)
  · next hn =>
    refine ⟨by simpa using hn, ?_⟩
    cases op with
    | removeConnection => exact .inl ⟨rfl, (Option.some.inj h).symm⟩
    | addTimer => exact .inr (.inl ⟨rfl, (Option.some.inj h).symm⟩)
    | _ => exact .inr (.inr ⟨by simp, by simp, (Option.some.inj h).symm⟩)

/-! ### What a step is made of -/

namespace WellFormed

/-- A loop may be replaced by one whose functions are all known and whose timers
are of connections that have been made. -/
theorem setLoop {l : ℕ} {L : Loop} (h : WellFormed s) (hknown : ∀ op ∈ L.all, s.Known op)
    (htimers : ∀ c ∈ L.timers, c < s.created) : WellFormed (s.setLoop l L) where
  known l' op hop := by
    by_cases hl : l' = l
    · subst hl
      exact hknown op (by simpa using hop)
    · exact h.known l' op (by simpa [hl] using hop)
  timers l' c hc := by
    by_cases hl : l' = l
    · subst hl
      exact htimers c (by simpa using hc)
    · exact h.timers l' c (by simpa [hl] using hc)
  log := h.log
  table := h.table
  slot := h.slot
  visited := h.visited
  ids := h.ids
  inj := h.inj
  keys := h.keys
  index := h.index
  worker := h.worker

/-- A loop that has to run less, and goes on. -/
theorem setLoop_of_subset {l : ℕ} {L : Loop} (h : WellFormed s)
    (hall : ∀ op ∈ L.all, op ∈ (s.loops l).all) (htimers : ∀ c ∈ L.timers, c ∈ (s.loops l).timers) :
    WellFormed (s.setLoop l L) :=
  h.setLoop (fun op hop => h.known l op (hall op hop)) fun c hc => h.timers l c (htimers c hc)

/-- Calls pushed to a loop keep the service well formed when each of them is
known. -/
theorem push {l : ℕ} {ops : List Op} (h : WellFormed s) (hknown : ∀ op ∈ ops, s.Known op) :
    WellFormed (s.push l ops) := by
  refine h.setLoop (fun op hop => ?_) (h.timers l)
  rw [Loop.all_push, List.mem_append] at hop
  exact hop.elim (hknown op) (h.known l op)

/-- Tasks queued in a loop keep the service well formed when each of them is
known. -/
theorem queueInLoop {l : ℕ} {cbs : List Op} (h : WellFormed s) (hknown : ∀ op ∈ cbs, s.Known op) :
    WellFormed (s.queueInLoop l cbs) := by
  refine h.setLoop (fun op hop => ?_) (h.timers l)
  rw [Loop.all_queueInLoop, List.mem_append] at hop
  exact hop.elim (h.known l op) (hknown op)

/-- `runInLoop` pushes in the loop's own thread and queues from any other: well
formed either way. -/
theorem runInLoop {cur : Option ℕ} {l : ℕ} {cb : Op} (h : WellFormed s) (hknown : s.Known cb) :
    WellFormed (s.runInLoop cur l cb) := by
  unfold Service.runInLoop
  split
  · exact h.push (by simpa using hknown)
  · exact h.queueInLoop (by simpa using hknown)

/-- An entry of the log must be of a connection that has been made; what it says
does not matter here. -/
theorem emit {c : ℕ} {acts : List Act} (h : WellFormed s) (hc : c < s.created) :
    WellFormed (s.emit c acts) :=
  { h with
    log := fun p hp => by
      rcases List.mem_append.1 hp with hp | hp
      · exact h.log p hp
      · obtain ⟨a, -, rfl⟩ := List.mem_map.1 hp
        exact hc }

/-- A connection changes in what does not identify it. -/
theorem setConn {c : ℕ} {k : Conn} (h : WellFormed s) (hid : k.id = (s.conns c).id)
    (hloop : k.loop = (s.conns c).loop) (hholder : k.tcpHolder = (s.conns c).tcpHolder) :
    WellFormed (s.setConn c k) := by
  have hid' (c' : ℕ) : ((s.setConn c k).conns c').id = (s.conns c').id := by
    by_cases hc : c' = c <;> simp [hc, hid]
  have hloop' (c' : ℕ) : ((s.setConn c k).conns c').loop = (s.conns c').loop := by
    by_cases hc : c' = c <;> simp [hc, hloop]
  have hholder' (c' : ℕ) : ((s.setConn c k).conns c').tcpHolder = (s.conns c').tcpHolder := by
    by_cases hc : c' = c <;> simp [hc, hholder]
  have hknown : ∀ l, ∀ op ∈ ((s.setConn c k).loops l).all, (s.setConn c k).Known op :=
    fun l op hop => Known.mono (s := s) (Nat.le_refl _) (fun c' _ => ⟨hholder' c', hid' c'⟩)
      (h.known l op hop)
  refine { h with
    known := hknown, table := ?_, slot := ?_, visited := ?_, ids := ?_, inj := ?_,
      worker := ?_ } <;>
    simp only [hid', hloop', hholder']
  · exact h.table
  · exact h.slot
  · exact h.visited
  · exact h.ids
  · exact h.inj
  · exact h.worker

/-- What a connection's function comes to: the connection keeps its id, its loop
and its holder, and whatever it queues are its own functions, which are known. -/
theorem apply {l c : ℕ} {o : Outcome} (h : WellFormed s) (hc : c < s.created)
    (hid : o.conn.id = (s.conns c).id) (hloop : o.conn.loop = (s.conns c).loop)
    (hholder : o.conn.tcpHolder = (s.conns c).tcpHolder) : WellFormed (s.apply l c o) := by
  have hs : WellFormed (s.setConn c o.conn) := h.setConn hid hloop hholder
  refine emit (s := (s.setConn c o.conn).setLoop l _)
    (hs.setLoop (fun op hop => ?_) (h.timers l)) hc
  rw [Loop.all_queueInLoop, Loop.all_push, List.mem_append, List.mem_append] at hop
  rcases hop with (hop | hop) | hop
  · rcases List.mem_append.1 hop with hop | hop
    · obtain ⟨k, -, rfl⟩ := List.mem_map.1 hop
      trivial
    · obtain ⟨k, -, rfl⟩ := List.mem_map.1 hop
      exact hc
  · exact hs.known l op hop
  · obtain ⟨k, -, rfl⟩ := List.mem_map.1 hop
    exact hc

/-- A connector changes its handler, or lets its connection go. -/
theorem setConnector {k : ℕ} {x : Service.Connector} (h : WellFormed s)
    (hloop : x.loop = (s.connectors k).loop)
    (hconn : ∀ c, x.connection = some c → (s.connectors k).connection = some c) :
    WellFormed (s.setConnector k x) :=
  { h with
    slot := fun k' c hc => by
      by_cases hk : k' = k
      · subst hk
        simp only [setConnector_connectors, Function.update_self] at hc ⊢
        exact hloop ▸ h.slot k' c (hconn c hc)
      · simp only [setConnector_connectors, Function.update_of_ne hk] at hc ⊢
        exact h.slot k' c hc }

/-! ### The functions of the holders -/

/-- A new connection takes the next number, so those made before are as they
were. -/
theorem conns_makeConn {c id l fd : ℕ} {holder : Holder} {handler : Option ℕ}
    (hc : c ≠ s.created) : (s.makeConn id l holder handler fd).conns c = s.conns c := by
  simp [hc]

/-- After a connection is made, the log speaks of the connections made before
and of the new one. -/
theorem log_makeConn {id l fd : ℕ} {holder : Holder} {handler : Option ℕ} (h : WellFormed s)
    {p : ℕ × Act} (hp : p ∈ (s.makeConn id l holder handler fd).log) : p.1 < s.created + 1 := by
  rw [makeConn_log, List.mem_append, List.mem_singleton] at hp
  rcases hp with hp | rfl
  · exact Nat.lt_succ_of_lt (h.log p hp)
  · exact Nat.lt_succ_self s.created

/-- The loop that `getNextLoop` chooses is a worker's unless there are none, and
the index it leaves is again that of a worker. -/
theorem getNextLoop (h : WellFormed s) :
    (s.workers = 0 ∨ s.getNextLoop.2 < s.workers) ∧ (s.getNextLoop.1 = 0 ↔ s.workers = 0) ∧
      s.getNextLoop.1 ≤ s.workers := by
  unfold Service.getNextLoop
  rcases h.index with hw | hw
  · simp [hw]
  · have hne : s.workers ≠ 0 := by omega
    simp only [hne, if_false, false_or, iff_false]
    refine ⟨?_, by omega, by omega⟩
    split <;> omega

/-- The connection that `addConnection` makes: the server's next id, the loop
that `getNextLoop` chose, the handler the server has at that moment. -/
theorem conns_addConnection_self (fd : ℕ) :
    (s.addConnection fd).conns s.created =
      Conn.new s.server.nextId s.getNextLoop.1 .server s.server.tcpHandler fd := by
  simp [addConnection]

/-- `addConnection` leaves the connections made before it as they were. -/
theorem conns_addConnection {c fd : ℕ} (hc : c ≠ s.created) :
    (s.addConnection fd).conns c = s.conns c := conns_makeConn hc

/-- A connection added by the server: the key of its entry is an id that no
entry has had, since `nextId` is above all of them. -/
theorem addConnection (h : WellFormed s) (fd : ℕ) : WellFormed (s.addConnection fd) where
  known l op hop := (h.known l op hop).mono (Nat.le_succ _) fun c hc => by
    rw [conns_addConnection (Nat.ne_of_lt hc)]
    exact ⟨rfl, rfl⟩
  timers l c hc := Nat.lt_succ_of_lt (h.timers l c hc)
  log p hp := log_makeConn h hp
  table p hp := by
    rcases List.mem_append.1 hp with hp | hp
    · obtain ⟨hc, hholder, hid⟩ := h.table p hp
      rw [conns_addConnection (Nat.ne_of_lt hc)]
      exact ⟨Nat.lt_succ_of_lt hc, hholder, hid⟩
    · obtain rfl := List.mem_singleton.1 hp
      rw [conns_addConnection_self]
      exact ⟨Nat.lt_succ_self _, rfl, rfl⟩
  slot k c hc := by
    obtain ⟨hlt, hholder, hloop⟩ := h.slot k c hc
    rw [conns_addConnection (Nat.ne_of_lt hlt)]
    exact ⟨Nat.lt_succ_of_lt hlt, hholder, hloop⟩
  visited c hc := by
    obtain ⟨hlt, hholder⟩ := h.visited c hc
    rw [conns_addConnection (Nat.ne_of_lt hlt)]
    exact ⟨Nat.lt_succ_of_lt hlt, hholder⟩
  ids c hc hholder := by
    rcases Nat.lt_succ_iff_lt_or_eq.1 hc with hc | rfl
    · rw [conns_addConnection (Nat.ne_of_lt hc)] at hholder ⊢
      exact Nat.lt_succ_of_lt (h.ids c hc hholder)
    · rw [conns_addConnection_self]
      exact Nat.lt_succ_self _
  inj c hc c' hc' hholder hholder' hid := by
    rcases Nat.lt_succ_iff_lt_or_eq.1 hc with hc | rfl <;>
      rcases Nat.lt_succ_iff_lt_or_eq.1 hc' with hc' | rfl
    · rw [conns_addConnection (Nat.ne_of_lt hc)] at hholder hid
      rw [conns_addConnection (Nat.ne_of_lt hc')] at hholder' hid
      exact h.inj c hc c' hc' hholder hholder' hid
    · rw [conns_addConnection (Nat.ne_of_lt hc)] at hholder hid
      rw [conns_addConnection_self] at hid
      exact absurd hid (Nat.ne_of_lt (h.ids c hc hholder))
    · rw [conns_addConnection (Nat.ne_of_lt hc')] at hholder' hid
      rw [conns_addConnection_self] at hid
      exact absurd hid (Nat.ne_of_gt (h.ids c' hc' hholder'))
    · rfl
  keys := by
    show ((s.server.connections ++ [(s.server.nextId, s.created)]).map Prod.fst).Nodup
    rw [List.map_append, List.nodup_append]
    refine ⟨h.keys, by simp, fun id hid id' hid' => ?_⟩
    obtain ⟨p, hp, rfl⟩ := List.mem_map.1 hid
    obtain rfl : id' = s.server.nextId := by simpa using hid'
    obtain ⟨hc, hholder, heq⟩ := h.table p hp
    exact heq ▸ Nat.ne_of_lt (h.ids p.2 hc hholder)
  index := h.getNextLoop.1
  worker c hc hholder := by
    rcases Nat.lt_succ_iff_lt_or_eq.1 hc with hc | rfl
    · rw [conns_addConnection (Nat.ne_of_lt hc)] at hholder ⊢
      exact h.worker c hc hholder
    · rw [conns_addConnection_self]
      exact h.getNextLoop.2

/-- The connection that a connector makes runs in the connector's loop, with the
connector as its holder and the connector's handler. -/
theorem conns_connectConnection_self (k fd : ℕ) :
    (s.connectConnection k fd).conns s.created =
      Conn.new s.connectorNextId (s.connectors k).loop (.connector k) (s.connectors k).tcpHandler
        fd := by
  simp [connectConnection]

/-- A connector's new connection leaves the connections made before it as they
were. -/
theorem conns_connectConnection {c k fd : ℕ} (hc : c ≠ s.created) :
    (s.connectConnection k fd).conns c = s.conns c := conns_makeConn hc

/-- A connection made by a connector: it is a new number, so no other connector
has it, and `connections` of the server does not change. -/
theorem connectConnection (h : WellFormed s) (k fd : ℕ) :
    WellFormed (s.connectConnection k fd) where
  known l op hop := (h.known l op hop).mono (Nat.le_succ _) fun c hc => by
    rw [conns_connectConnection (Nat.ne_of_lt hc)]
    exact ⟨rfl, rfl⟩
  timers l c hc := Nat.lt_succ_of_lt (h.timers l c hc)
  log p hp := log_makeConn h hp
  table p hp := by
    obtain ⟨hc, hholder, hid⟩ := h.table p hp
    rw [conns_connectConnection (Nat.ne_of_lt hc)]
    exact ⟨Nat.lt_succ_of_lt hc, hholder, hid⟩
  slot k' c hc := by
    by_cases hk : k' = k
    · subst hk
      obtain rfl : s.created = c := by simpa [Service.connectConnection] using hc
      rw [conns_connectConnection_self]
      exact ⟨Nat.lt_succ_self _, rfl, by simp [Service.connectConnection, Conn.new]⟩
    · obtain ⟨hlt, hholder, hloop⟩ := h.slot k' c
        (by simpa [Service.connectConnection, hk] using hc)
      rw [conns_connectConnection (Nat.ne_of_lt hlt)]
      exact ⟨Nat.lt_succ_of_lt hlt, hholder, by simpa [Service.connectConnection, hk] using hloop⟩
  visited c hc := by
    obtain ⟨hlt, hholder⟩ := h.visited c hc
    rw [conns_connectConnection (Nat.ne_of_lt hlt)]
    exact ⟨Nat.lt_succ_of_lt hlt, hholder⟩
  ids c hc hholder := by
    rcases Nat.lt_succ_iff_lt_or_eq.1 hc with hc | rfl
    · rw [conns_connectConnection (Nat.ne_of_lt hc)] at hholder ⊢
      exact h.ids c hc hholder
    · simp [conns_connectConnection_self, Conn.new] at hholder
  inj c hc c' hc' hholder hholder' hid := by
    rcases Nat.lt_succ_iff_lt_or_eq.1 hc with hc | rfl
    · rcases Nat.lt_succ_iff_lt_or_eq.1 hc' with hc' | rfl
      · rw [conns_connectConnection (Nat.ne_of_lt hc)] at hholder hid
        rw [conns_connectConnection (Nat.ne_of_lt hc')] at hholder' hid
        exact h.inj c hc c' hc' hholder hholder' hid
      · simp [conns_connectConnection_self, Conn.new] at hholder'
    · simp [conns_connectConnection_self, Conn.new] at hholder
  keys := h.keys
  index := h.index
  worker c hc hholder := by
    rcases Nat.lt_succ_iff_lt_or_eq.1 hc with hc | rfl
    · rw [conns_connectConnection (Nat.ne_of_lt hc)] at hholder ⊢
      exact h.worker c hc hholder
    · simp [conns_connectConnection_self, Conn.new] at hholder

/-- `TcpServer::onConnection` is well formed: the addition of the connection,
then its `onConnection` at once or as a task. -/
theorem accept (h : WellFormed s) (fd : ℕ) (ch : Choice) : WellFormed (s.accept fd ch) := by
  have hs : WellFormed (s.addConnection fd) := h.addConnection fd
  unfold Service.accept
  dsimp only
  split
  · exact hs.apply (Nat.lt_succ_self _) rfl rfl rfl
  · refine hs.queueInLoop fun op hop => ?_
    obtain rfl := List.mem_singleton.1 hop
    exact Nat.lt_succ_self _

/-- `Connector::handleWrite` with an established socket is well formed: the
connection is made, and its `onConnection` runs. -/
theorem establish (h : WellFormed s) (k fd : ℕ) (ch : Choice) : WellFormed (s.establish k fd ch) :=
  (h.connectConnection k fd).apply (Nat.lt_succ_self _) rfl rfl rfl

/-- A removal hands the connection's id to the server's loop, which knows it
because the connection has been made, or clears the pointer of its connector. -/
theorem removeConnection {l c : ℕ} (h : WellFormed s) (hc : c < s.created) :
    WellFormed (s.removeConnection l c) := by
  have he : WellFormed (s.emit c [.removeConnection]) := h.emit hc
  unfold Service.removeConnection
  dsimp only
  split
  · next hholder => exact he.runInLoop ⟨c, hc, hholder, rfl⟩
  · exact he.setConnector rfl (by simp)

/-- Erasing an entry of `connections` leaves the rest with distinct keys, each
with its connection. -/
theorem removeConnectionInLoop (h : WellFormed s) (id : ℕ) :
    WellFormed (s.removeConnectionInLoop id) :=
  { h with
    table := fun p hp => h.table p (List.mem_of_mem_filter hp)
    keys := h.keys.sublist (List.filter_sublist.map _) }

/-- `Connector::stopInLoop` calls `handleClose` of the connector's connection,
if it has one, and a connector's connection has been made. -/
theorem stopInLoop (h : WellFormed s) (k : ℕ) : WellFormed (s.stopInLoop k) := by
  unfold Service.stopInLoop
  split
  · next c hc =>
    refine h.push fun op hop => ?_
    obtain rfl := List.mem_singleton.1 hop
    exact (h.slot k c hc).1
  · exact h

/-- What `~TcpServer` looks at is an entry of `connections`. -/
theorem mem_of_unvisited {id c pick : ℕ} (h : s.unvisited[pick]? = some (id, c)) :
    (id, c) ∈ s.server.connections ∧ c ∉ s.server.visited := by
  simpa [unvisited] using List.mem_of_getElem? h

/-- A round of `removeAll` takes one entry that has not been visited and gives
its connection its last call; the last round empties `connections` and goes on
to the worker threads. -/
theorem removeAll {ch : Choice} {pick : ℕ} (h : WellFormed s)
    (hstep : s.removeAll ch pick = some s') : WellFormed s' := by
  unfold Service.removeAll at hstep
  split at hstep
  · next id c hpick =>
    obtain ⟨hc, hholder, -⟩ := h.table _ (mem_of_unvisited hpick).1
    have hv : WellFormed (s.setServer { s.server with visited := c :: s.server.visited }) :=
      { h with
        visited := fun c' hc' => by
          rcases List.mem_cons.1 hc' with rfl | hc'
          · exact ⟨hc, hholder⟩
          · exact h.visited c' hc' }
    have hp := @push _ 0 [.removeAll] hv (by simp [Known])
    dsimp only at hstep
    split at hstep
    · obtain rfl := Option.some.inj hstep
      exact hp.apply hc rfl rfl rfl
    · obtain rfl := Option.some.inj hstep
      refine hp.queueInLoop fun op hop => ?_
      obtain rfl := List.mem_singleton.1 hop
      exact hc
  · split at hstep
    · obtain rfl := Option.some.inj hstep
      refine push (s := s.setServer { s.server with connections := [], phase := .joining })
        { h with table := by simp, keys := by simp } fun op hop => ?_
      simp only [teardown, List.mem_append, List.mem_flatMap, List.mem_singleton] at hop
      rcases hop with ⟨w, -, hop⟩ | rfl
      · rcases List.mem_cons.1 hop with rfl | hop
        · trivial
        · obtain rfl := List.mem_singleton.1 hop
          trivial
      · trivial
    · exact absurd hstep (by simp)

/-- A call of user code, whichever it is: a method of a connection it can have,
a setter, a task, the end of the server. -/
theorem doCall {cur : Option ℕ} {k : Call} (h : WellFormed s) (hstep : s.doCall cur k = some s') :
    WellFormed s' := by
  cases k with
  | method m c =>
    simp only [Service.doCall] at hstep
    split at hstep
    · next hu =>
      have hc : c < s.created := by
        simp only [usable, Bool.and_eq_true, decide_eq_true_eq] at hu
        exact hu.1.1
      have hknown : ∀ op ∈ [Op.conn c m.op], s.Known op := by simpa [Known] using hc
      split at hstep
      · split at hstep
        · obtain rfl := Option.some.inj hstep
          exact h.push hknown
        · obtain rfl := Option.some.inj hstep
          exact h
      · obtain rfl := Option.some.inj hstep
        exact h.queueInLoop hknown
    · exact absurd hstep (by simp)
  | setTcpHandler c hd =>
    simp only [Service.doCall, Option.ite_none_right_eq_some] at hstep
    obtain ⟨⟨hu, -⟩, hs⟩ := hstep
    have hc : c < s.created := by
      simp only [usable, Bool.and_eq_true, decide_eq_true_eq] at hu
      exact hu.1.1
    obtain rfl := Option.some.inj hs
    exact emit (s := s.setConn c _) (h.setConn rfl rfl rfl) hc
  | setHighWaterMark c bytes =>
    simp only [Service.doCall, Option.ite_none_right_eq_some] at hstep
    obtain rfl := Option.some.inj hstep.2
    exact h.setConn rfl rfl rfl
  | fillOutputBuf c len =>
    simp only [Service.doCall, Option.ite_none_right_eq_some] at hstep
    obtain rfl := Option.some.inj hstep.2
    exact h.setConn rfl rfl rfl
  | serverSetTcpHandler hd =>
    simp only [Service.doCall, Option.ite_none_right_eq_some] at hstep
    obtain rfl := Option.some.inj hstep.2
    exact { h with }
  | connectorSetTcpHandler k hd =>
    simp only [Service.doCall, Option.ite_none_right_eq_some] at hstep
    obtain rfl := Option.some.inj hstep.2
    exact h.setConnector rfl fun c hc => hc
  | connectorStop k =>
    obtain rfl := Option.some.inj hstep
    exact h.runInLoop trivial
  | queueInLoop l =>
    obtain rfl := Option.some.inj hstep
    exact h.queueInLoop (by simp [Known])
  | quit l =>
    obtain rfl := Option.some.inj hstep
    exact h.setLoop (h.known l) (h.timers l)
  | destroyServer =>
    simp only [Service.doCall, Option.ite_none_right_eq_some] at hstep
    obtain rfl := Option.some.inj hstep.2
    exact push (s := s.setServer { s.server with phase := .removing }) { h with }
      (by simp [Known])

/-- Taking the first call off leaves a well-formed service in which that call is
known. -/
theorem pop {l : ℕ} {op : Op} {rest : List Op} (h : WellFormed s)
    (hops : (s.loops l).ops = op :: rest) : WellFormed (s.pop l rest) ∧
      (s.pop l rest).Known op := by
  refine ⟨h.setLoop_of_subset (fun x hx => ?_) fun c hc => hc, ?_⟩
  · simp only [Loop.all, hops, List.cons_append]
    exact List.mem_cons_of_mem _ hx
  · exact (h.known l op (by simp [Loop.all, hops])).mono (Nat.le_refl _) fun _ _ => ⟨rfl, rfl⟩

/-- Executing a known call, one lemma of this section for each function that it
may be. -/
theorem execOp {l : ℕ} {ch : Choice} {pick : ℕ} {op : Op} (h : WellFormed s) (hknown : s.Known op)
    (hstep : s.execOp l ch pick op = some s') : WellFormed s' := by
  cases op with
  | conn c op =>
    obtain ⟨-, ⟨-, rfl⟩ | ⟨-, rfl⟩ | ⟨hop, -, rfl⟩⟩ := execOp_conn_eq_some hstep
    · exact h.removeConnection hknown
    · refine h.setLoop (h.known l) fun c' hc' => ?_
      rcases List.mem_cons.1 hc' with rfl | hc'
      · exact hknown
      · exact h.timers l c' hc'
    · obtain ⟨hid, hloop, hholder⟩ := (Outcome.run_did (s.conns c) ch hop).identity
      exact h.apply hknown hid hloop hholder
  | removeConnectionInLoop id =>
    simp only [Service.execOp, Option.ite_none_right_eq_some] at hstep
    obtain rfl := Option.some.inj hstep.2
    exact h.removeConnectionInLoop id
  | accept fd =>
    simp only [Service.execOp, Option.ite_none_right_eq_some] at hstep
    obtain rfl := Option.some.inj hstep.2
    exact h.accept fd ch
  | establish k fd =>
    simp only [Service.execOp, Option.ite_none_right_eq_some] at hstep
    obtain rfl := Option.some.inj hstep.2
    exact h.establish k fd ch
  | stopInLoop k =>
    simp only [Service.execOp, Option.ite_none_right_eq_some] at hstep
    obtain rfl := Option.some.inj hstep.2
    exact h.stopInLoop k
  | removeAll =>
    simp only [Service.execOp, Option.ite_none_right_eq_some] at hstep
    exact h.removeAll hstep.2
  | quitWorker w =>
    obtain rfl := Option.some.inj hstep
    exact h.setLoop (h.known w) (h.timers w)
  | join w =>
    simp only [Service.execOp, Option.ite_none_right_eq_some] at hstep
    obtain rfl := Option.some.inj hstep.2
    exact h
  | serverGone =>
    simp only [Service.execOp, Option.ite_none_right_eq_some] at hstep
    obtain rfl := Option.some.inj hstep.2
    exact { h with }
  | user =>
    obtain rfl := Option.some.inj hstep
    refine h.push fun op hop => ?_
    obtain ⟨k, -, rfl⟩ := List.mem_map.1 hop
    trivial
  | call k => exact h.doCall hstep

/-- An event that may fire is one of a connection with a registered channel, or
of a timer of the loop's, so what it runs is known. -/
theorem known_event {l : ℕ} {ev : Event} (h : WellFormed s) (hfire : s.canFire l ev = true)
    (htimer : ∀ c, ev = .timer c → c ∈ (s.loops l).timers) : s.Known ev.op := by
  cases ev with
  | channel c revents =>
    simp only [canFire, Bool.and_eq_true, decide_eq_true_eq] at hfire
    exact hfire.1.1.1
  | timer c => exact h.timers l c (htimer c rfl)
  | _ => trivial

/-- A timer that fires was there. -/
theorem mem_timers_of_fired {events : List Event} {timers : List ℕ} {c : ℕ}
    (h : ∀ c ∈ Event.fired events, (Event.fired events).count c ≤ timers.count c)
    (hc : .timer c ∈ events) : c ∈ timers := by
  have hmem : c ∈ Event.fired events := List.mem_filterMap.2 ⟨_, hc, rfl⟩
  exact List.count_pos_iff.1 (Nat.lt_of_lt_of_le (List.count_pos_iff.2 hmem) (h c hmem))

/-- `poll` puts into `todo` the handlers of the events, each of which is known. -/
theorem poll {l : ℕ} {events : List Event} (h : WellFormed s)
    (hstep : s.poll l events = some s') : WellFormed s' := by
  simp only [Service.poll, Option.ite_none_right_eq_some] at hstep
  obtain ⟨⟨-, hret, hfire, hfired⟩, hs⟩ := hstep
  obtain rfl := Option.some.inj hs
  obtain ⟨hops, htodo⟩ := Loop.returned_iff.1 hret
  refine h.setLoop (fun op hop => ?_) fun c hc => h.timers l c ((List.diff_subset _ _) hc)
  simp only [Loop.all, hops, List.nil_append, List.mem_append, List.mem_map] at hop
  rcases hop with ⟨ev, hev, rfl⟩ | hop
  · refine h.known_event (List.all_eq_true.1 hfire ev hev) fun c hc => ?_
    exact mem_timers_of_fired hfired (hc ▸ hev)
  · exact h.known l op (by simp [Loop.all, hop])

/-- **Every step keeps the records in order.** -/
theorem step {i : Input} (h : WellFormed s) (hstep : s.step i = some s') : WellFormed s' := by
  cases i with
  | testQuit l =>
    simp only [Service.step, Service.testQuit, Option.ite_none_right_eq_some] at hstep
    obtain ⟨⟨-, hret⟩, hs⟩ := hstep
    have hall := Loop.all_eq_of_returned hret
    split at hs
    · obtain rfl := Option.some.inj hs
      exact h.setLoop (h.known l) (h.timers l)
    · split at hs
      · obtain rfl := Option.some.inj hs
        exact h
      · obtain rfl := Option.some.inj hs
        refine h.setLoop (fun op hop => h.known l op ?_) (by simp)
        simp only [Loop.all, List.append_nil] at hop ⊢
        exact List.mem_append_left _ hop
  | poll l events => exact h.poll hstep
  | next l =>
    simp only [Service.step, Service.next] at hstep
    split at hstep
    · next op todo hops htodo =>
      obtain rfl := Option.some.inj hstep
      exact h.setLoop_of_subset (by simp [Loop.all, hops, htodo]) fun c hc => hc
    · exact absurd hstep (by simp)
  | swap l =>
    simp only [Service.step, Service.swap, Option.ite_none_right_eq_some] at hstep
    obtain ⟨⟨-, hret⟩, hs⟩ := hstep
    obtain rfl := Option.some.inj hs
    obtain ⟨hops, htodo⟩ := Loop.returned_iff.1 hret
    exact h.setLoop_of_subset (by simp [Loop.all, hops, htodo]) fun c hc => hc
  | endTasks l =>
    simp only [Service.step, Service.endTasks, Option.ite_none_right_eq_some] at hstep
    obtain rfl := Option.some.inj hstep.2
    exact h.setLoop (h.known l) (h.timers l)
  | exec l ch pick =>
    obtain ⟨op, rest, hops, hexec⟩ := exec_eq_some.1 hstep
    obtain ⟨hpop, hknown⟩ := h.pop hops
    exact hpop.execOp hknown hexec
  | user l =>
    simp only [Service.step, Option.ite_none_right_eq_some] at hstep
    obtain rfl := Option.some.inj hstep.2
    exact h.push (by simp [Known])
  | foreign k => exact h.doCall hstep
  | destroy c =>
    simp only [Service.step, Service.destroy, Option.ite_none_right_eq_some] at hstep
    obtain ⟨⟨hc, -⟩, hs⟩ := hstep
    obtain rfl := Option.some.inj hs
    exact emit (s := s.setConn c _) (h.setConn rfl rfl rfl) hc

end WellFormed

end Service
end Net
end Sevent
