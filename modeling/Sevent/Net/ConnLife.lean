/-
# The life cycle of a connection

`sevent/net/TcpConnection.cpp`, `sevent/net/Channel.cpp`.

`LifeCycle` is read off what has happened to a connection: the states it has
been in, in order; `onConnection` first, then `onMessage`s, then at most one
`onClose`; at most one `removeConnection` to its holder; at most one `close` of
its descriptor, exactly one once the object is gone, and no input or output
after it.

`conn_life` says that every connection has it whose holder is not being
destroyed, in every run of `dispatch` in which a connect that finishes finds its
connector without a connection: with any events, results of `read` and `write`,
tasks, timers, and calls from other tasks and threads or from inside the
callbacks.  The invariant behind it (`View.Life`) counts: of `removeConnection`
and of `close` there is at most one, done or still to be done, and neither before
the connection is disconnected; a closed connection does no input or output.
Where a connector puts another connection in the place of the one it has, the
old one's object may go while its channel is in the batch: `~TcpConnection` closes
the descriptor, which the event then reads (`reconnect_reads_closed`).
-/

import Sevent.Net.ConnDispatch
import Sevent.Lib.Log

namespace Sevent
namespace Net
namespace Service

/-- The state that is entered. -/
def Act.state? : Act → Option State
  | .setState st => some st
  | _ => none

/-- The callbacks of the life cycle; the notifications come at any time. -/
def Act.lifeCallback? : Act → Option Callback
  | .callback .onWriteComplete _ => none
  | .callback .onHighWaterMark _ => none
  | .callback cb _ => some cb
  | _ => none

/-- The states a connection has been in, in order. -/
def states (acts : List Act) : List State := .connecting :: acts.filterMap Act.state?

/-- The callbacks it has come to, in order. -/
def lifeCallbacks (acts : List Act) : List Callback := acts.filterMap Act.lifeCallback?

/-- The states only go forward, and the last is the current one. -/
structure Forward (acts : List Act) (st : State) : Prop where
  sorted : (states acts).Pairwise (fun a b => a.rank ≤ b.rank)
  last : (states acts).getLast? = some st

/-- Every callback comes after `onConnection`. -/
def OnConnectionFirst : List Act → Prop :=
  Log.Justified fun past a =>
    ∀ cb h, a = .callback cb h → cb ≠ .onConnection → .onConnection ∈ lifeCallbacks past

/-- No input or output on the descriptor after its `close`. -/
def NoIoAfterClose : List Act → Prop :=
  Log.Justified fun past a => a.isIo = true → .close ∉ past

/-- The life cycle of a connection, read off what has happened to it. -/
structure LifeCycle (k : Conn) (acts : List Act) : Prop where
  forward : Forward acts k.state
  callbacks : lifeCallbacks acts = [] ∨ ∃ n,
    lifeCallbacks acts = .onConnection :: List.replicate n .onMessage ∨
    lifeCallbacks acts = .onConnection :: (List.replicate n .onMessage ++ [.onClose])
  first : OnConnectionFirst acts
  removal : acts.count .removeConnection ≤ 1
  close : acts.count .close ≤ 1
  closed : k.destroyed = true → acts.count .close = 1
  noIoAfterClose : NoIoAfterClose acts

/-! ### What is appended -/

variable {acts as : List Act} {st st' : State}

/-- The states of two parts of what has happened. -/
theorem states_append (acts as : List Act) :
    states (acts ++ as) = states acts ++ as.filterMap Act.state? := by
  simp [states, List.filterMap_append]

/-- The callbacks of two parts of what has happened. -/
theorem lifeCallbacks_append (acts as : List Act) :
    lifeCallbacks (acts ++ as) = lifeCallbacks acts ++ lifeCallbacks as :=
  List.filterMap_append

/-- The states that a connection has been in are none behind its state now. -/
theorem rank_le_of_forward (h : Forward acts st) : ∀ a ∈ states acts, a.rank ≤ st.rank := by
  obtain ⟨init, hinit⟩ := List.getLast?_eq_some_iff.1 h.last
  intro a ha
  have hs := h.sorted
  rw [hinit] at hs ha
  rcases List.mem_append.1 ha with ha | ha
  · exact (List.pairwise_append.1 hs).2.2 a ha st (by simp)
  · exact List.mem_singleton.1 ha ▸ Nat.le_refl _

/-- What brings no new state leaves the states in order. -/
theorem Forward.append_of_none (h : Forward acts st) (has : as.filterMap Act.state? = []) :
    Forward (acts ++ as) st := by
  have heq : states (acts ++ as) = states acts := by rw [states_append, has, List.append_nil]
  exact ⟨heq ▸ h.sorted, heq ▸ h.last⟩

/-- Another state, not an earlier one. -/
theorem Forward.append_state (h : Forward acts st) (has : as.filterMap Act.state? = [st'])
    (hle : st.rank ≤ st'.rank) : Forward (acts ++ as) st' := by
  have heq : states (acts ++ as) = states acts ++ [st'] := by rw [states_append, has]
  refine ⟨?_, by rw [heq]; simp⟩
  rw [heq]
  refine List.pairwise_append.2 ⟨h.sorted, by simp, fun a ha b hb => ?_⟩
  rw [List.mem_singleton.1 hb]
  exact Nat.le_trans (rank_le_of_forward h a ha) hle

/-- Input and output are no states. -/
theorem state?_of_isIo {a : Act} (h : a.isIo = true) : a.state? = none := by
  cases a <;> simp [Act.isIo, Act.state?] at h ⊢

/-- Input and output are no callbacks of the life cycle. -/
theorem lifeCallback?_of_isIo {a : Act} (h : a.isIo = true) : a.lifeCallback? = none := by
  cases a <;> simp [Act.isIo, Act.lifeCallback?] at h ⊢

/-- A list of input and output has no states. -/
theorem filterMap_state?_of_isIo (h : ∀ a ∈ as, a.isIo = true) : as.filterMap Act.state? = [] :=
  List.filterMap_eq_nil_iff.2 fun a ha => state?_of_isIo (h a ha)

/-- A list of input and output has no callbacks of the life cycle. -/
theorem lifeCallbacks_of_isIo (h : ∀ a ∈ as, a.isIo = true) : lifeCallbacks as = [] :=
  List.filterMap_eq_nil_iff.2 fun a ha => lifeCallback?_of_isIo (h a ha)

/-- A list of input and output has nothing else in it. -/
theorem count_of_isIo {a : Act} (h : ∀ a ∈ as, a.isIo = true) (ha : a.isIo = false) :
    as.count a = 0 := List.count_eq_zero.2 fun hmem => by simp [h a hmem] at ha

/-- Before a close anything may happen. -/
theorem NoIoAfterClose.append (h : NoIoAfterClose acts) (has : .close ∉ as)
    (hio : (∀ a ∈ as, a.isIo = false) ∨ .close ∉ acts) : NoIoAfterClose (acts ++ as) := by
  refine Log.Justified.append h fun past a future heq ha => ?_
  rcases hio with hio | hio
  · have hfalse : a.isIo = false := hio a (by simp [heq])
    simp [ha] at hfalse
  · exact List.not_mem_append hio fun hmem => has (by simp [heq, hmem])

/-- A close at the end has no input or output behind it. -/
theorem NoIoAfterClose.append_close (h : NoIoAfterClose acts) :
    NoIoAfterClose (acts ++ [.close]) := h.concat (by simp [Act.isIo])

/-! ### The callbacks -/

/-- The callbacks that a connection has come to in a state. -/
def CallbacksIn (st : State) (cbs : List Callback) : Prop :=
  match st with
  | .connecting => cbs = []
  | .disconnected => ∃ n, cbs = .onConnection :: (List.replicate n .onMessage ++ [.onClose])
  | _ => ∃ n, cbs = .onConnection :: List.replicate n .onMessage

variable {cbs : List Callback}

/-- One more `onMessage`, while the connection is open. -/
theorem CallbacksIn.message (h : CallbacksIn st cbs) (hc : st ≠ .connecting)
    (hd : st ≠ .disconnected) : CallbacksIn st (cbs ++ [.onMessage]) := by
  cases st with
  | connecting => exact absurd rfl hc
  | disconnected => exact absurd rfl hd
  | _ =>
    obtain ⟨n, rfl⟩ := h
    exact ⟨n + 1, by simp [List.replicate_succ']⟩

/-- The `onClose` of a connection that was open. -/
theorem CallbacksIn.close (h : CallbacksIn st cbs) (hc : st ≠ .connecting)
    (hd : st ≠ .disconnected) : CallbacksIn .disconnected (cbs ++ [.onClose]) := by
  cases st with
  | connecting => exact absurd rfl hc
  | disconnected => exact absurd rfl hd
  | _ =>
    obtain ⟨n, rfl⟩ := h
    exact ⟨n, by simp⟩

/-- A shutdown calls nothing of the life cycle. -/
theorem CallbacksIn.shutdown (h : CallbacksIn .connected cbs) : CallbacksIn .disconnecting cbs := h

/-- What the callbacks of a connection can be at all: none yet, `onConnection`
and messages, and an `onClose` at the end. -/
theorem CallbacksIn.life (h : CallbacksIn st cbs) : cbs = [] ∨ ∃ n,
    cbs = .onConnection :: List.replicate n .onMessage ∨
    cbs = .onConnection :: (List.replicate n .onMessage ++ [.onClose]) := by
  cases st with
  | connecting => exact .inl h
  | disconnected =>
    obtain ⟨n, h⟩ := h
    exact .inr ⟨n, .inr h⟩
  | _ =>
    obtain ⟨n, h⟩ := h
    exact .inr ⟨n, .inl h⟩

/-- A connection that has left `connecting` has had its `onConnection`. -/
theorem CallbacksIn.onConnection_mem (h : CallbacksIn st cbs) (hc : st ≠ .connecting) :
    .onConnection ∈ cbs := by
  cases st with
  | connecting => exact absurd rfl hc
  | _ =>
    obtain ⟨n, rfl⟩ := h
    exact List.mem_cons_self

/-- What the callbacks so far are in a state. -/
structure Called (acts : List Act) (st : State) : Prop where
  life : CallbacksIn st (lifeCallbacks acts)
  first : OnConnectionFirst acts

/-- What is called next goes on with the life cycle, and `onConnection` is the
first thing that any handler hears. -/
theorem Called.append (h : Called acts st)
    (hlife : CallbacksIn st' (lifeCallbacks acts ++ lifeCallbacks as))
    (hfirst : st ≠ .connecting ∨ ∀ cb h, .callback cb h ∈ as → cb = .onConnection) :
    Called (acts ++ as) st' := by
  refine ⟨lifeCallbacks_append acts as ▸ hlife, h.first.append fun past a future heq => ?_⟩
  rintro cb hh rfl hne
  rcases hfirst with hst | hfirst
  · rw [lifeCallbacks_append]
    exact List.mem_append_left _ (h.life.onConnection_mem hst)
  · exact absurd (hfirst cb hh (by simp [heq])) hne

/-- No callback at all. -/
theorem Called.append_of_isIo (h : Called acts st) (hio : ∀ a ∈ as, a.isIo = true) :
    Called (acts ++ as) st := by
  refine h.append ?_ (.inr fun cb hh hmem => ?_)
  · rw [lifeCallbacks_of_isIo hio, List.append_nil]
    exact h.life
  · simpa [Act.isIo] using hio _ hmem

/-! ### The invariant -/

namespace View

variable {v v' : View} {cause : Cause}

/-- The closes of the descriptor, done and to be done. -/
def closes (v : View) : ℕ := v.acts.count .close + v.count .closeFd

/-- What the life cycle rests on. -/
structure Life (v : View) : Prop where
  forward : Forward v.acts v.conn.state
  callbacks : v.phase = .alive → Called v.acts v.conn.state
  sent : v.count .queueTie + v.count .removeConnection + v.acts.count .removeConnection ≤
    v.conn.closed
  closes : v.closes ≤ 1
  ended : v.conn.destroyed = false → v.closes ≠ 0 → v.conn.state = .disconnected
  fd : v.conn.destroyed = false → (v.acts.count .close = 0 ↔ 0 ≤ v.conn.fd)
  closed : v.conn.destroyed = true → v.acts.count .close = 1
  noIo : NoIoAfterClose v.acts

/-- The invariant says the life cycle of a connection whose holder is alive. -/
theorem Life.lifeCycle (h : v.Life) (hphase : v.phase = .alive) : LifeCycle v.conn v.acts where
  forward := h.forward
  callbacks := (h.callbacks hphase).life.life
  first := (h.callbacks hphase).first
  removal := by
    have hs := h.sent
    have hc := v.conn.closed_le_one
    omega
  close := Nat.le_trans (Nat.le_add_right _ _) h.closes
  closed := h.closed
  noIoAfterClose := h.noIo

/-- An open descriptor has not been closed, and is not going to be. -/
theorem Life.not_closed (h : v.Life) (hlive : v.conn.destroyed = false)
    (hst : v.conn.state ≠ .disconnected) : v.acts.count .close = 0 ∧ v.count .closeFd = 0 := by
  have hz : v.closes = 0 := by
    by_contra hne
    exact hst (h.ended hlive hne)
  simp only [View.closes] at hz
  omega

/-- A function that uses the socket or buffers data: what it does to the record. -/
theorem Life.of_io {op : ConnOp} {rest : List ConnOp} {o : Outcome} (h : v.Life)
    (hrun : v.running = op :: rest) (hlive : v.conn.destroyed = false) (hq : op.isTail = false)
    (hst : v.conn.state ≠ .disconnected) (hconn : o.conn.fd = v.conn.fd)
    (hdestroyed : o.conn.destroyed = v.conn.destroyed)
    (hops : ∀ x, x.isTail = true → o.ops.count x = 0)
    (hqueued : ∀ x, x.isTail = true → o.queued.count x = 0)
    (hclosed : o.conn.closed = 0) (hforward : Forward (v.acts ++ o.acts) o.conn.state)
    (hcallbacks : v.phase = .alive → Called (v.acts ++ o.acts) o.conn.state)
    (hremove : o.acts.count .removeConnection = 0) (hclose : o.acts.count .close = 0) :
    (v.after rest o).Life := by
  obtain ⟨hc, hp⟩ := h.not_closed hlive hst
  have hsent := h.sent
  rw [Conn.closed_of_ne hst] at hsent
  have htail (x : ConnOp) (hx : x.isTail = true) : (v.after rest o).count x = v.count x := by
    have hcount := count_after (x := x) (o := o) hrun
    rw [hops x hx, hqueued x hx, if_neg fun heq => by simp [← heq, hq] at hx] at hcount
    exact hcount
  have hcl : View.closes (v.after rest o) = 0 := by
    simp [View.closes, htail .closeFd rfl, hp, hc, hclose]
  refine ⟨hforward, hcallbacks, ?_, by omega, fun _ hne => absurd hcl hne, fun hd => ?_,
    fun hd => ?_, ?_⟩
  · rw [htail .queueTie rfl, htail .removeConnection rfl]
    simp only [after_acts, after_conn, List.count_append, hremove, hclosed]
    omega
  · simp only [after_acts, after_conn, List.count_append, hclose, hconn]
    exact h.fd hlive
  · rw [after_conn, hdestroyed, hlive] at hd
    cases hd
  · exact h.noIo.append (List.count_eq_zero.1 hclose) (.inr (List.count_eq_zero.1 hc))

/-- The three functions that the invariant counts. -/
def Counted (x : ConnOp) : Prop := x = .queueTie ∨ x = .removeConnection ∨ x = .closeFd

/-- The functions that are counted are those that are queued as the last thing
of another one. -/
theorem Counted.isTail {x : ConnOp} (h : Counted x) : x.isTail = true := by
  rcases h with rfl | rfl | rfl <;> rfl

/-- What changes nothing that is counted, and does no input or output. -/
theorem Life.of_frame (h : v.Life) (hstate : v'.conn.state = v.conn.state)
    (hfd : v'.conn.fd = v.conn.fd) (hdestroyed : v'.conn.destroyed = v.conn.destroyed)
    (hphase : v'.phase = .alive → v.phase = .alive)
    (hcount : ∀ x, Counted x → v'.count x ≤ v.count x) (hacts : v'.acts = v.acts ++ as)
    (hnone : as.filterMap Act.state? = []) (hlife : lifeCallbacks as = [])
    (hfirst : v.conn.state ≠ .connecting ∨ ∀ cb h, .callback cb h ∉ as)
    (hremove : as.count .removeConnection = 0) (hclose : as.count .close = 0)
    (hio : ∀ a ∈ as, a.isIo = false) : v'.Life := by
  have hsent := h.sent
  have hq := hcount .queueTie (.inl rfl)
  have hr := hcount .removeConnection (.inr (.inl rfl))
  have hc := hcount .closeFd (.inr (.inr rfl))
  have hcl : v'.closes ≤ v.closes := by
    simp only [View.closes, hacts, List.count_append, hclose]
    omega
  refine ⟨?_, fun hp => ?_, ?_, Nat.le_trans hcl h.closes, fun hd hne => ?_, fun hd => ?_,
    fun hd => ?_, ?_⟩
  · rw [hacts, hstate]
    exact h.forward.append_of_none hnone
  · rw [hacts, hstate]
    have hcb := h.callbacks (hphase hp)
    refine hcb.append ?_ (hfirst.imp_right fun hno cb hh hmem => absurd hmem (hno cb hh))
    rw [hlife, List.append_nil]
    exact hcb.life
  · simp only [hacts, List.count_append, hremove, Conn.closed, hstate] at hsent ⊢
    omega
  · rw [hstate]
    exact h.ended (hdestroyed ▸ hd) (by omega)
  · rw [hacts, List.count_append, hclose, hfd]
    exact h.fd (hdestroyed ▸ hd)
  · rw [hacts, List.count_append, hclose]
    exact h.closed (hdestroyed ▸ hd)
  · rw [hacts]
    exact h.noIo.append (List.count_eq_zero.1 hclose) (.inl hio)

/-- `removeItself`, by whichever way. -/
theorem Life.of_removeItself (h : v.Life) (hstate : v'.conn.state = .disconnected)
    (hfd : v'.conn.fd = v.conn.fd) (hdestroyed : v'.conn.destroyed = v.conn.destroyed)
    (hphase : v'.phase ≠ .alive) (hcount : ∀ x, Counted x → v'.count x = v.count x)
    (hacts : v'.acts = v.acts ++ [.setState .disconnected, .callback .onClose v.conn.tcpHandler]) :
    v'.Life := by
  have hsent := h.sent
  have hle := v.conn.closed_le_one
  have hcl : v'.closes = v.closes := by
    simp [View.closes, hacts, hcount .closeFd (.inr (.inr rfl))]
  refine ⟨?_, fun hp => absurd hp hphase, ?_, hcl ▸ h.closes, fun _ _ => hstate, fun hd => ?_,
    fun hd => ?_, ?_⟩
  · rw [hacts, hstate]
    refine h.forward.append_state (by simp [Act.state?]) ?_
    cases v.conn.state <;> simp [State.rank]
  · rw [hcount .queueTie (.inl rfl), hcount .removeConnection (.inr (.inl rfl)),
      Conn.closed_eq_one.2 hstate, hacts]
    simp
    omega
  · simp only [hacts, List.count_append, hfd]
    simpa using h.fd (hdestroyed ▸ hd)
  · simp only [hacts, List.count_append]
    simpa using h.closed (hdestroyed ▸ hd)
  · rw [hacts]
    exact h.noIo.append (by simp) (.inl (by simp [Act.isIo]))

/-- `handleClose` of an open connection, from which `forceCloseInLoop` goes on to
close the descriptor. -/
theorem Life.of_close {op : ConnOp} {rest : List ConnOp} {o : Outcome} (h : v.Life)
    (hrun : v.running = op :: rest) (hlive : v.conn.destroyed = false) (hq : op.isTail = false)
    (hst : v.conn.state ≠ .disconnected) (hstate : o.conn.state = .disconnected)
    (hfd : o.conn.fd = v.conn.fd) (hdestroyed : o.conn.destroyed = v.conn.destroyed)
    (hqueued : ∀ x, x.isTail = true → o.queued.count x = 0)
    (htie : o.ops.count .queueTie = 1) (hremoval : o.ops.count .removeConnection = 0)
    (hclose : o.ops.count .closeFd ≤ 1) (hforward : Forward (v.acts ++ o.acts) .disconnected)
    (hcallbacks : v.phase = .alive → Called (v.acts ++ o.acts) .disconnected)
    (hremove : o.acts.count .removeConnection = 0) (hnc : o.acts.count .close = 0) :
    (v.after rest o).Life := by
  obtain ⟨hc, hp⟩ := h.not_closed hlive hst
  have hsent := h.sent
  rw [Conn.closed_of_ne hst] at hsent
  have htail (x : ConnOp) (hx : x.isTail = true) :
      (v.after rest o).count x = v.count x + o.ops.count x := by
    have hcount := count_after (x := x) (o := o) hrun
    rw [hqueued x hx, if_neg fun heq => by simp [← heq, hq] at hx] at hcount
    exact hcount
  have hcl : View.closes (v.after rest o) = o.ops.count .closeFd := by
    simp [View.closes, htail .closeFd rfl, hp, hc, hnc]
  refine ⟨?_, fun hp => ?_, ?_, by omega, fun _ _ => hstate, fun _ => ?_, fun hd => ?_, ?_⟩
  · rw [after_conn, hstate]
    exact hforward
  · rw [after_conn, hstate]
    exact hcallbacks hp
  · rw [htail .queueTie rfl, htail .removeConnection rfl, htie, hremoval, after_conn,
      Conn.closed_eq_one.2 hstate, after_acts, List.count_append, hremove]
    omega
  · simp only [after_acts, after_conn, List.count_append, hnc, hfd]
    exact h.fd hlive
  · rw [after_conn, hdestroyed, hlive] at hd
    cases hd
  · exact h.noIo.append (List.count_eq_zero.1 hnc) (.inr (List.count_eq_zero.1 hc))

/-- `forceCloseInLoop` closes the descriptor that `handleClose` has left. -/
theorem Life.of_closeFd {rest : List ConnOp} (h : v.Life) (hrun : v.running = .closeFd :: rest)
    (hlive : v.conn.destroyed = false) :
    (v.after rest (Outcome.start v.conn).closeFd).Life := by
  have hsent := h.sent
  have hle := h.closes
  have hcount (x : ConnOp) := count_after (x := x) (o := (Outcome.start v.conn).closeFd) hrun
  have hpend := hcount .closeFd
  have hq := hcount .queueTie
  have hr := hcount .removeConnection
  simp at hpend hq hr
  have hcl : View.closes (v.after rest (Outcome.start v.conn).closeFd) = v.closes := by
    simp [View.closes]
    omega
  have hone : v.closes = 1 := by simp only [View.closes] at hle ⊢; omega
  have hst := h.ended hlive (by omega)
  have hzero : v.acts.count .close = 0 := by simp only [View.closes] at hone; omega
  have hfd := (h.fd hlive).1 hzero
  refine ⟨?_, fun hp => ?_, ?_, hcl ▸ hle, fun _ _ => hst, fun _ => ?_, fun hd => ?_, ?_⟩
  · exact h.forward.append_of_none rfl
  · have hcb := h.callbacks hp
    refine hcb.append ?_ (.inr (by simp))
    exact (List.append_nil _).symm ▸ hcb.life
  · rw [hq, hr]
    simpa [Conn.closed] using hsent
  · simp [hzero]
    omega
  · rw [after_conn] at hd
    simp [hlive] at hd
  · exact h.noIo.append_close

/-- What is done before the close: input and output, or nothing. -/
theorem lifeCallbacks_close {h : Option ℕ} (hio : ∀ a ∈ as, a.isIo = true) :
    lifeCallbacks (as ++ [.setState .disconnected] ++ [.callback .onClose h]) = [.onClose] := by
  rw [lifeCallbacks_append, lifeCallbacks_append, lifeCallbacks_of_isIo hio]
  rfl

/-- The step of one function of the connection keeps the invariant: what it did
is added to what has happened, and what it queues to what is to be done. -/
theorem Life.after {op : ConnOp} {rest : List ConnOp} {ch : Choice} {o : Outcome} (hb : v.Base)
    (h : v.Life) (hrun : v.running = op :: rest) (hlive : v.conn.destroyed = false)
    (hdid : Outcome.Did v.conn ch op o) : (v.after rest o).Life := by
  have hcount (x : ConnOp) := count_after (x := x) (o := o) hrun
  have hqueued (x : ConnOp) (hx : x.isTail = true) : o.queued.count x = 0 :=
    count_queued_tail hdid hx
  have hquiet (hq : op.quiet = true) : op.isTail = false := by
    cases op <;> simp [ConnOp.quiet, ConnOp.isTail] at hq ⊢
  have hopen (hq : op.quiet = true) : v.conn.state ≠ .connecting :=
    hb.ne_connecting_of_running hrun (by rintro rfl; simp [ConnOp.quiet] at hq)
      (by rintro rfl; simp [ConnOp.quiet] at hq)
  have hframe (hops : ∀ x, Counted x → o.ops.count x = 0) (x : ConnOp) (hx : Counted x) :
      (v.after rest o).count x ≤ v.count x := by
    have hc := hcount x
    rw [hops x hx, hqueued x hx.isTail] at hc
    omega
  cases hdid with
  | nothing hq hc =>
    exact h.of_frame rfl rfl rfl id (hframe fun _ _ => rfl) rfl rfl rfl (.inr (by simp)) rfl rfl
      (by simp)
  | dispatch hops =>
    refine h.of_frame rfl rfl rfl id (hframe fun x hx => ?_) rfl rfl rfl (.inr (by simp)) rfl rfl
      (by simp)
    exact count_handlers hops (by rcases hx with rfl | rfl | rfl <;> rfl)
  | connect =>
    have hst : v.conn.state = .connecting :=
      (hb.onConnection (by simp [all_of_running hrun])).1
    refine h.of_io hrun hlive rfl (by simp [hst]) rfl rfl (fun _ _ => rfl) (fun _ _ => rfl) rfl
      (h.forward.append_state rfl (by simp [hst, State.rank])) (fun hp => ?_) (by simp) (by simp)
    have hcb := h.callbacks hp
    rw [hst] at hcb
    refine hcb.append ?_ (.inr (by simp))
    rw [show lifeCallbacks v.acts = [] from hcb.life]
    exact ⟨0, rfl⟩
  | @io op o hq hc hst hio =>
    obtain ⟨e, r, b, hconn⟩ := hio.conn
    obtain ⟨as, has, hall⟩ := hio.acts
    rw [Outcome.start_acts, List.nil_append] at has
    refine h.of_io hrun hlive (hquiet hq) hst (by rw [hconn]; rfl) (by rw [hconn]; rfl)
      (fun x _ => by rw [hio.ops]; rfl) hqueued (by rw [Conn.closed, hio.state]; exact if_neg hst)
      ?_ (fun hp => ?_) ?_ ?_
    · rw [has, hio.state]
      exact h.forward.append_of_none (filterMap_state?_of_isIo hall)
    · rw [has, hio.state]
      exact (h.callbacks hp).append_of_isIo hall
    · rw [has]
      exact count_of_isIo hall rfl
    · rw [has]
      exact count_of_isIo hall rfl
  | message hst =>
    refine h.of_io hrun hlive rfl hst rfl rfl (fun _ _ => rfl) (fun _ _ => rfl) (if_neg hst)
      (h.forward.append_of_none rfl) (fun hp => ?_) (by simp) (by simp)
    have hcb := h.callbacks hp
    exact hcb.append (hcb.life.message (hopen rfl) hst) (.inl (hopen rfl))
  | @notify op n cb hop hcb =>
    have hst : v.conn.state ≠ .connecting :=
      hb.ne_connecting_of_running hrun (by rintro rfl; simp [ConnOp.boundTo] at hop)
        (by rintro rfl; simp [ConnOp.boundTo] at hop)
    refine h.of_frame rfl rfl rfl id (hframe fun _ _ => rfl) rfl rfl ?_ (.inl hst) (by simp)
      (by simp) (by simp [Act.isIo])
    rcases hcb with rfl | rfl <;> rfl
  | @shutdown o hst hio =>
    obtain ⟨e, r, b, hconn⟩ := hio.conn
    obtain ⟨as, has, hall⟩ := hio.acts
    simp only [Outcome.setTcpState_acts, Outcome.start_acts, List.nil_append] at has
    refine h.of_io hrun hlive rfl (by simp [hst]) (by rw [hconn]; rfl) (by rw [hconn]; rfl)
      (fun x _ => by rw [hio.ops]; rfl) hqueued (by simp [Conn.closed, hio.state]) ?_
      (fun hp => ?_) ?_ ?_
    · rw [has, hio.state]
      refine h.forward.append_state ?_ (by simp [hst, State.rank])
      rw [List.filterMap_append, filterMap_state?_of_isIo hall]
      rfl
    · have hcb := h.callbacks hp
      rw [hst] at hcb
      rw [has, hio.state, ← List.append_assoc]
      refine Called.append_of_isIo (hcb.append ?_ (.inr (by simp))) hall
      exact (List.append_nil _).symm ▸ hcb.life.shutdown
    · rw [has, List.count_append, count_of_isIo hall rfl]
      rfl
    · rw [has, List.count_append, count_of_isIo hall rfl]
      rfl
  | @close op o hq hc hst hio =>
    obtain ⟨e, r, b, hconn⟩ := hio.conn
    obtain ⟨as, has, hall⟩ := hio.acts
    rw [Outcome.start_acts, List.nil_append] at has
    have hacts : ((o.removeItself ch.script).afterwards .queueTie).acts =
        as ++ [.setState .disconnected] ++ [.callback .onClose v.conn.tcpHandler] := by
      simp [has, hconn]
    refine h.of_close hrun hlive (hquiet hq) hst rfl (by simp [hconn]) (by simp [hconn]) hqueued
      (by simp [hio.ops]) (by simp [hio.ops]) (by simp [hio.ops]) ?_ (fun hp => ?_) ?_ ?_
    · rw [hacts]
      refine h.forward.append_state ?_ (by cases v.conn.state <;> simp [State.rank])
      rw [List.filterMap_append, List.filterMap_append, filterMap_state?_of_isIo hall]
      rfl
    · have hcb := h.callbacks hp
      rw [hacts]
      refine hcb.append ?_ (.inl (hopen hq))
      rw [lifeCallbacks_close hall]
      exact hcb.life.close (hopen hq) hst
    · rw [hacts, List.count_append, List.count_append, count_of_isIo hall rfl]
      rfl
    · rw [hacts, List.count_append, List.count_append, count_of_isIo hall rfl]
      rfl
  | forceClose hst =>
    have hne : v.conn.state ≠ .disconnected := by rcases hst with hst | hst <;> simp [hst]
    have hacts : (((((Outcome.start v.conn).setTcpState .disconnecting).removeItself
        ch.script).afterwards .queueTie).afterwards .closeFd).acts = [.setState .disconnecting] ++
          ([.setState .disconnected] ++ [.callback .onClose v.conn.tcpHandler]) := by simp
    refine h.of_close hrun hlive rfl hne rfl rfl rfl hqueued (by simp) (by simp) (by simp) ?_
      (fun hp => ?_) (by simp) (by simp)
    · rw [hacts, ← List.append_assoc]
      have hd : Forward (v.acts ++ [.setState .disconnecting]) .disconnecting :=
        h.forward.append_state rfl (by rcases hst with hst | hst <;> simp [hst, State.rank])
      exact hd.append_state rfl (by simp [State.rank])
    · have hcb := h.callbacks hp
      rw [hacts]
      exact hcb.append (hcb.life.close (hopen rfl) hne) (.inl (hopen rfl))
  | removeItself =>
    refine h.of_removeItself rfl rfl rfl (fun hp => ?_) (fun x hx => ?_) (by simp)
    · exact (hb.alive hp).1 (by simp [all_of_running hrun])
    · have hc := hcount x
      rcases hx with rfl | rfl | rfl <;> simpa using hc
  | channelRemove =>
    exact h.of_frame rfl rfl rfl id (hframe fun _ _ => rfl) rfl rfl rfl (.inr (by simp)) rfl rfl
      (by simp)
  | queueTie =>
    have hq := hcount .queueTie
    have hr := hcount .removeConnection
    have hc := hcount .closeFd
    simp at hq hr hc
    have hsent := h.sent
    refine ⟨by simpa using h.forward, fun hp => by simpa using h.callbacks hp, ?_, ?_,
      fun hd hne => h.ended hd ?_, fun hd => by simpa using h.fd hd,
      fun hd => by simpa using h.closed hd, by simpa using h.noIo⟩
    · simp [Conn.closed] at hsent ⊢
      omega
    · simpa [View.closes, hc] using h.closes
    · simpa [View.closes, hc] using hne
  | closeFd => exact h.of_closeFd hrun hlive

/-- The last reference goes: `~TcpConnection` closes a descriptor that is open. -/
theorem Life.destroy (h : v.Life) (hlive : v.conn.destroyed = false)
    (howns : ∀ op ∈ v.all, op.owns = false) :
    View.Life { v with
      conn := { v.conn with destroyed := true }
      acts := v.acts ++ if v.conn.fd ≥ 0 then [.close] else [] } := by
  have hsent := h.sent
  have hle := h.closes
  have hpending : v.count .closeFd = 0 :=
    List.count_eq_zero.2 fun hmem => by simpa [ConnOp.owns] using howns _ hmem
  have hfd := h.fd hlive
  simp only [View.closes, hpending, Nat.add_zero] at hle
  have hone : (v.acts ++ if v.conn.fd ≥ 0 then [Act.close] else []).count .close = 1 := by
    by_cases hopen : v.conn.fd ≥ 0
    · simp [hopen, hfd.2 hopen]
    · have hne : v.acts.count .close ≠ 0 := fun hz => hopen (hfd.1 hz)
      simp only [if_neg hopen, List.append_nil]
      omega
  refine ⟨?_, fun hp => ?_, ?_, ?_, by simp, by simp, fun _ => hone, ?_⟩
  · refine h.forward.append_of_none ?_
    split <;> rfl
  · have hcb := h.callbacks hp
    refine hcb.append ?_ (.inr (by split <;> simp))
    have hnil : lifeCallbacks (if v.conn.fd ≥ 0 then [Act.close] else []) = [] := by
      split <;> rfl
    rw [hnil, List.append_nil]
    exact hcb.life
  · have hz : (if v.conn.fd ≥ 0 then [Act.close] else []).count .removeConnection = 0 := by
      split <;> simp
    simpa [List.count_append, hz, View.count, all, Conn.closed] using hsent
  · have hz : View.count { v with
        conn := { v.conn with destroyed := true }
        acts := v.acts ++ if v.conn.fd ≥ 0 then [Act.close] else [] } .closeFd = 0 := hpending
    simp only [View.closes, hone, hz]
    omega
  · split
    · exact h.noIo.append_close
    · rw [List.append_nil]
      exact h.noIo

/-- The message to the holder is sent. -/
theorem Life.of_removeConnection {rest : List ConnOp} (h : v.Life)
    (hrun : v.running = .removeConnection :: rest) (hconn : v'.conn = v.conn)
    (hphase : v'.phase = v.phase) (hall : v'.all = rest ++ v.todo ++ v.pending)
    (hacts : v'.acts = v.acts ++ [.removeConnection]) : v'.Life := by
  have hsent := h.sent
  have hcount (x : ConnOp) : v.count x = v'.count x + if .removeConnection = x then 1 else 0 := by
    simp only [View.count, all_of_running hrun, hall, List.count_cons, beq_iff_eq]
  have hcl : v'.closes = v.closes := by simp [View.closes, hacts, hcount .closeFd]
  refine ⟨?_, fun hp => ?_, ?_, hcl ▸ h.closes, fun hd hne => ?_, fun hd => ?_, fun hd => ?_, ?_⟩
  · rw [hacts, hconn]
    exact h.forward.append_of_none rfl
  · have hcb := h.callbacks (hphase ▸ hp)
    rw [hacts, hconn]
    refine hcb.append ?_ (.inr (by simp))
    exact (List.append_nil _).symm ▸ hcb.life
  · rw [hcount .queueTie, hcount .removeConnection] at hsent
    simp [hacts, hconn] at hsent ⊢
    omega
  · rw [hconn] at hd ⊢
    exact h.ended hd (hcl ▸ hne)
  · rw [hconn] at hd ⊢
    simpa [hacts] using h.fd hd
  · rw [hconn] at hd
    simpa [hacts] using h.closed hd
  · rw [hacts]
    exact h.noIo.append (by simp) (.inl (by simp [Act.isIo]))

/-- The methods of a connection are none of the functions that are counted. -/
theorem Method.op_not_counted (m : Method) {x : ConnOp} (hx : Counted x) : m.op ≠ x := by
  rintro rfl
  have hq := (Method.op_not m).2.2
  rw [hx.isTail] at hq
  cases hq

/-- **The life cycle is kept by every step.** -/
theorem Life.step (hb : v.Base) (h : v.Life) (hstep : Step v cause v') : v'.Life := by
  have hsent := h.sent
  -- what is neither called nor made, and changes no function that is counted
  have hframe {w : View} (hconn : w.conn = v.conn)
      (hphase : w.phase = .alive → v.phase = .alive)
      (hcount : ∀ x, Counted x → w.count x ≤ v.count x) (hacts : w.acts = v.acts) : w.Life :=
    h.of_frame (by rw [hconn]) (by rw [hconn]) (by rw [hconn]) hphase hcount
      (hacts.trans (List.append_nil _).symm) rfl rfl (.inr (by simp)) rfl rfl (by simp)
  have hsame {w : View} (hall : w.all = v.all) (x : ConnOp) (_ : Counted x) :
      w.count x ≤ v.count x := by simp only [View.count, hall, Nat.le_refl]
  cases hstep with
  | run hrun hlive hop hdid => exact Life.after hb h hrun hlive hdid
  | addTimer hrun hlive =>
    exact hframe rfl id (fun x hx => by simp [View.count, all, hrun, List.count_cons]) rfl
  | serverRemoves hrun hlive hholder => exact h.of_removeConnection hrun rfl rfl rfl rfl
  | connectorRemoves hrun hlive hholder => exact h.of_removeConnection hrun rfl rfl rfl rfl
  | erase hholder hn => exact hframe rfl id (hsame rfl) rfl
  | replaced hholder hheld => exact hframe rfl id (hsame rfl) rfl
  | stop hholder hheld =>
    refine hframe rfl id (fun x hx => ?_) rfl
    have hne : ConnOp.handleClose ≠ x := by rcases hx with rfl | rfl | rfl <;> simp
    simp [View.count, all, List.count_cons_of_ne hne]
  | destroyServer hholder hphase => exact hframe rfl (by simp) (hsame rfl) rfl
  | visitDirect hholder hloop hphase hheld hvisited =>
    refine h.of_removeItself rfl rfl rfl (by simp [hphase]) (fun x hx => ?_) (by simp)
    rcases hx with rfl | rfl | rfl <;> simp [View.count, all]
  | visitQueued hholder hloop hphase hheld hvisited =>
    refine hframe rfl id (fun x hx => ?_) rfl
    rcases hx with rfl | rfl | rfl <;> simp [View.count, all]
  | clear hholder hphase hvisited => exact hframe rfl (by simp) (hsame rfl) rfl
  | serverGone hholder hphase => exact hframe rfl (by simp) (hsame rfl) rfl
  | @call m hallowed hlive =>
    refine hframe rfl id (fun x hx => ?_) rfl
    simp [View.count, all, List.count_cons_of_ne (Method.op_not_counted m hx)]
  | @queue m hst hlive =>
    refine hframe rfl id (fun x hx => ?_) rfl
    simp [View.count, all, List.count_cons_of_ne (Method.op_not_counted m hx)]
  | setTcpHandler hst hlive =>
    exact h.of_frame rfl rfl rfl id (hsame rfl) rfl rfl rfl (.inr (by simp)) rfl rfl
      (by simp [Act.isIo])
  | configure hst =>
    exact h.of_frame rfl rfl rfl id (hsame rfl) (List.append_nil _).symm rfl rfl (.inr (by simp))
      rfl rfl (by simp)
  | testQuit hplace hrun htodo => exact hframe rfl id (hsame rfl) rfl
  | exit hplace hrun htodo =>
    exact hframe rfl id (fun x _ => by simp [View.count, all, hrun, htodo]) rfl
  | @poll ops timers hplace hrun htodo hops htimers =>
    refine hframe rfl id (fun x hx => ?_) rfl
    have hz : ops.count x = 0 := List.count_eq_zero.2 fun hm => by
      have hq := hx.isTail
      rcases hops x hm with ⟨rfl, -⟩ | ⟨⟨revents, rfl⟩, -⟩ <;> simp [ConnOp.isTail] at hq
    simp [View.count, all, hrun, htodo, hz]
  | next hrun htodo => exact hframe rfl id (hsame (by simp [all, hrun, htodo])) rfl
  | swap hplace hrun htodo => exact hframe rfl id (hsame (by simp [all, hrun, htodo])) rfl
  | endTasks hplace hrun htodo => exact hframe rfl id (hsame rfl) rfl
  | destroy hlive hheld howns => exact h.destroy hlive howns

/-- A connection that has just been made has the invariant, with nothing
counted. -/
theorem Life.of_new {id l fd : ℕ} {holder : Holder} {handler : Option ℕ}
    (hconn : v.conn = Conn.new id l holder handler fd) (hacts : v.acts = [.setTcpHandler handler])
    (hcount : ∀ x, Counted x → v.count x = 0) : v.Life := by
  have hcl : v.closes = 0 := by
    simp [View.closes, hacts, hcount .closeFd (.inr (.inr rfl))]
  refine ⟨?_, fun _ => ?_, ?_, by omega, fun _ hne => absurd hcl hne, fun _ => ?_, fun hd => ?_, ?_⟩
  · rw [hconn, hacts]
    exact ⟨by simp [states, List.filterMap_cons, Act.state?], rfl⟩
  · rw [hconn, hacts]
    exact ⟨rfl, Log.justified_of_forall (by simp)⟩
  · simp [hcount .queueTie (.inl rfl), hcount .removeConnection (.inr (.inl rfl)), hacts]
  · simp [hconn, hacts, Conn.new]
  · simp [hconn, Conn.new] at hd
  · rw [hacts]
    exact Log.justified_of_forall (by simp [Act.isIo])

/-- A connection begins with the invariant. -/
theorem Initial.life (h : v.Initial) : v.Life := by
  cases h with
  | queued hl =>
    refine Life.of_new rfl rfl fun x hx => ?_
    rcases hx with rfl | rfl | rfl <;> rfl
  | @called id l fd holder handler place script hl =>
    -- the connection before the call of its `onConnection`
    let v : View :=
      { fresh (Conn.new id l holder handler fd) place with running := [.onConnection] }
    have h : v.Life := Life.of_new rfl rfl fun x hx => by rcases hx with rfl | rfl | rfl <;> rfl
    refine h.of_io rfl rfl rfl (by simp [v, fresh, Conn.new]) rfl rfl (fun _ _ => rfl)
      (fun _ _ => rfl) rfl (h.forward.append_state rfl (by simp [v, fresh, Conn.new, State.rank]))
      (fun hp => ?_) (by simp) (by simp)
    exact (h.callbacks hp).append ⟨0, rfl⟩ (.inr (by simp))

end View

/-- **The life cycle of every connection** whose holder lives, in the runs in which a
connect that finishes finds its connector without a connection.  The state goes
forward only, the callbacks are `onConnection`, then `onMessage`s, then one
`onClose`, the descriptor is closed once, and nothing is read or written after that.
-/
theorem conn_life {workers : ℕ} {connectorLoop : ℕ → ℕ} {is : List Input}
    (h : Transition.Steps dispatch ConnectsFree (init workers connectorLoop) is) :
    Transition.Always dispatch
      (fun s => ∀ c < s.created, s.phaseOf c = .alive → LifeCycle (s.conns c) (s.acts c))
      (init workers connectorLoop) is := by
  refine (always_dispatch (P := View.Life) (fun v hv => hv.life)
    (fun v cause v' hb hl hst => hl.step hb hst) h).mono fun s hs c hc hp => ?_
  exact (hs.2 c hc hp).2.2.lifeCycle hp

/-- One connection closes another of its batch, whose stale event is handled before
the `tie` lets go of it. -/
def closeOtherToEnd : List Input :=
  closeOther ++ [.exec 0 (.calls []) 0, .next 0, .exec 0 (.calls []) 0, .exec 0 (.calls []) 0,
    .swap 0, .next 0, .exec 0 (.calls []) 0, .endTasks 0, .destroy 1]

/-- The closed connection is destroyed, and its life has been in order. -/
theorem conn_life_close_other : ∃ s, Transition.run dispatch (init 0 fun _ => 0)
    (openTwo ++ .poll 0 [.channel 0 readable, .channel 1 readable] :: closeOtherToEnd) = some s ∧
      (s.conns 1).destroyed = true ∧ LifeCycle (s.conns 1) (s.acts 1) := by
  have h : Transition.Steps dispatch ConnectsFree (init 0 fun _ => 0)
    (openTwo ++ .poll 0 [.channel 0 readable, .channel 1 readable] :: closeOtherToEnd) := by decide
  exact ⟨_, rfl, by decide, (conn_life h).last rfl 1 (by decide) rfl⟩

/-- The connection that `reconnect` leaves without an owner, in the batch in which its
connector gets another: its object goes, which closes the descriptor, and then its
channel handles the event and reads. -/
def readAfterClose : List Input :=
  reconnect ++ [.poll 1 [.establish 0 6, .channel 0 readable], .next 1, .exec 1 (.calls []) 0,
    .destroy 0, .next 1, .exec 1 (.calls []) 0,
    .exec 1 { script := [], read := .data 65 [], write := .accepted 0 } 0]

/-- A read after the `close`, although the connector is there all the time: the
connection was replaced and destroyed before the loop came to its event, and the loop
follows the pointer of the channel without a check. -/
theorem reconnect_reads_closed : ∃ s, Transition.run dispatch (init 0 fun _ => 1)
    readAfterClose = some s ∧ s.phaseOf 0 = .alive ∧ ¬ NoIoAfterClose (s.acts 0) ∧
      ¬ LifeCycle (s.conns 0) (s.acts 0) := by
  refine ⟨_, rfl, rfl, ?_⟩
  let past : List Act := [.setTcpHandler none, .setState .connected, .callback .onConnection none,
    .setState .disconnecting, .shutdownWrite, .close]
  have hnot {acts : List Act} (h : acts = past ++ .read :: [.callback .onMessage none]) :
      ¬ NoIoAfterClose acts := fun hlife => hlife past .read _ h rfl (by decide)
  exact ⟨hnot (by decide), fun hlife => hnot (by decide) hlife.noIoAfterClose⟩

end Service
end Net
end Sevent
