/-
# What holds of every connection

`sevent/net/TcpConnection.cpp`.

`View.Base` holds of each connection in every run, whatever its holder does.  A
connection that is `connecting` has nothing before its `onConnection`, is not in
the poller and has no timer, so its `onConnection` finds it `connecting`: what
the assertion there says.  The ends of functions are in the running call and
never in a queue.  And of the one message that `handleClose` sends to its holder
there is at most one, on its way there or on its way back (`tokens`), and none
before the connection is closed.
-/

import Sevent.Net.ServiceView

namespace Sevent
namespace Net
namespace Service

/-- `1` once the connection is closed. -/
def Conn.closed (k : Conn) : ℕ := if k.state = .disconnected then 1 else 0

/-- A connection in any other state is not closed. -/
theorem Conn.closed_of_ne {k : Conn} (h : k.state ≠ .disconnected) : k.closed = 0 := if_neg h

/-- The count is zero or one. -/
theorem Conn.closed_le_one (k : Conn) : k.closed ≤ 1 := by
  unfold Conn.closed
  split <;> omega

/-- The count of a closed connection. -/
theorem Conn.closed_eq_one {k : Conn} : k.closed = 1 ↔ k.state = .disconnected := by
  unfold Conn.closed
  split <;> simp [*]

namespace View

variable {v v' : View} {cause : Cause}

/-- How often the loop has still to run a function for the connection. -/
def count (v : View) (op : ConnOp) : ℕ := v.all.count op

/-- The message of `handleClose` to its holder: what is left of `handleClose`,
and the task on the owner loop. -/
def tokens (v : View) : ℕ := v.count .queueTie + v.count .removeConnection + v.removals

/-- What holds of a connection in every run. -/
structure Base (v : View) : Prop where
  connecting : v.conn.state = .connecting →
    (∀ op ∈ v.all, op = .onConnection ∨ op = .removeItself) ∧ v.conn.registered = false ∧
      v.timers = 0
  onConnection : .onConnection ∈ v.all → v.conn.state = .connecting ∧
    v.conn.tcpHolder = .server ∧ v.conn.loop ≠ 0 ∧
      ∃ rest, v.all = .onConnection :: rest ∧ .onConnection ∉ rest
  tails : ∀ op ∈ v.todo ++ v.pending, op.isTail = false
  held : v.held = true → v.conn.destroyed = false
  alive : v.phase = .alive → .removeItself ∉ v.all ∧ v.visited = false
  connector : v.conn.tcpHolder ≠ .server →
    v.phase = .alive ∧ v.removals = 0 ∧ v.conn.state ≠ .connecting
  direct : v.conn.loop = 0 → .removeItself ∉ v.all
  tokens : v.tokens ≤ v.conn.closed

/-! ### Running a function -/

/-- All that is to be done, with the function that runs in front. -/
theorem all_of_running {op : ConnOp} {rest : List ConnOp} (hrun : v.running = op :: rest) :
    v.all = op :: (rest ++ v.todo ++ v.pending) := by simp [all, hrun]

/-- All that is to be done behind a function: what it calls, what was to be done
before, what it queues. -/
theorem all_after (rest : List ConnOp) (o : Outcome) :
    (v.after rest o).all = o.ops ++ (rest ++ v.todo ++ v.pending) ++ o.queued := by simp [all]

/-- What is to be done behind a function was so before, or comes from it. -/
theorem mem_all_after {x : ConnOp} {rest : List ConnOp} {o : Outcome} :
    x ∈ (v.after rest o).all ↔ x ∈ o.ops ∨ x ∈ rest ++ v.todo ++ v.pending ∨ x ∈ o.queued := by
  simp only [all_after, List.mem_append]
  tauto

/-- How often something is to be done, before and behind a function. -/
theorem count_after {op x : ConnOp} {rest : List ConnOp} {o : Outcome}
    (hrun : v.running = op :: rest) :
    (v.after rest o).count x + (if op = x then 1 else 0) =
      v.count x + o.ops.count x + o.queued.count x := by
  simp only [count, all_of_running hrun, all_after, List.count_append, List.count_cons, beq_iff_eq]
  omega

/-- The first function of a connection is its `onConnection`. -/
theorem Base.onConnection_not_mem {op : ConnOp} {rest : List ConnOp} (h : v.Base)
    (hrun : v.running = op :: rest) : .onConnection ∉ rest ++ v.todo ++ v.pending := by
  intro hmem
  have hall := all_of_running hrun
  obtain ⟨-, -, -, rest', hrest, hnot⟩ :=
    h.onConnection (hall ▸ List.mem_cons_of_mem _ hmem)
  obtain ⟨-, rfl⟩ := List.cons.inj (hall.symm.trans hrest)
  exact hnot hmem

/-- A function leaves the connection in a state that it does not leave any more. -/
theorem Base.ne_connecting {op : ConnOp} {rest : List ConnOp} {ch : Choice} {o : Outcome}
    (h : v.Base) (hrun : v.running = op :: rest) (hdid : Outcome.Did v.conn ch op o) :
    o.conn.state ≠ .connecting := by
  have hop (hst : v.conn.state = .connecting) : op = .onConnection ∨ op = .removeItself :=
    (h.connecting hst).1 op (by simp [all_of_running hrun])
  have hquiet (hq : op.quiet = true) : v.conn.state ≠ .connecting := fun hst => by
    rcases hop hst with rfl | rfl <;> simp [ConnOp.quiet] at hq
  cases hdid with
  | nothing hq => exact hquiet hq
  | io hq _ _ hio =>
    rw [hio.state]
    exact hquiet hq
  | dispatch => exact fun hst => by simpa using hop hst
  | connect => simp
  | message => exact hquiet rfl
  | notify hb =>
    intro hst
    rcases hop hst with rfl | rfl <;> simp [ConnOp.boundTo] at hb
  | shutdown _ hio => simp [hio.state]
  | close => simp
  | forceClose => simp
  | removeItself => simp
  | channelRemove => exact fun hst => by simpa using hop hst
  | queueTie => exact fun hst => by simpa using hop hst
  | closeFd => exact fun hst => by simpa using hop hst

/-- Nor is `onConnection` left over. -/
theorem Base.onConnection_not_mem_after {op : ConnOp} {rest : List ConnOp} {ch : Choice}
    {o : Outcome} (h : v.Base) (hrun : v.running = op :: rest)
    (hdid : Outcome.Did v.conn ch op o) : .onConnection ∉ (v.after rest o).all := by
  rw [mem_all_after]
  rintro (hmem | hmem | hmem)
  · simpa [ConnOp.isHandler, ConnOp.isTail] using hdid.mem_ops hmem
  · exact h.onConnection_not_mem hrun hmem
  · simpa [ConnOp.boundTo] using hdid.mem_queued hmem

/-- A function makes no `removeItself`. -/
theorem removeItself_not_mem_after {op : ConnOp} {rest : List ConnOp} {ch : Choice} {o : Outcome}
    (hrun : v.running = op :: rest) (hdid : Outcome.Did v.conn ch op o)
    (hmem : .removeItself ∈ (v.after rest o).all) : .removeItself ∈ v.all := by
  rcases mem_all_after.1 hmem with hmem | hmem | hmem
  · simpa [ConnOp.isHandler, ConnOp.isTail] using hdid.mem_ops hmem
  · rw [all_of_running hrun]
    exact List.mem_cons_of_mem _ hmem
  · simpa [ConnOp.boundTo] using hdid.mem_queued hmem

/-- Only the round of the destructor calls `removeItself` for its own, so the
other functions leave its count. -/
theorem count_removeItself_after {op : ConnOp} {rest : List ConnOp} {ch : Choice} {o : Outcome}
    (hrun : v.running = op :: rest) (hdid : Outcome.Did v.conn ch op o) (hop : op ≠ .removeItself) :
    (v.after rest o).count .removeItself = v.count .removeItself := by
  have hc := count_after (x := .removeItself) (o := o) hrun
  have hops : o.ops.count .removeItself = 0 := List.count_eq_zero.2 fun hm => by
    simpa [ConnOp.isHandler, ConnOp.isTail] using hdid.mem_ops hm
  have hqueued : o.queued.count .removeItself = 0 := List.count_eq_zero.2 fun hm => by
    simpa [ConnOp.boundTo] using hdid.mem_queued hm
  rwa [if_neg hop, hops, hqueued] at hc

/-- No end of a function is queued. -/
theorem count_queued_tail {k : Conn} {ch : Choice} {op x : ConnOp} {o : Outcome}
    (hdid : Outcome.Did k ch op o) (hx : x.isTail = true) : o.queued.count x = 0 := by
  refine List.count_eq_zero.2 fun hmem => ?_
  rcases hdid.mem_queued hmem with ⟨n, hb, -⟩ | ⟨rfl, -⟩
  · cases x <;> simp [ConnOp.boundTo, ConnOp.isTail] at hb hx
  · simp [ConnOp.isTail] at hx

/-- Among the handlers of events nothing else is to be done. -/
theorem count_handlers {ops : List ConnOp} {x : ConnOp} (hops : ∀ op ∈ ops, op.isHandler = true)
    (hx : x.isHandler = false) : ops.count x = 0 :=
  List.count_eq_zero.2 fun hmem => by simp [hops x hmem] at hx

/-- A function that closes the connection leaves the message to its holder to be
sent; `removeItself`, which `~TcpServer` calls, is the exception. -/
theorem Base.tokens_after_add {op : ConnOp} {rest : List ConnOp} {ch : Choice} {o : Outcome}
    (h : v.Base) (hrun : v.running = op :: rest) (hdid : Outcome.Did v.conn ch op o)
    (hop : op ≠ .removeItself) :
    (v.after rest o).tokens + v.conn.closed = v.tokens + o.conn.closed := by
  have hq := count_after (x := .queueTie) (o := o) hrun
  have hr := count_after (x := .removeConnection) (o := o) hrun
  rw [count_queued_tail hdid rfl] at hq hr
  simp only [View.tokens, after_removals]
  cases hdid with
  | nothing hquiet =>
    have h1 : op ≠ .queueTie := by rintro rfl; simp [ConnOp.quiet] at hquiet
    have h2 : op ≠ .removeConnection := by rintro rfl; simp [ConnOp.quiet] at hquiet
    simp [h1, h2] at hq hr ⊢
    omega
  | io hquiet _ hst hio =>
    have h1 : op ≠ .queueTie := by rintro rfl; simp [ConnOp.quiet] at hquiet
    have h2 : op ≠ .removeConnection := by rintro rfl; simp [ConnOp.quiet] at hquiet
    simp only [hio.ops, Conn.closed, hio.state] at hq hr ⊢
    simp [h1, h2] at hq hr ⊢
    omega
  | dispatch hops =>
    simp [count_handlers (x := .queueTie) hops rfl] at hq
    simp [count_handlers (x := .removeConnection) hops rfl] at hr
    simp
    omega
  | connect =>
    have hst := (h.onConnection (by simp [all_of_running hrun])).1
    simp [Conn.closed, hst] at hq hr ⊢
    omega
  | message => simp at hq hr ⊢; omega
  | notify hb =>
    have h1 : op ≠ .queueTie := by rintro rfl; simp [ConnOp.boundTo] at hb
    have h2 : op ≠ .removeConnection := by rintro rfl; simp [ConnOp.boundTo] at hb
    simp [h1, h2] at hq hr ⊢
    omega
  | shutdown hst hio =>
    simp only [hio.ops, Conn.closed, hio.state] at hq hr ⊢
    simp [hst] at hq hr ⊢
    omega
  | close hquiet _ hst hio =>
    have h1 : op ≠ .queueTie := by rintro rfl; simp [ConnOp.quiet] at hquiet
    have h2 : op ≠ .removeConnection := by rintro rfl; simp [ConnOp.quiet] at hquiet
    rw [Conn.closed_of_ne hst, Conn.closed_eq_one.2 rfl]
    simp only [Outcome.afterwards_ops, Outcome.removeItself_ops, hio.ops] at hq hr
    simp [h1, h2] at hq hr ⊢
    omega
  | forceClose hst =>
    rw [Conn.closed_of_ne (by rcases hst with h | h <;> simp [h] : v.conn.state ≠ .disconnected),
      Conn.closed_eq_one.2 rfl]
    simp at hq hr ⊢
    omega
  | removeItself => exact absurd rfl hop
  | channelRemove => simp [Conn.closed] at hq hr ⊢; omega
  | queueTie => simp [Conn.closed] at hq hr ⊢; omega
  | closeFd => simp [Conn.closed] at hq hr ⊢; omega

/-- Only a closed connection has the message to its holder on its way. -/
theorem Base.tokens_after {op : ConnOp} {rest : List ConnOp} {ch : Choice} {o : Outcome}
    (h : v.Base) (hrun : v.running = op :: rest) (hdid : Outcome.Did v.conn ch op o) :
    (v.after rest o).tokens ≤ o.conn.closed := by
  have htok := h.tokens
  by_cases hop : op = .removeItself
  · subst hop
    cases hdid with
    | removeItself =>
      have hq := count_after (x := .queueTie) (o := (Outcome.start v.conn).removeItself ch.script)
        hrun
      have hr := count_after (x := .removeConnection)
        (o := (Outcome.start v.conn).removeItself ch.script) hrun
      have hz := v.conn.closed_le_one
      simp [Conn.closed, View.tokens] at hq hr htok hz ⊢
      omega
    | nothing hquiet => simp [ConnOp.quiet] at hquiet
    | io hquiet => simp [ConnOp.quiet] at hquiet
    | close hquiet => simp [ConnOp.quiet] at hquiet
    | notify hb => simp [ConnOp.boundTo] at hb
  · have hadd := h.tokens_after_add hrun hdid hop
    omega

/-! ### Steps -/

/-- Which connection it is does not change, nor its loop and its holder. -/
theorem Step.identity (h : Step v cause v') : v'.conn.id = v.conn.id ∧
    v'.conn.loop = v.conn.loop ∧ v'.conn.tcpHolder = v.conn.tcpHolder := by
  cases h with
  | run hrun hlive hop hdid => exact hdid.identity
  | _ => exact ⟨rfl, rfl, rfl⟩

/-- The server replaces no connection. -/
theorem Step.ne_replaced (h : Step v cause v') (hholder : v.conn.tcpHolder = .server) :
    cause ≠ .replaced := by
  cases h with
  | run => split <;> simp
  | replaced hh => simp [hholder] at hh
  | _ => simp

/-- The loop has the same functions to run, in the same order. -/
theorem Base.frame (h : v.Base) (hstate : v'.conn.state = v.conn.state)
    (hholder : v'.conn.tcpHolder = v.conn.tcpHolder) (hloop : v'.conn.loop = v.conn.loop)
    (hregistered : v'.conn.registered = v.conn.registered) (hall : v'.all = v.all)
    (htails : ∀ op ∈ v'.todo ++ v'.pending, op.isTail = false) (htimers : v'.timers ≤ v.timers)
    (hheld : v'.held = true → v'.conn.destroyed = false)
    (halive : v'.phase = .alive → v.phase = .alive ∧ v'.visited = v.visited)
    (hconnector : v.conn.tcpHolder ≠ .server → v'.phase = v.phase)
    (hremovals : v'.removals ≤ v.removals) : v'.Base where
  connecting hst := by
    obtain ⟨hops, hreg, htim⟩ := h.connecting (hstate ▸ hst)
    exact ⟨by rwa [hall], by rw [hregistered, hreg], by omega⟩
  onConnection hmem := by
    rw [hstate, hholder, hloop, hall]
    exact h.onConnection (hall ▸ hmem)
  tails := htails
  held := hheld
  alive hp := by
    obtain ⟨hp', hv⟩ := halive hp
    rw [hall, hv]
    exact h.alive hp'
  connector hh := by
    rw [hholder] at hh
    obtain ⟨hp, hr, hst⟩ := h.connector hh
    exact ⟨(hconnector hh).trans hp, by omega, hstate ▸ hst⟩
  direct hl := hall ▸ h.direct (hloop ▸ hl)
  tokens := by
    have ht := h.tokens
    simp only [View.tokens, count, hall, Conn.closed, hstate] at ht ⊢
    omega

/-- A function that runs and is neither `onConnection` nor `removeItself` meets
a connection that is not `connecting`. -/
theorem Base.ne_connecting_of_running {op : ConnOp} {rest : List ConnOp} (h : v.Base)
    (hrun : v.running = op :: rest) (hc : op ≠ .onConnection) (hi : op ≠ .removeItself) :
    v.conn.state ≠ .connecting := fun hst => by
  rcases (h.connecting hst).1 op (by simp [all_of_running hrun]) with heq | heq
  · exact hc heq
  · exact hi heq

/-- The first function is done, and nothing is left of it. -/
theorem Base.pop {op : ConnOp} {rest : List ConnOp} (h : v.Base) (hrun : v.running = op :: rest)
    (hc : op ≠ .onConnection) (hi : op ≠ .removeItself) (hconn : v'.conn = v.conn)
    (hall : v'.all = rest ++ v.todo ++ v.pending)
    (htails : ∀ op ∈ v'.todo ++ v'.pending, op.isTail = false)
    (hheld : v'.held = true → v.held = true) (hphase : v'.phase = v.phase)
    (hvisited : v'.visited = v.visited)
    (hconnector : v.conn.tcpHolder ≠ .server → v'.removals = v.removals)
    (htokens : v'.tokens ≤ v.conn.closed) : v'.Base := by
  have hst := h.ne_connecting_of_running hrun hc hi
  have hsub (x : ConnOp) (hx : x ∈ v'.all) : x ∈ v.all := by
    rw [all_of_running hrun]
    exact List.mem_cons_of_mem _ (hall ▸ hx)
  have honc : .onConnection ∉ v'.all := fun hmem =>
    hst (h.onConnection (hsub _ hmem)).1
  refine ⟨fun hc => absurd (hconn ▸ hc) hst, fun hmem => absurd hmem honc, htails,
    fun hh => ?_, fun hp => ?_, fun hh => ?_, fun hl hmem => ?_, ?_⟩
  · rw [hconn]
    exact h.held (hheld hh)
  · obtain ⟨hnot, hv⟩ := h.alive (hphase ▸ hp)
    exact ⟨fun hmem => hnot (hsub _ hmem), hvisited.trans hv⟩
  · rw [hconn] at hh ⊢
    obtain ⟨hp, hr, hst⟩ := h.connector hh
    exact ⟨hphase.trans hp, (hconnector hh).trans hr, hst⟩
  · exact h.direct (hconn ▸ hl) (hsub _ hmem)
  · rwa [hconn]

/-- One more function comes first, or last. -/
theorem Base.cons {op : ConnOp} (h : v.Base) (hst : v.conn.state ≠ .connecting)
    (hc : op ≠ .onConnection) (hi : op ≠ .removeItself) (hq : op.isTail = false)
    (hconn : v'.conn = v.conn) (hmem : ∀ x, x ∈ v'.all ↔ x = op ∨ x ∈ v.all)
    (hcount : ∀ x, x ≠ op → v'.count x = v.count x)
    (htails : ∀ x ∈ v'.todo ++ v'.pending, x.isTail = false) (hheld : v'.held = v.held)
    (hphase : v'.phase = v.phase) (hvisited : v'.visited = v.visited)
    (hremovals : v'.removals = v.removals) : v'.Base := by
  have hnot {x : ConnOp} (hx : x ≠ op) (hv : x ∉ v.all) : x ∉ v'.all := fun hm =>
    ((hmem x).1 hm).elim hx hv
  have honc : .onConnection ∉ v.all := fun hm => hst (h.onConnection hm).1
  refine ⟨fun hs => absurd (hconn ▸ hs) hst, fun hm => absurd hm (hnot (Ne.symm hc) honc), htails,
    fun hh => ?_, fun hp => ?_, fun hh => ?_, fun hl => ?_, ?_⟩
  · rw [hconn]
    exact h.held (hheld ▸ hh)
  · obtain ⟨hno, hv⟩ := h.alive (hphase ▸ hp)
    exact ⟨hnot (Ne.symm hi) hno, hvisited.trans hv⟩
  · rw [hconn] at hh ⊢
    obtain ⟨hp, hr, hs⟩ := h.connector hh
    exact ⟨hphase.trans hp, hremovals.trans hr, hs⟩
  · exact hnot (Ne.symm hi) (h.direct (hconn ▸ hl))
  · have ht := h.tokens
    have h1 := hcount .queueTie fun he => by simp [← he, ConnOp.isTail] at hq
    have h2 := hcount .removeConnection fun he => by simp [← he, ConnOp.isTail] at hq
    simp only [View.tokens, hconn, h1, h2, hremovals] at ht ⊢
    exact ht

/-- The step of one function of the connection keeps what holds of every
connection. -/
theorem Base.after {op : ConnOp} {rest : List ConnOp} {ch : Choice} {o : Outcome} (h : v.Base)
    (hrun : v.running = op :: rest) (hdid : Outcome.Did v.conn ch op o) :
    (v.after rest o).Base := by
  obtain ⟨-, hloop, hholder⟩ := hdid.identity
  refine ⟨fun hst => absurd hst (h.ne_connecting hrun hdid),
    fun hmem => absurd hmem (h.onConnection_not_mem_after hrun hdid), fun x hx => ?_, fun hh => ?_,
    fun hp => ?_, fun hh => ?_, fun hl hmem => ?_, h.tokens_after hrun hdid⟩
  · simp only [after_todo, after_pending, ← List.append_assoc] at hx
    rcases List.mem_append.1 hx with hx | hx
    · exact h.tails x hx
    · rcases hdid.mem_queued hx with ⟨n, hb, -⟩ | ⟨rfl, -⟩
      · cases x <;> simp [ConnOp.boundTo, ConnOp.isTail] at hb ⊢
      · rfl
  · rw [after_conn, hdid.destroyed]
    exact h.held hh
  · obtain ⟨hnot, hv⟩ := h.alive hp
    exact ⟨fun hmem => hnot (removeItself_not_mem_after hrun hdid hmem), hv⟩
  · rw [after_conn, hholder] at hh
    obtain ⟨hp, hr, -⟩ := h.connector hh
    exact ⟨hp, hr, h.ne_connecting hrun hdid⟩
  · rw [after_conn, hloop] at hl
    exact h.direct hl (removeItself_not_mem_after hrun hdid hmem)

/-- `removeItself`, called by `~TcpServer` on the loop of the connection. -/
theorem Base.visitDirect {script : List Call} (h : v.Base) (hholder : v.conn.tcpHolder = .server)
    (hloop : v.conn.loop = 0) (hphase : v.phase = .removing) :
    View.Base { v.after v.running ((Outcome.start v.conn).removeItself script) with
      visited := true } := by
  have hall : View.all { v.after v.running ((Outcome.start v.conn).removeItself script) with
      visited := true } = .channelRemove :: v.all := by simp [all]
  have honc : .onConnection ∉ v.all := fun hm => (h.onConnection hm).2.2.1 hloop
  refine ⟨by simp, fun hm => ?_, fun x hx => ?_, h.held, fun hp => ?_,
    fun hh => absurd hholder hh, fun hl hm => ?_, ?_⟩
  · rw [hall] at hm
    exact absurd (List.mem_of_ne_of_mem (by simp) hm) honc
  · exact h.tails x (by simpa using hx)
  · simp [hphase] at hp
  · rw [hall] at hm
    exact h.direct hl (List.mem_of_ne_of_mem (by simp) hm)
  · have ht := h.tokens
    have hc := v.conn.closed_le_one
    simp only [View.tokens, count, hall, List.count_cons] at ht ⊢
    rw [Conn.closed_eq_one.2 rfl]
    simp
    omega

/-- A round of events keeps it: events come of registered channels only, and a
delayed close has its timer. -/
theorem Base.poll {ops : List ConnOp} {timers : ℕ} (h : v.Base) (hrun : v.running = [])
    (htodo : v.todo = [])
    (hops : ∀ op ∈ ops, op = .forceCloseInLoop ∧ 0 < v.timers ∨
      (∃ revents, op = .handleEvent revents) ∧ v.conn.registered = true)
    (htimers : timers ≤ v.timers) :
    View.Base { v with place := .handling, todo := ops, timers := timers } := by
  have hall : v.all = v.pending := by simp [all, hrun, htodo]
  have hall' : View.all { v with place := .handling, todo := ops, timers := timers } =
      ops ++ v.all := by simp [all, hrun, htodo]
  have hkind (x : ConnOp) (hx : x ∈ ops) :
      x.isTail = false ∧ x ≠ .onConnection ∧ x ≠ .removeItself := by
    rcases hops x hx with ⟨rfl, -⟩ | ⟨⟨revents, rfl⟩, -⟩ <;> simp [ConnOp.isTail]
  have htails : ∀ x ∈ ops ++ v.pending, x.isTail = false := fun x hx => by
    rcases List.mem_append.1 hx with hx | hx
    · exact (hkind x hx).1
    · exact h.tails x (List.mem_append_right _ hx)
  by_cases hst : v.conn.state = .connecting
  · obtain ⟨-, hreg, htim⟩ := h.connecting hst
    obtain rfl : ops = [] := List.eq_nil_iff_forall_not_mem.2 fun x hx => by
      rcases hops x hx with ⟨-, ht⟩ | ⟨-, hr⟩
      · omega
      · rw [hreg] at hr
        cases hr
    exact h.frame rfl rfl rfl rfl hall' htails htimers h.held (fun hp => ⟨hp, rfl⟩) (fun _ => rfl)
      (Nat.le_refl _)
  · have hnot {x : ConnOp} (hx : x ∈ ops → False) (hv : x ∉ v.all) : x ∉ ops ++ v.all :=
      fun hm => (List.mem_append.1 hm).elim hx hv
    refine ⟨fun hs => absurd hs hst, fun hm => ?_, htails, h.held, fun hp => ?_, h.connector,
      fun hl => ?_, ?_⟩
    · rw [hall'] at hm
      exact absurd hm (hnot (fun hx => (hkind _ hx).2.1 rfl) fun hm => hst (h.onConnection hm).1)
    · obtain ⟨hno, hv⟩ := h.alive hp
      rw [hall']
      exact ⟨hnot (fun hx => (hkind _ hx).2.2 rfl) hno, hv⟩
    · rw [hall']
      exact hnot (fun hx => (hkind _ hx).2.2 rfl) (h.direct hl)
    · have ht := h.tokens
      have hz (x : ConnOp) (hx : x.isTail = true) : ops.count x = 0 :=
        List.count_eq_zero.2 fun hm => by simp [(hkind x hm).1] at hx
      simp only [View.tokens, count, hall', List.count_append, hz .queueTie rfl,
        hz .removeConnection rfl, Nat.zero_add] at ht ⊢
      exact ht

/-- Something else in front is not counted. -/
theorem count_cons_self_of_ne {op x : ConnOp} {l : List ConnOp} (h : x ≠ op) :
    (op :: l).count x = l.count x := List.count_cons_of_ne (Ne.symm h)

/-- A method of a connection is none of the functions that only the loop or the
holder may call. -/
theorem Method.op_not (m : Method) :
    m.op ≠ .onConnection ∧ m.op ≠ .removeItself ∧ m.op.isTail = false := by
  cases m <;> simp [Method.op, ConnOp.isTail]

/-- **What holds of every connection is kept by every step.** -/
theorem Base.step (h : v.Base) (hstep : Step v cause v') : v'.Base := by
  have htok := h.tokens
  cases hstep with
  | run hrun hlive hop hdid => exact h.after hrun hdid
  | addTimer hrun hlive =>
    have hst := h.ne_connecting_of_running hrun (by simp) (by simp)
    refine h.pop hrun (by simp) (by simp) rfl rfl h.tails id rfl rfl (fun _ => rfl) ?_
    simpa [View.tokens, count, all, hrun, List.count_cons] using htok
  | serverRemoves hrun hlive hholder =>
    refine h.pop hrun (by simp) (by simp) rfl rfl h.tails id rfl rfl
      (fun hh => absurd hholder hh) ?_
    simp [View.tokens, count, all, hrun] at htok ⊢
    omega
  | connectorRemoves hrun hlive hholder =>
    refine h.pop hrun (by simp) (by simp) rfl rfl h.tails (by simp) rfl rfl (fun _ => rfl) ?_
    simp [View.tokens, count, all, hrun] at htok ⊢
    omega
  | erase hholder hn =>
    exact h.frame rfl rfl rfl rfl rfl h.tails (Nat.le_refl _) (by simp) (fun hp => ⟨hp, rfl⟩)
      (fun _ => rfl) (by simp [hn])
  | replaced hholder hheld =>
    exact h.frame rfl rfl rfl rfl rfl h.tails (Nat.le_refl _) (by simp) (fun hp => ⟨hp, rfl⟩)
      (fun _ => rfl) (Nat.le_refl _)
  | stop hholder hheld =>
    have hst := (h.connector (by simp [hholder])).2.2
    refine h.cons hst (by simp) (by simp) rfl rfl (fun x => List.mem_cons) (fun x hx => ?_)
      h.tails rfl rfl rfl rfl
    · simp [count, all, count_cons_self_of_ne hx]
  | destroyServer hholder hphase =>
    exact h.frame rfl rfl rfl rfl rfl h.tails (Nat.le_refl _) h.held (by simp)
      (fun hh => absurd hholder hh) (Nat.le_refl _)
  | visitDirect hholder hloop hphase hheld hvisited => exact h.visitDirect hholder hloop hphase
  | visitQueued hholder hloop hphase hheld hvisited =>
    have hall : View.all { v with pending := v.pending ++ [.removeItself], visited := true } =
        v.all ++ [.removeItself] := by simp [all]
    refine ⟨fun hst => ?_, fun hm => ?_, fun x hx => ?_, h.held, fun hp => ?_,
      fun hh => absurd hholder hh, fun hl => absurd hl hloop, ?_⟩
    · obtain ⟨hops, hreg, htim⟩ := h.connecting hst
      refine ⟨fun x hx => ?_, hreg, htim⟩
      rw [hall, List.mem_append, List.mem_singleton] at hx
      exact hx.elim (hops x) .inr
    · rw [hall, List.mem_append] at hm
      obtain ⟨hst, hh, hl, rest, hrest, hnot⟩ :=
        h.onConnection (hm.resolve_right (by simp))
      exact ⟨hst, hh, hl, rest ++ [.removeItself], by rw [hall, hrest]; rfl, by simpa using hnot⟩
    · rcases List.mem_append.1 hx with hx | hx
      · exact h.tails x (List.mem_append_left _ hx)
      · rcases List.mem_append.1 hx with hx | hx
        · exact h.tails x (List.mem_append_right _ hx)
        · exact List.mem_singleton.1 hx ▸ rfl
    · simp [hphase] at hp
    · simpa [View.tokens, count, hall] using htok
  | clear hholder hphase hvisited =>
    exact h.frame rfl rfl rfl rfl rfl h.tails (Nat.le_refl _) (by simp) (by simp)
      (fun hh => absurd hholder hh) (Nat.le_refl _)
  | serverGone hholder hphase =>
    exact h.frame rfl rfl rfl rfl rfl h.tails (Nat.le_refl _) h.held (by simp)
      (fun hh => absurd hholder hh) (Nat.le_refl _)
  | @call m hallowed hlive =>
    obtain ⟨hc, hi, hq⟩ := Method.op_not m
    have hst : v.conn.state ≠ .connecting := fun hst => by
      cases m <;> simp [Method.allowed, hst] at hallowed
    refine h.cons hst hc hi hq rfl (fun x => ?_) (fun x hx => ?_) h.tails rfl rfl rfl rfl
    · simp [all]
    · simp [count, all, count_cons_self_of_ne hx]
  | @queue m hst hlive =>
    obtain ⟨hc, hi, hq⟩ := Method.op_not m
    refine h.cons hst hc hi hq rfl (fun x => ?_) (fun x hx => ?_) (fun x hx => ?_) rfl rfl rfl rfl
    · simp only [all, List.mem_append, List.mem_singleton]
      tauto
    · simp [count, all, count_cons_self_of_ne hx]
    · simp only [List.mem_append, List.mem_singleton] at hx
      rcases hx with hx | hx | rfl
      · exact h.tails x (List.mem_append_left _ hx)
      · exact h.tails x (List.mem_append_right _ hx)
      · exact hq
  | setTcpHandler hst hlive =>
    exact h.frame rfl rfl rfl rfl rfl h.tails (Nat.le_refl _) h.held (fun hp => ⟨hp, rfl⟩)
      (fun _ => rfl) (Nat.le_refl _)
  | configure hst =>
    exact h.frame rfl rfl rfl rfl rfl h.tails (Nat.le_refl _) h.held (fun hp => ⟨hp, rfl⟩)
      (fun _ => rfl) (Nat.le_refl _)
  | testQuit hplace hrun htodo =>
    exact h.frame rfl rfl rfl rfl rfl h.tails (Nat.le_refl _) h.held (fun hp => ⟨hp, rfl⟩)
      (fun _ => rfl) (Nat.le_refl _)
  | exit hplace hrun htodo =>
    have hall : View.all { v with place := .exited, pending := [], timers := 0 } = [] := by
      simp [all, hrun, htodo]
    refine ⟨fun hst => ?_, fun hm => ?_, by simp [htodo], h.held, fun hp => ?_, h.connector,
      fun hl => ?_, ?_⟩
    · exact ⟨by simp [hall], (h.connecting hst).2.1, rfl⟩
    · simp [hall] at hm
    · exact ⟨by simp [hall], (h.alive hp).2⟩
    · simp [hall]
    · simp only [View.tokens, count, hall, List.count_nil] at htok ⊢
      omega
  | poll hplace hrun htodo hops htimers => exact h.poll hrun htodo hops htimers
  | next hrun htodo =>
    refine h.frame rfl rfl rfl rfl (by simp [all, hrun, htodo]) (fun x hx => h.tails x ?_)
      (Nat.le_refl _) h.held (fun hp => ⟨hp, rfl⟩) (fun _ => rfl) (Nat.le_refl _)
    rw [htodo]
    exact List.mem_cons_of_mem _ hx
  | swap hplace hrun htodo =>
    exact h.frame rfl rfl rfl rfl (by simp [all, hrun, htodo])
      (fun x hx => h.tails x (List.mem_append_right _ (by simpa using hx))) (Nat.le_refl _) h.held
      (fun hp => ⟨hp, rfl⟩) (fun _ => rfl) (Nat.le_refl _)
  | endTasks hplace hrun htodo =>
    exact h.frame rfl rfl rfl rfl rfl h.tails (Nat.le_refl _) h.held (fun hp => ⟨hp, rfl⟩)
      (fun _ => rfl) (Nat.le_refl _)
  | destroy hlive hheld howns =>
    exact h.frame rfl rfl rfl rfl rfl h.tails (Nat.le_refl _) (by simp [hheld])
      (fun hp => ⟨hp, rfl⟩) (fun _ => rfl) (Nat.le_refl _)

/-- A connection begins with it. -/
theorem Initial.base (h : v.Initial) : v.Base := by
  cases h with
  | queued hl =>
    constructor <;> simp [fresh, Conn.new, all, View.tokens, count, Conn.closed, ConnOp.isTail, hl]
  | called hl =>
    constructor <;> simp [fresh, Conn.new, all, View.tokens, count, Conn.closed, ConnOp.isTail]

/-! ### What the holder has been told -/

/-- A holder that lives has a connection until the one message that it is closed
has come: the message is on its way, or the connection is out. -/
def Told (v : View) : Prop :=
  v.phase = .alive → v.tokens + (if v.held then 0 else 1) = v.conn.closed

/-- The same functions are left to run. -/
theorem tokens_eq (hcount : ∀ x, x.isTail = true → v'.count x = v.count x)
    (hremovals : v'.removals = v.removals) : v'.tokens = v.tokens := by
  rw [View.tokens, hcount .queueTie rfl, hcount .removeConnection rfl, hremovals, View.tokens]

/-- What is to be done decides how often. -/
theorem count_eq_of_all {x : ConnOp} (h : v'.all = v.all) : v'.count x = v.count x := by
  rw [count, h, count]

/-- The ends of functions are not counted among what may be called. -/
theorem count_tail_cons {op x : ConnOp} {l : List ConnOp} (hop : op.isTail = false)
    (hx : x.isTail = true) : (op :: l).count x = l.count x :=
  List.count_cons_of_ne fun heq => by simp [heq, hx] at hop

/-- No end of a function is in what the poller or a timer brings. -/
theorem count_tail_poll {ops : List ConnOp} {x : ConnOp} (hx : x.isTail = true)
    (hops : ∀ op ∈ ops, op = .forceCloseInLoop ∧ 0 < v.timers ∨
      (∃ revents, op = .handleEvent revents) ∧ v.conn.registered = true) : ops.count x = 0 :=
  List.count_eq_zero.2 fun hm => by
    rcases hops x hm with ⟨rfl, -⟩ | ⟨⟨revents, rfl⟩, -⟩ <;> simp [ConnOp.isTail] at hx

/-- A function closes the connection in `handleClose`, or it is `removeItself`, or it
does not. -/
theorem closed_of_did {op : ConnOp} {ch : Choice} {o : Outcome} {k : Conn}
    (hdid : Outcome.Did k ch op o) (hi : op ≠ .removeItself)
    (hc : op = .onConnection → k.state ≠ .disconnected) :
    o.conn.closed = k.closed ∨ op.closes k ch = true ∧ k.closed = 0 ∧ o.conn.closed = 1 := by
  cases hdid with
  | io hq hnot hst hio =>
    left
    rw [Conn.closed, hio.state]
    rfl
  | connect => exact .inl (Conn.closed_of_ne (hc rfl)).symm
  | shutdown hst hio =>
    left
    rw [Conn.closed_of_ne (by simp [hio.state]), Conn.closed_of_ne (by simp [hst])]
  | close hq hcl hst hio => exact .inr ⟨hcl, Conn.closed_of_ne hst, rfl⟩
  | forceClose hst =>
    refine .inr ⟨by simpa [ConnOp.closes] using hst, Conn.closed_of_ne ?_, rfl⟩
    rcases hst with hst | hst <;> simp [hst]
  | removeItself => exact absurd rfl hi
  | _ => exact .inl rfl

/-- What a step does to the books of a connection: whether it is closed, whether
its holder has it, and the messages on their way between the two. -/
inductive Account (v v' : View) : Cause → Prop
  | same {cause : Cause} (hclosed : v'.conn.closed = v.conn.closed) (hheld : v'.held = v.held)
      (htokens : v'.tokens = v.tokens) : Account v v' cause
  | close (hopen : v.conn.closed = 0) (hclosed : v'.conn.closed = 1) (hheld : v'.held = v.held)
      (htokens : v'.tokens = v.tokens + 1) : Account v v' .handleClose
  | arrive {cause : Cause} (hclosed : v'.conn.closed = v.conn.closed) (hheld : v'.held = false)
      (htokens : v'.tokens + 1 = v.tokens) : Account v v' cause
  | release {cause : Cause} (hcause : cause = .replaced ∨ cause = .clear)
      (hclosed : v'.conn.closed = v.conn.closed) (hheld : v'.held = false)
      (htokens : v'.tokens = v.tokens) : Account v v' cause
  | removeItself {cause : Cause}
      (hcause : cause = .visitDirect ∨ v'.count .removeItself < v.count .removeItself)
      (hclosed : v'.conn.closed = 1) (hheld : v'.held = v.held)
      (htokens : v'.tokens = v.tokens) : Account v v' cause

/-- **What a step does to the books.** -/
theorem Base.account (hb : v.Base) (hstep : Step v cause v') : Account v v' cause := by
  cases hstep with
  | @run op rest ch o hrun hlive hop hdid =>
    by_cases hi : op = .removeItself
    · subst hi
      have hq := count_after (x := .queueTie) (o := o) hrun
      have hr := count_after (x := .removeConnection) (o := o) hrun
      rw [count_queued_tail hdid rfl] at hq hr
      obtain rfl := hdid.eq_removeItself
      have hc := count_after (x := .removeItself)
        (o := (Outcome.start v.conn).removeItself ch.script) hrun
      refine .removeItself (.inr ?_) rfl rfl ?_
      · simp at hc
        omega
      · simp [View.tokens] at hq hr ⊢
        omega
    · have hadd := hb.tokens_after_add hrun hdid hi
      have hc : op = .onConnection → v.conn.state ≠ .disconnected := fun heq => by
        subst heq
        simp [(hb.onConnection (by simp [all_of_running hrun])).1]
      rcases closed_of_did hdid hi hc with hclosed | ⟨hcloses, hopen, hclosed⟩
      · exact .same hclosed rfl (by omega)
      · rw [if_pos hcloses]
        exact .close hopen hclosed rfl (by omega)
  | addTimer hrun hlive =>
    refine .same rfl rfl (tokens_eq (fun x hx => ?_) rfl)
    simp only [count, all, hrun, List.cons_append]
    exact (count_tail_cons rfl hx).symm
  | serverRemoves hrun hlive hholder =>
    refine .same rfl rfl ?_
    simp [View.tokens, count, all, hrun]
    omega
  | connectorRemoves hrun hlive hholder =>
    refine .arrive rfl rfl ?_
    simp [View.tokens, count, all, hrun]
    omega
  | erase hholder hn =>
    refine .arrive rfl rfl ?_
    simp [View.tokens, count, all, hn]
    omega
  | replaced hholder hheld => exact .release (.inl rfl) rfl rfl rfl
  | stop hholder hheld =>
    refine .same rfl rfl (tokens_eq (fun x hx => ?_) rfl)
    exact count_tail_cons rfl hx
  | visitDirect hholder hloop hphase hheld hvisited =>
    refine .removeItself (.inl rfl) rfl rfl ?_
    simp [View.tokens, count, all]
  | visitQueued hholder hloop hphase hheld hvisited =>
    refine .same rfl rfl (tokens_eq (fun x hx => ?_) rfl)
    simp only [count, all, ← List.append_assoc, List.count_append]
    rw [count_tail_cons rfl hx, List.count_nil, Nat.add_zero]
  | clear hholder hphase hvisited => exact .release (.inr rfl) rfl rfl rfl
  | @call m hallowed hlive =>
    refine .same rfl rfl (tokens_eq (fun x hx => ?_) rfl)
    exact count_tail_cons (Method.op_not m).2.2 hx
  | @queue m hst hlive =>
    refine .same rfl rfl (tokens_eq (fun x hx => ?_) rfl)
    simp only [count, all, ← List.append_assoc, List.count_append]
    rw [count_tail_cons (Method.op_not m).2.2 hx, List.count_nil, Nat.add_zero]
  | exit hplace hrun htodo =>
    refine .same rfl rfl (tokens_eq (fun x hx => ?_) rfl)
    have hz : v.pending.count x = 0 := List.count_eq_zero.2 fun hm => by
      simp [hb.tails x (List.mem_append_right _ hm)] at hx
    simp [count, all, hrun, htodo, hz]
  | poll hplace hrun htodo hops htimers =>
    refine .same rfl rfl (tokens_eq (fun x hx => ?_) rfl)
    simp [count, all, hrun, htodo, count_tail_poll hx hops]
  | next hrun htodo =>
    exact .same rfl rfl (tokens_eq (fun x _ => count_eq_of_all (by simp [all, hrun, htodo])) rfl)
  | swap hplace hrun htodo =>
    exact .same rfl rfl (tokens_eq (fun x _ => count_eq_of_all (by simp [all, hrun, htodo])) rfl)
  | _ => exact .same rfl rfl rfl

/-- A server that lives has lived before, and it neither visits nor clears. -/
theorem Step.alive (hstep : Step v cause v') (hp : v'.phase = .alive) :
    v.phase = .alive ∧ cause ≠ .visitDirect ∧ cause ≠ .clear := by
  cases hstep with
  | run => exact ⟨hp, by split <;> simp⟩
  | visitDirect hholder hloop hphase hheld hvisited => simp [hphase] at hp
  | destroyServer hholder hphase => simp at hp
  | clear hholder hphase hvisited => simp at hp
  | serverGone hholder hphase => simp at hp
  | _ => exact ⟨hp, by simp⟩

/-- A step keeps the count of messages to the holder, unless the connection is
replaced by another one of its connector. -/
theorem Told.step (hb : v.Base) (h : v.Told) (hcause : cause ≠ .replaced)
    (hstep : Step v cause v') : v'.Told := by
  intro hp
  obtain ⟨halive, hvisit, hclear⟩ := hstep.alive hp
  have hle := v.conn.closed_le_one
  have heq := h halive
  cases hb.account hstep with
  | same hclosed hheld htokens => rw [htokens, hheld, hclosed, heq]
  | close hopen hclosed hheld htokens =>
    rw [htokens, hheld, hclosed]
    omega
  | arrive hclosed hheld htokens =>
    rw [hheld, hclosed]
    split at heq <;> simp <;> omega
  | release hc =>
    rcases hc with hc | hc
    · exact absurd hc hcause
    · exact absurd hc hclear
  | removeItself hc =>
    rcases hc with hc | hc
    · exact absurd hc hvisit
    · exact absurd (List.count_pos_iff.1 (Nat.zero_lt_of_lt hc)) (hb.alive halive).1

/-- A connection begins with no message to its holder. -/
theorem Initial.told (h : v.Initial) : v.Told := by
  cases h <;> simp [Told, fresh, View.tokens, count, all, Conn.closed, Conn.new]

end View

/-- Which connection it is does not change, nor its loop and its holder. -/
theorem identity_step {s s' : Service} {i : Input} {c : ℕ} (hwf : WellFormed s)
    (hc : c < s.created) (hs : s.step i = some s') : (s'.conns c).id = (s.conns c).id ∧
      (s'.conns c).loop = (s.conns c).loop ∧ (s'.conns c).tcpHolder = (s.conns c).tcpHolder := by
  rcases view_step hwf hc hs with heq | ⟨cause, hst, -⟩
  · have hconn : s'.conns c = s.conns c := congrArg View.conn heq
    rw [hconn]
    exact ⟨rfl, rfl, rfl⟩
  · exact hst.identity

/-- A step keeps what holds of every connection, if each of the causes is fine. -/
theorem views_step {P : View → Prop} {Fine : View → Cause → Prop} {s s' : Service} {i : Input}
    (hinit : ∀ v, View.Initial v → P v)
    (hstep : ∀ v cause v', v.Base → P v → Fine v cause → View.Step v cause v' → P v')
    (hwf : WellFormed s) (hviews : ∀ c < s.created, (s.view c).Base ∧ P (s.view c))
    (hfine : ∀ c < s.created, ∀ cause, s.Causes i c cause → Fine (s.view c) cause)
    (hs : s.step i = some s') :
    WellFormed s' ∧ ∀ c < s'.created, (s'.view c).Base ∧ P (s'.view c) := by
  refine ⟨hwf.step hs, forall_view_step (P := fun v => v.Base ∧ P v) hwf hs
    (fun v hv _ => ⟨hv.base, hinit v hv⟩) hviews fun c hc cause v hvs hcause hv => ?_⟩
  exact ⟨hv.1.step hvs, hstep _ cause v hv.1 hv.2 (hfine c hc cause hcause) hvs⟩

/-- **The run rule for connections.**  `P` holds of every new connection, and a
step keeps it whose cause is fine; where every step of a run is good, and good
steps have fine causes, `P` holds of every connection in every state. -/
theorem always_views {Good : Service → Input → Prop} {P : View → Prop} {Fine : View → Cause → Prop}
    (hinit : ∀ v, View.Initial v → P v)
    (hfine : ∀ s i s' c cause, WellFormed s →
      (∀ c < s.created, (s.view c).Base ∧ P (s.view c)) → Good s i → s.step i = some s' →
      c < s.created → s.Causes i c cause → Fine (s.view c) cause)
    (hstep : ∀ v cause v', v.Base → P v → Fine v cause → View.Step v cause v' → P v')
    {workers : ℕ} {connectorLoop : ℕ → ℕ} {is : List Input}
    (hgood : Transition.Steps step Good (init workers connectorLoop) is) :
    Transition.Always step
      (fun s => WellFormed s ∧ ∀ c < s.created, (s.view c).Base ∧ P (s.view c))
      (init workers connectorLoop) is := by
  refine Transition.always_of_steps (fun s i s' hs hg hst => ?_)
    ⟨wellFormed_init workers connectorLoop, by simp [init]⟩ hgood
  exact views_step hinit hstep hs.1 hs.2
    (fun c hc cause hcause => hfine s i s' c cause hs.1 hs.2 hg hst hc hcause) hst

/-- The same where every step keeps `P`. -/
theorem always_views_of_step {P : View → Prop} (hinit : ∀ v, View.Initial v → P v)
    (hstep : ∀ v cause v', v.Base → P v → View.Step v cause v' → P v') (workers : ℕ)
    (connectorLoop : ℕ → ℕ) (is : List Input) :
    Transition.Always step
      (fun s => WellFormed s ∧ ∀ c < s.created, (s.view c).Base ∧ P (s.view c))
      (init workers connectorLoop) is :=
  always_views hinit (fun _ _ _ _ _ _ _ _ _ _ _ => trivial)
    (fun v cause v' hb hp (_ : True) hst => hstep v cause v' hb hp hst)
    (Transition.steps_of_forall fun _ _ => trivial)

end Service
end Net
end Sevent
