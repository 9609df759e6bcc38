/-
# Who owns the connections of a batch

`sevent/net/EventLoop.cpp`, `sevent/net/TcpConnection.cpp`,
`sevent/net/TcpServer.cpp`, `sevent/net/Connector.cpp`.

`poll` leaves plain pointers in `activeChannels`, and the handlers that run for
the first of them may close any of the others.  What keeps the objects is the
order in which `handleClose` lets go: it queues the `tie`, a task that does
nothing but hold the connection, and only then calls the holder; and the tasks
run after the batch (`View.Kept`).

Two things let go without a tie.  A connector whose connect finishes puts the
new connection in the place of the one it has: after `shutdown` and `connect` of
a client whose peer has not closed yet, the old connection may be in the same
batch.  And `~TcpServer`, where it runs in the loop of its connections, calls
`removeItself` in their handlers' batch and clears the table.  `batch_owned` says
that nothing else does.
-/

import Sevent.Net.ConnBase

namespace Sevent
namespace Net
namespace Service

/-- The connection that a task keeps. -/
def Op.owner : Op → Option ℕ
  | .conn c op => if op.owns then some c else none
  | _ => none

/-- The holder of the connection has it, or a queued task of its loop. -/
def Owned (s : Service) (c : ℕ) : Prop :=
  s.held c = true ∨ ∃ op ∈ (s.loops (s.conns c).loop).pendingTasks, op.owner = some c

instance (s : Service) (c : ℕ) : Decidable (s.Owned c) := inferInstanceAs (Decidable (_ ∨ _))

/-- `Channel::handleEvent`, and the functions it calls. -/
def ConnOp.ofEvent : ConnOp → Bool
  | .handleEvent _ => true
  | op => op.isHandler

/-- Where the loop is at an event of a closed connection, or at one of the
functions called for it, these do nothing to any connection, and queue nothing. -/
def StaleQuiet (s : Service) (l : ℕ) : Prop :=
  ∀ c op rest, (s.loops l).ops = .conn c op :: rest → op.ofEvent = true →
    (s.conns c).state = .disconnected → ∀ ch pick s', s.step (.exec l ch pick) = some s' →
      s'.log = s.log ∧ s'.conns = s.conns ∧
        (s'.loops l).pendingTasks = (s.loops l).pendingTasks

/-- The connector whose connect has finished. -/
def establishing (s : Service) (i : Input) : Option ℕ :=
  match s.current i with
  | some (.establish k _) => some k
  | _ => none

/-- A connect finishes for a connector that has no connection. -/
def ConnectsFree (s : Service) (i : Input) : Prop :=
  ∀ k ∈ s.establishing i, (s.connectors k).connection = none

/-- So it does, and `~TcpServer` does not run in a batch with a connection that it
closes itself, one of its own loop. -/
def KeepsOwners (batch : List ℕ) (s : Service) (i : Input) : Prop :=
  s.ConnectsFree i ∧
    (s.current i = some .removeAll → (s.loops 0).place = .handling →
      ∀ c ∈ batch, c < s.created → (s.conns c).tcpHolder = .server → (s.conns c).loop ≠ 0)

instance (s : Service) (i : Input) : Decidable (s.ConnectsFree i) :=
  inferInstanceAs (Decidable (∀ k ∈ s.establishing i, _))

instance (batch : List ℕ) (s : Service) (i : Input) : Decidable (KeepsOwners batch s i) :=
  inferInstanceAs (Decidable (_ ∧ _))

/-- The causes that keep a batch going and let go of nothing. -/
def Cause.Keeps (cause : Cause) : Prop :=
  cause ≠ .replaced ∧ cause ≠ .visitDirect ∧ cause ≠ .swap

namespace View

variable {v v' : View} {cause : Cause}

/-- The message to the holder has been sent, or is about to be. -/
def Sent (v : View) : Prop := .removeConnection ∈ v.running ∨ 0 < v.removals

/-- A connection that sent `removeConnection` has it queued somewhere, or the
server has seen it. -/
theorem Sent.pos (h : v.Sent) : 0 < v.count .removeConnection + v.removals := by
  rcases h with hm | hm
  · exact Nat.add_pos_left (List.count_pos_iff.2 (by simp [all, hm])) _
  · exact Nat.add_pos_right _ hm

/-- Until it has come, the holder has the connection. -/
theorem Told.held_of_sent (h : v.Told) (hphase : v.phase = .alive) (hsent : v.Sent) :
    v.held = true := by
  have hpos := hsent.pos
  have hle := v.conn.closed_le_one
  have heq := h hphase
  by_contra hnot
  rw [if_neg hnot, View.tokens] at heq
  omega

/-- The connection is closed then, and its `handleClose` has queued the `tie`. -/
theorem Base.of_sent (h : v.Base) (hsent : v.Sent) :
    v.conn.state = .disconnected ∧ .queueTie ∉ v.running := by
  have htok := h.tokens
  have hle := v.conn.closed_le_one
  simp only [View.tokens] at htok
  have hpos := hsent.pos
  refine ⟨Conn.closed_eq_one.1 (by omega), fun hm => ?_⟩
  have htie : 0 < v.count .queueTie := List.count_pos_iff.2 (by simp [all, hm])
  omega

/-- Who has a connection, between the batches of its loop too. -/
structure Owners (v : View) : Prop where
  told : v.Told
  held : v.place ≠ .exited → v.conn.state ≠ .disconnected →
    v.held = true ∨ .removeItself ∈ v.all
  registered : v.place ≠ .exited → v.conn.registered = true →
    v.conn.destroyed = false ∧ v.conn.state ≠ .disconnected ∨ .channelRemove ∈ v.running
  visited : v.place ≠ .exited → v.visited = true →
    v.conn.state = .disconnected ∨ .removeItself ∈ v.all
  batch : v.place = .handling → .removeItself ∉ v.running ++ v.todo

/-- A step that closes nothing, gives up nothing and visits nothing. -/
theorem Owners.frame (h : v.Owners) (htold : v'.Told) (hstate : v'.conn.state = v.conn.state)
    (hdestroyed : v'.conn.destroyed = v.conn.destroyed)
    (hregistered : v'.conn.registered = v.conn.registered)
    (hplace : v'.place ≠ .exited → v.place ≠ .exited) (hheld : v'.held = v.held)
    (hvisited : v'.visited = v.visited)
    (hall : v'.place ≠ .exited → .removeItself ∈ v.all → .removeItself ∈ v'.all)
    (hrunning : .channelRemove ∈ v.running → .channelRemove ∈ v'.running)
    (hbatch : v'.place = .handling → .removeItself ∉ v'.running ++ v'.todo) : v'.Owners where
  told := htold
  held hp hst := by
    rw [hheld]
    exact (h.held (hplace hp) (hstate ▸ hst)).imp_right (hall hp)
  registered hp hr := by
    rw [hdestroyed, hstate]
    exact (h.registered (hplace hp) (hregistered ▸ hr)).imp_right hrunning
  visited hp hv := by
    rw [hstate]
    exact (h.visited (hplace hp) (hvisited ▸ hv)).imp_right (hall hp)
  batch := hbatch

/-- A closed connection may be given up. -/
theorem Owners.release (h : v.Owners) (htold : v'.Told) (hst : v.conn.state = .disconnected)
    (hconn : v'.conn = v.conn) (hplace : v'.place = v.place)
    (hrunning : .channelRemove ∈ v.running → .channelRemove ∈ v'.running)
    (hbatch : .removeItself ∈ v'.running ++ v'.todo → .removeItself ∈ v.running ++ v.todo) :
    v'.Owners where
  told := htold
  held _ hne := absurd (hconn ▸ hst) hne
  registered hp hr := by
    rw [hconn] at hr ⊢
    exact (h.registered (hplace ▸ hp) hr).imp_right hrunning
  visited _ _ := .inl (hconn ▸ hst)
  batch hp hm := h.batch (hplace ▸ hp) (hbatch hm)

/-- Every function that runs on a connection, and what follows it, leaves an
owner to the functions that are still to run. -/
theorem Owners.after {op : ConnOp} {rest : List ConnOp} {ch : Choice} {o : Outcome} (hb : v.Base)
    (h : v.Owners) (hrun : v.running = op :: rest) (hlive : v.conn.destroyed = false)
    (hdid : Outcome.Did v.conn ch op o) (htold : (v.after rest o).Told) :
    (v.after rest o).Owners := by
  have hclosed (hst : v.conn.state = .disconnected) : op ≠ .onConnection := by
    rintro rfl
    have hc := (hb.onConnection (by simp [all_of_running hrun])).1
    simp [hst] at hc
  have hopen (hst : o.conn.state ≠ .disconnected) : v.conn.state ≠ .disconnected := fun hc =>
    hst (hdid.closed hc (hclosed hc)).1
  -- `removeItself` is still to come, or has closed the connection
  have hitself (hmem : .removeItself ∈ v.all) (hst : o.conn.state ≠ .disconnected) :
      .removeItself ∈ (v.after rest o).all := by
    rw [all_of_running hrun] at hmem
    rcases List.mem_cons.1 hmem with rfl | hmem
    · cases hdid with
      | removeItself => exact absurd rfl hst
      | nothing hq => simp [ConnOp.quiet] at hq
      | io hq => simp [ConnOp.quiet] at hq
      | close hq => simp [ConnOp.quiet] at hq
      | notify hb => simp [ConnOp.boundTo] at hb
    · exact mem_all_after.2 (.inr (.inl hmem))
  refine ⟨htold, fun hp hst => ?_, fun hp hr => ?_, fun hp hv => ?_, fun hp hmem => ?_⟩
  · exact (h.held hp (hopen hst)).imp_right fun hmem => hitself hmem hst
  · rw [after_conn, hdid.destroyed]
    by_cases hst : o.conn.state = .disconnected
    · refine .inr ?_
      by_cases hst' : v.conn.state = .disconnected
      · obtain ⟨-, hreg⟩ := hdid.closed hst' (hclosed hst')
        obtain ⟨hr, hop⟩ := hreg hr
        have hmem := (h.registered hp hr).resolve_left (by simp [hst'])
        rw [hrun] at hmem
        exact List.mem_append_right _ (List.mem_of_ne_of_mem (Ne.symm hop) hmem)
      · exact List.mem_append_left _ (hdid.closing hst' hst).1
    · exact .inl ⟨hlive, hst⟩
  · by_cases hst : o.conn.state = .disconnected
    · exact .inl hst
    · exact .inr (hitself ((h.visited hp hv).resolve_left (hopen hst)) hst)
  · have hno := h.batch hp
    simp only [after_running, after_todo, List.append_assoc] at hmem
    rcases List.mem_append.1 hmem with hmem | hmem
    · simpa [ConnOp.isHandler, ConnOp.isTail] using hdid.mem_ops hmem
    · exact hno (by simpa [hrun] using .inr (List.mem_append.1 hmem))

/-- **Who has a connection is kept by every step**, but for a connector that
puts another in its place. -/
theorem Owners.step (hb : v.Base) (h : v.Owners) (hcause : cause ≠ .replaced)
    (hstep : Step v cause v') : v'.Owners := by
  have htold : v'.Told := h.told.step hb hcause hstep
  -- what is in `all` before is there after it, and what runs
  have hframe (hstate : v'.conn.state = v.conn.state)
      (hdestroyed : v'.conn.destroyed = v.conn.destroyed)
      (hregistered : v'.conn.registered = v.conn.registered) (hplace : v'.place = v.place)
      (hheld : v'.held = v.held) (hvisited : v'.visited = v.visited)
      (hall : .removeItself ∈ v.all → .removeItself ∈ v'.all)
      (hrunning : .channelRemove ∈ v.running → .channelRemove ∈ v'.running)
      (hbatch : .removeItself ∈ v'.running ++ v'.todo → .removeItself ∈ v.running ++ v.todo) :
      v'.Owners :=
    h.frame htold hstate hdestroyed hregistered (fun hp => hplace ▸ hp) hheld hvisited
      (fun _ => hall) hrunning fun hp hm => h.batch (hplace ▸ hp) (hbatch hm)
  cases hstep with
  | run hrun hlive hop hdid => exact Owners.after hb h hrun hlive hdid htold
  | addTimer hrun hlive =>
    exact hframe rfl rfl rfl rfl rfl rfl (by simp [all, hrun]) (by simp [hrun]) (by simp [hrun])
  | serverRemoves hrun hlive hholder =>
    exact hframe rfl rfl rfl rfl rfl rfl (by simp [all, hrun]) (by simp [hrun]) (by simp [hrun])
  | connectorRemoves hrun hlive hholder =>
    have hst := (hb.of_sent (.inl (by simp [hrun]))).1
    exact h.release htold hst rfl rfl (by simp [hrun]) (by simp [hrun])
  | erase hholder hn =>
    have hst := (hb.of_sent (.inr (by simp [hn]))).1
    exact h.release htold hst rfl rfl id id
  | replaced => exact absurd rfl hcause
  | stop hholder hheld => exact hframe rfl rfl rfl rfl rfl rfl (by simp [all]) (by simp) (by simp)
  | destroyServer hholder hphase => exact hframe rfl rfl rfl rfl rfl rfl id id id
  | visitDirect hholder hloop hphase hheld hvisited =>
    refine ⟨htold, fun _ hne => absurd rfl hne, fun _ _ => .inr (by simp), fun _ _ => .inl rfl,
      fun hp hm => h.batch hp ?_⟩
    simpa using hm
  | visitQueued hholder hloop hphase hheld hvisited =>
    exact ⟨htold, fun _ _ => .inl hheld, h.registered, fun _ _ => .inr (by simp [all]), h.batch⟩
  | clear hholder hphase hvisited =>
    refine ⟨htold, fun hp hst => .inr ?_, h.registered, h.visited, h.batch⟩
    exact (h.held hp hst).elim (fun hh => (h.visited hp (hvisited hh)).resolve_left hst) id
  | serverGone hholder hphase => exact hframe rfl rfl rfl rfl rfl rfl id id id
  | @call m hallowed hlive =>
    have hne : ConnOp.removeItself ≠ m.op := (Method.op_not m).2.1.symm
    exact hframe rfl rfl rfl rfl rfl rfl (List.mem_cons_of_mem _) (List.mem_cons_of_mem _)
      (List.mem_of_ne_of_mem hne)
  | @queue m hst hlive =>
    exact hframe rfl rfl rfl rfl rfl rfl (by simp [all]; tauto) id id
  | setTcpHandler hst hlive => exact hframe rfl rfl rfl rfl rfl rfl id id id
  | configure hst => exact hframe rfl rfl rfl rfl rfl rfl id id id
  | testQuit hplace hrun htodo =>
    exact h.frame htold rfl rfl rfl (by simp [hplace]) rfl rfl (fun _ => id) id (by simp)
  | exit hplace hrun htodo =>
    exact h.frame htold rfl rfl rfl (by simp) rfl rfl (by simp) id (by simp)
  | poll hplace hrun htodo hops htimers =>
    refine h.frame htold rfl rfl rfl (by simp [hplace]) rfl rfl (fun _ hm => ?_) id fun _ hm => ?_
    · simp only [all, hrun, htodo, List.nil_append] at hm
      exact List.mem_append_right _ hm
    · simp only [hrun, List.nil_append] at hm
      rcases hops _ hm with ⟨hm, -⟩ | ⟨⟨revents, hm⟩, -⟩ <;> cases hm
  | next hrun htodo =>
    exact hframe rfl rfl rfl rfl rfl rfl (by simp [all, hrun, htodo]) (by simp [hrun])
      (by simp [hrun, htodo])
  | swap hplace hrun htodo =>
    exact h.frame htold rfl rfl rfl (by simp [hplace]) rfl rfl (by simp [all, hrun, htodo]) id
      (by simp)
  | endTasks hplace hrun htodo =>
    exact h.frame htold rfl rfl rfl (by simp [hplace]) rfl rfl (fun _ => id) id (by simp)
  | destroy hlive hheld howns =>
    have hno : .removeItself ∉ v.all := fun hm => by simpa [ConnOp.owns] using howns _ hm
    have hst (hp : v.place ≠ .exited) : v.conn.state = .disconnected := by
      by_contra hne
      rcases h.held hp hne with hh | hm
      · rw [hheld] at hh
        cases hh
      · exact hno hm
    refine ⟨htold, fun hp hne => absurd (hst hp) hne, fun hp hr => ?_, h.visited, h.batch⟩
    exact .inr ((h.registered hp hr).resolve_left fun hd => hd.2 (hst hp))

/-- A connection that was just made has its owners. -/
theorem Initial.owners (h : v.Initial) : v.Owners := by
  have htold := h.told
  cases h <;> exact ⟨htold, by simp [fresh], by simp [fresh, Conn.new], by simp [fresh],
    by simp [fresh]⟩

/-! ### During a batch -/

/-- What keeps a connection of a batch: the `tie`, a `removeItself`, or the
holder, until `handleClose` has queued the one or `~TcpServer` the other. -/
def Kept (v : View) : Prop :=
  .tie ∈ v.pending ∨ .removeItself ∈ v.pending ∨
    v.held = true ∧ v.visited = false ∧ (v.conn.state ≠ .disconnected ∨ .queueTie ∈ v.running)

/-- What keeps a connection through a change of the loop: whatever was to run on
it still is, its holder is the same, and its state. -/
theorem Kept.frame (h : v.Kept) (hpending : ∀ x ∈ v.pending, x ∈ v'.pending)
    (hheld : v'.held = v.held) (hvisited : v'.visited = v.visited)
    (hstate : v'.conn.state = v.conn.state)
    (hrunning : .queueTie ∈ v.running → .queueTie ∈ v'.running) : v'.Kept := by
  rcases h with hm | hm | ⟨hh, hv, hst⟩
  · exact .inl (hpending _ hm)
  · exact .inr (.inl (hpending _ hm))
  · exact .inr (.inr ⟨hheld.trans hh, hvisited.trans hv, hstate.symm ▸ hst.imp_right hrunning⟩)

/-- The holder lets go once the `tie` is queued. -/
theorem Kept.release (h : v.Kept) (hb : v.Base) (hsent : v.Sent)
    (hpending : v'.pending = v.pending) : v'.Kept := by
  obtain ⟨hst, htie⟩ := hb.of_sent hsent
  rcases h with hm | hm | ⟨-, -, hopen⟩
  · exact .inl (hpending ▸ hm)
  · exact .inr (.inl (hpending ▸ hm))
  · exact absurd hopen (by simp [hst, htie])

/-- A function that closes the connection goes on to queue the `tie`. -/
theorem Kept.after {op : ConnOp} {rest : List ConnOp} {ch : Choice} {o : Outcome} (h : v.Kept)
    (hrun : v.running = op :: rest) (hitself : op ≠ .removeItself)
    (hdid : Outcome.Did v.conn ch op o) : (v.after rest o).Kept := by
  rcases h with hm | hm | ⟨hheld, hvisited, hst⟩
  · exact .inl (List.mem_append_left _ hm)
  · exact .inr (.inl (List.mem_append_left _ hm))
  · by_cases hst' : o.conn.state = .disconnected
    · by_cases hclosed : v.conn.state = .disconnected
      · have hmem := hst.resolve_left (by simp [hclosed])
        rw [hrun] at hmem
        rcases List.mem_cons.1 hmem with rfl | hmem
        · cases hdid with
          | queueTie => exact .inl (by simp)
          | nothing hq => simp [ConnOp.quiet] at hq
          | io hq => simp [ConnOp.quiet] at hq
          | close hq => simp [ConnOp.quiet] at hq
          | notify hbound => simp [ConnOp.boundTo] at hbound
        · exact .inr (.inr ⟨hheld, hvisited, .inr (List.mem_append_right _ hmem)⟩)
      · have hmem := (hdid.closing hclosed hst').2.resolve_left hitself
        exact .inr (.inr ⟨hheld, hvisited, .inr (List.mem_append_left _ hmem)⟩)
    · exact .inr (.inr ⟨hheld, hvisited, .inl hst'⟩)

/-- **A connection of a batch is kept by every step of it.** -/
theorem Kept.step (hb : v.Base) (ho : v.Owners) (hplace : v.place = .handling) (h : v.Kept)
    (hcause : cause.Keeps) (hstep : Step v cause v') : v'.place = .handling ∧ v'.Kept := by
  obtain ⟨hreplaced, hdirect, hswap⟩ := hcause
  cases hstep with
  | @run op rest ch o hrun hlive hop hdid =>
    refine ⟨hplace, h.after hrun ?_ hdid⟩
    rintro rfl
    exact ho.batch hplace (by simp [hrun])
  | addTimer hrun hlive => exact ⟨hplace, h.frame (fun _ => id) rfl rfl rfl (by simp [hrun])⟩
  | serverRemoves hrun hlive hholder =>
    exact ⟨hplace, h.frame (fun _ => id) rfl rfl rfl (by simp [hrun])⟩
  | connectorRemoves hrun hlive hholder =>
    exact ⟨hplace, h.release hb (.inl (by simp [hrun])) rfl⟩
  | erase hholder hn => exact ⟨hplace, h.release hb (.inr (by simp [hn])) rfl⟩
  | replaced => exact absurd rfl hreplaced
  | stop hholder hheld => exact ⟨hplace, h.frame (fun _ => id) rfl rfl rfl (List.mem_cons_of_mem _)⟩
  | destroyServer hholder hphase => exact ⟨hplace, h⟩
  | visitDirect hholder hloop hphase hheld hvisited => exact absurd rfl hdirect
  | visitQueued hholder hloop hphase hheld hvisited =>
    exact ⟨hplace, .inr (.inl (List.mem_append_right _ (List.mem_singleton_self _)))⟩
  | clear hholder hphase hvisited =>
    refine ⟨hplace, ?_⟩
    rcases h with hm | hm | ⟨hheld, hnot, -⟩
    · exact .inl hm
    · exact .inr (.inl hm)
    · rw [hvisited hheld] at hnot
      cases hnot
  | serverGone hholder hphase => exact ⟨hplace, h⟩
  | call hallowed hlive =>
    exact ⟨hplace, h.frame (fun _ => id) rfl rfl rfl (List.mem_cons_of_mem _)⟩
  | queue hst hlive =>
    exact ⟨hplace, h.frame (fun _ => List.mem_append_left _) rfl rfl rfl id⟩
  | setTcpHandler hst hlive => exact ⟨hplace, h⟩
  | configure hst => exact ⟨hplace, h⟩
  | testQuit hidle => simp [hplace] at hidle
  | exit hidle => simp [hplace] at hidle
  | poll hpolling => simp [hplace] at hpolling
  | next hrun htodo =>
    exact ⟨hplace, h.frame (fun _ => id) rfl rfl rfl (by simp [hrun])⟩
  | swap => exact absurd rfl hswap
  | endTasks htasking => simp [hplace] at htasking
  | destroy hlive hheld howns => exact ⟨hplace, h⟩

/-- `~TcpServer` calls `removeItself` for its own loop only. -/
theorem Step.of_visitDirect (h : Step v cause v') (hcause : cause = .visitDirect) :
    v.conn.tcpHolder = .server ∧ v.conn.loop = 0 := by
  cases h with
  | run => split at hcause <;> cases hcause
  | visitDirect hholder hloop => exact ⟨hholder, hloop⟩
  | _ => cases hcause

/-- Who is in the poller when a batch begins. -/
theorem Owners.kept (h : v.Owners) (hplace : v.place = .polling) (hrun : v.running = [])
    (htodo : v.todo = []) (hregistered : v.conn.registered = true) : v.Kept := by
  have hexited : v.place ≠ .exited := by simp [hplace]
  have hst : v.conn.state ≠ .disconnected :=
    ((h.registered hexited hregistered).resolve_right (by simp [hrun])).2
  have hall : v.all = v.pending := by simp [all, hrun, htodo]
  by_cases hvisited : v.visited = true
  · exact .inr (.inl (hall ▸ (h.visited hexited hvisited).resolve_left hst))
  · rcases h.held hexited hst with hheld | hm
    · exact .inr (.inr ⟨hheld, by simpa using hvisited, .inl hst⟩)
    · exact .inr (.inl (hall ▸ hm))

end View

variable {s s' : Service} {i : Input} {c l : ℕ}

/-- The view of a connection has the queued functions that are for it. -/
theorem mem_pendingTasks {op : ConnOp} (hop : op ∈ (s.view c).pending) :
    .conn c op ∈ (s.loops (s.conns c).loop).pendingTasks := mem_opsOf.1 hop

/-- A connection that is kept has an owner. -/
theorem owned_of_kept (h : (s.view c).Kept) : s.Owned c := by
  rcases h with hm | hm | ⟨hheld, -⟩
  · exact .inr ⟨_, mem_pendingTasks hm, rfl⟩
  · exact .inr ⟨_, mem_pendingTasks hm, rfl⟩
  · exact .inl hheld

/-! ### The condition -/

/-- The function at the head of those that a loop runs is one of all that it
will. -/
theorem mem_all_of_ops {op : Op} {rest : List Op} (hops : (s.loops l).ops = op :: rest) :
    op ∈ (s.loops l).all := by simp [Loop.all, hops]

/-- No connector puts a connection in the place of another. -/
theorem ne_replaced {cause : Cause} (hwf : WellFormed s)
    (htold : ∀ c < s.created, (s.view c).Told) (hgood : s.ConnectsFree i)
    (hstep : s.step i = some s') (hcause : s.Causes i c cause) : cause ≠ .replaced := by
  rintro rfl
  rcases hcause with ⟨k, fd, hruns, hslot⟩ | ⟨c', k, hne, hruns, hholder, hslot⟩
  · have hnone := hgood k (by simp [establishing, hruns.current])
    simp [hnone] at hslot
  · -- the one that closes is still the one that the connector has
    obtain ⟨l, ch, pick, rest, rfl, hops⟩ := hruns
    have hc' : c' < s.created := hwf.known l _ (mem_all_of_ops hops)
    obtain ⟨op, rest', hops', hexec⟩ := exec_eq_some.1 hstep
    obtain ⟨rfl, rfl⟩ := List.cons.inj (hops.symm.trans hops')
    obtain ⟨⟨-, hl⟩, -⟩ := execOp_conn_eq_some hexec
    rw [pop_conns] at hl
    subst hl
    have hsent : .removeConnection ∈ (s.view c').running := mem_opsOf.2 (by simp [hops])
    have hheld : s.held c' = true :=
      (htold c' hc').held_of_sent (by simp [phaseOf, hholder]) (.inl hsent)
    rw [held_connector hholder, hslot] at hheld
    exact hne (Option.some.inj hheld).symm

/-- A step keeps the owners of every connection, where a connector whose
connection is there does not connect again. -/
theorem owners_step (hwf : WellFormed s)
    (hviews : ∀ c < s.created, (s.view c).Base ∧ (s.view c).Owners) (hgood : s.ConnectsFree i)
    (hstep : s.step i = some s') :
    WellFormed s' ∧ ∀ c < s'.created, (s'.view c).Base ∧ (s'.view c).Owners :=
  views_step (fun _ hv => hv.owners) (fun _ _ _ hb ho hfine hst => ho.step hb hfine hst) hwf
    hviews (fun _ _ _ hcause =>
      ne_replaced hwf (fun c hc => (hviews c hc).2.told) hgood hstep hcause) hstep

/-- **What every run keeps that meets the condition.** -/
theorem always_owners {workers : ℕ} {connectorLoop : ℕ → ℕ} {is : List Input}
    (h : Transition.Steps step ConnectsFree (init workers connectorLoop) is) :
    Transition.Always step
      (fun s => WellFormed s ∧ ∀ c < s.created, (s.view c).Base ∧ (s.view c).Owners)
      (init workers connectorLoop) is :=
  Transition.always_of_steps (fun _ _ _ hs hg hst => owners_step hs.1 hs.2 hg hst)
    ⟨wellFormed_init workers connectorLoop, by simp [init]⟩ h

/-! ### Batches -/

/-- A connection of a batch of loop `l`. -/
def InBatch (s : Service) (l c : ℕ) : Prop :=
  c < s.created ∧ (s.conns c).loop = l ∧ (s.view c).place = .handling ∧ (s.view c).Kept

/-- A channel of a batch is in the loop's poller. -/
theorem registered_of_channels {events : List Event} (hfire : events.all (s.canFire l) = true)
    (hc : c ∈ Event.channels events) :
    c < s.created ∧ (s.conns c).registered = true ∧ (s.conns c).loop = l := by
  obtain ⟨ev, hev, hchannel⟩ := List.mem_filterMap.1 hc
  obtain ⟨revents, rfl⟩ : ∃ revents, ev = .channel c revents := by
    cases ev <;> simp at hchannel ⊢
    exact hchannel
  have hcan := List.all_eq_true.1 hfire _ hev
  simp only [canFire, Bool.and_eq_true, decide_eq_true_eq] at hcan
  exact ⟨hcan.1.1.1, hcan.1.1.2, hcan.2⟩

/-- The connections that `poll` returns. -/
theorem inBatch_poll {events : List Event}
    (hviews : ∀ c < s.created, (s.view c).Base ∧ (s.view c).Owners)
    (hstep : s.step (.poll l events) = some s') (hc : c ∈ Event.channels events) :
    s'.InBatch l c := by
  simp only [step, poll, Option.ite_none_right_eq_some] at hstep
  obtain ⟨⟨hplace, hret, hfire, -⟩, hs⟩ := hstep
  obtain rfl := Option.some.inj hs
  obtain ⟨hcreated, hreg, rfl⟩ := registered_of_channels hfire hc
  obtain ⟨hrun, htodo⟩ := returned_view hret
  have hkept := (hviews c hcreated).2.kept hplace hrun htodo hreg
  refine ⟨hcreated, rfl, by simp, hkept.frame (fun x hx => ?_) rfl rfl rfl fun hm => ?_⟩
  · simpa using hx
  · simpa using hm

/-- **A step of the batch keeps its connections.** -/
theorem InBatch.step {batch : List ℕ} (hwf : WellFormed s)
    (hviews : ∀ c < s.created, (s.view c).Base ∧ (s.view c).Owners) (h : s.InBatch l c)
    (hmem : c ∈ batch) (hgood : KeepsOwners batch s i) (hswap : i ≠ .swap l)
    (hstep : s.step i = some s') : s'.InBatch l c := by
  obtain ⟨hc, hl, hplace, hkept⟩ := h
  have hc' : c < s'.created := by
    rcases view_created hwf hstep with heq | ⟨heq, -⟩ <;> omega
  rcases view_step hwf hc hstep with heq | ⟨cause, hst, hcause⟩
  · have hconn : s'.conns c = s.conns c := congrArg View.conn heq
    exact ⟨hc', by rw [hconn, hl], heq ▸ hplace, heq ▸ hkept⟩
  · have hkeeps : cause.Keeps := by
      refine ⟨ne_replaced hwf (fun c hc => (hviews c hc).2.told) hgood.1 hstep hcause,
        fun hv => ?_, fun hv => ?_⟩
      · obtain ⟨hholder, hloop⟩ := hst.of_visitDirect hv
        subst hv
        rw [view_place, show (s.conns c).loop = 0 from hloop] at hplace
        exact hgood.2 hcause.current hplace c hmem hc hholder hloop
      · subst hv
        exact hswap (hcause.trans (by rw [hl]))
    obtain ⟨hp, hk⟩ := hkept.step (hviews c hc).1 (hviews c hc).2 hplace hkeeps hst
    exact ⟨hc', (show (s'.view c).conn.loop = _ from hst.identity.2.1).trans hl, hp, hk⟩

/-! ### Stale events -/

/-- The functions of an event find the connection closed. -/
theorem run_ofEvent {k : Conn} {op : ConnOp} (ch : Choice) (hop : op.ofEvent = true)
    (hst : k.state = .disconnected) :
    ∃ ops, (Outcome.start k).run ch op = { Outcome.start k with ops := ops } := by
  cases op with
  | handleEvent revents => exact ⟨_, Outcome.handleEvent_eq k revents⟩
  | handleClose => exact ⟨[], if_pos hst⟩
  | handleError => exact ⟨[], if_pos hst⟩
  | handleRead => exact ⟨[], if_pos hst⟩
  | handleWrite => exact ⟨[], if_pos hst⟩
  | _ => simp [ConnOp.ofEvent, ConnOp.isHandler] at hop

/-- An event of a closed connection does nothing at any loop: each of its
functions tests the state first. -/
theorem staleQuiet (s : Service) (l : ℕ) : s.StaleQuiet l := by
  intro c op rest hops hop hst ch pick s' hstep
  obtain ⟨op', rest', hops', hexec⟩ := exec_eq_some.1 hstep
  obtain ⟨rfl, rfl⟩ := List.cons.inj (hops.symm.trans hops')
  obtain ⟨ops, hrun⟩ := run_ofEvent ch hop hst
  rcases (execOp_conn_eq_some hexec).2 with ⟨rfl, -⟩ | ⟨rfl, -⟩ | ⟨-, -, rfl⟩
  · simp [ConnOp.ofEvent, ConnOp.isHandler] at hop
  · simp [ConnOp.ofEvent, ConnOp.isHandler] at hop
  · rw [pop_conns, hrun]
    exact ⟨by simp, Function.update_eq_self c s.conns, by simp⟩

/-- **The connections of a batch keep their owners** while it runs, where every step
meets the condition, and a stale event does nothing.  The batch is what one poll
reported; user code may run any calls in its handlers, and the other loops take any
steps in between. -/
theorem batch_owned {workers : ℕ} {connectorLoop : ℕ → ℕ} {before during : List Input} {l : ℕ}
    {events : List Event} {s : Service}
    (h : Transition.Steps step (KeepsOwners (Event.channels events)) (init workers connectorLoop)
      (before ++ .poll l events :: during))
    (hbatch : .swap l ∉ during)
    (hrun : Transition.run step (init workers connectorLoop)
      (before ++ .poll l events :: during) = some s) :
    (∀ c ∈ Event.channels events, s.Owned c) ∧ s.StaleQuiet l := by
  refine ⟨fun c hc => ?_, staleQuiet s l⟩
  obtain ⟨u, hu, hrest⟩ := Transition.run_append_eq_some.1 hrun
  obtain ⟨w, hpoll, hduring⟩ := Transition.run_cons_eq_some.1 hrest
  obtain ⟨hwf, hviews⟩ := (always_owners (h.mono fun _ _ hg => hg.1).left).last hu
  have hsteps := h.right hu
  obtain ⟨hwf', hviews'⟩ := owners_step hwf hviews hsteps.1.1 hpoll
  -- the batch, from its first state on
  have halways : Transition.Always step (fun s => WellFormed s ∧
      (∀ c < s.created, (s.view c).Base ∧ (s.view c).Owners) ∧ s.InBatch l c) w during := by
    refine Transition.always_of_steps (fun s i s' hs hg hst => ?_)
      ⟨hwf', hviews', inBatch_poll hviews hpoll hc⟩
      ((hsteps.2 w hpoll).and_forall (Q := fun i => i ≠ .swap l) fun i hi heq => hbatch (heq ▸ hi))
    obtain ⟨hwf, hviews, hin⟩ := hs
    obtain ⟨hwf', hviews'⟩ := owners_step hwf hviews hg.1.1 hst
    exact ⟨hwf', hviews', hin.step hwf hviews hc hg.1 hg.2 hst⟩
  exact owned_of_kept (halways.last hduring).2.2.2.2.2

/-- The client of connector `0` is shut down while its peer has not closed yet,
and connects again; the connect finishes in the batch in which the peer's data
arrives. -/
def reconnect : List Input :=
  [.testQuit 1, .poll 1 [.establish 0 5], .next 1, .exec 1 (.calls []) 0,
    .foreign (.method .shutdown 0), .swap 1, .next 1, .exec 1 (.calls []) 0, .endTasks 1,
    .testQuit 1]

/-- Nobody owns the old connection, whose event is still to be handled, and its
object may be destroyed: the reconnect, in the same batch and before that event, put
another connection in the only pointer to it. -/
theorem reconnect_unowned : ∃ s, Transition.run step (init 0 fun _ => 1)
    (reconnect ++ .poll 1 [.establish 0 6, .channel 0 readable] ::
      [.next 1, .exec 1 (.calls []) 0]) = some s ∧
    ¬ s.Owned 0 ∧ .conn 0 (.handleEvent readable) ∈ (s.loops 1).todo ∧
      (s.step (.destroy 0)).isSome = true := by
  exact ⟨_, rfl, by decide, by decide, by decide⟩

/-- Two connections of a server without workers, both readable. -/
def openTwo : List Input :=
  [.user 0, .exec 0 (.calls [.serverSetTcpHandler (some 1)]) 0, .exec 0 (.calls []) 0,
    .testQuit 0, .poll 0 [.accept 5, .accept 6], .next 0, .exec 0 (.calls []) 0, .next 0,
    .exec 0 (.calls []) 0, .swap 0, .endTasks 0, .testQuit 0]

/-- The first closes the second in its `onMessage`, up to the second's removal. -/
def closeOther : List Input :=
  [.next 0, .exec 0 (.calls []) 0,
    .exec 0 { script := [.method .forceClose 1], read := .data 65 [], write := .accepted 0 } 0,
    .exec 0 (.calls []) 0, .exec 0 (.calls []) 0, .exec 0 (.calls []) 0, .exec 0 (.calls []) 0,
    .exec 0 (.calls []) 0, .exec 0 (.calls []) 0]

/-- The table has it no longer, the `tie` keeps it. -/
theorem close_other_owned : ∃ s, Transition.run step (init 0 fun _ => 0)
    (openTwo ++ .poll 0 [.channel 0 readable, .channel 1 readable] :: closeOther) = some s ∧
      s.held 1 = false ∧ s.Owned 1 ∧ s.StaleQuiet 0 := by
  let events : List Event := [.channel 0 readable, .channel 1 readable]
  have h : Transition.Steps step (KeepsOwners (Event.channels events)) (init 0 fun _ => 0)
    (openTwo ++ .poll 0 events :: closeOther) := by decide
  obtain ⟨howned, hquiet⟩ := batch_owned h (by decide) rfl
  exact ⟨_, rfl, by decide, howned 1 (by decide), hquiet⟩

end Service
end Net
end Sevent
