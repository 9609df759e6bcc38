/-
# The owner loop during `~TcpServer`

`sevent/net/TcpServer.cpp`, `sevent/net/EventLoopThread.cpp`,
`sevent/net/EventLoop.cpp`.

`~TcpServer` runs in the owner loop, in parts: the loop over the connections,
`quit` and `join` of each worker, the end.  The functions it calls and the user
code these run come in front of the next part; nothing else runs in the owner
loop until it is over, and other threads can only queue.

`Control` says where it is.  What counts for the server is what stands behind
the parts: there is no message to the server (`isToken`) among it, for such a
message would be run when the server is gone.  That a message may come in front
of the parts is the case of a server without workers, where a connection that is
closed from inside the `onClose` of another is erased on the spot.

`Extends` is what all other code does to the loops: it puts functions in front of
its own loop's and queues tasks for any.
-/

import Sevent.Net.ConnBase

namespace Sevent
namespace Net
namespace Service

/-- The parts of `~TcpServer`. -/
def Op.isPart : Op → Bool
  | .removeAll | .quitWorker _ | .join _ | .serverGone => true
  | _ => false

/-- A message to the server, or the end of a `handleClose` that sends one from the
owner loop itself. -/
def isToken (s : Service) : Op → Bool
  | .removeConnectionInLoop _ => true
  | .conn c .queueTie | .conn c .removeConnection =>
    decide ((s.conns c).tcpHolder = .server ∧ (s.conns c).loop = 0)
  | _ => false

/-- Neither, whoever holds the connection. -/
def Op.plain : Op → Bool
  | .removeConnectionInLoop _ => false
  | .conn _ op => !decide (op = .queueTie) && !decide (op = .removeConnection)
  | op => !op.isPart

variable {s s' s'' : Service} {P Q : Op → Prop} {cur : Option ℕ} {l : ℕ}

/-- What is plain is no part of the destructor. -/
theorem Op.isPart_of_plain {op : Op} (h : op.plain = true) : op.isPart = false := by
  cases op <;> simp [Op.plain, Op.isPart] at h ⊢

/-- What is plain is no token of a worker. -/
theorem isToken_of_plain {op : Op} (h : op.plain = true) : s.isToken op = false := by
  cases op with
  | conn c op =>
    simp only [Op.plain, Bool.and_eq_true, Bool.not_eq_true', decide_eq_false_iff_not] at h
    cases op <;> simp [isToken] at h ⊢
  | removeConnectionInLoop id => simp [Op.plain] at h
  | _ => rfl

/-! ### What other code does to the loops -/

/-- The code that runs in loop `cur`, if in any, has put functions with `P` in
front there, and has queued tasks with `Q`. -/
structure Extends (P Q : Op → Prop) (cur : Option ℕ) (s s' : Service) : Prop where
  phase : s'.server.phase = s.server.phase
  workers : s'.workers = s.workers
  loop : ∀ l, ∃ xs ys, (s'.loops l).ops = xs ++ (s.loops l).ops ∧
    (s'.loops l).todo = (s.loops l).todo ∧
    (s'.loops l).pendingTasks = (s.loops l).pendingTasks ++ ys ∧
    (s'.loops l).place = (s.loops l).place ∧
    (cur ≠ some l → xs = []) ∧ (∀ op ∈ xs, P op) ∧ ∀ op ∈ ys, Q op

namespace Extends

/-- What changes neither the loops nor the server's phase extends nothing. -/
theorem of_loops (hloops : s'.loops = s.loops) (hphase : s'.server.phase = s.server.phase)
    (hworkers : s'.workers = s.workers) : Extends P Q cur s s' where
  phase := hphase
  workers := hworkers
  loop l := ⟨[], [], by simp [hloops]⟩

/-- Nothing done extends nothing. -/
theorem refl : Extends P Q cur s s := of_loops rfl rfl rfl

/-- Two extensions, one after the other. -/
theorem trans (h : Extends P Q cur s s') (h' : Extends P Q cur s' s'') :
    Extends P Q cur s s'' where
  phase := h'.phase.trans h.phase
  workers := h'.workers.trans h.workers
  loop l := by
    obtain ⟨xs, ys, hops, htodo, hpending, hplace, hcur, hP, hQ⟩ := h.loop l
    obtain ⟨xs', ys', hops', htodo', hpending', hplace', hcur', hP', hQ'⟩ := h'.loop l
    refine ⟨xs' ++ xs, ys ++ ys', by rw [hops', hops, List.append_assoc], htodo'.trans htodo,
      by rw [hpending', hpending, List.append_assoc], hplace'.trans hplace,
      fun hne => by rw [hcur hne, hcur' hne, List.append_nil], fun op hop => ?_, fun op hop => ?_⟩
    · exact (List.mem_append.1 hop).elim (hP' op) (hP op)
    · exact (List.mem_append.1 hop).elim (hQ op) (hQ' op)

/-- One loop changes. -/
theorem setLoop {L : Loop} {xs ys : List Op} (hops : L.ops = xs ++ (s.loops l).ops)
    (htodo : L.todo = (s.loops l).todo) (hpending : L.pendingTasks = (s.loops l).pendingTasks ++ ys)
    (hplace : L.place = (s.loops l).place) (hcur : cur ≠ some l → xs = []) (hP : ∀ op ∈ xs, P op)
    (hQ : ∀ op ∈ ys, Q op) : Extends P Q cur s (s.setLoop l L) where
  phase := rfl
  workers := rfl
  loop l' := by
    by_cases hl : l' = l
    · subst hl
      exact ⟨xs, ys, by simpa using ⟨hops, htodo, hpending, hplace, hcur, hP, hQ⟩⟩
    · exact ⟨[], [], by simp [hl]⟩

/-- A push extends the running function of the loop. -/
theorem push {ops : List Op} (hP : ∀ op ∈ ops, P op) : Extends P Q (some l) s (s.push l ops) :=
  setLoop rfl rfl (List.append_nil _).symm rfl (by simp) hP (by simp)

/-- What is queued extends the pending tasks. -/
theorem queueInLoop {cbs : List Op} (hQ : ∀ op ∈ cbs, Q op) :
    Extends P Q cur s (s.queueInLoop l cbs) :=
  setLoop (List.nil_append _).symm rfl rfl rfl (fun _ => rfl) (by simp) hQ

/-- What `runInLoop` is given extends the running function in the loop's own
thread, and the pending tasks elsewhere. -/
theorem runInLoop {cb : Op} (hP : cur = some l → P cb) (hQ : cur ≠ some l → Q cb) :
    Extends P Q cur s (s.runInLoop cur l cb) := by
  unfold Service.runInLoop
  split
  · next h =>
    subst h
    exact push (by simpa using hP rfl)
  · next h => exact queueInLoop (by simpa using hQ h)

/-- What a connection's function comes to: its calls, and the tasks that it
queues, in the connection's loop. -/
theorem apply {c : ℕ} {o : Outcome} (hcall : ∀ k, P (.call k)) (hP : ∀ op ∈ o.ops, P (.conn c op))
    (hQ : ∀ op ∈ o.queued, Q (.conn c op)) : Extends P Q (some l) s (s.apply l c o) := by
  have hconn : Extends P Q (some l) s (s.setConn c o.conn) := .of_loops rfl rfl rfl
  have hloop : Extends P Q (some l) (s.setConn c o.conn) ((s.setConn c o.conn).setLoop l
      (((s.loops l).push (o.script.map .call ++ o.ops.map (.conn c))).queueInLoop
        (o.queued.map (.conn c)))) := by
    refine setLoop rfl rfl rfl rfl (by simp) (fun op hop => ?_) fun op hop => ?_
    · rcases List.mem_append.1 hop with hop | hop
      · obtain ⟨k, -, rfl⟩ := List.mem_map.1 hop
        exact hcall k
      · obtain ⟨x, hx, rfl⟩ := List.mem_map.1 hop
        exact hP x hx
    · obtain ⟨x, hx, rfl⟩ := List.mem_map.1 hop
      exact hQ x hx
  exact (hconn.trans hloop).trans (.of_loops rfl rfl rfl)

/-- A call of user code other than the end of the server extends the loops by
plain functions. -/
theorem doCall {k : Call} (hP : ∀ op, op.plain = true → P op) (hQ : ∀ op, op.plain = true → Q op)
    (hk : k ≠ .destroyServer) (hstep : s.doCall cur k = some s') : Extends P Q cur s s' := by
  cases k with
  | method m c =>
    have hplain : (Op.conn c m.op).plain = true := by cases m <;> rfl
    simp only [Service.doCall] at hstep
    split at hstep
    · split at hstep
      · next hcur =>
        split at hstep
        · obtain rfl := Option.some.inj hstep
          exact hcur ▸ push (by simpa using hP _ hplain)
        · obtain rfl := Option.some.inj hstep
          exact refl
      · obtain rfl := Option.some.inj hstep
        exact queueInLoop (by simpa using hQ _ hplain)
    · exact absurd hstep (by simp)
  | setTcpHandler c h =>
    simp only [Service.doCall, Option.ite_none_right_eq_some] at hstep
    obtain rfl := Option.some.inj hstep.2
    exact of_loops rfl rfl rfl
  | setHighWaterMark c bytes =>
    simp only [Service.doCall, Option.ite_none_right_eq_some] at hstep
    obtain rfl := Option.some.inj hstep.2
    exact of_loops rfl rfl rfl
  | fillOutputBuf c len =>
    simp only [Service.doCall, Option.ite_none_right_eq_some] at hstep
    obtain rfl := Option.some.inj hstep.2
    exact of_loops rfl rfl rfl
  | serverSetTcpHandler h =>
    simp only [Service.doCall, Option.ite_none_right_eq_some] at hstep
    obtain rfl := Option.some.inj hstep.2
    exact of_loops rfl rfl rfl
  | connectorSetTcpHandler k h =>
    simp only [Service.doCall, Option.ite_none_right_eq_some] at hstep
    obtain rfl := Option.some.inj hstep.2
    exact of_loops rfl rfl rfl
  | connectorStop k =>
    obtain rfl := Option.some.inj hstep
    exact runInLoop (fun _ => hP _ rfl) fun _ => hQ _ rfl
  | queueInLoop l =>
    obtain rfl := Option.some.inj hstep
    exact queueInLoop (by simpa using hQ _ rfl)
  | quit l =>
    obtain rfl := Option.some.inj hstep
    exact setLoop (List.nil_append _).symm rfl (List.append_nil _).symm rfl (fun _ => rfl) (by simp)
      (by simp)
  | destroyServer => exact absurd rfl hk

/-- **What one function does to the loops**, if it is no part of `~TcpServer`.  It
adds nothing but plain functions; what is left of a function of a connection, and
a message to the server, are the exceptions. -/
theorem execOp {op : Op} {ch : Choice} {pick : ℕ} (hP : ∀ op, op.plain = true → P op)
    (hQ : ∀ op, op.plain = true → Q op) (hpart : op.isPart = false)
    (hcall : op ≠ .call .destroyServer)
    (hops : ∀ c cop, op = .conn c cop → ∀ x ∈ ((Outcome.start (s.conns c)).run ch cop).ops,
      P (.conn c x))
    (hmessage : ∀ c, op = .conn c .removeConnection → (s.conns c).tcpHolder = .server →
      (l = 0 → P (.removeConnectionInLoop (s.conns c).id)) ∧
        (l ≠ 0 → Q (.removeConnectionInLoop (s.conns c).id)))
    (hstep : s.execOp l ch pick op = some s') : Extends P Q (some l) s s' := by
  cases op with
  | conn c cop =>
    rcases (execOp_conn_eq_some hstep).2 with ⟨rfl, rfl⟩ | ⟨rfl, rfl⟩ | ⟨hop, hop', rfl⟩
    · have hemit : Extends P Q (some l) s (s.emit c [.removeConnection]) := of_loops rfl rfl rfl
      refine hemit.trans ?_
      unfold Service.removeConnection
      rcases hholder : (s.conns c).tcpHolder with _ | k
      · obtain ⟨h0, hne⟩ := hmessage c rfl hholder
        simp only [emit_conns, hholder]
        exact runInLoop (fun heq => h0 (Option.some.inj heq)) fun hl =>
          hne fun heq => hl (by rw [heq])
      · simp only [emit_conns, hholder]
        exact of_loops rfl rfl rfl
    · exact setLoop (List.nil_append _).symm rfl (List.append_nil _).symm rfl (fun _ => rfl)
        (by simp) (by simp)
    · refine apply (fun k => hP _ rfl) (hops c cop rfl) fun x hx => hQ _ ?_
      rcases (Outcome.run_did (s.conns c) ch hop).mem_queued hx with ⟨n, hb, -⟩ | ⟨rfl, -⟩
      · cases x <;> simp [ConnOp.boundTo] at hb <;> rfl
      · rfl
  | removeConnectionInLoop id =>
    simp only [Service.execOp, Option.ite_none_right_eq_some] at hstep
    obtain rfl := Option.some.inj hstep.2
    exact of_loops rfl rfl rfl
  | accept fd =>
    simp only [Service.execOp, Option.ite_none_right_eq_some] at hstep
    obtain ⟨⟨rfl, -⟩, hs⟩ := hstep
    obtain rfl := Option.some.inj hs
    have hadd : Extends P Q (some 0) s (s.addConnection fd) := of_loops rfl rfl rfl
    refine hadd.trans ?_
    unfold Service.accept
    dsimp only
    split
    · exact apply (fun k => hP _ rfl) (by simp) (by simp)
    · exact queueInLoop (by simpa using hQ _ rfl)
  | establish k fd =>
    simp only [Service.execOp, Option.ite_none_right_eq_some] at hstep
    obtain ⟨rfl, hs⟩ := hstep
    obtain rfl := Option.some.inj hs
    have hconnect : Extends P Q (some (s.connectors k).loop) s (s.connectConnection k fd) :=
      of_loops rfl rfl rfl
    refine hconnect.trans ?_
    unfold Service.establish
    dsimp only
    rw [WellFormed.conns_connectConnection_self]
    exact apply (fun k => hP _ rfl) (by simp) (by simp)
  | stopInLoop k =>
    simp only [Service.execOp, Option.ite_none_right_eq_some] at hstep
    obtain ⟨rfl, hs⟩ := hstep
    obtain rfl := Option.some.inj hs
    unfold Service.stopInLoop
    split
    · exact push (by simpa using hP _ rfl)
    · exact refl
  | user =>
    obtain rfl := Option.some.inj hstep
    refine push fun op hop => ?_
    obtain ⟨k, -, rfl⟩ := List.mem_map.1 hop
    exact hP _ rfl
  | call k => exact doCall hP hQ (by rintro rfl; exact hcall rfl) hstep
  | _ => simp [Op.isPart] at hpart

end Extends

/-! ### Where the owner loop is -/

/-- What the loop has still to run after the first of its functions, but for `back`
of them. -/
def Loop.behind (L : Loop) (back : List Op) : List Op := back ++ L.todo ++ L.pendingTasks

/-- Where the owner loop is in `~TcpServer`, and which workers it has joined. -/
structure Control (s : Service) : Prop where
  removing : s.server.phase = .removing → ∃ front back,
    (s.loops 0).ops = front ++ .removeAll :: back ∧ (∀ op ∈ front, op.isPart = false) ∧
      ∀ op ∈ (s.loops 0).behind back, s.isToken op = false
  joining : s.server.phase = .joining → ∃ parts back,
    (s.loops 0).ops = parts ++ back ∧ parts ≠ [] ∧
      parts <:+ teardown s.workers ++ [.serverGone] ∧
      ∀ w, 1 ≤ w → w ≤ s.workers → .join w ∈ parts ∨ (s.loops w).place = .exited
  gone : s.server.phase = .gone → ∀ w, 1 ≤ w → w ≤ s.workers → (s.loops w).place = .exited

/-- At the start no part of the destructor is anywhere. -/
theorem control_init (workers : ℕ) (connectorLoop : ℕ → ℕ) :
    Control (init workers connectorLoop) := by
  constructor <;> simp [init, Loop.init]

/-- What the destructor goes on with when all connections are visited are its
own parts. -/
theorem isPart_of_mem_teardown {workers : ℕ} {op : Op}
    (h : op ∈ teardown workers ++ [.serverGone]) : op.isPart = true := by
  simp only [teardown, List.mem_append, List.mem_flatMap, List.mem_cons, List.not_mem_nil,
    or_false] at h
  rcases h with ⟨w, -, rfl | rfl⟩ | rfl <;> rfl

/-- What is a message to the server stays one, as a connection keeps its loop and
its holder. -/
theorem isToken_congr {op : Op} (hconns : ∀ c cop, op = .conn c cop →
    (s'.conns c).tcpHolder = (s.conns c).tcpHolder ∧ (s'.conns c).loop = (s.conns c).loop) :
    s'.isToken op = s.isToken op := by
  cases op with
  | conn c op =>
    obtain ⟨hholder, hloop⟩ := hconns c op rfl
    cases op <;> simp only [isToken, hholder, hloop]
  | _ => rfl

namespace Control

/-- The first function is taken off.  If it is a part of `~TcpServer`, it is one of
the destruction of the workers, and not the last. -/
theorem pop {op : Op} {rest : List Op} (h : Control s) (hops : (s.loops l).ops = op :: rest)
    (hvisit : op ≠ .removeAll) (hend : op ≠ .serverGone)
    (hjoin : ∀ w, op = .join w → (s.loops w).place = .exited) : Control (s.pop l rest) := by
  have hplace (w : ℕ) : ((s.pop l rest).loops w).place = (s.loops w).place := by
    by_cases hw : w = l <;> simp [hw]
  have hother (hl : l ≠ 0) : (s.pop l rest).loops 0 = s.loops 0 := by simp [Ne.symm hl]
  refine ⟨fun hp => ?_, fun hp => ?_, fun hp w => ?_⟩
  · obtain ⟨front, back, heq, hfront, hback⟩ := h.removing hp
    by_cases hl : l = 0
    · subst hl
      rcases front with _ | ⟨x, front⟩
      · exact absurd (List.cons.inj (hops.symm.trans heq)).1 hvisit
      · obtain ⟨-, hrest⟩ := List.cons.inj (hops.symm.trans heq)
        exact ⟨front, back, by simpa using hrest,
          fun y hy => hfront y (List.mem_cons_of_mem _ hy), fun y hy =>
            hback y (by simpa [Loop.behind] using hy)⟩
    · rw [hother hl]
      exact ⟨front, back, heq, hfront, hback⟩
  · obtain ⟨parts, back, heq, hne, hsuffix, hjoined⟩ := h.joining hp
    simp only [hplace]
    by_cases hl : l = 0
    · subst hl
      rcases parts with _ | ⟨x, parts⟩
      · exact absurd rfl hne
      · obtain ⟨rfl, hrest⟩ := List.cons.inj (hops.symm.trans heq)
        refine ⟨parts, back, by simpa using hrest, ?_, (List.suffix_cons _ _).trans hsuffix,
          fun w h1 hw => ?_⟩
        · rintro rfl
          rcases List.suffix_concat_iff.1 hsuffix with h | ⟨front, heq, -⟩
          · exact absurd h (by simp)
          · obtain ⟨-, hlast⟩ := @List.append_inj' _ [] [op] front [.serverGone] heq rfl
            exact hend (List.cons.inj hlast).1
        · rcases hjoined w h1 hw with hmem | hexited
          · rcases List.mem_cons.1 hmem with heq | hmem
            · exact .inr (hjoin w heq.symm)
            · exact .inl hmem
          · exact .inr hexited
    · rw [hother hl]
      exact ⟨parts, back, heq, hne, hsuffix, hjoined⟩
  · rw [hplace]
    exact h.gone hp w

/-- Other code runs. -/
theorem of_extends {cur : Option ℕ} (h : Control s) (hext : Extends P Q cur s s')
    (hcongr : ∀ op ∈ (s.loops 0).all, s'.isToken op = s.isToken op)
    (hP : ∀ op, P op → op.isPart = false)
    (hQ : ∀ op, Q op → s.server.phase = .removing → s'.isToken op = false)
    (hjoin : s.server.phase = .joining → cur ≠ some 0) : Control s' := by
  have hplace (w : ℕ) : (s'.loops w).place = (s.loops w).place := by
    obtain ⟨-, -, -, -, -, hplace, -⟩ := hext.loop w
    exact hplace
  obtain ⟨xs, ys, hops, htodo, hpending, -, hcur, hxs, hys⟩ := hext.loop 0
  refine ⟨fun hp => ?_, fun hp => ?_, fun hp w => ?_⟩
  · rw [hext.phase] at hp
    obtain ⟨front, back, heq, hfront, hback⟩ := h.removing hp
    refine ⟨xs ++ front, back, by rw [hops, heq, List.append_assoc], fun op hop => ?_,
      fun op hop => ?_⟩
    · exact (List.mem_append.1 hop).elim (fun hx => hP op (hxs op hx)) (hfront op)
    · rw [Loop.behind, htodo, hpending, ← List.append_assoc] at hop
      rcases List.mem_append.1 hop with hop | hop
      · have hall : op ∈ (s.loops 0).all := by
          rw [Loop.all, heq]
          simp only [List.mem_append] at hop ⊢
          rcases hop with (hop | hop) | hop
          · exact .inl (.inl (.inr (List.mem_cons_of_mem _ hop)))
          · exact .inl (.inr hop)
          · exact .inr hop
        rw [hcongr op hall]
        exact hback op hop
      · exact hQ op (hys op hop) hp
  · rw [hext.phase] at hp
    obtain ⟨parts, back, heq, hne, hsuffix, hjoined⟩ := h.joining hp
    refine ⟨parts, back, by rw [hops, hcur (hjoin hp), heq, List.nil_append], hne,
      hext.workers ▸ hsuffix, fun w h1 hw => ?_⟩
    rw [hplace]
    exact hjoined w h1 (hext.workers ▸ hw)
  · rw [hplace, hext.workers]
    exact h.gone (hext.phase ▸ hp) w

/-- A loop that runs nothing goes on to another place. -/
theorem setLoop {L : Loop} (h : Control s) (hops : (s.loops l).ops = [])
    (hplace : (s.loops l).place = .exited → L.place = .exited) : Control (s.setLoop l L) := by
  have hexited (w : ℕ) (hw : (s.loops w).place = .exited) :
      ((s.setLoop l L).loops w).place = .exited := by
    by_cases hl : w = l
    · subst hl
      simpa using hplace hw
    · simpa [hl] using hw
  refine ⟨fun hp => ?_, fun hp => ?_, fun hp w h1 hw => hexited w (h.gone hp w h1 hw)⟩
  · obtain ⟨front, back, heq, hfront, hback⟩ := h.removing hp
    have hl : 0 ≠ l := by
      rintro rfl
      simp [hops] at heq
    simp only [setLoop_loops, Function.update_of_ne hl]
    exact ⟨front, back, heq, hfront, hback⟩
  · obtain ⟨parts, back, heq, hne, hsuffix, hjoined⟩ := h.joining hp
    have hl : 0 ≠ l := by
      rintro rfl
      exact hne (List.append_eq_nil_iff.1 (heq.symm.trans hops)).1
    simp only [setLoop_loops, Function.update_of_ne hl]
    exact ⟨parts, back, heq, hne, hsuffix, fun w h1 hw =>
      (hjoined w h1 hw).imp_right (hexited w)⟩

/-! ### The parts of `~TcpServer` -/

/-- Where the loop over the connections is next, nothing is in front of it. -/
theorem tokens_of_removeAll {rest : List Op} (h : Control s) (hphase : s.server.phase = .removing)
    (hops : (s.loops 0).ops = .removeAll :: rest) :
    ∀ op ∈ (s.loops 0).behind rest, s.isToken op = false := by
  obtain ⟨front, back, heq, hfront, hback⟩ := h.removing hphase
  rcases front with _ | ⟨x, front⟩
  · obtain ⟨-, rfl⟩ := List.cons.inj (hops.symm.trans heq)
    exact hback
  · obtain ⟨rfl, -⟩ := List.cons.inj (hops.symm.trans heq)
    exact absurd (hfront _ List.mem_cons_self) (by simp [Op.isPart])

/-- A round of `removeAll` keeps the order of the parts: one more round behind
the connection's last call, or the workers' parts. -/
theorem removeAll {rest : List Op} {ch : Choice} {pick : ℕ} (h : Control s)
    (hphase : s.server.phase = .removing) (hops : (s.loops 0).ops = .removeAll :: rest)
    (hstep : (s.pop 0 rest).removeAll ch pick = some s') : Control s' := by
  have hback := h.tokens_of_removeAll hphase hops
  unfold Service.removeAll at hstep
  split at hstep
  · next id c hpick =>
    -- the connection is visited, and the loop over the connections comes again
    have hvisit : Control (((s.pop 0 rest).setServer { (s.pop 0 rest).server with
        visited := c :: (s.pop 0 rest).server.visited }).push 0 [.removeAll]) := by
      refine ⟨fun _ => ⟨[], rest, by simp, by simp, fun op hop => ?_⟩, fun hp => ?_, fun hp => ?_⟩
      · exact hback op (by simpa [Loop.behind] using hop)
      · exact absurd (hphase.symm.trans hp) (by simp)
      · exact absurd (hphase.symm.trans hp) (by simp)
    dsimp only at hstep
    split at hstep
    · obtain rfl := Option.some.inj hstep
      refine hvisit.of_extends (P := fun op => op.isPart = false) (Q := fun op => op.plain = true)
        (.apply (fun _ => rfl) (fun _ _ => rfl) (by simp)) (fun op _ => isToken_congr
          fun c' _ _ => ?_) (fun op hop => hop) (fun op hop _ => isToken_of_plain hop)
        fun hp => absurd (hphase.symm.trans hp) (by simp)
      by_cases hc : c' = c <;> simp [hc]
    · obtain rfl := Option.some.inj hstep
      exact hvisit.of_extends (P := fun op => op.isPart = false) (Q := fun op => op.plain = true)
        (show Extends _ _ none _ _ from .queueInLoop (by simp [Op.plain])) (fun op _ => rfl)
        (fun op hop => hop) (fun op hop _ => isToken_of_plain hop)
        fun hp => absurd (hphase.symm.trans hp) (by simp)
  · split at hstep
    · obtain rfl := Option.some.inj hstep
      refine ⟨fun hp => absurd hp (by simp), fun _ => ?_, fun hp => absurd hp (by simp)⟩
      refine ⟨teardown s.workers ++ [.serverGone], rest, by simp, by simp, List.suffix_refl _,
        fun w h1 hw => .inl ?_⟩
      have hlt : w - 1 < s.workers := Nat.lt_of_lt_of_le (Nat.sub_one_lt_of_lt h1) hw
      refine List.mem_append_left _ (List.mem_flatMap.2 ⟨w - 1, List.mem_range.2 hlt, ?_⟩)
      simp [Nat.sub_add_cancel h1]
    · exact absurd hstep (by simp)

/-- The last part is the end. -/
theorem eq_nil_of_serverGone {parts : List Op}
    (h : .serverGone :: parts <:+ teardown s.workers ++ [.serverGone]) : parts = [] := by
  rcases List.suffix_concat_iff.1 h with h | ⟨front, heq, hfront⟩
  · exact absurd h (by simp)
  · rcases front with _ | ⟨x, front⟩
    · exact (List.cons.inj heq).2
    · obtain ⟨rfl, -⟩ := List.cons.inj heq
      have hmem := hfront.subset List.mem_cons_self
      simp [teardown] at hmem

/-- The end of `~TcpServer`. -/
theorem serverGone {rest : List Op} (h : Control s) (hphase : s.server.phase = .joining)
    (hops : (s.loops 0).ops = .serverGone :: rest) :
    Control ((s.pop 0 rest).setServer { (s.pop 0 rest).server with phase := .gone }) := by
  refine ⟨fun hp => absurd hp (by simp), fun hp => absurd hp (by simp), fun _ w h1 hw => ?_⟩
  obtain ⟨parts, back, heq, hne, hsuffix, hjoined⟩ := h.joining hphase
  rcases parts with _ | ⟨x, parts⟩
  · exact absurd rfl hne
  · obtain ⟨rfl, -⟩ := List.cons.inj (hops.symm.trans heq)
    obtain rfl := eq_nil_of_serverGone hsuffix
    have hexited := (hjoined w h1 hw).resolve_left (by simp)
    by_cases h0 : w = 0 <;> simpa [h0] using hexited

/-! ### Steps -/

/-- One function of a loop is done. -/
theorem exec {ch : Choice} {pick : ℕ} {op : Op} {rest : List Op} (h : Control s)
    (hops : (s.loops l).ops = op :: rest)
    (hcongr : ∀ op ∈ (s.loops 0).all, s'.isToken op = s.isToken op)
    (hsilent : ∀ c, .conn c .removeConnection ∈ (s.loops (s.conns c).loop).ops →
      (s.conns c).tcpHolder = .server → (s.conns c).loop ≠ 0 → s.server.phase ≠ .removing)
    (hdestroy : op = .call .destroyServer → ∀ op ∈ (s.loops 0).all, s.isToken op = false)
    (hstep : (s.pop l rest).execOp l ch pick op = some s') : Control s' := by
  by_cases hpart : op.isPart = true
  · cases op with
    | removeAll =>
      simp only [Service.execOp, Option.ite_none_right_eq_some] at hstep
      obtain ⟨⟨rfl, hphase⟩, hs⟩ := hstep
      exact h.removeAll hphase hops hs
    | quitWorker w =>
      obtain rfl := Option.some.inj hstep
      have hpop : Control (s.pop l rest) := h.pop hops (by simp) (by simp) (by simp)
      exact hpop.of_extends (P := fun op => op.isPart = false) (Q := fun op => op.plain = true)
        (show Extends _ _ none _ _ from .setLoop (List.nil_append _).symm rfl
          (List.append_nil _).symm rfl (fun _ => rfl) (by simp) (by simp)) (fun _ _ => rfl)
            (fun op hop => hop)
        (fun op hop _ => isToken_of_plain hop) (by simp)
    | join w =>
      simp only [Service.execOp, Option.ite_none_right_eq_some] at hstep
      obtain ⟨hexited, hs⟩ := hstep
      obtain rfl := Option.some.inj hs
      refine h.pop hops (by simp) (by simp) fun w' hw => ?_
      obtain rfl := Op.join.inj hw
      by_cases hl : w = l <;> simpa [hl] using hexited
    | serverGone =>
      simp only [Service.execOp, Option.ite_none_right_eq_some] at hstep
      obtain ⟨⟨rfl, hphase⟩, hs⟩ := hstep
      obtain rfl := Option.some.inj hs
      exact h.serverGone hphase hops
    | _ => simp [Op.isPart] at hpart
  · by_cases hcall : op = .call .destroyServer
    · subst hcall
      simp only [Service.execOp, Service.doCall, Option.ite_none_right_eq_some] at hstep
      obtain ⟨⟨hl, -⟩, hs⟩ := hstep
      obtain rfl := Option.some.inj hl
      obtain rfl := Option.some.inj hs
      refine ⟨fun _ => ⟨[], rest, by simp, by simp, fun op hop => hdestroy rfl op ?_⟩,
        fun hp => absurd hp (by simp), fun hp => absurd hp (by simp)⟩
      simp only [Loop.all, hops, List.cons_append]
      exact List.mem_cons_of_mem _ (by simpa [Loop.behind] using hop)
    · have hpop : Control (s.pop l rest) := h.pop hops (by rintro rfl; exact hpart rfl)
        (by rintro rfl; exact hpart rfl) (by rintro w rfl; exact absurd rfl hpart)
      refine hpop.of_extends (P := fun op => op.isPart = false)
        (Q := fun op => s.server.phase = .removing → s'.isToken op = false)
        (.execOp (fun op hop => op.isPart_of_plain hop) (fun op hop _ => isToken_of_plain hop)
          (by simpa using hpart) hcall (fun _ _ _ _ _ => rfl) (fun c heq hholder => ?_) hstep)
        (fun x hx => hcongr x ?_) (fun op hop => hop) (fun op hop => hop) fun hp hl => ?_
      · have hloop : (s.conns c).loop = l := by
          subst heq
          exact (execOp_conn_eq_some hstep).1.2
        have hmem : .conn c .removeConnection ∈ (s.loops (s.conns c).loop).ops := by
          rw [hloop, hops, heq]
          exact List.mem_cons_self
        exact ⟨fun _ => rfl, fun hl hp => absurd hp (hsilent c hmem hholder (hloop ▸ hl))⟩
      · by_cases h0 : 0 = l
        · subst h0
          simp only [Loop.all, hops, List.cons_append]
          exact List.mem_cons_of_mem _ (by simpa [Loop.all] using hx)
        · simpa [h0] using hx
      · obtain rfl := Option.some.inj hl
        obtain ⟨parts, back, heq, hne, hsuffix, -⟩ := h.joining hp
        rcases parts with _ | ⟨x, parts⟩
        · exact hne rfl
        · obtain ⟨rfl, -⟩ := List.cons.inj (hops.symm.trans heq)
          exact hpart (isPart_of_mem_teardown (hsuffix.subset List.mem_cons_self))

/-- **Every step keeps where the owner loop is in `~TcpServer`**, if no worker
sends the server a message while it visits the connections, and there is none when
it starts. -/
theorem step {i : Input} (h : Control s) (hwf : WellFormed s)
    (hsilent : ∀ c, .conn c .removeConnection ∈ (s.loops (s.conns c).loop).ops →
      (s.conns c).tcpHolder = .server → (s.conns c).loop ≠ 0 → s.server.phase ≠ .removing)
    (hdestroy : s.current i = some (.call .destroyServer) →
      ∀ op ∈ (s.loops 0).all, s.isToken op = false)
    (hstep : s.step i = some s') : Control s' := by
  have hcongr : ∀ op ∈ (s.loops 0).all, s'.isToken op = s.isToken op := fun op hop =>
    isToken_congr fun c cop heq => by
      have hc : s.Known (.conn c cop) := heq ▸ hwf.known 0 op hop
      obtain ⟨-, hloop, hholder⟩ := identity_step hwf hc hstep
      exact ⟨hholder, hloop⟩
  -- what comes from other threads, and what is no function of a loop
  have hother {cur : Option ℕ} (hcur : s.server.phase = .joining → cur ≠ some 0)
      (hext : Extends (fun op => op.plain = true) (fun op => op.plain = true) cur s s') :
      Control s' :=
    h.of_extends hext hcongr (fun op hop => op.isPart_of_plain hop)
      (fun op hop _ => isToken_of_plain hop) hcur
  have hrunning (hp : s.server.phase = .joining) : (s.loops 0).ops ≠ [] := by
    obtain ⟨parts, back, heq, hne, -⟩ := h.joining hp
    rw [heq]
    exact List.append_ne_nil_of_left_ne_nil hne back
  cases i with
  | testQuit l =>
    simp only [Service.step, Service.testQuit, Option.ite_none_right_eq_some] at hstep
    obtain ⟨⟨hplace, hret⟩, hs⟩ := hstep
    have hops := (Loop.returned_iff.1 hret).1
    split at hs
    · obtain rfl := Option.some.inj hs
      exact h.setLoop hops (by simp [hplace])
    · split at hs
      · obtain rfl := Option.some.inj hs
        exact h
      · obtain rfl := Option.some.inj hs
        exact h.setLoop hops (by simp)
  | poll l events =>
    simp only [Service.step, Service.poll, Option.ite_none_right_eq_some] at hstep
    obtain ⟨⟨hplace, hret, -⟩, hs⟩ := hstep
    obtain rfl := Option.some.inj hs
    exact h.setLoop (Loop.returned_iff.1 hret).1 (by simp [hplace])
  | next l =>
    simp only [Service.step, Service.next] at hstep
    split at hstep
    · next op todo hops htodo =>
      obtain rfl := Option.some.inj hstep
      exact h.setLoop hops id
    · exact absurd hstep (by simp)
  | swap l =>
    simp only [Service.step, Service.swap, Option.ite_none_right_eq_some] at hstep
    obtain ⟨⟨hplace, hret⟩, hs⟩ := hstep
    obtain rfl := Option.some.inj hs
    exact h.setLoop (Loop.returned_iff.1 hret).1 (by simp [hplace])
  | endTasks l =>
    simp only [Service.step, Service.endTasks, Option.ite_none_right_eq_some] at hstep
    obtain ⟨⟨hplace, hret⟩, hs⟩ := hstep
    obtain rfl := Option.some.inj hs
    exact h.setLoop (Loop.returned_iff.1 hret).1 (by simp [hplace])
  | exec l ch pick =>
    obtain ⟨op, rest, hops, hexec⟩ := exec_eq_some.1 hstep
    have hcurrent : s.current (.exec l ch pick) = some op := by simp [Service.current, hops]
    exact h.exec hops hcongr hsilent (fun heq => hdestroy (heq ▸ hcurrent)) hexec
  | user l =>
    simp only [Service.step, Option.ite_none_right_eq_some] at hstep
    obtain ⟨⟨-, hret⟩, hs⟩ := hstep
    obtain rfl := Option.some.inj hs
    refine hother (fun hp heq => ?_) (.push (by simp [Op.plain, Op.isPart]))
    obtain rfl := Option.some.inj heq
    exact hrunning hp (Loop.returned_iff.1 hret).1
  | foreign k =>
    have hk : k ≠ .destroyServer := by
      rintro rfl
      simp [Service.step, Service.doCall] at hstep
    exact hother (by simp) (.doCall (fun op hop => hop) (fun op hop => hop) hk hstep)
  | destroy c =>
    simp only [Service.step, Service.destroy, Option.ite_none_right_eq_some] at hstep
    obtain rfl := Option.some.inj hstep.2
    exact hother (by simp) (show Extends _ _ none _ _ from .of_loops rfl rfl rfl)

end Control

end Service
end Net
end Sevent
