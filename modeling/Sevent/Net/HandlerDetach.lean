/-
# A handler that is replaced

`README.md` (TcpHandler), `sevent/net/TcpConnection.h`,
`sevent/net/TcpConnection.cpp`.

The README wants a handler detached from its connections, with `setTcpHandler`,
before it is destroyed.  So `DetachIsFinal` should hold of what happens to a
connection: once another handler is set, nothing comes to the old one.

`onConnection`, `onMessage` and `onClose` go to the handler that is set when
they are due.  `onWriteComplete` and `onHighWaterMark` are queued, in four
places, with the handler that is set then bound into the task; the task does not
look again.  So the old handler is called when one of these is still queued
while another handler is set, and the new one may be null because the old one is
about to go.

`detach_is_final` gives a condition that is enough for a run: no `setTcpHandler`
finds a notification for another handler still to be run.  A call with nothing
queued, or of the handler that is set already, is fine.
-/

import Sevent.Net.ConnBase
import Sevent.Lib.Log

namespace Sevent
namespace Net
namespace Service

/-- The handler that a `setTcpHandler` sets. -/
def Act.handler? : Act → Option (Option ℕ)
  | .setTcpHandler h => some h
  | _ => none

/-- The handler that was set last. -/
def attached (acts : List Act) : Option ℕ := (acts.filterMap Act.handler?).getLast?.join

/-- After `setTcpHandler` nothing comes to another handler, unless that one is
set again. -/
def DetachIsFinal (acts : List Act) : Prop :=
  ∀ past h between cb n future,
    acts = past ++ .setTcpHandler h :: (between ++ .callback cb (some n) :: future) →
      h = some n ∨ .setTcpHandler (some n) ∈ between

/-- The handlers that the notifications still to be run for a connection are
bound to. -/
def notified (s : Service) (c : ℕ) : List ℕ :=
  (opsOf c (s.loops (s.conns c).loop).all).filterMap ConnOp.boundTo

/-- The `setTcpHandler` that a step runs. -/
def detaching (s : Service) (i : Input) : Option (ℕ × Option ℕ) :=
  match s.current i with
  | some (.call (.setTcpHandler c h)) => some (c, h)
  | _ => none

/-- A `setTcpHandler` finds no notification for another handler. -/
def DetachesIdle (s : Service) (i : Input) : Prop :=
  ∀ p ∈ s.detaching i, ∀ n ∈ s.notified p.1, p.2 = some n

instance (s : Service) (i : Input) : Decidable (s.DetachesIdle i) :=
  inferInstanceAs (Decidable (∀ p ∈ s.detaching i, _))

/-! ### The handler that was set last -/

variable {acts as : List Act}

theorem attached_append (h : as.filterMap Act.handler? = []) :
    attached (acts ++ as) = attached acts := by
  rw [attached, List.filterMap_append, h, List.append_nil, attached]

theorem attached_concat (h : Option ℕ) : attached (acts ++ [.setTcpHandler h]) = h := by
  simp [attached, List.filterMap_append, Act.handler?]

theorem filterMap_handler? (h : ∀ n, .setTcpHandler n ∉ as) : as.filterMap Act.handler? = [] := by
  refine List.filterMap_eq_nil_iff.2 fun a ha => ?_
  cases a with
  | setTcpHandler n => exact absurd ha (h n)
  | _ => rfl

/-- Every callback goes to the handler that is set. -/
def Attached : List Act → Prop :=
  Log.Justified fun past a => ∀ cb n, a = .callback cb (some n) → attached past = some n

theorem Attached.append (h : Attached acts) (hset : ∀ n, .setTcpHandler n ∉ as)
    (hcb : ∀ cb n, .callback cb (some n) ∈ as → attached acts = some n) :
    Attached (acts ++ as) := by
  refine Log.Justified.append h fun past a future heq cb n ha => ?_
  have hpast : past.filterMap Act.handler? = [] :=
    filterMap_handler? fun n hm => hset n (by simp [heq, hm])
  rw [attached_append hpast]
  exact hcb cb n (by simp [heq, ha])

/-- So no callback comes to a handler that is no longer set. -/
theorem Attached.detachIsFinal (h : Attached acts) : DetachIsFinal acts := by
  intro past hd between cb n future heq
  have hlast := h (past ++ .setTcpHandler hd :: between) _ future (by simp [heq]) cb n rfl
  have hmem : some n ∈ hd :: between.filterMap Act.handler? := by
    refine List.mem_of_getLast? ?_
    have hcons : (.setTcpHandler hd :: between).filterMap Act.handler? =
        hd :: between.filterMap Act.handler? := rfl
    rw [attached, List.filterMap_append, hcons,
      List.getLast?_append_of_ne_nil _ (List.cons_ne_nil _ _)] at hlast
    exact Option.join_eq_some_iff.1 hlast
  rcases List.mem_cons.1 hmem with hn | hn
  · exact .inl hn.symm
  · obtain ⟨a, ha, hset⟩ := List.mem_filterMap.1 hn
    cases a with
    | setTcpHandler h =>
      obtain rfl : h = some n := Option.some.inj hset
      exact .inr ha
    | _ => simp [Act.handler?] at hset

theorem Method.boundTo_op (m : Method) : m.op.boundTo = none := by cases m <;> rfl

namespace View

variable {v v' : View} {cause : Cause}

/-- What a connection and its notifications are bound to. -/
structure Bound (v : View) : Prop where
  queued : ∀ op ∈ v.all, ∀ n, op.boundTo = some n → v.conn.tcpHandler = some n
  set : attached v.acts = v.conn.tcpHandler
  served : Attached v.acts

/-- The condition on the steps. -/
def DetachIdle (v : View) (cause : Cause) : Prop :=
  ∀ h, cause = .setTcpHandler h → ∀ op ∈ v.all, ∀ n, op.boundTo = some n → h = some n

/-- What sets no handler. -/
theorem Bound.frame (h : v.Bound) (hhandler : v'.conn.tcpHandler = v.conn.tcpHandler)
    (hall : ∀ op ∈ v'.all, ∀ n, op.boundTo = some n → op ∈ v.all ∨ v.conn.tcpHandler = some n)
    (hacts : v'.acts = v.acts ++ as) (hset : ∀ n, .setTcpHandler n ∉ as)
    (hcb : ∀ cb n, .callback cb (some n) ∈ as → v.conn.tcpHandler = some n) : v'.Bound where
  queued op hop n hn := by
    rw [hhandler]
    exact (hall op hop n hn).elim (fun hmem => h.queued op hmem n hn) id
  set := by
    rw [hacts, attached_append (filterMap_handler? hset), hhandler]
    exact h.set
  served := by
    rw [hacts]
    exact h.served.append hset fun cb n hm => h.set.trans (hcb cb n hm)

theorem Bound.step (h : v.Bound) (hfine : v.DetachIdle cause) (hstep : Step v cause v') :
    v'.Bound := by
  -- what does nothing to the log, and only drops functions or adds some that are not bound
  have hframe {w : View} (hconn : w.conn.tcpHandler = v.conn.tcpHandler)
      (hall : ∀ op ∈ w.all, op ∈ v.all ∨ op.boundTo = none) (hacts : w.acts = v.acts) : w.Bound :=
    h.frame hconn (fun op hop n hn => .inl ((hall op hop).resolve_right (by simp [hn])))
      (hacts.trans (List.append_nil _).symm) (by simp) (by simp)
  have hsame {w : View} (hall : w.all = v.all) (op : ConnOp) (hop : op ∈ w.all) :
      op ∈ v.all ∨ op.boundTo = none := .inl (hall ▸ hop)
  cases hstep with
  | @run op rest ch o hrun hlive hop hdid =>
    have hmem {x : ConnOp} (hx : x ∈ rest ++ v.todo ++ v.pending) : x ∈ v.all := by
      rw [all_of_running hrun]
      exact List.mem_cons_of_mem _ hx
    refine h.frame hdid.tcpHandler (fun x hx n hn => ?_) rfl
      (fun n => hdid.setTcpHandler_not_mem) (fun cb n hcb => ?_)
    · rcases mem_all_after.1 hx with hx | hx | hx
      · rcases hdid.mem_ops hx with hk | hk <;> cases x <;>
          simp [ConnOp.isHandler, ConnOp.isTail, ConnOp.boundTo] at hk hn
      · exact .inl (hmem hx)
      · rcases hdid.mem_queued hx with ⟨n', hb, hh⟩ | ⟨rfl, -⟩
        · exact .inr (hh.trans (hb.symm.trans hn))
        · simp [ConnOp.boundTo] at hn
    · exact (hdid.callback hcb).elim id (h.queued op (by simp [all_of_running hrun]) n)
  | setTcpHandler hst hlive =>
    exact ⟨fun op hop n hn => hfine _ rfl op hop n hn, attached_concat _, h.served.concat (by simp)⟩
  | addTimer hrun hlive =>
    exact hframe rfl (fun op hop => .inl (all_of_running hrun ▸ List.mem_cons_of_mem _ hop)) rfl
  | serverRemoves hrun hlive hholder =>
    exact h.frame rfl (fun op hop n hn => .inl (all_of_running hrun ▸ List.mem_cons_of_mem _ hop))
      rfl (by simp) (by simp)
  | connectorRemoves hrun hlive hholder =>
    exact h.frame rfl (fun op hop n hn => .inl (all_of_running hrun ▸ List.mem_cons_of_mem _ hop))
      rfl (by simp) (by simp)
  | erase hholder hn => exact hframe rfl (hsame rfl) rfl
  | replaced hholder hheld => exact hframe rfl (hsame rfl) rfl
  | stop hholder hheld =>
    refine hframe rfl (fun op hop => ?_) rfl
    exact (List.mem_cons.1 hop).elim (fun heq => .inr (by rw [heq]; rfl)) .inl
  | destroyServer hholder hphase => exact hframe rfl (hsame rfl) rfl
  | visitDirect hholder hloop hphase hheld hvisited =>
    refine h.frame rfl (fun op hop n hn => ?_) rfl (by simp) (by simp [eq_comm])
    have hcons : op = .channelRemove ∨ op ∈ v.all := by simpa [all] using hop
    exact .inl (hcons.resolve_left (by rintro rfl; simp [ConnOp.boundTo] at hn))
  | visitQueued hholder hloop hphase hheld hvisited =>
    refine hframe rfl (fun op hop => ?_) rfl
    have hor : op ∈ v.all ∨ op = .removeItself := by simpa [all, or_assoc] using hop
    exact hor.imp_right (by rintro rfl; rfl)
  | clear hholder hphase hvisited => exact hframe rfl (hsame rfl) rfl
  | serverGone hholder hphase => exact hframe rfl (hsame rfl) rfl
  | @call m hallowed hlive =>
    refine hframe rfl (fun op hop => ?_) rfl
    exact (List.mem_cons.1 hop).elim (fun heq => .inr (heq ▸ m.boundTo_op)) .inl
  | @queue m hst hlive =>
    refine hframe rfl (fun op hop => ?_) rfl
    have hor : op ∈ v.all ∨ op = m.op := by simpa [all, or_assoc] using hop
    exact hor.imp_right (by rintro rfl; exact m.boundTo_op)
  | configure hst => exact hframe rfl (hsame rfl) rfl
  | testQuit hplace hrun htodo => exact hframe rfl (hsame rfl) rfl
  | exit hplace hrun htodo =>
    exact hframe rfl (fun op hop => by simp [all, hrun, htodo] at hop) rfl
  | @poll ops timers hplace hrun htodo hops htimers =>
    refine hframe rfl (fun op hop => ?_) rfl
    have hor : op ∈ ops ∨ op ∈ v.all := by simpa [all, hrun, htodo] using hop
    rcases hor with hop | hop
    · rcases hops op hop with ⟨rfl, -⟩ | ⟨⟨revents, rfl⟩, -⟩ <;> exact .inr rfl
    · exact .inl hop
  | next hrun htodo => exact hframe rfl (hsame (by simp [all, hrun, htodo])) rfl
  | swap hplace hrun htodo => exact hframe rfl (hsame (by simp [all, hrun, htodo])) rfl
  | endTasks hplace hrun htodo => exact hframe rfl (hsame rfl) rfl
  | destroy hlive hheld howns =>
    exact h.frame rfl (fun op hop n hn => .inl hop) rfl (by split <;> simp) (by split <;> simp)

theorem Initial.bound (h : v.Initial) : v.Bound := by
  have hset {h : Option ℕ} : attached [.setTcpHandler h] = h := @attached_concat [] h
  cases h with
  | queued hl =>
    exact ⟨by simp [all, fresh, ConnOp.boundTo], hset, Log.justified_of_forall (by simp [fresh])⟩
  | @called id l fd holder handler place script hl =>
    have h : View.Bound (fresh (Conn.new id l holder handler fd) place) :=
      ⟨by simp [all, fresh], hset, Log.justified_of_forall (by simp [fresh])⟩
    exact h.frame rfl (by simp [all, fresh]) rfl (by simp) (by simp [fresh, eq_comm])

end View

theorem all_view (s : Service) (c : ℕ) :
    (s.view c).all = opsOf c (s.loops (s.conns c).loop).all := by
  simp [View.all, Loop.all]

/-- **Detaching is final** in a run whose `setTcpHandler` calls find no notification
for another handler.  In every state of it, and for every connection, no callback has
come to a handler after another one, or none, was set in its place, unless it was set
again in between. -/
theorem detach_is_final {workers : ℕ} {connectorLoop : ℕ → ℕ} {is : List Input}
    (h : Transition.Steps step DetachesIdle (init workers connectorLoop) is) :
    Transition.Always step (fun s => ∀ c < s.created, DetachIsFinal (s.acts c))
      (init workers connectorLoop) is := by
  refine (always_views (fun v hv => View.Initial.bound hv)
    (fun s i _ c cause _ _ hg _ _ hcause => ?_)
    (fun v cause v' _ hb hfine hst => hb.step hfine hst) h).mono
    fun s hs c hc => (hs.2 c hc).2.served.detachIsFinal
  rintro hd rfl op hop n hn
  have hdetach : s.detaching i = some (c, hd) := by simp [detaching, hcause.current]
  exact hg _ hdetach n (List.mem_filterMap.2 ⟨op, all_view s c ▸ hop, hn⟩)

/-- Handler `1` gets a connection and sends, all of it is written, and its
`onWriteComplete` is queued. -/
def sendAll (script : List Call) : List Input :=
  [.user 0, .exec 0 (.calls [.serverSetTcpHandler (some 1)]) 0, .exec 0 (.calls []) 0,
    .testQuit 0, .poll 0 [.accept 5], .next 0, .exec 0 (.calls (.method (.send 3) 0 :: script)) 0,
    .exec 0 (.calls []) 0, .exec 0 { script := [], read := .failed, write := .accepted 3 } 0]

/-- Handler `1` is detached and then its notification is run. -/
def detachAfterSend : List Input :=
  sendAll [.setTcpHandler 0 none] ++ [.exec 0 (.calls []) 0, .swap 0, .next 0,
    .exec 0 (.calls []) 0]

/-- Handler `1` is called after it has been detached: its `onWriteComplete` was in
the queue with the pointer bound to it, and by then the handler may be gone. -/
theorem notified_after_detach : ¬ Transition.Always step
    (fun s => ∀ c < s.created, DetachIsFinal (s.acts c)) (init 0 fun _ => 0) detachAfterSend := by
  intro h
  have hacts : (Transition.run step (init 0 fun _ => 0) detachAfterSend).map
      (fun s => (s.created, s.acts 0)) = some (1, [.setTcpHandler (some 1), .setState .connected,
        .callback .onConnection (some 1), .write, .setTcpHandler none,
        .callback .onWriteComplete (some 1)]) := by decide
  obtain ⟨t, hrun, ht⟩ := Option.map_eq_some_iff.1 hacts
  obtain ⟨hcreated, hacts⟩ := Prod.mk.inj ht
  have hfinal := h.last hrun 0 (by rw [hcreated]; decide)
    [.setTcpHandler (some 1), .setState .connected, .callback .onConnection (some 1), .write]
    none [] .onWriteComplete 1 [] hacts
  simp at hfinal

/-- It is detached from inside its notification, with nothing else queued. -/
theorem detach_in_notification : Transition.Always step
    (fun s => ∀ c < s.created, DetachIsFinal (s.acts c)) (init 0 fun _ => 0)
    (sendAll [] ++ [.swap 0, .next 0, .exec 0 (.calls [.setTcpHandler 0 none]) 0,
      .exec 0 (.calls []) 0]) := detach_is_final (by decide)

end Service
end Net
end Sevent
