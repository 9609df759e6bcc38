/-
# No function is run for a connection that is gone

`sevent/net/EventLoop.cpp`, `sevent/net/Channel.cpp`, `sevent/net/TcpConnection.cpp`,
`sevent/net/Connector.cpp`.

The poller and `activeChannels` have plain pointers to the channels, and nothing in
`EventLoop::loop` asks whether the connection is still there; the runs of
`dispatch` follow these pointers.  What keeps them from an object that is gone is
`View.Sound`: while its loop has a function to run for a connection that does not
keep it by itself, something else does, and a connection that is gone has nothing
left to run.

Every step keeps this for a connection whose holder lives, but for a connector
that puts another in its place (`View.Sound.step`).  So where every connect that
finishes finds its connector without a connection, `dispatch` comes to no freed
object of a holder that lives (`not_freed`), and for each connection of such a
holder it does what `step` does (`dispatch_view`).
-/

import Sevent.Net.BatchOwnership

namespace Sevent
namespace Net
namespace Service

/-- A function that keeps its connection calls one that does not for an open
connection only. -/
theorem Outcome.Did.ne_disconnected_of_ops {k : Conn} {ch : Choice} {op x : ConnOp} {o : Outcome}
    (h : Outcome.Did k ch op o) (howns : op.owns = true) (hitself : op ≠ .removeItself)
    (hx : x ∈ o.ops) : k.state ≠ .disconnected := by
  cases h with
  | close hq hc hst hio => exact hst
  | forceClose hst =>
    rcases hst with hst | hst <;> simp [hst]
  | io hq hc hst hio => exact hst
  | message hst => exact hst
  | shutdown hst hio => simp [hst]
  | removeItself => exact absurd rfl hitself
  | dispatch hops => simp [ConnOp.owns] at howns
  | channelRemove => simp [ConnOp.owns] at howns
  | queueTie => simp [ConnOp.owns] at howns
  | nothing => simp at hx
  | connect => simp at hx
  | notify => simp at hx
  | closeFd => simp at hx

/-- The methods that user code calls are called through a pointer that owns. -/
theorem Method.owns_op (m : Method) : m.op.owns = true := by cases m <;> rfl

/-- A function that is bound to a handler owns its connection too. -/
theorem ConnOp.owns_of_boundTo {op : ConnOp} {h : ℕ} (hb : op.boundTo = some h) :
    op.owns = true := by
  cases op <;> simp [ConnOp.boundTo, ConnOp.owns] at hb ⊢

namespace View

variable {v v' : View} {cause : Cause}

/-- The loop has a function of the connection to run that does not keep it. -/
def Plain (v : View) : Prop := ∃ op ∈ v.running ++ v.todo, op.owns = false

/-- What keeps a connection its loop has a plain pointer to, and what is left of
one that is gone. -/
structure Sound (v : View) : Prop where
  owners : v.Owners
  queued : ∀ op ∈ v.pending, op.owns = true
  kept : v.Plain → v.Kept
  gone : v.conn.destroyed = true → v.all = [] ∧ v.timers = 0

/-- An open connection is kept by its holder, if that lives. -/
theorem Base.kept_of_open (hb : v.Base) (h : v.Told) (hphase : v.phase = .alive)
    (hst : v.conn.state ≠ .disconnected) : v.Kept := by
  have heq := h hphase
  rw [Conn.closed_of_ne hst] at heq
  have hheld : v.held = true := by
    by_contra hnot
    rw [if_neg hnot] at heq
    omega
  exact .inr (.inr ⟨hheld, (hb.alive hphase).2, .inl hst⟩)

/-- A connection that its connector has is open, or the message that it is closed
is to be sent. -/
theorem Base.plain_of_held (hb : v.Base) (h : v.Told) (hphase : v.phase = .alive)
    (hholder : v.conn.tcpHolder ≠ .server) (hheld : v.held = true)
    (hst : v.conn.state = .disconnected) : v.Plain := by
  have heq := h hphase
  rw [if_pos hheld, Conn.closed_eq_one.2 hst, View.tokens, (hb.connector hholder).2.1] at heq
  -- one of the two functions is left, and ends are not queued
  have hrunning {x : ConnOp} (hx : x.isTail = true) (hpos : 0 < v.count x) : x ∈ v.running := by
    have hmem : x ∈ v.running ++ (v.todo ++ v.pending) := by
      rw [← List.append_assoc]
      exact List.count_pos_iff.1 hpos
    refine (List.mem_append.1 hmem).resolve_right fun hq => ?_
    rw [hb.tails x hq] at hx
    cases hx
  by_cases hq : 0 < v.count .queueTie
  · exact ⟨_, List.mem_append_left _ (hrunning rfl hq), rfl⟩
  · exact ⟨.removeConnection, List.mem_append_left _ (hrunning rfl (by omega)), rfl⟩

/-- Fewer functions to run, and the same owners. -/
theorem Sound.kept_frame (h : v.Sound)
    (hmem : ∀ x ∈ v'.running ++ v'.todo, x.owns = false → x ∈ v.running ++ v.todo)
    (hpending : ∀ x ∈ v.pending, x ∈ v'.pending) (hheld : v'.held = v.held)
    (hvisited : v'.visited = v.visited) (hstate : v'.conn.state = v.conn.state)
    (hrunning : .queueTie ∈ v.running → .queueTie ∈ v'.running) (hplain : v'.Plain) :
    v'.Kept := by
  obtain ⟨x, hx, howns⟩ := hplain
  exact (h.kept ⟨x, hmem x hx howns, howns⟩).frame hpending hheld hvisited hstate hrunning

/-- A function that runs on a connection, and what follows it, leave something
that keeps the connection. -/
theorem Sound.kept_after {op : ConnOp} {rest : List ConnOp} {ch : Choice} {o : Outcome}
    (hb : v.Base) (h : v.Sound) (hphase : v.phase = .alive) (hrun : v.running = op :: rest)
    (hdid : Outcome.Did v.conn ch op o) (hplain : (v.after rest o).Plain) :
    (v.after rest o).Kept := by
  have hitself : op ≠ .removeItself := by
    rintro rfl
    exact (hb.alive hphase).1 (by simp [all_of_running hrun])
  refine Kept.after ?_ hrun hitself hdid
  by_cases hst : v.conn.state = .disconnected
  · refine h.kept ?_
    by_cases hop : op.owns = true
    · obtain ⟨x, hx, howns⟩ := hplain
      simp only [after_running, after_todo, List.append_assoc] at hx
      rcases List.mem_append.1 hx with hx | hx
      · exact absurd hst (hdid.ne_disconnected_of_ops hop hitself hx)
      · exact ⟨x, by simp only [hrun, List.cons_append, List.mem_cons, hx, or_true], howns⟩
    · exact ⟨op, by simp [hrun], by simpa using hop⟩
  · exact hb.kept_of_open h.owners.told hphase hst

/-- **Who is pointed to stays kept**, as long as the holder lives. -/
theorem Sound.kept_step (hb : v.Base) (h : v.Sound) (hp : v'.phase = .alive)
    (hcause : cause ≠ .replaced) (hstep : Step v cause v') : v'.Plain → v'.Kept := by
  intro hplain
  have hphase : v.phase = .alive := (hstep.alive hp).1
  -- nothing runs
  have hnothing (hrun : v'.running = []) (htodo : v'.todo = []) : v'.Kept := by
    obtain ⟨x, hx, -⟩ := hplain
    simp [hrun, htodo] at hx
  cases hstep with
  | run hrun hlive hop hdid => exact h.kept_after hb hphase hrun hdid hplain
  | addTimer hrun hlive =>
    exact h.kept_frame (fun x hx _ => by simp [hrun, List.mem_append.1 hx])
      (fun _ => id) rfl rfl rfl (by simp [hrun]) hplain
  | serverRemoves hrun hlive hholder =>
    exact h.kept_frame (fun x hx _ => by simp [hrun, List.mem_append.1 hx])
      (fun _ => id) rfl rfl rfl (by simp [hrun]) hplain
  | connectorRemoves hrun hlive hholder =>
    exact (h.kept ⟨.removeConnection, by simp [hrun], rfl⟩).release hb (.inl (by simp [hrun])) rfl
  | erase hholder hn => exact (h.kept hplain).release hb (.inr (by simp [hn])) rfl
  | replaced => exact absurd rfl hcause
  | stop hholder hheld =>
    have hkept : v.Kept := by
      by_cases hst : v.conn.state = .disconnected
      · exact h.kept (hb.plain_of_held h.owners.told hphase (by simp [hholder]) hheld hst)
      · exact hb.kept_of_open h.owners.told hphase hst
    exact hkept.frame (fun _ => id) rfl rfl rfl (List.mem_cons_of_mem _)
  | destroyServer => simp at hp
  | visitDirect hholder hloop hremoving => simp [hremoving] at hphase
  | visitQueued hholder hloop hremoving => simp [hremoving] at hphase
  | clear hholder hremoving => simp [hremoving] at hphase
  | serverGone hholder hjoining => simp [hjoining] at hphase
  | @call m hallowed hlive =>
    refine h.kept_frame (fun x hx howns => ?_) (fun _ => id) rfl rfl rfl (List.mem_cons_of_mem _)
      hplain
    refine List.mem_of_ne_of_mem ?_ hx
    rintro rfl
    simp [m.owns_op] at howns
  | queue hst hlive =>
    exact h.kept_frame (fun _ hx _ => hx) (fun _ => List.mem_append_left _) rfl rfl rfl id hplain
  | setTcpHandler hst hlive =>
    exact h.kept_frame (fun _ hx _ => hx) (fun _ => id) rfl rfl rfl id hplain
  | configure hst => exact h.kept_frame (fun _ hx _ => hx) (fun _ => id) rfl rfl rfl id hplain
  | testQuit hplace hrun htodo => exact hnothing hrun htodo
  | exit hplace hrun htodo => exact hnothing hrun htodo
  | @poll ops timers hplace hrun htodo hops htimers =>
    obtain ⟨x, hx, howns⟩ := hplain
    simp only [hrun, List.nil_append] at hx
    rcases hops x hx with ⟨rfl, -⟩ | ⟨-, hregistered⟩
    · simp [ConnOp.owns] at howns
    · exact (h.owners.kept hplace hrun htodo hregistered).frame (fun _ => id) rfl rfl rfl id
  | next hrun htodo =>
    exact h.kept_frame (fun x hx _ => by simpa [hrun, htodo] using hx) (fun _ => id) rfl rfl rfl
      (by simp [hrun]) hplain
  | swap hplace hrun htodo =>
    -- a task keeps its connection
    obtain ⟨x, hx, howns⟩ := hplain
    simp only [hrun, List.nil_append] at hx
    simp [h.queued x hx] at howns
  | endTasks hplace hrun htodo => exact hnothing hrun htodo
  | destroy hlive hheld howns =>
    exact h.kept_frame (fun _ hx _ => hx) (fun _ => id) rfl rfl rfl id hplain

/-- The tasks of a connection keep it. -/
theorem Sound.queued_step (h : v.Sound) (hstep : Step v cause v') :
    ∀ op ∈ v'.pending, op.owns = true := by
  have hadd {q : List ConnOp} (hq : ∀ op ∈ q, op.owns = true) :
      ∀ op ∈ v.pending ++ q, op.owns = true := fun op hm =>
    (List.mem_append.1 hm).elim (h.queued op) (hq op)
  cases hstep with
  | run hrun hlive hop hdid =>
    refine hadd fun x hx => ?_
    rcases hdid.mem_queued hx with ⟨n, hb, -⟩ | ⟨rfl, -⟩
    · exact ConnOp.owns_of_boundTo hb
    · rfl
  | visitDirect => exact hadd (by simp)
  | visitQueued => exact hadd (by simp [ConnOp.owns])
  | @queue m => exact hadd (by simp [m.owns_op])
  | exit => simp
  | swap => simp
  | _ => exact h.queued

/-- **One that is gone stays without anything to run.** -/
theorem Sound.gone_step (hb : v.Base) (h : v.Sound) (hstep : Step v cause v') :
    v'.conn.destroyed = true → v'.all = [] ∧ v'.timers = 0 := by
  intro hgone
  cases hstep with
  | run hrun hlive hop hdid =>
    rw [after_conn, hdid.destroyed, hlive] at hgone
    cases hgone
  | addTimer hrun hlive => simp [hlive] at hgone
  | serverRemoves hrun hlive => simp [hlive] at hgone
  | connectorRemoves hrun hlive => simp [hlive] at hgone
  | stop hholder hheld => simp [hb.held hheld] at hgone
  | visitDirect hholder hloop hphase hheld => simp [hb.held hheld] at hgone
  | visitQueued hholder hloop hphase hheld => simp [hb.held hheld] at hgone
  | call hallowed hlive => simp [hlive] at hgone
  | queue hst hlive => simp [hlive] at hgone
  | setTcpHandler hst hlive => simp [hlive] at hgone
  | exit hplace hrun htodo => exact ⟨by simp [all, hrun, htodo], rfl⟩
  | @poll ops timers hplace hrun htodo hops htimers =>
    obtain ⟨hall, hnone⟩ := h.gone hgone
    have hexited : v.place ≠ .exited := by simp [hplace]
    obtain rfl : ops = [] := List.eq_nil_iff_forall_not_mem.2 fun x hx => by
      rcases hops x hx with ⟨-, hpos⟩ | ⟨-, hregistered⟩
      · omega
      · have hlive := ((h.owners.registered hexited hregistered).resolve_right (by simp [hrun])).1
        simp [hlive] at hgone
    simp only [all, hrun, htodo] at hall ⊢
    exact ⟨hall, by omega⟩
  | next hrun htodo =>
    obtain ⟨hall, -⟩ := h.gone hgone
    simp [all, htodo] at hall
  | swap hplace hrun htodo =>
    obtain ⟨hall, hnone⟩ := h.gone hgone
    exact ⟨by simpa [all, hrun, htodo] using hall, hnone⟩
  | destroy hlive hheld howns htimers =>
    -- whatever is left would keep the connection, or need something that does
    have hnot : ¬ v.Kept := by
      rintro (hm | hm | ⟨hh, -⟩)
      · simpa [ConnOp.owns] using howns _ (List.mem_append_right _ hm)
      · simpa [ConnOp.owns] using howns _ (List.mem_append_right _ hm)
      · simp [hheld] at hh
    refine ⟨List.eq_nil_iff_forall_not_mem.2 fun x hx => ?_, htimers⟩
    rcases List.mem_append.1 hx with hm | hm
    · exact hnot (h.kept ⟨x, hm, howns x hx⟩)
    · simpa [h.queued x hm] using howns x hx
  | _ => exact h.gone hgone

/-- **A step keeps it** for a connection whose holder lives. -/
theorem Sound.step (hb : v.Base) (h : v.Sound) (hp : v'.phase = .alive)
    (hcause : cause ≠ .replaced) (hstep : Step v cause v') : v'.Sound where
  owners := h.owners.step hb hcause hstep
  queued := h.queued_step hstep
  kept := h.kept_step hb hp hcause hstep
  gone := h.gone_step hb hstep

/-- A connection that was just made is sound. -/
theorem Initial.sound (h : v.Initial) : v.Sound := by
  have howners := h.owners
  cases h <;> exact ⟨howners, by simp [fresh, ConnOp.owns], by simp [Plain, fresh],
    by simp [fresh, Conn.new]⟩

end View

/-! ### Following the pointers -/

variable {s s' t : Service} {i : Input} {c : ℕ} {destroyed : ℕ → Bool}

/-- Whether the objects are there is a field of the view. -/
theorem view_withDestroyed : (s.withDestroyed destroyed).view c =
    { s.view c with conn := { s.conns c with destroyed := destroyed c } } := rfl

/-- A view is the same where its object is. -/
theorem view_withDestroyed_of_eq (h : destroyed c = (s.conns c).destroyed) :
    (s.withDestroyed destroyed).view c = s.view c := by rw [view_withDestroyed, h, view]

/-- Nothing changes where every object is as it was. -/
theorem withDestroyed_of_eq (h : ∀ c, destroyed c = (s.conns c).destroyed) :
    s.withDestroyed destroyed = s := by
  obtain rfl : destroyed = fun c => (s.conns c).destroyed := funext h
  rfl

/-- Whether the objects are there has no part in the order of the loops. -/
theorem WellFormed.withDestroyed (h : WellFormed s) (destroyed : ℕ → Bool) :
    WellFormed (s.withDestroyed destroyed) where
  known l op hop := (h.known l op hop).mono (Nat.le_refl _) fun _ _ => ⟨rfl, rfl⟩
  timers := h.timers
  log := h.log
  table := h.table
  slot := h.slot
  visited := h.visited
  ids := h.ids
  inj := h.inj
  keys := h.keys
  index := h.index
  worker := h.worker

/-- The service in which the objects that the input reaches are there. -/
def revived (s : Service) (i : Input) : Service :=
  s.withDestroyed fun c => (s.conns c).destroyed && decide (c ∉ s.freed i)

/-- A step of `dispatch` is a step of the service with these objects there. -/
theorem dispatch_eq_some : s.dispatch i = some s' ↔ ∃ t, (s.revived i).step i = some t ∧
    s' = t.withDestroyed fun c => (t.conns c).destroyed || decide (c ∈ s.freed i) := by
  unfold dispatch
  split
  · next h =>
    have hrevived : s.revived i = s := withDestroyed_of_eq (by simp [h])
    have hsame (t : Service) :
        (t.withDestroyed fun c => (t.conns c).destroyed || decide (c ∈ s.freed i)) = t :=
      withDestroyed_of_eq (by simp [h])
    simp only [hrevived, hsame, exists_eq_right']
  · rw [Option.map_eq_some_iff]
    exact exists_congr fun t => and_congr_right fun _ => eq_comm

/-- What holds of every connection whose holder lives. -/
def AliveViews (P : View → Prop) (s : Service) : Prop :=
  ∀ c < s.created, s.phaseOf c = .alive → P (s.view c)

/-- A plain pointer is to a connection that has been made. -/
theorem lt_created_of_reached (h : WellFormed s) (hreached : c ∈ s.reached i)
    (hstep : (s.revived i).step i = some t) : c < s.created := by
  cases i with
  | poll l events =>
    simp only [step, poll, Option.ite_none_right_eq_some] at hstep
    exact (registered_of_channels hstep.1.2.2.1 hreached).1
  | exec l ch pick =>
    simp only [reached] at hreached
    split at hreached
    · next c' op rest hops =>
      obtain rfl := List.mem_singleton.1 hreached
      exact h.known l _ (mem_all_of_ops hops)
    · cases hreached
  | _ => cases hreached

/-- **No freed object of a holder that lives is reached.** -/
theorem not_freed (hviews : s.AliveViews View.Sound) (hc : c < s.created)
    (hphase : s.phaseOf c = .alive) (hstep : (s.revived i).step i = some t) :
    c ∉ s.freed i := by
  intro hfreed
  obtain ⟨hreached, hgone⟩ := List.mem_filter.1 hfreed
  have hsound := hviews c hc hphase
  cases i with
  | poll l events =>
    simp only [step, poll, Option.ite_none_right_eq_some] at hstep
    obtain ⟨⟨hplace, hret, hfire, -⟩, -⟩ := hstep
    obtain ⟨-, hregistered, hl⟩ := registered_of_channels hfire hreached
    obtain rfl : (s.conns c).loop = l := hl
    have hrun : (s.view c).running = [] := (returned_view hret).1
    have hexited : (s.view c).place ≠ .exited := fun h => by
      rw [show (s.view c).place = .polling from hplace] at h
      cases h
    have hnot : .channelRemove ∉ (s.view c).running := by
      rw [hrun]
      exact List.not_mem_nil
    have hlive := ((hsound.owners.registered hexited hregistered).resolve_right hnot).1
    rw [show (s.conns c).destroyed = false from hlive] at hgone
    cases hgone
  | exec l ch pick =>
    simp only [reached] at hreached
    split at hreached
    · next c' op rest hops =>
      obtain rfl := List.mem_singleton.1 hreached
      obtain ⟨op', rest', hops', hexec⟩ := exec_eq_some.1 hstep
      obtain ⟨rfl, rfl⟩ := List.cons.inj (hops.symm.trans hops')
      have hl : (s.conns c).loop = l := (execOp_conn_eq_some hexec).1.2
      have hmem : op ∈ (s.view c).running := mem_opsOf.2 (by simp [hl, hops])
      have hall := (hsound.gone hgone).1
      have hmem' : op ∈ (s.view c).all := List.mem_append_left _ (List.mem_append_left _ hmem)
      rw [hall] at hmem'
      cases hmem'
    · cases hreached
  | _ => cases hreached

/-- The view of a connection that this input does not free. -/
theorem view_revived (hnot : c ∉ s.freed i) : (s.revived i).view c = s.view c :=
  view_withDestroyed_of_eq (by simp [hnot])

/-- A step of `dispatch` is, for each connection whose holder lives, a step of its
view. -/
theorem dispatch_view (hwf : WellFormed s) (hviews : s.AliveViews View.Sound)
    (hgood : s.ConnectsFree i) (hc : c < s.created) (hphase : s'.phaseOf c = .alive)
    (hstep : s.dispatch i = some s') : s.phaseOf c = .alive ∧
      (s'.view c = s.view c ∨
        ∃ cause, View.Step (s.view c) cause (s'.view c) ∧ cause ≠ .replaced) := by
  obtain ⟨t, ht, rfl⟩ := dispatch_eq_some.1 hstep
  have hwf' : WellFormed (s.revived i) := hwf.withDestroyed _
  have htold (c : ℕ) (hc : c < s.created) : ((s.revived i).view c).Told := fun hp => by
    have hview := view_revived (not_freed hviews hc hp ht)
    rw [hview] at hp ⊢
    exact (hviews c hc hp).owners.told hp
  -- the phase is that of the holder, whatever is gone
  have hchanges := view_step hwf' hc ht
  have halive : s.phaseOf c = .alive := by
    rcases hchanges with heq | ⟨cause, hst, -⟩
    · exact (congrArg View.phase heq).symm.trans hphase
    · exact (hst.alive hphase).1
  have hnot := not_freed hviews hc halive ht
  rw [view_withDestroyed_of_eq (by simp [hnot])]
  rw [Changes, view_revived hnot] at hchanges
  refine ⟨halive, hchanges.imp_right ?_⟩
  rintro ⟨cause, hst, hcause⟩
  exact ⟨cause, hst, ne_replaced hwf' htold hgood ht hcause⟩

/-- A connection that `dispatch` makes is a new one. -/
theorem dispatch_created (hwf : WellFormed s) (hstep : s.dispatch i = some s') :
    WellFormed s' ∧ (s'.created = s.created ∨
      s'.created = s.created + 1 ∧ View.Initial (s'.view s.created)) := by
  obtain ⟨t, ht, rfl⟩ := dispatch_eq_some.1 hstep
  have hwf' : WellFormed (s.revived i) := hwf.withDestroyed _
  refine ⟨(hwf'.step ht).withDestroyed _, (view_created hwf' ht).imp_right ?_⟩
  rintro ⟨hcreated, hinitial, -⟩
  refine ⟨hcreated, ?_⟩
  have hnot : s.created ∉ s.freed i := fun hmem =>
    Nat.lt_irrefl _ (lt_created_of_reached hwf (List.mem_filter.1 hmem).1 ht)
  rwa [view_withDestroyed_of_eq (by simp [hnot])]

/-- **The run rule for `dispatch`.**  What new connections have, and the steps of a
view keep, holds of every connection whose holder lives, in every run in which a
connect that finishes finds its connector without a connection. -/
theorem always_dispatch {P : View → Prop} (hinit : ∀ v, View.Initial v → P v)
    (hstep : ∀ v cause v', v.Base → P v → View.Step v cause v' → P v') {workers : ℕ}
    {connectorLoop : ℕ → ℕ} {is : List Input}
    (h : Transition.Steps dispatch ConnectsFree (init workers connectorLoop) is) :
    Transition.Always dispatch
      (fun s => WellFormed s ∧ s.AliveViews fun v => v.Base ∧ v.Sound ∧ P v)
      (init workers connectorLoop) is := by
  refine Transition.always_of_steps (fun s i s' hs hgood hst => ?_)
    ⟨wellFormed_init workers connectorLoop, by simp [AliveViews, init]⟩ h
  obtain ⟨hwf, hviews⟩ := hs
  obtain ⟨hwf', hcreated⟩ := dispatch_created hwf hst
  refine ⟨hwf', fun c hc hphase => ?_⟩
  have hold (hc : c < s.created) :
      (s'.view c).Base ∧ (s'.view c).Sound ∧ P (s'.view c) := by
    obtain ⟨halive, hchanges⟩ :=
      dispatch_view hwf (fun c hc hp => (hviews c hc hp).2.1) hgood hc hphase hst
    obtain ⟨hb, hsound, hP⟩ := hviews c hc halive
    rcases hchanges with heq | ⟨cause, hvs, hcause⟩
    · exact heq ▸ ⟨hb, hsound, hP⟩
    · exact ⟨hb.step hvs, hsound.step hb hphase hcause hvs, hstep _ cause _ hb hP hvs⟩
  rcases hcreated with heq | ⟨heq, hi⟩
  · exact hold (heq ▸ hc)
  · rw [heq] at hc
    rcases Nat.lt_succ_iff_lt_or_eq.1 hc with hc | rfl
    · exact hold hc
    · exact ⟨hi.base, hi.sound, hinit _ hi⟩

end Service
end Net
end Sevent
