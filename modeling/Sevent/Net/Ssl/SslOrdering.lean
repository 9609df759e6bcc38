/-
# The order of the callbacks behind `SslCodec`

A handler `h` behind `SslCodec` should see `onConnection` once, before any
`onMessage` or `onClose`, and it should have seen it once the handshake is
completed and some application data has been decrypted (`Ordered`).

The promotion is done in one branch of `SslCodec::onMessage` only, the one for
`SSL_WANT`; the data is delivered after the loop whatever the branch, and
`onClose` passes `SslCodec` whatever its status.  So a peer that closes before
the handshake is done makes `h` see `onClose` alone
(`close_before_handshake`), and a read with the end of the handshake, data and
`close_notify` makes it see `onMessage` alone (`closeNotifyWithData`).

`ordered_run` shows that nothing else goes wrong: `Ordered` holds in every state
of a run whose steps meet `Good`.  The proof follows the stack of unfinished
calls: a frame is `pending` when it belongs to the promotion and `h` is still to
come, and `reaching` when it belongs to an `onMessage` or `onClose` that has
passed `SslCodec` and has `h` still to come.
-/

import Sevent.Net.Ssl.SslCodec
import Sevent.Lib.Log
import Sevent.Lib.Run

namespace Sevent
namespace Net
namespace Ssl

open Transition Log HandlerFunc

namespace Frame

/-- A frame of the promotion, with `h` still to come. -/
def pending (p : TcpPipeline) : Frame → Bool
  | .invoke .onConnection rest | .handler _ .onConnection rest =>
    .ssl ∉ rest ∧ .other p.h ∈ rest
  | _ => false

/-- A frame of the first `onConnection`, with `SslCodec` still to come. -/
def starting : Frame → Bool
  | .invoke .onConnection rest | .handler _ .onConnection rest => .ssl ∈ rest
  | _ => false

/-- A frame of an `onMessage` or `onClose` that has passed `SslCodec`, with `h`
still to come. -/
def reaching (p : TcpPipeline) : Frame → Bool
  | .invoke func rest | .handler _ func rest =>
    func ≠ .onConnection ∧ .ssl ∉ rest ∧ .other p.h ∈ rest
  | _ => false

end Frame

namespace Session

/-- The promotion is running and has not come to `h`. -/
def Promoting (p : TcpPipeline) (stack : List Frame) : Prop := ∃ fr ∈ stack, fr.pending p = true

instance (p : TcpPipeline) (stack : List Frame) : Decidable (Promoting p stack) :=
  inferInstanceAs (Decidable (∃ fr ∈ stack, _))

/-- The status is `CONNECTED`. -/
def Connected (s : Session) : Prop := ∃ ssl, s.ssl = some ssl ∧ ssl.status = .CONNECTED

/-- A callback of `h` is justified by what came before it. -/
def Introduced (h : ℕ) (past : List (ℕ × HandlerFunc)) (call : ℕ × HandlerFunc) : Prop :=
  call = (h, onMessage) ∨ call = (h, onClose) → (h, onConnection) ∈ past

/-- **The order of the callbacks of `h`.** -/
structure Ordered (p : TcpPipeline) (s : Session) : Prop where
  once : s.log.count (p.h, onConnection) ≤ 1
  first : Justified (Introduced p.h) s.log
  promoted : s.stack = [] → s.completed = true → s.decrypted = true →
    (p.h, onConnection) ∈ s.log

/-- The condition.  While the status is `CONNECTING`, a `decrypt` that yields
data ends with `SSL_WANT` and the handshake finished.  The handlers between
`SslCodec` and `h` return true from the `onConnection` of the promotion.
`onClose` comes to `SslCodec` after the promotion has come to `h`, and
`onMessage` does not come to it while the promotion is on its way. -/
def Good (p : TcpPipeline) (s : Session) : Input → Prop
  | .decrypt r =>
    match s.ssl with
    | some ssl => ssl.status = .CONNECTING → 0 < SslHandler.data r →
      SslHandler.getSslStatus r.error = .SSL_WANT ∧ r.initFinished = true
    | none => True
  | .ret isNext =>
    match s.stack with
    | .handler x func rest :: _ => (Frame.handler x func rest).pending p = true → isNext = true
    | _ => True
  | .next _ =>
    match s.stack with
    | .invoke .onClose (.ssl :: _) :: _ => s.Connected ∧ ¬ Promoting p s.stack
    | .invoke .onMessage (.ssl :: _) :: _ => ¬ Promoting p s.stack
    | _ => True
  | _ => True

/-! ### The stack -/

/-- No promotion is running below a call of `SslCodec::onMessage`. -/
def Nested (p : TcpPipeline) : List Frame → Prop
  | [] => True
  | .sslMessage _ _ :: fs => ¬ Promoting p fs ∧ Nested p fs
  | _ :: fs => Nested p fs

/-- The stack is well formed. -/
structure StackInv (p : TcpPipeline) (stack : List Frame) : Prop where
  suffix : ∀ fr ∈ stack, fr.rest <:+ p.handlers
  behind : ∀ n rest, .sslMessage n rest ∈ stack → Handler.ssl ∉ rest ∧ .other p.h ∈ rest
  nested : Nested p stack
  pending : stack.countP (Frame.pending p) ≤ 1
  starting : stack.countP Frame.starting ≤ 1

/-- What a run of good steps keeps. -/
structure OrderInv (p : TcpPipeline) (s : Session) : Prop where
  stack : StackInv p s.stack
  fresh : s.opened = false → s.stack = [] ∧ s.ssl = none
  starting : ∀ fr ∈ s.stack, fr.starting = true → s.ssl = none
  reaching : ∀ fr ∈ s.stack, fr.reaching p = true → (p.h, onConnection) ∈ s.log
  pending : Promoting p s.stack → s.Connected ∧ (p.h, onConnection) ∉ s.log
  connected : s.Connected → ¬ Promoting p s.stack → (p.h, onConnection) ∈ s.log
  connecting : ¬ s.Connected → (p.h, onConnection) ∉ s.log ∧ s.decrypted = false ∧
    ∀ ssl, s.ssl = some ssl → ssl.decryptData = 0
  once : s.log.count (p.h, onConnection) ≤ 1
  first : Justified (Introduced p.h) s.log

variable {p : TcpPipeline} {s s' : Session} {fr fr' : Frame} {fs : List Frame} {n : ℕ}
  {rest : List Handler}

/-- The invariant gives the order that is wanted: between two events no
promotion is under way, and whoever decrypted had the handshake done. -/
theorem OrderInv.ordered (h : s.OrderInv p) : s.Ordered p := by
  refine ⟨h.once, h.first, fun hstack _ hdecrypted => ?_⟩
  refine h.connected ?_ ?_
  · by_contra hn
    have := (h.connecting hn).2.1
    rw [hdecrypted] at this
    cases this
  · rintro ⟨fr, hfr, -⟩
    rw [hstack] at hfr
    cases hfr

/-- A promotion is under way when it is the frame on top or one of those below
it. -/
theorem promoting_cons : Promoting p (fr :: fs) ↔ fr.pending p = true ∨ Promoting p fs := by
  simp [Promoting]

/-- A frame that is not of the promotion can be taken away. -/
theorem promoting_of_not_pending (hp : fr.pending p = false) :
    Promoting p (fr :: fs) ↔ Promoting p fs := by
  rw [promoting_cons, hp]
  simp

/-- Frames nested in one another stay so without the one on top. -/
theorem Nested.tail (h : Nested p (fr :: fs)) : Nested p fs := by
  cases fr with
  | invoke => exact h
  | handler => exact h
  | sslMessage => exact h.2

/-- A frame is taken off the stack, when its call returns. -/
theorem StackInv.pop (h : StackInv p (fr :: fs)) : StackInv p fs := by
  have hsub := List.sublist_cons_self fr fs
  exact ⟨fun f hf => h.suffix f (List.mem_cons_of_mem _ hf),
    fun n rest hm => h.behind n rest (List.mem_cons_of_mem _ hm), h.nested.tail,
    (hsub.countP_le).trans h.pending, (hsub.countP_le).trans h.starting⟩

/-- There is one promotion. -/
theorem StackInv.alone (h : StackInv p (fr :: fs)) (hp : fr.pending p = true) :
    ¬ Promoting p fs := by
  rintro ⟨f, hf, hfp⟩
  have hone := h.pending
  rw [List.countP_cons_of_pos hp] at hone
  have := List.countP_pos_iff.2 ⟨f, hf, hfp⟩
  omega

/-- There is one first `onConnection`. -/
theorem StackInv.alone_starting (h : StackInv p (fr :: fs)) (hst : fr.starting = true) :
    ∀ f ∈ fs, f.starting = false := by
  intro f hf
  have hone := h.starting
  rw [List.countP_cons_of_pos hst] at hone
  cases hfs : f.starting with
  | false => rfl
  | true =>
    have := List.countP_pos_iff.2 ⟨f, hf, hfs⟩
    omega

/-- A frame is put on the stack, when a handler calls the next one: it may be
the promotion, or the first `onConnection`, only if no frame below it is. -/
theorem StackInv.cons (h : StackInv p fs) (hsuffix : fr.rest <:+ p.handlers)
    (hssl : ∀ n rest, fr = .sslMessage n rest →
      ¬ Promoting p fs ∧ Handler.ssl ∉ rest ∧ .other p.h ∈ rest)
    (hpending : fr.pending p = true → ¬ Promoting p fs)
    (hstarting : fr.starting = true → ∀ f ∈ fs, f.starting = false) : StackInv p (fr :: fs) := by
  refine ⟨fun f hf => ?_, fun n rest hm => ?_, ?_, ?_, ?_⟩
  · rcases List.mem_cons.1 hf with rfl | hf
    · exact hsuffix
    · exact h.suffix f hf
  · rcases List.mem_cons.1 hm with heq | hm
    · exact (hssl n rest heq.symm).2
    · exact h.behind n rest hm
  · cases fr with
    | invoke => exact h.nested
    | handler => exact h.nested
    | sslMessage n rest => exact ⟨(hssl n rest rfl).1, h.nested⟩
  · cases hp : fr.pending p with
    | false =>
      rw [List.countP_cons_of_neg (by rw [hp]; simp)]
      exact h.pending
    | true =>
      have hzero : fs.countP (Frame.pending p) = 0 := by
        refine List.countP_eq_zero.2 fun f hf hfp => hpending hp ⟨f, hf, hfp⟩
      rw [List.countP_cons_of_pos hp, hzero]
  · cases hst : fr.starting with
    | false =>
      rw [List.countP_cons_of_neg (by rw [hst]; simp)]
      exact h.starting
    | true =>
      have hzero : fs.countP Frame.starting = 0 := by
        refine List.countP_eq_zero.2 fun f hf hfs => ?_
        rw [hstarting hst f hf] at hfs
        cases hfs
      rw [List.countP_cons_of_pos hst, hzero]

/-- The innermost frame is replaced by one that plays no new part. -/
theorem StackInv.replace (h : StackInv p (fr :: fs)) (hsuffix : fr'.rest <:+ p.handlers)
    (hssl : ∀ n rest, fr' ≠ .sslMessage n rest)
    (hpending : fr'.pending p = true → fr.pending p = true)
    (hstarting : fr'.starting = true → fr.starting = true) : StackInv p (fr' :: fs) :=
  h.pop.cons hsuffix (fun n rest he => absurd he (hssl n rest)) (fun hp => h.alone (hpending hp))
    fun hst => h.alone_starting (hstarting hst)

/-! ### Steps that only change the stack -/

/-- The stack changes, and the promotion stays where it is. -/
theorem OrderInv.setStack (h : s.OrderInv p) (hopened : s'.opened = true)
    (hssl : s'.ssl = s.ssl) (hlog : s'.log = s.log) (hdecrypted : s'.decrypted = s.decrypted)
    (hstack : StackInv p s'.stack) (hpromoting : Promoting p s'.stack ↔ Promoting p s.stack)
    (hstarting : ∀ fr ∈ s'.stack, fr.starting = true → s.ssl = none)
    (hreaching : ∀ fr ∈ s'.stack, fr.reaching p = true → (p.h, onConnection) ∈ s.log) :
    s'.OrderInv p := by
  have hconnected : s'.Connected ↔ s.Connected := by
    unfold Connected
    rw [hssl]
  refine ⟨hstack, fun ho => ?_, ?_, ?_, fun hp => ?_, fun hc hn => ?_, fun hc => ?_, ?_, ?_⟩
  · rw [hopened] at ho
    cases ho
  · rw [hssl]
    exact hstarting
  · rw [hlog]
    exact hreaching
  · rw [hconnected, hlog]
    exact h.pending (hpromoting.1 hp)
  · rw [hlog]
    exact h.connected (hconnected.1 hc) fun hp => hn (hpromoting.2 hp)
  · rw [hlog, hdecrypted, hssl]
    exact h.connecting fun hs => hc (hconnected.2 hs)
  · rw [hlog]
    exact h.once
  · rw [hlog]
    exact h.first

/-- A session with unfinished calls has been opened. -/
theorem OrderInv.opened (h : s.OrderInv p) (hs : s.stack = fr :: fs) : s.opened = true := by
  cases ho : s.opened with
  | true => rfl
  | false =>
    rw [(h.fresh ho).1] at hs
    cases hs

/-- A frame that is not of the promotion is done. -/
theorem OrderInv.pop (h : s.OrderInv p) (hs : s.stack = fr :: fs) (hp : fr.pending p = false) :
    ({ s with stack := fs } : Session).OrderInv p := by
  have hstack := h.stack
  rw [hs] at hstack
  refine h.setStack (h.opened hs) rfl rfl rfl hstack.pop ?_ (fun f hf => ?_) fun f hf => ?_
  · rw [hs]
    exact (promoting_of_not_pending hp).symm
  · exact h.starting f (by rw [hs]; exact List.mem_cons_of_mem _ hf)
  · exact h.reaching f (by rw [hs]; exact List.mem_cons_of_mem _ hf)

/-- The innermost frame goes on to the next handler. -/
theorem OrderInv.replace (h : s.OrderInv p) (hs : s.stack = fr :: fs)
    (hsuffix : fr'.rest <:+ p.handlers) (hssl : ∀ n rest, fr' ≠ .sslMessage n rest)
    (hpending : fr'.pending p = fr.pending p)
    (hstarting : fr'.starting = true → fr.starting = true)
    (hreaching : fr'.reaching p = true → (p.h, onConnection) ∈ s.log) :
    ({ s with stack := fr' :: fs } : Session).OrderInv p := by
  have hstack := h.stack
  rw [hs] at hstack
  have hmem : fr ∈ s.stack := by
    rw [hs]
    exact List.mem_cons_self
  refine h.setStack (h.opened hs) rfl rfl rfl
    (hstack.replace hsuffix hssl (fun hp => hpending.symm.trans hp) hstarting) ?_
    (fun f hf hst => ?_) fun f hf hr => ?_
  · rw [hs, promoting_cons, promoting_cons, hpending]
  · rcases List.mem_cons.1 hf with rfl | hf
    · exact h.starting fr hmem (hstarting hst)
    · exact h.starting f (by rw [hs]; exact List.mem_cons_of_mem _ hf) hst
  · rcases List.mem_cons.1 hf with rfl | hf
    · exact hreaching hr
    · exact h.reaching f (by rw [hs]; exact List.mem_cons_of_mem _ hf) hr

/-- The `SslHandler` is one of the handlers of the pipeline. -/
theorem ssl_mem (p : TcpPipeline) : Handler.ssl ∈ p.handlers := by
  obtain ⟨front, back, heq, -⟩ := p.before
  rw [heq]
  exact List.mem_append_right _ List.mem_cons_self

/-- `onMessage` or `onClose` starts at the head of the chain. -/
theorem OrderInv.start (h : s.OrderInv p) {func : HandlerFunc} (hfunc : func ≠ onConnection)
    (hopened : s.opened = true) (closed : Bool) :
    ({ s with closed := closed, stack := .invoke func p.handlers :: s.stack } : Session).OrderInv
      p := by
  have hpending : (Frame.invoke func p.handlers).pending p = false := by
    cases func with
    | onConnection => exact absurd rfl hfunc
    | _ => rfl
  have hstarting : (Frame.invoke func p.handlers).starting = false := by
    cases func with
    | onConnection => exact absurd rfl hfunc
    | _ => rfl
  refine h.setStack hopened rfl rfl rfl (h.stack.cons ?_ ?_ ?_ ?_) ?_ (fun f hf hst => ?_)
    fun f hf hr => ?_
  · exact List.suffix_refl _
  · exact fun n rest he => by cases he
  · exact fun hp => absurd hp (by rw [hpending]; simp)
  · exact fun hst => absurd hst (by rw [hstarting]; simp)
  · exact promoting_of_not_pending hpending
  · rcases List.mem_cons.1 hf with rfl | hf
    · rw [hstarting] at hst
      cases hst
    · exact h.starting f hf hst
  · rcases List.mem_cons.1 hf with rfl | hf
    · simp [Frame.reaching, ssl_mem] at hr
    · exact h.reaching f hf hr

/-! ### The steps -/

/-- A connection that has seen no event yet. -/
theorem orderInv_new : new.OrderInv p := by
  refine ⟨⟨?_, ?_, trivial, ?_, ?_⟩, ?_, ?_, ?_, ?_, ?_, ?_, ?_, justified_nil⟩ <;>
    simp [new, Promoting, Connected]

/-- The connection is made, and its handlers are called one after another. -/
theorem OrderInv.onConnection (h : s.OrderInv p) (hopened : s.opened = false) :
    ({ s with opened := true, stack := .invoke .onConnection p.handlers :: s.stack } :
      Session).OrderInv p := by
  obtain ⟨hstack, hssl⟩ := h.fresh hopened
  have hpending : (Frame.invoke .onConnection p.handlers).pending p = false := by
    simp [Frame.pending, ssl_mem]
  refine h.setStack rfl rfl rfl rfl (h.stack.cons ?_ ?_ ?_ ?_) ?_ (fun _ _ _ => hssl)
    fun f hf hr => ?_
  · exact List.suffix_refl _
  · exact fun n rest he => by cases he
  · exact fun hp => absurd hp (by rw [hpending]; simp)
  · rw [hstack]
    exact fun _ f hf => by cases hf
  · exact promoting_of_not_pending hpending
  · rcases List.mem_cons.1 hf with rfl | hf
    · simp [Frame.reaching] at hr
    · exact h.reaching f hf hr

/-- **The promotion comes to `h`.** -/
theorem OrderInv.promote (h : s.OrderInv p)
    (hs : s.stack = .invoke .onConnection (.other p.h :: rest) :: fs) :
    ({ s with
      stack := .handler p.h .onConnection rest :: fs
      log := s.log ++ [(p.h, .onConnection)] } : Session).OrderInv p := by
  have hstack := h.stack
  rw [hs] at hstack
  have hsuffix : Handler.other p.h :: rest <:+ p.handlers := hstack.suffix _ List.mem_cons_self
  have hssl := TcpPipeline.ssl_not_after_h hsuffix
  have hh := TcpPipeline.after_h hsuffix
  have hpending : (Frame.invoke .onConnection (.other p.h :: rest)).pending p = true := by
    simp [Frame.pending, hssl]
  obtain ⟨hconnected, hnot⟩ := h.pending (by rw [hs, promoting_cons]; exact Or.inl hpending)
  have hdone : ¬ Promoting p (Frame.handler p.h .onConnection rest :: fs) := by
    rw [promoting_cons]
    rintro (hp | hp)
    · simp [Frame.pending, hh] at hp
    · exact hstack.alone hpending hp
  have hnew : (p.h, HandlerFunc.onConnection) ∈ s.log ++ [(p.h, HandlerFunc.onConnection)] :=
    List.mem_append_right _ List.mem_cons_self
  refine ⟨hstack.pop.cons ?_ ?_ ?_ ?_, fun ho => ?_, fun f hf hst => ?_, fun _ _ _ => hnew,
    fun hp => absurd hp hdone, fun _ _ => hnew, fun hc => absurd hconnected hc, ?_, ?_⟩
  · exact (List.suffix_cons ..).trans hsuffix
  · exact fun n rest he => by cases he
  · intro hp
    simp [Frame.pending, hh] at hp
  · intro hst
    simp [Frame.starting, hssl] at hst
  · exact absurd ((h.opened hs).symm.trans ho) (by simp)
  · rcases List.mem_cons.1 hf with rfl | hf
    · simp [Frame.starting, hssl] at hst
    · exact h.starting f (by rw [hs]; exact List.mem_cons_of_mem _ hf) hst
  · rw [List.count_append, List.count_eq_zero_of_not_mem hnot]
    simp
  · exact h.first.concat fun hc => by simp at hc

/-- Another callback: of another handler, or of `h` when it has been
introduced. -/
theorem OrderInv.call (h : s.OrderInv p) {x : ℕ} {func : HandlerFunc}
    (hs : s.stack = .invoke func (.other x :: rest) :: fs)
    (hx : ¬ (x = p.h ∧ func = .onConnection)) :
    ({ s with stack := .handler x func rest :: fs, log := s.log ++ [(x, func)] } :
      Session).OrderInv p := by
  have hsuffix : Handler.other x :: rest <:+ p.handlers :=
    h.stack.suffix (.invoke func (.other x :: rest)) (by rw [hs]; exact List.mem_cons_self)
  have hne : (p.h, HandlerFunc.onConnection) ≠ (x, func) := fun he => by
    cases he
    exact hx ⟨rfl, rfl⟩
  -- the frame plays the part it played before the call
  have hpending : (Frame.handler x func rest).pending p =
      (Frame.invoke func (.other x :: rest)).pending p := by
    cases func with
    | onConnection =>
      have hxh : p.h ≠ x := fun he => hx ⟨he.symm, rfl⟩
      simp [Frame.pending, hxh]
    | _ => rfl
  have hstarting : (Frame.handler x func rest).starting = true →
      (Frame.invoke func (.other x :: rest)).starting = true := by
    cases func with
    | onConnection => simp [Frame.starting]
    | _ => exact fun hst => hst
  have hold : (Frame.handler x func rest).reaching p = true →
      (p.h, HandlerFunc.onConnection) ∈ s.log := by
    intro hr
    refine h.reaching _ (by rw [hs]; exact List.mem_cons_self) ?_
    simp only [Frame.reaching, decide_eq_true_eq] at hr ⊢
    refine ⟨hr.1, ?_, List.mem_cons_of_mem _ hr.2.2⟩
    simpa using hr.2.1
  have hstay : ({ s with stack := .handler x func rest :: fs } : Session).OrderInv p :=
    h.replace hs ((List.suffix_cons ..).trans hsuffix) (fun n rest he => by cases he) hpending
      hstarting hold
  have hmem : (p.h, HandlerFunc.onConnection) ∈ s.log ++ [(x, func)] ↔
      (p.h, HandlerFunc.onConnection) ∈ s.log := by
    simp [hne]
  refine ⟨hstay.stack, hstay.fresh, hstay.starting, fun f hf hr => hmem.2 (hstay.reaching f hf hr),
    fun hp => ?_, fun hc hn => hmem.2 (hstay.connected hc hn), fun hc => ?_, ?_, ?_⟩
  · obtain ⟨hc, hnot⟩ := hstay.pending hp
    exact ⟨hc, fun hm => hnot (hmem.1 hm)⟩
  · obtain ⟨hnot, hrest⟩ := hstay.connecting hc
    exact ⟨fun hm => hnot (hmem.1 hm), hrest⟩
  · dsimp only
    rw [List.count_append, List.count_singleton, if_neg (by simpa using hne.symm), Nat.add_zero]
    exact h.once
  · refine h.first.concat fun hcall => ?_
    have hfunc : x = p.h ∧ func ≠ .onConnection := by
      rcases hcall with hcall | hcall <;> cases hcall <;> simp
    refine h.reaching (.invoke func (.other x :: rest)) (by rw [hs]; exact List.mem_cons_self) ?_
    rw [hfunc.1] at hsuffix ⊢
    have hssl := TcpPipeline.ssl_not_after_h hsuffix
    simp [Frame.reaching, hfunc.2, hssl]

/-- `SslCodec::onConnection`. -/
theorem OrderInv.sslConnection (h : s.OrderInv p)
    (hs : s.stack = .invoke .onConnection (.ssl :: rest) :: fs) :
    ({ s with
      stack := fs
      ssl := some { status := .CONNECTING, decryptData := 0 } } : Session).OrderInv p := by
  have hstack := h.stack
  rw [hs] at hstack
  have hstarting : (Frame.invoke .onConnection (.ssl :: rest)).starting = true := by
    simp [Frame.starting]
  have hnone : s.ssl = none := by
    refine h.starting _ ?_ hstarting
    rw [hs]
    exact List.mem_cons_self
  have hidle : ¬ s.Connected := by
    rintro ⟨ssl, hssl, -⟩
    rw [hnone] at hssl
    cases hssl
  obtain ⟨hnot, hdecrypted, -⟩ := h.connecting hidle
  have hquiet : ¬ Promoting p fs := fun hp =>
    hidle (h.pending (by rw [hs, promoting_cons]; exact Or.inr hp)).1
  have hstill : ¬ Connected { s with
      stack := fs, ssl := some { status := .CONNECTING, decryptData := 0 } } := by
    rintro ⟨ssl, hssl, hst⟩
    cases hssl
    cases hst
  refine ⟨hstack.pop, fun ho => ?_, fun f hf hst => ?_, fun f hf hr => ?_,
    fun hp => absurd hp hquiet, fun hc => absurd hc hstill,
    fun _ => ⟨hnot, hdecrypted, fun ssl hssl => ?_⟩, h.once, h.first⟩
  · exact absurd ((h.opened hs).symm.trans ho) (by simp)
  · rw [hstack.alone_starting hstarting f hf] at hst
    cases hst
  · exact h.reaching f (by rw [hs]; exact List.mem_cons_of_mem _ hf) hr
  · cases hssl
    rfl

/-- The call of `SslCodec::onMessage`. -/
theorem OrderInv.sslMessage (h : s.OrderInv p)
    (hs : s.stack = .invoke .onMessage (.ssl :: rest) :: fs) (hquiet : ¬ Promoting p s.stack) :
    ({ s with stack := .sslMessage n rest :: fs } : Session).OrderInv p := by
  have hstack := h.stack
  rw [hs] at hstack
  have hsuffix : Handler.ssl :: rest <:+ p.handlers := hstack.suffix _ List.mem_cons_self
  have hquiet' : ¬ Promoting p fs := fun hp => hquiet (by rw [hs, promoting_cons]; exact Or.inr hp)
  refine h.setStack (h.opened hs) rfl rfl rfl (hstack.pop.cons ?_ ?_ ?_ ?_) ?_
    (fun f hf hst => ?_) fun f hf hr => ?_
  · exact (List.suffix_cons ..).trans hsuffix
  · rintro m rest' he
    cases he
    exact ⟨hquiet', TcpPipeline.after_ssl hsuffix⟩
  · exact fun hp => by cases hp
  · exact fun hst => by cases hst
  · exact iff_of_false (fun hp => hquiet' ((promoting_of_not_pending rfl).1 hp)) hquiet
  · rcases List.mem_cons.1 hf with rfl | hf
    · cases hst
    · exact h.starting f (by rw [hs]; exact List.mem_cons_of_mem _ hf) hst
  · rcases List.mem_cons.1 hf with rfl | hf
    · cases hr
    · exact h.reaching f (by rw [hs]; exact List.mem_cons_of_mem _ hf) hr

/-- `invoke` goes on. -/
theorem OrderInv.next (h : s.OrderInv p) (hgood : s.Good p (.next n))
    (hnext : s.next n = some s') : s'.OrderInv p := by
  unfold Session.next at hnext
  split at hnext
  case h_1 func fs hs =>
    obtain rfl := Option.some.inj hnext
    exact h.pop hs (by cases func <;> simp [Frame.pending])
  case h_2 func x rest fs hs =>
    obtain rfl := Option.some.inj hnext
    by_cases hx : x = p.h ∧ func = .onConnection
    · obtain ⟨rfl, rfl⟩ := hx
      exact h.promote hs
    · exact h.call hs hx
  case h_3 rest fs hs =>
    obtain rfl := Option.some.inj hnext
    exact h.sslConnection hs
  case h_4 rest fs hs =>
    split at hnext
    case isTrue =>
      obtain rfl := Option.some.inj hnext
      simp only [Good, hs] at hgood
      exact h.sslMessage hs (by rw [hs]; exact hgood)
    case isFalse => cases hnext
  case h_5 rest fs hs =>
    obtain rfl := Option.some.inj hnext
    simp only [Good, hs] at hgood
    obtain ⟨hconnected, hquiet⟩ := hgood
    rw [← hs] at hquiet
    have hsuffix : Handler.ssl :: rest <:+ p.handlers :=
      h.stack.suffix (.invoke .onClose (.ssl :: rest)) (by rw [hs]; exact List.mem_cons_self)
    exact h.replace hs ((List.suffix_cons ..).trans hsuffix) (fun n rest he => by cases he) rfl
      (fun hst => by cases hst) fun _ => h.connected hconnected hquiet
  case h_6 => cases hnext

/-- A callback returns. -/
theorem OrderInv.ret (h : s.OrderInv p) {isNext : Bool} (hgood : s.Good p (.ret isNext))
    (hret : s.ret isNext = some s') : s'.OrderInv p := by
  unfold Session.ret at hret
  split at hret
  case h_2 => cases hret
  case h_1 x func rest fs hs =>
    obtain rfl := Option.some.inj hret
    cases isNext with
    | true =>
      have hmem : Frame.handler x func rest ∈ s.stack := by
        rw [hs]
        exact List.mem_cons_self
      exact h.replace hs (h.stack.suffix (.handler x func rest) hmem)
        (fun n rest he => by cases he)
        (by cases func <;> rfl) (by cases func <;> exact fun hst => hst) fun hr =>
          h.reaching _ hmem hr
    | false =>
      refine h.pop hs ?_
      cases hp : (Frame.handler x func rest).pending p with
      | false => rfl
      | true =>
        simp only [Good, hs] at hgood
        cases hgood hp

/-- A callback takes decrypted bytes. -/
theorem OrderInv.consume (h : s.OrderInv p) (hconsume : s.consume n = some s') :
    s'.OrderInv p := by
  unfold Session.consume at hconsume
  split at hconsume
  case h_2 => cases hconsume
  case h_1 ssl hs hssl =>
    obtain rfl := Option.some.inj hconsume
    have hconnected : Connected { s with
        ssl := some { ssl with decryptData := ssl.decryptData - n } } ↔ s.Connected := by
      simp [Connected, hssl]
    refine ⟨h.stack, fun ho => ?_, fun f hf hst => ?_, h.reaching, fun hp => ?_, fun hc => ?_,
      fun hc => ?_, h.once, h.first⟩
    · exact absurd ((h.opened hs).symm.trans ho) (by simp)
    · have := h.starting f hf hst
      rw [hssl] at this
      cases this
    · rw [hconnected]
      exact h.pending hp
    · exact h.connected (hconnected.1 hc)
    · obtain ⟨hnot, hdecrypted, hzero⟩ := h.connecting fun hs => hc (hconnected.2 hs)
      refine ⟨hnot, hdecrypted, fun ssl' hssl' => ?_⟩
      have := hzero ssl hssl
      cases hssl'
      dsimp only
      omega

/-- `SslCodec::onMessage` runs while no promotion is on its way. -/
theorem OrderInv.quiet (h : s.OrderInv p) (hs : s.stack = .sslMessage n rest :: fs) :
    ¬ Promoting p fs ∧ ¬ Promoting p s.stack := by
  have hnested := h.stack.nested
  rw [hs] at hnested ⊢
  exact ⟨hnested.1, fun hp => hnested.1 ((promoting_of_not_pending rfl).1 hp)⟩

/-- The end of `SslCodec::onMessage`: there is data only after the promotion. -/
theorem OrderInv.deliver (h : s.OrderInv p) (hdeliver : s.deliver = some s') :
    s'.OrderInv p := by
  unfold Session.deliver at hdeliver
  split at hdeliver
  case h_2 => cases hdeliver
  case h_1 rest fs ssl hs hssl =>
    obtain rfl := Option.some.inj hdeliver
    by_cases hdata : ssl.decryptData > 0
    · rw [if_pos hdata]
      have hconnected : s.Connected := by
        by_contra hn
        have := (h.connecting hn).2.2 ssl hssl
        omega
      have hmem : Frame.sslMessage 0 rest ∈ s.stack := by
        rw [hs]
        exact List.mem_cons_self
      exact h.replace hs (h.stack.suffix (.sslMessage 0 rest) hmem) (fun n rest he => by cases he)
        rfl (fun hst => by cases hst) fun _ => h.connected hconnected (h.quiet hs).2
    · rw [if_neg hdata]
      exact h.pop hs rfl

/-- What one round of the loop leaves: the promotion of the rest of the chain, or
the loop or its end with the status as it was. -/
theorem decrypt_cases {r : Decrypt} (hd : s.decrypt r = some s') :
    ∃ readable rest fs ssl, s.stack = .sslMessage readable rest :: fs ∧ s.ssl = some ssl ∧
      s'.opened = s.opened ∧ s'.log = s.log ∧
      s'.decrypted = (s.decrypted || decide (SslHandler.data r > 0)) ∧
      ((ssl.status = .CONNECTING ∧
          s'.ssl =
            some { status := .CONNECTED, decryptData := ssl.decryptData + SslHandler.data r } ∧
          ∃ remain, s'.stack = .invoke .onConnection rest :: .sslMessage remain rest :: fs) ∨
        (s'.ssl = some { ssl with decryptData := ssl.decryptData + SslHandler.data r } ∧
          ¬ (ssl.status = .CONNECTING ∧ 0 < SslHandler.data r ∧
            SslHandler.getSslStatus r.error = .SSL_WANT ∧ r.initFinished = true) ∧
          (s'.stack = fs ∨ ∃ remain, s'.stack = .sslMessage remain rest :: fs))) := by
  unfold Session.decrypt at hd
  split at hd
  case h_2 => cases hd
  case h_1 readable rest fs ssl hs hssl =>
    refine ⟨readable, rest, fs, ssl, hs, hssl, ?_⟩
    split at hd
    case isTrue => cases hd
    case isFalse =>
      unfold SslHandler.decrypt at hd
      by_cases hw : r.written ≤ 0
      · have hdata : SslHandler.data r = 0 := if_pos hw
        rw [if_pos hw] at hd
        obtain rfl := Option.some.inj hd
        exact ⟨rfl, rfl, rfl, Or.inr ⟨by rw [hdata]; rfl, by simp [hdata], Or.inl rfl⟩⟩
      · have hdata : SslHandler.data r = SslHandler.sslRead r.reads := if_neg hw
        rw [if_neg hw, ← hdata] at hd
        dsimp only at hd
        split at hd
        case h_1 hwant =>
          split_ifs at hd with hfin hst
          · obtain rfl := Option.some.inj hd
            exact ⟨rfl, rfl, rfl, Or.inr ⟨rfl, fun hc => by simp [hc.2.2.2] at hfin, Or.inl rfl⟩⟩
          · obtain rfl := Option.some.inj hd
            exact ⟨rfl, rfl, rfl, Or.inl ⟨hst, rfl, _, rfl⟩⟩
          · obtain rfl := Option.some.inj hd
            exact ⟨rfl, rfl, rfl, Or.inr ⟨rfl, fun hc => hst hc.1, Or.inr ⟨_, rfl⟩⟩⟩
        case h_2 hfail =>
          obtain rfl := Option.some.inj hd
          refine ⟨rfl, rfl, rfl, Or.inr ⟨rfl, fun hc => ?_, Or.inl rfl⟩⟩
          rw [hfail] at hc
          cases hc.2.2.1
        case h_3 hok =>
          obtain rfl := Option.some.inj hd
          refine ⟨rfl, rfl, rfl, Or.inr ⟨rfl, fun hc => ?_, Or.inr ⟨_, rfl⟩⟩⟩
          rw [hok] at hc
          cases hc.2.2.1
        case h_4 hclose =>
          obtain rfl := Option.some.inj hd
          refine ⟨rfl, rfl, rfl, Or.inr ⟨rfl, fun hc => ?_, Or.inr ⟨_, rfl⟩⟩⟩
          rw [hclose] at hc
          cases hc.2.2.1

section Round

variable {ssl ssl' : SslHandler}

/-- The loop goes on, with any number of bytes to come. -/
theorem OrderInv.loop (h : s.OrderInv p) (hs : s.stack = .sslMessage n rest :: fs) (remain : ℕ) :
    StackInv p (.sslMessage remain rest :: fs) := by
  have hmem : Frame.sslMessage n rest ∈ s.stack := by
    rw [hs]
    exact List.mem_cons_self
  obtain ⟨hnossl, hh⟩ := h.stack.behind n rest hmem
  have hstack := h.stack
  rw [hs] at hstack
  refine hstack.pop.cons (h.stack.suffix (.sslMessage n rest) hmem) ?_ (fun hp => by cases hp)
    fun hst => by cases hst
  rintro m rest' ⟨⟩
  exact ⟨(h.quiet hs).1, hnossl, hh⟩

/-- With an `SslHandler` there, no frame is about to make one. -/
theorem OrderInv.not_starting (h : s.OrderInv p) (hssl : s.ssl = some ssl) :
    ∀ f ∈ s.stack, f.starting ≠ true := by
  intro f hf hst
  have hnone := h.starting f hf hst
  rw [hssl] at hnone
  cases hnone

/-- A connection with frames on its stack has been made, and a step does not
undo this. -/
theorem OrderInv.not_fresh (h : s.OrderInv p) (hs : s.stack = fr :: fs)
    (hopened : s'.opened = s.opened) : s'.opened = false → s'.stack = [] ∧ s'.ssl = none := by
  intro ho
  rw [hopened, h.opened hs] at ho
  cases ho

/-- **The promotion starts.** -/
theorem OrderInv.startPromotion {remain : ℕ} (h : s.OrderInv p)
    (hs : s.stack = .sslMessage n rest :: fs) (hssl : s.ssl = some ssl)
    (hst : ssl.status = .CONNECTING) (hopened : s'.opened = s.opened) (hlog : s'.log = s.log)
    (hssl' : s'.ssl = some ssl') (hst' : ssl'.status = .CONNECTED)
    (hs' : s'.stack = .invoke .onConnection rest :: .sslMessage remain rest :: fs) :
    s'.OrderInv p := by
  have htail : ∀ f ∈ fs, f ∈ s.stack := fun f hf => hs ▸ List.mem_cons_of_mem _ hf
  have hmem : Frame.sslMessage n rest ∈ s.stack := by
    rw [hs]
    exact List.mem_cons_self
  obtain ⟨hnossl, hh⟩ := h.stack.behind n rest hmem
  have hidle : ¬ s.Connected := by
    rintro ⟨ssl₁, hssl₁, hst₁⟩
    obtain rfl := Option.some.inj (hssl.symm.trans hssl₁)
    rw [hst] at hst₁
    cases hst₁
  have hpending : (Frame.invoke .onConnection rest).pending p = true := by
    simp [Frame.pending, hnossl, hh]
  have hnotstart : (Frame.invoke .onConnection rest).starting ≠ true := by
    simp [Frame.starting, hnossl]
  have hnotreach : (Frame.invoke .onConnection rest).reaching p ≠ true := by
    simp [Frame.reaching]
  have hpromoting : Promoting p s'.stack := by
    rw [hs', promoting_cons]
    exact Or.inl hpending
  have hconnected : s'.Connected := ⟨_, hssl', hst'⟩
  refine ⟨?_, h.not_fresh hs hopened, fun f hf hstart => ?_, fun f hf hr => ?_,
    fun _ => ⟨hconnected, ?_⟩, fun _ hn => absurd hpromoting hn, fun hc => absurd hconnected hc,
    ?_, ?_⟩
  · rw [hs']
    refine (h.loop hs remain).cons (h.stack.suffix (.sslMessage n rest) hmem)
      (fun m rest' he => by cases he)
      (fun _ hp => ?_) fun hstart => absurd hstart hnotstart
    exact (h.quiet hs).1 ((promoting_of_not_pending rfl).1 hp)
  · rw [hs'] at hf
    rcases List.mem_cons.1 hf with rfl | hf
    · exact absurd hstart hnotstart
    · rcases List.mem_cons.1 hf with rfl | hf
      · cases hstart
      · exact absurd hstart (h.not_starting hssl f (htail f hf))
  · rw [hs'] at hf
    rw [hlog]
    rcases List.mem_cons.1 hf with rfl | hf
    · exact absurd hr hnotreach
    · rcases List.mem_cons.1 hf with rfl | hf
      · cases hr
      · exact h.reaching f (htail f hf) hr
  · rw [hlog]
    exact (h.connecting hidle).1
  · rw [hlog]
    exact h.once
  · rw [hlog]
    exact h.first

/-- **A round after which the status is as before**: it brings no data while the
status is `CONNECTING`. -/
theorem OrderInv.round (h : s.OrderInv p) (hs : s.stack = .sslMessage n rest :: fs)
    (hssl : s.ssl = some ssl) (hopened : s'.opened = s.opened) (hlog : s'.log = s.log)
    (hssl' : s'.ssl = some ssl') (hst : ssl'.status = ssl.status)
    (hdata : ssl.status = .CONNECTING →
      ssl'.decryptData = ssl.decryptData ∧ s'.decrypted = s.decrypted)
    (hs' : s'.stack = fs ∨ ∃ remain, s'.stack = .sslMessage remain rest :: fs) :
    s'.OrderInv p := by
  obtain ⟨hquiet, hquiet'⟩ := h.quiet hs
  have htail : ∀ f ∈ fs, f ∈ s.stack := fun f hf => hs ▸ List.mem_cons_of_mem _ hf
  have hconnected : s'.Connected ↔ s.Connected := by
    simp [Connected, hssl, hssl', hst]
  have hstack : StackInv p s'.stack ∧ ¬ Promoting p s'.stack ∧
      (∀ f ∈ s'.stack, f ∈ fs ∨ ∃ remain, f = .sslMessage remain rest) := by
    rcases hs' with hs' | ⟨remain, hs'⟩
    · rw [hs']
      exact ⟨(h.loop hs 0).pop, hquiet, fun f hf => Or.inl hf⟩
    · rw [hs']
      refine ⟨h.loop hs remain, fun hp => hquiet ((promoting_of_not_pending rfl).1 hp),
        fun f hf => ?_⟩
      exact (List.mem_cons.1 hf).symm.imp_right fun he => ⟨remain, he⟩
  obtain ⟨hstack', hquiet₂, hframes⟩ := hstack
  refine ⟨hstack', h.not_fresh hs hopened, fun f hf hstart => ?_, fun f hf hr => ?_,
    fun hp => absurd hp hquiet₂, fun hc _ => ?_, fun hc => ?_, ?_, ?_⟩
  · rcases hframes f hf with hf | ⟨remain, rfl⟩
    · exact absurd hstart (h.not_starting hssl f (htail f hf))
    · cases hstart
  · rw [hlog]
    rcases hframes f hf with hf | ⟨remain, rfl⟩
    · exact h.reaching f (htail f hf) hr
    · cases hr
  · rw [hlog]
    exact h.connected (hconnected.1 hc) hquiet'
  · have hidle : ¬ s.Connected := fun hcon => hc (hconnected.2 hcon)
    obtain ⟨hnolog, hnodata, hzero⟩ := h.connecting hidle
    have hconnecting : ssl.status = .CONNECTING := by
      rcases hstatus : ssl.status with _ | _
      · rfl
      · exact absurd ⟨ssl, hssl, hstatus⟩ hidle
    obtain ⟨hsame, hdecrypted⟩ := hdata hconnecting
    refine ⟨by rw [hlog]; exact hnolog, by rw [hdecrypted]; exact hnodata, fun ssl₁ hssl₁ => ?_⟩
    obtain rfl := Option.some.inj (hssl'.symm.trans hssl₁)
    rw [hsame]
    exact hzero ssl hssl
  · rw [hlog]
    exact h.once
  · rw [hlog]
    exact h.first

end Round

/-- **A round of the loop**: data that comes while the status is `CONNECTING`
comes with the promotion. -/
theorem OrderInv.decrypt (h : s.OrderInv p) {r : Decrypt} (hgood : s.Good p (.decrypt r))
    (hd : s.decrypt r = some s') : s'.OrderInv p := by
  obtain ⟨readable, rest, fs, ssl, hs, hssl, hopened, hlog, hdecrypted, hcase⟩ := decrypt_cases hd
  rcases hcase with ⟨hst, hssl', remain, hs'⟩ | ⟨hssl', hnot, hs'⟩
  · exact h.startPromotion hs hssl hst hopened hlog hssl' rfl hs'
  · refine h.round hs hssl hopened hlog hssl' rfl (fun hst => ?_) hs'
    have hdata : SslHandler.data r = 0 := by
      rcases Nat.eq_zero_or_pos (SslHandler.data r) with hz | hpos
      · exact hz
      · simp only [Good, hssl] at hgood
        exact absurd ⟨hst, hpos, hgood hst hpos⟩ hnot
    rw [hdata] at hdecrypted
    exact ⟨congrArg (ssl.decryptData + ·) hdata, by simpa using hdecrypted⟩

/-- A good step keeps the invariant. -/
theorem orderInv_step {i : Input} (h : s.OrderInv p) (hgood : s.Good p i)
    (hstep : step p s i = some s') : s'.OrderInv p := by
  cases i with
  | onConnection =>
    simp only [step] at hstep
    split at hstep
    case isTrue => cases hstep
    case isFalse ho =>
      obtain rfl := Option.some.inj hstep
      exact h.onConnection (by simpa using ho)
  | onMessage =>
    simp only [step] at hstep
    split at hstep
    case isFalse => cases hstep
    case isTrue ho =>
      obtain rfl := Option.some.inj hstep
      simp only [Bool.and_eq_true] at ho
      exact h.start (by simp) ho.1.1 s.closed
  | onClose =>
    simp only [step] at hstep
    split at hstep
    case isFalse => cases hstep
    case isTrue ho =>
      obtain rfl := Option.some.inj hstep
      simp only [Bool.and_eq_true] at ho
      exact h.start (by simp) ho.1.1 true
  | next readable => exact h.next hgood hstep
  | ret isNext => exact h.ret hgood hstep
  | consume n => exact h.consume hstep
  | decrypt r => exact h.decrypt hgood hstep
  | deliver => exact h.deliver hstep

/-- **The callbacks of `h` are in order in every state of a run of good steps**:
`onConnection` comes at most once, it comes before any `onMessage` or `onClose`, and
it has come when the handshake is finished and data was decrypted.  A callback may
call the pipeline again before it returns. -/
theorem ordered_run (p : TcpPipeline) (is : List Input)
    (hgood : Steps (step p) (fun s i => s.Good p i) new is) :
    Always (step p) (fun s => s.Ordered p) new is := by
  have hkeep : ∀ s i s', s.OrderInv p → s.Good p i → step p s i = some s' → s'.OrderInv p :=
    fun s i s' h hgood hstep => orderInv_step h hgood hstep
  exact (always_of_steps hkeep orderInv_new hgood).mono fun s h => h.ordered

/-- `SslCodec` and a handler behind it. -/
def twoHandlers : TcpPipeline where
  handlers := [.ssl, .other 0]
  h := 0
  nodup := by decide
  before := ⟨[], [.other 0], rfl, by decide⟩

/-- A handshake in two reads, the second with data, and then the close. -/
def handshakeDataClose : List Input :=
  [.onConnection, .next 0,
    .onMessage, .next 300, .decrypt ⟨300, [], .SSL_ERROR_WANT_READ, false, false⟩,
    .onMessage, .next 200, .decrypt ⟨200, [5], .SSL_ERROR_WANT_READ, true, true⟩,
    .next 0, .ret true, .next 0, .deliver, .next 0, .consume 5, .ret true, .next 0,
    .onClose, .next 0, .next 0, .ret true, .next 0]

/-- The whole run is ordered. -/
theorem ordered_handshakeDataClose :
    Always (step twoHandlers) (fun s => s.Ordered twoHandlers) new handshakeDataClose := by
  refine ordered_run twoHandlers handshakeDataClose ?_
  refine .cons trivial rfl (.cons trivial rfl ?_)
  -- the first read
  refine .cons trivial rfl (.cons (show ¬ Promoting _ _ from of_decide_eq_true rfl) rfl ?_)
  refine .cons (fun _ hdata => absurd hdata (Nat.lt_irrefl 0)) rfl ?_
  -- the second one, with the promotion
  refine .cons trivial rfl (.cons (show ¬ Promoting _ _ from of_decide_eq_true rfl) rfl ?_)
  refine .cons (fun _ _ => ⟨rfl, rfl⟩) rfl ?_
  refine .cons trivial rfl (.cons (fun _ => rfl) rfl (.cons trivial rfl (.cons trivial rfl ?_)))
  refine .cons trivial rfl (.cons trivial rfl (.cons (fun _ => rfl) rfl (.cons trivial rfl ?_)))
  -- the close
  refine .cons trivial rfl (.cons ⟨⟨_, rfl, rfl⟩, of_decide_eq_true rfl⟩ rfl (.cons trivial rfl ?_))
  exact .cons (fun _ => rfl) rfl (.cons trivial rfl trivial)

/-- The peer closes the connection before the handshake is done. -/
def closeBeforeHandshake : List Input :=
  [.onConnection, .next 0, .onClose, .next 0, .next 0]

/-- Not every run is in order: the peer closes before the handshake is finished, and
`h` sees `onClose` without an `onConnection` before it. -/
theorem close_before_handshake :
    ¬ ∀ p is, Always (step p) (fun s => s.Ordered p) new is := by
  intro h
  have hrun : ∃ s, run (step twoHandlers) new closeBeforeHandshake = some s ∧
      s.log = [(0, onClose)] := ⟨_, rfl, rfl⟩
  obtain ⟨s, hs, hlog⟩ := hrun
  have hfirst := ((h twoHandlers closeBeforeHandshake).last hs).first
  have := hfirst [] (0, onClose) [] hlog (Or.inr rfl)
  cases this

/-- One read with the end of the handshake, data and `close_notify`. -/
def closeNotifyWithData : List Input :=
  [.onConnection, .next 0, .onMessage, .next 100,
    .decrypt ⟨100, [5], .SSL_ERROR_ZERO_RETURN, true, true⟩, .deliver, .next 0]

-- `h` sees `onMessage`, and nothing before it.
example : ∃ s, run (step twoHandlers) new closeNotifyWithData = some s ∧
    s.log = [(0, onMessage)] := ⟨_, rfl, rfl⟩

end Session

end Ssl
end Net
end Sevent
