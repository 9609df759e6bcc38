/-
# What `SslCodec` leaves in the write BIO

`sevent/net/ssl/SslCodec.cpp`, `sevent/net/ssl/SslContext.cpp`.

OpenSSL puts what it wants to send into the write BIO, and the codec has to take
it out with `bioRead` and pass it to `conn->send`.  It does so where a handshake
is not finished (in `onConnection`, `onMessage` and `handleWrite`, on
`SSL_WANT`), and after an `SSL_write` with a positive result.  What an `SSL_read`
puts there on any other way out stays: the last flight of a handshake that this
very `SSL_read` finishes, and messages after the handshake.

The engine is the environment: each input of `step` holds what it returns and
the bytes it puts into the write BIO.  The handlers behind the codec are user
code, which may write and call the pipeline again.  `flush_iff` shows that a
run never returns from the codec with bytes in the write BIO if and only if
every output of the engine is drained in its own branch or in a later one
before that.
-/

import Sevent.Lib.Run
import Sevent.Net.Ssl.SslCodec
import Mathlib.Data.List.Infix

namespace Sevent
namespace Net
namespace Ssl
namespace Flush

open Transition

/-- What the engine does in a call of `SSL_do_handshake` or `SSL_write`: the
result and its error, whether `SSL_is_init_finished` holds afterwards, and the
bytes put into the write BIO. -/
structure Response where
  ret : ℤ
  error : SslError
  initFinished : Bool
  output : List UInt8
  deriving DecidableEq, Repr

/-- `SslHandler::getSslStatus`; a positive result has no error. -/
def Response.status (r : Response) : Status :=
  if 0 < r.ret then .SSL_OK else SslHandler.getSslStatus r.error

/-- A call of `SslCodec::onMessage` at the test of its loop, or in one of its two
calls of the handlers behind it. -/
inductive Frame
  | message
  | promotion
  | delivery
  deriving DecidableEq, Repr

/-- A connection: its `SslHandler`, the bytes of the input buffer, those in the
write BIO, all that the engine has put there and all that has been passed to
`conn->send`, the calls in progress, and both at every return from
`onConnection` or `onMessage` that did not report `SSL_FAIL`.  `responses` are
the outputs of the engine so far, each with whether the codec drains the write
BIO in that branch. -/
structure Conn where
  ssl : Option SslHandler
  readable : ℕ
  wbio : List UInt8
  produced : List UInt8
  sent : List UInt8
  responses : List (List UInt8 × Bool)
  stack : List Frame
  returned : List (List UInt8 × List UInt8)
  deriving DecidableEq, Repr

/-- What happens: the calls of the codec, each with what the engine does in it,
bytes that arrive, and returns of the user code. -/
inductive Input
  | onConnection (r : Response)
  | input (n : ℕ)
  | onMessage
  | decrypt (r : Decrypt) (output : List UInt8)
  | deliver
  | ret
  | consume (n : ℕ)
  | handleWrite (r : Response)
  deriving DecidableEq, Repr

namespace Conn

/-- A connection without a session yet. -/
def new : Conn where
  ssl := none
  readable := 0
  wbio := []
  produced := []
  sent := []
  responses := []
  stack := []
  returned := []

/-- The engine puts bytes into the write BIO. -/
def engine (s : Conn) (output : List UInt8) (drains : Bool) : Conn :=
  { s with
    wbio := s.wbio ++ output
    produced := s.produced ++ output
    responses := s.responses ++ [(output, drains)] }

/-- `SslHandler::bioRead`, and `conn->send` of the bytes. -/
def bioRead (s : Conn) : Conn := { s with wbio := [], sent := s.sent ++ s.wbio }

/-- The codec returns without `SSL_FAIL`. -/
def returns (s : Conn) : Conn := { s with returned := s.returned ++ [(s.produced, s.sent)] }

/-- No call of the codec is running, or a handler behind it is. -/
def inUserCode (s : Conn) : Bool :=
  match s.stack with
  | .message :: _ => false
  | _ => true

end Conn

/-- `SslCodec::onConnection`. -/
def onConnection (isClient : Bool) (s : Conn) (r : Response) : Option Conn :=
  if s.ssl.isSome then none
  else
    let s := { s with ssl := some { status := .CONNECTING, decryptData := 0 } }
    if isClient then
      match r.status with
      | .SSL_WANT => some (s.engine r.output true).bioRead.returns
      | .SSL_FAIL => some (s.engine r.output false)
      | .SSL_OK | .SSL_CLOSE => some (s.engine r.output false).returns
    else some s.returns

/-- The call of `decrypt` ends in the branch that drains the write BIO. -/
def decryptDrains (r : Decrypt) : Bool :=
  SslHandler.getSslStatus r.error = .SSL_WANT && !r.initFinished

/-- One round of the loop of `SslCodec::onMessage`. -/
def decrypt (s : Conn) (r : Decrypt) (output : List UInt8) : Option Conn :=
  match s.stack, s.ssl with
  | .message :: fs, some ssl =>
    if s.readable = 0 ∨ s.readable < r.written then none
    else if r.written ≤ 0 then some { s with stack := fs }
    else
      let (status, remain, ssl) := ssl.decrypt s.readable r
      let s := { s.engine output (decryptDrains r) with ssl := some ssl, readable := remain }
      match status with
      | .SSL_WANT =>
        if !r.initFinished then some { s.bioRead.returns with stack := fs }
        else if ssl.status = .CONNECTING then
          some { s with
            ssl := some { ssl with status := .CONNECTED }
            stack := .promotion :: s.stack }
        else some s
      | .SSL_FAIL => some { s with stack := fs }
      | .SSL_OK | .SSL_CLOSE => some s
  | _, _ => none

/-- The end of `SslCodec::onMessage`, after the loop. -/
def deliver (s : Conn) : Option Conn :=
  match s.stack, s.ssl with
  | .message :: fs, some ssl =>
    if s.readable ≠ 0 then none
    else if ssl.decryptData > 0 then some { s with stack := .delivery :: fs }
    else some { s.returns with stack := fs }
  | _, _ => none

/-- The handlers behind the codec return. -/
def ret (s : Conn) : Option Conn :=
  match s.stack with
  | .promotion :: fs => some { s with stack := fs }
  | .delivery :: fs => some { s.returns with stack := fs }
  | _ => none

/-- `SslCodec::handleWrite`, reached by user code that writes to the connection.
`SslCodec` is taken to be the head of the pipeline: what `encrypt` has put into
`enCryptData` then goes to the connection in the same call, through no other
handler. -/
def handleWrite (s : Conn) (r : Response) : Option Conn :=
  if s.ssl.isNone ∨ s.inUserCode = false then none
  else if 0 < r.ret then some (s.engine r.output true).bioRead
  else if r.status = .SSL_WANT ∧ r.initFinished = false then some (s.engine r.output true).bioRead
  else some (s.engine r.output false)

/-- What an input does: an event of the connection, a call of user code, or its
return. -/
def step (isClient : Bool) (s : Conn) : Input → Option Conn
  | .onConnection r => onConnection isClient s r
  | .input n => some { s with readable := s.readable + n }
  | .onMessage =>
    if s.ssl.isSome && s.inUserCode then some { s with stack := .message :: s.stack } else none
  | .decrypt r output => decrypt s r output
  | .deliver => deliver s
  | .ret => ret s
  | .consume n =>
    if s.inUserCode then
      some { s with ssl := s.ssl.map fun ssl => { ssl with decryptData := ssl.decryptData - n } }
    else none
  | .handleWrite r => handleWrite s r

/-- **All handshake bytes are flushed**: at every return, what the engine has put
into the write BIO has been passed to `conn->send`. -/
def Flushed (s : Conn) : Prop := ∀ r ∈ s.returned, r.2 = r.1

/-- Every output is drained in its own branch or in a later one. -/
def Drained (responses : List (List UInt8 × Bool)) : Prop :=
  ∀ r post, r :: post <:+ responses → r.1 ≠ [] → ∃ r' ∈ r :: post, r'.2 = true

/-- The output of the engine in `onConnection`: a server does not call it. -/
def opening (isClient : Bool) (r : Response) : List (List UInt8 × Bool) :=
  if isClient then [(r.output, decide (r.status = .SSL_WANT))] else []

/-- The condition on a step that returns from the codec without `SSL_FAIL`: the
outputs of the engine have been drained. -/
def Good (isClient : Bool) (s : Conn) : Input → Prop
  | .onConnection r => s.ssl = none → (isClient = true → r.status ≠ .SSL_FAIL) →
    Drained (s.responses ++ opening isClient r)
  | .deliver =>
    match s.stack, s.ssl with
    | .message :: _, some ssl => s.readable = 0 → ssl.decryptData = 0 → Drained s.responses
    | _, _ => True
  | .ret =>
    match s.stack with
    | .delivery :: _ => Drained s.responses
    | _ => True
  | _ => True

/-! ### Outputs that are not drained -/

/-- The bytes of the outputs since the last one that was drained. -/
def pending (responses : List (List UInt8 × Bool)) : List UInt8 :=
  responses.foldl (fun acc r => if r.2 then [] else acc ++ r.1) []

/-- What is pending after one more response of the engine: nothing when it is
drained, and otherwise its output behind what was there. -/
theorem pending_concat (rs : List (List UInt8 × Bool)) (r : List UInt8 × Bool) :
    pending (rs ++ [r]) = if r.2 then [] else pending rs ++ r.1 := by
  rw [pending, List.foldl_append]
  rfl

/-- After one more response everything is drained if this one is, or if it has
no output and all was drained before. -/
theorem drained_concat (rs : List (List UInt8 × Bool)) (r : List UInt8 × Bool) :
    Drained (rs ++ [r]) ↔ r.2 = true ∨ Drained rs ∧ r.1 = [] := by
  constructor
  · intro h
    by_cases hr : r.2 = true
    · exact Or.inl hr
    · refine Or.inr ⟨fun x post hsuffix hne => ?_, ?_⟩
      · obtain ⟨r', hmem, hr'⟩ := h x (post ++ [r])
          ((List.suffix_concat_iff).2 (Or.inr ⟨x :: post, rfl, hsuffix⟩)) hne
        rw [← List.cons_append, List.mem_append, List.mem_singleton] at hmem
        rcases hmem with hmem | rfl
        · exact ⟨r', hmem, hr'⟩
        · exact absurd hr' hr
      · by_contra hne
        obtain ⟨r', hmem, hr'⟩ := h r [] (List.suffix_append rs [r]) hne
        exact hr (List.mem_singleton.1 hmem ▸ hr')
  · intro h x post hsuffix hne
    rcases List.suffix_concat_iff.1 hsuffix with hnil | ⟨t, ht, htail⟩
    · cases hnil
    · cases t with
      | nil =>
        -- the output is the last one
        obtain ⟨rfl, rfl⟩ := List.cons.inj ht
        rcases h with hr | ⟨-, hnil⟩
        · exact ⟨x, List.mem_cons_self, hr⟩
        · exact absurd hnil hne
      | cons y t =>
        obtain ⟨rfl, rfl⟩ := List.cons.inj ht
        rcases h with hr | ⟨hold, -⟩
        · exact ⟨r, by simp, hr⟩
        · obtain ⟨r', hmem, hr'⟩ := hold x t htail hne
          exact ⟨r', List.mem_append_left [r] hmem, hr'⟩

/-- Nothing is pending exactly when everything is drained. -/
theorem pending_eq_nil (rs : List (List UInt8 × Bool)) : pending rs = [] ↔ Drained rs := by
  induction rs using List.reverseRecOn with
  | nil => exact iff_of_true rfl fun r post h => absurd (List.suffix_nil.1 h) (by simp)
  | append_singleton rs r ih =>
    rw [pending_concat, drained_concat, ← ih]
    split_ifs with hr
    · exact iff_of_true rfl (Or.inl hr)
    · rw [List.append_eq_nil_iff, or_iff_right hr]

/-! ### The invariant -/

/-- The write BIO holds the outputs that are not drained, and the rest has been
sent. -/
structure Accounted (s : Conn) : Prop where
  wbio : s.wbio = pending s.responses
  produced : s.produced = s.sent ++ s.wbio
  returned : Flushed s

variable {s s' : Conn}

/-- What has been sent is what the engine has produced when the write BIO is
empty. -/
theorem Accounted.sent_eq (h : Accounted s) : s.sent = s.produced ↔ Drained s.responses := by
  rw [h.produced, List.self_eq_append_right, h.wbio, pending_eq_nil]

/-- A return to the loop is flushed when all that was produced has been sent. -/
theorem flushed_returns : Flushed s.returns ↔ Flushed s ∧ s.sent = s.produced := by
  unfold Flushed Conn.returns
  rw [List.forall_mem_append, List.forall_mem_singleton]

/-- What has been accounted for stays so while none of these fields changes. -/
theorem Accounted.congr (h : Accounted s) (hwbio : s'.wbio = s.wbio)
    (hproduced : s'.produced = s.produced)
    (hsent : s'.sent = s.sent) (hresponses : s'.responses = s.responses)
    (hreturned : s'.returned = s.returned) : Accounted s' := by
  refine ⟨?_, ?_, ?_⟩
  · rw [hwbio, hresponses, h.wbio]
  · rw [hproduced, hsent, hwbio, h.produced]
  · intro r hr
    exact h.returned r (hreturned ▸ hr)

/-- An output of the engine that is left in the write BIO is pending. -/
theorem Accounted.engine (h : Accounted s) (output : List UInt8) :
    Accounted (s.engine output false) where
  wbio := by
    show s.wbio ++ output = pending (s.responses ++ [(output, false)])
    rw [pending_concat, h.wbio]
    rfl
  produced := by
    show s.produced ++ output = s.sent ++ (s.wbio ++ output)
    rw [h.produced, List.append_assoc]
  returned := h.returned

/-- An output of the engine that is drained is sent, and with it what was
pending. -/
theorem Accounted.drain (h : Accounted s) (output : List UInt8) :
    Accounted (s.engine output true).bioRead where
  wbio := by
    show [] = pending (s.responses ++ [(output, true)])
    rw [pending_concat]
    rfl
  produced := by
    show s.produced ++ output = s.sent ++ (s.wbio ++ output) ++ []
    rw [h.produced, List.append_assoc, List.append_nil]
  returned := h.returned

/-- A return with everything drained. -/
theorem Accounted.returns (h : Accounted s) (hdrained : Drained s.responses) :
    Accounted s.returns :=
  ⟨h.wbio, h.produced, flushed_returns.2 ⟨h.returned, h.sent_eq.2 hdrained⟩⟩

/-- A return with something in the write BIO. -/
theorem Accounted.not_flushed (h : Accounted s) (hnot : ¬ Drained s.responses) :
    ¬ Flushed s.returns :=
  fun hflushed => hnot (h.sent_eq.1 (flushed_returns.1 hflushed).2)

/-- A response that is drained leaves nothing. -/
theorem drained_drains (rs : List (List UInt8 × Bool)) (output : List UInt8) :
    Drained (rs ++ [(output, true)]) := (drained_concat rs _).2 (Or.inl rfl)

/-- A new connection has produced nothing. -/
theorem accounted_new : Accounted Conn.new := ⟨rfl, rfl, fun _ hr => absurd hr List.not_mem_nil⟩

/-! ### One step -/

/-- `onConnection` keeps the account, when the condition holds of what it
leaves. -/
theorem accounted_onConnection {isClient : Bool} {r : Response} (h : Accounted s)
    (hgood : Good isClient s (.onConnection r)) (hstep : onConnection isClient s r = some s') :
    Accounted s' := by
  have hopen : Accounted { s with ssl := some { status := .CONNECTING, decryptData := 0 } } :=
    h.congr rfl rfl rfl rfl rfl
  unfold onConnection at hstep
  by_cases hsome : s.ssl.isSome = true
  · rw [if_pos hsome] at hstep
    cases hstep
  rw [if_neg hsome] at hstep
  have hdrained := hgood (Option.not_isSome_iff_eq_none.1 hsome)
  cases isClient with
  | true =>
    simp only [↓reduceIte] at hstep
    cases hstatus : r.status with
    | SSL_WANT =>
      rw [hstatus] at hstep
      obtain rfl := Option.some.inj hstep
      exact (hopen.drain r.output).returns (drained_drains _ _)
    | SSL_FAIL =>
      rw [hstatus] at hstep
      obtain rfl := Option.some.inj hstep
      exact hopen.engine r.output
    | SSL_OK | SSL_CLOSE =>
      rw [hstatus] at hstep
      obtain rfl := Option.some.inj hstep
      rw [opening, hstatus] at hdrained
      exact (hopen.engine r.output).returns (hdrained fun _ => Status.noConfusion)
  | false =>
    obtain rfl := Option.some.inj hstep
    rw [opening] at hdrained
    have hold := hdrained fun hclient => by cases hclient
    exact hopen.returns (List.append_nil s.responses ▸ hold)

/-- `decrypt` keeps the account, for it does not return to the loop. -/
theorem accounted_decrypt {r : Decrypt} {output : List UInt8} (h : Accounted s)
    (hstep : decrypt s r output = some s') : Accounted s' := by
  unfold decrypt at hstep
  split at hstep
  case h_2 => cases hstep
  case h_1 fs ssl hstack hssl =>
    by_cases hcan : s.readable = 0 ∨ s.readable < r.written
    · rw [if_pos hcan] at hstep
      cases hstep
    rw [if_neg hcan] at hstep
    by_cases hwritten : r.written ≤ 0
    · rw [if_pos hwritten] at hstep
      obtain rfl := Option.some.inj hstep
      exact h.congr rfl rfl rfl rfl rfl
    have hdecrypt : ssl.decrypt s.readable r = (SslHandler.getSslStatus r.error,
        s.readable - r.written.toNat,
        { ssl with decryptData := ssl.decryptData + SslHandler.sslRead r.reads }) :=
      if_neg hwritten
    rw [if_neg hwritten, hdecrypt] at hstep
    dsimp only at hstep
    by_cases hdrains : decryptDrains r = true
    · -- the handshake is not finished
      obtain ⟨hwant, hinit⟩ := Bool.and_eq_true_iff.1 hdrains
      rw [of_decide_eq_true hwant, hdrains, if_pos hinit] at hstep
      obtain rfl := Option.some.inj hstep
      refine ((h.drain output).returns (drained_drains _ _)).congr ?_ ?_ ?_ ?_ ?_ <;> rfl
    · have hengine := h.engine output
      rw [Bool.eq_false_iff.2 hdrains] at hstep
      cases hstatus : SslHandler.getSslStatus r.error with
      | SSL_WANT =>
        have hinit : ¬ (!r.initFinished) = true := fun hinit =>
          hdrains (Bool.and_eq_true_iff.2 ⟨decide_eq_true hstatus, hinit⟩)
        rw [hstatus] at hstep
        dsimp only at hstep
        rw [if_neg hinit] at hstep
        split_ifs at hstep <;>
        · obtain rfl := Option.some.inj hstep
          exact hengine.congr rfl rfl rfl rfl rfl
      | SSL_FAIL | SSL_OK | SSL_CLOSE =>
        rw [hstatus] at hstep
        obtain rfl := Option.some.inj hstep
        exact hengine.congr rfl rfl rfl rfl rfl

/-- The delivery of the decrypted data keeps the account; without user code it
returns. -/
theorem accounted_deliver {isClient : Bool} (h : Accounted s) (hgood : Good isClient s .deliver)
    (hstep : deliver s = some s') : Accounted s' := by
  unfold deliver at hstep
  split at hstep
  case h_2 => cases hstep
  case h_1 fs ssl hstack hssl =>
    split_ifs at hstep with hreadable hdata
    · obtain rfl := Option.some.inj hstep
      exact h.congr rfl rfl rfl rfl rfl
    · obtain rfl := Option.some.inj hstep
      unfold Good at hgood
      rw [hstack, hssl] at hgood
      exact (h.returns (hgood (not_not.1 hreadable) (Nat.eq_zero_of_not_pos hdata))).congr
        rfl rfl rfl rfl rfl

/-- The return of user code keeps the account, when the condition holds of what
is left. -/
theorem accounted_ret {isClient : Bool} (h : Accounted s) (hgood : Good isClient s .ret)
    (hstep : ret s = some s') : Accounted s' := by
  unfold ret at hstep
  split at hstep
  case h_1 fs hstack =>
    obtain rfl := Option.some.inj hstep
    exact h.congr rfl rfl rfl rfl rfl
  case h_2 fs hstack =>
    obtain rfl := Option.some.inj hstep
    unfold Good at hgood
    rw [hstack] at hgood
    exact (h.returns hgood).congr rfl rfl rfl rfl rfl
  case h_3 => cases hstep

/-- `handleWrite` keeps the account. -/
theorem accounted_handleWrite {r : Response} (h : Accounted s)
    (hstep : handleWrite s r = some s') : Accounted s' := by
  unfold handleWrite at hstep
  split_ifs at hstep
  · obtain rfl := Option.some.inj hstep
    exact h.drain r.output
  · obtain rfl := Option.some.inj hstep
    exact h.drain r.output
  · obtain rfl := Option.some.inj hstep
    exact h.engine r.output

/-- A good step keeps the account. -/
theorem accounted_step {isClient : Bool} (s : Conn) (i : Input) (s' : Conn) (h : Accounted s)
    (hgood : Good isClient s i) (hstep : step isClient s i = some s') : Accounted s' := by
  cases i with
  | onConnection r => exact accounted_onConnection h hgood hstep
  | input n =>
    obtain rfl := Option.some.inj hstep
    exact h.congr rfl rfl rfl rfl rfl
  | onMessage =>
    simp only [step] at hstep
    split_ifs at hstep
    obtain rfl := Option.some.inj hstep
    exact h.congr rfl rfl rfl rfl rfl
  | decrypt r output => exact accounted_decrypt h hstep
  | deliver => exact accounted_deliver h hgood hstep
  | ret => exact accounted_ret h hgood hstep
  | consume n =>
    simp only [step] at hstep
    split_ifs at hstep
    obtain rfl := Option.some.inj hstep
    exact h.congr rfl rfl rfl rfl rfl
  | handleWrite r => exact accounted_handleWrite h hstep

/-- A client or a server that opens with something in the write BIO. -/
theorem not_flushed_onConnection {isClient : Bool} {r : Response} (h : Accounted s)
    (hgood : ¬ Good isClient s (.onConnection r)) :
    ∃ s', onConnection isClient s r = some s' ∧ ¬ Flushed s' := by
  obtain ⟨hnone, hgood⟩ := Classical.not_imp.1 hgood
  obtain ⟨hfail, hnot⟩ := Classical.not_imp.1 hgood
  have hopen : Accounted { s with ssl := some { status := .CONNECTING, decryptData := 0 } } :=
    h.congr rfl rfl rfl rfl rfl
  unfold onConnection
  rw [hnone]
  cases isClient with
  | true =>
    cases hstatus : r.status with
    | SSL_WANT =>
      rw [opening, hstatus] at hnot
      exact absurd (drained_drains s.responses r.output) hnot
    | SSL_FAIL => exact absurd hstatus (hfail rfl)
    | SSL_OK | SSL_CLOSE =>
      rw [opening, hstatus] at hnot
      exact ⟨_, rfl, (hopen.engine r.output).not_flushed hnot⟩
  | false =>
    refine ⟨_, rfl, hopen.not_flushed fun hdrained => hnot ?_⟩
    rw [opening]
    exact (List.append_nil s.responses).symm ▸ hdrained

/-- Every other step returns with something in the write BIO. -/
theorem not_flushed_of_not_good {isClient : Bool} (s : Conn) (i : Input) (h : Accounted s)
    (hgood : ¬ Good isClient s i) : ∃ s', step isClient s i = some s' ∧ ¬ Flushed s' := by
  cases i with
  | onConnection r => exact not_flushed_onConnection h hgood
  | deliver =>
    simp only [Good] at hgood
    split at hgood
    case h_1 fs ssl hstack hssl =>
      obtain ⟨hreadable, hgood⟩ := Classical.not_imp.1 hgood
      obtain ⟨hdata, hnot⟩ := Classical.not_imp.1 hgood
      refine ⟨{ s.returns with stack := fs }, ?_, h.not_flushed hnot⟩
      simp only [step, deliver, hstack, hssl, hreadable, hdata]
      rfl
    case h_2 => exact absurd trivial hgood
  | ret =>
    simp only [Good] at hgood
    split at hgood
    case h_1 fs hstack =>
      refine ⟨{ s.returns with stack := fs }, ?_, h.not_flushed hgood⟩
      simp only [step, ret, hstack]
    case h_2 => exact absurd trivial hgood
  | input | onMessage | decrypt | consume | handleWrite => exact absurd trivial hgood

/-- **When everything is flushed.**  In every run, `onConnection` and `onMessage`
return with nothing of the engine in the write BIO if and only if at each of
these returns every output of the engine has been drained, in its own branch or
in a later one. -/
theorem flush_iff (isClient : Bool) (is : List Input) :
    Always (step isClient) Flushed Conn.new is ↔
      Steps (step isClient) (Good isClient) Conn.new is :=
  always_iff_steps accounted_step (fun _ h => h.returned) not_flushed_of_not_good accounted_new

/-- **The last flight of a client.**  Its `ClientHello` is sent, and one
`SSL_read` takes the server's flight, finishes the handshake and puts the
client's `Finished` into the write BIO.  The handlers behind the codec get
`onConnection`, nobody writes, and `onMessage` returns with `Finished` still
there. -/
theorem finished_stranded :
    let is : List Input := [
      .onConnection ⟨-1, .SSL_ERROR_WANT_READ, false, [1]⟩, .input 10, .onMessage,
      .decrypt ⟨10, [], .SSL_ERROR_WANT_READ, true, true⟩ [20], .ret, .deliver]
    ((run (step true) Conn.new is).map fun s => (s.returned, s.wbio, s.stack)) =
        some ([([1], [1]), ([1, 20], [1])], [20], []) ∧
      ¬ Always (step true) Flushed Conn.new is := by
  refine ⟨by decide, fun h => ?_⟩
  have hlast : Flushed _ := h.last (t := _) rfl
  have hpair := hlast ([1, 20], [1]) (by decide)
  cases hpair

end Flush
end Ssl
end Net
end Sevent
