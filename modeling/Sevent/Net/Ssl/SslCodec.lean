/-
# `SslCodec`: a pipeline with TLS

`sevent/net/ssl/SslCodec.cpp`, `sevent/net/ssl/SslContext.cpp`.

`SslCodec::onConnection` keeps the event to itself: it puts an `SslHandler` with
status `CONNECTING` into the connection's context and returns false.
`SslCodec::onMessage` feeds the encrypted bytes to OpenSSL.  When a call ends
with `SSL_WANT` and the handshake is finished, the first one promotes the
connection: the status becomes `CONNECTED` and `onConnection` runs through the
rest of the chain.  After the loop the decrypted bytes, if there are any, go to
the `onMessage` of the rest of the chain.  `SslCodec` has no `onClose` of its
own, so `onClose` passes it.

OpenSSL is the environment: a `Decrypt` is what the calls inside one
`SslHandler::decrypt` return.  Of the decrypted data only the amount matters
here.  The messages of the handshake that the codec sends, and the `shutdown`
after `SSL_FAIL`, change neither the order of the callbacks nor the codec's
state, and are left out.
-/

import Sevent.Net.TcpPipeline

namespace Sevent
namespace Net
namespace Ssl

/-- The results of `SSL_get_error`. -/
inductive SslError
  | SSL_ERROR_NONE
  | SSL_ERROR_WANT_WRITE
  | SSL_ERROR_WANT_READ
  | SSL_ERROR_ZERO_RETURN
  | failed (code : ℕ)
  deriving DecidableEq, Repr

/-- `SslHandler::Status`. -/
inductive Status
  | SSL_OK
  | SSL_WANT
  | SSL_CLOSE
  | SSL_FAIL
  deriving DecidableEq, Repr

/-- `SslHandler::ConnectStatus`, as far as it is used. -/
inductive ConnectStatus
  | CONNECTING
  | CONNECTED
  deriving DecidableEq, Repr

/-- The `SslHandler` of a connection: its status, and the number of bytes in
`decryptData`. -/
structure SslHandler where
  status : ConnectStatus
  decryptData : ℕ
  deriving DecidableEq, Repr

/-- What OpenSSL returns inside one `SslHandler::decrypt`: the number of bytes
that `BIO_write` took, the positive results of `SSL_read` before the last one,
the error of the last one, whether `SSL_is_init_finished` holds afterwards, and
whether the handshake was completed by then. -/
structure Decrypt where
  written : ℤ
  reads : List ℕ
  error : SslError
  initFinished : Bool
  completed : Bool
  deriving DecidableEq, Repr

namespace SslHandler

/-- `SslHandler::getSslStatus`, of the error code. -/
def getSslStatus : SslError → Status
  | .SSL_ERROR_NONE => .SSL_OK
  | .SSL_ERROR_WANT_WRITE => .SSL_WANT
  | .SSL_ERROR_WANT_READ => .SSL_WANT
  | .SSL_ERROR_ZERO_RETURN => .SSL_CLOSE
  | .failed _ => .SSL_FAIL

/-- `SslHandler::sslRead`: the bytes that it appends. -/
def sslRead : List ℕ → ℕ
  | [] => 0
  | n :: reads => n + sslRead reads

/-- The bytes that one `SslHandler::decrypt` appends to `decryptData`. -/
def data (r : Decrypt) : ℕ := if r.written ≤ 0 then 0 else sslRead r.reads

/-- `SslHandler::decrypt` of a buffer with `readable` bytes: the status, what
remains in the buffer, and the handler. -/
def decrypt (s : SslHandler) (readable : ℕ) (r : Decrypt) : Status × ℕ × SslHandler :=
  if r.written ≤ 0 then (.SSL_FAIL, readable, s)
  else
    (getSslStatus r.error, readable - r.written.toNat,
      { s with decryptData := s.decryptData + sslRead r.reads })

end SslHandler

/-- An unfinished call, with the handlers that come after it. -/
inductive Frame
  /-- `TcpPipeline::invoke`, before its next handler. -/
  | invoke (func : HandlerFunc) (rest : List Handler)
  /-- The callback of a handler. -/
  | handler (x : ℕ) (func : HandlerFunc) (rest : List Handler)
  /-- `SslCodec::onMessage`, at the test of its loop. -/
  | sslMessage (readable : ℕ) (rest : List Handler)
  deriving DecidableEq, Repr

namespace Frame

def rest : Frame → List Handler
  | .invoke _ rest | .handler _ _ rest | .sslMessage _ rest => rest

end Frame

/-- A connection with its pipeline: `opened` and `closed` once `onConnection` and
`onClose` have been called, the `SslHandler` of its context, what OpenSSL has
done so far (`completed` a handshake, `decrypted` some byte), the unfinished
calls, innermost first, and the callbacks of handlers in order. -/
structure Session where
  opened : Bool
  closed : Bool
  ssl : Option SslHandler
  completed : Bool
  decrypted : Bool
  stack : List Frame
  log : List (ℕ × HandlerFunc)

namespace Session

def new : Session where
  opened := false
  closed := false
  ssl := none
  completed := false
  decrypted := false
  stack := []
  log := []

/-- No call is running, or a handler's callback is. -/
def inUserCode (s : Session) : Bool :=
  match s.stack with
  | [] | .handler _ _ _ :: _ => true
  | _ => false

/-- What can happen. -/
inductive Input
  /-- `TcpConnection::onConnection` calls the pipeline. -/
  | onConnection
  /-- `TcpConnection::handleRead`, or a handler, calls the pipeline. -/
  | onMessage
  /-- `TcpConnection::handleClose`, from the loop or in a callback. -/
  | onClose
  /-- The innermost `invoke` goes on; `readable` bytes are in the buffer that
  `SslCodec::onMessage` gets. -/
  | next (readable : ℕ)
  /-- The callback of a handler returns. -/
  | ret (isNext : Bool)
  /-- The callback of a handler takes bytes of `decryptData`. -/
  | consume (n : ℕ)
  /-- One round of the loop of `SslCodec::onMessage`. -/
  | decrypt (r : Decrypt)
  /-- The end of `SslCodec::onMessage`, after the loop. -/
  | deliver
  deriving DecidableEq, Repr

/-- The innermost `invoke` calls its next handler.  `SslCodec::onConnection`
returns false, and its `onClose` is the empty one of `PipelineHandler`;
`std::any_cast` throws when there is no `SslHandler`. -/
def next (s : Session) (readable : ℕ) : Option Session :=
  match s.stack with
  | .invoke _ [] :: fs => some { s with stack := fs }
  | .invoke func (.other x :: rest) :: fs =>
    some { s with stack := .handler x func rest :: fs, log := s.log ++ [(x, func)] }
  | .invoke .onConnection (.ssl :: _) :: fs =>
    some { s with stack := fs, ssl := some { status := .CONNECTING, decryptData := 0 } }
  | .invoke .onMessage (.ssl :: rest) :: fs =>
    if s.ssl.isSome then some { s with stack := .sslMessage readable rest :: fs } else none
  | .invoke .onClose (.ssl :: rest) :: fs => some { s with stack := .invoke .onClose rest :: fs }
  | _ => none

/-- A callback returns to its `invoke`. -/
def ret (s : Session) (isNext : Bool) : Option Session :=
  match s.stack with
  | .handler _ func rest :: fs =>
    some { s with stack := if isNext then .invoke func rest :: fs else fs }
  | _ => none

/-- OpenSSL reads application data only after a handshake, and a finished
handshake is completed. -/
def consistent (s : Session) (r : Decrypt) : Bool :=
  r.written ≤ 0 || s.completed || r.completed ||
    (SslHandler.data r == 0 && !r.initFinished)

/-- One round of the loop of `SslCodec::onMessage`. -/
def decrypt (s : Session) (r : Decrypt) : Option Session :=
  match s.stack, s.ssl with
  | .sslMessage readable rest :: fs, some ssl =>
    if readable = 0 ∨ readable < r.written ∨ s.consistent r = false then none
    else
      let (status, remain, ssl) := ssl.decrypt readable r
      let s := { s with
        ssl := some ssl
        completed := s.completed || (r.written > 0 && r.completed)
        decrypted := s.decrypted || SslHandler.data r > 0 }
      match status with
      | .SSL_WANT =>
        if !r.initFinished then some { s with stack := fs }
        else if ssl.status = .CONNECTING then
          some { s with
            ssl := some { ssl with status := .CONNECTED }
            stack := .invoke .onConnection rest :: .sslMessage remain rest :: fs }
        else some { s with stack := .sslMessage remain rest :: fs }
      | .SSL_FAIL => some { s with stack := fs }
      | .SSL_OK | .SSL_CLOSE => some { s with stack := .sslMessage remain rest :: fs }
  | _, _ => none

/-- The end of `SslCodec::onMessage`. -/
def deliver (s : Session) : Option Session :=
  match s.stack, s.ssl with
  | .sslMessage 0 rest :: fs, some ssl =>
    some { s with stack := if ssl.decryptData > 0 then .invoke .onMessage rest :: fs else fs }
  | _, _ => none

/-- A callback takes decrypted bytes. -/
def consume (s : Session) (n : ℕ) : Option Session :=
  match s.stack, s.ssl with
  | .handler _ _ _ :: _, some ssl =>
    some { s with ssl := some { ssl with decryptData := ssl.decryptData - n } }
  | _, _ => none

/-- One step of a connection whose pipeline is `p`. -/
def step (p : TcpPipeline) (s : Session) : Input → Option Session
  | .onConnection =>
    if s.opened then none
    else some { s with opened := true, stack := .invoke .onConnection p.handlers :: s.stack }
  | .onMessage =>
    if s.opened && s.inUserCode && !(s.closed && s.stack.isEmpty) then
      some { s with stack := .invoke .onMessage p.handlers :: s.stack }
    else none
  | .onClose =>
    if s.opened && s.inUserCode && !s.closed then
      some { s with closed := true, stack := .invoke .onClose p.handlers :: s.stack }
    else none
  | .next readable => s.next readable
  | .ret isNext => s.ret isNext
  | .consume n => s.consume n
  | .decrypt r => s.decrypt r
  | .deliver => s.deliver

end Session

end Ssl
end Net
end Sevent
