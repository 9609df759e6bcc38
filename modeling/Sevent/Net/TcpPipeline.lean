/-
# `TcpPipeline`: events passed along a chain of handlers

`sevent/net/TcpPipeline.cpp`.

`invoke` calls one function of the handlers in order, as long as each call
returns true.  A handler is user code: in a callback it may let the pipeline run
again, as `HttpResponseCodec::onClose` does with `onMessage`, or close the
connection, which runs `onClose` through the whole chain before the callback
goes on.  So a pipeline is a stack of unfinished calls here, and a call of a
handler and its return are two steps (`Sevent.Net.Ssl.SslCodec`).

A pipeline in which `SslCodec` stands before a handler `h` carries that fact as
a field.  Only the three events that the ordering of `h`'s callbacks is about
are kept; `onWriteComplete` and `onHighWaterMark` pass in the same way as
`onClose`.
-/

import Mathlib.Data.List.Nodup
import Mathlib.Data.List.Infix

namespace Sevent
namespace Net

/-- A `PipelineHandler`: `SslCodec`, or another one. -/
inductive Handler
  | ssl
  | other (x : ℕ)
  deriving DecidableEq, Repr

/-- The function of the handlers that an `invoke` calls. -/
inductive HandlerFunc
  | onConnection
  | onMessage
  | onClose
  deriving DecidableEq, Repr

/-- The handlers of a pipeline, with an `SslCodec` before the handler `h`. -/
structure TcpPipeline where
  handlers : List Handler
  h : ℕ
  nodup : handlers.Nodup
  before : ∃ front back, handlers = front ++ .ssl :: back ∧ .other h ∈ back

namespace TcpPipeline

variable {p : TcpPipeline} {rest : List Handler}

/-- What follows `SslCodec` contains `h` and no `SslCodec`. -/
theorem after_ssl (h : .ssl :: rest <:+ p.handlers) :
    Handler.ssl ∉ rest ∧ .other p.h ∈ rest := by
  obtain ⟨front, back, heq, hmem⟩ := p.before
  have hnodup : (Handler.ssl :: rest).Nodup := p.nodup.sublist h.sublist
  have hback : Handler.ssl :: back <:+ p.handlers := ⟨front, heq.symm⟩
  have hnot : Handler.ssl ∉ rest := (List.nodup_cons.1 hnodup).1
  have hnot' : Handler.ssl ∉ back := (List.nodup_cons.1 (p.nodup.sublist hback.sublist)).1
  -- of two suffixes that start with `SslCodec` none is proper
  have hrest : rest = back := by
    rcases List.suffix_or_suffix_of_suffix h hback with hs | hs
    · rcases List.suffix_cons_iff.1 hs with he | hs
      · exact (List.cons.inj he).2
      · exact absurd (hs.subset List.mem_cons_self) hnot'
    · rcases List.suffix_cons_iff.1 hs with he | hs
      · exact (List.cons.inj he).2.symm
      · exact absurd (hs.subset List.mem_cons_self) hnot
  exact ⟨hnot, hrest ▸ hmem⟩

/-- `h` comes once. -/
theorem after_h (h : .other p.h :: rest <:+ p.handlers) : Handler.other p.h ∉ rest :=
  (List.nodup_cons.1 (p.nodup.sublist h.sublist)).1

/-- `SslCodec` is not behind `h`. -/
theorem ssl_not_after_h (h : .other p.h :: rest <:+ p.handlers) : Handler.ssl ∉ rest := by
  intro hmem
  obtain ⟨front, back, rfl⟩ := List.append_of_mem hmem
  have hs : Handler.ssl :: back <:+ p.handlers :=
    List.IsSuffix.trans ⟨.other p.h :: front, rfl⟩ h
  have hnot := after_h h
  exact hnot (List.mem_append_right _ (List.mem_cons_of_mem _ (after_ssl hs).2))

end TcpPipeline

end Net
end Sevent
