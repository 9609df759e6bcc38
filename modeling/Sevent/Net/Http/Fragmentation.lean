/-
# Messages that arrive in several reads

`HttpCodec::onMessage` parses an unfinished message again from its first byte
with every read, and `HttpParser::reset` empties nothing.  So what the earlier
attempts have put into the members is still there when the message completes:
the part of the body that had come, components of a URL that was cut where it
still meant something else, and query parameters.  Header values are assigned
and their names always recur, so they do no harm.

`fragmentation_iff` says when that does not show.  The proof compares the code
with `Progress`, which counts messages and bytes: `Progress.advance` is what one
`onMessage` does to it (`parseLoop_refines`), and over a whole run a message has
been attempted once for each end of a read inside it (`finals`).
-/

import Sevent.Net.Http.Message

namespace Sevent
namespace Net
namespace Http

/-! ### Where the reads end -/

/-- The bytes that have come after each read, `n` before the first one. -/
def readEnds : ℕ → List Bytes → List ℕ
  | _, [] => []
  | n, data :: reads => (n + data.length) :: readEnds (n + data.length) reads

/-- The ends of the reads are behind where they begin. -/
theorem le_of_mem_readEnds {n e : ℕ} {reads : List Bytes} (h : e ∈ readEnds n reads) : n ≤ e := by
  induction reads generalizing n with
  | nil => simp [readEnds] at h
  | cons data reads ih =>
    rcases List.mem_cons.1 h with rfl | h
    · exact Nat.le_add_right _ _
    · exact Nat.le_trans (Nat.le_add_right _ _) (ih h)

/-- The ends counted from a later byte. -/
theorem readEnds_sub {n k : ℕ} (h : k ≤ n) (reads : List Bytes) :
    (readEnds n reads).map (· - k) = readEnds (n - k) reads := by
  induction reads generalizing n with
  | nil => rfl
  | cons data reads ih =>
    have hsub : n + data.length - k = n - k + data.length := by omega
    rw [readEnds, List.map_cons, ih (by omega), hsub]
    rfl

namespace Message

variable (m : Message)

/-- The ends of reads inside the message. -/
def cuts (ends : List ℕ) : List ℕ := ends.filter fun e => 0 < e ∧ e < m.wire.length

/-- The callbacks of the attempts that end at these cuts. -/
def unfinished (cuts : List ℕ) : List Callback := cuts.flatMap m.truncated

/-- What was in a parser, after the attempts that end at these cuts. -/
def attempts (request : Bool) (c : Content) (cuts : List ℕ) : Content :=
  cuts.foldl (fun c n => c.after request (m.truncated n)) c

/-- **The attempts leave nothing that shows in the message**: they had none of
the body; a component that the URL does not have is empty in the last cut URL
with it; and the parameters of the cut URLs are parameters of the URL. -/
structure Clean (request : Bool) (cuts : List ℕ) : Prop where
  body : bodyOf (m.unfinished cuts) = []
  urlFields : ∀ uf, lastComponent uf (urlsOf request m.callbacks) = none →
    (lastComponent uf (urlsOf request (m.unfinished cuts))).getD [] = []
  params : ((KeyMap.empty : Map).setAll stricmpKey
      ((urlsOf request (m.unfinished cuts)).flatMap urlPairs)).Sub
    ((KeyMap.empty : Map).setAll stricmpKey ((urlsOf request m.callbacks).flatMap urlPairs))

end Message

/-- Every message is clean for the ends of reads inside it. -/
def Undisturbed (request : Bool) : List ℕ → List Message → Prop
  | _, [] => True
  | ends, m :: ms =>
    m.Clean request (m.cuts ends) ∧ Undisturbed request (ends.map (· - m.wire.length)) ms

/-! ### Attempts -/

/-- The pairs of two parts of the headers, when the second begins with a name. -/
theorem headerPairs_append (field : Bytes) (a : List Callback) {b : List Callback}
    (hb : FieldFirst b) : headerPairs field (a ++ b) = headerPairs field a ++ headerPairs [] b := by
  induction a generalizing field with
  | nil => exact headerPairs_fieldFirst hb field []
  | cons c a ih =>
    rcases c with ⟨_ | _ | _ | _ | _, t⟩ | cb
    · exact ih field
    · exact ih field
    · exact ih t
    · exact congrArg _ (ih field)
    · exact ih field
    · exact ih field

/-- What two parts of the callbacks make of the contents, when the second begins
with a name. -/
theorem Content.after_append (request : Bool) (c : Content) (a : List Callback) {b : List Callback}
    (hb : FieldFirst b) : (c.after request a).after request b = c.after request (a ++ b) := by
  have hfields : ∀ uf, (lastComponent uf (urlsOf request (a ++ b))).getD (c.urlFields uf) =
      (lastComponent uf (urlsOf request b)).getD
        ((lastComponent uf (urlsOf request a)).getD (c.urlFields uf)) := by
    intro uf
    rw [urlsOf_append, lastComponent_append]
    cases lastComponent uf (urlsOf request b) <;> rfl
  simp only [Content.after, hfields]
  rw [headerPairs_append [] a hb, urlsOf_append, List.flatMap_append, KeyMap.setAll_append,
    KeyMap.setAll_append, List.append_assoc, bodyOf, bodyOf, bodyOf, List.flatMap_append]

namespace Message

variable {request : Bool} {m : Message}

/-- The callbacks of an unfinished message begin with a name as well. -/
theorem fieldFirst_truncated (m : Message) (n : ℕ) : FieldFirst (m.truncated n) :=
  (m.cut_callbacks n).fieldFirst m.fieldFirst_callbacks

/-- The attempts at a message are the callbacks of all its unfinished parts, one
after the other. -/
theorem attempts_eq (c : Content) (cuts : List ℕ) :
    m.attempts request c cuts = c.after request (m.unfinished cuts) := by
  induction cuts using List.reverseRecOn with
  | nil =>
    cases request <;> simp [attempts, unfinished, Content.after, lastComponent, urlsOf, allUrls,
      headerPairs, bodyOf, KeyMap.setAll]
  | append_singleton cuts n ih =>
    rw [attempts] at ih
    rw [attempts, List.foldl_append, List.foldl_cons, List.foldl_nil, ih,
      Content.after_append _ _ _ (m.fieldFirst_truncated n),
      unfinished, unfinished, List.flatMap_append, List.flatMap_singleton]

/-- The names of the headers left behind are names of headers of the message. -/
theorem attempts_headers (cuts : List ℕ) : (m.attempts request .empty cuts).headers.Sub
    (m.content request).headers := by
  induction cuts using List.reverseRecOn with
  | nil => exact KeyMap.sub_empty
  | append_singleton cuts n ih =>
    rw [attempts, List.foldl_append]
    exact ih.setAll_of_prefix ((m.cut_callbacks n).headerPairs_keys [])

/-- **When a message is not changed by the attempts before it.** -/
theorem after_attempts_iff (cuts : List ℕ) :
    (m.attempts request .empty cuts).after request m.callbacks = m.content request ↔
      m.Clean request cuts := by
  have hheaders : ((m.attempts request .empty cuts).after request m.callbacks).headers =
      (m.content request).headers := KeyMap.setAll_eq_iff.2 (attempts_headers cuts)
  have hparams : ((m.attempts request .empty cuts).after request m.callbacks).params =
      (m.content request).params ↔
        (m.attempts request .empty cuts).params.Sub (m.content request).params :=
    KeyMap.setAll_eq_iff
  rw [attempts_eq] at *
  constructor
  · intro h
    refine ⟨?_, ?_, ?_⟩
    · have hbody := congrArg Content.body h
      simpa [Content.after, content, Content.empty] using hbody
    · intro uf hnone
      have hfield := congrFun (congrArg Content.urlFields h) uf
      simpa [Content.after, content, Content.empty, hnone] using hfield
    · exact hparams.1 (congrArg Content.params h)
  · rintro ⟨hbody, hfields, hsub⟩
    refine Content.ext (funext fun uf => ?_) hheaders (hparams.2 hsub) ?_
    · cases hlast : lastComponent uf (urlsOf request m.callbacks) with
      | none => simpa [Content.after, content, Content.empty, hlast] using hfields uf hlast
      | some text => simp [Content.after, content, hlast]
    · simp [Content.after, content, hbody]

end Message

/-! ### Progress in a sequence of messages -/

/-- The messages to come, the bytes of them in the input buffer, and what is in
the parser, as long as the first message is accepted. -/
structure Progress where
  todo : List Message
  buffered : ℕ
  content : Content

/-- The bytes of a sequence of messages. -/
def wires (ms : List Message) : Bytes := ms.flatMap Message.wire

/-- The bytes of some messages begin with those of the first. -/
theorem wires_cons (m : Message) (ms : List Message) : wires (m :: ms) = m.wire ++ wires ms := rfl

/-- What one `onMessage` does: the contents it hands over, and the progress. -/
def advance (request : Bool) : List Message → ℕ → Content → List Content × Progress
  | [], _, c => ([], ⟨[], 0, c⟩)
  | m :: ms, n, c =>
    if m.wire.length ≤ n ∧ m.Accepted then
      let r := advance request ms (n - m.wire.length) .empty
      (c.after request m.callbacks :: r.1, r.2)
    else ([], ⟨m :: ms, n, if 0 < n then c.after request (m.truncated n) else c⟩)

/-- What a run does with these reads. -/
def Progress.run (request : Bool) : Progress → List Bytes → List Content × Progress
  | pr, [] => ([], pr)
  | pr, data :: reads =>
    let r := advance request pr.todo (pr.buffered + data.length) pr.content
    let r' := Progress.run request r.2 reads
    (r.1 ++ r'.1, r'.2)

/-- What a run hands over when its reads end at `ends` and all messages are
accepted: every message once, after an attempt for each end inside it. -/
def finals (request : Bool) : Content → List ℕ → List Message → List Content
  | _, _, [] => []
  | c, ends, m :: ms =>
    (m.attempts request c (m.cuts ends)).after request m.callbacks ::
      finals request .empty (ends.map (· - m.wire.length)) ms

section Progress

variable {request : Bool}

/-- Only bytes in the buffer are retrieved. -/
theorem advance_bytes (ms : List Message) (n : ℕ) (c : Content) :
    (wires (advance request ms n c).2.todo).drop (advance request ms n c).2.buffered =
      (wires ms).drop n := by
  induction ms generalizing n c with
  | nil => simp [advance, wires]
  | cons m ms ih =>
    rw [advance]
    split
    · rename_i hwhole
      have hdrop : (m.wire ++ wires ms).drop n = (wires ms).drop (n - m.wire.length) := by
        rw [List.drop_append, List.drop_of_length_le hwhole.1, List.nil_append]
      rw [wires_cons, hdrop]
      exact ih _ _
    · rfl

/-- A message that is waited for is not there as a whole, or rejected. -/
theorem advance_incomplete (ms : List Message) (n : ℕ) (c : Content) :
    ∀ m ∈ (advance request ms n c).2.todo.head?, m.Accepted →
      (advance request ms n c).2.buffered < m.wire.length := by
  induction ms generalizing n c with
  | nil => simp [advance]
  | cons m ms ih =>
    rw [advance]
    split
    · exact ih _ _
    · rename_i hnot
      rintro m' hm' hacc
      obtain rfl : m = m' := Option.some.inj hm'
      exact Nat.lt_of_not_le fun hle => hnot ⟨hle, hacc⟩

variable (request) in
/-- What is handed over are the first messages, and they are accepted. -/
theorem advance_accepted (ms : List Message) (n : ℕ) (c : Content) :
    ∃ done, ms = done ++ (advance request ms n c).2.todo ∧
      done.length = (advance request ms n c).1.length ∧ ∀ m ∈ done, m.Accepted := by
  induction ms generalizing n c with
  | nil => exact ⟨[], rfl, rfl, by simp⟩
  | cons m ms ih =>
    rw [advance]
    split
    · rename_i hwhole
      obtain ⟨done, hms, hlen, hacc⟩ := ih (n - m.wire.length) .empty
      refine ⟨m :: done, congrArg _ hms, congrArg _ hlen, ?_⟩
      exact List.forall_mem_cons.2 ⟨hwhole.2, hacc⟩
    · exact ⟨[], rfl, rfl, by simp⟩

variable (request) in
/-- Reads that are taken one after the other complete messages from the front of
those to come, all of them accepted. -/
theorem Progress.run_accepted (pr : Progress) (reads : List Bytes) :
    ∃ done, pr.todo = done ++ (pr.run request reads).2.todo ∧
      done.length = (pr.run request reads).1.length ∧ ∀ m ∈ done, m.Accepted := by
  induction reads generalizing pr with
  | nil => exact ⟨[], rfl, rfl, by simp⟩
  | cons data reads ih =>
    obtain ⟨done, htodo, hlen, hacc⟩ :=
      advance_accepted request pr.todo (pr.buffered + data.length) pr.content
    obtain ⟨done', htodo', hlen', hacc'⟩ :=
      ih (advance request pr.todo (pr.buffered + data.length) pr.content).2
    refine ⟨done ++ done', ?_, ?_, ?_⟩
    · rw [List.append_assoc, Progress.run, ← htodo', ← htodo]
    · rw [List.length_append, Progress.run, List.length_append, hlen, hlen']
    · exact List.forall_mem_append.2 ⟨hacc, hacc'⟩

/-- A message that no read ends in is not cut. -/
theorem cuts_of_ge {m : Message} {ends : List ℕ} (h : ∀ e ∈ ends, m.wire.length ≤ e) :
    m.cuts ends = [] := by
  refine List.filter_eq_nil_iff.2 fun e he hcut => ?_
  have hge := h e he
  have hlt := (of_decide_eq_true hcut).2
  omega

/-- An end at the beginning cuts no message. -/
theorem finals_zero (c : Content) (ends : List ℕ) (ms : List Message) :
    finals request c (0 :: ends) ms = finals request c ends ms := by
  induction ms generalizing c ends with
  | nil => rfl
  | cons m ms ih =>
    have hcuts : m.cuts (0 :: ends) = m.cuts ends := by simp [Message.cuts]
    rw [finals, finals, hcuts, List.map_cons, Nat.zero_sub, ih]

/-- One read of a run. -/
theorem finals_cons (ms : List Message) (n : ℕ) (c : Content) (reads : List Bytes)
    (hacc : ∀ m ∈ ms, m.Accepted) :
    finals request c (n :: readEnds n reads) ms = (advance request ms n c).1 ++
      finals request (advance request ms n c).2.content
        (readEnds (advance request ms n c).2.buffered reads) (advance request ms n c).2.todo := by
  induction ms generalizing n c with
  | nil => rfl
  | cons m ms ih =>
    obtain ⟨hm, hms⟩ := List.forall_mem_cons.1 hacc
    rw [advance, finals]
    split
    · rename_i hwhole
      have hcuts : m.cuts (n :: readEnds n reads) = [] := by
        refine cuts_of_ge fun e he => ?_
        rcases List.mem_cons.1 he with rfl | he
        · exact hwhole.1
        · exact Nat.le_trans hwhole.1 (le_of_mem_readEnds he)
      rw [hcuts, List.map_cons, readEnds_sub hwhole.1, ih _ _ hms]
      rfl
    · rename_i hnot
      have hlt : n < m.wire.length := Nat.lt_of_not_le fun hle => hnot ⟨hle, hm⟩
      have hsub : n - m.wire.length = 0 := by omega
      rw [List.map_cons, hsub, finals_zero, List.nil_append, finals]
      rcases Nat.eq_zero_or_pos n with rfl | hpos
      · simp [Message.cuts]
      · have hcuts : m.cuts (n :: readEnds n reads) = n :: m.cuts (readEnds n reads) := by
          simp [Message.cuts, hpos, hlt]
        rw [hcuts, if_pos hpos]
        rfl

/-- **What a run over all bytes hands over.** -/
theorem Progress.run_eq_finals (pr : Progress) (reads : List Bytes)
    (hreads : reads.flatten = (wires pr.todo).drop pr.buffered)
    (hwait : ∀ m ∈ pr.todo.head?, pr.buffered < m.wire.length)
    (hacc : ∀ m ∈ pr.todo, m.Accepted) :
    (pr.run request reads).1 = finals request pr.content (readEnds pr.buffered reads) pr.todo := by
  induction reads generalizing pr with
  | nil =>
    have htodo : pr.todo = [] := by
      rcases hpr : pr.todo with _ | ⟨m, ms⟩
      · rfl
      · rw [hpr] at hreads hwait
        have hlen := List.drop_eq_nil_iff.1 hreads.symm
        have hlt := hwait m rfl
        rw [wires_cons, List.length_append] at hlen
        omega
    rw [htodo]
    rfl
  | cons data reads ih =>
    have hflatten : reads.flatten = (wires pr.todo).drop (pr.buffered + data.length) := by
      rw [← List.drop_drop, ← hreads, List.flatten_cons, List.drop_left]
    obtain ⟨done, htodo, -, -⟩ :=
      advance_accepted request pr.todo (pr.buffered + data.length) pr.content
    have hacc' : ∀ m ∈ (advance request pr.todo (pr.buffered + data.length) pr.content).2.todo,
        m.Accepted := fun m hm => hacc m (by rw [htodo]; exact List.mem_append_right _ hm)
    rw [readEnds, finals_cons _ _ _ _ hacc, Progress.run]
    refine congrArg _ (ih _ ?_ ?_ hacc')
    · rw [hflatten, advance_bytes]
    · exact fun m hm => advance_incomplete _ _ _ m hm (hacc' m (List.mem_of_mem_head? hm))

/-- **Nothing shows exactly when all messages are undisturbed.** -/
theorem finals_eq_iff (ends : List ℕ) (ms : List Message) :
    finals request .empty ends ms = ms.map (Message.content request) ↔
      Undisturbed request ends ms := by
  induction ms generalizing ends with
  | nil => exact iff_of_true rfl trivial
  | cons m ms ih =>
    rw [finals, List.map_cons, List.cons.injEq, Message.after_attempts_iff, ih]
    rfl

end Progress

/-! ### The code -/

/-- The connection has come as far as `pr`. -/
structure Refines (request : Bool) (conn : Conn) (pr : Progress) : Prop where
  inputBuf : conn.inputBuf = (wires pr.todo).take pr.buffered
  content : (∀ m ∈ pr.todo.head?, m.Accepted) → conn.parser.toContent = pr.content
  request : conn.parser.request = request
  ok : conn.parser.http_errno = .HPE_OK

namespace HttpCodec

variable {scan : Bytes → Scan} {request : Bool} {conn : Conn} {fuel : ℕ}

/-- With nothing in the buffer the loop is over. -/
theorem parseLoop_nil (h : conn.inputBuf = []) : parseLoop scan request fuel conn = (conn, []) := by
  cases fuel with
  | zero => rfl
  | succ fuel => exact if_pos h

/-- A complete message is retrieved and handed over. -/
theorem parseLoop_complete (hne : conn.inputBuf ≠ [])
    (h : (conn.parser.execute scan conn.inputBuf).1.isComplete = true) :
    parseLoop scan request (fuel + 1) conn =
      let r := parseLoop scan request fuel
        ⟨conn.inputBuf.drop (conn.parser.execute scan conn.inputBuf).2, .init request,
          conn.shutdown⟩
      (r.1, (conn.parser.execute scan conn.inputBuf).1 :: r.2) := by
  rw [parseLoop, if_neg hne]
  exact if_pos h

/-- Of an incomplete message everything stays: the bytes and what is in the
members of the parser. -/
theorem parseLoop_incomplete (hne : conn.inputBuf ≠ [])
    (h : (conn.parser.execute scan conn.inputBuf).1.isComplete = false) :
    parseLoop scan request (fuel + 1) conn =
      (⟨conn.inputBuf, (conn.parser.execute scan conn.inputBuf).1.reset,
        conn.shutdown || (conn.parser.execute scan conn.inputBuf).1.getErr != .HPE_OK⟩, []) := by
  have hstop : ¬(conn.parser.execute scan conn.inputBuf).1.isComplete = true := by
    rw [h]
    decide
  rw [parseLoop, if_neg hne]
  exact if_neg hstop

/-- Nothing is handed over and the first message is still waited for. -/
theorem refines_incomplete {m : Message} {ms : List Message} {n : ℕ} {c c' : Content}
    (hne : conn.inputBuf ≠ []) (h : Refines request conn ⟨m :: ms, n, c⟩)
    (hincomplete : (conn.parser.execute scan conn.inputBuf).1.isComplete = false)
    (hcontent : m.Accepted → (conn.parser.execute scan conn.inputBuf).1.toContent = c') :
    (parseLoop scan request (fuel + 1) conn).2 = [] ∧
      Refines request (parseLoop scan request (fuel + 1) conn).1 ⟨m :: ms, n, c'⟩ := by
  rw [parseLoop_incomplete hne hincomplete]
  refine ⟨rfl, h.inputBuf, fun hacc => hcontent (hacc m rfl), ?_, rfl⟩
  exact (HttpParser.execute_request h.ok).trans h.request

/-- **`onMessage` refines `advance`.** -/
theorem parseLoop_refines (ms : List Message) (n : ℕ) (c : Content)
    (hscan : ∀ m ∈ ms, m.Emits scan) (hfuel : conn.inputBuf.length ≤ fuel)
    (h : Refines request conn ⟨ms, n, c⟩) :
    (parseLoop scan request fuel conn).2.map HttpParser.toContent = (advance request ms n c).1 ∧
      Refines request (parseLoop scan request fuel conn).1 (advance request ms n c).2 := by
  induction ms generalizing n c fuel conn with
  | nil =>
    have hbuf : conn.inputBuf = [] := h.inputBuf.trans List.take_nil
    rw [parseLoop_nil hbuf]
    exact ⟨rfl, hbuf, fun _ => h.content (by simp), h.request, h.ok⟩
  | cons m ms ih =>
    obtain ⟨hm, hms⟩ := List.forall_mem_cons.1 hscan
    have hlen := m.length_pos
    have hinput : conn.inputBuf = (m.wire ++ wires ms).take n := h.inputBuf
    rcases Nat.eq_zero_or_pos n with rfl | hpos
    · rw [parseLoop_nil hinput, advance, if_neg (by omega)]
      exact ⟨rfl, h⟩
    have hbytes : 0 < conn.inputBuf.length := by
      rw [hinput, List.length_take, List.length_append]
      omega
    have hne : conn.inputBuf ≠ [] := List.length_pos_iff.1 hbytes
    obtain ⟨f, rfl⟩ : ∃ f, fuel = f + 1 := ⟨fuel - 1, by omega⟩
    rw [advance]
    rcases Nat.lt_or_ge n m.wire.length with hlt | hge
    · -- the message is not there as a whole
      rw [List.take_append_of_le_length (Nat.le_of_lt hlt)] at hinput
      rw [if_neg (by omega), if_pos hpos]
      have hincomplete := HttpParser.execute_truncated_state hm h.ok hpos hlt
      rw [← hinput] at hincomplete
      refine (refines_incomplete hne h hincomplete fun hacc => ?_).imp (congrArg _) id
      rw [hinput, HttpParser.execute_truncated hm hacc h.ok hpos hlt, h.request]
      exact congrArg (·.after request (m.truncated n)) (h.content fun m' hm' => by
        obtain rfl : m = m' := Option.some.inj hm'
        exact hacc)
    · rw [List.take_append, List.take_of_length_le hge] at hinput
      rcases Decidable.em m.Accepted with hacc | hbad
      · -- the message is handed over, and the rest is read by a new parser
        obtain ⟨hcomplete, hcontent, hcount⟩ := HttpParser.execute_wire
          ((wires ms).take (n - m.wire.length)) hm hacc h.ok
        rw [← hinput] at hcomplete hcontent hcount
        have hdrop : conn.inputBuf.drop m.wire.length = (wires ms).take (n - m.wire.length) := by
          rw [hinput, List.drop_left]
        have hmine : conn.parser.toContent = c := h.content fun m' hm' => by
          obtain rfl : m = m' := Option.some.inj hm'
          exact hacc
        have hnext : Refines request ⟨conn.inputBuf.drop m.wire.length, .init request,
            conn.shutdown⟩ ⟨ms, n - m.wire.length, .empty⟩ := ⟨hdrop, fun _ => rfl, rfl, rfl⟩
        have hshorter : (conn.inputBuf.drop m.wire.length).length ≤ f := by
          rw [List.length_drop]
          omega
        obtain ⟨hhanded, hrefines⟩ := ih _ _ hms hshorter hnext
        rw [if_pos ⟨hge, hacc⟩, parseLoop_complete hne hcomplete, hcount]
        refine ⟨?_, hrefines⟩
        rw [List.map_cons, hhanded, hcontent, hmine, h.request]
      · -- the parser stops at the URL, now and with every read to come
        rw [if_neg (by tauto), if_pos hpos]
        have hincomplete := HttpParser.execute_rejected
          ((wires ms).take (n - m.wire.length)) hm hbad h.ok
        rw [← hinput] at hincomplete
        exact (refines_incomplete hne h hincomplete fun hacc => absurd hacc hbad).imp
          (congrArg _) id

/-- **The code refines `Progress` over a whole run.** -/
theorem run_refines (pr : Progress) (reads : List Bytes) (hscan : ∀ m ∈ pr.todo, m.Emits scan)
    (hreads : reads.flatten = (wires pr.todo).drop pr.buffered) (h : Refines request conn pr) :
    (run scan request conn reads).2.map HttpParser.toContent = (pr.run request reads).1 := by
  induction reads generalizing conn pr with
  | nil => rfl
  | cons data reads ih =>
    have hdata : (wires pr.todo).drop pr.buffered = data ++ reads.flatten := hreads.symm
    have hbuf : conn.inputBuf ++ data = (wires pr.todo).take (pr.buffered + data.length) := by
      rw [List.take_add, hdata, List.take_left, h.inputBuf]
    have hread : Refines request { conn with inputBuf := conn.inputBuf ++ data }
        ⟨pr.todo, pr.buffered + data.length, pr.content⟩ := ⟨hbuf, h.content, h.request, h.ok⟩
    obtain ⟨hhanded, hnext⟩ := parseLoop_refines _ _ _ hscan (Nat.le_refl _) hread
    obtain ⟨done, htodo, -, -⟩ :=
      advance_accepted request pr.todo (pr.buffered + data.length) pr.content
    have hrest : reads.flatten = (wires (advance request pr.todo
        (pr.buffered + data.length) pr.content).2.todo).drop (advance request pr.todo
        (pr.buffered + data.length) pr.content).2.buffered := by
      rw [advance_bytes, ← List.drop_drop, hdata, List.drop_left]
    have hscan' : ∀ m ∈ (advance request pr.todo (pr.buffered + data.length) pr.content).2.todo,
        m.Emits scan := fun m hm => hscan m (by rw [htodo]; exact List.mem_append_right _ hm)
    rw [run, List.map_append, Progress.run, ← ih _ hscan' hrest hnext]
    exact congrArg (· ++ _) hhanded

/-! ### When the reads do not matter -/

variable (scan request) in
/-- The contents of the parsers handed over, in order. -/
def contents (reads : List Bytes) : List Content :=
  (run scan request (onConnection request) reads).2.map HttpParser.toContent

variable (scan request) in
/-- What is handed over is the sequence of messages, each with the content that
it has when everything comes in one read. -/
def Independent (ms : List Message) (reads : List Bytes) : Prop :=
  contents scan request reads = ms.map (Message.content request) ∧
    contents scan request reads = contents scan request [wires ms]

section

variable {ms : List Message} {reads : List Bytes}

/-- What `onMessage` hands over is what `Progress` says, for any cuts of the
messages' bytes. -/
theorem contents_eq (hscan : ∀ m ∈ ms, m.Emits scan) (hreads : reads.flatten = wires ms) :
    contents scan request reads = (Progress.run request ⟨ms, 0, .empty⟩ reads).1 :=
  run_refines ⟨ms, 0, .empty⟩ reads hscan hreads
    ⟨List.take_zero.symm, fun _ => rfl, rfl, rfl⟩

/-- A message with a URL that is rejected is not handed over. -/
theorem accepted_of_contents (hscan : ∀ m ∈ ms, m.Emits scan) (hreads : reads.flatten = wires ms)
    (h : contents scan request reads = ms.map (Message.content request)) :
    ∀ m ∈ ms, m.Accepted := by
  obtain ⟨done, htodo, hlen, hacc⟩ :=
    Progress.run_accepted request ⟨ms, 0, .empty⟩ reads
  rw [← contents_eq hscan hreads, h, List.length_map] at hlen
  have hall : done = ms := by
    have hprefix : done <+: ms := ⟨_, htodo.symm⟩
    exact hprefix.eq_of_length hlen
  exact hall ▸ hacc

/-- What is handed over is as it was sent if and only if no earlier attempt at
it shows. -/
theorem contents_eq_iff (hscan : ∀ m ∈ ms, m.Emits scan) (hreads : reads.flatten = wires ms)
    (hacc : ∀ m ∈ ms, m.Accepted) :
    contents scan request reads = ms.map (Message.content request) ↔
      Undisturbed request (readEnds 0 reads) ms := by
  have hwait : ∀ m ∈ ms.head?, 0 < m.wire.length := fun m _ => m.length_pos
  rw [contents_eq hscan hreads, Progress.run_eq_finals ⟨ms, 0, .empty⟩ reads hreads hwait hacc]
  exact finals_eq_iff _ _

/-- In one read nothing is attempted twice. -/
theorem undisturbed_one_read (n : ℕ) (h : (wires ms).length ≤ n) :
    Undisturbed request [n] ms := by
  induction ms generalizing n with
  | nil => trivial
  | cons m ms ih =>
    rw [wires_cons, List.length_append] at h
    have hcuts : m.cuts [n] = [] := cuts_of_ge fun e he => by
      obtain rfl := List.mem_singleton.1 he
      omega
    refine ⟨?_, ih (n - m.wire.length) (by omega)⟩
    rw [hcuts]
    exact (Message.after_attempts_iff []).1 rfl

/-- **Everything in one read.** -/
theorem contents_one_read (hscan : ∀ m ∈ ms, m.Emits scan) (hacc : ∀ m ∈ ms, m.Accepted) :
    contents scan request [wires ms] = ms.map (Message.content request) :=
  (contents_eq_iff hscan (by simp) hacc).2 (undisturbed_one_read _ (by simp))

/-- **When the cuts between reads do not matter**: exactly when every URL is
accepted, and every message is clean for the ends of reads inside it.  The parser
library is any that emits the events of a message whatever the reads, so that only
the callbacks of `HttpParser` can make a difference. -/
theorem fragmentation_iff (hscan : ∀ m ∈ ms, m.Emits scan) (hreads : reads.flatten = wires ms) :
    Independent scan request ms reads ↔
      (∀ m ∈ ms, m.Accepted) ∧ Undisturbed request (readEnds 0 reads) ms := by
  constructor
  · intro h
    have hacc := accepted_of_contents hscan hreads h.1
    exact ⟨hacc, (contents_eq_iff hscan hreads hacc).1 h.1⟩
  · rintro ⟨hacc, hclean⟩
    have hcontents := (contents_eq_iff hscan hreads hacc).2 hclean
    exact ⟨hcontents, hcontents.trans (contents_one_read hscan hacc).symm⟩

end

/-! ### A body in two reads -/

/-- A `POST` with a body of two bytes. -/
def post : Message where
  pieces := [.skip (text "P") [.on_message_begin], .skip (text "OST ") [],
    .data .on_url (text "/"), .skip (text " HTTP/1.1\r\n") [],
    .data .on_header_field (text "Content-Length"), .skip (text ": ") [],
    .data .on_header_value (text "2"), .skip (text "\r\n\r\n") [.on_headers_complete],
    .data .on_body (text "ab")]
  finish := []
  fired := []
  nonempty := by decide
  once := by decide
  fieldFirst := trivial

/-- A parser that knows one message. -/
def scanOf (m : Message) (data : Bytes) : Scan :=
  if m.wire <+: data then ⟨m.callbacks, m.wire.length, .HPE_OK⟩
  else ⟨m.truncated data.length, data.length, .HPE_OK⟩

/-- The scan of the example emits its message. -/
theorem emits_scanOf (m : Message) : m.Emits (scanOf m) where
  whole rest := if_pos (List.prefix_append _ _)
  cut n _ hn := by
    have hnot : ¬m.wire <+: m.wire.take n := by
      intro h
      have hlen := h.length_le
      rw [List.length_take] at hlen
      omega
    have hlen : (m.wire.take n).length = n := List.length_take_of_le (Nat.le_of_lt hn)
    rw [scanOf, if_neg hnot, hlen]

/-- The example's messages, which is one. -/
theorem emits_post : ∀ m ∈ [post], m.Emits (scanOf post) := by
  intro m hm
  obtain rfl := List.mem_singleton.1 hm
  exact emits_scanOf post

/-- **A body that comes in two reads is not the body of the message.**  The
second read begins between its two bytes. -/
theorem body_received_twice : (∀ m ∈ [post], m.Emits (scanOf post)) ∧
    [post.wire.dropLast, text "b"].flatten = wires [post] ∧
    (∀ data ∈ [post.wire.dropLast, text "b"], data ≠ []) ∧
    ¬Independent (scanOf post) true [post] [post.wire.dropLast, text "b"] := by
  have hbody : (contents (scanOf post) true [post.wire.dropLast, text "b"]).map Content.body =
      [text "aab"] := by decide
  refine ⟨emits_post, by decide, by decide, fun h => ?_⟩
  rw [h.1] at hbody
  revert hbody
  decide

/-- Cut in a header, the message arrives as it was sent. -/
theorem fragmentation_post : Independent (scanOf post) true [post]
    [post.wire.take 20, post.wire.drop 20] :=
  (fragmentation_iff emits_post (by decide)).2 ⟨by decide, by
    refine ⟨⟨by decide, ?_, ?_⟩, trivial⟩
    · intro uf
      cases uf <;> decide
    · exact KeyMap.sub_empty⟩

end HttpCodec

end Http
end Net
end Sevent
