/-
# The messages of a connection, and what a parser makes of them

A message is cut into the pieces that `http_parser` sees: texts that it hands to
a callback, and the bytes between them, after which it may make other callbacks.
From them come the bytes of the message (`wire`), the callbacks of the whole
message (`callbacks`), and those of its first `n` bytes (`truncated n`), where
an unfinished text is flushed as far as it is there.

`Content.after` is what a list of callbacks makes of the members of an
`HttpParser`: the body is appended to, the last URL with a component sets it,
headers and parameters are set in order.  `execute_truncated` and `execute_wire`
say that a parser does so with an unfinished and with a whole message, and
`execute_rejected` that a URL which `http_parser_parse_url` rejects is the end.
-/

import Sevent.Net.Http.HttpParser

namespace Sevent
namespace Net
namespace Http

/-! ### Lists of callbacks -/

/-- The part of the body in a callback. -/
def Callback.body : Callback → Bytes
  | .data .on_body text => text
  | _ => []

/-- The URL of a callback. -/
def Callback.urls : Callback → List Bytes
  | .data .on_url text => [text]
  | _ => []

/-- The body that some callbacks make, part by part. -/
def bodyOf (cbs : List Callback) : Bytes := cbs.flatMap Callback.body

/-- The request targets that some callbacks tell of, one for each part. -/
def allUrls (cbs : List Callback) : List Bytes := cbs.flatMap Callback.urls

/-- The URLs whose components are kept: those of requests. -/
def urlsOf (request : Bool) (cbs : List Callback) : List Bytes :=
  if request then allUrls cbs else []

/-- The headers, where `field` is the last field name so far. -/
def headerPairs (field : Bytes) : List Callback → List (Bytes × Bytes)
  | [] => []
  | .data .on_header_field text :: cbs => headerPairs text cbs
  | .data .on_header_value text :: cbs => (field, text) :: headerPairs field cbs
  | _ :: cbs => headerPairs field cbs

/-- No header value comes before the first field name. -/
def FieldFirst : List Callback → Prop
  | [] => True
  | .data .on_header_field _ :: _ => True
  | .data .on_header_value _ :: _ => False
  | _ :: cbs => FieldFirst cbs

/-- Component `uf` of a URL that `http_parser_parse_url` accepts. -/
def urlComponent (uf : UrlField) (url : Bytes) : Option Bytes :=
  (http_parser_parse_url url false).bind fun u => (u uf).map (slice url)

/-- Component `uf` of the last of the URLs that has it. -/
def lastComponent (uf : UrlField) (urls : List Bytes) : Option Bytes :=
  (urls.filterMap (urlComponent uf)).getLast?

/-- The query parameters of a URL. -/
def urlPairs (url : Bytes) : List (Bytes × Bytes) :=
  ((urlComponent .UF_QUERY url).map HttpParser.queryPairs).getD []

/-- What the members of a parser are after some callbacks. -/
def Content.after (request : Bool) (c : Content) (cbs : List Callback) : Content where
  urlFields uf := (lastComponent uf (urlsOf request cbs)).getD (c.urlFields uf)
  headers := c.headers.setAll stricmpKey (headerPairs [] cbs)
  params := c.params.setAll stricmpKey ((urlsOf request cbs).flatMap urlPairs)
  body := c.body ++ bodyOf cbs

/-! ### Messages -/

/-- A piece of a message: bytes after which `fired` is called, or a text for the
callback `cb`. -/
inductive Piece
  | skip (text : Bytes) (fired : List NotifyCb)
  | data (cb : DataCb) (text : Bytes)
  deriving DecidableEq, Repr

namespace Piece

/-- The bytes of a piece. -/
def wire : Piece → Bytes
  | skip text _ => text
  | data _ text => text

/-- The callbacks of a whole piece: one text, or the notifications behind bytes
that are skipped. -/
def callbacks : Piece → List Callback
  | skip _ fired => fired.map .notify
  | data cb text => [.data cb text]

/-- The callbacks for the first `n` bytes of some pieces. -/
def truncate : ℕ → List Piece → List Callback
  | 0, _ => []
  | _, [] => []
  | n + 1, skip text fired :: ps =>
    if text.length ≤ n + 1 then fired.map .notify ++ truncate (n + 1 - text.length) ps else []
  | n + 1, data cb text :: ps =>
    .data cb (text.take (n + 1)) :: truncate (n + 1 - text.length) ps

end Piece

/-- A message: its pieces up to the last bytes `finish`, after which come the
callbacks `fired` and `on_message_complete`. -/
structure Message where
  pieces : List Piece
  finish : Bytes
  fired : List NotifyCb
  nonempty : pieces.flatMap Piece.wire ++ finish ≠ []
  once : Callback.notify .on_message_complete ∉
    pieces.flatMap Piece.callbacks ++ fired.map Callback.notify
  fieldFirst : FieldFirst (pieces.flatMap Piece.callbacks)

namespace Message

/-- The bytes of a message. -/
def wire (m : Message) : Bytes := m.pieces.flatMap Piece.wire ++ m.finish

/-- The callbacks before `on_message_complete`. -/
def before (m : Message) : List Callback :=
  m.pieces.flatMap Piece.callbacks ++ m.fired.map Callback.notify

/-- The callbacks of a whole message. -/
def callbacks (m : Message) : List Callback := m.before ++ [.notify .on_message_complete]

/-- The callbacks for the first `n` bytes, but not all of them. -/
def truncated (m : Message) (n : ℕ) : List Callback := Piece.truncate n m.pieces

/-- What a new parser holds after the message. -/
def content (request : Bool) (m : Message) : Content := Content.empty.after request m.callbacks

/-- `http_parser_parse_url` accepts the URL. -/
def Accepted (m : Message) : Prop :=
  ∀ url ∈ allUrls m.callbacks, (http_parser_parse_url url false).isSome

instance (m : Message) : Decidable m.Accepted :=
  inferInstanceAs (Decidable (∀ url ∈ allUrls m.callbacks, _))

/-- What is assumed of `http_parser` at the beginning of this message. -/
structure Emits (scan : Bytes → Scan) (m : Message) : Prop where
  /-- It makes the callbacks of the message and stops after it. -/
  whole : ∀ rest, scan (m.wire ++ rest) = ⟨m.callbacks, m.wire.length, .HPE_OK⟩
  /-- It flushes what is there of an unfinished text. -/
  cut : ∀ n, 0 < n → n < m.wire.length → scan (m.wire.take n) = ⟨m.truncated n, n, .HPE_OK⟩

/-- A message has at least one byte. -/
theorem length_pos (m : Message) : 0 < m.wire.length := List.length_pos_iff.2 m.nonempty

end Message

/-! ### Cutting a list of callbacks -/

/-- The callbacks for the first bytes of what has the callbacks `E`: some of the
first ones, the last of them perhaps with a part of its text. -/
inductive Cut : List Callback → List Callback → Prop
  | nil (E) : Cut E []
  | text (cb t j E) : Cut (.data cb t :: E) [.data cb (t.take j)]
  | cons (c) {E T} : Cut E T → Cut (c :: E) (c :: T)

namespace Cut

variable {E T : List Callback}

/-- What comes in front of two lists of callbacks does not matter for one being
a cut of the other. -/
theorem append_left (l : List Callback) (h : Cut E T) : Cut (l ++ E) (l ++ T) := by
  induction l with
  | nil => exact h
  | cons c l ih => exact .cons c ih

/-- More behind the whole list does not matter for a part being a cut of it. -/
theorem append_right (h : Cut E T) (l : List Callback) : Cut (E ++ l) T := by
  induction h with
  | nil => exact .nil _
  | text => exact .text ..
  | cons c _ ih => exact .cons c ih

/-- A call without a text is not made in part. -/
theorem notify_mem (h : Cut E T) {cb : NotifyCb} (hmem : .notify cb ∈ T) : .notify cb ∈ E := by
  induction h with
  | nil => simp at hmem
  | text => simp at hmem
  | cons c _ ih =>
    rcases List.mem_cons.1 hmem with h | h
    · exact h ▸ List.mem_cons_self
    · exact List.mem_cons_of_mem _ (ih h)

/-- A header's name comes before its value in a part of a message too. -/
theorem fieldFirst (h : Cut E T) (hE : FieldFirst E) : FieldFirst T := by
  induction h with
  | nil => trivial
  | text cb t j E => cases cb <;> trivial
  | cons c _ ih =>
    rcases c with ⟨_ | _ | _ | _ | _, t⟩ | cb
    · exact ih hE
    · exact ih hE
    · trivial
    · exact hE
    · exact ih hE
    · exact ih hE

/-- **The field names of the header values are the first ones.** -/
theorem headerPairs_keys (h : Cut E T) (field : Bytes) :
    (headerPairs field T).map Prod.fst <+: (headerPairs field E).map Prod.fst := by
  induction h generalizing field with
  | nil => exact List.nil_prefix
  | text cb t j E =>
    cases cb <;> first | exact List.nil_prefix | exact List.prefix_append [field] _
  | cons c _ ih =>
    rcases c with ⟨_ | _ | _ | _ | _, t⟩ | cb
    · exact ih field
    · exact ih field
    · exact ih t
    · exact (List.prefix_cons_inj field).2 (ih field)
    · exact ih field
    · exact ih field

end Cut

/-- **An unfinished message makes the first callbacks of the message.** -/
theorem Piece.truncate_cut (n : ℕ) (ps : List Piece) :
    Cut (ps.flatMap Piece.callbacks) (Piece.truncate n ps) := by
  induction ps generalizing n with
  | nil => cases n <;> exact .nil _
  | cons p ps ih =>
    rcases n with _ | n
    · exact .nil _
    rw [List.flatMap_cons]
    rcases p with ⟨text, fired⟩ | ⟨cb, text⟩
    · rw [Piece.truncate]
      split
      · exact (ih _).append_left _
      · exact .nil _
    · rw [Piece.truncate]
      rcases Nat.lt_or_ge n text.length with hlt | hge
      · have hnone : n + 1 - text.length = 0 := by omega
        rw [hnone, Piece.truncate.eq_def]
        exact .text ..
      · rw [List.take_of_length_le (by omega)]
        exact .cons _ (ih _)

/-- Without a value before it, the field name so far does not matter. -/
theorem headerPairs_fieldFirst {cbs : List Callback} (h : FieldFirst cbs) (f g : Bytes) :
    headerPairs f cbs = headerPairs g cbs := by
  induction cbs with
  | nil => rfl
  | cons c cbs ih =>
    rcases c with ⟨_ | _ | _ | _ | _, t⟩ | cb
    · exact ih h
    · exact ih h
    · rfl
    · exact h.elim
    · exact ih h
    · exact ih h

/-! ### What a parser makes of callbacks -/

/-- The request targets of two parts. -/
theorem urlsOf_append (request : Bool) (a b : List Callback) :
    urlsOf request (a ++ b) = urlsOf request a ++ urlsOf request b := by
  cases request
  · rfl
  · exact List.flatMap_append

/-- The request target of the first callback is told before the others. -/
theorem urlsOf_cons (request : Bool) (cb : Callback) (cbs : List Callback) :
    urlsOf request (cb :: cbs) = urlsOf request [cb] ++ urlsOf request cbs :=
  urlsOf_append request [cb] cbs

/-- The last of the targets with a component decides, so the later part is asked
first. -/
theorem lastComponent_append (uf : UrlField) (a b : List Bytes) :
    lastComponent uf (a ++ b) = (lastComponent uf b).or (lastComponent uf a) := by
  rw [lastComponent, List.filterMap_append, List.getLast?_append]
  rfl

/-- The callback does not stop the parser. -/
def Passes : Callback → Prop
  | .data .on_url url => (http_parser_parse_url url false).isSome
  | .notify .on_message_complete => False
  | _ => True

namespace HttpParser

variable (p : HttpParser) (cb : Callback) (cbs : List Callback)

/-- A request target that `http_parser_parse_url` rejects makes the callback
fail, and the parser is left with that error. -/
theorem call_url_none {url : Bytes} (h : http_parser_parse_url url false = none) :
    p.call (.data .on_url url) = { p with http_errno := .HPE_CB .on_url } := by
  simp [call, on_url, h]

/-- No callback changes whether the parser is for requests. -/
theorem call_request : (p.call cb).request = p.request := by
  rcases cb with ⟨_ | _ | _ | _ | _, t⟩ | _ | _ | _ | _ | _ <;> try rfl
  cases h : http_parser_parse_url t false with
  | none => rw [call_url_none p h]
  | some u => cases hr : p.request <;> simp [call, on_url, h, hr]

/-- A callback appends its part to the body. -/
theorem call_body : (p.call cb).body = p.body ++ cb.body := by
  rcases cb with ⟨_ | _ | _ | _ | _, t⟩ | _ | _ | _ | _ | _ <;>
    try first | rfl | exact (List.append_nil _).symm
  cases h : http_parser_parse_url t false with
  | none => simp [call_url_none p h, Callback.body]
  | some u => cases hr : p.request <;> simp [call, on_url, h, hr, Callback.body]

/-- A callback sets a component of the request target, if it tells of one, and
leaves it otherwise. -/
theorem call_urlFields (uf : UrlField) : (p.call cb).urlFields uf =
    (lastComponent uf (urlsOf p.request [cb])).getD (p.urlFields uf) := by
  rcases cb with ⟨_ | _ | _ | _ | _, t⟩ | _ | _ | _ | _ | _ <;>
    try (cases hr : p.request <;> rfl)
  cases h : http_parser_parse_url t false with
  | none =>
    cases hr : p.request <;>
      simp [call_url_none p h, lastComponent, urlsOf, allUrls, Callback.urls, urlComponent, h]
  | some u =>
    cases hr : p.request <;> cases hu : u uf <;>
      simp [call, on_url, h, hr, hu, lastComponent, urlsOf, allUrls, Callback.urls, urlComponent]

/-- A callback sets the query parameters of the request target it tells of. -/
theorem call_params : (p.call cb).params =
    p.params.setAll stricmpKey ((urlsOf p.request [cb]).flatMap urlPairs) := by
  rcases cb with ⟨_ | _ | _ | _ | _, t⟩ | _ | _ | _ | _ | _ <;>
    try (cases hr : p.request <;> rfl)
  cases h : http_parser_parse_url t false with
  | none =>
    cases hr : p.request <;>
      simp [call_url_none p h, urlsOf, allUrls, Callback.urls, urlPairs, urlComponent, h,
        KeyMap.setAll]
  | some u =>
    cases hr : p.request <;> cases hu : u .UF_QUERY <;>
      simp [call, on_url, h, hr, hu, urlsOf, allUrls, Callback.urls, urlPairs, urlComponent,
        parseQueryParam, KeyMap.setAll]

/-- A callback sets a header when it has the value: what the headers come to in
the end is the same before and after it. -/
theorem call_headers : (p.call cb).headers.setAll stricmpKey
      (headerPairs (p.call cb).fieldTmp cbs) =
    p.headers.setAll stricmpKey (headerPairs p.fieldTmp (cb :: cbs)) := by
  rcases cb with ⟨_ | _ | _ | _ | _, t⟩ | _ | _ | _ | _ | _ <;> try rfl
  cases h : http_parser_parse_url t false with
  | none => simp [call_url_none p h, headerPairs]
  | some u => cases hr : p.request <;> simp [call, on_url, h, hr, headerPairs]

/-- A callback that passes leaves the parser without an error. -/
theorem call_passes (hcb : Passes cb) (hp : p.http_errno = .HPE_OK) :
    (p.call cb).http_errno = .HPE_OK := by
  rcases cb with ⟨_ | _ | _ | _ | _, t⟩ | _ | _ | _ | _ | _ <;> try exact hp
  · obtain ⟨u, hu⟩ := Option.isSome_iff_exists.1 hcb
    cases hr : p.request <;> simp [call, on_url, hu, hr, hp]
  · exact hcb.elim

/-- Only `on_message_complete` changes the state. -/
theorem call_state (hcb : cb ≠ .notify .on_message_complete) : (p.call cb).state = p.state := by
  rcases cb with ⟨_ | _ | _ | _ | _, t⟩ | _ | _ | _ | _ | _ <;> try rfl
  · cases h : http_parser_parse_url t false with
    | none => rw [call_url_none p h]
    | some u => cases hr : p.request <;> simp [call, on_url, h, hr]
  · exact absurd rfl hcb

/-- A component after some callbacks: the last one that they tell of, or the one
before them. -/
theorem foldl_call_urlFields (uf : UrlField) : (cbs.foldl call p).urlFields uf =
    (lastComponent uf (urlsOf p.request cbs)).getD (p.urlFields uf) := by
  induction cbs generalizing p with
  | nil => cases hr : p.request <;> rfl
  | cons cb cbs ih =>
    rw [List.foldl_cons, ih, call_request, call_urlFields, urlsOf_cons p.request cb cbs,
      lastComponent_append]
    cases lastComponent uf (urlsOf p.request cbs) <;> rfl

/-- The parameters after some callbacks, set in the order in which they were
told. -/
theorem foldl_call_params : (cbs.foldl call p).params =
    p.params.setAll stricmpKey ((urlsOf p.request cbs).flatMap urlPairs) := by
  induction cbs generalizing p with
  | nil => cases hr : p.request <;> rfl
  | cons cb cbs ih =>
    rw [List.foldl_cons, ih, call_request, call_params, urlsOf_cons p.request cb cbs,
      List.flatMap_append, KeyMap.setAll_append]

/-- The headers after some callbacks, set in the order in which they were told. -/
theorem foldl_call_headers : (cbs.foldl call p).headers =
    p.headers.setAll stricmpKey (headerPairs p.fieldTmp cbs) := by
  induction cbs generalizing p with
  | nil => rfl
  | cons cb cbs ih => rw [List.foldl_cons, ih, call_headers]

/-- The body after some callbacks. -/
theorem foldl_call_body : (cbs.foldl call p).body = p.body ++ bodyOf cbs := by
  induction cbs generalizing p with
  | nil => exact (List.append_nil _).symm
  | cons cb cbs ih => rw [List.foldl_cons, ih, call_body, List.append_assoc]; rfl

/-- **What callbacks make of the members**, when they come in the right order. -/
theorem foldl_call_content {cbs : List Callback} (hcbs : FieldFirst cbs) :
    (cbs.foldl call p).toContent = p.toContent.after p.request cbs := by
  have hfields := funext fun uf => p.foldl_call_urlFields cbs uf
  have hheaders := p.foldl_call_headers cbs
  rw [headerPairs_fieldFirst hcbs p.fieldTmp []] at hheaders
  rw [Content.after, ← hfields, ← hheaders, ← foldl_call_params, ← foldl_call_body]

/-- Only `on_message_complete` completes a message. -/
theorem runCallbacks_state (e : HttpErrno) {cbs : List Callback}
    (hcbs : .notify .on_message_complete ∉ cbs) : (p.runCallbacks cbs e).state = p.state := by
  induction cbs generalizing p with
  | nil => rfl
  | cons cb cbs ih =>
    have hstate := p.call_state cb fun h => hcbs (h ▸ List.mem_cons_self)
    rw [runCallbacks]
    split
    · rw [ih _ fun h => hcbs (List.mem_cons_of_mem _ h), hstate]
    · exact hstate

/-- **A URL that is rejected is the last callback.** -/
theorem runCallbacks_rejected (e : HttpErrno) {cbs : List Callback} (rest : List Callback)
    (hcbs : .notify .on_message_complete ∉ cbs) (hbad : ∃ cb ∈ cbs, ¬Passes cb) :
    (p.runCallbacks (cbs ++ rest) e).state = p.state := by
  induction cbs generalizing p with
  | nil => simp at hbad
  | cons cb cbs ih =>
    have hstate := p.call_state cb fun h => hcbs (h ▸ List.mem_cons_self)
    rw [List.cons_append, runCallbacks]
    split
    · rename_i hok
      rw [ih _ (fun h => hcbs (List.mem_cons_of_mem _ h)), hstate]
      obtain ⟨c, hc, hnot⟩ := hbad
      rcases List.mem_cons.1 hc with rfl | hc
      · rcases c with ⟨_ | _ | _ | _ | _, t⟩ | _ | _ | _ | _ | _ <;> try exact absurd trivial hnot
        · rw [call_url_none p (Option.not_isSome_iff_eq_none.1 hnot)] at hok
          cases hok
        · exact absurd List.mem_cons_self hcbs
      · exact ⟨c, hc, hnot⟩
    · exact hstate

/-- The callbacks of an unfinished message are all made, if its URL is accepted. -/
theorem runCallbacks_cut (e : HttpErrno) {E T : List Callback} (h : Cut E T)
    (hE : ∀ cb ∈ E, Passes cb) (hp : p.http_errno = .HPE_OK) :
    (p.runCallbacks T e).toContent = (T.foldl call p).toContent := by
  induction h generalizing p with
  | nil => rfl
  | text cb t j E =>
    rw [runCallbacks]
    split <;> rfl
  | cons c _ ih =>
    rw [runCallbacks, if_pos (p.call_passes c (hE c List.mem_cons_self) hp)]
    exact ih _ (fun cb hcb => hE cb (List.mem_cons_of_mem _ hcb))
      (p.call_passes c (hE c List.mem_cons_self) hp)

/-- So are those of a whole message. -/
theorem runCallbacks_complete (e : HttpErrno) {cbs : List Callback} (hcbs : ∀ cb ∈ cbs, Passes cb)
    (hp : p.http_errno = .HPE_OK) :
    p.runCallbacks (cbs ++ [.notify .on_message_complete]) e =
      (cbs.foldl call p).on_message_complete := by
  induction cbs generalizing p with
  | nil => rfl
  | cons cb cbs ih =>
    have hok := p.call_passes cb (hcbs cb List.mem_cons_self) hp
    rw [List.cons_append, runCallbacks, if_pos hok]
    exact ih _ (fun c hc => hcbs c (List.mem_cons_of_mem _ hc)) hok

/-- A run of callbacks with its error does not change whether the parser is for
requests. -/
theorem runCallbacks_request (e : HttpErrno) : (p.runCallbacks cbs e).request = p.request := by
  induction cbs generalizing p with
  | nil => rfl
  | cons cb cbs ih =>
    rw [runCallbacks]
    split
    · rw [ih, call_request]
    · exact p.call_request cb

end HttpParser

/-! ### A call of `execute` -/

/-- Notifications behind some callbacks leave the order of names and values. -/
theorem FieldFirst.append_notify {cbs : List Callback} (h : FieldFirst cbs) (l : List NotifyCb) :
    FieldFirst (cbs ++ l.map .notify) := by
  induction cbs with
  | nil =>
    induction l with
    | nil => trivial
    | cons c l ih => exact ih
  | cons c cbs ih =>
    rcases c with ⟨_ | _ | _ | _ | _, t⟩ | cb
    · exact ih h
    · exact ih h
    · trivial
    · exact h
    · exact ih h
    · exact ih h

namespace Message

variable (m : Message)

/-- A message is complete once, at its end. -/
theorem not_mem_before : Callback.notify .on_message_complete ∉ m.before := m.once

/-- The callbacks of a message: those of its pieces, then the notifications at
its end. -/
theorem callbacks_eq : m.callbacks = m.pieces.flatMap Piece.callbacks ++
    (m.fired ++ [NotifyCb.on_message_complete]).map .notify := by
  simp [callbacks, before]

/-- In a message a header's name comes before its value. -/
theorem fieldFirst_callbacks : FieldFirst m.callbacks := by
  rw [callbacks_eq]
  exact m.fieldFirst.append_notify _

/-- The callbacks of the first `n` bytes are a cut of those before the end. -/
theorem cut_before (n : ℕ) : Cut m.before (m.truncated n) :=
  (Piece.truncate_cut n m.pieces).append_right _

/-- The callbacks of the first `n` bytes are a cut of those of the whole
message. -/
theorem cut_callbacks (n : ℕ) : Cut m.callbacks (m.truncated n) := (m.cut_before n).append_right _

variable {m}

/-- All callbacks of an accepted message pass. -/
theorem passes_of_accepted (h : m.Accepted) : ∀ cb ∈ m.before, Passes cb := by
  rintro cb hcb
  rcases cb with ⟨_ | _ | _ | _ | _, t⟩ | _ | _ | _ | _ | _ <;> try trivial
  · refine h t (List.mem_flatMap.2 ⟨_, List.mem_append_left _ hcb, ?_⟩)
    exact List.mem_singleton_self t
  · exact m.once hcb

/-- A message that is not accepted has a request target that is rejected. -/
theorem rejected_of_not_accepted (h : ¬m.Accepted) : ∃ cb ∈ m.before, ¬Passes cb := by
  simp only [Accepted, not_forall] at h
  obtain ⟨url, hurl, hbad⟩ := h
  obtain ⟨cb, hcb, hmem⟩ := List.mem_flatMap.1 hurl
  rcases cb with ⟨_ | _ | _ | _ | _, t⟩ | cb <;> try exact absurd hmem List.not_mem_nil
  obtain rfl := List.mem_singleton.1 hmem
  rcases List.mem_append.1 hcb with hcb | hcb
  · exact ⟨_, hcb, hbad⟩
  · simp at hcb

end Message

namespace HttpParser

variable {scan : Bytes → Scan} {m : Message} {p : HttpParser} {data : Bytes} {n : ℕ}

/-- A call of a parser without an error is a run of the callbacks that the scan
of the bytes gives. -/
theorem execute_of_ok {cbs : List Callback} {e : HttpErrno} (hp : p.http_errno = .HPE_OK)
    (hscan : scan data = ⟨cbs, n, e⟩) :
    p.execute scan data = (runCallbacks { p with state := .parsing } cbs e, n) := by
  have hun : unpause { p with state := .parsing } = { p with state := .parsing } := by
    rw [unpause, if_neg (by rw [hp]; decide)]
  rw [execute, hun, hscan]
  exact if_pos hp

/-- A call does not change whether the parser is for requests. -/
theorem execute_request (hp : p.http_errno = .HPE_OK) :
    (p.execute scan data).1.request = p.request := by
  rw [execute_of_ok hp rfl]
  exact runCallbacks_request ..

/-- An unfinished message does not complete. -/
theorem execute_truncated_state (hm : m.Emits scan) (hp : p.http_errno = .HPE_OK) (h0 : 0 < n)
    (hn : n < m.wire.length) : (p.execute scan (m.wire.take n)).1.isComplete = false := by
  have hnot : Callback.notify .on_message_complete ∉ m.truncated n :=
    fun h => m.not_mem_before ((m.cut_before n).notify_mem h)
  rw [execute_of_ok hp (hm.cut n h0 hn), isComplete, runCallbacks_state _ _ hnot]
  rfl

/-- **What an unfinished message leaves in the parser.** -/
theorem execute_truncated (hm : m.Emits scan) (hacc : m.Accepted) (hp : p.http_errno = .HPE_OK)
    (h0 : 0 < n) (hn : n < m.wire.length) :
    (p.execute scan (m.wire.take n)).1.toContent =
      p.toContent.after p.request (m.truncated n) := by
  have hfirst := (m.cut_callbacks n).fieldFirst m.fieldFirst_callbacks
  have hrun := runCallbacks_cut { p with state := .parsing } .HPE_OK (m.cut_before n)
    (Message.passes_of_accepted hacc) hp
  rw [execute_of_ok hp (hm.cut n h0 hn)]
  exact hrun.trans (foldl_call_content _ hfirst)

variable (data) in
/-- **A whole message completes**, and is what has been read. -/
theorem execute_wire (hm : m.Emits scan) (hacc : m.Accepted) (hp : p.http_errno = .HPE_OK) :
    (p.execute scan (m.wire ++ data)).1.isComplete = true ∧
      (p.execute scan (m.wire ++ data)).1.toContent = p.toContent.after p.request m.callbacks ∧
      (p.execute scan (m.wire ++ data)).2 = m.wire.length := by
  have hrun := runCallbacks_complete { p with state := .parsing } .HPE_OK
    (Message.passes_of_accepted hacc) hp
  have hcontent := foldl_call_content { p with state := .parsing } m.fieldFirst_callbacks
  rw [Message.callbacks, List.foldl_append] at hcontent
  rw [execute_of_ok hp (hm.whole data), Message.callbacks, hrun]
  exact ⟨rfl, hcontent, rfl⟩

variable (data) in
/-- **A message whose URL is rejected never completes.** -/
theorem execute_rejected (hm : m.Emits scan) (hbad : ¬m.Accepted) (hp : p.http_errno = .HPE_OK) :
    (p.execute scan (m.wire ++ data)).1.isComplete = false := by
  have hstate := runCallbacks_rejected { p with state := .parsing } .HPE_OK
    [.notify .on_message_complete] m.not_mem_before (Message.rejected_of_not_accepted hbad)
  rw [execute_of_ok hp (hm.whole data), isComplete, Message.callbacks, hstate]
  rfl

end HttpParser

end Http
end Net
end Sevent
