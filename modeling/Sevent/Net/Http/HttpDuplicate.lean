/-
# What `duplicate` copies

`HttpRequest::duplicate` and `HttpResponse::duplicate` copy the parser of a
message and make a new message with the constructor that takes a `shared_ptr`.
That constructor sets no other member: the copy has no URL, and its version, and
its method or status, are whatever its memory held.

So `toString` and the getters of the copy return what those of the original do,
and neither message is changed by the setters of the other (`copyOf_duplicate`);
but `buildString`, which prints the members that are not copied, agrees only when
the original has no URL either and the memory of the copy happened to hold its
version and method, or status (`results_duplicate_iff`).
-/

import Sevent.Net.Http.HttpMessage

namespace Sevent
namespace Net
namespace Http

/-! ### The texts of the first lines -/

/-- A text is cut at its first blank in one way. -/
theorem cut_at_blank {a b x y : Bytes} (ha : ' '.toUInt8 ∉ a) (hb : ' '.toUInt8 ∉ b)
    (h : a ++ ' '.toUInt8 :: x = b ++ ' '.toUInt8 :: y) : a = b ∧ x = y := by
  induction a generalizing b with
  | nil =>
    cases b with
    | nil => exact ⟨rfl, (List.cons.inj h).2⟩
    | cons c b => exact absurd (List.mem_cons.2 (.inl (List.cons.inj h).1)) hb
  | cons c a ih =>
    cases b with
    | nil => exact absurd (List.mem_cons.2 (.inl (List.cons.inj h).1.symm)) ha
    | cons d b =>
      obtain ⟨hcd, htail⟩ := List.cons.inj h
      obtain ⟨hab, hxy⟩ := ih (fun hm => ha (List.mem_cons_of_mem _ hm))
        (fun hm => hb (List.mem_cons_of_mem _ hm)) htail
      exact ⟨by rw [hcd, hab], hxy⟩

/-- The name of a method has no blank, so the blank behind it ends it. -/
theorem blank_notMem_method (m : HttpMethod) : ' '.toUInt8 ∉ methodToString m := by
  cases m <;> decide

/-- The names of the versions have one length. -/
theorem length_versionToString (v : HttpVersion) : (versionToString v).length = 8 := by
  cases v <;> rfl

/-- There is another version than any given one. -/
theorem exists_ne_version (v : HttpVersion) : ∃ v', v' ≠ v := by
  cases v with
  | HTTP_1_0 => exact ⟨.HTTP_1_1, by decide⟩
  | HTTP_1_1 => exact ⟨.HTTP_1_0, by decide⟩
  | HTTP_2_0 => exact ⟨.HTTP_1_0, by decide⟩

/-- The versions have different names. -/
theorem versionToString_inj {v v' : HttpVersion} (h : versionToString v = versionToString v') :
    v = v' := by
  revert h
  cases v <;> cases v' <;> decide

/-- The methods. -/
def HttpMethod.all : List HttpMethod :=
  [.HTTP_DELETE, .HTTP_GET, .HTTP_HEAD, .HTTP_POST, .HTTP_PUT, .HTTP_CONNECT, .HTTP_OPTIONS,
    .HTTP_TRACE, .HTTP_COPY, .HTTP_LOCK, .HTTP_MKCOL, .HTTP_MOVE, .HTTP_PROPFIND, .HTTP_PROPPATCH,
    .HTTP_SEARCH, .HTTP_UNLOCK, .HTTP_BIND, .HTTP_REBIND, .HTTP_UNBIND, .HTTP_ACL, .HTTP_REPORT,
    .HTTP_MKACTIVITY, .HTTP_CHECKOUT, .HTTP_MERGE, .HTTP_MSEARCH, .HTTP_NOTIFY, .HTTP_SUBSCRIBE,
    .HTTP_UNSUBSCRIBE, .HTTP_PATCH, .HTTP_PURGE, .HTTP_MKCALENDAR, .HTTP_LINK, .HTTP_UNLINK,
    .HTTP_SOURCE]

/-- A method is the first one with its name. -/
theorem find_method (m : HttpMethod) :
    (HttpMethod.all.find? fun n => methodToString n = methodToString m) = some m := by
  cases m <;> decide +kernel

/-- The methods have different names. -/
theorem methodToString_inj {m m' : HttpMethod} (h : methodToString m = methodToString m') :
    m = m' := by
  have hfind := find_method m
  rw [h, find_method m'] at hfind
  exact (Option.some.inj hfind).symm

/-- The code of a status has no blank, so the blank behind it ends it. -/
theorem blank_notMem_code (s : HttpStatus) : ' '.toUInt8 ∉ to_string s.code := by
  cases s <;> decide +kernel

/-- A status is the first one with its code. -/
theorem find_status (s : HttpStatus) :
    (HttpStatus.all.find? fun t => to_string t.code = to_string s.code) = some s := by
  cases s <;> decide +kernel

/-- The statuses have different codes. -/
theorem code_inj {s s' : HttpStatus} (h : to_string s.code = to_string s'.code) : s = s' := by
  have hfind := find_status s
  rw [h, find_status s'] at hfind
  exact (Option.some.inj hfind).symm

/-- **The first line of a request without a URL.** -/
theorem HttpRequest.builtLine_eq_iff {v : HttpVersion} {m : HttpMethod} {f : RequestFields} :
    builtLine ⟨v, m, []⟩ = builtLine f ↔ f.url = [] ∧ (v, m) = (f.httpVersion, f.httpMethod) := by
  constructor
  · intro h
    have hcut : methodToString m ++ ' '.toUInt8 :: (text " " ++ versionToString v) =
        methodToString f.httpMethod ++ ' '.toUInt8 ::
          ((f.url ++ text " ") ++ versionToString f.httpVersion) := by
      simpa [builtLine, text] using h
    obtain ⟨hm, hrest⟩ :=
      cut_at_blank (blank_notMem_method m) (blank_notMem_method f.httpMethod) hcut
    obtain ⟨hurl, hv⟩ := List.append_inj' hrest
      ((length_versionToString v).trans (length_versionToString f.httpVersion).symm)
    have hlen := congrArg List.length hurl
    rw [List.length_append] at hlen
    refine ⟨List.eq_nil_of_length_eq_zero (by omega), ?_⟩
    rw [methodToString_inj hm, versionToString_inj hv]
  · rintro ⟨hurl, hown⟩
    obtain ⟨rfl, rfl⟩ := Prod.mk.inj hown
    unfold builtLine
    rw [hurl]

/-- **The first line of a response.** -/
theorem HttpResponse.builtLine_eq_iff {v : HttpVersion} {s : HttpStatus} {f : ResponseFields} :
    builtLine ⟨v, s⟩ = builtLine f ↔ (v, s) = (f.httpVersion, f.httpStatus) := by
  constructor
  · intro h
    have hlen : (versionToString v).length = (versionToString f.httpVersion).length :=
      (length_versionToString v).trans (length_versionToString f.httpVersion).symm
    unfold builtLine at h
    dsimp only at h
    rw [List.append_assoc, List.append_assoc (versionToString f.httpVersion)] at h
    obtain ⟨hv, hrest⟩ := List.append_inj h hlen
    have hcut : to_string s.code ++ ' '.toUInt8 :: statusdToString s =
        to_string f.httpStatus.code ++ ' '.toUInt8 :: statusdToString f.httpStatus := by
      simpa [text] using hrest
    rw [versionToString_inj hv,
      code_inj (cut_at_blank (blank_notMem_code s) (blank_notMem_code f.httpStatus) hcut).1]
  · intro hown
    obtain ⟨rfl, rfl⟩ := Prod.mk.inj hown
    rfl

/-! ### The parsers of two messages -/

namespace HttpMessage

variable {F : Type} {w : Heap}

/-- A setter changes the parser of its message only. -/
theorem parsers_set (m : HttpMessage F) (s : Setter F) {address : ℕ} (h : address ≠ m.parser) :
    (m.set w s).1.parsers address = w.parsers address ∧ (m.set w s).2.parser = m.parser := by
  cases s with
  | setBody val => exact ⟨Function.update_of_ne h _ _, rfl⟩
  | setHeader key val => exact ⟨Function.update_of_ne h _ _, rfl⟩
  | own f => exact ⟨rfl, rfl⟩

/-- **Setters of one message leave the parsers of others alone.** -/
theorem parsers_sets (m : HttpMessage F) (calls : List (Setter F)) {address : ℕ}
    (h : address ≠ m.parser) : (m.sets w calls).1.parsers address = w.parsers address := by
  induction calls generalizing w m with
  | nil => rfl
  | cons s calls ih =>
    obtain ⟨hparsers, hparser⟩ := parsers_set (w := w) m s h
    exact (ih (m.set w s).2 (hparser ▸ h)).trans hparsers

/-- The parser of a copy is a copy of the parser. -/
theorem parsers_duplicate (m : HttpMessage F) (own : F) :
    (m.duplicate w own).1.parsers (m.duplicate w own).2.parser = w.parsers m.parser :=
  Function.update_self ..

variable [MessageFields F]

/-- The setters of each of two messages do not change what the other returns. -/
def Independent (w : Heap) (a b : HttpMessage F) : Prop :=
  ∀ calls, b.results (a.sets w calls).1 = b.results w ∧ a.results (b.sets w calls).1 = a.results w

/-- What a user sees of a message depends on its parser and its members only. -/
theorem results_congr {w' : Heap} {m : HttpMessage F}
    (h : w'.parsers m.parser = w.parsers m.parser) : m.results w' = m.results w := by
  unfold results buildString toString
  rw [h]

/-- Messages with two parsers are independent: what is set in one is not seen in
the other. -/
theorem independent_of_ne {a b : HttpMessage F} (h : a.parser ≠ b.parser) : Independent w a b :=
  fun calls => ⟨results_congr (parsers_sets a calls h.symm), results_congr (parsers_sets b calls h)⟩

/-- What a copy `d` has in common with the message `m`, whatever is in its own
members: the setters of each leave the other alone, making the copy has not
changed `m`, and `toString` and the getters agree. -/
structure CopyOf (w : Heap) (m : HttpMessage F) (d : Heap × HttpMessage F) : Prop where
  independent : Independent d.1 m d.2
  original : m.results d.1 = m.results w
  toString : d.2.toString d.1 = m.toString w
  getters : (d.2.results d.1).getters = (m.results w).getters

/-- **The copy has a parser of its own with the same members.** -/
theorem copyOf_duplicate (m : HttpMessage F) (own : F) (h : m.Valid w) :
    CopyOf w m (m.duplicate w own) := by
  have hne : m.parser ≠ w.size := Nat.ne_of_lt h
  have hold : (m.duplicate w own).1.parsers m.parser = w.parsers m.parser :=
    Function.update_of_ne hne _ _
  refine ⟨independent_of_ne hne, results_congr hold, ?_, ?_⟩
  · unfold HttpMessage.toString
    rw [parsers_duplicate]
  · unfold results
    rw [parsers_duplicate]

/-- **The results of a copy are those of the original exactly when the first line
that `buildString` prints is the same.** -/
theorem results_duplicate_iff (m : HttpMessage F) (own : F) (h : m.Valid w) :
    (m.duplicate w own).2.results (m.duplicate w own).1 = m.results w ↔
      MessageFields.builtLine own = MessageFields.builtLine m.own := by
  constructor
  · intro hresults
    have hbuilt := congrArg Results.buildString hresults
    change (m.duplicate w own).2.buildString (m.duplicate w own).1 = m.buildString w at hbuilt
    unfold buildString at hbuilt
    rw [parsers_duplicate] at hbuilt
    exact List.append_cancel_right (List.append_cancel_right hbuilt)
  · intro hline
    have hcopy := copyOf_duplicate m own h
    have hbuilt : (m.duplicate w own).2.buildString (m.duplicate w own).1 = m.buildString w := by
      unfold buildString
      rw [parsers_duplicate, ← hline]
      rfl
    have hgetters := hcopy.getters
    unfold results at hgetters ⊢
    dsimp only at hgetters
    rw [hbuilt, hcopy.toString, hgetters]

end HttpMessage

/-! ### Requests and responses -/

/-- **When `duplicate` is faithful.**  A copy of a message is independent of it,
and `toString` and the getters agree; all results agree exactly when the memory
of the copy held the members that nobody sets and, for a request, the original
has no URL.  There is no message for which that is certain. -/
theorem duplicate_faithful_iff (w : Heap) :
    (∀ r : HttpRequest, r.Valid w →
      (∀ memory, HttpMessage.CopyOf w r (r.duplicate w memory) ∧
        ((r.duplicate w memory).2.results (r.duplicate w memory).1 = r.results w ↔
          r.own.url = [] ∧ memory = (r.own.httpVersion, r.own.httpMethod))) ∧
      ∃ memory, (r.duplicate w memory).2.results (r.duplicate w memory).1 ≠ r.results w) ∧
    ∀ r : HttpResponse, r.Valid w →
      (∀ memory, HttpMessage.CopyOf w r (r.duplicate w memory) ∧
        ((r.duplicate w memory).2.results (r.duplicate w memory).1 = r.results w ↔
          memory = (r.own.httpVersion, r.own.httpStatus))) ∧
      ∃ memory, (r.duplicate w memory).2.results (r.duplicate w memory).1 ≠ r.results w := by
  constructor
  · intro r hr
    have hiff : ∀ memory : HttpVersion × HttpMethod,
        (r.duplicate w memory).2.results (r.duplicate w memory).1 = r.results w ↔
          r.own.url = [] ∧ memory = (r.own.httpVersion, r.own.httpMethod) := fun memory =>
      (HttpMessage.results_duplicate_iff r _ hr).trans HttpRequest.builtLine_eq_iff
    refine ⟨fun memory => ⟨HttpMessage.copyOf_duplicate r _ hr, hiff memory⟩, ?_⟩
    -- the memory may hold another version
    obtain ⟨v, hv⟩ := exists_ne_version r.own.httpVersion
    refine ⟨(v, r.own.httpMethod), fun h => hv ?_⟩
    exact congrArg Prod.fst ((hiff (v, r.own.httpMethod)).1 h).2
  · intro r hr
    have hiff : ∀ memory : HttpVersion × HttpStatus,
        (r.duplicate w memory).2.results (r.duplicate w memory).1 = r.results w ↔
          memory = (r.own.httpVersion, r.own.httpStatus) := fun memory =>
      (HttpMessage.results_duplicate_iff r _ hr).trans HttpResponse.builtLine_eq_iff
    refine ⟨fun memory => ⟨HttpMessage.copyOf_duplicate r _ hr, hiff memory⟩, ?_⟩
    obtain ⟨v, hv⟩ := exists_ne_version r.own.httpVersion
    refine ⟨(v, r.own.httpStatus), fun h => hv ?_⟩
    exact congrArg Prod.fst ((hiff (v, r.own.httpStatus)).1 h)

/-- A heap without parsers. -/
def Heap.none : Heap := ⟨fun _ => .new true, 0⟩

/-- `HttpRequest request; request.setUrl("/");` -/
def requestOfSlash : Heap × HttpRequest :=
  let new := HttpRequest.new Heap.none .HTTP_1_1 .HTTP_GET
  new.2.sets new.1 [HttpRequest.setUrl (text "/")]

/-- The copy of a request for `/`, at some content of its memory, is not printed
as the request is. -/
theorem duplicate_faithful_slash :
    ∃ memory, (requestOfSlash.2.duplicate requestOfSlash.1 memory).2.results
      (requestOfSlash.2.duplicate requestOfSlash.1 memory).1 ≠
        requestOfSlash.2.results requestOfSlash.1 :=
  ((duplicate_faithful_iff requestOfSlash.1).1 requestOfSlash.2 (by decide)).2

/-- Not every copy is faithful: it has no URL, even when its memory happens to hold
the right version and method. -/
theorem duplicate_drops_url :
    ¬ ∀ (w : Heap) (r : HttpRequest) (memory : HttpVersion × HttpMethod), r.Valid w →
      (r.duplicate w memory).2.results (r.duplicate w memory).1 = r.results w := by
  intro h
  have hresults := h requestOfSlash.1 requestOfSlash.2 (.HTTP_1_1, .HTTP_GET) (by decide)
  have hbuilt : text "GET  HTTP/1.1\r\n\r\n" = text "GET / HTTP/1.1\r\n\r\n" :=
    congrArg Results.buildString hresults
  exact absurd hbuilt (by decide)

end Http
end Net
end Sevent
