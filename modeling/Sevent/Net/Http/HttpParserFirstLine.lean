/-
# The first line of a message

What `http_parser_execute` makes of a request line and of a status line.  The
fixed parts are run (`walk_method`, `reads_version`, `walk_code`); a URL goes
through the states of `parse_url_char` (`InUrl.reads`) and must end in one of
`urlEnds`, as every URL does that `http_parser_parse_url` accepts
(`urlEnds_of_accepted`).  The lines are `reads_requestLine` and
`reads_statusLine`.
-/

import Mathlib.Data.List.Basic
import Sevent.Net.Http.HttpParserReads
namespace Sevent
namespace Net
namespace Http
namespace Exec

variable {M : ℕ} {x y z : Exec} {ch : UInt8} {bs cs : Bytes}

/-! ### The URL -/

/-- The state of a URL after some characters; `s_dead` is not left. -/
def urlEnd (s : UrlState) (url : Bytes) : UrlState := url.foldl parse_url_char s

/-- A URL that was refused stays refused. -/
theorem urlEnd_dead (url : Bytes) : urlEnd .s_dead url = .s_dead := by
  induction url with
  | nil => rfl
  | cons ch url ih =>
    have hdead : parse_url_char .s_dead ch = .s_dead := by
      unfold parse_url_char
      split <;> rfl
    exact (congrArg (urlEnd · url) hdead).trans ih

/-- No character of a URL leads back to the spaces before it. -/
theorem parse_url_char_ne (s : UrlState) (ch : UInt8) :
    parse_url_char s ch ≠ .s_req_spaces_before_url := by
  unfold parse_url_char parse_server_char
  split
  · exact nofun
  · cases s with
    | s_dead => exact nofun
    | _ => dsimp only; split_ifs <;> exact nofun

/-- After at least one character the URL is begun. -/
theorem urlEnd_ne {s : UrlState} {url : Bytes} (hne : url ≠ []) :
    urlEnd s url ≠ .s_req_spaces_before_url := by
  rw [← List.dropLast_append_getLast hne, urlEnd, List.foldl_append]
  exact parse_url_char_ne _ _

/-- A URL may end in these states. -/
def urlEnds : UrlState → Bool
  | .s_req_server | .s_req_server_with_at | .s_req_path | .s_req_query_string_start
  | .s_req_query_string | .s_req_fragment_start | .s_req_fragment => true
  | _ => false

/-- The states between the scheme and the host. -/
def inSchema : UrlState → Bool
  | .s_req_schema | .s_req_schema_slash | .s_req_schema_slash_slash | .s_req_server_start => true
  | _ => false

/-- There is no host before its first character. -/
structure NoHost (s : UrlState) (old_uf : Option UrlField) (u : ParsedUrl) : Prop where
  start : s = .s_req_spaces_before_url → old_uf = none ∧ u .UF_HOST = none
  schema : inSchema s = true → (u .UF_SCHEMA).isSome = true ∧ u .UF_HOST = none

/-- A state in the scheme comes after the start or another one of these. -/
theorem inSchema_parse_url_char {s : UrlState} {ch : UInt8}
    (h : inSchema (parse_url_char s ch) = true) :
    (s = .s_req_spaces_before_url ∧ parse_url_char s ch = .s_req_schema) ∨ inSchema s = true := by
  unfold parse_url_char parse_server_char at h ⊢
  split at h
  · cases h
  · cases s with
    | s_req_schema | s_req_schema_slash | s_req_schema_slash_slash | s_req_server_start =>
      exact Or.inr rfl
    | s_dead => cases h
    | s_req_spaces_before_url =>
      refine Or.inl ⟨rfl, ?_⟩
      dsimp only at h ⊢
      split at h
      · cases h
      · split at h
        · next hno hslash halpha => rw [if_neg hno, if_neg hslash, if_pos halpha]
        · cases h
    | _ =>
      dsimp only at h
      split_ifs at h <;> cases h

/-- The component of a state in the scheme. -/
theorem fieldOf_inSchema {s : UrlState} {uf : UrlField} (hs : inSchema s = true)
    (huf : fieldOf s = some uf) : uf = .UF_SCHEMA := by
  cases s with
  | s_req_schema => exact (Option.some.inj huf).symm
  | s_req_schema_slash | s_req_schema_slash_slash | s_req_server_start => cases huf
  | _ => cases hs

/-- A character that belongs to no component leaves the host out. -/
theorem NoHost.next {s : UrlState} {old_uf : Option UrlField} {u : ParsedUrl}
    (h : NoHost s old_uf u) (ch : UInt8) (hnone : fieldOf (parse_url_char s ch) = none) :
    NoHost (parse_url_char s ch) old_uf u where
  start hs := absurd hs (parse_url_char_ne s ch)
  schema hs := by
    rcases inSchema_parse_url_char hs with ⟨-, hschema⟩ | hin
    · rw [hschema] at hnone
      cases hnone
    · exact h.schema hin

/-- A character of a component extends it, or starts it; before the server part
this is never the host. -/
theorem NoHost.field {s : UrlState} {old_uf : Option UrlField} {u : ParsedUrl}
    (h : NoHost s old_uf u) (ch : UInt8) {uf : UrlField}
    (huf : fieldOf (parse_url_char s ch) = some uf) (d : FieldData) :
    NoHost (parse_url_char s ch) (some uf)
      (if old_uf = some uf then incLen u uf else put u uf d) where
  start hs := absurd hs (parse_url_char_ne s ch)
  schema hs := by
    obtain rfl := fieldOf_inSchema hs huf
    have hu : u .UF_HOST = none ∧ (old_uf = some .UF_SCHEMA → (u .UF_SCHEMA).isSome = true) := by
      rcases inSchema_parse_url_char hs with ⟨hstart, -⟩ | hin
      · obtain ⟨hold, hhost⟩ := h.start hstart
        exact ⟨hhost, fun heq => absurd (hold.symm.trans heq) nofun⟩
      · exact ⟨(h.schema hin).2, fun _ => (h.schema hin).1⟩
    obtain ⟨hhost, hschema⟩ := hu
    split
    · next heq =>
        refine ⟨?_, ?_⟩
        · rw [incLen, Function.update_self, Option.isSome_map]
          exact hschema heq
        · rw [incLen, Function.update_of_ne (by decide)]
          exact hhost
    · refine ⟨?_, ?_⟩
      · rw [put, Function.update_self]
        rfl
      · rw [put, Function.update_of_ne (by decide)]
        exact hhost

/-- The loop of `http_parser_parse_url` goes through the same states. -/
theorem urlLoop_spec {url : Bytes} {pos : ℕ} {s : UrlState} {old_uf : Option UrlField}
    {found_at found_at' : Bool} {u u' : ParsedUrl} (h : NoHost s old_uf u) (hs : s ≠ .s_dead)
    (hloop : urlLoop url pos s old_uf found_at u = some (u', found_at')) :
    urlEnd s url ≠ .s_dead ∧ ∃ old_uf', NoHost (urlEnd s url) old_uf' u' := by
  induction url generalizing pos s old_uf found_at u with
  | nil =>
    cases hloop
    exact ⟨hs, old_uf, h⟩
  | cons ch url ih =>
    unfold urlLoop at hloop
    dsimp only at hloop
    split at hloop
    · cases hloop
    · next halive =>
        split at hloop
        · next hnone => exact ih (h.next ch hnone) halive hloop
        · next uf huf =>
            have hfield := h.field ch huf { off := UInt16.ofNat pos, len := 1 }
            split at hloop
            · next heq =>
                rw [if_pos heq, ← heq] at hfield
                exact ih hfield halive hloop
            · next hne =>
                rw [if_neg hne] at hfield
                exact ih hfield halive hloop

/-- **A URL that `http_parser_parse_url` accepts** may end where it does. -/
theorem urlEnds_of_accepted {url : Bytes} (h : (http_parser_parse_url url false).isSome = true) :
    urlEnds (urlEnd .s_req_spaces_before_url url) = true := by
  unfold http_parser_parse_url at h
  split at h
  · cases h
  · next hne =>
      split at h
      · cases h
      · next u found_at hloop =>
          split at h
          · cases h
          · next hhost =>
              obtain ⟨halive, old_uf, hend⟩ := urlLoop_spec
                (s := .s_req_spaces_before_url) ⟨fun _ => ⟨rfl, rfl⟩, nofun⟩ nofun hloop
              have hstart := urlEnd_ne (s := .s_req_spaces_before_url) hne
              have hschema : inSchema (urlEnd .s_req_spaces_before_url url) ≠ true := by
                intro hin
                obtain ⟨hsome, hnone⟩ := hend.schema hin
                rw [hsome, hnone] at hhost
                exact hhost rfl
              generalize urlEnd .s_req_spaces_before_url url = s at *
              cases s with
              | s_dead => exact absurd rfl halive
              | s_req_spaces_before_url => exact absurd rfl hstart
              | s_req_schema | s_req_schema_slash | s_req_schema_slash_slash | s_req_server_start =>
                exact absurd rfl hschema
              | _ => rfl

/-- No blank and no end of a line, which would end the URL. -/
def UrlByte (ch : UInt8) : Prop := ch ≠ 32 ∧ ch ≠ CR ∧ ch ≠ LF

instance (ch : UInt8) : Decidable (UrlByte ch) := inferInstanceAs (Decidable (_ ∧ _ ∧ _))

/-- `MARK`: the place of the first byte of the data, unless one is set. -/
theorem MARK_eq (x : Exec) (cb : DataCb) :
    x.MARK cb = { x with mark := some (x.mark.getD (cb, [])) } := by
  obtain ⟨parser, nread, pos, mark, inner, round, calls⟩ := x
  cases mark <;> rfl

/-- A state in a URL, or before it with no mark. -/
structure InUrl (x : Exec) (s : UrlState) (text : Bytes) : Prop where
  state : x.parser.state = .url s
  alive : s ≠ .s_dead
  method : x.parser.method ≠ .HTTP_CONNECT
  inner : x.inner = none
  mark : x.mark.getD (.on_url, []) = (.on_url, text)
  start : s ≠ .s_req_spaces_before_url → x.mark ≠ none

/-- A byte inside the URL is one more character of it, with the mark set. -/
theorem InUrl.switch {s : UrlState} {t : Bytes} (h : InUrl x s t) (hch : UrlByte ch) :
    x.switch M ch = (x.MARK .on_url).urlChar s ch := by
  obtain ⟨hsp, hcr, hlf⟩ := hch
  have hkeep : s ≠ .s_req_spaces_before_url → x.MARK .on_url = x := by
    intro hs
    unfold MARK
    cases hmark : x.mark with
    | none => exact absurd hmark (h.start hs)
    | some m => rfl
  have hno : ¬ (ch = 32 ∨ ch = CR ∨ ch = LF) := by simp [hsp, hcr, hlf]
  have hend : ¬ (ch = CR ∨ ch = LF) := by simp [hcr, hlf]
  unfold Exec.switch
  rw [h.state]
  dsimp only
  unfold url
  cases s with
  | s_dead => exact absurd rfl h.alive
  | s_req_spaces_before_url =>
    dsimp only
    rw [if_neg hsp, if_neg h.method]
  | s_req_schema | s_req_schema_slash | s_req_schema_slash_slash | s_req_server_start =>
    dsimp only
    rw [if_neg hno, hkeep nofun]
  | _ =>
    dsimp only
    rw [if_neg hsp, if_neg hend, hkeep nofun]

/-- A character of a URL is read, or is the end of the call. -/
theorem InUrl.byte (hM : M < 2 ^ 32) {s : UrlState} {t : Bytes} (h : InUrl x s t)
    (hch : UrlByte ch) (hs : parse_url_char s ch ≠ .s_dead) :
    Reads M x [ch] { x with
      parser.state := .url (parse_url_char s ch)
      nread := x.nread + 1
      pos := x.pos + 1
      mark := some (.on_url, t ++ [ch]) } := by
  have hx : InUrl { x with nread := x.nread + 1 } s t :=
    ⟨h.state, h.alive, h.method, h.inner, h.mark, h.start⟩
  have hswitch := hx.switch (M := M) hch
  rw [MARK_eq, hx.mark] at hswitch
  unfold urlChar at hswitch
  dsimp only at hswitch
  rw [if_neg hs] at hswitch
  exact reads_byte hM h.inner (by rw [h.state]; rfl) hswitch rfl rfl id

/-- **A URL is read** as long as it is alive. -/
theorem InUrl.reads (hM : M < 2 ^ 32) {s : UrlState} {t url : Bytes} (h : InUrl x s t)
    (hne : url ≠ []) (hurl : ∀ ch ∈ url, UrlByte ch) (hend : urlEnd s url ≠ .s_dead) :
    Reads M x url { x with
      parser.state := .url (urlEnd s url)
      nread := x.nread + url.length
      pos := x.pos + url.length
      mark := some (.on_url, t ++ url) } := by
  induction url generalizing x s t with
  | nil => exact absurd rfl hne
  | cons ch url ih =>
    have hch := hurl ch List.mem_cons_self
    have halive : parse_url_char s ch ≠ .s_dead := by
      intro hdead
      refine hend ?_
      rw [urlEnd, List.foldl_cons, hdead]
      exact urlEnd_dead url
    have hbyte := h.byte hM hch halive
    cases url with
    | nil => exact hbyte
    | cons c url =>
      have hrest := ih (x := { x with
          parser.state := .url (parse_url_char s ch)
          nread := x.nread + 1
          pos := x.pos + 1
          mark := some (.on_url, t ++ [ch]) }) (s := parse_url_char s ch)
        (t := t ++ [ch]) ⟨rfl, halive, h.method, h.inner, rfl, fun _ => nofun⟩
        (List.cons_ne_nil _ _) (fun c hc => hurl c (List.mem_cons_of_mem _ hc)) hend
      have htrans := hbyte.trans hrest
      simp only [List.append_assoc, List.singleton_append, Nat.add_assoc, Nat.add_comm 1] at htrans
      exact htrans

/-- The space after a URL. -/
theorem InUrl.space (hM : M < 2 ^ 32) {s : UrlState} {t : Bytes} (h : InUrl x s t)
    (hend : urlEnds s = true) : Reads M x [32] { x with
      parser.state := .s_req_http_start
      nread := x.nread + 1
      pos := x.pos + 1
      mark := none
      calls := x.calls ++ [(.data .on_url t,
        { x.parser with state := .s_req_http_start, nread := x.nread + 1 }, x.pos + 1)] } := by
  have hmark : x.mark = some (.on_url, t) := by
    have hget := h.mark
    cases hx : x.mark with
    | none => exact absurd hx (h.start (by rintro rfl; cases hend))
    | some m =>
      rw [hx] at hget
      exact congrArg some hget
  have hswitch : { x with nread := x.nread + 1 }.switch M 32 =
      .ok (({ x with nread := x.nread + 1 }.UPDATE_STATE .s_req_http_start).CALLBACK_DATA
        (x.pos + 1)) := by
    unfold Exec.switch
    rw [h.state]
    cases s with
    | s_dead | s_req_spaces_before_url | s_req_schema | s_req_schema_slash
    | s_req_schema_slash_slash | s_req_server_start => cases hend
    | _ => rfl
  have hquiet : Quiet { x with nread := x.nread + 1 } _ :=
    quiet_switch (by rw [h.state]; rfl) hswitch
  have hread := reads_byte hM h.inner (by rw [h.state]; rfl) hswitch hquiet.nread hquiet.pos
    hquiet.calls
  unfold UPDATE_STATE CALLBACK_DATA at hread
  dsimp only at hread
  rw [hmark] at hread
  exact hread

/-! ### The first line -/

def CRLF : Bytes := [CR, LF]

/-- The version and the end of a request line. -/
theorem reads_version (hM : M < 2 ^ 32) {v : HttpVersion} (hv : v ≠ .HTTP_2_0)
    (hinner : x.inner = none) (hst : x.parser.state = .s_req_http_start) (hmark : x.mark = none) :
    ∃ major minor, Reads M x (versionToString v ++ CRLF) { x with
      parser.state := .s_header_field_start
      parser.http_major := major
      parser.http_minor := minor
      nread := x.nread + 10
      pos := x.pos + 10 } := by
  have hwalk : ∃ major minor, walk M x (versionToString v ++ CRLF) = some { x with
      parser.state := .s_header_field_start
      parser.http_major := major
      parser.http_minor := minor
      nread := x.nread + 10
      pos := x.pos + 10 } := by
    obtain ⟨⟨type, flags, state, header_state, index, te, n, length, major, minor, code, method,
      upgrade⟩, nread, pos, mark, inner, round, calls⟩ := x
    cases hst
    cases hmark
    cases v with
    | HTTP_1_0 => exact ⟨1, 0, rfl⟩
    | HTTP_1_1 => exact ⟨1, 1, rfl⟩
    | HTTP_2_0 => exact absurd rfl hv
  obtain ⟨major, minor, hwalk⟩ := hwalk
  have hne : versionToString v ++ CRLF ≠ [] :=
    List.append_ne_nil_of_right_ne_nil _ (List.cons_ne_nil _ _)
  exact ⟨major, minor, (reads_walk hM hinner hne hwalk).1⟩

/-- The method and the space after it. -/
theorem walk_method (M : ℕ) (m : HttpMethod) : ∃ index parser,
    walk M (.init (http_parser_init true)) (methodToString m ++ [32]) = some
      { parser := { http_parser_init true with
          content_length := ULLONG_MAX
          method := m
          index := index
          state := .url .s_req_spaces_before_url }
        nread := (methodToString m).length + 1
        pos := (methodToString m).length + 1
        mark := none
        inner := none
        round := 0
        calls := [(.notify .on_message_begin, parser, 1)] } := by
  cases m <;> exact ⟨_, _, rfl⟩

/-- The version of a status line. -/
theorem walk_resVersion (M : ℕ) {v : HttpVersion} (hv : v ≠ .HTTP_2_0) :
    ∃ major minor parser, walk M (.init (http_parser_init false)) (versionToString v ++ [32]) =
      some
        { parser := { http_parser_init false with
            content_length := ULLONG_MAX
            http_major := major
            http_minor := minor
            state := .s_res_first_status_code }
          nread := 9
          pos := 9
          mark := none
          inner := none
          round := 0
          calls := [(.notify .on_message_begin, parser, 1)] } := by
  cases v with
  | HTTP_1_0 => exact ⟨1, 0, _, rfl⟩
  | HTTP_1_1 => exact ⟨1, 1, _, rfl⟩
  | HTTP_2_0 => exact absurd rfl hv

/-- The three digits of a status. -/
theorem code_digits (s : HttpStatus) : (to_string s.code).length = 3 ∧
    (∀ ch ∈ to_string s.code, IS_NUM ch = true) ∧
    (to_string s.code).foldl (fun n ch => n * 10 + (ch.toNat - 48)) 0 = s.code := by
  cases s <;> decide +kernel

/-- The number of a status. -/
theorem walk_code (s : HttpStatus) (hst : x.parser.state = .s_res_first_status_code)
    (hmark : x.mark = none) : walk M x (to_string s.code ++ [32]) = some { x with
      parser.status_code := s.code
      parser.state := .s_res_status_start
      nread := x.nread + 4
      pos := x.pos + 4 } := by
  obtain ⟨⟨type, flags, state, header_state, index, te, n, length, major, minor, code, method,
    upgrade⟩, nread, pos, mark, inner, round, calls⟩ := x
  cases hst
  cases hmark
  obtain ⟨hlength, hnum, hcode⟩ := code_digits s
  obtain ⟨a, b, c, heq⟩ := List.length_eq_three.1 hlength
  rw [heq] at hnum hcode ⊢
  have ha := hnum a (by simp)
  have hb := hnum b (by simp)
  have hc := hnum c (by simp)
  have ha' := IS_NUM_le ha
  have hb' := IS_NUM_le hb
  have hc' := IS_NUM_le hc
  simp only [List.foldl, Nat.zero_mul, Nat.zero_add] at hcode
  have hlt : ¬ 999 < (a.toNat - 48) * 10 + (b.toNat - 48) := by omega
  have hlt' : ¬ 999 < s.code := by omega
  have hspace : IS_NUM 32 = false := rfl
  simp [walk, firstLine, switch, s_res_first_status_code, s_res_status_code, UPDATE_STATE, advance,
    extend, ha, hb, hc, hlt, hlt', hspace, hcode]

/-- There are bytes, and none of them ends a line. -/
def isReason (bs : Bytes) : Bool := !bs.isEmpty && bs.all fun ch => ch != CR && ch != LF

/-- The phrase of every status is one that the parser reads. -/
theorem isReason_statusdToString (s : HttpStatus) : isReason (statusdToString s) = true := by
  cases s <;> decide +kernel

/-- No status text is empty or ends the line. -/
theorem reason_bytes (s : HttpStatus) :
    statusdToString s ≠ [] ∧ ∀ ch ∈ statusdToString s, ch ≠ CR ∧ ch ≠ LF := by
  obtain ⟨hne, hall⟩ := Bool.and_eq_true_iff.1 (isReason_statusdToString s)
  refine ⟨fun hnil => ?_, fun ch hch => ?_⟩
  · rw [hnil] at hne
    cases hne
  · simpa using List.all_eq_true.1 hall ch hch

/-- The text of a status, up to the end of the line. -/
theorem reads_reason (hM : M < 2 ^ 32) {text reason : Bytes} (hinner : x.inner = none)
    (hst : x.parser.state = .s_res_status) (hmark : x.mark = some (.on_status, text))
    (hreason : ∀ ch ∈ reason, ch ≠ CR ∧ ch ≠ LF) : ∃ parser ER,
      Reads M x (reason ++ CRLF) { x with
        parser.state := .s_header_field_start
        nread := x.nread + (reason.length + 2)
        pos := x.pos + (reason.length + 2)
        mark := none
        calls := x.calls ++ [(.data .on_status (text ++ reason), parser, ER)] } := by
  induction reason generalizing x text with
  | nil =>
    have hwalk : ∃ parser ER, walk M x CRLF = some { x with
        parser.state := .s_header_field_start
        nread := x.nread + 2
        pos := x.pos + 2
        mark := none
        calls := x.calls ++ [(.data .on_status text, parser, ER)] } := by
      obtain ⟨⟨type, flags, state, header_state, index, te, n, length, major, minor, code, method,
        upgrade⟩, nread, pos, mark, inner, round, calls⟩ := x
      cases hst
      cases hmark
      exact ⟨_, _, rfl⟩
    obtain ⟨parser, ER, hwalk⟩ := hwalk
    rw [List.append_nil]
    exact ⟨parser, ER, (reads_walk hM hinner (List.cons_ne_nil _ _) hwalk).1⟩
  | cons ch reason ih =>
    obtain ⟨hcr, hlf⟩ := hreason ch List.mem_cons_self
    have hswitch : { x with nread := x.nread + 1 }.switch M ch =
        .ok { x with nread := x.nread + 1 } := by
      unfold Exec.switch
      rw [hst]
      dsimp only
      unfold s_res_status
      rw [if_neg hcr, if_neg hlf]
    have hbyte := reads_byte hM hinner (by rw [hst]; rfl) hswitch rfl rfl id
    have hmark' : (({ x with nread := x.nread + 1 } : Exec).advance ch).mark =
        some (.on_status, text ++ [ch]) := by
      unfold advance extend
      dsimp only
      rw [hmark]
      rfl
    obtain ⟨parser, ER, hrest⟩ := ih (x := ({ x with nread := x.nread + 1 } : Exec).advance ch)
      hinner hst hmark' fun c hc => hreason c (List.mem_cons_of_mem _ hc)
    refine ⟨parser, ER, ?_⟩
    have htrans := hbyte.trans hrest
    unfold advance extend at htrans
    simp only [List.append_assoc, List.singleton_append, Nat.add_assoc, Nat.add_comm 1] at htrans
    rw [List.length_cons, Nat.add_assoc, Nat.add_comm 1]
    exact htrans

/-- What both first lines leave. -/
structure Begun (x : Exec) (isRequest : Bool) (cbs : List Callback) : Prop where
  state : x.parser.state = .s_header_field_start
  type : x.parser.type = if isRequest then .HTTP_REQUEST else .HTTP_RESPONSE
  flags : x.parser.flags = .zero
  uses_transfer_encoding : x.parser.uses_transfer_encoding = false
  content_length : x.parser.content_length = ULLONG_MAX
  inner : x.inner = none
  round : x.round = 0
  mark : x.mark = none
  calls : x.calls.map Prod.fst = cbs

/-- The first byte of the text of a status. -/
theorem reads_status_start (hM : M < 2 ^ 32) (hinner : x.inner = none)
    (hst : x.parser.state = .s_res_status_start) (hmark : x.mark = none) (hcr : ch ≠ CR)
    (hlf : ch ≠ LF) : Reads M x [ch] { x with
      parser.state := .s_res_status
      parser.index := 0
      nread := x.nread + 1
      pos := x.pos + 1
      mark := some (.on_status, [ch]) } := by
  have hswitch : { x with nread := x.nread + 1 }.switch M ch = .ok { x with
      parser.state := .s_res_status
      parser.index := 0
      nread := x.nread + 1
      mark := some (.on_status, []) } := by
    unfold Exec.switch
    rw [hst]
    dsimp only
    unfold s_res_status_start
    rw [MARK_eq, hmark]
    exact if_neg (not_or.2 ⟨hcr, hlf⟩)
  exact reads_byte hM hinner (by rw [hst]; rfl) hswitch rfl rfl id

/-- The text of a status, with its first byte. -/
theorem reads_status (hM : M < 2 ^ 32) (hinner : x.inner = none)
    (hst : x.parser.state = .s_res_status_start) (hmark : x.mark = none) {reason : Bytes}
    (hne : reason ≠ []) (hreason : ∀ ch ∈ reason, ch ≠ CR ∧ ch ≠ LF) : ∃ parser ER,
      Reads M x (reason ++ CRLF) { x with
        parser.state := .s_header_field_start
        parser.index := 0
        nread := x.nread + (reason.length + 2)
        pos := x.pos + (reason.length + 2)
        mark := none
        calls := x.calls ++ [(.data .on_status reason, parser, ER)] } := by
  obtain ⟨c, reason, rfl⟩ := List.exists_cons_of_ne_nil hne
  obtain ⟨hcr, hlf⟩ := hreason c List.mem_cons_self
  have hstart := reads_status_start hM hinner hst hmark hcr hlf
  obtain ⟨parser, ER, hrest⟩ := reads_reason (M := M) (x := { x with
      parser.state := .s_res_status
      parser.index := 0
      nread := x.nread + 1
      pos := x.pos + 1
      mark := some (.on_status, [c]) }) hM hinner rfl rfl
    fun ch hch => hreason ch (List.mem_cons_of_mem _ hch)
  refine ⟨parser, ER, ?_⟩
  have htrans := hstart.trans hrest
  simp only [List.singleton_append, Nat.add_assoc, Nat.add_comm 1] at htrans
  exact htrans

/-- **A status line is read.** -/
theorem reads_statusLine (hM : M < 2 ^ 32) {v : HttpVersion} (hv : v ≠ .HTTP_2_0) (s : HttpStatus) :
    ∃ y, Reads M (.init (http_parser_init false))
        (versionToString v ++ [32] ++ (to_string s.code ++ [32] ++ (statusdToString s ++ CRLF))) y ∧
      Begun y false [.notify .on_message_begin, .data .on_status (statusdToString s)] ∧
      y.parser.status_code = s.code ∧ y.parser.method = .HTTP_DELETE := by
  have hne (bs : Bytes) (ch : UInt8) : bs ++ [ch] ≠ [] :=
    List.append_ne_nil_of_right_ne_nil _ (List.cons_ne_nil _ _)
  obtain ⟨major, minor, parser, hversion⟩ := walk_resVersion M hv
  obtain ⟨hversion, hinner, -⟩ := reads_walk hM rfl (hne _ _) hversion
  obtain ⟨hcode, hinner, -⟩ := reads_walk hM hinner (hne _ _) (walk_code s rfl rfl)
  obtain ⟨hreason, hbytes⟩ := reason_bytes s
  obtain ⟨parser', ER, hrest⟩ := reads_status hM hinner rfl rfl hreason hbytes
  exact ⟨_, hversion.trans (hcode.trans hrest),
    ⟨rfl, rfl, rfl, rfl, rfl, rfl, rfl, rfl, rfl⟩, rfl, rfl⟩

/-- The URL of a request and what comes after it in the line. -/
theorem reads_target (hM : M < 2 ^ 32) {v : HttpVersion} (hv : v ≠ .HTTP_2_0)
    (hinner : x.inner = none) (hst : x.parser.state = .url .s_req_spaces_before_url)
    (hmark : x.mark = none) (hm : x.parser.method ≠ .HTTP_CONNECT) {url : Bytes} (hne : url ≠ [])
    (hurl : ∀ ch ∈ url, UrlByte ch) (hend : urlEnds (urlEnd .s_req_spaces_before_url url) = true) :
    ∃ major minor parser ER, Reads M x (url ++ ([32] ++ (versionToString v ++ CRLF))) { x with
      parser.state := .s_header_field_start
      parser.http_major := major
      parser.http_minor := minor
      nread := x.nread + url.length + 1 + 10
      pos := x.pos + url.length + 1 + 10
      calls := x.calls ++ [(.data .on_url url, parser, ER)] } := by
  have halive : urlEnd .s_req_spaces_before_url url ≠ .s_dead := by
    intro hdead
    rw [hdead] at hend
    cases hend
  have hstart : InUrl x .s_req_spaces_before_url [] :=
    ⟨hst, nofun, hm, hinner, by rw [hmark]; rfl, fun h => absurd rfl h⟩
  have hread := hstart.reads hM hne hurl halive
  rw [List.nil_append] at hread
  have hspace := InUrl.space (x := { x with
      parser.state := .url (urlEnd .s_req_spaces_before_url url)
      nread := x.nread + url.length
      pos := x.pos + url.length
      mark := some (.on_url, url) }) hM
    ⟨rfl, halive, hm, hinner, rfl, fun _ => nofun⟩ hend
  obtain ⟨major, minor, hversion⟩ := reads_version (x := { x with
      parser.state := .s_req_http_start
      nread := x.nread + url.length + 1
      pos := x.pos + url.length + 1
      mark := none
      calls := x.calls ++ [(.data .on_url url,
        { x.parser with state := .s_req_http_start, nread := x.nread + url.length + 1 },
        x.pos + url.length + 1)] }) hM hv hinner rfl rfl
  rw [hmark]
  exact ⟨major, minor, _, _, hread.trans (hspace.trans hversion)⟩

/-- **A request line is read** when the URL may end where it does. -/
theorem reads_requestLine (hM : M < 2 ^ 32) {v : HttpVersion} (hv : v ≠ .HTTP_2_0)
    {m : HttpMethod} (hm : m ≠ .HTTP_CONNECT) {url : Bytes} (hne : url ≠ [])
    (hurl : ∀ ch ∈ url, UrlByte ch) (hend : urlEnds (urlEnd .s_req_spaces_before_url url) = true) :
    ∃ y, Reads M (.init (http_parser_init true))
        (methodToString m ++ [32] ++ (url ++ ([32] ++ (versionToString v ++ CRLF)))) y ∧
      Begun y true [.notify .on_message_begin, .data .on_url url] ∧ y.parser.method = m ∧
      y.parser.status_code = 0 := by
  obtain ⟨index, parser, hmethod⟩ := walk_method M m
  obtain ⟨hmethod, hinner, -⟩ := reads_walk hM rfl
    (List.append_ne_nil_of_right_ne_nil _ (List.cons_ne_nil _ _)) hmethod
  obtain ⟨major, minor, parser', ER, hrest⟩ := reads_target hM hv hinner rfl rfl hm hne hurl hend
  exact ⟨_, hmethod.trans hrest, ⟨rfl, rfl, rfl, rfl, rfl, rfl, rfl, rfl, rfl⟩, rfl, rfl⟩

end Exec
end Http
end Net
end Sevent
