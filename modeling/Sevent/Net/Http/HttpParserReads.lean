/-
# How `http_parser_execute` reads

`Reads M x bs y`: the bytes `bs` take the call from `x` to `y`, all of them
counted, as long as the headers fit `max_header_size`; where they do not fit, it
ends without a complete message (the counter is a `uint32_t`, hence the bound of
`Reads.dies`).  `Dies M x bs` says that it ends so in any case.  They compose:
`Reads.trans`, `Reads.append_dies`.

The bytes of the first line are only counted (`quiet_switch`), so that a part of
it is read as `walk` says, which leaves the count out.
-/

import Sevent.Net.Http.HttpParserExecute
namespace Sevent
namespace Net
namespace Http

/-- A digit counts for nine at most, which bounds what one more digit can make
of `content_length`. -/
theorem IS_NUM_le {ch : UInt8} (h : IS_NUM ch = true) : ch.toNat - 48 ≤ 9 := by
  unfold IS_NUM at h
  obtain ⟨-, hle⟩ := Bool.and_eq_true_iff.1 h
  have hle' : ch.toNat ≤ 57 := UInt8.le_iff_toNat_le.1 (of_decide_eq_true hle)
  omega

/-- No callback has said that a message is complete. -/
def NoneComplete (calls : List (Callback × CParser × ℕ)) : Prop :=
  ∀ e ∈ calls, e.1 ≠ .notify .on_message_complete

/-- Two parts of the calls without a complete message make calls without one. -/
theorem noneComplete_append {a b : List (Callback × CParser × ℕ)} :
    NoneComplete (a ++ b) ↔ NoneComplete a ∧ NoneComplete b := by
  simp only [NoneComplete, List.mem_append, or_imp, forall_and]

namespace Exec

variable {M : ℕ} {x y z : Exec} {ch : UInt8} {bs cs : Bytes}

/-- Every run from `x` over these bytes ends without a complete message. -/
def Dies (M : ℕ) (x : Exec) (bs : Bytes) : Prop :=
  NoneComplete x.calls → ∀ rest, NoneComplete (x.run M (bs ++ rest)).callbacks

/-- A call that dies over these bytes has died when they end there. -/
theorem Dies.run (h : Dies M x bs) (hx : NoneComplete x.calls) :
    NoneComplete (x.run M bs).callbacks := by
  have hrun := h hx []
  rwa [List.append_nil] at hrun

/-- The bytes take the call from one state to another. -/
structure Reads (M : ℕ) (x : Exec) (bs : Bytes) (y : Exec) : Prop where
  nread : y.nread = x.nread + bs.length
  pos : y.pos = x.pos + bs.length
  calls : NoneComplete x.calls → NoneComplete y.calls
  goes : y.nread ≤ M → ∀ rest, x.run M (bs ++ rest) = y.run M rest
  dies : M < y.nread → y.nread < 2 ^ 32 → Dies M x bs

/-- Reading composes: two parts of the input, one after the other, with their
counts added, and dying in either part is dying in the whole. -/
theorem Reads.trans (h : Reads M x bs y) (h' : Reads M y cs z) : Reads M x (bs ++ cs) z where
  nread := by rw [h'.nread, h.nread, List.length_append]; omega
  pos := by rw [h'.pos, h.pos, List.length_append]; omega
  calls hx := h'.calls (h.calls hx)
  goes hz rest := by
    have hy : y.nread ≤ M := by have := h'.nread; omega
    rw [List.append_assoc, h.goes hy, h'.goes hz]
  dies hz hlt hx rest := by
    rw [List.append_assoc]
    rcases Nat.lt_or_ge M y.nread with hy | hy
    · have hlt' : y.nread < 2 ^ 32 := by have := h'.nread; omega
      exact h.dies hy hlt' hx (cs ++ rest)
    · rw [h.goes hy]
      exact h'.dies hz hlt (h.calls hx) rest

/-- A byte that is read goes on with the rest. -/
theorem run_cons_ok (h : x.step M ch = .ok y) : x.run M (ch :: bs) = (y.advance ch).run M bs := by
  rw [run, h]

/-- A byte at which the call returns ends the run, whatever the rest is. -/
theorem run_cons_error {r : Run CParser} (h : x.step M ch = .error r) : x.run M (ch :: bs) = r := by
  rw [run, h]

/-- A byte between the messages' bodies, in the states of `PARSING_HEADER`: it
is counted, the count is compared with `max_header_size`, and the switch is left
to decide. -/
theorem step_none (hinner : x.inner = none) (hst : PARSING_HEADER x.parser.state = true)
    (hn : x.nread + 1 < 2 ^ 32) : x.step M ch =
      if M < x.nread + 1 then { x with nread := x.nread + 1 }.fail .HPE_HEADER_OVERFLOW
      else { x with nread := x.nread + 1 }.switch M ch := by
  have hstep : x.step M ch = (x.COUNT_HEADER_SIZE M 1).bind fun x => x.switch M ch := by
    unfold step
    rw [hinner]
    exact if_pos hst
  rw [hstep]
  unfold COUNT_HEADER_SIZE
  dsimp only
  rw [Nat.mod_eq_of_lt hn]
  split <;> rfl

/-- A byte outside the loops. -/
theorem reads_byte (hM : M < 2 ^ 32) (hinner : x.inner = none)
    (hst : PARSING_HEADER x.parser.state = true)
    (hswitch : { x with nread := x.nread + 1 }.switch M ch = .ok y) (hn : y.nread = x.nread + 1)
    (hp : y.pos = x.pos) (hcalls : NoneComplete x.calls → NoneComplete y.calls) :
    Reads M x [ch] (y.advance ch) where
  nread := hn
  pos := congrArg (· + 1) hp
  calls := hcalls
  goes hle rest := by
    have hle' : y.nread ≤ M := hle
    refine run_cons_ok ?_
    rw [step_none hinner hst (by omega), if_neg (by omega), hswitch]
  dies hlt hlt' hx rest := by
    have hlt : M < y.nread := hlt
    have hlt' : y.nread < 2 ^ 32 := hlt'
    rw [List.singleton_append, run_cons_error (r := _)
      ((step_none hinner hst (by omega)).trans (if_pos (by omega)))]
    exact hx

/-- A byte outside the loops at which the call ends with an error. -/
theorem dies_byte (hinner : x.inner = none)
    (hst : PARSING_HEADER x.parser.state = true) (hn : x.nread + 1 < 2 ^ 32)
    (hswitch : ∃ r, { x with nread := x.nread + 1 }.switch M ch = .error r ∧
      (NoneComplete x.calls → NoneComplete r.callbacks)) : Dies M x (ch :: bs) := by
  intro hx rest
  obtain ⟨r, hr, hcalls⟩ := hswitch
  have hstep : x.step M ch = if M < x.nread + 1 then _ else _ := step_none hinner hst hn
  rw [List.cons_append]
  split at hstep
  · rw [run_cons_error hstep]
    exact hx
  · rw [run_cons_error (hstep.trans hr)]
    exact hcalls hx

/-- An error in the switch ends the call without a complete message, since the
callbacks made so far are those that were made before the byte. -/
theorem dies_fail {e : ParseError} (hinner : x.inner = none)
    (hst : PARSING_HEADER x.parser.state = true) (hn : x.nread + 1 < 2 ^ 32)
    (hswitch : { x with nread := x.nread + 1 }.switch M ch = z.fail e)
    (hcalls : NoneComplete x.calls → NoneComplete z.calls) : Dies M x (ch :: bs) :=
  dies_byte hinner hst hn ⟨_, hswitch, hcalls⟩

/-- Bytes that are read, and then bytes over which the call dies. -/
theorem Reads.append_dies {bs cs : Bytes} (h : Reads M x bs y) (hM : y.nread < 2 ^ 32)
    (h' : Dies M y cs) : Dies M x (bs ++ cs) := by
  intro hx rest
  rw [List.append_assoc]
  rcases Nat.lt_or_ge M y.nread with hy | hy
  · exact h.dies hy hM hx (cs ++ rest)
  · rw [h.goes hy]
    exact h' (h.calls hx) rest

/-- The states before the first header. -/
def firstLine : ParseState → Bool
  | .url _ | .s_start_res | .s_res_H | .s_res_HT | .s_res_HTT | .s_res_HTTP | .s_res_http_major
  | .s_res_http_dot | .s_res_http_minor | .s_res_http_end | .s_res_first_status_code
  | .s_res_status_code | .s_res_status_start | .s_res_status | .s_res_line_almost_done
  | .s_start_req | .s_req_method | .s_req_http_start | .s_req_http_H | .s_req_http_HT
  | .s_req_http_HTT | .s_req_http_HTTP | .s_req_http_I | .s_req_http_IC | .s_req_http_major
  | .s_req_http_dot | .s_req_http_minor | .s_req_http_end | .s_req_line_almost_done => true
  | _ => false

/-- What a byte of the first line leaves as it is. -/
structure Quiet (x y : Exec) : Prop where
  nread : y.nread = x.nread
  pos : y.pos = x.pos
  inner : y.inner = x.inner
  round : y.round = x.round
  calls : NoneComplete x.calls → NoneComplete y.calls

/-- Nothing done is quiet. -/
theorem Quiet.refl (x : Exec) : Quiet x x := ⟨rfl, rfl, rfl, rfl, id⟩

/-- A write to the parser's fields is quiet: count, position and callbacks are
not among them. -/
theorem Quiet.parser (h : Quiet x y) (p : CParser) : Quiet x { y with parser := p } :=
  ⟨h.nread, h.pos, h.inner, h.round, h.calls⟩

/-- A change of the state is quiet. -/
theorem Quiet.update (h : Quiet x y) (s : ParseState) : Quiet x (y.UPDATE_STATE s) := h.parser _

/-- A mark is quiet; it only says where a callback's data will begin. -/
theorem Quiet.mark (h : Quiet x y) (cb : DataCb) : Quiet x (y.MARK cb) := by
  unfold MARK
  split
  · exact h
  · exact ⟨h.nread, h.pos, h.inner, h.round, h.calls⟩

/-- A data callback is quiet, for it never says that a message is complete. -/
theorem Quiet.data (h : Quiet x y) (ER : ℕ) : Quiet x (y.CALLBACK_DATA ER) := by
  unfold CALLBACK_DATA
  split
  · refine ⟨h.nread, h.pos, h.inner, h.round, fun hx => noneComplete_append.2 ⟨h.calls hx, ?_⟩⟩
    rintro e he
    rw [List.mem_singleton.1 he]
    exact nofun
  · exact h

/-- A notification other than `on_message_complete` is quiet. -/
theorem Quiet.notify (h : Quiet x y) (cb : NotifyCb) (hcb : cb ≠ .on_message_complete) (ER : ℕ) :
    Quiet x (y.CALLBACK_NOTIFY cb ER) := by
  refine ⟨h.nread, h.pos, h.inner, h.round, fun hx => noneComplete_append.2 ⟨h.calls hx, ?_⟩⟩
  rintro e he
  rw [List.mem_singleton.1 he]
  exact fun heq => hcb (Callback.notify.inj heq)

/-- A byte of `HTTP` that has to be the expected one. -/
theorem quiet_expect {c : UInt8} {e : ParseError} {s : ParseState}
    (h : x.expect c ch e s = .ok y) : Quiet x y := by
  unfold expect at h
  split at h
  · cases h
    exact (Quiet.refl x).update s
  · cases h

/-- A digit of the version number. -/
theorem quiet_version {set : ℕ → CParser} {s : ParseState} (h : x.version ch set s = .ok y) :
    Quiet x y := by
  unfold version at h
  split at h
  · cases h
  · cases h
    exact ((Quiet.refl x).parser _).update s

/-- A character of the request target, in the state that the url machine goes
to. -/
theorem quiet_urlChar {s : UrlState} (h : x.urlChar s ch = .ok y) : Quiet x y := by
  unfold urlChar at h
  dsimp only at h
  split at h
  · cases h
  · cases h
    exact (Quiet.refl x).update _

/-- Quiet steps compose. -/
theorem Quiet.trans (h : Quiet x y) (h' : Quiet y z) : Quiet x z :=
  ⟨h'.nread.trans h.nread, h'.pos.trans h.pos, h'.inner.trans h.inner, h'.round.trans h.round,
    fun hx => h'.calls (h.calls hx)⟩

/-- A byte of the request target: a character of it, or the blank or line end
behind it, where `on_url` is called. -/
theorem quiet_url {s : UrlState} (h : x.url s ch = .ok y) : Quiet x y := by
  have hend : ∀ {y : Exec}, (if ch = 32 then
      (.ok ((x.UPDATE_STATE .s_req_http_start).CALLBACK_DATA (x.pos + 1)) : Outcome)
    else if ch = CR ∨ ch = LF then
      let x := { x with parser.http_major := 0, parser.http_minor := 9 }
      .ok ((x.UPDATE_STATE (if ch = CR then .s_req_line_almost_done
        else .s_header_field_start)).CALLBACK_DATA (x.pos + 1))
    else x.urlChar s ch) = .ok y → Quiet x y := by
    intro y h
    split at h
    · cases h
      exact ((Quiet.refl x).update _).data _
    · split at h
      · cases h
        exact (((Quiet.refl x).parser _).update _).data _
      · exact quiet_urlChar h
  unfold url at h
  split at h
  · split at h <;> cases h
    exact Quiet.refl x
  · split at h
    · cases h
      exact Quiet.refl x
    · exact ((Quiet.refl x).mark _).trans (quiet_urlChar h)
  · split at h
    · cases h
    · exact quiet_urlChar h
  · split at h
    · cases h
    · exact quiet_urlChar h
  · split at h
    · cases h
    · exact quiet_urlChar h
  · split at h
    · cases h
    · exact quiet_urlChar h
  · exact hend h

/-- The first byte of a response. -/
theorem quiet_s_start_res (h : x.s_start_res ch = .ok y) : Quiet x y := by
  unfold s_start_res at h
  split at h
  · cases h
    exact Quiet.refl x
  · split at h <;> cases h
    exact (((Quiet.refl x).parser _).update _).notify .on_message_begin nofun _

/-- The first digit of the status code, after the version. -/
theorem quiet_s_res_first_status_code (h : x.s_res_first_status_code ch = .ok y) : Quiet x y := by
  unfold s_res_first_status_code at h
  split at h
  · split at h <;> cases h
    exact Quiet.refl x
  · cases h
    exact ((Quiet.refl x).parser _).update _

/-- A byte of the reason phrase; its callback is the only one there. -/
theorem quiet_s_res_status (h : x.s_res_status ch = .ok y) : Quiet x y := by
  unfold s_res_status at h
  split at h
  · cases h
    exact ((Quiet.refl x).update _).data _
  · split at h <;> cases h
    · exact ((Quiet.refl x).update _).data _
    · exact Quiet.refl x

/-- The first byte of the reason phrase, or the line end in its place. -/
theorem quiet_s_res_status_start (h : x.s_res_status_start ch = .ok y) : Quiet x y := by
  unfold s_res_status_start at h
  have hstart := (((Quiet.refl x).mark .on_status).update .s_res_status).parser
    { ((x.MARK .on_status).UPDATE_STATE .s_res_status).parser with index := 0 }
  dsimp only at h
  split at h
  · exact hstart.trans (quiet_s_res_status h)
  · cases h
    exact hstart

/-- A further digit of the status code, or what ends it. -/
theorem quiet_s_res_status_code (h : x.s_res_status_code ch = .ok y) : Quiet x y := by
  unfold s_res_status_code at h
  split at h
  · split at h
    · cases h
      exact (Quiet.refl x).update _
    · split at h
      · exact ((Quiet.refl x).update _).trans (quiet_s_res_status_start h)
      · cases h
  · dsimp only at h
    split at h <;> cases h
    exact (Quiet.refl x).parser _

/-- The first byte of a request, the first letter of its method. -/
theorem quiet_s_start_req (h : x.s_start_req ch = .ok y) : Quiet x y := by
  unfold s_start_req at h
  split at h
  · cases h
    exact Quiet.refl x
  · split at h
    · cases h
    · split at h <;> cases h
      exact (((Quiet.refl x).parser _).update _).notify .on_message_begin nofun _

/-- A further letter of the method, checked against the name of the method that
the first one stands for. -/
theorem quiet_s_req_method (h : x.s_req_method ch = .ok y) : Quiet x y := by
  unfold s_req_method at h
  dsimp only at h
  split at h
  · cases h
  · split at h
    · cases h
      exact ((Quiet.refl x).update _).parser _
    · split at h
      · cases h
        exact (Quiet.refl x).parser _
      · split at h <;> cases h
        exact (Quiet.refl x).parser _

/-- The byte before the version of a request. -/
theorem quiet_s_req_http_start (h : x.s_req_http_start ch = .ok y) : Quiet x y := by
  unfold s_req_http_start at h
  split at h
  · cases h
    exact Quiet.refl x
  · split at h
    · cases h
      exact (Quiet.refl x).update _
    · split at h <;> cases h
      exact (Quiet.refl x).update _

/-- The end of the version of a request. -/
theorem quiet_s_req_http_end (h : x.s_req_http_end ch = .ok y) : Quiet x y := by
  unfold s_req_http_end at h
  split at h
  · cases h
    exact (Quiet.refl x).update _
  · split at h <;> cases h
    exact (Quiet.refl x).update _

/-- **A byte of the first line** is only counted. -/
theorem quiet_switch (hst : firstLine x.parser.state = true) (h : x.switch M ch = .ok y) :
    Quiet x y := by
  unfold switch at h
  cases hstate : x.parser.state <;> rw [hstate] at h hst <;> first
    | exact absurd hst Bool.false_ne_true
    | exact quiet_expect h
    | exact quiet_version h
    | exact quiet_url h
    | exact quiet_s_start_res h
    | exact quiet_s_res_first_status_code h
    | exact quiet_s_res_status_code h
    | exact quiet_s_res_status_start h
    | exact quiet_s_res_status h
    | exact quiet_s_start_req h
    | exact quiet_s_req_method h
    | exact quiet_s_req_http_start h
    | exact quiet_s_req_http_end h

/-- The first line belongs to the states in which bytes are counted. -/
theorem parsing_of_firstLine {s : ParseState} (h : firstLine s = true) :
    PARSING_HEADER s = true := by
  cases s <;> first | rfl | exact absurd h Bool.false_ne_true

/-- The bytes of the first line, without the count. -/
def walk (M : ℕ) : Exec → Bytes → Option Exec
  | x, [] => some x
  | x, ch :: bs =>
    if firstLine x.parser.state then
      match { x with nread := x.nread + 1 }.switch M ch with
      | .ok y => walk M (y.advance ch) bs
      | .error _ => none
    else none

/-- What `walk` computes is what the call does: every byte of it is quiet, so
only the count is to be added, and the call dies where the count passes
`max_header_size`. -/
theorem reads_walk (hM : M < 2 ^ 32) (hinner : x.inner = none) (hbs : bs ≠ [])
    (h : walk M x bs = some y) : Reads M x bs y ∧ y.inner = none ∧ y.round = x.round := by
  induction bs generalizing x with
  | nil => exact absurd rfl hbs
  | cons ch bs ih =>
    unfold walk at h
    split at h
    · next hst =>
        split at h
        · next z hz =>
            have hquiet : Quiet { x with nread := x.nread + 1 } z := quiet_switch hst hz
            have hbyte : Reads M x [ch] (z.advance ch) :=
              reads_byte hM hinner (parsing_of_firstLine hst) hz hquiet.nread hquiet.pos
                hquiet.calls
            have hinner' : (z.advance ch).inner = none := hquiet.inner.trans hinner
            cases bs with
            | nil =>
              cases h
              exact ⟨hbyte, hinner', hquiet.round⟩
            | cons c bs =>
              obtain ⟨hrest, hy, hround⟩ := ih hinner' (List.cons_ne_nil _ _) h
              exact ⟨hbyte.trans hrest, hy, hround.trans hquiet.round⟩
        · cases h
    · cases h

end Exec
end Http
end Net
end Sevent
