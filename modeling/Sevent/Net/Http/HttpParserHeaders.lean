/-
# What the headers say about the body

The states of a field name match it against five words, and `Read` says what has
been read in each of them.  How the body is read is decided by `Framing` and by
`uses_transfer_encoding`.  A `Content-Length` announces a number (`line_length`),
once at most (`line_length_twice`); every other line leaves `Framing` alone
(`line_ordinary`), and `uses_transfer_encoding` too, unless its name begins with
`Transfer-Encoding`: the flag is set where the match of that word ends.
-/

import Sevent.Lib.Numeral
import Sevent.Net.Http.HttpParserFields

namespace Sevent
namespace Net
namespace Http

namespace CParser

variable {p q r : CParser} {c ch : UInt8} {w u name v : Bytes}

/-! ### Names -/

/-- What has been read of a field name in each state of it. -/
def Read (w : Bytes) (index : ℕ) : HeaderState → Prop
  | .h_general => True
  | .h_C => w = text "c" ∧ index = 0
  | .h_CO => w = text "co" ∧ index = 1
  | .h_CON => w = text "con" ∧ index = 2
  | .h_matching_connection => w = CONNECTION.take (index + 1) ∧ index + 1 < CONNECTION.length
  | .h_matching_proxy_connection =>
    w = PROXY_CONNECTION.take (index + 1) ∧ index + 1 < PROXY_CONNECTION.length
  | .h_matching_content_length =>
    w = CONTENT_LENGTH.take (index + 1) ∧ index + 1 < CONTENT_LENGTH.length
  | .h_matching_transfer_encoding =>
    w = TRANSFER_ENCODING.take (index + 1) ∧ index + 1 < TRANSFER_ENCODING.length
  | .h_matching_upgrade => w = UPGRADE.take (index + 1) ∧ index + 1 < UPGRADE.length
  | .h_connection => w = CONNECTION ∨ w = PROXY_CONNECTION
  | .h_content_length => w = CONTENT_LENGTH
  | .h_transfer_encoding => w = TRANSFER_ENCODING
  | .h_upgrade => w = UPGRADE
  | _ => False

/-- The next character of a word. -/
theorem matchWord_spec {word : Bytes} (hit miss : HeaderState)
    (hw : w = word.take (p.index + 1)) (hlt : p.index + 1 < word.length) (c : UInt8) :
    (p.matchWord word c hit miss).header_state = miss ∨
    ((p.matchWord word c hit miss).header_state = hit ∧ w ++ [c] = word) ∨
    ((p.matchWord word c hit miss).header_state = p.header_state ∧
      w ++ [c] = word.take ((p.matchWord word c hit miss).index + 1) ∧
      (p.matchWord word c hit miss).index + 1 < word.length) := by
  unfold matchWord
  dsimp only
  split
  case isTrue => exact .inl rfl
  case isFalse hno =>
    obtain ⟨-, hget⟩ := not_or.1 hno
    have hsnoc : w ++ [c] = word.take (p.index + 1 + 1) := by
      rw [List.take_add_one, not_not.1 hget, ← hw]
      rfl
    split
    case isTrue heq =>
      refine .inr (.inl ⟨rfl, ?_⟩)
      rw [hsnoc, heq, List.take_length]
    case isFalse hne => exact .inr (.inr ⟨rfl, hsnoc, by dsimp only; omega⟩)

/-- What has been read behind the first letter of a name. -/
theorem read_fieldStart (p : CParser) (c : UInt8) :
    Read [c] (p.fieldStart c).index (p.fieldStart c).header_state := by
  unfold fieldStart
  dsimp only
  split_ifs with hc hp ht hu
  · exact ⟨by rw [hc]; rfl, rfl⟩
  · exact ⟨by rw [hp]; rfl, by decide⟩
  · exact ⟨by rw [ht]; rfl, by decide⟩
  · exact ⟨by rw [hu]; rfl, by decide⟩
  · trivial

/-- What the state of a word is after the next character. -/
theorem read_matchWord {word : Bytes} {hit : HeaderState} (hw : w = word.take (p.index + 1))
    (hlt : p.index + 1 < word.length) (c : UInt8)
    (hhit : ∀ index, w ++ [c] = word → Read (w ++ [c]) index hit)
    (hkeep : ∀ index, w ++ [c] = word.take (index + 1) ∧ index + 1 < word.length →
      Read (w ++ [c]) index p.header_state) :
    Read (w ++ [c]) (p.matchWord word c hit .h_general).index
      (p.matchWord word c hit .h_general).header_state := by
  rcases matchWord_spec hit .h_general hw hlt c with
    hmiss | ⟨hstate, hword⟩ | ⟨hstate, hword⟩
  · rw [hmiss]
    trivial
  · rw [hstate]
    exact hhit _ hword
  · rw [hstate]
    exact hkeep _ hword

/-- **One character more of a name.** -/
theorem read_fieldChar (h : Read w p.index p.header_state) (c : UInt8) :
    Read (w ++ [c]) (p.fieldChar c).index (p.fieldChar c).header_state := by
  unfold fieldChar
  cases hstate : p.header_state with
  | h_C =>
    rw [hstate] at h
    obtain ⟨rfl, hi⟩ := h
    dsimp only
    split_ifs with hc
    · exact ⟨by rw [hc]; rfl, by rw [hi]⟩
    · trivial
  | h_CO =>
    rw [hstate] at h
    obtain ⟨rfl, hi⟩ := h
    dsimp only
    split_ifs with hc
    · exact ⟨by rw [hc]; rfl, by rw [hi]⟩
    · trivial
  | h_CON =>
    rw [hstate] at h
    obtain ⟨rfl, hi⟩ := h
    dsimp only
    split_ifs with hn ht
    · rw [hn, hi]
      exact ⟨rfl, by decide⟩
    · rw [ht, hi]
      exact ⟨rfl, by decide⟩
    · trivial
  | h_matching_connection =>
    rw [hstate] at h
    exact read_matchWord h.1 h.2 c (fun _ hw => .inl hw) fun _ hw => by rw [hstate]; exact hw
  | h_matching_proxy_connection =>
    rw [hstate] at h
    exact read_matchWord h.1 h.2 c (fun _ hw => .inr hw) fun _ hw => by rw [hstate]; exact hw
  | h_matching_content_length =>
    rw [hstate] at h
    exact read_matchWord h.1 h.2 c (fun _ hw => hw) fun _ hw => by rw [hstate]; exact hw
  | h_matching_transfer_encoding =>
    rw [hstate] at h
    exact read_matchWord h.1 h.2 c (fun _ hw => hw) fun _ hw => by rw [hstate]; exact hw
  | h_matching_upgrade =>
    rw [hstate] at h
    exact read_matchWord h.1 h.2 c (fun _ hw => hw) fun _ hw => by rw [hstate]; exact hw
  | h_connection | h_content_length | h_transfer_encoding | h_upgrade => trivial
  | h_general =>
    dsimp only
    rw [hstate]
    trivial
  | _ =>
    rw [hstate] at h
    exact h.elim

/-- What has been read behind further letters of a name. -/
theorem read_foldl (h : Read w p.index p.header_state) (u : Bytes) :
    Read (w ++ u) (u.foldl fieldChar p).index (u.foldl fieldChar p).header_state := by
  induction u generalizing w p with
  | nil => rwa [List.append_nil]
  | cons c u ih =>
    have hrest := ih (read_fieldChar h c)
    rwa [List.append_assoc] at hrest

/-- **What the state says of a name.** -/
theorem read_field (p : CParser) (hne : name ≠ []) :
    Read (name.map TOKEN) (p.field name).index (p.field name).header_state := by
  obtain ⟨c, w, rfl⟩ := List.exists_cons_of_ne_nil hne
  exact read_foldl (read_fieldStart p (TOKEN c)) (w.map TOKEN)

/-- The rest of a word that is matched. -/
theorem foldl_word (word : Bytes) {s hit : HeaderState}
    (hword : ∀ q : CParser, q.header_state = s → ∀ c,
      q.fieldChar c = q.matchWord word c hit .h_general)
    (hs : p.header_state = s) (hu : word.drop (p.index + 1) = u) (hne : u ≠ []) :
    (u.foldl fieldChar p).header_state = hit := by
  induction u generalizing p with
  | nil => exact absurd rfl hne
  | cons c u ih =>
    have hlt : p.index + 1 < word.length := by
      have hlen := congrArg List.length hu
      rw [List.length_drop, List.length_cons] at hlen
      omega
    obtain ⟨hget, hrest⟩ := List.cons.inj ((List.drop_eq_getElem_cons hlt).symm.trans hu)
    have hnext : word[p.index + 1]? = some c := by rw [List.getElem?_eq_getElem hlt, hget]
    have hno : ¬ (word.length < p.index + 1 ∨ word[p.index + 1]? ≠ some c) := by
      rw [hnext]
      simp only [ne_eq, not_true_eq_false, or_false]
      omega
    rw [List.foldl_cons, hword p hs c]
    unfold matchWord
    dsimp only
    rw [if_neg hno]
    by_cases hend : p.index + 1 + 1 = word.length
    · have hnil : u = [] := by rw [← hrest, hend, List.drop_length]
      rw [if_pos hend, hnil]
      rfl
    · rw [if_neg hend]
      refine ih hs hrest ?_
      rintro rfl
      exact hend (by have := List.drop_eq_nil_iff.1 hrest; omega)

/-- The state after the name `Content-Length`. -/
theorem field_length (p : CParser) (h : name.map TOKEN = CONTENT_LENGTH) :
    (p.field name).header_state = .h_content_length := by
  have hcont : CONTENT_LENGTH = 'c'.toUInt8 :: 'o'.toUInt8 :: 'n'.toUInt8 :: 't'.toUInt8 ::
      CONTENT_LENGTH.drop 4 := by decide +kernel
  have htokens : p.field name = ('o'.toUInt8 :: 'n'.toUInt8 :: 't'.toUInt8 ::
      CONTENT_LENGTH.drop 4).foldl fieldChar (p.fieldStart 'c'.toUInt8) := by
    cases name with
    | nil => cases h.trans hcont
    | cons c w =>
      obtain ⟨hc, hw⟩ := List.cons.inj (h.trans hcont)
      rw [field, hc, hw]
  have hne : CONTENT_LENGTH.drop 4 ≠ [] := by decide +kernel
  have hne' : 't'.toUInt8 ≠ 'n'.toUInt8 := by decide
  -- the state after the first four characters
  generalize hq : (((p.fieldStart 'c'.toUInt8).fieldChar 'o'.toUInt8).fieldChar
    'n'.toUInt8).fieldChar 't'.toUInt8 = q
  have hstate : q.header_state = .h_matching_content_length ∧ q.index = 3 := by
    rw [← hq]
    simp [fieldStart, fieldChar, hne']
  rw [htokens]
  simp only [List.foldl_cons]
  rw [hq]
  refine foldl_word CONTENT_LENGTH ?_ hstate.1 (by rw [hstate.2]) hne
  intro q hq c
  unfold fieldChar
  rw [hq]

/-! ### What does not concern the body -/

/-- What decides how the body is read, `uses_transfer_encoding` apart. -/
structure Framing where
  type : ParserType
  status_code : ℕ
  method : HttpMethod
  content_length : ℕ
  F_CHUNKED : Bool
  F_TRAILING : Bool
  F_SKIPBODY : Bool
  F_CONTENTLENGTH : Bool
  deriving DecidableEq, Repr

/-- The fields of the parser that decide how the body is read. -/
def framing (p : CParser) : Framing where
  type := p.type
  status_code := p.status_code
  method := p.method
  content_length := p.content_length
  F_CHUNKED := p.flags.F_CHUNKED
  F_TRAILING := p.flags.F_TRAILING
  F_SKIPBODY := p.flags.F_SKIPBODY
  F_CONTENTLENGTH := p.flags.F_CONTENTLENGTH

/-- Matching a letter of a name leaves how the body is read. -/
theorem framing_matchWord (p : CParser) (word : Bytes) (c : UInt8) (hit miss : HeaderState) :
    (p.matchWord word c hit miss).framing = p.framing ∧
      (p.matchWord word c hit miss).uses_transfer_encoding = p.uses_transfer_encoding := by
  unfold matchWord
  dsimp only
  split_ifs <;> exact ⟨rfl, rfl⟩

/-- A letter of a name leaves how the body is read. -/
theorem framing_fieldChar (p : CParser) (c : UInt8) : (p.fieldChar c).framing = p.framing := by
  unfold fieldChar
  cases p.header_state with
  | h_matching_connection | h_matching_proxy_connection | h_matching_content_length
  | h_matching_transfer_encoding | h_matching_upgrade => exact (framing_matchWord ..).1
  | _ => rfl

/-- A whole name leaves how the body is read; only the value says something. -/
theorem framing_field (p : CParser) (name : Bytes) : (p.field name).framing = p.framing := by
  cases name with
  | nil => rfl
  | cons c w =>
    have hfold : ∀ (u : Bytes) (q : CParser), (u.foldl fieldChar q).framing = q.framing := by
      intro u
      induction u with
      | nil => exact fun _ => rfl
      | cons c u ih => exact fun q => (ih _).trans (framing_fieldChar q c)
    exact hfold (w.map TOKEN) (p.fieldStart (TOKEN c))

/-- **A name that does not go on with the coding** leaves it alone. -/
theorem uses_fieldChar (h : Read w p.index p.header_state) (hte : w ++ [c] ≠ TRANSFER_ENCODING) :
    (p.fieldChar c).uses_transfer_encoding = p.uses_transfer_encoding := by
  unfold fieldChar
  cases hstate : p.header_state with
  | h_matching_transfer_encoding =>
    rw [hstate] at h
    have hno : (p.matchWord TRANSFER_ENCODING c .h_transfer_encoding .h_general).header_state ≠
        .h_transfer_encoding := by
      rcases matchWord_spec .h_transfer_encoding .h_general h.1 h.2 c with
        hmiss | ⟨-, hword⟩ | ⟨hkeep, -⟩
      · rw [hmiss]
        exact nofun
      · exact absurd hword hte
      · rw [hkeep, hstate]
        exact nofun
    dsimp only
    rw [beq_eq_false_iff_ne.2 hno, Bool.or_false, (framing_matchWord ..).2]
  | h_matching_connection | h_matching_proxy_connection | h_matching_content_length
  | h_matching_upgrade => exact (framing_matchWord ..).2
  | _ => rfl

/-- A name that does not begin with `Transfer-Encoding` leaves that flag. -/
theorem uses_field (p : CParser) (hte : ¬ TRANSFER_ENCODING <+: name.map TOKEN) :
    (p.field name).uses_transfer_encoding = p.uses_transfer_encoding := by
  cases name with
  | nil => rfl
  | cons c w =>
    have hfold : ∀ (u w : Bytes) (q : CParser), Read w q.index q.header_state →
        ¬ TRANSFER_ENCODING <+: w ++ u →
        (u.foldl fieldChar q).uses_transfer_encoding = q.uses_transfer_encoding := by
      intro u
      induction u with
      | nil => exact fun _ _ _ _ => rfl
      | cons c u ih =>
        intro w q hread hno
        have hne : w ++ [c] ≠ TRANSFER_ENCODING := by
          intro heq
          refine hno ⟨u, ?_⟩
          rw [← heq, List.append_assoc]
          rfl
        have hrest := ih (w ++ [c]) (q.fieldChar c) (read_fieldChar hread c) (by
          rwa [List.append_assoc])
        exact hrest.trans (uses_fieldChar hread hne)
    exact hfold (w.map TOKEN) [TOKEN c] (p.fieldStart (TOKEN c)) (read_fieldStart p (TOKEN c)) hte

/-! ### Values -/

/-- The states in which a value concerns the body. -/
def ofBody : HeaderState → Bool
  | .h_content_length | .h_content_length_num | .h_content_length_ws | .h_transfer_encoding
  | .h_matching_transfer_encoding_token_start | .h_matching_transfer_encoding_chunked
  | .h_matching_transfer_encoding_token | .h_transfer_encoding_chunked => true
  | _ => false

/-- A name that is neither of the two leaves no state of theirs behind. -/
theorem ofBody_field (p : CParser) (hne : name ≠ []) (hcl : name.map TOKEN ≠ CONTENT_LENGTH)
    (hte : name.map TOKEN ≠ TRANSFER_ENCODING) : ofBody (p.field name).header_state = false := by
  have hread := read_field p hne
  cases hstate : (p.field name).header_state with
  | h_content_length =>
    rw [hstate] at hread
    exact absurd hread hcl
  | h_transfer_encoding =>
    rw [hstate] at hread
    exact absurd hread hte
  | h_content_length_num | h_content_length_ws | h_matching_transfer_encoding_token_start
  | h_matching_transfer_encoding_chunked | h_matching_transfer_encoding_token
  | h_transfer_encoding_chunked =>
    rw [hstate] at hread
    exact hread.elim
  | _ => rfl

/-- What a value leaves alone that does not concern the body. -/
structure Ordinary (p q : CParser) : Prop where
  framing : q.framing = p.framing
  uses : q.uses_transfer_encoding = p.uses_transfer_encoding
  state : ofBody q.header_state = false

/-- Two steps of an ordinary header. -/
theorem Ordinary.trans (h : Ordinary p q) (h' : Ordinary q r) : Ordinary p r :=
  ⟨h'.framing.trans h.framing, h'.uses.trans h.uses, h'.state⟩

/-- A letter of an ordinary header, matched or not, is ordinary. -/
theorem ordinary_matchWord (h : ofBody p.header_state = false) (word : Bytes) (c : UInt8)
    {hit miss : HeaderState} (hhit : ofBody hit = false) (hmiss : ofBody miss = false) :
    Ordinary p (p.matchWord word c hit miss) := by
  obtain ⟨hframing, huses⟩ := framing_matchWord p word c hit miss
  refine ⟨hframing, huses, ?_⟩
  unfold matchWord
  dsimp only
  split_ifs
  · exact hmiss
  · exact hhit
  · exact h

/-- The first byte of an ordinary header's value is ordinary. -/
theorem ordinary_valueStart (h : ofBody p.header_state = false) (c : UInt8) :
    Ordinary p (p.valueStart c) := by
  unfold valueStart
  dsimp only
  cases hstate : p.header_state with
  | h_connection => exact ⟨rfl, rfl, by dsimp only; split_ifs <;> rfl⟩
  | h_transfer_encoding | h_content_length_ws | h_matching_transfer_encoding_token_start =>
    rw [hstate] at h
    cases h
  | _ => exact ⟨rfl, rfl, rfl⟩

/-- The end of an ordinary header is ordinary. -/
theorem ordinary_finishHeader (h : ofBody p.header_state = false) : Ordinary p p.finishHeader := by
  unfold finishHeader
  cases hstate : p.header_state with
  | h_transfer_encoding_chunked =>
    rw [hstate] at h
    cases h
  | h_connection_keep_alive | h_connection_close | h_connection_upgrade => exact ⟨rfl, rfl, rfl⟩
  | _ => exact ⟨rfl, rfl, h⟩

/-- A further byte of an ordinary header's value is ordinary. -/
theorem ordinary_valueChar (h : ofBody p.header_state = false) (ch : UInt8) :
    Ordinary p (p.valueChar ch) := by
  unfold valueChar
  dsimp only
  cases hstate : p.header_state with
  | h_matching_connection_keep_alive | h_matching_connection_close
  | h_matching_connection_upgrade => exact ordinary_matchWord h _ _ rfl rfl
  | h_connection_keep_alive | h_connection_close | h_connection_upgrade =>
    have hfinish := ordinary_finishHeader h
    dsimp only
    split_ifs
    · exact ⟨hfinish.framing, hfinish.uses, rfl⟩
    · exact ⟨rfl, rfl, rfl⟩
    · exact ⟨rfl, rfl, h⟩
  | h_matching_connection_token_start =>
    exact ⟨rfl, rfl, by dsimp only; split_ifs <;> rfl⟩
  | h_matching_connection_token =>
    dsimp only
    split_ifs
    · exact ⟨rfl, rfl, rfl⟩
    · exact ⟨rfl, rfl, h⟩
  | h_connection => exact ⟨rfl, rfl, h⟩
  | h_content_length | h_content_length_num | h_content_length_ws | h_transfer_encoding
  | h_matching_transfer_encoding_token_start | h_matching_transfer_encoding_chunked
  | h_matching_transfer_encoding_token | h_transfer_encoding_chunked =>
    rw [hstate] at h
    cases h
  | _ => exact ⟨rfl, rfl, rfl⟩

/-- The next byte of an ordinary value is taken if a header may have it, and is
an error otherwise. -/
theorem valueNext_ordinary (h : ofBody p.header_state = false) (ch : UInt8) :
    p.valueNext ch = if IS_HEADER_CHAR ch then some (p.valueChar ch) else none := by
  unfold valueNext
  cases hch : IS_HEADER_CHAR ch with
  | false => rfl
  | true =>
    cases hstate : p.header_state with
    | h_content_length | h_content_length_num | h_content_length_ws =>
      rw [hstate] at h
      cases h
    | _ => rfl

/-- The text of a value: every byte must be one of a header. -/
theorem foldlM_valueNext_ordinary (h : ofBody p.header_state = false) (v : Bytes) :
    ∃ q, Ordinary p q ∧
      v.foldlM valueNext p = if v.all IS_HEADER_CHAR then some q else none := by
  induction v generalizing p with
  | nil => exact ⟨p, ⟨rfl, rfl, h⟩, rfl⟩
  | cons ch v ih =>
    have hchar := ordinary_valueChar h ch
    obtain ⟨q, hq, hrest⟩ := ih hchar.state
    refine ⟨q, hchar.trans hq, ?_⟩
    rw [List.foldlM_cons, valueNext_ordinary h, List.all_cons]
    cases hch : IS_HEADER_CHAR ch with
    | false => rfl
    | true => exact hrest

/-- **A line that does not concern the body.**  The first byte of its value is
not looked at. -/
theorem line_ordinary (p : CParser) (hne : name ≠ []) (hcl : name.map TOKEN ≠ CONTENT_LENGTH)
    (hte : name.map TOKEN ≠ TRANSFER_ENCODING) (v : Bytes) : ∃ q, q.framing = p.framing ∧
      (¬ TRANSFER_ENCODING <+: name.map TOKEN →
        q.uses_transfer_encoding = p.uses_transfer_encoding) ∧
      p.line name v = if v.tail.all IS_HEADER_CHAR then some q else none := by
  have hstate := ofBody_field p hne hcl hte
  have hlength : (p.field name).header_state ≠ .h_content_length := by
    intro heq
    rw [heq] at hstate
    cases hstate
  have hvalue : ∃ q, Ordinary (p.field name) q ∧
      (p.field name).value v = if v.tail.all IS_HEADER_CHAR then some q else none := by
    cases v with
    | nil => exact ⟨p.field name, ⟨rfl, rfl, hstate⟩, if_neg hlength⟩
    | cons ch v =>
      have hfirst : (p.field name).valueFirst ch =
          some ((p.field name).valueStart (LOWER ch)) := if_neg hlength
      have hstart := ordinary_valueStart hstate (LOWER ch)
      obtain ⟨q, hq, hrest⟩ := foldlM_valueNext_ordinary hstart.state v
      refine ⟨q, hstart.trans hq, ?_⟩
      rw [value_cons, hfirst]
      exact hrest
  obtain ⟨q, hq, hvalue⟩ := hvalue
  have hfinish := hq.trans (ordinary_finishHeader hq.state)
  refine ⟨q.finishHeader, hfinish.framing.trans (framing_field p name), fun hno => ?_, ?_⟩
  · exact hfinish.uses.trans (uses_field p hno)
  · unfold line
    rw [hvalue]
    split <;> rfl

/-! ### `Content-Length` -/

/-- The digits that `IS_NUM` knows. -/
def numValue (c : UInt8) : Option ℕ := if IS_NUM c then some (c.toNat - 48) else none

/-- A digit may stand in a header. -/
theorem isHeaderChar_of_num (h : IS_NUM ch = true) : IS_HEADER_CHAR ch = true := by
  obtain ⟨hge, hle⟩ := Bool.and_eq_true_iff.1 h
  have hge' : 48 ≤ ch.toNat := UInt8.le_iff_toNat_le.1 (of_decide_eq_true hge)
  have hle' : ch.toNat ≤ 57 := UInt8.le_iff_toNat_le.1 (of_decide_eq_true hle)
  have hlt : 31 < ch := UInt8.lt_iff_toNat_lt.2 (by
    have h31 : (31 : UInt8).toNat = 31 := rfl
    omega)
  have hne : ch ≠ 127 := by
    rintro rfl
    have h127 : (127 : UInt8).toNat = 127 := rfl
    omega
  unfold IS_HEADER_CHAR
  simp [hlt, hne]

/-- Another digit, while the number stays in its range. -/
theorem valueNext_digit {d : ℕ} (hs : p.header_state = .h_content_length_num)
    (hd : numValue ch = some d) (hle : p.content_length ≤ (ULLONG_MAX - 10) / 10) :
    p.valueNext ch = some { p with content_length := 10 * p.content_length + d } := by
  unfold numValue at hd
  split at hd
  case isFalse => cases hd
  case isTrue hnum =>
    have hsp : ch ≠ 32 := by
      rintro rfl
      cases hnum
    have hno : (!IS_NUM ch || decide ((ULLONG_MAX - 10) / 10 < p.content_length)) = false := by
      rw [hnum, decide_eq_false (Nat.not_lt.2 hle)]
      rfl
    unfold valueNext
    rw [isHeaderChar_of_num hnum, if_neg (by decide), hs]
    dsimp only
    rw [if_neg hsp, hno, if_neg Bool.false_ne_true, ← hs, Nat.mul_comm, Option.some.inj hd]

/-- **The digits of a length.** -/
theorem foldlM_valueNext_digits {n : ℕ} (hs : p.header_state = .h_content_length_num)
    (hv : v.foldlM (Numeral.push 10 numValue) p.content_length = some n) (hn : n < 2 ^ 63) :
    v.foldlM valueNext p = some { p with content_length := n } := by
  induction v generalizing p with
  | nil =>
    rw [← Option.some.inj hv]
    rfl
  | cons ch v ih =>
    rw [List.foldlM_cons] at hv
    obtain ⟨m, hm, hrest⟩ := Option.bind_eq_some_iff.1 hv
    obtain ⟨d, hd, rfl⟩ := Option.map_eq_some_iff.1 hm
    have hle := Numeral.le_of_foldlM_push (by decide) hrest
    have hmax : (ULLONG_MAX - 10) / 10 = 1844674407370955160 := rfl
    have hstep := valueNext_digit hs hd (by omega)
    rw [List.foldlM_cons, hstep]
    exact ih (p := { p with content_length := 10 * p.content_length + d }) hs hrest

/-- **A `Content-Length`** announces a number. -/
theorem line_length {n : ℕ} (hname : name.map TOKEN = CONTENT_LENGTH)
    (hfirst : p.flags.F_CONTENTLENGTH = false) (hv : Numeral.read 10 numValue v = some n)
    (hn : n < 2 ^ 63) : ∃ q, p.line name v = some q ∧
      q.framing = { p.framing with content_length := n, F_CONTENTLENGTH := true } ∧
      q.uses_transfer_encoding = p.uses_transfer_encoding := by
  have hframing := framing_field p name
  have hflag : (p.field name).flags.F_CONTENTLENGTH = false :=
    (congrArg Framing.F_CONTENTLENGTH hframing).trans hfirst
  have huses : (p.field name).uses_transfer_encoding = p.uses_transfer_encoding :=
    uses_field p (by rw [hname]; decide +kernel)
  generalize hq : p.field name = q at *
  have hstate : q.header_state = .h_content_length := hq ▸ field_length p hname
  cases v with
  | nil => cases hv
  | cons ch v =>
    have hread : (ch :: v).foldlM (Numeral.push 10 numValue) 0 = some n := hv
    rw [List.foldlM_cons] at hread
    obtain ⟨m, hm, hrest⟩ := Option.bind_eq_some_iff.1 hread
    obtain ⟨d, hd, rfl⟩ := Option.map_eq_some_iff.1 hm
    unfold numValue at hd
    split at hd
    case isFalse => cases hd
    case isTrue hnum =>
      rw [Nat.mul_zero, Nat.zero_add, ← Option.some.inj hd] at hrest
      have hvalue : q.valueFirst ch = some { q with
          index := 0
          flags.F_CONTENTLENGTH := true
          content_length := ch.toNat - 48
          header_state := .h_content_length_num } := by
        unfold valueFirst
        rw [if_pos hstate, hnum, hflag]
        rfl
      have hdigits := foldlM_valueNext_digits (p := { q with
          index := 0
          flags.F_CONTENTLENGTH := true
          content_length := ch.toNat - 48
          header_state := .h_content_length_num }) rfl hrest hn
      refine ⟨{ q with
          index := 0
          flags.F_CONTENTLENGTH := true
          content_length := n
          header_state := .h_content_length_num }, ?_, ?_, huses⟩
      · unfold line
        rw [hq, value_cons, hvalue]
        exact congrArg (Option.map finishHeader) hdigits
      · rw [← hframing]
        rfl

/-- **A second `Content-Length`** is an error. -/
theorem line_length_twice (hname : name.map TOKEN = CONTENT_LENGTH)
    (hflag : p.flags.F_CONTENTLENGTH = true) (v : Bytes) : p.line name v = none := by
  have hstate := field_length p hname
  have hflag' : (p.field name).flags.F_CONTENTLENGTH = true :=
    (congrArg Framing.F_CONTENTLENGTH (framing_field p name)).trans hflag
  have hvalue : (p.field name).value v = none := by
    cases v with
    | nil => exact if_pos hstate
    | cons ch v =>
      have hfirst : (p.field name).valueFirst ch = none := by
        unfold valueFirst
        rw [if_pos hstate, hflag', Bool.or_true]
        rfl
      rw [value_cons, hfirst]
      rfl
  unfold line
  rw [hvalue]
  rfl

/-- After a length, whatever follows its digits. -/
theorem foldlM_valueNext_length
    (hs : p.header_state = .h_content_length_num ∨ p.header_state = .h_content_length_ws)
    (h : v.foldlM valueNext p = some q) :
    (q.header_state = .h_content_length_num ∨ q.header_state = .h_content_length_ws) ∧
      q.framing = { p.framing with content_length := q.content_length } := by
  induction v generalizing p with
  | nil =>
    obtain rfl := Option.some.inj h
    exact ⟨hs, rfl⟩
  | cons ch v ih =>
    rw [List.foldlM_cons] at h
    obtain ⟨r, hr, hrest⟩ := Option.bind_eq_some_iff.1 h
    have hnext : (r.header_state = .h_content_length_num ∨ r.header_state = .h_content_length_ws) ∧
        r.framing = { p.framing with content_length := r.content_length } := by
      unfold valueNext at hr
      rcases hs with hs | hs
      · simp only [hs, reduceCtorEq, if_false] at hr
        split_ifs at hr
        · obtain rfl := Option.some.inj hr
          exact ⟨.inr rfl, rfl⟩
        · obtain rfl := Option.some.inj hr
          exact ⟨.inl rfl, rfl⟩
      · simp only [hs] at hr
        split_ifs at hr
        obtain rfl := Option.some.inj hr
        exact ⟨.inr hs, rfl⟩
    obtain ⟨hq, hframing⟩ := ih hnext.1 hrest
    refine ⟨hq, ?_⟩
    rw [hframing, hnext.2]

/-- A `Content-Length` that is no error, whatever it says. -/
theorem framing_line_length (hname : name.map TOKEN = CONTENT_LENGTH)
    (h : p.line name v = some q) :
    q.framing = { p.framing with content_length := q.content_length, F_CONTENTLENGTH := true } := by
  have hstate := field_length p hname
  have hframing := framing_field p name
  obtain ⟨r, hr, rfl⟩ := Option.map_eq_some_iff.1 h
  cases v with
  | nil =>
    have hnone : (p.field name).value [] = none := if_pos hstate
    rw [hnone] at hr
    cases hr
  | cons ch v =>
    rw [value_cons] at hr
    obtain ⟨r₀, hfirst, hrest⟩ := Option.bind_eq_some_iff.1 hr
    unfold valueFirst at hfirst
    rw [if_pos hstate] at hfirst
    split at hfirst
    case isTrue => cases hfirst
    case isFalse =>
      obtain rfl := Option.some.inj hfirst
      obtain ⟨hs, hlength⟩ := foldlM_valueNext_length (.inl rfl) hrest
      have hfinish : r.finishHeader = r := by
        unfold finishHeader
        rcases hs with hs | hs <;> rw [hs]
      rw [hfinish, hlength, ← hframing]
      rfl

/-! ### The lines -/

/-- A header that does not concern the body, or begins with `Transfer-Encoding`. -/
structure IsOrdinary (item : Bytes × Bytes) : Prop where
  nonempty : item.1 ≠ []
  length : item.1.map TOKEN ≠ CONTENT_LENGTH
  encoding : item.1.map TOKEN ≠ TRANSFER_ENCODING

/-- The bytes of a value but the first can stand in a header. -/
def isText (item : Bytes × Bytes) : Bool := item.2.tail.all IS_HEADER_CHAR

/-- The name begins with `Transfer-Encoding`. -/
def LikeEncoding (item : Bytes × Bytes) : Prop := TRANSFER_ENCODING <+: item.1.map TOKEN

variable {hs a b : List (Bytes × Bytes)} {item : Bytes × Bytes}

/-- The lines of two parts of the headers. -/
theorem lines_append (p : CParser) (a b : List (Bytes × Bytes)) :
    p.lines (a ++ b) = (p.lines a).bind fun q => q.lines b := List.foldlM_append ..

/-- The first line of the headers, and those behind it. -/
theorem lines_cons (p : CParser) (item : Bytes × Bytes) (hs : List (Bytes × Bytes)) :
    p.lines (item :: hs) = (p.line item.1 item.2).bind fun q => q.lines hs := rfl

/-- **Headers that do not concern the body.** -/
theorem lines_ordinary (p : CParser) (hs : List (Bytes × Bytes))
    (hitems : ∀ item ∈ hs, IsOrdinary item) : ∃ q, q.framing = p.framing ∧
      ((∀ item ∈ hs, ¬ LikeEncoding item) →
        q.uses_transfer_encoding = p.uses_transfer_encoding) ∧
      p.lines hs = if hs.all isText then some q else none := by
  induction hs generalizing p with
  | nil => exact ⟨p, rfl, fun _ => rfl, rfl⟩
  | cons item hs ih =>
    obtain ⟨hne, hcl, hte⟩ := hitems item List.mem_cons_self
    obtain ⟨q, hq, huses, hline⟩ := line_ordinary p hne hcl hte item.2
    obtain ⟨r, hr, huses', hrest⟩ := ih q fun e he => hitems e (List.mem_cons_of_mem _ he)
    refine ⟨r, hr.trans hq, fun hno => ?_, ?_⟩
    · exact (huses' fun e he => hno e (List.mem_cons_of_mem _ he)).trans
        (huses (hno item List.mem_cons_self))
    · have htext : item.2.tail.all IS_HEADER_CHAR = isText item := rfl
      rw [lines_cons, hline, List.all_cons, htext]
      cases isText item with
      | false => rfl
      | true => exact hrest

/-- One header whose value is no text. -/
theorem lines_not_text (p : CParser) (hitem : IsOrdinary item) (htext : isText item = false)
    (hmem : item ∈ hs) : p.lines hs = none := by
  obtain ⟨a, b, rfl⟩ := List.append_of_mem hmem
  rw [lines_append]
  refine Option.bind_eq_none_iff.2 fun q _ => ?_
  obtain ⟨r, -, -, hline⟩ := line_ordinary q hitem.nonempty hitem.length hitem.encoding item.2
  have hno : item.2.tail.all IS_HEADER_CHAR = false := htext
  rw [lines_cons, hline, hno]
  rfl

/-- **One `Content-Length`** among other headers. -/
theorem lines_length {n : ℕ} (hfirst : p.flags.F_CONTENTLENGTH = false)
    (ha : ∀ item ∈ a, IsOrdinary item) (hb : ∀ item ∈ b, IsOrdinary item)
    (hname : item.1.map TOKEN = CONTENT_LENGTH) (hv : Numeral.read 10 numValue item.2 = some n)
    (hn : n < 2 ^ 63) : ∃ q,
      q.framing = { p.framing with content_length := n, F_CONTENTLENGTH := true } ∧
      ((∀ item ∈ a ++ b, ¬ LikeEncoding item) →
        q.uses_transfer_encoding = p.uses_transfer_encoding) ∧
      p.lines (a ++ item :: b) = if (a ++ b).all isText then some q else none := by
  obtain ⟨p₁, hp₁, huses₁, hlines₁⟩ := lines_ordinary p a ha
  have hflag : p₁.flags.F_CONTENTLENGTH = false :=
    (congrArg Framing.F_CONTENTLENGTH hp₁).trans hfirst
  obtain ⟨p₂, hline, hp₂, huses₂⟩ := line_length hname hflag hv hn
  obtain ⟨p₃, hp₃, huses₃, hlines₃⟩ := lines_ordinary p₂ b hb
  refine ⟨p₃, ?_, fun hno => ?_, ?_⟩
  · rw [hp₃, hp₂, hp₁]
  · rw [huses₃ fun e he => hno e (List.mem_append_right _ he), huses₂,
      huses₁ fun e he => hno e (List.mem_append_left _ he)]
  · rw [lines_append, hlines₁, List.all_append]
    cases a.all isText with
    | false => rfl
    | true =>
      rw [if_pos rfl, Option.bind_some, lines_cons, hline, Option.bind_some]
      exact hlines₃

/-- **Two `Content-Length`s** are an error, whatever they say. -/
theorem lines_length_twice (hb : ∀ item ∈ b, IsOrdinary item) {last : Bytes × Bytes}
    (hname : item.1.map TOKEN = CONTENT_LENGTH) (hlast : last.1.map TOKEN = CONTENT_LENGTH) :
    p.lines (a ++ item :: b ++ [last]) = none := by
  refine Option.eq_none_iff_forall_ne_some.2 fun q hq => ?_
  rw [List.append_assoc, lines_append] at hq
  obtain ⟨p₁, -, hq⟩ := Option.bind_eq_some_iff.1 hq
  rw [List.cons_append, lines_cons] at hq
  obtain ⟨p₂, hline, hq⟩ := Option.bind_eq_some_iff.1 hq
  rw [lines_append] at hq
  obtain ⟨p₃, hlines, hq⟩ := Option.bind_eq_some_iff.1 hq
  obtain ⟨r, hr, -, hrest⟩ := lines_ordinary p₂ b hb
  rw [hrest] at hlines
  split at hlines
  case isFalse => cases hlines
  case isTrue =>
    obtain rfl := Option.some.inj hlines
    have hflag : r.flags.F_CONTENTLENGTH = true :=
      congrArg Framing.F_CONTENTLENGTH (hr.trans (framing_line_length hname hline))
    rw [lines_cons, line_length_twice hlast hflag] at hq
    cases hq

/-- **Headers that are no error** change the length at most. -/
theorem framing_lines (hitems : ∀ item ∈ hs, item.1 ≠ [] ∧ item.1.map TOKEN ≠ TRANSFER_ENCODING)
    (h : p.lines hs = some q) : ∃ n b,
      q.framing = { p.framing with content_length := n, F_CONTENTLENGTH := b } := by
  induction hs generalizing p with
  | nil =>
    obtain rfl := Option.some.inj h
    exact ⟨p.content_length, p.flags.F_CONTENTLENGTH, rfl⟩
  | cons item hs ih =>
    rw [lines_cons] at h
    obtain ⟨r, hline, hrest⟩ := Option.bind_eq_some_iff.1 h
    obtain ⟨hne, hte⟩ := hitems item List.mem_cons_self
    obtain ⟨n, b, hq⟩ := ih (fun e he => hitems e (List.mem_cons_of_mem _ he)) hrest
    refine ⟨n, b, ?_⟩
    by_cases hcl : item.1.map TOKEN = CONTENT_LENGTH
    · rw [hq, framing_line_length hcl hline]
    · obtain ⟨r', hr', -, hline'⟩ := line_ordinary p hne hcl hte item.2
      rw [hline] at hline'
      split at hline'
      case isTrue =>
        rw [hq, Option.some.inj hline', hr']
      case isFalse => cases hline'

end CParser

end Http
end Net
end Sevent
