/-
# Getters that insert headers

`HttpParser::getHeader` returns `headers[key]`, and `headers` is a `std::map`: a
header that is not there is inserted with an empty value, and `buildString` and
`toString` print it from then on.

A sequence of calls is compared with the same sequence without its getters.  For
one header name at a time there are three possibilities: the name is there from
the beginning, and then a getter finds it; it is set before it is read; or it is
read first, and then the two runs agree in the end if a later `setHeader` names
the header, the first of them in the spelling of the getter, since the map keeps
the spelling that came first (`foldl_eq_iff`).

`Extra` compares the entries of the two maps: what the getters leave are entries
with an empty value, so that the text is longer or the same (`Extra.length_le`).
-/

import Sevent.Net.Http.HttpMessage
import Mathlib.Data.List.TakeWhile

namespace Sevent
namespace Net
namespace Http

/-- A call of a getter or a setter. -/
inductive Call (F : Type)
  | get (g : Getter)
  | set (s : Setter F)

namespace HttpMessage

variable {F : Type}

/-- The heap and the message after some calls. -/
def run (w : Heap) (m : HttpMessage F) : List (Call F) → Heap × HttpMessage F
  | [] => (w, m)
  | .get g :: calls => m.run (w.modify m.parser fun p => g.read p) calls
  | .set s :: calls => (m.set w s).2.run (m.set w s).1 calls

end HttpMessage

/-- The setters of some calls. -/
def setters {F : Type} (calls : List (Call F)) : List (Call F) :=
  calls.filter fun c => match c with
    | .get _ => false
    | .set _ => true

/-! ### What the calls do to the headers -/

/-- A call that concerns the headers. -/
inductive HeaderCall
  | read (key : Bytes)
  | write (key val : Bytes)

namespace HeaderCall

/-- The name that a call is about. -/
def key : HeaderCall → Bytes
  | .read key => key
  | .write key _ => key

/-- Setters write; getters only read, as far as their callers know. -/
def isWrite : HeaderCall → Bool
  | .read _ => false
  | .write _ _ => true

/-- What a call does to the map: `getHeader` inserts the name when it is not
there. -/
def act (headers : HeaderMap) : HeaderCall → HeaderMap
  | .read key => headers.touch [] key
  | .write key val => headers.set key val

end HeaderCall

/-- The calls of `getHeader` and `setHeader`. -/
def headerCalls {F : Type} (calls : List (Call F)) : List HeaderCall :=
  calls.filterMap fun c => match c with
    | .get (.getHeader key) => some (.read key)
    | .set (.setHeader key val) => some (.write key val)
    | _ => none

/-- The first call that names a header. -/
def firstCall (calls : List HeaderCall) (x : List ℕ) : Option HeaderCall :=
  calls.find? fun c => stricmpOrder c.key = x

/-- The spelling of the first `setHeader` that names a header. -/
def firstWrite (calls : List HeaderCall) (x : List ℕ) : Option Bytes :=
  (firstCall (calls.filter HeaderCall.isWrite) x).map HeaderCall.key

/-- Where a header is absent and the first call that names it is a `getHeader`, a
later `setHeader` names it, and the first of these spells it in the same way. -/
def ReadsCovered (headers : HeaderMap) (calls : List HeaderCall) : Prop :=
  ∀ x key, headers.find x = none → firstCall calls x = some (.read key) →
    firstWrite calls x = some key

/-! ### One name -/

/-- What a call that names a header does to its entry. -/
def HeaderCall.actAt (entry : Option (Bytes × Bytes)) : HeaderCall → Option (Bytes × Bytes)
  | .read key => if entry = none then some (key, []) else entry
  | .write key val => some ((entry.map Prod.fst).getD key, val)

variable {headers : HeaderMap} {calls : List HeaderCall} {x : List ℕ} {e : Bytes × Bytes}
  {key : Bytes}

/-- A call changes the entry of its own name at most. -/
theorem find_act (headers : HeaderMap) (c : HeaderCall) (x : List ℕ) :
    (c.act headers).find x =
      if stricmpOrder c.key = x then c.actAt (headers.find x) else headers.find x := by
  cases c with
  | read key =>
    rw [HeaderCall.act, OrderedMap.find_touch, HeaderCall.key, HeaderCall.actAt]
    split
    case isTrue h => rw [if_pos h.1, if_pos h.2]
    case isFalse h =>
      split
      case isTrue hx => rw [if_neg fun hnone => h ⟨hx, hnone⟩]
      case isFalse => rfl
  | write key val =>
    rw [HeaderCall.act, OrderedMap.find_set, HeaderCall.key, HeaderCall.actAt]
    split
    case isTrue => rfl
    case isFalse => rfl

/-- The calls that name a header decide over its entry. -/
theorem find_foldl (headers : HeaderMap) (calls : List HeaderCall) (x : List ℕ) :
    (calls.foldl HeaderCall.act headers).find x =
      (calls.filter fun c => stricmpOrder c.key = x).foldl HeaderCall.actAt (headers.find x) := by
  induction calls generalizing headers with
  | nil => rfl
  | cons c calls ih =>
    rw [List.foldl_cons, ih, find_act]
    by_cases hx : stricmpOrder c.key = x
    · rw [if_pos hx, List.filter_cons_of_pos (by simpa using hx), List.foldl_cons]
    · rw [if_neg hx, List.filter_cons_of_neg (by simpa using hx)]

/-- A header that is there: the getters find it. -/
theorem foldl_some (calls : List HeaderCall) (e : Bytes × Bytes) :
    calls.foldl HeaderCall.actAt (some e) =
      (calls.filter HeaderCall.isWrite).foldl HeaderCall.actAt (some e) := by
  induction calls generalizing e with
  | nil => rfl
  | cons c calls ih =>
    cases c with
    | read key => exact ih e
    | write key val => exact ih (e.1, val)

/-- Its spelling stays. -/
theorem spelling_foldl (calls : List HeaderCall) (e : Bytes × Bytes) :
    (calls.foldl HeaderCall.actAt (some e)).map Prod.fst = some e.1 := by
  induction calls generalizing e with
  | nil => rfl
  | cons c calls ih =>
    cases c with
    | read key => exact ih e
    | write key val => exact ih (e.1, val)

variable (key) in
/-- A header that a getter has inserted, and one that is not there: the first
`setHeader` makes them the same if it spells the name as the getter did. -/
theorem foldl_inserted_iff (hcalls : ∀ c ∈ calls, c.isWrite = true) :
    calls.foldl HeaderCall.actAt (some (key, [])) = calls.foldl HeaderCall.actAt none ↔
      calls.head?.map HeaderCall.key = some key := by
  cases calls with
  | nil => simp
  | cons c calls =>
    cases c with
    | read k => cases hcalls _ List.mem_cons_self
    | write k val =>
      change calls.foldl HeaderCall.actAt (some (key, val)) =
        calls.foldl HeaderCall.actAt (some (k, val)) ↔ some k = some key
      constructor
      · intro h
        rw [← spelling_foldl calls (k, val), ← spelling_foldl calls (key, val), h]
      · intro h
        rw [Option.some.inj h]

/-- **When the entry of a name is the same without the getters.** -/
theorem foldl_eq_iff (entry : Option (Bytes × Bytes)) (calls : List HeaderCall) :
    calls.foldl HeaderCall.actAt entry =
        (calls.filter HeaderCall.isWrite).foldl HeaderCall.actAt entry ↔
      (entry = none → ∀ key, calls.head? = some (.read key) →
        (calls.filter HeaderCall.isWrite).head?.map HeaderCall.key = some key) := by
  cases entry with
  | some e => simp [foldl_some calls e]
  | none =>
    cases calls with
    | nil => simp
    | cons c calls =>
      cases c with
      | write key val =>
        have hsame : (HeaderCall.write key val :: calls).foldl HeaderCall.actAt none =
            ((HeaderCall.write key val :: calls).filter HeaderCall.isWrite).foldl
              HeaderCall.actAt none := foldl_some calls (key, val)
        simp [hsame]
      | read key =>
        have hwrites : ∀ c ∈ calls.filter HeaderCall.isWrite, c.isWrite = true := fun c hc =>
          (List.mem_filter.1 hc).2
        have hinserted := foldl_inserted_iff key hwrites
        rw [← foldl_some] at hinserted
        simpa [HeaderCall.isWrite, HeaderCall.actAt] using hinserted

/-- **When the headers are the same without the getters.** -/
theorem headers_eq_iff : calls.foldl HeaderCall.act headers =
    (calls.filter HeaderCall.isWrite).foldl HeaderCall.act headers ↔
      ReadsCovered headers calls := by
  have hname : ∀ x, (calls.foldl HeaderCall.act headers).find x =
      ((calls.filter HeaderCall.isWrite).foldl HeaderCall.act headers).find x ↔
        (headers.find x = none → ∀ key, firstCall calls x = some (.read key) →
          firstWrite calls x = some key) := by
    intro x
    have hcomm : (calls.filter HeaderCall.isWrite).filter (fun c => stricmpOrder c.key = x) =
        (calls.filter fun c => stricmpOrder c.key = x).filter HeaderCall.isWrite := by
      rw [List.filter_filter, List.filter_filter]
      exact List.filter_congr fun c _ => Bool.and_comm _ _
    rw [find_foldl, find_foldl, hcomm, foldl_eq_iff, ← hcomm, List.head?_filter, List.head?_filter]
    rfl
  constructor
  · intro h x key hnone
    exact (hname x).1 (by rw [h]) hnone key
  · intro h
    exact OrderedMap.ext_find fun x => (hname x).2 fun hnone key => h x key hnone

/-! ### The two runs -/

/-- A parser but for its maps. -/
def ParserObject.withoutMaps (p : ParserObject) : ParserObject :=
  { p with headers := .empty, params := .empty }

/-- What a parser is apart from its maps. -/
theorem withoutMaps_congr {p q : ParserObject} (h : p.withoutMaps = q.withoutMaps) :
    p.body = q.body ∧ p.parser = q.parser ∧ p.getUrl = q.getUrl := by
  have hbody : p.withoutMaps.body = q.withoutMaps.body := by rw [h]
  have hparser : p.withoutMaps.parser = q.withoutMaps.parser := by rw [h]
  have hurl : p.withoutMaps.getUrl = q.withoutMaps.getUrl := by rw [h]
  exact ⟨hbody, hparser, hurl⟩

/-- What is at the address after a change there. -/
theorem Heap.modify_self (w : Heap) (address : ℕ) (f : ParserObject → ParserObject) :
    (w.modify address f).parsers address = f (w.parsers address) :=
  Function.update_self ..

/-- A getter changes the maps only. -/
theorem withoutMaps_read (p : ParserObject) (g : Getter) :
    (g.read p).withoutMaps = p.withoutMaps := by
  cases g <;> rfl

section Runs

variable {F : Type} {w w' : Heap} {m m' : HttpMessage F}

/-- Two messages in their heaps that differ in the maps of their parsers only. -/
structure SameButMaps (w : Heap) (m : HttpMessage F) (w' : Heap) (m' : HttpMessage F) : Prop where
  own : m.own = m'.own
  rest : (w.parsers m.parser).withoutMaps = (w'.parsers m'.parser).withoutMaps

/-- A getter keeps two messages the same but for the maps. -/
theorem SameButMaps.get (h : SameButMaps w m w' m') (g : Getter) :
    SameButMaps (w.modify m.parser fun p => g.read p) m w' m' :=
  ⟨h.own, by rw [Heap.modify_self, withoutMaps_read, h.rest]⟩

/-- A setter keeps two messages the same but for the maps. -/
theorem SameButMaps.set (h : SameButMaps w m w' m') (s : Setter F) :
    SameButMaps (m.set w s).1 (m.set w s).2 (m'.set w' s).1 (m'.set w' s).2 := by
  cases s with
  | setBody val =>
    refine ⟨h.own, ?_⟩
    unfold HttpMessage.set
    dsimp only
    rw [Heap.modify_self, Heap.modify_self]
    exact congrArg (fun p : ParserObject => p.setBody val) h.rest
  | setHeader key val =>
    refine ⟨h.own, ?_⟩
    unfold HttpMessage.set
    dsimp only
    rw [Heap.modify_self, Heap.modify_self]
    exact h.rest
  | own f => exact ⟨congrArg f h.own, h.rest⟩

/-- **The getters of a run change the maps only.** -/
theorem sameButMaps_run (h : SameButMaps w m w' m') (calls : List (Call F)) :
    SameButMaps (m.run w calls).1 (m.run w calls).2 (m'.run w' (setters calls)).1
      (m'.run w' (setters calls)).2 := by
  induction calls generalizing w m w' m' with
  | nil => exact h
  | cons c calls ih =>
    cases c with
    | get g => exact ih (h.get g)
    | set s => exact ih (h.set s)

/-- **The headers after a run.** -/
theorem headers_run (w : Heap) (m : HttpMessage F) (calls : List (Call F)) :
    ((m.run w calls).1.parsers (m.run w calls).2.parser).headers =
      (headerCalls calls).foldl HeaderCall.act (w.parsers m.parser).headers := by
  induction calls generalizing w m with
  | nil => rfl
  | cons c calls ih =>
    cases c with
    | get g =>
      refine (ih _ m).trans ?_
      rw [Heap.modify_self]
      cases g <;> rfl
    | set s =>
      refine (ih _ _).trans ?_
      cases s with
      | setBody val =>
        unfold HttpMessage.set
        dsimp only
        rw [Heap.modify_self]
        rfl
      | setHeader key val =>
        unfold HttpMessage.set
        dsimp only
        rw [Heap.modify_self]
        rfl
      | own f => rfl

/-- The setters of a run are those of its calls that write. -/
theorem headerCalls_setters (calls : List (Call F)) :
    headerCalls (setters calls) = (headerCalls calls).filter HeaderCall.isWrite := by
  have hcons : ∀ (c : Call F) (calls : List (Call F)),
      headerCalls (c :: calls) = headerCalls [c] ++ headerCalls calls := fun c _ =>
    List.filterMap_append (l := [c])
  induction calls with
  | nil => rfl
  | cons c calls ih =>
    rw [hcons, List.filter_append, ← ih]
    cases c with
    | get g => cases g <;> rfl
    | set s =>
      refine (hcons (.set s) (setters calls)).trans ?_
      cases s <;> rfl

end Runs

/-! ### The text -/

/-- The lines of some entries. -/
def lines (es : List (Bytes × Bytes)) : Bytes :=
  es.flatMap fun item => item.1 ++ text ": " ++ item.2 ++ text "\r\n"

/-- The entries of the first list are those of the second, some in another
spelling of the same length, and further ones with an empty value. -/
inductive Extra : List (Bytes × Bytes) → List (Bytes × Bytes) → Prop
  | nil : Extra [] []
  | both {k k' v : Bytes} {es es' : List (Bytes × Bytes)} :
      stricmpOrder k = stricmpOrder k' → k.length = k'.length → Extra es es' →
        Extra ((k, v) :: es) ((k', v) :: es')
  | extra {k : Bytes} {es es' : List (Bytes × Bytes)} :
      0 ∉ k → Extra es es' → Extra ((k, []) :: es) es'

variable {es es' : List (Bytes × Bytes)} {k k' v : Bytes}

/-- The length of a name without a NUL. -/
theorem length_stricmpOrder (h : 0 ∉ k) : (stricmpOrder k).length = k.length := by
  have hfree : k.takeWhile (· != 0) = k :=
    List.takeWhile_eq_self_iff.2 fun b hb => bne_iff_ne.2 fun hb0 => h (hb0 ▸ hb)
  rw [stricmpOrder, stricmpKey, List.length_map, List.length_map, hfree]

namespace Extra

/-- The same entries, with nothing more. -/
theorem refl (es : List (Bytes × Bytes)) : Extra es es := by
  induction es with
  | nil => exact .nil
  | cons e es ih => exact .both rfl rfl ih

/-- Every name of the second list is in the first one. -/
theorem exists_fold (h : Extra es es') {e : Bytes × Bytes} (he : e ∈ es') :
    ∃ f ∈ es, stricmpOrder f.1 = stricmpOrder e.1 := by
  induction h with
  | nil => cases he
  | both hk _ _ ih =>
    rcases List.mem_cons.1 he with rfl | he
    · exact ⟨_, List.mem_cons_self, hk⟩
    · obtain ⟨f, hf, hfold⟩ := ih he
      exact ⟨f, List.mem_cons_of_mem _ hf, hfold⟩
  | extra _ _ ih =>
    obtain ⟨f, hf, hfold⟩ := ih he
    exact ⟨f, List.mem_cons_of_mem _ hf, hfold⟩

/-- A name that comes before all others. -/
theorem setEntries_of_lt (h : ∀ e ∈ es, stricmpOrder k < stricmpOrder e.1) :
    OrderedMap.setEntries stricmpOrder k v es = (k, v) :: es := by
  cases es with
  | nil => rfl
  | cons e es => rw [OrderedMap.setEntries, if_pos (h e List.mem_cons_self)]

/-- **A header is set in both.** -/
theorem setEntries (h : Extra es es')
    (hs : es.Pairwise fun a b => stricmpOrder a.1 < stricmpOrder b.1) (hk : 0 ∉ k) :
    Extra (OrderedMap.setEntries stricmpOrder k v es)
      (OrderedMap.setEntries stricmpOrder k v es') := by
  induction h with
  | nil => exact .both rfl rfl .nil
  | @both k₁ k₂ u es es' hfold hlen hrest ih =>
    obtain ⟨hhead, htail⟩ := List.pairwise_cons.1 hs
    unfold OrderedMap.setEntries
    dsimp only
    rw [← hfold]
    split
    case isTrue => exact .both rfl rfl (.both hfold hlen hrest)
    case isFalse =>
      split
      case isTrue => exact .both hfold hlen (ih htail)
      case isFalse => exact .both hfold hlen hrest
  | @extra k₁ es es' hk₁ hrest ih =>
    obtain ⟨hhead, htail⟩ := List.pairwise_cons.1 hs
    have hafter : ∀ e ∈ es', stricmpOrder k₁ < stricmpOrder e.1 := by
      intro e he
      obtain ⟨f, hf, hfold⟩ := hrest.exists_fold he
      rw [← hfold]
      exact hhead f hf
    rw [OrderedMap.setEntries]
    split
    case isTrue hlt =>
      rw [setEntries_of_lt fun e he => hlt.trans (hafter e he)]
      exact .both rfl rfl (.extra hk₁ hrest)
    case isFalse hge =>
      split
      case isTrue => exact .extra hk₁ (ih htail)
      case isFalse hle =>
        have heq : stricmpOrder k₁ = stricmpOrder k :=
          le_antisymm (not_lt.1 hge) (not_lt.1 hle)
        rw [setEntries_of_lt fun e he => heq ▸ hafter e he]
        refine .both heq ?_ hrest
        rw [← length_stricmpOrder hk₁, ← length_stricmpOrder hk, heq]

/-- **A header is read that is not there.** -/
theorem insert (h : Extra es es') (hk : 0 ∉ k)
    (hnone : ∀ e ∈ es, stricmpOrder e.1 ≠ stricmpOrder k) :
    Extra (OrderedMap.setEntries stricmpOrder k [] es) es' := by
  induction h with
  | nil => exact .extra hk .nil
  | @both k₁ k₂ u es es' hfold hlen hrest ih =>
    unfold OrderedMap.setEntries
    split
    case isTrue => exact .extra hk (.both hfold hlen hrest)
    case isFalse hge =>
      split
      case isTrue => exact .both hfold hlen (ih fun e he => hnone e (List.mem_cons_of_mem _ he))
      case isFalse hle =>
        exact absurd (le_antisymm (not_lt.1 hge) (not_lt.1 hle)) (hnone _ List.mem_cons_self)
  | @extra k₁ es es' hk₁ hrest ih =>
    unfold OrderedMap.setEntries
    split
    case isTrue => exact .extra hk (.extra hk₁ hrest)
    case isFalse hge =>
      split
      case isTrue => exact .extra hk₁ (ih fun e he => hnone e (List.mem_cons_of_mem _ he))
      case isFalse hle =>
        exact absurd (le_antisymm (not_lt.1 hge) (not_lt.1 hle)) (hnone _ List.mem_cons_self)

/-- The lines of the headers, one for each entry. -/
theorem lines_cons (e : Bytes × Bytes) (es : List (Bytes × Bytes)) :
    lines (e :: es) = e.1 ++ text ": " ++ e.2 ++ text "\r\n" ++ lines es := List.flatMap_cons

/-- What is further there makes the text longer. -/
theorem length_le (h : Extra es es') : (lines es').length ≤ (lines es).length := by
  induction h with
  | nil => exact le_rfl
  | both _ hlen _ ih =>
    rw [lines_cons, lines_cons]
    simp only [List.length_append]
    omega
  | extra _ _ ih =>
    rw [lines_cons]
    simp only [List.length_append]
    omega

/-- **The same text: nothing is further there.** -/
theorem eq_of_lines (h : Extra es es') (heq : lines es = lines es') : es = es' := by
  induction h with
  | nil => rfl
  | @both k₁ k₂ u es es' _ hlen _ ih =>
    rw [lines_cons, lines_cons] at heq
    simp only [List.append_assoc] at heq
    obtain ⟨hk, hrest⟩ := List.append_inj heq hlen
    have htail : lines es = lines es' := by
      simpa only [List.append_cancel_left_eq] using hrest
    change k₁ = k₂ at hk
    rw [hk, ih htail]
  | @extra k₁ es es' _ hrest ih =>
    have hle := hrest.length_le
    have hlen := congrArg List.length heq
    have hcolon : (text ": ").length = 2 := rfl
    rw [lines_cons] at hlen
    simp only [List.length_append] at hlen
    omega

/-- **What the getters of a run leave.** -/
theorem foldl {headers' : HeaderMap} (h : Extra headers.entries headers'.entries)
    (hnul : ∀ c ∈ calls, 0 ∉ c.key) :
    Extra (calls.foldl HeaderCall.act headers).entries
      ((calls.filter HeaderCall.isWrite).foldl HeaderCall.act headers').entries := by
  induction calls generalizing headers headers' with
  | nil => exact h
  | cons c calls ih =>
    have hkey := hnul c List.mem_cons_self
    have hrest : ∀ c ∈ calls, 0 ∉ c.key := fun d hd => hnul d (List.mem_cons_of_mem _ hd)
    cases c with
    | write key val => exact ih (h.setEntries headers.sorted hkey) hrest
    | read key =>
      refine ih ?_ hrest
      unfold HeaderCall.act OrderedMap.touch
      dsimp only
      split
      case isTrue => exact h
      case isFalse hnone =>
        have hfind : headers.find (stricmpOrder key) = none :=
          Option.not_isSome_iff_eq_none.1 hnone
        refine h.insert hkey fun e he heq => ?_
        have hmem := OrderedMap.findEntry_of_mem headers.sorted he
        rw [heq] at hmem
        cases hfind.symm.trans hmem

end Extra

section Runs

variable {F : Type} [MessageFields F] {w w' : Heap} {m m' : HttpMessage F}

/-- Messages that differ in the maps only print the same if the headers do. -/
theorem SameButMaps.buildString_iff (h : SameButMaps w m w' m') :
    m.buildString w = m'.buildString w' ↔
      lines (w.parsers m.parser).headers.entries =
        lines (w'.parsers m'.parser).headers.entries := by
  obtain ⟨hbody, -, -⟩ := withoutMaps_congr h.rest
  unfold HttpMessage.buildString ParserObject.builtLines
  rw [h.own, hbody]
  simp only [List.append_assoc, List.append_cancel_left_eq, List.append_cancel_right_eq]
  rfl

/-- Two messages that are the same but for the maps are printed alike if and
only if the lines of their headers are alike. -/
theorem SameButMaps.toString_iff (h : SameButMaps w m w' m') :
    m.toString w = m'.toString w' ↔
      lines (w.parsers m.parser).headers.entries =
        lines (w'.parsers m'.parser).headers.entries := by
  obtain ⟨hbody, hparser, hurl⟩ := withoutMaps_congr h.rest
  unfold HttpMessage.toString ParserObject.parsedLines
  rw [hparser, hurl, hbody]
  simp only [List.append_assoc, List.append_cancel_left_eq, List.append_cancel_right_eq]
  rfl

/-- **When reading a message changes nothing.**  `buildString` and `toString` are
the same without the getters if every header that a getter may insert is set
later, first of all in the spelling of the getter.  Where the names that are read
and set have no NUL in them, there is no other case. -/
theorem getters_harmless_iff (w : Heap) (m : HttpMessage F) (calls : List (Call F)) :
    (ReadsCovered (w.parsers m.parser).headers (headerCalls calls) →
      (m.run w calls).2.buildString (m.run w calls).1 =
          (m.run w (setters calls)).2.buildString (m.run w (setters calls)).1 ∧
        (m.run w calls).2.toString (m.run w calls).1 =
          (m.run w (setters calls)).2.toString (m.run w (setters calls)).1) ∧
    ((∀ c ∈ headerCalls calls, 0 ∉ c.key) →
      ((m.run w calls).2.buildString (m.run w calls).1 =
          (m.run w (setters calls)).2.buildString (m.run w (setters calls)).1 ∨
        (m.run w calls).2.toString (m.run w calls).1 =
          (m.run w (setters calls)).2.toString (m.run w (setters calls)).1) →
      ReadsCovered (w.parsers m.parser).headers (headerCalls calls)) := by
  have hsame := sameButMaps_run (w := w) (m := m) ⟨rfl, rfl⟩ calls
  rw [hsame.buildString_iff, hsame.toString_iff, headers_run, headers_run, headerCalls_setters,
    ← headers_eq_iff]
  constructor
  · intro hheaders
    rw [hheaders]
    exact ⟨rfl, rfl⟩
  · intro hnul hlines
    have hextra := Extra.foldl (Extra.refl (w.parsers m.parser).headers.entries) hnul
    have hentries := hextra.eq_of_lines (hlines.elim id id)
    exact OrderedMap.ext_find fun x => by rw [OrderedMap.find, hentries, OrderedMap.find]

end Runs

/-- A request whose header `Host` is read before it is set. -/
theorem getters_harmless_host :
    let new := HttpRequest.new ⟨fun _ => .new true, 0⟩ .HTTP_1_1 .HTTP_GET
    let calls := [.get (.getHeader (text "Host")), .set (.setHeader (text "Host") (text "a"))]
    (new.2.run new.1 calls).2.buildString (new.2.run new.1 calls).1 =
      (new.2.run new.1 (setters calls)).2.buildString (new.2.run new.1 (setters calls)).1 := by
  refine ((getters_harmless_iff _ _ _).1 fun x key _ hfirst => ?_).1
  change firstCall [.read (text "Host"), .write (text "Host") (text "a")] x = _ at hfirst
  change firstWrite [.read (text "Host"), .write (text "Host") (text "a")] x = _
  unfold firstCall at hfirst
  unfold firstWrite firstCall
  by_cases hx : stricmpOrder (text "Host") = x
  · simp [HeaderCall.key, HeaderCall.isWrite, hx] at hfirst ⊢
    exact hfirst
  · simp [HeaderCall.key, hx] at hfirst

/-- Not every getter is harmless: a header that is only read, and was not there, is
printed from then on, with an empty value. -/
theorem getHeader_inserts :
    ¬ ∀ (w : Heap) (r : HttpRequest) (calls : List (Call RequestFields)),
      (r.run w calls).2.buildString (r.run w calls).1 =
        (r.run w (setters calls)).2.buildString (r.run w (setters calls)).1 := by
  intro h
  have hnew := h (HttpRequest.new ⟨fun _ => .new true, 0⟩ .HTTP_1_1 .HTTP_GET).1
    (HttpRequest.new ⟨fun _ => .new true, 0⟩ .HTTP_1_1 .HTTP_GET).2
    [.get (.getHeader (text "Host"))]
  have hbuilt : text "GET  HTTP/1.1\r\nHost: \r\n\r\n" = text "GET  HTTP/1.1\r\n\r\n" := hnew
  exact absurd hbuilt (by decide)

end Http
end Net
end Sevent
