/-
# The parameters of a query

`HttpParser::parseQueryParam` and `HttpParser::getParam` in
`sevent/net/http/HttpParser.cpp`.

`parseQueryParam` moves one cursor through the string: to the next `=`, which
ends a key, and then to the next `&`, which ends a value.  The loop is left where
one of the two is not found, and where the string ends with an `=`; the empty
value behind it is not stored, and `getParam` returns the same for it as for a
parameter that was never there.

`parseLoop` is that loop, with a bound on its rounds; `parseLoop_eq` says that a
bound above the length of the string is never reached, and that the loop stores
the pairs of `queryPairs`.
-/

import Sevent.Net.Http.HttpParser
import Mathlib.Data.List.TakeWhile
import Mathlib.Data.List.Nodup

namespace Sevent
namespace Net
namespace Http

/-- `str.find(c, pos)`, `none` for `npos`. -/
def find (str : Bytes) (c : UInt8) (pos : ℕ) : Option ℕ :=
  let found := pos + ((str.drop pos).takeWhile (· != c)).length
  if found < str.length then some found else none

/-- `str.substr(begin, end - begin)`, where `end` may be `npos`. -/
def substr (str : Bytes) (first : ℕ) : Option ℕ → Bytes
  | none => str.drop first
  | some last => (str.drop first).take (last - first)

namespace HttpParser

/-- A round of the loop of `parseQueryParam`: `params`, and the cursor of the
next round, `none` after a `break`. -/
def parseRound (str : Bytes) (params : Map) (pos : ℕ) : Map × Option ℕ :=
  match find str '='.toUInt8 pos with
  | none => (params, none)
  | some equals =>
    let key := substr str pos (some equals)
    if str.length ≤ equals + 1 then (params, none)
    else
      let amp := find str '&'.toUInt8 (equals + 1)
      let value := substr str (equals + 1) amp
      (if 0 < key.length then params.set stricmpKey key value else params, amp.map (· + 1))

/-- The loop of `parseQueryParam`, with a bound on its rounds; `none` where it
takes more. -/
def parseLoop (str : Bytes) : ℕ → Map → ℕ → Option Map
  | 0, _, _ => none
  | fuel + 1, params, pos =>
    match parseRound str params pos with
    | (params, none) => some params
    | (params, some pos) => parseLoop str fuel params pos

/-- `getParam`: the value, and the parser with the parameter that `params[key]`
inserts when it is not there. -/
def getParam (p : HttpParser) (key : Bytes) : Bytes × HttpParser :=
  (p.params.lookup stricmpKey [] key, { p with params := p.params.touch stricmpKey [] key })

end HttpParser

/-! ### The loop -/

variable {str : Bytes} {c : UInt8} {pos n : ℕ}

/-- What a search skips. -/
theorem takeWhile_drop (str : Bytes) (c : UInt8) (pos : ℕ) :
    (str.drop pos).takeWhile (· != c) = substr str pos (find str c pos) := by
  have htake := List.prefix_iff_eq_take.1 (List.takeWhile_prefix (· != c) (l := str.drop pos))
  unfold find
  dsimp only
  split
  case isTrue hlt =>
    rw [substr, Nat.add_sub_cancel_left]
    exact htake
  case isFalse hge =>
    refine htake.trans (List.take_of_length_le ?_)
    rw [List.length_drop]
    omega

/-- Where a search ends. -/
theorem dropWhile_drop (str : Bytes) (c : UInt8) (pos : ℕ) :
    (str.drop pos).dropWhile (· != c) = ((find str c pos).map str.drop).getD [] := by
  have hdrop : (str.drop pos).dropWhile (· != c) =
      str.drop (pos + ((str.drop pos).takeWhile (· != c)).length) := by
    rw [← List.drop_drop]
    exact (List.drop_left' rfl).symm.trans
      (congrArg (List.drop _) List.takeWhile_append_dropWhile)
  rw [hdrop]
  unfold find
  dsimp only
  split
  case isTrue hlt => rfl
  case isFalse hge => exact List.drop_eq_nil_of_le (by omega)

theorem find_lt (h : find str c pos = some n) : pos ≤ n ∧ n < str.length := by
  unfold find at h
  dsimp only at h
  split at h
  case isTrue hlt =>
    obtain rfl := Option.some.inj h
    exact ⟨Nat.le_add_right _ _, hlt⟩
  case isFalse => cases h

namespace HttpParser

/-- The pairs from a cursor on, by the searches of the loop. -/
theorem queryPairs_drop (str : Bytes) (pos : ℕ) : queryPairs (str.drop pos) =
    match find str '='.toUInt8 pos with
    | none => []
    | some equals =>
      if str.length ≤ equals + 1 then []
      else
        let key := substr str pos (some equals)
        let amp := find str '&'.toUInt8 (equals + 1)
        (if 0 < key.length then [(key, substr str (equals + 1) amp)] else []) ++
          (amp.map fun amp => queryPairs (str.drop (amp + 1))).getD [] := by
  have hequals := dropWhile_drop str '='.toUInt8 pos
  rw [queryPairs]
  cases he : find str '='.toUInt8 pos with
  | none =>
    rw [he] at hequals
    split
    case h_1 => rfl
    case h_2 => rfl
    case h_3 rest hne heq =>
      rw [hequals] at heq
      cases heq
  | some equals =>
    have hlt := (find_lt he).2
    rw [he, Option.map_some, Option.getD_some, List.drop_eq_getElem_cons hlt] at hequals
    dsimp only
    split
    case h_1 heq =>
      rw [hequals] at heq
      cases heq
    case h_2 heq =>
      rw [hequals] at heq
      have hend : str.drop (equals + 1) = [] := (List.cons.inj heq).2
      rw [if_pos (List.drop_eq_nil_iff.1 hend)]
    case h_3 rest hne heq =>
      have hrest : str.drop (equals + 1) = rest := by
        rw [hequals] at heq
        exact (List.cons.inj heq).2
      have hmore : ¬ str.length ≤ equals + 1 := by
        intro hle
        exact hne (hrest.symm.trans (List.drop_eq_nil_of_le hle))
      have hkey := takeWhile_drop str '='.toUInt8 pos
      have hvalue := takeWhile_drop str '&'.toUInt8 (equals + 1)
      have hamp := dropWhile_drop str '&'.toUInt8 (equals + 1)
      rw [he] at hkey
      rw [hrest] at hvalue hamp
      simp only [if_neg hmore, hkey, hvalue, List.length_pos_iff, ite_not]
      cases ha : find str '&'.toUInt8 (equals + 1) with
      | none =>
        rw [ha] at hamp
        split
        case h_1 => rw [Option.map_none, Option.getD_none, List.append_nil]
        case h_2 heq =>
          rw [hamp] at heq
          cases heq
      | some amp =>
        rw [ha, Option.map_some, Option.getD_some,
          List.drop_eq_getElem_cons (find_lt ha).2] at hamp
        split
        case h_1 heq =>
          rw [hamp] at heq
          cases heq
        case h_2 next heq =>
          rw [hamp] at heq
          rw [← (List.cons.inj heq).2, Option.map_some, Option.getD_some]

/-- One round, and the pairs that are left for the next ones. -/
theorem parseRound_spec (str : Bytes) (params : Map) (pos : ℕ) :
    params.setAll stricmpKey (queryPairs (str.drop pos)) =
      (parseRound str params pos).1.setAll stricmpKey
        (((parseRound str params pos).2.map fun pos => queryPairs (str.drop pos)).getD []) := by
  rw [queryPairs_drop]
  unfold parseRound
  cases find str '='.toUInt8 pos with
  | none => rfl
  | some equals =>
    dsimp only
    split
    case isTrue => rfl
    case isFalse =>
      rw [KeyMap.setAll_append, Option.map_map]
      split
      case isTrue => rfl
      case isFalse => rfl

/-- The cursor of the next round is further on. -/
theorem parseRound_lt {params : Map} (h : (parseRound str params pos).2 = some n) :
    pos < n ∧ n ≤ str.length := by
  unfold parseRound at h
  cases he : find str '='.toUInt8 pos with
  | none =>
    rw [he] at h
    cases h
  | some equals =>
    rw [he] at h
    dsimp only at h
    split at h
    case isTrue => cases h
    case isFalse =>
      obtain ⟨amp, hamp, rfl⟩ := Option.map_eq_some_iff.1 h
      have hequals := find_lt he
      have hlt := find_lt hamp
      omega

/-- **The loop stores the pairs from its cursor on**, and takes no more rounds
than there are bytes. -/
theorem parseLoop_eq (params : Map) {fuel : ℕ} (hpos : pos ≤ str.length)
    (hfuel : str.length < pos + fuel) :
    parseLoop str fuel params pos =
      some (params.setAll stricmpKey (queryPairs (str.drop pos))) := by
  induction fuel generalizing params pos with
  | zero => omega
  | succ fuel ih =>
    rw [parseRound_spec, parseLoop]
    split
    case h_1 params' h =>
      rw [h]
      rfl
    case h_2 params' next h =>
      rw [h]
      have hnext := parseRound_lt (congrArg Prod.snd h)
      exact ih params' hnext.2 (by omega)

/-! ### Reading back what was written -/

/-- A parameter as it stands in a query. -/
def pairText (kv : Bytes × Bytes) : Bytes := kv.1 ++ '='.toUInt8 :: kv.2

/-- The parameters, joined with `&`. -/
def joinPairs (pairs : List (Bytes × Bytes)) : Bytes :=
  List.intercalate ['&'.toUInt8] (pairs.map pairText)

/-- Keys that are not empty and have none of `=`, `&` and NUL, values that have no `&`, and
no two keys that differ in the case of letters only. -/
structure Encodable (pairs : List (Bytes × Bytes)) : Prop where
  key_ne : ∀ kv ∈ pairs, kv.1 ≠ []
  key_free : ∀ kv ∈ pairs, ∀ b ∈ kv.1, b ≠ '='.toUInt8 ∧ b ≠ '&'.toUInt8 ∧ b ≠ 0
  value_free : ∀ kv ∈ pairs, ∀ b ∈ kv.2, b ≠ '&'.toUInt8
  distinct : (pairs.map fun kv => kv.1.map tolower).Nodup

variable {k v rest : Bytes} {pairs : List (Bytes × Bytes)}

/-- The pairs of a string that begins with a key. -/
theorem queryPairs_key (hne : k ≠ []) (hk : ∀ b ∈ k, b ≠ '='.toUInt8) (hrest : rest ≠ []) :
    queryPairs (k ++ '='.toUInt8 :: rest) =
      (k, rest.takeWhile (· != '&'.toUInt8)) ::
        ((rest.dropWhile (· != '&'.toUInt8)).tail?.map queryPairs).getD [] := by
  have hkey : ∀ b ∈ k, (b != '='.toUInt8) = true := fun b hb => bne_iff_ne.2 (hk b hb)
  have hequals : (k ++ '='.toUInt8 :: rest).dropWhile (· != '='.toUInt8) =
      '='.toUInt8 :: rest := by
    rw [List.dropWhile_append_of_pos hkey]
    rfl
  have htake : (k ++ '='.toUInt8 :: rest).takeWhile (· != '='.toUInt8) = k := by
    rw [List.takeWhile_append_of_pos hkey]
    exact List.append_nil k
  rw [queryPairs]
  split
  case h_1 heq =>
    rw [hequals] at heq
    cases heq
  case h_2 heq =>
    rw [hequals] at heq
    exact absurd (List.cons.inj heq).2 hrest
  case h_3 heq =>
    rw [hequals] at heq
    obtain rfl := (List.cons.inj heq).2
    dsimp only
    rw [htake, if_neg hne]
    split
    case h_1 heq' =>
      rw [heq']
      rfl
    case h_2 heq' =>
      rw [heq']
      rfl

/-- The last parameter. -/
theorem queryPairs_last (hne : k ≠ []) (hk : ∀ b ∈ k, b ≠ '='.toUInt8)
    (hv : ∀ b ∈ v, b ≠ '&'.toUInt8) :
    queryPairs (pairText (k, v)) = if v = [] then [] else [(k, v)] := by
  have hvalue : ∀ b ∈ v, (b != '&'.toUInt8) = true := fun b hb => bne_iff_ne.2 (hv b hb)
  split
  case isTrue hnil =>
    have hkey : ∀ b ∈ k, (b != '='.toUInt8) = true := fun b hb => bne_iff_ne.2 (hk b hb)
    have hequals : (pairText (k, v)).dropWhile (· != '='.toUInt8) = ['='.toUInt8] := by
      rw [pairText, hnil, List.dropWhile_append_of_pos hkey]
      rfl
    rw [queryPairs]
    split
    case h_1 => rfl
    case h_2 => rfl
    case h_3 hrest heq =>
      rw [hequals] at heq
      exact absurd (List.cons.inj heq).2.symm hrest
  case isFalse hrest =>
    rw [pairText, queryPairs_key hne hk hrest, List.takeWhile_eq_self_iff.2 hvalue,
      List.dropWhile_eq_nil_iff.2 hvalue]
    rfl

/-- A parameter before others. -/
theorem queryPairs_next (hne : k ≠ []) (hk : ∀ b ∈ k, b ≠ '='.toUInt8)
    (hv : ∀ b ∈ v, b ≠ '&'.toUInt8) :
    queryPairs (pairText (k, v) ++ '&'.toUInt8 :: rest) = (k, v) :: queryPairs rest := by
  have hvalue : ∀ b ∈ v, (b != '&'.toUInt8) = true := fun b hb => bne_iff_ne.2 (hv b hb)
  have htake : (v ++ '&'.toUInt8 :: rest).takeWhile (· != '&'.toUInt8) = v := by
    rw [List.takeWhile_append_of_pos hvalue]
    exact List.append_nil v
  have hdrop : (v ++ '&'.toUInt8 :: rest).dropWhile (· != '&'.toUInt8) = '&'.toUInt8 :: rest := by
    rw [List.dropWhile_append_of_pos hvalue]
    rfl
  rw [pairText, List.append_assoc, List.cons_append, queryPairs_key hne hk (by simp), htake, hdrop]
  rfl

theorem Encodable.tail {kv : Bytes × Bytes} (h : Encodable (kv :: pairs)) : Encodable pairs where
  key_ne e he := h.key_ne e (List.mem_cons_of_mem _ he)
  key_free e he := h.key_free e (List.mem_cons_of_mem _ he)
  value_free e he := h.value_free e (List.mem_cons_of_mem _ he)
  distinct := (List.nodup_cons.1 h.distinct).2

/-- **All the pairs are stored but an empty value at the end.** -/
theorem queryPairs_join (h : Encodable pairs) :
    (queryPairs (joinPairs pairs)).Sublist pairs ∧
      ∀ kv ∈ pairs, kv ∈ queryPairs (joinPairs pairs) ∨ kv.2 = [] := by
  induction pairs with
  | nil =>
    have hnil : queryPairs (joinPairs []) = [] := by simp [joinPairs, queryPairs]
    rw [hnil]
    exact ⟨List.Sublist.refl _, fun kv hkv => by cases hkv⟩
  | cons kv pairs ih =>
    have hmem : kv ∈ kv :: pairs := List.mem_cons_self
    have hne := h.key_ne kv hmem
    have hk : ∀ b ∈ kv.1, b ≠ '='.toUInt8 := fun b hb => (h.key_free kv hmem b hb).1
    have hv := h.value_free kv hmem
    cases pairs with
    | nil =>
      have hlast : queryPairs (joinPairs [kv]) = if kv.2 = [] then [] else [kv] := by
        rw [joinPairs, List.map_singleton, List.intercalate_singleton]
        exact queryPairs_last hne hk hv
      rw [hlast]
      split
      case isTrue hnil =>
        refine ⟨List.nil_sublist _, fun e he => .inr ?_⟩
        rw [List.mem_singleton.1 he, hnil]
      case isFalse => exact ⟨List.Sublist.refl _, fun e he => .inl he⟩
    | cons kv' pairs =>
      have hnext : queryPairs (joinPairs (kv :: kv' :: pairs)) =
          kv :: queryPairs (joinPairs (kv' :: pairs)) := by
        rw [joinPairs, List.map_cons, List.map_cons, List.intercalate_cons_cons, List.append_assoc]
        exact queryPairs_next hne hk hv
      obtain ⟨hsub, hall⟩ := ih h.tail
      rw [hnext]
      refine ⟨hsub.cons_cons kv, fun e he => ?_⟩
      rcases List.mem_cons.1 he with rfl | he
      · exact .inl List.mem_cons_self
      · exact (hall e he).imp_left (List.mem_cons_of_mem _)

/-- The key under which a pair is stored. -/
theorem Encodable.stricmpKey_eq {kv : Bytes × Bytes} (h : Encodable pairs) (hkv : kv ∈ pairs) :
    stricmpKey kv.1 = kv.1.map tolower := by
  have hfree : ∀ b ∈ kv.1, (b != 0) = true := fun b hb => bne_iff_ne.2 (h.key_free kv hkv b hb).2.2
  rw [stricmpKey, List.takeWhile_eq_self_iff.2 hfree]

theorem Encodable.nodup (h : Encodable pairs) : (pairs.map fun kv => stricmpKey kv.1).Nodup := by
  rw [List.map_congr_left fun kv hkv => h.stricmpKey_eq hkv]
  exact h.distinct

/-- What is found under the key of a pair. -/
theorem lookup_join {kv : Bytes × Bytes} (h : Encodable pairs) (hkv : kv ∈ pairs) :
    (parseQueryParam KeyMap.empty (joinPairs pairs)).lookup stricmpKey [] kv.1 = kv.2 := by
  obtain ⟨hsub, hall⟩ := queryPairs_join h
  have hstored : ∀ e ∈ queryPairs (joinPairs pairs), stricmpKey e.1 = stricmpKey kv.1 → e = kv :=
    fun e he heq => List.inj_on_of_nodup_map h.nodup (hsub.subset he) hkv heq
  unfold parseQueryParam KeyMap.lookup
  by_cases hmem : kv ∈ queryPairs (joinPairs pairs)
  · rw [KeyMap.setAll_apply_of_mem (h.nodup.sublist (hsub.map _)) (fun _ _ => rfl) hmem]
    rfl
  · have hnone : ∀ e ∈ queryPairs (joinPairs pairs), stricmpKey e.1 ≠ stricmpKey kv.1 :=
      fun e he heq => hmem (hstored e he heq ▸ he)
    rw [KeyMap.setAll_apply_of_ne hnone]
    exact ((hall kv hkv).resolve_left hmem).symm

/-- Whatever is found under a key was written under it. -/
theorem exists_of_lookup_ne {key : Bytes} (h : Encodable pairs)
    (hne : (parseQueryParam KeyMap.empty (joinPairs pairs)).lookup stricmpKey [] key ≠ []) :
    ∃ kv ∈ pairs, stricmpKey kv.1 = stricmpKey key := by
  by_contra hnone
  refine hne ?_
  unfold parseQueryParam KeyMap.lookup
  rw [KeyMap.setAll_apply_of_ne fun e he heq =>
    hnone ⟨e, (queryPairs_join h).1.subset he, heq⟩]
  rfl

/-- The parser after calls of `getParam`. -/
def getParams (p : HttpParser) (keys : List Bytes) : HttpParser :=
  keys.foldl (fun p key => (p.getParam key).2) p

theorem getParam_getParams (p : HttpParser) (keys : List Bytes) (key : Bytes) :
    ((p.getParams keys).getParam key).1 = p.params.lookup stricmpKey [] key := by
  induction keys generalizing p with
  | nil => rfl
  | cons k keys ih =>
    refine (ih (p.getParam k).2).trans ?_
    exact KeyMap.lookup_touch p.params [] k key

/-- **A query decodes what was encoded, and every string is read to its end.**  The
keys and values of a joined list of encodable pairs are those that `getParam` finds,
and no others; and for any string at all the loop of `parseQueryParam` ends, whatever
its contents, with the parameters that the function returns. -/
theorem query_roundtrip :
    (∀ pairs ≠ [], Encodable pairs → ∃ params,
      parseLoop (joinPairs pairs) ((joinPairs pairs).length + 1) KeyMap.empty 0 = some params ∧
        ∀ (p : HttpParser) (earlier : List Bytes), p.params = params →
          (∀ kv ∈ pairs, ((p.getParams earlier).getParam kv.1).1 = kv.2) ∧
            ∀ key, ((p.getParams earlier).getParam key).1 ≠ [] →
              ∃ kv ∈ pairs, stricmpKey kv.1 = stricmpKey key) ∧
    ∀ str params fuel, str.length < fuel →
      parseLoop str fuel params 0 = some (parseQueryParam params str) := by
  have hloop : ∀ str params fuel, str.length < fuel →
      parseLoop str fuel params 0 = some (parseQueryParam params str) :=
        fun str params fuel hfuel =>
    parseLoop_eq params (Nat.zero_le _) (by omega)
  refine ⟨fun pairs _ henc => ⟨_, hloop _ _ _ (Nat.lt_succ_self _), fun p earlier hp => ?_⟩, hloop⟩
  constructor
  · intro kv hkv
    rw [getParam_getParams, hp]
    exact lookup_join henc hkv
  · intro key hne
    rw [getParam_getParams, hp] at hne
    exact exists_of_lookup_ne henc hne

/-- Two parameters, the second with an empty value. -/
theorem query_roundtrip_example : ∀ p : HttpParser,
    p.params = parseQueryParam KeyMap.empty (text "a=1=&B=") →
      (p.getParam (text "a")).1 = text "1=" ∧ (p.getParam (text "B")).1 = [] := by
  intro p hp
  obtain ⟨params, hparams, h⟩ := query_roundtrip.1 [(text "a", text "1="), (text "B", [])]
    (by decide +kernel)
    ⟨by decide +kernel, by decide +kernel, by decide +kernel, by decide +kernel⟩
  have hloop := query_roundtrip.2 (text "a=1=&B=") KeyMap.empty 8 (by decide +kernel)
  have heq : params = parseQueryParam KeyMap.empty (text "a=1=&B=") :=
    Option.some.inj (hparams.symm.trans hloop)
  have hread := (h p [] (hp.trans heq.symm)).1
  exact ⟨hread (text "a", text "1=") (by decide +kernel),
    hread (text "B", []) (by decide +kernel)⟩

end HttpParser
end Http
end Net
end Sevent
