/-
# `PipelineHandler`: the links of a pipeline and the two walks along them

`TcpPipeline::addLast`, `TcpPipeline::invoke` and `PipelineHandler::write` in
`sevent/net/TcpPipeline.cpp`.

Each handler has a link to the one before it and a link to the one behind it.
`addLast` sets both links between the last handler and a new one.  `invoke` walks
from a handler along `next`, `write` from a handler along `prev`; both are a
`do`-`while` loop that moves on before it tests what the call returned.

`addLast` asks for the last handler before it knows whether there is one.  On an
empty `std::list` that is undefined: `emptyBack` is what the read gives, and with
libstdc++ it is the null that is stored there.  `addLast_iff` says that only the
empty sequence of calls avoids the question, and that otherwise, when the answer is
null and the handlers had no links at the two ends, links and walks are right.
-/

import Sevent.Net.Buffer
import Sevent.Lib.Run
import Mathlib.Data.List.Induction
import Mathlib.Data.List.Nodup
import Mathlib.Logic.Function.Basic

namespace Sevent
namespace Net
namespace PipelineHandler

open Transition

variable {H : Type*} {σ Msg Other : Type}

/-! ### Links -/

/-- The handlers of a pipeline, and the links of all handlers there are. -/
structure Pipeline (H : Type*) where
  handlers : List H
  prev : H → Option H
  next : H → Option H

/-- `TcpPipeline::addLast`; a null is left out, with a warning. -/
def addLast [DecidableEq H] (emptyBack : Option H) (p : Pipeline H) : Option H → Pipeline H
  | none => p
  | some next =>
    match if p.handlers = [] then emptyBack else p.handlers.getLast? with
    | some prev =>
      { handlers := p.handlers ++ [next]
        prev := Function.update p.prev next (some prev)
        next := Function.update p.next prev (some next) }
    | none => { p with handlers := p.handlers ++ [next] }

/-- The links of `l` are those of a list, between what is before it and what is behind. -/
def Chain (prev next : H → Option H) : Option H → List H → Option H → Prop
  | _, [], _ => True
  | before, h :: rest, behind =>
    prev h = before ∧ next h = rest.head?.or behind ∧ Chain prev next (some h) rest behind

/-! ### The walks -/

/-- The loop of `invoke` and `write`, along `link`: the calls with the message each has seen,
what the last has left, and what it returned.  `none` when `fuel` does not suffice. -/
def walk (link : H → Option H) (func : σ → H → Msg → σ × Msg × Bool) :
    ℕ → σ → H → Msg → Option (List (H × Msg) × σ × Msg × Bool)
  | 0, _, _, _ => none
  | fuel + 1, s, handler, msg =>
    let (s', msg', isNext) := func s handler msg
    match link handler with
    | some handler' =>
      if isNext then
        (walk link func fuel s' handler' msg').map fun r => ((handler, msg) :: r.1, r.2)
      else some ([(handler, msg)], s', msg', isNext)
    | none => some ([(handler, msg)], s', msg', isNext)

/-- `TcpPipeline::invoke` from a handler on. -/
def invoke (p : Pipeline H) (func : σ → H → Msg → σ × Msg × Bool) (fuel : ℕ) (s : σ) (handler : H)
    (msg : Msg) : Option (List (H × Msg) × σ × Msg × Bool) :=
  walk p.next func fuel s handler msg

/-- A `std::any`: empty, one of the five types that can be sent, or another. -/
inductive AnyMsg (Other : Type)
  | empty
  | string (s : List UInt8)
  | stringPtr (s : List UInt8)
  | bufferPtr (b : Buffer)
  | buffer (b : Buffer)
  | constChar (s : List UInt8)
  | other (x : Other)

/-- The overloads of `TcpConnection::send`. -/
inductive Send
  | string (s : List UInt8)
  | buffer (b : Buffer)
  | data (s : List UInt8) (size : ℕ)

/-- The `send` of a message and its size. -/
def send : AnyMsg Other × ℕ → Option Send
  | (.string s, _) => some (.string s)
  | (.stringPtr s, _) => some (.string s)
  | (.bufferPtr b, _) => some (.buffer b)
  | (.buffer b, _) => some (.buffer b)
  | (.constChar s, size) => some (.data s size)
  | (.empty, _) => none
  | (.other _, _) => none

/-- `PipelineHandler::write`: the calls of `handleWrite`, which may change the message and its
size, and of `conn->send`. -/
def write (p : Pipeline H)
    (handleWrite : σ → H → AnyMsg Other × ℕ → σ × (AnyMsg Other × ℕ) × Bool)
    (fuel : ℕ) (s : σ) (handler : H) (msg : AnyMsg Other × ℕ) :
    Option (List (H × (AnyMsg Other × ℕ)) × List Send) :=
  (walk p.prev handleWrite fuel s handler msg).map fun r =>
    (r.1, if r.2.2.2 then (send r.2.2.1).toList else [])

/-! ### What the walks should do -/

/-- Handlers called in order, up to and including the first that returns false, each with the
message its predecessor has left. -/
def pass (func : σ → H → Msg → σ × Msg × Bool) : σ → Msg → List H → List (H × Msg)
  | _, _, [] => []
  | s, msg, h :: rest =>
    (h, msg) ::
      if (func s h msg).2.2 then pass func (func s h msg).1 (func s h msg).2.1 rest else []

/-- All of the handlers return true, and leave the message `msg'`. -/
def AllPass (func : σ → H → Msg → σ × Msg × Bool) : σ → Msg → List H → Msg → Prop
  | _, msg, [], msg' => msg = msg'
  | s, msg, h :: rest, msg' =>
    (func s h msg).2.2 = true ∧ AllPass func (func s h msg).1 (func s h msg).2.1 rest msg'

/-- A message of one of the five types that can be sent. -/
def Sendable : AnyMsg Other → Prop
  | .string _ | .stringPtr _ | .bufferPtr _ | .buffer _ | .constChar _ => True
  | .empty | .other _ => False

/-- The walks of a pipeline are those along the list of its handlers. -/
structure Walks (p : Pipeline H) : Prop where
  invoke : ∀ (σ Msg : Type) (func : σ → H → Msg → σ × Msg × Bool) (front back : List H) (h : H),
    p.handlers = front ++ h :: back → ∀ fuel, back.length < fuel → ∀ s msg,
      ∃ r, invoke p func fuel s h msg = some (pass func s msg (h :: back), r)
  write : ∀ (σ Other : Type) (handleWrite : σ → H → AnyMsg Other × ℕ →
      σ × (AnyMsg Other × ℕ) × Bool) (front back : List H) (h : H),
    p.handlers = front ++ h :: back → ∀ fuel, front.length < fuel → ∀ s msg,
      ∃ sends, write p handleWrite fuel s h msg =
          some (pass handleWrite s msg (h :: front.reverse), sends) ∧
        sends.length ≤ 1 ∧ (sends.length = 1 ↔
          ∃ msg', AllPass handleWrite s msg (h :: front.reverse) msg' ∧ Sendable msg'.1)

/-! ### A walk along a list -/

/-- `link` leads from each handler of the list to the next, and from the last to none. -/
def Follows (link : H → Option H) : List H → Prop
  | [] => True
  | h :: rest => link h = rest.head? ∧ Follows link rest

variable {link : H → Option H} {func : σ → H → Msg → σ × Msg × Bool}

variable (func) in
/-- **The loop along a list**, by induction on what is behind the handler: it ends, it makes
the calls of `pass`, and it returns true exactly when all calls have. -/
theorem walk_eq_pass {h : H} {rest : List H} (hlink : Follows link (h :: rest)) {fuel : ℕ}
    (hfuel : rest.length < fuel) (s : σ) (msg : Msg) :
    ∃ s' msg' isNext,
      walk link func fuel s h msg = some (pass func s msg (h :: rest), s', msg', isNext) ∧
        ∀ m, AllPass func s msg (h :: rest) m ↔ isNext = true ∧ msg' = m := by
  induction rest generalizing h fuel s msg with
  | nil =>
    obtain ⟨fuel, rfl⟩ := Nat.exists_eq_add_one.2 hfuel
    have hnone : link h = none := hlink.1
    refine ⟨(func s h msg).1, (func s h msg).2.1, (func s h msg).2.2, ?_, fun m => Iff.rfl⟩
    simp only [walk, hnone, pass, ite_self]
  | cons h' rest ih =>
    obtain ⟨fuel, rfl⟩ := Nat.exists_eq_add_one.2 (Nat.zero_lt_of_lt hfuel)
    have hsome : link h = some h' := hlink.1
    cases hnext : (func s h msg).2.2 with
    | false =>
      refine ⟨(func s h msg).1, (func s h msg).2.1, false, ?_, fun m => ?_⟩
      · simp only [walk, hsome, pass, hnext, Bool.false_eq_true, if_false]
      · simp only [AllPass, hnext, Bool.false_eq_true, false_and]
    | true =>
      have hlt : rest.length < fuel := by
        rw [List.length_cons] at hfuel
        omega
      obtain ⟨s', msg', isNext, hwalk, hall⟩ := ih hlink.2 hlt (func s h msg).1 (func s h msg).2.1
      refine ⟨s', msg', isNext, ?_, fun m => ?_⟩
      · rw [pass]
        simp only [walk, hsome, hnext, if_true, hwalk, Option.map_some]
      · rw [AllPass, hnext, and_iff_right rfl]
        exact hall m

/-! ### The links as lists -/

variable {prev next : H → Option H}

/-- The links along a list. -/
theorem Chain.follows {before : Option H} {l : List H} (hc : Chain prev next before l none) :
    Follows next l := by
  induction l generalizing before with
  | nil => trivial
  | cons h rest ih => exact ⟨by rw [hc.2.1, Option.or_none], ih hc.2.2⟩

/-- The links of the rest of a list. -/
theorem Chain.right {before behind : Option H} {front back : List H} {h : H}
    (hc : Chain prev next before (front ++ h :: back) behind) :
    ∃ before', Chain prev next before' (h :: back) behind := by
  induction front generalizing before with
  | nil => exact ⟨before, hc⟩
  | cons x front ih => exact ih hc.2.2

/-- The two ends of the links of a list are determined. -/
theorem Chain.ends {before before' behind behind' : Option H} {l : List H} (hl : l ≠ [])
    (h : Chain prev next before l behind) (h' : Chain prev next before' l behind') :
    before = before' ∧ behind = behind' := by
  induction l generalizing before before' with
  | nil => exact absurd rfl hl
  | cons x rest ih =>
    refine ⟨h.1.symm.trans h'.1, ?_⟩
    cases rest with
    | nil => exact h.2.1.symm.trans h'.2.1
    | cons y rest => exact (ih (List.cons_ne_nil y rest) h.2.2 h'.2.2).2

/-- Before a handler, the links lead back along what has been seen, by induction on what
is in front. -/
theorem Chain.follows_prev {before behind : Option H} {front back seen : List H} {h : H}
    (hc : Chain prev next before (front ++ h :: back) behind) (hseen : Follows prev seen)
    (hbefore : before = seen.head?) : Follows prev (h :: (front.reverse ++ seen)) := by
  induction front generalizing before seen with
  | nil => exact ⟨hc.1.trans hbefore, hseen⟩
  | cons x front ih =>
    have hx : Follows prev (x :: seen) := ⟨hc.1.trans hbefore, hseen⟩
    have hrest := ih hc.2.2 hx rfl
    rwa [List.reverse_cons, List.append_assoc]

theorem isSome_send_iff (msg : AnyMsg Other × ℕ) : (send msg).isSome ↔ Sendable msg.1 := by
  obtain ⟨m, size⟩ := msg
  cases m <;> simp [send, Sendable]

/-- **The walks of a pipeline** whose links are those of its list. -/
theorem walks_of_chain {p : Pipeline H} (hc : Chain p.prev p.next none p.handlers none) :
    Walks p where
  invoke := fun σ Msg func front back h heq fuel hfuel s msg => by
    rw [heq] at hc
    obtain ⟨before, hright⟩ := hc.right
    obtain ⟨s', msg', isNext, hwalk, -⟩ := walk_eq_pass func hright.follows hfuel s msg
    exact ⟨_, hwalk⟩
  write := fun σ Other handleWrite front back h heq fuel hfuel s msg => by
    rw [heq] at hc
    have hnil : Follows p.prev [] := trivial
    have hback := hc.follows_prev hnil rfl
    rw [List.append_nil] at hback
    obtain ⟨s', msg', isNext, hwalk, hall⟩ := walk_eq_pass handleWrite hback
      (by rwa [List.length_reverse]) s msg
    refine ⟨_, by rw [PipelineHandler.write, hwalk]; rfl, ?_, ?_⟩
    · dsimp only
      split
      · cases send msg' <;> simp
      · simp
    · simp only [hall]
      have hsend := isSome_send_iff msg'
      cases isNext <;> cases hm : send msg' <;> simp_all

/-! ### `addLast` -/

variable [DecidableEq H]

/-- **One more handler**, by induction on the list before its last: the links at its end
are set, and no other. -/
theorem Chain.snoc {before behind : Option H} {l : List H} {y x : H}
    (hc : Chain prev next before (l ++ [y]) behind) (hnodup : (l ++ [y]).Nodup)
    (hx : x ∉ l ++ [y]) :
    Chain (Function.update prev x (some y)) (Function.update next y (some x)) before
      (l ++ [y] ++ [x]) (next x) := by
  induction l generalizing before with
  | nil =>
    have hne : y ≠ x := fun h => hx (h ▸ List.mem_cons_self)
    refine ⟨?_, ?_, ?_, ?_, trivial⟩
    · rw [Function.update_of_ne hne]
      exact hc.1
    · exact Function.update_self ..
    · exact Function.update_self ..
    · exact Function.update_of_ne hne.symm ..
  | cons h l ih =>
    have hne : h ≠ x := fun heq => hx (heq ▸ List.mem_cons_self)
    rw [List.cons_append, List.nodup_cons] at hnodup
    have hy : h ≠ y := fun heq => hnodup.1 (heq ▸ List.mem_append_right _ List.mem_cons_self)
    have hrest := ih hc.2.2 hnodup.2 fun hmem => hx (List.mem_cons_of_mem _ hmem)
    refine ⟨?_, ?_, hrest⟩
    · rw [Function.update_of_ne hne]
      exact hc.1
    · rw [Function.update_of_ne hy, hc.2.1]
      cases l <;> rfl

/-- The pipeline after a sequence of calls. -/
def addAll (emptyBack : Option H) (p : Pipeline H) (hs : List H) : Pipeline H :=
  hs.foldl (fun p h => addLast emptyBack p (some h)) p

/-- **The links after a sequence of calls** on an empty pipeline, when asking it for its last
element gives null: the two ends are what they were. -/
theorem addAll_spec {p : Pipeline H} (hempty : p.handlers = []) {hs : List H}
    (hnodup : hs.Nodup) :
    (addAll none p hs).handlers = hs ∧
      Chain (addAll none p hs).prev (addAll none p hs).next (hs.head?.bind p.prev) hs
        (hs.getLast?.bind p.next) ∧
      ∀ h ∉ hs, (addAll none p hs).prev h = p.prev h ∧ (addAll none p hs).next h = p.next h := by
  induction hs using List.reverseRecOn with
  | nil => exact ⟨hempty, trivial, fun _ _ => ⟨rfl, rfl⟩⟩
  | append_singleton l x ih =>
    have hl : l.Nodup := hnodup.sublist (List.sublist_append_left l [x])
    have hx : x ∉ l := fun hmem =>
      (List.nodup_append.1 hnodup).2.2 x hmem x List.mem_cons_self rfl
    obtain ⟨hhandlers, hchain, hframe⟩ := ih hl
    have hstep : addAll none p (l ++ [x]) = addLast none (addAll none p l) (some x) := by
      rw [addAll, List.foldl_append]
      rfl
    cases l using List.reverseRecOn with
    | nil =>
      have hone : addAll none p ([] ++ [x]) = { p with handlers := [x] } := by
        rw [hstep, addLast, hhandlers]
        rfl
      rw [hone]
      exact ⟨rfl, ⟨rfl, rfl, trivial⟩, fun _ _ => ⟨rfl, rfl⟩⟩
    | append_singleton l y =>
      have hlast : (l ++ [y]).getLast? = some y := List.getLast?_concat
      have hne : l ++ [y] ≠ [] := List.append_ne_nil_of_right_ne_nil l (List.cons_ne_nil y [])
      have hnext : addAll none p (l ++ [y] ++ [x]) =
          { handlers := l ++ [y] ++ [x]
            prev := Function.update (addAll none p (l ++ [y])).prev x (some y)
            next := Function.update (addAll none p (l ++ [y])).next y (some x) } := by
        rw [hstep]
        simp only [addLast, hhandlers, if_neg hne, hlast]
      rw [hnext]
      refine ⟨rfl, ?_, fun h hh => ?_⟩
      · have hsnoc := hchain.snoc hl hx
        rw [(hframe x hx).2] at hsnoc
        convert hsnoc using 1
        · cases l <;> rfl
        · rw [List.getLast?_concat]
          rfl
      · have hhy : h ≠ y := fun heq => hh (heq ▸ by simp)
        have hhx : h ≠ x := fun heq => hh (heq ▸ by simp)
        have hold := hframe h fun hmem => hh (List.mem_append_left _ hmem)
        exact ⟨(Function.update_of_ne hhx ..).trans hold.1,
          (Function.update_of_ne hhy ..).trans hold.2⟩

/-- **Every sequence of `addLast` calls** with distinct handlers on an empty pipeline.  None of
them asks the empty list for its last element, the links are those of the list and the walks
follow them, if and only if there is no call.  If that question is answered with null, the
handlers are those that were added, in order; the links are those of the list exactly when the
first handler had none before it and the last none behind it; and then the walks follow them. -/
theorem addLast_iff (emptyBack : Option H) {p : Pipeline H} (hempty : p.handlers = [])
    {hs : List H} (hnodup : hs.Nodup) :
    ((Steps (fun p h => some (addLast emptyBack p (some h))) (fun p _ => p.handlers ≠ []) p hs ∧
        Chain (addAll emptyBack p hs).prev (addAll emptyBack p hs).next none hs none ∧
        Walks (addAll emptyBack p hs)) ↔ hs = []) ∧
      (emptyBack = none → (addAll emptyBack p hs).handlers = hs ∧
        (Chain (addAll emptyBack p hs).prev (addAll emptyBack p hs).next none hs none ↔
          hs.head?.bind p.prev = none ∧ hs.getLast?.bind p.next = none) ∧
        (Chain (addAll emptyBack p hs).prev (addAll emptyBack p hs).next none hs none →
          Walks (addAll emptyBack p hs))) := by
  constructor
  · constructor
    · rintro ⟨hsteps, -⟩
      cases hs with
      | nil => rfl
      | cons h hs => exact absurd hempty hsteps.1
    · rintro rfl
      refine ⟨trivial, trivial, walks_of_chain ?_⟩
      rw [show (addAll emptyBack p []).handlers = [] from hempty]
      trivial
  · rintro rfl
    obtain ⟨hhandlers, hchain, -⟩ := addAll_spec hempty hnodup
    refine ⟨hhandlers, ⟨fun h => ?_, fun ⟨hfirst, hlast⟩ => ?_⟩, fun h => ?_⟩
    · cases hs with
      | nil => exact ⟨rfl, rfl⟩
      | cons x rest =>
        obtain ⟨hfirst, hlast⟩ := h.ends (List.cons_ne_nil x rest) hchain
        exact ⟨hfirst.symm, hlast.symm⟩
    · rwa [hfirst, hlast] at hchain
    · exact walks_of_chain (hhandlers.symm ▸ h)

/-- Two handlers. -/
theorem addLast_two :
    Walks (addAll none { handlers := [], prev := fun _ => none, next := fun _ => none } [1, 2]) :=
  ((addLast_iff none rfl (by decide)).2 rfl).2.2
    (((addLast_iff none rfl (by decide)).2 rfl).2.1.2 ⟨rfl, rfl⟩)

/-- The first call asks the empty list for its last element, which `std::list::back`
does not define. -/
theorem addLast_asks_empty :
    ¬ Steps (fun p h => some (addLast none p (some h))) (fun p _ => p.handlers ≠ [])
      { handlers := [], prev := fun _ => none, next := fun _ => none } [1] :=
  fun h => h.1 rfl

end PipelineHandler
end Net
end Sevent
