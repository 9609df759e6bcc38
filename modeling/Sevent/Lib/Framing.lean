/-
# Frames in a stream

A stream comes in reads, and a read may end anywhere.  A `Reader` looks at the
front of what it has: there is a frame, or something that cannot become one, or
it has to wait.  It is one as long as it does not change its mind when more
comes.

`decode` takes frames as long as there are some.  How the stream is cut does not
show: after a read, `receive` has what `decode` makes of the stream so far
(`decode_append`).  Where every frame begins with what an encoding writes, the
encoded messages are decoded (`decode_encode`), and where it ends with it, the
messages decoded are the stream (`encode_decode`).
-/

import Mathlib.Data.List.Induction

namespace Framing

variable {α β : Type*}

/-- What is at the front of a stream. -/
inductive Front (α β : Type*)
  | wait
  | bad
  | frame (msg : β) (rest : List α)
  deriving DecidableEq

/-- A reader of frames, which decides with what it has. -/
structure Reader (α β : Type*) where
  next : List α → Front α β
  next_nil : next [] = .wait
  shorter : ∀ {a m r}, next a = .frame m r → r.length < a.length
  frame_append : ∀ {a m r} b, next a = .frame m r → next (a ++ b) = .frame m (r ++ b)
  bad_append : ∀ {a} b, next a = .bad → next (a ++ b) = .bad

/-- The messages so far, what has not been read, and whether that is bad. -/
@[ext]
structure Decoded (α β : Type*) where
  msgs : List β
  rest : List α
  bad : Bool

namespace Reader

variable (R : Reader α β)

/-- The frames at the front. -/
def decode (a : List α) : Decoded α β :=
  match _hnext : R.next a with
  | .wait => ⟨[], a, false⟩
  | .bad => ⟨[], a, true⟩
  | .frame m r =>
    let d := decode r
    ⟨m :: d.msgs, d.rest, d.bad⟩
termination_by a.length
decreasing_by exact R.shorter _hnext

/-- Some more of the stream. -/
def receive (s : Decoded α β) (read : List α) : Decoded α β :=
  let d := R.decode (s.rest ++ read)
  ⟨s.msgs ++ d.msgs, d.rest, s.bad || d.bad⟩

variable {R} {a b r : List α} {m : β}

theorem decode_wait (h : R.next a = .wait) : R.decode a = ⟨[], a, false⟩ := by
  unfold decode
  split <;> simp_all

theorem decode_bad (h : R.next a = .bad) : R.decode a = ⟨[], a, true⟩ := by
  unfold decode
  split <;> simp_all

theorem decode_frame (h : R.next a = .frame m r) :
    R.decode a = ⟨m :: (R.decode r).msgs, (R.decode r).rest, (R.decode r).bad⟩ := by
  rw [decode]
  split <;> simp_all

theorem decode_nil : R.decode [] = ⟨[], [], false⟩ := decode_wait R.next_nil

/-- **More of the stream** goes on where decoding has stopped. -/
theorem decode_append (a b : List α) : R.decode (a ++ b) = R.receive (R.decode a) b := by
  induction a using decode.induct R with
  | case1 a hnext =>
    rw [decode_wait hnext]
    rfl
  | case2 a hnext =>
    rw [decode_bad hnext]
    unfold receive
    rw [decode_bad (R.bad_append b hnext)]
    rfl
  | case3 a m r hnext ih =>
    rw [decode_frame hnext, decode_frame (R.frame_append b hnext), ih]
    rfl

/-- A stream that is not bad waits for more. -/
theorem next_rest (a : List α) (h : (R.decode a).bad = false) :
    R.next (R.decode a).rest = .wait := by
  induction a using decode.induct R with
  | case1 a hnext => rwa [decode_wait hnext]
  | case2 a hnext =>
    rw [decode_bad hnext] at h
    cases h
  | case3 a m r hnext ih =>
    rw [decode_frame hnext] at h ⊢
    exact ih h

/-- What follows does not make a bad stream a good one. -/
theorem bad_of_append (a b : List α) (h : (R.decode (a ++ b)).bad = false) :
    (R.decode a).bad = false := by
  rw [decode_append] at h
  exact (Bool.or_eq_false_iff.1 h).1

/-- What is left is the end of the stream. -/
theorem length_rest_le (a : List α) : (R.decode a).rest.length ≤ a.length := by
  induction a using decode.induct R with
  | case1 a hnext =>
    exact Nat.le_of_eq (congrArg (fun d => d.rest.length) (decode_wait hnext))
  | case2 a hnext =>
    exact Nat.le_of_eq (congrArg (fun d => d.rest.length) (decode_bad hnext))
  | case3 a m r hnext ih =>
    rw [decode_frame hnext]
    exact Nat.le_trans ih (Nat.le_of_lt (R.shorter hnext))

/-! ### Encodings -/

variable {enc : β → List α} {Valid : β → Prop}

/-- **Encoded messages are decoded**, and what follows them is decoded after. -/
theorem decode_encode (henc : ∀ m rest, Valid m → R.next (enc m ++ rest) = .frame m rest)
    {ms : List β} (hms : ∀ m ∈ ms, Valid m) (rest : List α) :
    R.decode (ms.flatMap enc ++ rest) =
      ⟨ms ++ (R.decode rest).msgs, (R.decode rest).rest, (R.decode rest).bad⟩ := by
  induction ms with
  | nil => rfl
  | cons m ms ih =>
    rw [List.flatMap_cons, List.append_assoc,
      decode_frame (henc m _ (hms m List.mem_cons_self)),
      ih fun m hm => hms m (List.mem_cons_of_mem _ hm)]
    rfl

/-- Whatever is said of every frame is so of every message. -/
theorem decode_forall {P : β → Prop} (h : ∀ {a m r}, R.next a = .frame m r → P m) (a : List α) :
    ∀ m ∈ (R.decode a).msgs, P m := by
  induction a using decode.induct R with
  | case1 a hnext =>
    rw [decode_wait hnext]
    exact fun _ hm => absurd hm List.not_mem_nil
  | case2 a hnext =>
    rw [decode_bad hnext]
    exact fun _ hm => absurd hm List.not_mem_nil
  | case3 a m r hnext ih =>
    rw [decode_frame hnext]
    exact List.forall_mem_cons.2 ⟨h hnext, ih⟩

/-- **What has been decoded is the stream.** -/
theorem encode_decode (henc : ∀ {a m r}, R.next a = .frame m r → a = enc m ++ r) (a : List α) :
    (R.decode a).msgs.flatMap enc ++ (R.decode a).rest = a := by
  induction a using decode.induct R with
  | case1 a hnext => rw [decode_wait hnext, List.flatMap_nil, List.nil_append]
  | case2 a hnext => rw [decode_bad hnext, List.flatMap_nil, List.nil_append]
  | case3 a m r hnext ih =>
    rw [decode_frame hnext, List.flatMap_cons, List.append_assoc, ih, ← henc hnext]

end Reader
end Framing
