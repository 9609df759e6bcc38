/-
# `LogFile`: one record into the stream

`sevent/base/LogAsynAppender.cpp`, `sevent/base/CommonUtil.cpp`.

`writeInternal` gives the record to `fwrite_unlocked`, which writes some prefix
of it, and gives what is left again until nothing is left or nothing is written.
Then it counts the record's bytes and, now and then, opens a new file.

The first retry is right: it starts where the first call stopped.  But the loop
counts only `remain` down and leaves `n` where it was, so that every retry
starts at that place.  A second retry that writes something writes the first
retry's bytes again, and the end of the record is lost (`write_exact_iff`).

`fwrite i` is how much the `i`-th call of a record writes at most, and a call
keeps the arguments and the result of it.  `fuel` bounds the turns of the loop.
-/

import Mathlib.Data.List.Basic
import Mathlib.Data.List.Infix
import Mathlib.Data.Nat.Notation
import Mathlib.Data.Int.Notation
import Mathlib.Algebra.Order.Ring.Nat

namespace Sevent
namespace Base

/-- `LogFile`: the bytes that went through its stream, `none` when no file could
be opened, and through the streams it has closed. -/
structure LogFile where
  rollSize : ℤ
  check : ℤ
  count : ℤ
  writtenBytes : ℤ
  lastRoll : ℤ
  today : ℤ
  fp : Option (List UInt8)
  closed : List (List UInt8)
  deriving DecidableEq, Repr

namespace LogFile

def daySecondUnit : ℤ := 24 * 3600

/-- A call `fwrite_unlocked(log + offset, 1, given, fp)` and its result. -/
structure Call where
  offset : ℕ
  given : ℕ
  written : ℕ
  deriving DecidableEq, Repr

/-- What the library and the clock answer while a record is written. -/
structure Env where
  fwrite : ℕ → ℕ
  now : ℤ
  rollNow : ℤ
  fopen : Bool

/-- Everything that was written, in order. -/
def contents (f : LogFile) : List UInt8 := f.closed.flatten ++ f.fp.getD []

namespace Call

/-- Which bytes of the record the call writes. -/
def positions (c : Call) : List ℕ := List.range' c.offset c.written

/-- The bytes that the call writes. -/
def bytes (log : List UInt8) (c : Call) : List UInt8 := (log.drop c.offset).take c.written

end Call

/-- `LogFile::rollFile`. -/
def rollFile (f : LogFile) (now : ℤ) (fopen : Bool) : LogFile :=
  let curday := now.tdiv daySecondUnit * daySecondUnit
  if now ≤ f.lastRoll then f
  else if fopen then
    { f with
      closed := f.closed ++ f.fp.toList
      writtenBytes := 0
      lastRoll := now
      today := curday
      fp := some [] }
  else f

/-- The loop of `writeInternal`, whose next call is the `call`-th: the calls it makes. -/
def writeLoop (n : ℕ) (fwrite : ℕ → ℕ) : ℕ → ℕ → ℕ → Option (List Call)
  | 0, _, _ => none
  | fuel + 1, call, remain =>
    if remain > 0 then
      let tmp := min (fwrite call) remain
      let c : Call := { offset := n, given := remain, written := tmp }
      if tmp = 0 then some [c]
      else (writeLoop n fwrite fuel (call + 1) (remain - tmp)).map (c :: ·)
    else some []

/-- The calls of `fwrite_unlocked` for a record of `len` bytes. -/
def writeCalls (len : ℕ) (fwrite : ℕ → ℕ) (fuel : ℕ) : Option (List Call) :=
  let n := min (fwrite 0) len
  (writeLoop n fwrite fuel 1 (len - n)).map ({ offset := 0, given := len, written := n } :: ·)

/-- `writeInternal` after the bytes are out. -/
def countBytes (f : LogFile) (len : ℕ) (env : Env) : LogFile :=
  let f := { f with writtenBytes := f.writtenBytes + len }
  if f.writtenBytes > f.rollSize then f.rollFile env.rollNow env.fopen
  else
    let f := { f with count := f.count + 1 }
    if f.count ≥ f.check then
      let f := { f with count := 0 }
      let curday := env.now.tdiv daySecondUnit * daySecondUnit
      if f.today ≠ curday then f.rollFile env.rollNow env.fopen else f
    else f

/-- `LogFile::writeInternal`, with the calls that it makes: `none` when it has no
stream, or is still in the loop after `fuel` turns. -/
def writeInternal (f : LogFile) (log : List UInt8) (env : Env) (fuel : ℕ) :
    Option (LogFile × List Call) :=
  match f.fp with
  | none => none
  | some stream =>
    (writeCalls log.length env.fwrite fuel).map fun calls =>
      let f := { f with fp := some (stream ++ calls.flatMap (Call.bytes log)) }
      (f.countBytes log.length env, calls)

/-- What writing a record has to do: to put out a prefix of it, each byte once,
and all of it unless a call wrote nothing. -/
def WritesExactly (f f' : LogFile) (log : List UInt8) (calls : List Call) : Prop :=
  ∃ k ≤ log.length, f'.contents = f.contents ++ log.take k ∧
    calls.flatMap Call.positions = List.range k ∧
    ((∀ c ∈ calls, c.written ≠ 0) → k = log.length)

/-! ### Rolling and counting -/

theorem contents_rollFile (f : LogFile) (now : ℤ) (fopen : Bool) :
    (f.rollFile now fopen).contents = f.contents := by
  unfold rollFile
  dsimp only
  split
  · rfl
  · split
    · cases hfp : f.fp <;> simp [contents, hfp]
    · rfl

theorem contents_countBytes (f : LogFile) (len : ℕ) (env : Env) :
    (f.countBytes len env).contents = f.contents := by
  unfold countBytes
  dsimp only
  split
  · rw [contents_rollFile]
    rfl
  · split
    · split
      · rw [contents_rollFile]
        rfl
      · rfl
    · rfl

/-! ### The loop -/

section
variable {n call remain : ℕ} {fwrite : ℕ → ℕ}

theorem writeLoop_zero (fuel : ℕ) : writeLoop n fwrite (fuel + 1) call 0 = some [] := rfl

/-- A call that writes nothing ends the loop. -/
theorem writeLoop_stop (fuel : ℕ) (hremain : 0 < remain) (hcall : fwrite call = 0) :
    writeLoop n fwrite (fuel + 1) call remain = some [⟨n, remain, 0⟩] := by
  rw [writeLoop, if_pos hremain, hcall, Nat.zero_min]
  exact if_pos rfl

/-- A call that writes something is followed by the loop for the rest. -/
theorem writeLoop_succ (fuel : ℕ) (hremain : 0 < remain) (hcall : 0 < fwrite call) :
    writeLoop n fwrite (fuel + 1) call remain =
      (writeLoop n fwrite fuel (call + 1) (remain - min (fwrite call) remain)).map
        (⟨n, remain, min (fwrite call) remain⟩ :: ·) := by
  rw [writeLoop, if_pos hremain]
  exact if_neg (by omega)

/-- **The loop ends**: `remain` goes down in every turn but the last. -/
theorem writeLoop_terminates :
    ∀ {remain call : ℕ}, ∃ calls, ∀ fuel, remain < fuel →
      writeLoop n fwrite fuel call remain = some calls := by
  intro remain
  induction remain using Nat.strong_induction_on with
  | _ remain ih =>
    intro call
    rcases Nat.eq_zero_or_pos remain with rfl | hremain
    · refine ⟨[], fun fuel hfuel => ?_⟩
      obtain ⟨fuel, rfl⟩ := Nat.exists_eq_add_of_lt hfuel
      rfl
    · rcases Nat.eq_zero_or_pos (fwrite call) with hcall | hcall
      · refine ⟨[⟨n, remain, 0⟩], fun fuel hfuel => ?_⟩
        obtain ⟨fuel, rfl⟩ := Nat.exists_eq_add_of_lt hfuel
        exact writeLoop_stop _ hremain hcall
      · obtain ⟨calls, hcalls⟩ :=
          @ih (remain - min (fwrite call) remain) (by omega) (call + 1)
        refine ⟨⟨n, remain, min (fwrite call) remain⟩ :: calls, fun fuel hfuel => ?_⟩
        obtain ⟨fuel, rfl⟩ := Nat.exists_eq_add_of_lt hfuel
        rw [writeLoop_succ _ hremain hcall, hcalls _ (by omega)]
        rfl

end

/-! ### A record -/

/-- No retry that leaves something over is followed by another that writes: the
first call or the first retry does all that is left, or one of the first two
retries writes nothing. -/
def NoSecondRetry (len : ℕ) (fwrite : ℕ → ℕ) : Prop :=
  len ≤ fwrite 0 ∨ len - fwrite 0 ≤ fwrite 1 ∨ fwrite 1 = 0 ∨ fwrite 2 = 0

instance (len : ℕ) (fwrite : ℕ → ℕ) : Decidable (NoSecondRetry len fwrite) :=
  inferInstanceAs (Decidable (_ ∨ _ ∨ _ ∨ _))

section
variable {f : LogFile} {log : List UInt8} {env : Env} {calls : List Call}

/-- **`writeInternal` returns.** -/
theorem writeCalls_terminates (len : ℕ) (fwrite : ℕ → ℕ) :
    ∃ calls, ∀ fuel, len < fuel → writeCalls len fwrite fuel = some calls := by
  obtain ⟨calls, hcalls⟩ : ∃ calls, ∀ fuel, len - min (fwrite 0) len < fuel →
      writeLoop (min (fwrite 0) len) fwrite fuel 1 (len - min (fwrite 0) len) = some calls :=
    writeLoop_terminates
  refine ⟨⟨0, len, min (fwrite 0) len⟩ :: calls, fun fuel hfuel => ?_⟩
  rw [writeCalls, hcalls fuel (by omega)]
  rfl

/-- The calls of a record: one call, a retry that writes nothing or all that is
left, and a second retry that writes nothing or something. -/
inductive Course (len : ℕ) (fwrite : ℕ → ℕ) : List Call → Prop
  | whole : len ≤ fwrite 0 → Course len fwrite [⟨0, len, len⟩]
  | stopped : fwrite 0 < len → fwrite 1 = 0 →
      Course len fwrite [⟨0, len, fwrite 0⟩, ⟨fwrite 0, len - fwrite 0, 0⟩]
  | retried : fwrite 0 < len → len - fwrite 0 ≤ fwrite 1 →
      Course len fwrite [⟨0, len, fwrite 0⟩, ⟨fwrite 0, len - fwrite 0, len - fwrite 0⟩]
  | givenUp : fwrite 0 < len → fwrite 1 < len - fwrite 0 → fwrite 2 = 0 →
      Course len fwrite [⟨0, len, fwrite 0⟩, ⟨fwrite 0, len - fwrite 0, fwrite 1⟩,
        ⟨fwrite 0, len - fwrite 0 - fwrite 1, 0⟩]
  | repeated (rest : List Call) : fwrite 0 < len → 0 < fwrite 1 → fwrite 1 < len - fwrite 0 →
      0 < fwrite 2 → Course len fwrite (⟨0, len, fwrite 0⟩ ::
        ⟨fwrite 0, len - fwrite 0, fwrite 1⟩ ::
        ⟨fwrite 0, len - fwrite 0 - fwrite 1,
          min (fwrite 2) (len - fwrite 0 - fwrite 1)⟩ :: rest)

theorem writeCalls_course {len : ℕ} {fwrite : ℕ → ℕ} {fuel : ℕ}
    (h : writeCalls len fwrite (fuel + 3) = some calls) : Course len fwrite calls := by
  unfold writeCalls at h
  dsimp only at h
  rcases Nat.lt_or_ge (fwrite 0) len with hfirst | hfirst
  swap
  · rw [Nat.min_eq_right hfirst, Nat.sub_self, writeLoop_zero] at h
    obtain rfl : _ = calls := Option.some.inj h
    exact .whole hfirst
  rw [Nat.min_eq_left hfirst.le] at h
  have hrest : 0 < len - fwrite 0 := by omega
  rcases Nat.eq_zero_or_pos (fwrite 1) with hsecond | hsecond
  · rw [writeLoop_stop _ hrest hsecond] at h
    obtain rfl : _ = calls := Option.some.inj h
    exact .stopped hfirst hsecond
  rw [writeLoop_succ _ hrest hsecond] at h
  rcases Nat.lt_or_ge (fwrite 1) (len - fwrite 0) with hshort | hshort
  swap
  · rw [Nat.min_eq_right hshort, Nat.sub_self, writeLoop_zero] at h
    obtain rfl : _ = calls := Option.some.inj h
    exact .retried hfirst hshort
  rw [Nat.min_eq_left hshort.le] at h
  have hleft : 0 < len - fwrite 0 - fwrite 1 := by omega
  rcases Nat.eq_zero_or_pos (fwrite 2) with hthird | hthird
  · rw [writeLoop_stop _ hleft hthird] at h
    obtain rfl : _ = calls := Option.some.inj h
    exact .givenUp hfirst hshort hthird
  · rw [writeLoop_succ _ hleft hthird, Option.map_map, Option.map_map] at h
    obtain ⟨rest, -, rfl⟩ := Option.map_eq_some_iff.1 h
    exact .repeated rest hfirst hsecond hshort hthird

/-- What is in the files after the record. -/
theorem contents_writeInternal (hfp : f.fp.isSome) (log : List UInt8) (env : Env)
    (calls : List Call) :
    ∃ f', (∀ fuel, writeCalls log.length env.fwrite fuel = some calls →
        f.writeInternal log env fuel = some (f', calls)) ∧
      f'.contents = f.contents ++ calls.flatMap (Call.bytes log) := by
  obtain ⟨stream, hfp⟩ := Option.isSome_iff_exists.1 hfp
  refine ⟨_, fun fuel hcalls => by rw [writeInternal, hfp, hcalls]; rfl, ?_⟩
  rw [contents_countBytes, contents, contents, hfp, List.append_assoc]
  rfl

/-- A record that went out in one call, or in two of which the second started
where the first stopped. -/
theorem writesExactly_of_calls {f' : LogFile} {n m : ℕ} (hnm : n + m ≤ log.length)
    (hcontents : f'.contents = f.contents ++ calls.flatMap (Call.bytes log))
    (hbytes : calls.flatMap (Call.bytes log) = log.take n ++ (log.drop n).take m)
    (hpositions : calls.flatMap Call.positions = List.range n ++ List.range' n m)
    (hall : (∀ c ∈ calls, c.written ≠ 0) → n + m = log.length) : WritesExactly f f' log calls := by
  refine ⟨n + m, hnm, by rw [hcontents, hbytes, List.take_add], ?_, hall⟩
  have happend := List.range'_append_1 (s := 0) (m := n) (n := m)
  rwa [Nat.zero_add, ← List.range_eq_range', ← List.range_eq_range', ← hpositions] at happend

/-- A second retry that writes repeats what the first one wrote. -/
theorem second_retry_repeats {n a b k : ℕ} {front rest : List ℕ} (ha : 0 < a) (hb : 0 < b) :
    front ++ (List.range' n a ++ (List.range' n b ++ rest)) ≠ List.range k := by
  intro h
  have hnodup := (List.nodup_range (n := k))
  rw [← h] at hnodup
  have hapart := (List.nodup_append.1 (List.nodup_append.1 hnodup).2.1).2.2
  refine hapart n (List.mem_range'_1.2 ⟨le_rfl, by omega⟩) n (List.mem_append_left _ ?_) rfl
  exact List.mem_range'_1.2 ⟨le_rfl, by omega⟩

/-- **The records that are written exactly.**  `writeInternal` returns, and what
it wrote is a prefix of the record, each byte once and all of it unless a call
wrote nothing, if and only if no retry that left something over is followed by
another that writes. -/
theorem write_exact_iff (hfp : f.fp.isSome) (log : List UInt8) (env : Env) :
    ∃ f' calls, (∀ fuel, log.length < fuel → f.writeInternal log env fuel = some (f', calls)) ∧
      (WritesExactly f f' log calls ↔ NoSecondRetry log.length env.fwrite) := by
  obtain ⟨calls, hcalls⟩ := writeCalls_terminates log.length env.fwrite
  obtain ⟨f', hwrite, hcontents⟩ := contents_writeInternal hfp log env calls
  refine ⟨f', calls, fun fuel hfuel => hwrite fuel (hcalls fuel hfuel), ?_⟩
  cases writeCalls_course (hcalls (log.length + 3) (by omega)) with
  | whole hfirst =>
    refine iff_of_true (writesExactly_of_calls (n := log.length) (m := 0) ?_ hcontents ?_ ?_ ?_)
      (.inl hfirst) <;> simp [Call.bytes, Call.positions, List.range_eq_range']
  | stopped hfirst hsecond =>
    refine iff_of_true (writesExactly_of_calls (n := env.fwrite 0) (m := 0) ?_ hcontents ?_ ?_ ?_)
      (.inr (.inr (.inl hsecond))) <;>
      simp [Call.bytes, Call.positions, List.range_eq_range', hfirst.le]
  | retried hfirst hrest =>
    refine iff_of_true (writesExactly_of_calls (n := env.fwrite 0) (m := log.length - env.fwrite 0)
      ?_ hcontents ?_ ?_ ?_) (.inr (.inl hrest)) <;>
      simp [Call.bytes, Call.positions, List.range_eq_range', hfirst.le]
  | givenUp hfirst hshort hthird =>
    refine iff_of_true (writesExactly_of_calls (n := env.fwrite 0) (m := env.fwrite 1)
      (by omega) hcontents ?_ ?_ ?_) (.inr (.inr (.inr hthird))) <;>
      simp [Call.bytes, Call.positions, List.range_eq_range']
  | repeated rest hfirst hsecond hshort hthird =>
    refine iff_of_false (fun ⟨k, _, _, hpositions, _⟩ => ?_) (fun h => ?_)
    · exact second_retry_repeats (n := env.fwrite 0) hsecond (Nat.lt_min.2 ⟨hthird, by omega⟩)
        hpositions
    · unfold NoSecondRetry at h
      omega

end

/-- A file that has just been opened. -/
def opened : LogFile where
  rollSize := 500 * 1000 * 1000
  check := 1024
  count := 0
  writtenBytes := 0
  lastRoll := 1
  today := 0
  fp := some []
  closed := []

/-- A record of four bytes, written whole or a byte at a time. -/
theorem write_exact_four :
    (∃ f' calls, (∀ fuel, 4 < fuel → opened.writeInternal [97, 98, 99, 100]
        { fwrite := fun _ => 4, now := 2, rollNow := 2, fopen := true } fuel = some (f', calls)) ∧
      opened.WritesExactly f' [97, 98, 99, 100] calls) ∧
    ∃ f' calls, (∀ fuel, 4 < fuel → opened.writeInternal [97, 98, 99, 100]
        { fwrite := fun _ => 1, now := 2, rollNow := 2, fopen := true } fuel = some (f', calls)) ∧
      ¬ opened.WritesExactly f' [97, 98, 99, 100] calls := by
  refine ⟨?_, ?_⟩
  · obtain ⟨f', calls, hwrite, hiff⟩ := write_exact_iff (f := opened) rfl [97, 98, 99, 100]
      { fwrite := fun _ => 4, now := 2, rollNow := 2, fopen := true }
    exact ⟨f', calls, hwrite, hiff.2 (.inl (by decide))⟩
  · obtain ⟨f', calls, hwrite, hiff⟩ := write_exact_iff (f := opened) rfl [97, 98, 99, 100]
      { fwrite := fun _ => 1, now := 2, rollNow := 2, fopen := true }
    exact ⟨f', calls, hwrite, fun h => absurd (hiff.1 h) (by decide)⟩

/-- **The bytes `abcd` a byte at a time**: the file gets `abbb`, because the second
and every later write starts behind the first byte and not behind what was written.
-/
theorem write_repeats :
    ∃ f' calls, opened.writeInternal [97, 98, 99, 100]
        { fwrite := fun _ => 1, now := 2, rollNow := 2, fopen := true } 5 = some (f', calls) ∧
      calls = [⟨0, 4, 1⟩, ⟨1, 3, 1⟩, ⟨1, 2, 1⟩, ⟨1, 1, 1⟩] ∧
      f'.contents = [97, 98, 98, 98] ∧ ¬ opened.WritesExactly f' [97, 98, 99, 100] calls := by
  refine ⟨_, _, rfl, rfl, rfl, fun ⟨k, hk, _, hpositions, _⟩ => ?_⟩
  change [0, 1, 1, 1] = List.range k at hpositions
  have hnodup := List.nodup_range (n := k)
  rw [← hpositions] at hnodup
  exact absurd hnodup (by decide)

end LogFile
end Base
end Sevent
