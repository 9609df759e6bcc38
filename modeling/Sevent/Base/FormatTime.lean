/-
# The cached time of a log record

`DefaultLogProcessor::formatTime`, `setShowMicroSecond` and `setUTCOffset` in
`sevent/base/Logger.cpp`.

A thread keeps the last second it has formatted, and its text, in `lastSecond` and
`timeStrCache`.  A call for another second formats it anew, with the offset of the
moment; the microseconds are put behind the text in every call that shows them.
The offset is not part of what is compared, and `lastSecond` is 0 before anything
has been formatted.

`strftime` stands for `gmtime_r` and `strftime`, the text of a count of seconds.
`formatTime_agrees_iff` says that every call gives the text that formatting from scratch would
give, exactly when every call is for another second than the one before, or the
offset at which the second was formatted gives the text of the offset now.
-/

import Sevent.Lib.Bytes
import Sevent.Lib.Numeral
import Sevent.Lib.Run

namespace Sevent
namespace Base
namespace FormatTime

open Bytes Transition

/-- `Timestamp::microSecondUnit`. -/
def microSecondUnit : ℤ := 1000000

/-- A positive `Timestamp`, in microseconds. -/
abbrev Timestamp : Type := { t : ℤ // 0 < t }

/-- The second of a timestamp. -/
def second (time : Timestamp) : ℤ := time.1.tdiv microSecondUnit

/-- The microseconds of a timestamp. -/
def microsec (time : Timestamp) : ℤ := time.1.tmod microSecondUnit

/-- `.%06d`, for a number that is not negative. -/
def microText (n : ℤ) : List UInt8 :=
  let digits := Numeral.write 10 (fun d => UInt8.ofNat (48 + d)) n.toNat
  '.'.toUInt8 :: (List.replicate (6 - digits.length) '0'.toUInt8 ++ digits)

/-- The `thread_local`s of `formatTime` and the two settings.  `offsetThen` is kept for the
statements only: the offset at which the cached second was formatted. -/
structure State where
  lastSecond : ℤ
  timeStrCache : List UInt8
  gmtOffsetSec : ℤ
  showMicroSecond : Bool
  offsetThen : Option ℤ

/-- Before the first call. -/
def initial : State where
  lastSecond := 0
  timeStrCache := List.replicate 64 0
  gmtOffsetSec := 0
  showMicroSecond := false
  offsetThen := none

/-- The first half of `formatTime`: another second is formatted. -/
def reformat (strftime : ℤ → List UInt8) (s : State) (time : Timestamp) : State :=
  if second time ≠ s.lastSecond then
    { s with
      lastSecond := second time
      timeStrCache := writeAt s.timeStrCache 0 (strftime (second time + s.gmtOffsetSec) ++ [0])
      offsetThen := some s.gmtOffsetSec }
  else s

/-- `DefaultLogProcessor::formatTime`; `snprintf` stores at most 8 characters and a NUL. -/
def formatTime (strftime : ℤ → List UInt8) (s : State) (time : Timestamp) : State :=
  let s := reformat strftime s time
  if s.showMicroSecond then
    { s with timeStrCache := writeAt s.timeStrCache 17 ((microText (microsec time)).take 8 ++ [0]) }
  else s

/-- The characters that `beforeMsgToStream` uses. -/
def used (s : State) : List UInt8 := s.timeStrCache.take (if s.showMicroSecond then 24 else 17)

/-- Formatting from scratch. -/
def plain (strftime : ℤ → List UInt8) (s : State) (time : Timestamp) : List UInt8 :=
  strftime (second time + s.gmtOffsetSec) ++
    if s.showMicroSecond then microText (microsec time) else []

/-- The calls of a thread, and of others that change the settings. -/
inductive Call
  | formatTime (time : Timestamp)
  | setUTCOffset (gmtOffsetSecond : ℤ)
  | setShowMicroSecond (show_ : Bool)

/-- One call: `formatTime`, or one of the settings. -/
def step (strftime : ℤ → List UInt8) (s : State) : Call → Option State
  | .formatTime time => some (formatTime strftime s time)
  | .setUTCOffset gmtOffsetSecond => some { s with gmtOffsetSec := gmtOffsetSecond }
  | .setShowMicroSecond show_ => some { s with showMicroSecond := show_ }

/-- What is promised of a call: the text is the one formatted from scratch. -/
def Agrees (strftime : ℤ → List UInt8) (s : State) : Call → Prop
  | .formatTime time => used (formatTime strftime s time) = plain strftime s time
  | _ => True

/-- The condition on a call: the second is another one than in the last call, or it was
formatted, and the offset then gives the same text as the offset now. -/
def Fresh (strftime : ℤ → List UInt8) (s : State) : Call → Prop
  | .formatTime time => second time ≠ s.lastSecond ∨ ∃ offset ∈ s.offsetThen,
      strftime (second time + offset) = strftime (second time + s.gmtOffsetSec)
  | _ => True

instance (strftime : ℤ → List UInt8) (s : State) : (c : Call) → Decidable (Agrees strftime s c)
  | .formatTime time => inferInstanceAs
      (Decidable (used (formatTime strftime s time) = plain strftime s time))
  | .setUTCOffset _ | .setShowMicroSecond _ => .isTrue trivial

instance (strftime : ℤ → List UInt8) (s : State) : (c : Call) → Decidable (Fresh strftime s c)
  | .formatTime time => inferInstanceAs
      (Decidable (second time ≠ s.lastSecond ∨ ∃ offset ∈ s.offsetThen,
        strftime (second time + offset) = strftime (second time + s.gmtOffsetSec)))
  | .setUTCOffset _ | .setShowMicroSecond _ => .isTrue trivial

/-! ### The cache -/

variable {strftime : ℤ → List UInt8} {s : State}

/-- The first 17 characters of the cache are the text of the second, or NULs as long as
nothing has been formatted. -/
structure Cached (strftime : ℤ → List UInt8) (s : State) : Prop where
  length : s.timeStrCache.length = 64
  text : s.timeStrCache.take 17 =
    match s.offsetThen with
    | none => List.replicate 17 0
    | some offset => strftime (s.lastSecond + offset)

/-- The microseconds take seven characters with their point. -/
theorem length_microText (time : Timestamp) : (microText (microsec time)).length = 7 := by
  have hlt : (microsec time).toNat < 10 ^ 6 := by
    have h := Int.tmod_lt_of_pos time.1 (by decide : (0 : ℤ) < microSecondUnit)
    unfold microsec microSecondUnit at *
    omega
  have hlen := Numeral.length_digits_le (by decide) (by decide : 0 < 6) hlt
  unfold microText
  rw [List.length_cons, List.length_append, List.length_replicate, Numeral.length_write]
  omega

/-- Storing the microseconds leaves the first 17 characters. -/
theorem take_writeAt_17 {cache ys : List UInt8} (h : 17 + ys.length ≤ cache.length) :
    (writeAt cache 17 ys).take 17 = cache.take 17 :=
  slice_writeAt_before (a := 0) h le_rfl

/-- Nothing is cached at first. -/
theorem Cached.initial : Cached strftime initial := ⟨rfl, rfl⟩

/-- A text that is made anew is the one that is cached. -/
theorem Cached.reformat (hlen : ∀ n, (strftime n).length = 17) (h : Cached strftime s)
    (time : Timestamp) : Cached strftime (reformat strftime s time) := by
  unfold FormatTime.reformat
  split
  case isTrue hne =>
    refine ⟨(length_writeAt ..).trans h.length, ?_⟩
    have htext := hlen (second time + s.gmtOffsetSec)
    have hfit : 0 + (strftime (second time + s.gmtOffsetSec) ++ [0]).length ≤
        s.timeStrCache.length := by
      rw [List.length_append, htext, h.length]
      decide
    have htake := take_writeAt hfit (n := 17) (by rw [List.length_append, htext]; decide)
    rw [List.take_zero, List.nil_append, List.take_left' htext, Nat.zero_add] at htake
    exact htake
  case isFalse => exact h

/-- The microseconds behind the 17 characters. -/
theorem Cached.store_micro (h : Cached strftime s) (time : Timestamp) :
    let cache := writeAt s.timeStrCache 17 ((microText (microsec time)).take 8 ++ [0])
    cache.length = 64 ∧ cache.take 17 = s.timeStrCache.take 17 ∧
      cache.take 24 = s.timeStrCache.take 17 ++ microText (microsec time) := by
  have hmicro := length_microText time
  have htake : (microText (microsec time)).take 8 = microText (microsec time) :=
    List.take_of_length_le (by omega)
  have hfit : 17 + (microText (microsec time) ++ [0]).length ≤ s.timeStrCache.length := by
    rw [List.length_append, hmicro, h.length]
    decide
  rw [htake]
  refine ⟨(length_writeAt ..).trans h.length, take_writeAt_17 hfit, ?_⟩
  have hall := take_writeAt hfit (n := 7) (by rw [List.length_append, hmicro]; decide)
  rwa [List.take_left' hmicro] at hall

/-- `formatTime` keeps the cache, whether it made the text anew or not. -/
theorem Cached.formatTime (hlen : ∀ n, (strftime n).length = 17) (h : Cached strftime s)
    (time : Timestamp) : Cached strftime (formatTime strftime s time) := by
  have h₁ := h.reformat hlen time
  unfold FormatTime.formatTime
  dsimp only
  split
  case isTrue =>
    obtain ⟨hlength, htext, -⟩ := h₁.store_micro time
    exact ⟨hlength, htext.trans h₁.text⟩
  case isFalse => exact h₁

variable (strftime s) in
/-- Making the text anew leaves the setting for the microseconds. -/
theorem showMicroSecond_reformat (time : Timestamp) :
    (reformat strftime s time).showMicroSecond = s.showMicroSecond := by
  unfold reformat
  split <;> rfl

/-- What is used: the 17 characters of the cache, and the microseconds of this call. -/
theorem Cached.used_formatTime (hlen : ∀ n, (strftime n).length = 17) (h : Cached strftime s)
    (time : Timestamp) :
    used (FormatTime.formatTime strftime s time) =
      (FormatTime.reformat strftime s time).timeStrCache.take 17 ++
        if s.showMicroSecond then microText (microsec time) else [] := by
  have h₁ := h.reformat hlen time
  have hshow := showMicroSecond_reformat strftime s time
  unfold FormatTime.formatTime used
  dsimp only
  split
  case isTrue htrue =>
    obtain ⟨-, -, htext⟩ := h₁.store_micro time
    rw [if_pos (hshow ▸ htrue)]
    exact htext
  case isFalse hfalse =>
    rw [if_neg (hshow ▸ hfalse), List.append_nil]

/-- **One call** gives the text formatted from scratch exactly when it meets the
condition. -/
theorem Cached.agrees_iff_fresh (hlen : ∀ n, (strftime n).length = 17)
    (hnul : ∀ n, (0 : UInt8) ∉ strftime n) (h : Cached strftime s) (c : Call) :
    Agrees strftime s c ↔ Fresh strftime s c := by
  cases c with
  | formatTime time =>
    have hcut := (h.reformat hlen time).text
    show used (FormatTime.formatTime strftime s time) = plain strftime s time ↔
      second time ≠ s.lastSecond ∨ ∃ offset ∈ s.offsetThen,
        strftime (second time + offset) = strftime (second time + s.gmtOffsetSec)
    rw [h.used_formatTime hlen time, plain, List.append_left_inj, hcut]
    by_cases hsecond : second time = s.lastSecond
    · have hsame : FormatTime.reformat strftime s time = s := if_neg (not_not.2 hsecond)
      rw [hsame, or_iff_right (not_not.2 hsecond), hsecond]
      cases hthen : s.offsetThen with
      | none =>
        refine iff_of_false (fun heq => hnul (s.lastSecond + s.gmtOffsetSec) ?_) ?_
        · rw [← heq]
          exact List.mem_cons_self
        · rintro ⟨offset, hoffset, -⟩
          cases hoffset
      | some offset => simp
    · have hother : FormatTime.reformat strftime s time = _ := if_pos hsecond
      rw [hother]
      exact iff_of_true rfl (Or.inl hsecond)
  | setUTCOffset gmtOffsetSecond => exact Iff.rfl
  | setShowMicroSecond show_ => exact Iff.rfl

/-- A call keeps the cache. -/
theorem Cached.step (hlen : ∀ n, (strftime n).length = 17) {s' : State} {c : Call}
    (h : Cached strftime s) (hs' : step strftime s c = some s') : Cached strftime s' := by
  cases c with
  | formatTime time => exact Option.some.inj hs' ▸ h.formatTime hlen time
  | setUTCOffset gmtOffsetSecond => exact Option.some.inj hs' ▸ ⟨h.length, h.text⟩
  | setShowMicroSecond show_ => exact Option.some.inj hs' ▸ ⟨h.length, h.text⟩

/-- **Every call gives the text formatted from scratch** if and only if every call is
for another second than the last, or the offset then and the offset now give one
text: the cache knows the second that it was made for, and not the offset. -/
theorem formatTime_agrees_iff (hlen : ∀ n, (strftime n).length = 17)
    (hnul : ∀ n, (0 : UInt8) ∉ strftime n) (cs : List Call) :
    Steps (step strftime) (Agrees strftime) initial cs ↔
      Steps (step strftime) (Fresh strftime) initial cs :=
  steps_congr (fun _ _ _ (h : Cached strftime _) hs' => h.step hlen hs')
    (fun _ c h => h.agrees_iff_fresh hlen hnul c) Cached.initial

/-- What `strftime` gives for the two instants of the examples, and one more. -/
def strftimeSample (n : ℤ) : List UInt8 :=
  if n = 1648658354 then "20220330 16:39:14".toUTF8.toList
  else if n = 1648687154 then "20220331 00:39:14".toUTF8.toList
  else "19700101 00:00:00".toUTF8.toList

/-- The text of the sample has the length that the code expects. -/
theorem length_strftimeSample (n : ℤ) : (strftimeSample n).length = 17 := by
  unfold strftimeSample
  split_ifs <;> decide +kernel

/-- No byte of the sample ends a string. -/
theorem zero_not_mem_strftimeSample (n : ℤ) : (0 : UInt8) ∉ strftimeSample n := by
  unfold strftimeSample
  split_ifs <;> decide +kernel

/-- Two calls in one second, the second with microseconds. -/
theorem agrees_two_calls :
    Steps (step strftimeSample) (Agrees strftimeSample) initial
      [.formatTime ⟨1648658354818361, by decide⟩, .setShowMicroSecond true,
        .formatTime ⟨1648658354818362, by decide⟩] :=
  (formatTime_agrees_iff length_strftimeSample zero_not_mem_strftimeSample _).2 (by decide +kernel)

/-- `setUTCOffset(8 * 3600)` between two calls in one second: the second call gives
the text of the first, and so the time of day of the old offset. -/
theorem stale_offset :
    ¬ Steps (step strftimeSample) (Agrees strftimeSample) initial
      [.formatTime ⟨1648658354818361, by decide⟩, .setUTCOffset 28800,
        .formatTime ⟨1648658354818362, by decide⟩] := by
  decide +kernel

end FormatTime
end Base
end Sevent
