/-
# The messages of the hub

`examples/hub/hubCodec.cpp`, and `findCRLF` of `sevent/net/Buffer.cpp`.

A message is a line with a command and a topic, and for `pub` a second line with
the content.  `parseMessage` takes one out of a buffer, says that there is not
all of it yet, or that the line has no space, and then leaves the buffer.

`hubReader` is the reader of frames that it is on the readable bytes
(`parseMessage_spec`), and `encode` what it reads.
-/

import Sevent.Lib.Framing
import Sevent.Net.BufferFifo
import Sevent.Net.Http.Http

namespace Sevent
namespace Net
namespace Buffer

open Bytes

/-- `CRLF`. -/
def CRLF : List UInt8 := [13, 10]

/-- `std::search` for `CRLF`: where it begins first. -/
def search : List UInt8 → Option ℕ
  | [] => none
  | c :: a => if CRLF.isPrefixOf (c :: a) then some 0 else (search a).map (· + 1)

/-- `Buffer::findCRLF(start)`; `start` and the result are offsets from `begin()`. -/
def findCRLF (b : Buffer) (start : ℕ) : Option ℕ :=
  if start < b.readIndex ∨ b.writeIndex < start then none
  else (search (slice b.buffer start b.writeIndex)).map (start + ·)

theorem search_lt {a : List UInt8} {i : ℕ} (h : search a = some i) : i + 2 ≤ a.length := by
  induction a generalizing i with
  | nil => cases h
  | cons c a ih =>
    unfold search at h
    split_ifs at h with hcrlf
    · cases h
      exact (List.isPrefixOf_iff_prefix.1 hcrlf).length_le
    · obtain ⟨j, hj, rfl⟩ := Option.map_eq_some_iff.1 h
      have := ih hj
      rw [List.length_cons]
      omega

/-- More behind it does not change where it begins. -/
theorem search_append {a : List UInt8} {i : ℕ} (h : search a = some i) (b : List UInt8) :
    search (a ++ b) = some i := by
  induction a generalizing i with
  | nil => cases h
  | cons c a ih =>
    unfold search at h
    rw [List.cons_append]
    unfold search
    split_ifs at h with hcrlf
    · have hprefix := (List.isPrefixOf_iff_prefix.1 hcrlf).trans (List.prefix_append (c :: a) b)
      rw [← List.cons_append, if_pos (List.isPrefixOf_iff_prefix.2 hprefix)]
      exact h
    · obtain ⟨j, hj, rfl⟩ := Option.map_eq_some_iff.1 h
      have hlen := search_lt hj
      have hnot : ¬ CRLF.isPrefixOf (c :: (a ++ b)) = true := by
        rw [List.isPrefixOf_iff_prefix, ← List.cons_append]
        intro hprefix
        refine hcrlf (List.isPrefixOf_iff_prefix.2 ?_)
        exact List.prefix_of_prefix_length_le hprefix (List.prefix_append _ _) (by
          rw [List.length_cons]
          unfold CRLF
          simp only [List.length_cons, List.length_nil]
          omega)
      rw [if_neg hnot, ih hj]
      rfl

/-- A stretch of the readable bytes. -/
theorem slice_readable {b : Buffer} (h : b.Ok) (i : ℕ) {j : ℕ} (hj : j ≤ b.readable.length) :
    slice b.buffer (b.readIndex + i) (b.readIndex + j) = (b.readable.take j).drop i := by
  rw [h.length_readable] at hj
  have hread := h.read_le
  unfold readable slice
  rw [List.take_drop, List.take_take, List.drop_drop, min_eq_left (by omega)]

end Buffer
end Net

namespace Examples
namespace Hub

open Net Net.Buffer Bytes Framing
open Net.Http (text)

/-! ### `parseMessage` -/

/-- What `parseMessage` assigns to its three strings. -/
@[ext]
structure Message where
  cmd : List UInt8
  topic : List UInt8
  content : List UInt8
  deriving DecidableEq

inductive ParseResult
  | kError
  | kSuccess
  | kContinue
  deriving DecidableEq, Repr

/-- The result, the buffer after the call, and the strings. -/
def parseMessage (buf : Buffer) : ParseResult × Buffer × Message :=
  match buf.findCRLF buf.readIndex with
  | some crlf =>
    let space := buf.readIndex + (slice buf.buffer buf.readIndex crlf).idxOf 32
    if space ≠ crlf then
      let cmd := slice buf.buffer buf.readIndex space
      let topic := slice buf.buffer (space + 1) crlf
      if cmd = text "pub" then
        let start := crlf + 2
        match buf.findCRLF start with
        | some crlf =>
          (.kSuccess, buf.retrieveUntil (crlf + 2), ⟨cmd, topic, slice buf.buffer start crlf⟩)
        | none => (.kContinue, buf, ⟨cmd, topic, []⟩)
      else (.kSuccess, buf.retrieveUntil (crlf + 2), ⟨cmd, topic, []⟩)
    else (.kError, buf, ⟨[], [], []⟩)
  | none => (.kContinue, buf, ⟨[], [], []⟩)

/-! ### The reader -/

/-- What a line says after which `rest` follows. -/
def message (line rest : List UInt8) : Front UInt8 Message :=
  let k := line.idxOf 32
  if k = line.length then .bad
  else if line.take k = text "pub" then
    match search rest with
    | none => .wait
    | some j => .frame ⟨line.take k, line.drop (k + 1), rest.take j⟩ (rest.drop (j + 2))
  else .frame ⟨line.take k, line.drop (k + 1), []⟩ rest

/-- The front of a stream. -/
def front (a : List UInt8) : Front UInt8 Message :=
  match search a with
  | none => .wait
  | some i => message (a.take i) (a.drop (i + 2))

theorem front_some {a : List UInt8} {i : ℕ} (h : search a = some i) :
    front a = message (a.take i) (a.drop (i + 2)) := by
  unfold front
  rw [h]

theorem front_none {a : List UInt8} (h : search a = none) : front a = .wait := by
  unfold front
  rw [h]

/-- A first line, and what comes behind it. -/
theorem front_append {a : List UInt8} {i : ℕ} (h : search a = some i) (b : List UInt8) :
    front (a ++ b) = message (a.take i) (a.drop (i + 2) ++ b) := by
  have hlen := search_lt h
  rw [front_some (search_append h b), List.take_append_of_le_length (by omega),
    List.drop_append_of_le_length hlen]

theorem message_shorter {line rest r : List UInt8} {m : Message}
    (h : message line rest = .frame m r) : r.length ≤ rest.length := by
  unfold message at h
  dsimp only at h
  split_ifs at h
  · split at h
    · cases h
    · cases h
      rw [List.length_drop]
      omega
  · cases h
    exact le_rfl

theorem message_append {line rest r : List UInt8} {m : Message} (b : List UInt8)
    (h : message line rest = .frame m r) : message line (rest ++ b) = .frame m (r ++ b) := by
  unfold message at h ⊢
  dsimp only at h ⊢
  split_ifs at h ⊢
  · split at h
    · cases h
    case h_2 j hj =>
      cases h
      have hlen := search_lt hj
      rw [search_append hj b]
      dsimp only
      rw [List.take_append_of_le_length (by omega), List.drop_append_of_le_length hlen]
  · cases h
    rfl

theorem message_bad {line rest : List UInt8} (h : message line rest = .bad) (b : List UInt8) :
    message line (rest ++ b) = .bad := by
  unfold message at h ⊢
  dsimp only at h ⊢
  split_ifs at h ⊢
  · rfl
  · split at h <;> cases h

/-- **The reader of messages.** -/
def hubReader : Reader UInt8 Message where
  next := front
  next_nil := rfl
  shorter := by
    intro a m r h
    unfold front at h
    split at h
    · cases h
    case h_2 i hi =>
      have hlen := search_lt hi
      have hshort := message_shorter h
      rw [List.length_drop] at hshort
      omega
  frame_append := by
    intro a m r b h
    cases hi : search a with
    | none =>
      rw [front_none hi] at h
      cases h
    | some i =>
      rw [front_some hi] at h
      rw [front_append hi]
      exact message_append b h
  bad_append := by
    intro a b h
    cases hi : search a with
    | none =>
      rw [front_none hi] at h
      cases h
    | some i =>
      rw [front_some hi] at h
      rw [front_append hi]
      exact message_bad h b

/-! ### `parseMessage` is the reader -/

/-- What `parseMessage` does where this is at the front. -/
def Parses (buf : Buffer) : Front UInt8 Message → ParseResult × Buffer × Message → Prop
  | .wait, p => p.1 = .kContinue ∧ p.2.1 = buf
  | .bad, p => p.1 = .kError ∧ p.2.1 = buf
  | .frame m r, p => p.1 = .kSuccess ∧ p.2.1.Input ∧ p.2.1.readable = r ∧ p.2.2 = m

/-- `retrieveUntil` a place among the readable bytes. -/
theorem retrieveUntil_spec {buf : Buffer} (h : buf.Input) {i : ℕ} (hi : i ≤ buf.readable.length) :
    (buf.retrieveUntil ((buf.readIndex + i : ℕ) : ℤ)).Input ∧
      (buf.retrieveUntil ((buf.readIndex + i : ℕ) : ℤ)).readable = buf.readable.drop i := by
  have hlt := h.toOk.lt
  have hwrite := h.write_le
  rw [h.toOk.length_readable] at hi
  have hlen : (((buf.readIndex + i : ℕ) : ℤ) - buf.readIndex) % 2 ^ 64 = i := by
    rw [Nat.cast_add, add_sub_cancel_left]
    exact Int.emod_eq_of_lt (by omega) (by omega)
  unfold Buffer.retrieveUntil
  rw [hlen, Int.toNat_natCast]
  exact ⟨h.retrieve i, Buffer.readable_retrieve h.toOk i⟩

/-- `findCRLF` from a place among the readable bytes. -/
theorem findCRLF_spec {buf : Buffer} (h : buf.Ok) {i : ℕ} (hi : i ≤ buf.readable.length) :
    buf.findCRLF (buf.readIndex + i) =
      (search (buf.readable.drop i)).map (buf.readIndex + i + ·) := by
  have hlen := h.length_readable
  have hread := h.read_le
  unfold Buffer.findCRLF
  rw [if_neg (by omega)]
  have hend : buf.writeIndex = buf.readIndex + buf.readable.length := by omega
  rw [hend, slice_readable h i le_rfl, List.take_length]

/-- **`parseMessage` reads the front** of the readable bytes. -/
theorem parseMessage_spec {buf : Buffer} (h : buf.Input) :
    Parses buf (front buf.readable) (parseMessage buf) := by
  have hfind := findCRLF_spec h.toOk (Nat.zero_le buf.readable.length)
  rw [Nat.add_zero, List.drop_zero] at hfind
  unfold parseMessage
  rw [hfind]
  cases hi : search buf.readable with
  | none =>
    rw [front_none hi]
    exact ⟨rfl, rfl⟩
  | some i =>
    have hlen := search_lt hi
    have htake : (buf.readable.take i).length = i := by
      rw [List.length_take]
      omega
    have hline : slice buf.buffer buf.readIndex (buf.readIndex + i) = buf.readable.take i := by
      have hslice := slice_readable h.toOk 0 (j := i) (by omega)
      rwa [Nat.add_zero, List.drop_zero] at hslice
    have hspace : (buf.readable.take i).idxOf 32 ≤ i :=
      List.idxOf_le_length.trans htake.le
    have hnext := findCRLF_spec h.toOk (i := i + 2) hlen
    rw [front_some hi]
    unfold message
    simp only [Option.map_some]
    rw [hline, htake]
    generalize hk : (buf.readable.take i).idxOf 32 = k at hspace ⊢
    have hcmd : slice buf.buffer buf.readIndex (buf.readIndex + k) =
        (buf.readable.take i).take k := by
      have hslice := slice_readable h.toOk 0 (j := k) (by omega)
      rw [Nat.add_zero, List.drop_zero] at hslice
      rw [hslice, List.take_take, min_eq_left hspace]
    have htopic : slice buf.buffer (buf.readIndex + k + 1) (buf.readIndex + i) =
        (buf.readable.take i).drop (k + 1) := by
      rw [Nat.add_assoc]
      exact slice_readable h.toOk (k + 1) (by omega)
    rw [hcmd, htopic]
    by_cases hbad : k = i
    · have hsame : ¬ buf.readIndex + k ≠ buf.readIndex + i := by omega
      rw [if_pos hbad, if_neg hsame]
      exact ⟨rfl, rfl⟩
    · have hne : buf.readIndex + k ≠ buf.readIndex + i := by omega
      rw [if_neg hbad, if_pos hne]
      have hcast : ∀ n : ℕ, ((buf.readIndex + n : ℕ) : ℤ) + 2 = (buf.readIndex + (n + 2) : ℕ) := by
        intro n
        omega
      by_cases hpub : (buf.readable.take i).take k = text "pub"
      · rw [if_pos hpub, if_pos hpub, Nat.add_assoc, hnext]
        cases hj : search (buf.readable.drop (i + 2)) with
        | none => exact ⟨rfl, rfl⟩
        | some j =>
          have hlen' := search_lt hj
          rw [List.length_drop] at hlen'
          have hcontent : slice buf.buffer (buf.readIndex + (i + 2)) (buf.readIndex + (i + 2 + j)) =
              (buf.readable.drop (i + 2)).take j := by
            rw [slice_readable h.toOk (i + 2) (by omega), List.take_drop]
          obtain ⟨hin, hread⟩ := retrieveUntil_spec h (i := i + 2 + j + 2) (by omega)
          rw [Option.map_some, Nat.add_assoc buf.readIndex]
          dsimp only
          rw [hcast, hcontent, List.drop_drop]
          exact ⟨rfl, hin, hread, rfl⟩
      · obtain ⟨hin, hread⟩ := retrieveUntil_spec h (i := i + 2) hlen
        rw [if_neg hpub, if_neg hpub, hcast]
        exact ⟨rfl, hin, hread, rfl⟩

/-! ### What is written -/

/-- The bytes of a message. -/
def encode (m : Message) : List UInt8 :=
  m.cmd ++ 32 :: m.topic ++ CRLF ++ if m.cmd = text "pub" then m.content ++ CRLF else []

end Hub
end Examples
end Sevent
