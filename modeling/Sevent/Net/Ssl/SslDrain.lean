/-
# Reading until nothing is left

`SslHandler::bioRead`, `SslHandler::sslRead`, and `encrypt` and `decrypt` around
them, in `sevent/net/ssl/SslContext.cpp`.

Both loops read into the free space of a buffer until a read returns nothing, and
call `ensureSpace(buf.size())` when a read has filled it.  The length they ask for
is the free space, converted to an `int`.  OpenSSL is the environment: a `Source`
says what is pending and what a read of a length delivers, which is any part of it
that fits.

A store behind the end of the vector and an `int` that overflows are undefined, and
a growth can throw; there a pass is `none`.  `lengths` is not in the code: the
lengths that have been asked for.
-/

import Sevent.Lib.Doubling
import Sevent.Net.BufferRoom
import Sevent.Net.Ssl.SslFlush

namespace Sevent
namespace Net
namespace Ssl

open Bytes Doubling

/-- What `BIO_read` reads from, or `SSL_read`: the bytes that are pending, and what a
read of a length returns.  It delivers the first of them, no more than the length,
and nothing only where nothing is pending or the length is not positive. -/
structure Source (σ : Type) where
  pending : σ → List UInt8
  read : σ → ℤ → ℤ × σ
  read_le : ∀ s len, 0 < (read s len).1 → (read s len).1 ≤ len
  read_le_pending : ∀ s len, (read s len).1 ≤ (pending s).length
  read_pos : ∀ s len, pending s ≠ [] → 0 < len → 0 < (read s len).1
  pending_read : ∀ s len, pending (read s len).2 = (pending s).drop (read s len).1.toNat

/-- The locals of the loop of `bioRead` or `sslRead`, with what it reads from. -/
structure Drain (σ : Type) where
  n : ℤ
  count : ℤ
  buf : Buffer
  source : σ
  lengths : List ℤ

variable {σ : Type}

/-- What a pass does with the bytes that it has read: `advance`, and `ensureSpace`
where the buffer is full. -/
def received (buf : Buffer) (data : List UInt8) : Option Buffer :=
  let buf : Buffer := { buf with buffer := writeAt buf.buffer buf.writeIndex data }
  let buf := buf.advance data.length
  if buf.writableBytes = 0 then buf.ensureSpace buf.size else some buf

/-- One pass of the loop. -/
def pass (src : Source σ) (d : Drain σ) : Option (Drain σ) :=
  let len := toInt d.buf.writableBytes
  let r := src.read d.source len
  let data := (src.pending d.source).take r.1.toNat
  if 0 < r.1 then
    if d.buf.size < d.buf.writeIndex + data.length ∨ 2 ^ 31 ≤ d.count + r.1 then none
    else
      (received d.buf data).map fun buf =>
        { n := r.1
          count := d.count + r.1
          buf := buf
          source := r.2
          lengths := d.lengths ++ [len] }
  else some { d with n := r.1, source := r.2, lengths := d.lengths ++ [len] }

variable {src : Source σ} {d d' : Drain σ}

/-- What a pass reads. -/
theorem pass_read (h : pass src d = some d') :
    d'.n = (src.read d.source (toInt d.buf.writableBytes)).1 ∧
      src.pending d'.source = (src.pending d.source).drop d'.n.toNat := by
  unfold pass at h
  dsimp only at h
  split at h
  case isTrue =>
    obtain ⟨-, h⟩ := Option.ite_none_left_eq_some.1 h
    obtain ⟨b, -, rfl⟩ := Option.map_eq_some_iff.1 h
    exact ⟨rfl, src.pending_read ..⟩
  case isFalse =>
    rw [← Option.some.inj h]
    exact ⟨rfl, src.pending_read ..⟩

/-- A pass that reads something leaves less. -/
theorem length_pending_pass (h : pass src d = some d') (hn : 0 < d'.n) :
    (src.pending d'.source).length < (src.pending d.source).length := by
  obtain ⟨heq, hpending⟩ := pass_read h
  have hle := src.read_le_pending d.source (toInt d.buf.writableBytes)
  rw [hpending, List.length_drop]
  omega

/-- The loop.  Each pass but the last leaves less. -/
def drain (src : Source σ) (d : Drain σ) : Option (Drain σ) :=
  match h : pass src d with
  | none => none
  | some d' =>
    if hn : 0 < d'.n then
      have := length_pending_pass h hn
      drain src d'
    else some d'
termination_by (src.pending d.source).length

/-- The loop, before its first pass. -/
def Drain.begin (source : σ) (buf : Buffer) : Drain σ where
  n := 0
  count := 0
  buf := buf
  source := source
  lengths := []

/-- `SslHandler::bioRead`: what it returns, the buffer, and what is left. -/
def bioRead (wbio : Source σ) (s : σ) (buf : Buffer) : Option (ℤ × Buffer × σ) :=
  (drain wbio (.begin s buf)).map fun d => (if 0 < d.count then d.count else d.n, d.buf, d.source)

/-- `SslHandler::sslRead`. -/
def sslRead (ssl : Source σ) (s : σ) (buf : Buffer) : Option (ℤ × Buffer × σ) :=
  (drain ssl (.begin s buf)).map fun d => (d.n, d.buf, d.source)

/-- What `encrypt(inbuf)` and `decrypt(inbuf)` do first: the buffer of the handler
gets room for as many bytes more as `inbuf` has beyond its free space. -/
def presize (data : Buffer) (inBytes : ℕ) : Option Buffer :=
  let outBytes := data.writableBytes
  if outBytes < inBytes then data.ensureSpace (subSize inBytes outBytes) else some data

/-- The calls of the two loops. -/
inductive Caller
  /-- `SslCodec`, with `tmpBuf`. -/
  | tmpBuf
  /-- `encrypt(inbuf)` and `decrypt(inbuf)`, with `enCryptData` or `decryptData`. -/
  | member (data : Buffer) (inBytes : ℕ)
  /-- `encrypt(inbuf, outbuf)` and `decrypt(inbuf, outbuf)`. -/
  | outbuf (buf : Buffer)

/-- The buffer that the loop is given. -/
def Caller.start : Caller → Option Buffer
  | .tmpBuf => Buffer.new Buffer.initialSize
  | .member data inBytes => presize data inBytes
  | .outbuf buf => some buf

/-! ### The free space, byte by byte -/

/-- Room for `n` bytes: a vector can be as large as it becomes, the free space is
positive as an `int` before each byte, and after the last it is not zero. -/
structure RoomFor (space : ℕ × ℕ) (n : ℕ) : Prop where
  size : (oneMore^[n] space).2 ≤ Buffer.maxSize
  lengths : ∀ k < n, 0 < toInt (oneMore^[k] space).1
  last : toInt (oneMore^[n] space).1 ≠ 0

/-- A positive `int` becomes smaller with the number it comes from. -/
theorem toInt_sub {n k : ℕ} (hk : (k : ℤ) < toInt n) : 0 < toInt (n - k : ℕ) := by
  have hle := toInt_le (n := (n : ℤ)) (by omega)
  unfold toInt at *
  rw [Int.bmod_def] at *
  omega

/-- Room for `n` bytes, after the first `k` of them. -/
theorem roomFor_iff {room size k n : ℕ} (hk : (k : ℤ) ≤ toInt room) (hkn : k ≤ n) :
    RoomFor (room, size) n ↔ RoomFor (oneMore^[k] (room, size)) (n - k) := by
  have hadd : ∀ j, oneMore^[j] (oneMore^[k] (room, size)) = oneMore^[j + k] (room, size) :=
    fun j => (Function.iterate_add_apply ..).symm
  have hle := toInt_le (n := (room : ℤ)) (by omega)
  constructor
  · intro h
    refine ⟨?_, fun j hj => ?_, ?_⟩
    · rw [hadd, Nat.sub_add_cancel hkn]
      exact h.size
    · rw [hadd]
      exact h.lengths _ (by omega)
    · rw [hadd, Nat.sub_add_cancel hkn]
      exact h.last
  · intro h
    have hsize := h.size
    have hlast := h.last
    rw [hadd, Nat.sub_add_cancel hkn] at hsize hlast
    refine ⟨hsize, fun j hj => ?_, hlast⟩
    rcases lt_or_ge j k with hjk | hjk
    · rw [iterate_of_lt (by omega)]
      exact toInt_sub (by omega)
    · have hpos := h.lengths (j - k) (by omega)
      rw [hadd, Nat.sub_add_cancel hjk] at hpos
      exact hpos

/-- Where the vector and what is pending are less than 2 GiB, a free space that is not
zero is enough. -/
theorem roomFor_of_lt {room size n : ℕ} (hroom : 0 < room) (hle : room ≤ size)
    (hlt : size + n < 2 ^ 31) : RoomFor (room, size) n := by
  have hpos : ∀ k ≤ n, 0 < toInt (oneMore^[k] (room, size)).1 := by
    intro k hk
    obtain ⟨hsum, hpos, hbound⟩ := spaceAfter_iterate hroom hle k
    rw [(toInt_eq_iff _).2 (by omega)]
    omega
  refine ⟨?_, fun k hk => hpos k hk.le, (hpos n le_rfl).ne'⟩
  obtain ⟨hsum, hpos, hbound⟩ := spaceAfter_iterate hroom hle n
  unfold Buffer.maxSize
  omega

/-! ### One pass -/

/-- The free space and the size of the vector. -/
def space (b : Buffer) : ℕ × ℕ := (b.room, b.size)

/-- Bytes stored at the write index, and `advance` over them. -/
theorem advance_store {b : Buffer} (hsize : b.size ≤ Buffer.maxSize) {data : List UInt8}
    (hle : b.writeIndex + data.length ≤ b.size) :
    ({ b with buffer := writeAt b.buffer b.writeIndex data } : Buffer).advance data.length =
      { b with
        buffer := writeAt b.buffer b.writeIndex data
        writeIndex := b.writeIndex + data.length } := by
  have hstored : (writeAt b.buffer b.writeIndex data).length = b.size := length_writeAt ..
  unfold Buffer.maxSize at hsize
  have hwritable : subSize b.size b.writeIndex = b.size - b.writeIndex :=
    subSize_of_le (by omega) (by omega)
  unfold Buffer.advance Buffer.writableBytes
  rw [show Buffer.size { b with buffer := writeAt b.buffer b.writeIndex data } = b.size from
    hstored, hwritable]
  dsimp only
  split
  case isTrue => rw [addSize_of_lt (by omega)]
  case isFalse hfull => rw [show b.size = b.writeIndex + data.length by omega]

/-- **What has been read is put behind the readable bytes**, unless the vector cannot
grow. -/
theorem received_spec {b : Buffer} (h : b.Input) {data : List UInt8} (hpos : 0 < data.length)
    (hle : data.length ≤ b.room) :
    (received b data = none ∧ Buffer.maxSize < (oneMore^[data.length] (space b)).2) ∨
      ∃ b', received b data = some b' ∧ b'.Input ∧
        space b' = oneMore^[data.length] (space b) ∧ b'.readable = b.readable ++ data := by
  obtain ⟨hin, hroom, hsize, hreadable⟩ := h.room_fill hle
  have hwrite := h.write_le
  have hfit : b.writeIndex + data.length ≤ b.size := by
    unfold Buffer.room at hle
    omega
  have hmax := h.size_le
  unfold received
  dsimp only
  rw [advance_store hmax hfit, ← h.addSize_writeIndex (by omega), hin.writableBytes, hroom]
  unfold space
  split
  case isTrue hfull =>
    have hspace : oneMore^[data.length] (b.room, b.size) = (b.size, b.size + b.size) := by
      rw [show data.length = b.room by omega]
      exact iterate_of_eq (by omega)
    rw [hspace]
    rcases hin.grow (hroom.trans hfull) with
      ⟨hthrow, hens⟩ | ⟨b', hens, -, hin', hroom', hsize', hread'⟩
    · rw [hsize] at hthrow
      exact .inl ⟨hens, hthrow⟩
    · refine .inr ⟨b', hens, hin', ?_, hread'.trans hreadable⟩
      rw [hroom', hsize', hsize]
  case isFalse hfree =>
    refine .inr ⟨_, rfl, hin, ?_, hreadable⟩
    rw [hroom, hsize, iterate_of_lt (by omega)]

/-- A pass that reads nothing. -/
theorem pass_of_nonpos {len : ℤ} (hlen : toInt d.buf.writableBytes = len)
    (hn : (src.read d.source len).1 ≤ 0) :
    pass src d = some { d with
      n := (src.read d.source len).1
      source := (src.read d.source len).2
      lengths := d.lengths ++ [len] } := by
  unfold pass
  rw [hlen]
  exact if_neg (not_lt.2 hn)

/-- **A pass that reads something.** -/
theorem pass_of_pos (h : d.buf.Input) {n : ℤ}
    (hread : (src.read d.source (toInt d.buf.room)).1 = n) (hn : 0 < n) :
    (pass src d = none ∧ (2 ^ 31 ≤ d.count + n ∨
        Buffer.maxSize < (oneMore^[n.toNat] (space d.buf)).2)) ∨
      ∃ d', pass src d = some d' ∧ d'.n = n ∧ d'.count = d.count + n ∧ d.count + n < 2 ^ 31 ∧
        d'.lengths = d.lengths ++ [toInt d.buf.room] ∧ d'.buf.Input ∧
        space d'.buf = oneMore^[n.toNat] (space d.buf) ∧
        d'.buf.readable = d.buf.readable ++ (src.pending d.source).take n.toNat := by
  have hlen : n ≤ toInt d.buf.room := hread ▸ src.read_le _ _ (hread ▸ hn)
  have hpending : n ≤ (src.pending d.source).length := hread ▸ src.read_le_pending _ _
  have hle := toInt_le (n := (d.buf.room : ℤ)) (by omega)
  have hdlen : ((src.pending d.source).take n.toNat).length = n.toNat := by
    rw [List.length_take]
    omega
  have hroom : n.toNat ≤ d.buf.room := by omega
  have hstore : d.buf.writeIndex + n.toNat ≤ d.buf.size := by
    have hwrite := h.write_le
    unfold Buffer.room at hroom
    omega
  unfold pass
  dsimp only
  rw [h.writableBytes, hread, if_pos hn, hdlen]
  by_cases hcount : 2 ^ 31 ≤ d.count + n
  · exact .inl ⟨if_pos (.inr hcount), .inl hcount⟩
  · rw [if_neg (not_or.2 ⟨not_lt.2 hstore, hcount⟩)]
    have hspec := received_spec h (hdlen.symm ▸ by omega : 0 < _) (hdlen.symm ▸ hroom)
    rw [hdlen] at hspec
    rcases hspec with ⟨hnone, hthrow⟩ | ⟨b', hsome, hin, hspace, hreadable⟩
    · rw [hnone]
      exact .inl ⟨rfl, .inr hthrow⟩
    · rw [hsome]
      exact .inr ⟨_, rfl, rfl, rfl, not_le.1 hcount, rfl, hin, hspace, hreadable⟩

/-! ### The loop -/

theorem drain_of_none (h : pass src d = none) : drain src d = none := by
  rw [drain]
  split
  · rfl
  · next d' h' => rw [h] at h'; cases h'

theorem drain_of_some (h : pass src d = some d') :
    drain src d = if 0 < d'.n then drain src d' else some d' := by
  rw [drain]
  split
  · next h' => rw [h] at h'; cases h'
  · next d₁ h' =>
    rw [Option.some.inj (h.symm.trans h')]
    rfl

/-- What the loop is for: nothing is left, everything is behind the readable bytes, and
no read has been asked for no bytes.  That the indices of the buffer are in order
afterwards (`input`) is what the next call needs of it. -/
structure Emptied (src : Source σ) (d d' : Drain σ) : Prop where
  input : d'.buf.Input
  readable : d'.buf.readable = d.buf.readable ++ src.pending d.source
  pending : src.pending d'.source = []
  lengths : 0 ∉ d'.lengths

/-- A read that delivers nothing, seen from the length it was asked for. -/
theorem nonpos_iff {s : σ} {len : ℤ} :
    (src.read s len).1 ≤ 0 ↔ src.pending s = [] ∨ len ≤ 0 := by
  constructor
  · intro hn
    by_contra hne
    obtain ⟨hpending, hlen⟩ := not_or.1 hne
    exact absurd (src.read_pos s len hpending (not_le.1 hlen)) (not_lt.2 hn)
  · rintro (hpending | hlen)
    · have hle := src.read_le_pending s len
      rw [hpending, List.length_nil] at hle
      exact hle
    · by_contra hn
      have hle := src.read_le s len (not_le.1 hn)
      omega

/-- The last pass has done its work exactly where nothing is pending and it asked for
something. -/
theorem emptied_last (h : d.buf.Input) (hcount : d.count < 2 ^ 31) (hlengths : 0 ∉ d.lengths)
    (hn : (src.read d.source (toInt d.buf.room)).1 ≤ 0) :
    (∃ d', drain src d = some d' ∧ Emptied src d d') ↔
      d.count + (src.pending d.source).length < 2 ^ 31 ∧
        RoomFor (space d.buf) (src.pending d.source).length := by
  have hlen : toInt d.buf.writableBytes = toInt d.buf.room := by rw [h.writableBytes]
  have hpass := pass_of_nonpos hlen hn
  have hpending := src.pending_read d.source (toInt d.buf.room)
  rw [Int.toNat_of_nonpos hn, List.drop_zero] at hpending
  rw [drain_of_some hpass, if_neg (not_lt.2 hn)]
  constructor
  · rintro ⟨d', hd', hemptied⟩
    obtain rfl := Option.some.inj hd'
    have hnil : src.pending d.source = [] := hpending.symm.trans hemptied.pending
    have hzero : toInt d.buf.room ≠ 0 := fun hzero =>
      hemptied.lengths (List.mem_append_right _ (hzero ▸ List.mem_singleton_self _))
    rw [hnil, List.length_nil]
    refine ⟨by omega, h.size_le, fun k hk => absurd hk (Nat.not_lt_zero k), hzero⟩
  · rintro ⟨-, hroom⟩
    have hnil : src.pending d.source = [] := by
      rcases nonpos_iff.1 hn with hnil | hle
      · exact hnil
      · by_contra hne
        exact absurd (hroom.lengths 0 (List.length_pos_iff.2 hne)) (not_lt.2 hle)
    have hlast := hroom.last
    rw [hnil] at hlast
    refine ⟨_, rfl, h, ?_, hpending.trans hnil, fun hmem => ?_⟩
    · rw [hnil, List.append_nil]
    · rcases List.mem_append.1 hmem with hmem | hmem
      · exact hlengths hmem
      · exact hlast (List.mem_singleton.1 hmem).symm

/-- **The loop empties its source exactly where there is room for what is pending**, and
the count does not overflow.  By induction on what is pending: each pass that reads
something is the first `n` bytes of it. -/
theorem emptied_iff (h : d.buf.Input) (hcount : d.count < 2 ^ 31) (hlengths : 0 ∉ d.lengths) :
    (∃ d', drain src d = some d' ∧ Emptied src d d') ↔
      d.count + (src.pending d.source).length < 2 ^ 31 ∧
        RoomFor (space d.buf) (src.pending d.source).length := by
  obtain ⟨m, hm⟩ : ∃ m, m = (src.pending d.source).length := ⟨_, rfl⟩
  induction m using Nat.strongRecOn generalizing d with
  | ind m ih =>
    rcases le_or_gt (src.read d.source (toInt d.buf.room)).1 0 with hn | hn
    · exact emptied_last h hcount hlengths hn
    · obtain ⟨n, hread⟩ : ∃ n, (src.read d.source (toInt d.buf.room)).1 = n := ⟨_, rfl⟩
      rw [hread] at hn
      have hlen : n ≤ toInt d.buf.room := hread ▸ src.read_le _ _ (hread ▸ hn)
      have hle : n ≤ (src.pending d.source).length := hread ▸ src.read_le_pending _ _
      rcases pass_of_pos h hread hn with
        ⟨hnone, hbad⟩ | ⟨d₁, hsome, hn₁, hcount₁, hfit, hlengths₁, hin, hspace, hreadable⟩
      · rw [drain_of_none hnone]
        refine iff_of_false (fun ⟨_, hd', _⟩ => by cases hd') fun ⟨hsum, hroom⟩ => ?_
        rcases hbad with hbad | hbad
        · omega
        · have hsize := hroom.size
          have hmono : (oneMore^[n.toNat] (space d.buf)).2 ≤ _ :=
            size_le_iterate (Int.toNat_le.2 hle)
          omega
      · obtain ⟨-, hpending⟩ := pass_read hsome
        rw [hn₁] at hpending
        have hpos : 0 < d₁.n := hn₁ ▸ hn
        have hless := length_pending_pass hsome hpos
        have hlen₁ : (src.pending d₁.source).length =
            (src.pending d.source).length - n.toNat := by
          rw [hpending, List.length_drop]
        have hlengths' : 0 ∉ d₁.lengths := by
          rw [hlengths₁]
          intro hmem
          rcases List.mem_append.1 hmem with hmem | hmem
          · exact hlengths hmem
          · have hzero := List.mem_singleton.1 hmem
            omega
        have hemptied : ∀ d', Emptied src d d' ↔ Emptied src d₁ d' := by
          have hall : d₁.buf.readable ++ src.pending d₁.source =
              d.buf.readable ++ src.pending d.source := by
            rw [hreadable, hpending, List.append_assoc, List.take_append_drop]
          exact fun d' => ⟨fun he => ⟨he.input, he.readable.trans hall.symm, he.pending,
            he.lengths⟩,
            fun he => ⟨he.input, he.readable.trans hall, he.pending, he.lengths⟩⟩
        have hih := ih _ (hm ▸ hless) hin (hcount₁ ▸ hfit) hlengths' rfl
        rw [drain_of_some hsome, if_pos hpos]
        simp only [hemptied]
        have hroom : RoomFor (space d.buf) _ ↔ RoomFor (oneMore^[n.toNat] (space d.buf)) _ :=
          roomFor_iff (by omega : (n.toNat : ℤ) ≤ toInt d.buf.room) (Int.toNat_le.2 hle)
        rw [hih, hcount₁, hlen₁, hspace, ← hroom]
        refine and_congr_left fun _ => ?_
        omega

/-! ### Buffers whose indices are out of order -/

/-- The indices are a `size_t`, and the vector is no larger than a vector can be. -/
structure Sized (b : Buffer) : Prop where
  read_lt : b.readIndex < 2 ^ 64
  write_lt : b.writeIndex < 2 ^ 64
  size_le : b.size ≤ Buffer.maxSize

/-- Where only the write index has moved, and the indices have come in order by that,
not all that it has moved over is readable. -/
theorem length_readable_lt {b b' : Buffer} (hsize : b.size ≤ Buffer.maxSize) {n : ℕ}
    (hpos : 0 < n) (hfit : b.writeIndex + n ≤ b.size) (hread : b'.readIndex = b.readIndex)
    (hwrite : b'.writeIndex = b.writeIndex + n) (hb : ¬ b.Input) (hb' : b'.Input) :
    b'.readable.length < n := by
  have hle := hb'.read_le
  have hpre := hb'.prepends_le_read
  rw [hb'.toOk.length_readable]
  rw [hread] at hle hpre ⊢
  rw [hwrite] at hle ⊢
  by_contra hge
  exact hb ⟨⟨by omega, by omega, by omega, hsize⟩, hpre⟩

/-- What has been read does not put the indices in order without losing some of it: a
full vector whose read index is out of order is grown, or its bytes are moved out of
it. -/
theorem received_of_not_input {b b' : Buffer} (h : Sized b) {data : List UInt8}
    (hpos : 0 < data.length) (hfit : b.writeIndex + data.length ≤ b.size)
    (hb : received b data = some b') :
    Sized b' ∧ (¬ b.Input → b'.Input → b'.readable.length < data.length) := by
  obtain ⟨hread, hwrite, hsize⟩ := h
  obtain ⟨v, hv⟩ : ∃ v, v = writeAt b.buffer b.writeIndex data := ⟨_, rfl⟩
  have hstored : v.length = b.size := hv ▸ length_writeAt ..
  unfold received at hb
  dsimp only at hb
  rw [advance_store hsize hfit, ← hv] at hb
  have hlt := hsize
  unfold Buffer.maxSize at hlt
  have hwritable : subSize v.length (b.writeIndex + data.length) =
      b.size - (b.writeIndex + data.length) := by
    rw [hstored]
    exact subSize_of_le hfit (by omega)
  split at hb
  case isFalse =>
    rw [← Option.some.inj hb]
    exact ⟨⟨hread, by dsimp only; omega, hstored.trans_le hsize⟩,
      length_readable_lt hsize hpos hfit rfl rfl⟩
  case isTrue hfull =>
    have hend : b.writeIndex + data.length = b.size := by
      unfold Buffer.writableBytes Buffer.size at hfull
      dsimp only at hfull
      rw [hwritable] at hfull
      omega
    unfold Buffer.ensureSpace at hb
    rw [hfull, if_neg (by unfold Buffer.size; dsimp only; omega)] at hb
    split at hb
    case isTrue hgrow =>
      obtain ⟨w, hw, rfl⟩ := Option.map_eq_some_iff.1 hb
      obtain ⟨hmax, -⟩ := Buffer.resize_eq_some.1 hw
      exact ⟨⟨hread, by dsimp only; omega, (Buffer.length_resize hw).trans_le hmax⟩,
        length_readable_lt hsize hpos hfit rfl rfl⟩
    case isFalse hmove =>
      -- the read index is below `prepends`, or beyond the vector by `prepends` or more
      have hsum : b.readIndex < 8 ∨ b.size + 8 ≤ b.readIndex := by
        unfold Buffer.prependableBytes Buffer.prepends Buffer.size addSize subSize at hmove
        dsimp only at hmove
        rw [hstored] at hmove
        omega
      rw [← Option.some.inj hb]
      refine ⟨⟨(by decide : 8 < 2 ^ 64), Nat.mod_lt _ (by decide), ?_⟩, fun _ hin => ?_⟩
      · exact (length_writeAt ..).trans_le (hstored.trans_le hsize)
      · have hle := hin.read_le
        have hge : _ ≤ v.length := hin.write_le.trans_eq (length_writeAt ..)
        unfold Buffer.readableBytes Buffer.prepends addSize subSize at hle hge
        dsimp only at hle hge
        omega

/-- A pass that reads something, of any buffer. -/
theorem pass_of_not_input (h : Sized d.buf) (hpass : pass src d = some d') (hn : 0 < d'.n) :
    Sized d'.buf ∧ (¬ d.buf.Input → d'.buf.Input →
      d'.buf.readable.length + (src.pending d'.source).length <
        (src.pending d.source).length) := by
  obtain ⟨heq, hpending⟩ := pass_read hpass
  have hle := src.read_le_pending d.source (toInt d.buf.writableBytes)
  have hdlen : ((src.pending d.source).take d'.n.toNat).length = d'.n.toNat := by
    rw [List.length_take]
    omega
  unfold pass at hpass
  dsimp only at hpass
  rw [← heq, if_pos hn, hdlen] at hpass
  obtain ⟨hfit, hpass⟩ := Option.ite_none_left_eq_some.1 hpass
  obtain ⟨buf, hbuf, hd'⟩ := Option.map_eq_some_iff.1 hpass
  obtain ⟨hsized, hlost⟩ := received_of_not_input h (by omega) (by omega) hbuf
  have hbuf' : d'.buf = buf := hd' ▸ rfl
  rw [hbuf', hpending, List.length_drop]
  refine ⟨hsized, fun hnot hin => ?_⟩
  have hlt := hlost hnot hin
  omega

/-- Whatever the loop does, it keeps the indices of a buffer in order, and puts no more
behind the readable bytes than was pending. -/
theorem length_readable_drain (h : d.buf.Input) (hd' : drain src d = some d') :
    d'.buf.readable.length ≤ d.buf.readable.length + (src.pending d.source).length := by
  obtain ⟨m, hm⟩ : ∃ m, m = (src.pending d.source).length := ⟨_, rfl⟩
  induction m using Nat.strongRecOn generalizing d with
  | ind m ih =>
    rcases le_or_gt (src.read d.source (toInt d.buf.room)).1 0 with hn | hn
    · have hlen : toInt d.buf.writableBytes = toInt d.buf.room := by rw [h.writableBytes]
      rw [drain_of_some (pass_of_nonpos hlen hn), if_neg (not_lt.2 hn)] at hd'
      rw [← Option.some.inj hd']
      exact Nat.le_add_right ..
    · obtain ⟨n, hread⟩ : ∃ n, (src.read d.source (toInt d.buf.room)).1 = n := ⟨_, rfl⟩
      rw [hread] at hn
      rcases pass_of_pos h hread hn with
        ⟨hnone, -⟩ | ⟨d₁, hsome, hn₁, -, -, -, hin, -, hreadable⟩
      · rw [drain_of_none hnone] at hd'
        cases hd'
      · have hpos : 0 < d₁.n := hn₁ ▸ hn
        rw [drain_of_some hsome, if_pos hpos] at hd'
        have hih := ih _ (hm ▸ length_pending_pass hsome hpos) hin hd' rfl
        obtain ⟨-, hpending⟩ := pass_read hsome
        rw [hreadable, hpending, hn₁, List.length_append, List.length_take,
          List.length_drop] at hih
        omega

/-- **A buffer whose indices are out of order is never what it should be after the
loop.** -/
theorem not_emptied (h : Sized d.buf) (hnot : ¬ d.buf.Input) (hd' : drain src d = some d')
    (hin : d'.buf.Input) : d'.buf.readable.length < (src.pending d.source).length := by
  obtain ⟨m, hm⟩ : ∃ m, m = (src.pending d.source).length := ⟨_, rfl⟩
  induction m using Nat.strongRecOn generalizing d with
  | ind m ih =>
    rcases hpass : pass src d with _ | d₁
    · rw [drain_of_none hpass] at hd'
      cases hd'
    · rw [drain_of_some hpass] at hd'
      split at hd'
      case isTrue hn =>
        obtain ⟨hsized, hlost⟩ := pass_of_not_input h hpass hn
        have hless := length_pending_pass hpass hn
        by_cases hin₁ : d₁.buf.Input
        · have hlt := hlost hnot hin₁
          have hle := length_readable_drain hin₁ hd'
          omega
        · exact (ih _ (hm ▸ hless) hsized hin₁ hd' rfl).trans hless
      case isFalse hn =>
        -- nothing has been read: the buffer is as it was
        obtain ⟨heq, -⟩ := pass_read hpass
        have hlast := pass_of_nonpos rfl (heq ▸ not_lt.1 hn)
        have hsame : d'.buf = d.buf := by
          rw [← Option.some.inj hd', ← Option.some.inj (hlast.symm.trans hpass)]
        exact absurd (hsame ▸ hin) hnot

/-! ### The calls -/

theorem sized_of_input {b : Buffer} (h : b.Input) : Sized b := by
  have hread := h.read_le
  have hwrite := h.write_le
  have hsize := h.size_le
  have hlt := h.toOk.lt
  exact ⟨by omega, by omega, hsize⟩

theorem sized_ensureSpace {b b' : Buffer} (h : Sized b) {len : ℕ}
    (hb : b.ensureSpace len = some b') : Sized b' := by
  unfold Buffer.ensureSpace at hb
  split_ifs at hb with hroom hgrow
  · exact Option.some.inj hb ▸ h
  · obtain ⟨v, hv, rfl⟩ := Option.map_eq_some_iff.1 hb
    exact ⟨h.read_lt, h.write_lt,
      (Buffer.length_resize hv).trans_le (Buffer.resize_eq_some.1 hv).1⟩
  · rw [← Option.some.inj hb]
    exact ⟨(by decide : 8 < 2 ^ 64), Nat.mod_lt _ (by decide),
      (length_writeAt ..).trans_le h.size_le⟩

theorem new_tmpBuf {b : Buffer} (hb : Buffer.new Buffer.initialSize = some b) :
    b.Input ∧ b.readable = [] ∧ b.room = 1024 ∧ b.size = 1032 := by
  obtain ⟨hin, -⟩ := Buffer.Input.new (by decide) hb
  obtain ⟨-, hsize, hread, hwrite⟩ := Buffer.ok_new (by decide) hb
  refine ⟨hin, ?_, ?_, hsize⟩
  · rw [Buffer.readable, hread, hwrite, slice_self]
  · rw [Buffer.room, hsize, hwrite]
    rfl

/-- The buffer of a call has indices of the right type. -/
def Caller.Sized : Caller → Prop
  | .tmpBuf => True
  | .member data _ => Ssl.Sized data
  | .outbuf buf => Ssl.Sized buf

theorem Caller.Sized.start {c : Caller} (h : c.Sized) {buf : Buffer} (hbuf : c.start = some buf) :
    Ssl.Sized buf := by
  cases c with
  | tmpBuf => exact sized_of_input (new_tmpBuf hbuf).1
  | member data inBytes =>
    unfold Caller.start presize at hbuf
    dsimp only at hbuf
    split at hbuf
    case isTrue => exact sized_ensureSpace h hbuf
    case isFalse => exact Option.some.inj hbuf ▸ h
  | outbuf b => exact Option.some.inj hbuf ▸ h

/-- **What the first step of `encrypt(inbuf)` and `decrypt(inbuf)` is for.**  With a
byte of input there is room afterwards, and the readable bytes are the same. -/
theorem presize_spec {data buf : Buffer} (h : data.Input) {inBytes : ℕ} (hpos : 0 < inBytes)
    (hmax : inBytes ≤ Buffer.maxSize) (hbuf : presize data inBytes = some buf) :
    buf.Input ∧ 0 < buf.room ∧ buf.readable = data.readable := by
  unfold presize at hbuf
  dsimp only at hbuf
  rw [h.writableBytes] at hbuf
  split at hbuf
  case isTrue hlt =>
    have hlen : subSize inBytes data.room = inBytes - data.room :=
      subSize_of_le hlt.le (by unfold Buffer.maxSize at hmax; omega)
    rw [hlen] at hbuf
    have hmax' : inBytes - data.room ≤ Buffer.maxSize := by omega
    obtain ⟨hin, hreadable⟩ := h.ensureSpace (h.not_wraps hmax') hbuf
    refine ⟨hin, ?_, hreadable⟩
    rw [h.room_ensureSpace hmax' hbuf]
    split_ifs <;> omega
  case isFalse hge =>
    rw [← Option.some.inj hbuf]
    exact ⟨h, by omega, rfl⟩

/-- What `bioRead` and `sslRead` are for, in a call: they end, both in the same way, with
everything that is pending behind what was readable in the buffer that they were
given. -/
def Drained (src : Source σ) (s : σ) (c : Caller) : Prop :=
  ∃ buf, c.start = some buf ∧ ∃ d, drain src (.begin s buf) = some d ∧
    bioRead src s buf = some (if 0 < d.count then d.count else d.n, d.buf, d.source) ∧
    sslRead src s buf = some (d.n, d.buf, d.source) ∧ Emptied src (.begin s buf) d

/-- When a call does that for `n` pending bytes: its buffer has its indices in order,
there is room for the bytes, and an `int` can count them. -/
def Drainable (c : Caller) (n : ℕ) : Prop :=
  ∃ buf, c.start = some buf ∧ buf.Input ∧ n < 2 ^ 31 ∧ RoomFor (space buf) n

theorem emptied_begin_iff {buf : Buffer} (h : buf.Input) (s : σ) :
    (∃ d, drain src (.begin s buf) = some d ∧ Emptied src (.begin s buf) d) ↔
      (src.pending s).length < 2 ^ 31 ∧ RoomFor (space buf) (src.pending s).length := by
  have hzero : ((0 : ℤ) + (src.pending s).length < 2 ^ 31) ↔ (src.pending s).length < 2 ^ 31 := by
    omega
  rw [← hzero]
  exact @emptied_iff σ src (.begin s buf) h (by decide : (0 : ℤ) < 2 ^ 31) List.not_mem_nil

/-- The two functions return where their loop ends. -/
theorem bioRead_of_drain {s : σ} {buf : Buffer} (h : drain src (.begin s buf) = some d) :
    bioRead src s buf = some (if 0 < d.count then d.count else d.n, d.buf, d.source) := by
  rw [bioRead, h, Option.map_some]

theorem sslRead_of_drain {s : σ} {buf : Buffer} (h : drain src (.begin s buf) = some d) :
    sslRead src s buf = some (d.n, d.buf, d.source) := by
  rw [sslRead, h, Option.map_some]

/-- **When the loops take everything.**  For every buffer, everything that can be
pending and every way in which it can be delivered, `bioRead` and `sslRead` end with
exactly the pending bytes behind the readable ones, and without having asked for no
bytes, if and only if the free space stays positive as an `int`, and the count is one. -/
theorem drained_iff {c : Caller} (hc : c.Sized) (src : Source σ) (s : σ) :
    Drained src s c ↔ Drainable c (src.pending s).length := by
  refine exists_congr fun buf => and_congr_right fun hbuf => ?_
  by_cases hin : buf.Input
  · rw [and_iff_right hin, ← emptied_begin_iff hin]
    refine exists_congr fun d => and_congr_right fun hd => ?_
    rw [and_iff_right (bioRead_of_drain hd), and_iff_right (sslRead_of_drain hd)]
  · refine iff_of_false ?_ fun h => hin h.1
    rintro ⟨d, hd, -, -, hemptied⟩
    have hlt := not_emptied (hc.start hbuf) hin hd hemptied.input
    rw [hemptied.readable, List.length_append] at hlt
    exact absurd (Nat.le_add_left ..) (not_le.2 hlt)

/-- Below 2 GiB a call takes everything, unless it is given a full buffer. -/
theorem drainable_of_lt {c : Caller} {buf : Buffer} {n : ℕ} (hbuf : c.start = some buf)
    (h : buf.Input) (hroom : 0 < buf.room) (hlt : buf.size + n < 2 ^ 31) : Drainable c n :=
  ⟨buf, hbuf, h, by omega, roomFor_of_lt hroom (Nat.sub_le ..) hlt⟩

/-- **`encrypt(inbuf)` and `decrypt(inbuf)` take everything** where the vector, the input
and what is pending are less than 2 GiB together, and there is a byte of input. -/
theorem drainable_member {data : Buffer} (h : Buffer.Reached
    (fun n => Buffer.prepends + n < 2 ^ 64) Buffer.Behind data) {inBytes n : ℕ}
    (hpos : 0 < inBytes) (hlt : data.size + inBytes + n < 2 ^ 31) :
    Drainable (.member data inBytes) n := by
  have hin := Buffer.input_of_reached h
  have hwrite := hin.write_le
  have hmax : inBytes ≤ Buffer.maxSize := by
    unfold Buffer.maxSize
    omega
  obtain ⟨buf, hbuf, hsize⟩ :
      ∃ buf, presize data inBytes = some buf ∧ buf.size ≤ data.size + inBytes := by
    unfold presize
    dsimp only
    rw [hin.writableBytes]
    split
    case isTrue hshort =>
      have hlen : subSize inBytes data.room = inBytes - data.room :=
        subSize_of_le hshort.le (by omega)
      have hmax' : inBytes - data.room ≤ Buffer.maxSize := by omega
      rw [hlen]
      cases hens : data.ensureSpace (inBytes - data.room) with
      | none =>
        have hthrow := ((hin.ensureSpace_eq_none hmax').1 hens).2.2
        unfold Buffer.maxSize at hthrow
        omega
      | some buf =>
        have hgrow := hin.size_ensureSpace hmax' hens
        exact ⟨buf, rfl, by omega⟩
    case isFalse => exact ⟨data, rfl, Nat.le_add_right ..⟩
  obtain ⟨hin', hroom, -⟩ := presize_spec hin hpos hmax hbuf
  exact drainable_of_lt hbuf hin' hroom (by omega)

/-- **`SslCodec` takes everything** where less than 2 GiB are pending, the size of
`tmpBuf` apart. -/
theorem drainable_tmpBuf {n : ℕ} (hn : n < 2 ^ 31 - 1032) : Drainable .tmpBuf n := by
  obtain ⟨buf, hbuf⟩ := Buffer.exists_new (n := Buffer.initialSize) (by decide)
  obtain ⟨hin, -, hroom, hsize⟩ := new_tmpBuf hbuf
  exact drainable_of_lt hbuf hin (by omega) (by omega)

/-- A memory BIO, which delivers all that fits. -/
def memBio : Source (List UInt8) where
  pending := id
  read s len :=
    if s = [] ∨ len ≤ 0 then (-1, s)
    else (min len s.length, s.drop (min len s.length).toNat)
  read_le s len := by
    split
    case isTrue => exact fun h => absurd h (by decide : ¬ (0 : ℤ) < -1)
    case isFalse => exact fun _ => min_le_left ..
  read_le_pending s len := by
    split
    case isTrue => exact (by decide : (-1 : ℤ) ≤ 0).trans (Int.natCast_nonneg _)
    case isFalse => exact min_le_right ..
  read_pos s len hs hlen := by
    have hne : ¬ (s = [] ∨ len ≤ 0) := not_or.2 ⟨hs, not_le.2 hlen⟩
    rw [if_neg hne]
    exact lt_min hlen (Int.natCast_pos.2 (List.length_pos_iff.2 hs))
  pending_read s len := by
    split
    case isTrue => rfl
    case isFalse => rfl

/-- Three bytes of a handshake, for `SslCodec` and for `decrypt` of one byte. -/
theorem drained_handshake : Drained memBio [22, 3, 1] .tmpBuf ∧
    ∃ data, Buffer.new Buffer.initialSize = some data ∧
      Drained memBio [22, 3, 1] (.member data 1) := by
  refine ⟨(drained_iff (by trivial) memBio [22, 3, 1]).2 (drainable_tmpBuf (by decide)), ?_⟩
  obtain ⟨data, hdata⟩ := Buffer.exists_new (n := Buffer.initialSize) (by decide)
  obtain ⟨hin, -, -, hsize⟩ := new_tmpBuf hdata
  have hsized : Caller.Sized (.member data 1) := sized_of_input hin
  refine ⟨data, hdata, (drained_iff hsized memBio [22, 3, 1]).2 ?_⟩
  exact drainable_member (.new (by decide) hdata) Nat.one_pos (by rw [hsize]; decide)

/-- A buffer of 4 GiB: `SSL_read` is asked for no bytes, and the one that is pending is
left. -/
theorem not_drained_4GiB : ∃ data, Buffer.new (2 ^ 32) = some data ∧
    toInt data.writableBytes = 0 ∧ ¬ Drained memBio [7] (.member data 1) := by
  obtain ⟨data, hdata⟩ := Buffer.exists_new (n := 2 ^ 32) (by decide)
  obtain ⟨hin, -⟩ := Buffer.Input.new (by decide) hdata
  obtain ⟨-, hsize, -, hwrite⟩ := Buffer.ok_new (by decide) hdata
  have hroom : data.room = 2 ^ 32 := by
    rw [Buffer.room, hsize, hwrite, Nat.add_sub_cancel_left]
  have hzero : toInt data.room = 0 := by
    rw [hroom]
    exact Int.bmod_self
  refine ⟨data, hdata, by rw [hin.writableBytes, hzero], ?_⟩
  rintro ⟨buf, hbuf, hdrain⟩
  have hsame : presize data 1 = some data := by
    unfold presize
    dsimp only
    rw [hin.writableBytes, hroom, if_neg (by decide)]
  obtain rfl := Option.some.inj (hsame.symm.trans hbuf)
  obtain ⟨d, hd, -, -, hemptied⟩ := hdrain
  obtain ⟨-, hfits⟩ := (emptied_begin_iff hin [7]).1 ⟨d, hd, hemptied⟩
  have hpos : 0 < toInt data.room := hfits.lengths 0 (by decide)
  omega

/-! ### What the codec sends -/

/-- **The codec's own drain.**  What `Flush.Conn.bioRead` does to the write BIO is what
`bioRead` does with `tmpBuf`, where it holds less than 2 GiB. -/
theorem bioRead_tmpBuf (conn : Flush.Conn) (wbio : Source σ) (s : σ)
    (hwbio : wbio.pending s = conn.wbio) (hlt : conn.wbio.length < 2 ^ 31 - 1032) :
    ∃ n tmpBuf s', (Buffer.new Buffer.initialSize).bind (bioRead wbio s) = some (n, tmpBuf, s') ∧
      conn.bioRead = { conn with
        wbio := wbio.pending s'
        sent := conn.sent ++ tmpBuf.readable } := by
  obtain ⟨buf, hbuf, hin, hfits⟩ := drainable_tmpBuf hlt
  obtain ⟨-, hempty, -, -⟩ := new_tmpBuf hbuf
  rw [← hwbio] at hfits
  obtain ⟨d, hd, hemptied⟩ := (emptied_begin_iff hin s).2 hfits
  refine ⟨if 0 < d.count then d.count else d.n, d.buf, d.source, ?_, ?_⟩
  · change Caller.tmpBuf.start.bind _ = _
    rw [hbuf, Option.bind_some, bioRead_of_drain hd]
  · have hreadable : d.buf.readable = conn.wbio := by
      rw [hemptied.readable]
      change buf.readable ++ wbio.pending s = _
      rw [hempty, hwbio, List.nil_append]
    rw [hemptied.pending, hreadable]
    rfl

end Ssl
end Net
end Sevent
