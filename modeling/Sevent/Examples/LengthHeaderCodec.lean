/-
# `LengthHeaderCodec`

`examples/chat/LengthHeaderCodec.h`.

A message is sent with its length in front, 4 bytes in network order, which
`send` puts into the bytes that a `Buffer` reserves.  `onMessage` takes messages
out of the input buffer as long as there are whole ones; a length below 0 or
above 65536 shuts the connection down, and is left in the buffer.

`lengthHeader` is what the codec is for: a reader of frames.  The loop of
`onMessage`, on a buffer wherever its indices are, does what the reader does on
the readable bytes (`onMessage_total`).  So what is handed over depends on the
bytes that came and not on how they were cut (`codec_decodes`), and what `send`
has written is handed over as it was (`codec_round_trip`).
-/

import Sevent.Lib.Framing
import Sevent.Lib.Run
import Sevent.Net.BufferInts
import Sevent.Net.BufferRoom

namespace Sevent
namespace Examples
namespace LengthHeaderCodec

open Net Bytes Framing Transition

/-! ### The codec -/

/-- `headerLen`. -/
def headerLen : ℕ := 4

/-- `LengthHeaderCodec::send`: the buffer that is given to the connection. -/
def send (msg : List UInt8) : Option Buffer := do
  let buf ← Buffer.new Buffer.initialSize
  let buf ← buf.append msg
  return buf.prependInt32 (toSigned 4 (msg.length % 256 ^ 4))

/-- A connection that receives: its input buffer, the calls of `onMessageStr`,
and whether `shutdown` has been called. -/
structure Receiver where
  inputBuf : Buffer
  messages : List (List UInt8)
  shutdown : Bool
  deriving DecidableEq

/-- The loop of `LengthHeaderCodec::onMessage`, `none` when it takes more rounds
than the bound. -/
def onMessage (p : Platform) : ℕ → Receiver → Option Receiver
  | 0, _ => none
  | fuel + 1, conn =>
    let buf := conn.inputBuf
    if headerLen ≤ buf.readableBytes then
      let len := buf.peekInt p .int32
      if 65536 < len ∨ len < 0 then some { conn with shutdown := true }
      else if len.toNat + headerLen ≤ buf.readableBytes then
        let buf := buf.retrieve headerLen
        let message := buf.peek len.toNat
        onMessage p fuel { conn with
          inputBuf := buf.retrieve len.toNat
          messages := conn.messages ++ [message] }
      else some conn
    else some conn

/-- A read from the connection, by the `readFd` of Linux, and the call of `onMessage`
after it. -/
def receive (p : Platform) (conn : Receiver) (data : List UInt8) : Option Receiver :=
  if data.length ≤ conn.inputBuf.offered then
    (conn.inputBuf.readFd data).bind fun buf =>
      onMessage p (buf.readableBytes + 1) { conn with inputBuf := buf }
  else none

/-! ### What it is for -/

/-- The header. -/
def lengthOf (a : List UInt8) : ℤ := toSigned 4 (ofMem (a.take 4).reverse)

/-- A message with its length in front. -/
def encode (msg : List UInt8) : List UInt8 := bigEndian 4 msg.length ++ msg

/-- The front of a stream. -/
def front (a : List UInt8) : Front UInt8 (List UInt8) :=
  if a.length < headerLen then .wait
  else if 65536 < lengthOf a ∨ lengthOf a < 0 then .bad
  else if a.length < (lengthOf a).toNat + headerLen then .wait
  else .frame ((a.drop headerLen).take (lengthOf a).toNat)
    (a.drop ((lengthOf a).toNat + headerLen))

/-- The length is in the header alone. -/
theorem lengthOf_append {a : List UInt8} (h : headerLen ≤ a.length) (b : List UInt8) :
    lengthOf (a ++ b) = lengthOf a := by
  unfold headerLen at h
  unfold lengthOf
  rw [List.take_append_of_le_length h]

/-- What a frame at the front of the stream is: the header is there, its length
is within the bounds, and so are that many bytes behind it. -/
theorem front_eq_frame {a m r : List UInt8} (h : front a = .frame m r) :
    headerLen ≤ a.length ∧ 0 ≤ lengthOf a ∧ lengthOf a ≤ 65536 ∧
      (lengthOf a).toNat + headerLen ≤ a.length ∧
      m = (a.drop headerLen).take (lengthOf a).toNat ∧
      r = a.drop ((lengthOf a).toNat + headerLen) := by
  unfold front at h
  split_ifs at h with hshort hbad hrest
  obtain ⟨rfl, rfl⟩ := Front.frame.inj h
  exact ⟨not_lt.1 hshort, by omega, by omega, not_lt.1 hrest, rfl, rfl⟩

/-- A frame is there when its header is, its length is within the bounds, and
the bytes have come. -/
theorem front_of_frame {a : List UInt8} (hlen : headerLen ≤ a.length) (hlow : 0 ≤ lengthOf a)
    (hhigh : lengthOf a ≤ 65536) (hrest : (lengthOf a).toNat + headerLen ≤ a.length) :
    front a = .frame ((a.drop headerLen).take (lengthOf a).toNat)
      (a.drop ((lengthOf a).toNat + headerLen)) := by
  unfold front
  rw [if_neg (by omega), if_neg (by omega), if_neg (by omega)]

/-- **The reader of messages with a length.** -/
def lengthHeader : Reader UInt8 (List UInt8) where
  next := front
  next_nil := rfl
  shorter h := by
    obtain ⟨hlen, -, -, -, -, rfl⟩ := front_eq_frame h
    unfold headerLen at hlen
    rw [List.length_drop]
    unfold headerLen
    omega
  frame_append := by
    intro a m r b h
    obtain ⟨hlen, hlow, hhigh, hrest, rfl, rfl⟩ := front_eq_frame h
    have hsame := lengthOf_append hlen b
    rw [front_of_frame (by rw [List.length_append]; omega) (by rwa [hsame]) (by rwa [hsame])
      (by rw [hsame, List.length_append]; omega), hsame, List.drop_append_of_le_length hlen,
      List.take_append_of_le_length (by rw [List.length_drop]; omega),
      List.drop_append_of_le_length hrest]
  bad_append := by
    intro a b h
    unfold front at h
    split_ifs at h with hshort hbad
    unfold front
    rw [lengthOf_append (not_lt.1 hshort), if_neg (by rw [List.length_append]; omega), if_pos hbad]

/-- The integer in four bytes, written back, gives these bytes. -/
theorem bigEndian_ofMem {a : List UInt8} (h : a.length = 4) :
    bigEndian 4 (ofMem a.reverse) = a := by
  have hlen : a.reverse.length = 4 := by rw [List.length_reverse, h]
  rw [bigEndian_eq, ← hlen, memBytes_ofMem, List.reverse_reverse]

/-- A length that is not negative is the number in front. -/
theorem toNat_lengthOf {a : List UInt8} (h : 0 ≤ lengthOf a) :
    (lengthOf a).toNat = ofMem (a.take 4).reverse := by
  have hlt := ofMem_lt (a.take 4).reverse
  have hlen : (a.take 4).reverse.length ≤ 4 := by
    rw [List.length_reverse, List.length_take]
    exact min_le_left _ _
  have hbound : 256 ^ (a.take 4).reverse.length ≤ 256 ^ 4 := Nat.pow_le_pow_right (by norm_num) hlen
  unfold lengthOf toSigned at h ⊢
  split_ifs at h ⊢ with hhalf
  · rfl
  · omega

/-- A message in front of something. -/
theorem front_encode (msg rest : List UInt8) (h : msg.length ≤ 65536) :
    front (encode msg ++ rest) = .frame msg rest := by
  have hhead : (bigEndian 4 msg.length).length = 4 := by rw [bigEndian_eq]; simp
  have hlength : lengthOf (encode msg ++ rest) = msg.length := by
    unfold lengthOf encode
    rw [List.append_assoc, List.take_left' hhead, bigEndian_eq, List.reverse_reverse,
      ofMem_memBytes, Nat.mod_eq_of_lt (by omega)]
    unfold toSigned
    rw [if_pos (by omega)]
  have hall : (encode msg ++ rest).length = 4 + msg.length + rest.length := by
    unfold encode
    rw [List.length_append, List.length_append, hhead]
  rw [front_of_frame (by rw [hall]; unfold headerLen; omega) (by rw [hlength]; omega)
    (by rw [hlength]; omega) (by rw [hlength, hall]; unfold headerLen; omega), hlength]
  unfold encode headerLen
  rw [Int.toNat_natCast, List.append_assoc, List.drop_left' hhead, List.take_left,
    Nat.add_comm, ← List.drop_drop, List.drop_left' hhead, List.drop_left]

/-- Every frame is a message with its length in front, and not too long. -/
theorem encode_front {a m r : List UInt8} (h : front a = .frame m r) :
    a = encode m ++ r ∧ m.length ≤ 65536 := by
  obtain ⟨hlen, hlow, hhigh, hrest, rfl, rfl⟩ := front_eq_frame h
  unfold headerLen at hlen hrest
  have hmsg : ((a.drop headerLen).take (lengthOf a).toNat).length = (lengthOf a).toNat := by
    unfold headerLen
    rw [List.length_take, List.length_drop]
    omega
  have htake : (a.take 4).length = 4 := by
    rw [List.length_take]
    omega
  refine ⟨?_, by omega⟩
  unfold encode
  rw [hmsg, toNat_lengthOf hlow, bigEndian_ofMem htake, List.append_assoc, Nat.add_comm,
    ← List.drop_drop]
  unfold headerLen
  rw [List.take_append_drop, List.take_append_drop]

/-! ### The loop -/

variable {p : Platform} {conn : Receiver}

/-- What the loop peeks at is what the reader looks at. -/
theorem peekInt_lengthOf {buf : Buffer} (h : buf.Ok) (hlen : headerLen ≤ buf.readableBytes) :
    buf.peekInt p .int32 = lengthOf buf.readable := by
  have htake : (buf.readable.take 4).length = 4 := by
    unfold headerLen at hlen
    rw [List.length_take, h.length_readable, ← h.readableBytes_eq]
    omega
  unfold Buffer.peekInt lengthOf
  dsimp only
  rw [h.peek_eq_take 4 hlen, netToHost32_eq]
  have hmem := memBytes_ofMem (buf.readable.take 4)
  rw [htake] at hmem
  unfold htobe
  rw [hmem]

/-- What `onMessage` makes of the readable bytes. -/
structure Handled (conn conn' : Receiver) : Prop where
  input : conn'.inputBuf.Input
  messages : conn'.messages =
    conn.messages ++ (lengthHeader.decode conn.inputBuf.readable).msgs
  rest : conn'.inputBuf.readable = (lengthHeader.decode conn.inputBuf.readable).rest
  shutdown : conn'.shutdown =
    (conn.shutdown || (lengthHeader.decode conn.inputBuf.readable).bad)

/-- Too little has come for a frame, and `onMessage` waits. -/
theorem handled_wait (h : conn.inputBuf.Input) (hfront : front conn.inputBuf.readable = .wait) :
    Handled conn conn := by
  have hdecode := Reader.decode_wait (R := lengthHeader) hfront
  constructor
  · exact h
  · rw [hdecode, List.append_nil]
  · rw [hdecode]
  · rw [hdecode, Bool.or_false]

/-- The length at the front is out of its bounds, and the connection is shut
down. -/
theorem handled_bad (h : conn.inputBuf.Input) (hfront : front conn.inputBuf.readable = .bad) :
    Handled conn { conn with shutdown := true } := by
  have hdecode := Reader.decode_bad (R := lengthHeader) hfront
  constructor
  · exact h
  · rw [hdecode, List.append_nil]
  · rw [hdecode]
  · rw [hdecode, Bool.or_true]

/-- A frame is at the front: its message is handed on, and the rest is handled
next. -/
theorem Handled.frame {m r : List UInt8} {buf : Buffer} {conn' : Receiver}
    (hfront : front conn.inputBuf.readable = .frame m r) (hbuf : buf.readable = r)
    (h : Handled { conn with inputBuf := buf, messages := conn.messages ++ [m] } conn') :
    Handled conn conn' := by
  have hdecode := Reader.decode_frame (R := lengthHeader) hfront
  obtain ⟨hin, hmsgs, hrest, hshut⟩ := h
  dsimp only at hmsgs hrest hshut
  rw [hbuf] at hmsgs hrest hshut
  constructor
  · exact hin
  · rw [hmsgs, hdecode, List.append_assoc]
    rfl
  · rw [hrest, hdecode]
  · rw [hshut, hdecode]

/-- **The loop comes to its end**, and does what the reader does. -/
theorem onMessage_total (fuel : ℕ) (conn : Receiver) (h : conn.inputBuf.Input)
    (hfuel : conn.inputBuf.readableBytes < fuel) :
    ∃ conn', onMessage p fuel conn = some conn' ∧ Handled conn conn' := by
  induction fuel generalizing conn with
  | zero => exact absurd hfuel (Nat.not_lt_zero _)
  | succ fuel ih =>
    have hlen : conn.inputBuf.readable.length = conn.inputBuf.readableBytes := by
      rw [h.toOk.length_readable, h.toOk.readableBytes_eq]
    unfold onMessage
    dsimp only
    split_ifs with hheader hbad hwhole
    · rw [peekInt_lengthOf h.toOk hheader] at hbad
      refine ⟨_, rfl, handled_bad h ?_⟩
      unfold front
      rw [if_neg (by omega), if_pos hbad]
    · rw [peekInt_lengthOf h.toOk hheader] at hbad hwhole ⊢
      have hfront := front_of_frame (hlen ▸ hheader) (by omega) (by omega) (hlen ▸ hwhole)
      have h₁ := h.retrieve headerLen
      have hread₁ := Buffer.readable_retrieve h.toOk headerLen
      have h₂ := h₁.retrieve (lengthOf conn.inputBuf.readable).toNat
      have hread₂ := Buffer.readable_retrieve h₁.toOk (lengthOf conn.inputBuf.readable).toNat
      rw [hread₁, List.drop_drop, Nat.add_comm] at hread₂
      have hpeek : (conn.inputBuf.retrieve headerLen).peek
          (lengthOf conn.inputBuf.readable).toNat =
            (conn.inputBuf.readable.drop headerLen).take
              (lengthOf conn.inputBuf.readable).toNat := by
        rw [h₁.toOk.peek_eq_take _ (by
          rw [h₁.toOk.readableBytes_eq, ← h₁.toOk.length_readable, hread₁, List.length_drop]
          omega), hread₁]
      have hless : ((conn.inputBuf.retrieve headerLen).retrieve
          (lengthOf conn.inputBuf.readable).toNat).readableBytes < fuel := by
        rw [h₂.toOk.readableBytes_eq, ← h₂.toOk.length_readable, hread₂, List.length_drop]
        unfold headerLen at hheader ⊢
        omega
      rw [hpeek]
      obtain ⟨conn', hrun, hspec⟩ := ih
        { inputBuf := (conn.inputBuf.retrieve headerLen).retrieve
            (lengthOf conn.inputBuf.readable).toNat
          messages := conn.messages ++ [(conn.inputBuf.readable.drop headerLen).take
            (lengthOf conn.inputBuf.readable).toNat]
          shutdown := conn.shutdown } h₂ hless
      exact ⟨conn', hrun, Handled.frame hfront hread₂ hspec⟩
    · rw [peekInt_lengthOf h.toOk hheader] at hbad hwhole
      refine ⟨conn, rfl, handled_wait h ?_⟩
      unfold front
      rw [if_neg (by omega), if_neg hbad, if_pos (by omega)]
    · refine ⟨conn, rfl, handled_wait h ?_⟩
      unfold front
      rw [if_pos (by omega)]

/-! ### Connections -/

/-- What has been made of the bytes that have come. -/
structure Follows (conn : Receiver) (came : List UInt8) : Prop where
  input : conn.inputBuf.Input
  decoded : (⟨conn.messages, conn.inputBuf.readable, conn.shutdown⟩ : Decoded UInt8 (List UInt8)) =
    lengthHeader.decode came

/-- **One read**: the bytes come into the buffer, and the loop ends. -/
theorem follows_receive {came data : List UInt8} {conn' : Receiver} (h : Follows conn came)
    (hstep : receive p conn data = some conn') : Follows conn' (came ++ data) := by
  unfold receive at hstep
  split_ifs at hstep with hoffered
  obtain ⟨buf, hread, hmessage⟩ := Option.bind_eq_some_iff.1 hstep
  obtain ⟨hin, hreadable⟩ := h.input.readFd hoffered hread
  obtain ⟨conn₁, hrun, hspec⟩ := onMessage_total (p := p) (buf.readableBytes + 1)
    { conn with inputBuf := buf } hin (Nat.lt_succ_self _)
  obtain rfl := Option.some.inj (hrun.symm.trans hmessage)
  refine ⟨hspec.input, ?_⟩
  rw [Reader.decode_append, ← h.decoded, hspec.messages, hspec.rest, hspec.shutdown]
  dsimp only
  rw [hreadable]
  rfl

/-- After any number of reads the receiver has followed all that came. -/
theorem follows_run {reads : List (List UInt8)} {came : List UInt8} {conn' : Receiver}
    (h : Follows conn came) (hrun : run (receive p) conn reads = some conn') :
    Follows conn' (came ++ reads.flatten) := by
  induction reads generalizing conn came with
  | nil =>
    cases hrun
    rwa [List.flatten_nil, List.append_nil]
  | cons data reads ih =>
    obtain ⟨conn₁, hstep, hrest⟩ := run_cons_eq_some.1 hrun
    rw [List.flatten_cons, ← List.append_assoc]
    exact ih (follows_receive h hstep) hrest

/-! ### Reads go through -/

/-- A read returns when memory has room for what is there and twice the read. -/
theorem readFd_exists {buf : Buffer} (h : buf.Input) {data : List UInt8}
    (hlen : buf.readable.length + 2 * data.length + Buffer.prepends ≤ Buffer.maxSize) :
    ∃ buf', buf.readFd data = some buf' := by
  have hread := h.read_le
  have hwrite := h.write_le
  have hwritable := h.toOk.writableBytes_eq
  rw [h.toOk.length_readable] at hlen
  unfold Buffer.readFd
  dsimp only
  split_ifs with hnil hfit
  · exact ⟨buf, rfl⟩
  · exact ⟨_, rfl⟩
  · have htake : (data.take buf.writableBytes).length = buf.size - buf.writeIndex := by
      rw [List.length_take, hwritable]
      omega
    have hsize : buf.writeIndex + (data.take buf.writableBytes).length = buf.size := by omega
    have hfull := (h.fill hsize.le).1
    rw [hsize] at hfull
    have hlast : ({ buf with
        buffer := writeAt buf.buffer buf.writeIndex (data.take buf.writableBytes) } :
        Buffer).size = buf.size := length_writeAt ..
    rw [hlast]
    -- the rest goes to a full vector
    refine hfull.exists_append ?_
    rw [hfull.toOk.readableBytes_eq, List.length_drop]
    dsimp only
    omega

/-- What waits is not a whole message. -/
theorem length_of_wait {a : List UInt8} (h : front a = .wait) : a.length < 65540 := by
  unfold front at h
  split_ifs at h with hshort hbad hrest
  · unfold headerLen at hshort
    omega
  · unfold headerLen at hrest
    omega

/-- What is left in the buffer at any time, of a stream that is not bad or fits into
memory. -/
theorem length_rest {a pre : List UInt8}
    (ha : (lengthHeader.decode a).bad = false ∨ a.length ≤ 2 ^ 62) (hpre : pre <+: a) :
    (lengthHeader.decode pre).rest.length ≤ 2 ^ 62 := by
  obtain ⟨t, rfl⟩ := hpre
  rcases ha with hbad | hlen
  · have hwait := Reader.next_rest pre (Reader.bad_of_append pre t hbad)
    have hlt := length_of_wait hwait
    omega
  · have hrest := Reader.length_rest_le (R := lengthHeader) pre
    rw [List.length_append] at hlen
    omega

/-- **Reads of at most 64 KiB go through**, as long as not too much is left in the
buffer. -/
theorem run_exists (reads : List (List UInt8)) (hreads : ∀ data ∈ reads, data.length ≤ 65536)
    (conn : Receiver) {came : List UInt8} (h : Follows conn came)
    (hrest : ∀ pre, pre <+: came ++ reads.flatten →
      (lengthHeader.decode pre).rest.length ≤ 2 ^ 62) :
    ∃ conn', run (receive p) conn reads = some conn' := by
  induction reads generalizing conn came with
  | nil => exact ⟨conn, rfl⟩
  | cons data reads ih =>
    have hdata := hreads data List.mem_cons_self
    have hoffered : data.length ≤ conn.inputBuf.offered := by
      unfold Buffer.offered Buffer.extrabufSize
      split_ifs <;> omega
    have hleft : conn.inputBuf.readable = (lengthHeader.decode came).rest :=
      congrArg Decoded.rest h.decoded
    have hlen : conn.inputBuf.readable.length ≤ 2 ^ 62 := by
      rw [hleft]
      exact hrest came (List.prefix_append _ _)
    have hroom : conn.inputBuf.readable.length + 2 * data.length + Buffer.prepends ≤
        Buffer.maxSize := by
      unfold Buffer.prepends Buffer.maxSize
      omega
    obtain ⟨buf, hread⟩ := readFd_exists h.input hroom
    obtain ⟨hin, -⟩ := h.input.readFd hoffered hread
    obtain ⟨conn₁, hmessage, -⟩ := onMessage_total (p := p) (buf.readableBytes + 1)
      { conn with inputBuf := buf } hin (Nat.lt_succ_self _)
    have hstep : receive p conn data = some conn₁ := by
      unfold receive
      rw [if_pos hoffered, hread, Option.bind_some]
      exact hmessage
    rw [List.flatten_cons, ← List.append_assoc] at hrest
    obtain ⟨conn', hrun⟩ := ih (fun d hd => hreads d (List.mem_cons_of_mem _ hd)) conn₁
      (follows_receive h hstep) hrest
    exact ⟨conn', run_cons_eq_some.2 ⟨conn₁, hstep, hrun⟩⟩

/-! ### What comes is decoded -/

/-- A connection with a new input buffer. -/
def Receiver.new (buf : Buffer) : Receiver := ⟨buf, [], false⟩

/-- A receiver with a new buffer has followed the empty stream. -/
theorem follows_new {n : ℕ} {buf : Buffer} (hn : Buffer.prepends + n < 2 ^ 64)
    (hbuf : Buffer.new n = some buf) : Follows (.new buf) [] := by
  obtain ⟨hin, hnil⟩ := Buffer.Input.new hn hbuf
  refine ⟨hin, ?_⟩
  rw [Reader.decode_nil]
  unfold Receiver.new
  dsimp only
  rw [hnil]

/-- **Arbitrary bytes.**  Whatever comes, in whatever reads: the messages handed
over are those at the front of all bytes, each of at most 65536 bytes, `shutdown`
has been called exactly when a bad length follows them, and messages and buffer
are the bytes that came.  Reads of at most 64 KiB go through, unless a bad length is
followed by more than a vector can hold. -/
theorem codec_decodes {n : ℕ} {buf : Buffer} (hn : Buffer.prepends + n < 2 ^ 64)
    (hbuf : Buffer.new n = some buf) (p : Platform) (reads : List (List UInt8)) :
    (∀ conn, run (receive p) (.new buf) reads = some conn →
      conn.messages = (lengthHeader.decode reads.flatten).msgs ∧
        conn.shutdown = (lengthHeader.decode reads.flatten).bad ∧
        (∀ m ∈ conn.messages, m.length ≤ 65536) ∧
        conn.messages.flatMap encode ++ conn.inputBuf.readable = reads.flatten) ∧
    ((∀ data ∈ reads, data.length ≤ 65536) →
      (lengthHeader.decode reads.flatten).bad = false ∨ reads.flatten.length ≤ 2 ^ 62 →
      ∃ conn, run (receive p) (.new buf) reads = some conn) := by
  have hstart := follows_new hn hbuf
  refine ⟨fun conn hrun => ?_, fun hreads hstream => ?_⟩
  · obtain ⟨-, hdecoded⟩ := follows_run hstart hrun
    rw [List.nil_append] at hdecoded
    have hmsgs := congrArg Decoded.msgs hdecoded
    have hrest := congrArg Decoded.rest hdecoded
    have hbad := congrArg Decoded.bad hdecoded
    dsimp only at hmsgs hrest hbad
    refine ⟨hmsgs, hbad, ?_, ?_⟩
    · rw [hmsgs]
      exact Reader.decode_forall (fun h => (encode_front h).2) _
    · rw [hmsgs, hrest]
      exact Reader.encode_decode (fun h => (encode_front h).1) _
  · exact run_exists reads hreads (.new buf) hstart fun pre hpre => length_rest hstream hpre

/-- A message in two reads. -/
theorem codec_decodes_two : ∃ buf conn, Buffer.new 8 = some buf ∧
    run (receive .linux) (.new buf) [[0, 0], [0, 1, 65]] = some conn ∧
    conn.messages = (lengthHeader.decode [[0, 0], [0, 1, 65]].flatten).msgs ∧
    conn.messages.flatMap encode ++ conn.inputBuf.readable =
      [[0, 0], [0, 1, 65]].flatten := by
  have hrun : run (receive .linux) (.new ⟨List.replicate 16 0, 8, 8⟩) [[0, 0], [0, 1, 65]] =
      some ⟨⟨[0, 0, 0, 0, 0, 0, 0, 0, 0, 0, 0, 1, 65, 0, 0, 0], 8, 8⟩, [[65]], false⟩ := by
    decide +kernel
  obtain ⟨hmsgs, -, -, hbytes⟩ := (@codec_decodes 8 ⟨List.replicate 16 0, 8, 8⟩
    (by decide) (by decide +kernel) .linux [[0, 0], [0, 1, 65]]).1 _ hrun
  exact ⟨_, _, by decide +kernel, hrun, hmsgs, hbytes⟩

/-! ### What is sent is received -/

/-- **What is put in front** of the data, where there is room. -/
theorem readable_prepend {buf : Buffer} (h : buf.Ok) {data : List UInt8}
    (hlen : data.length ≤ buf.readIndex) : (buf.prepend data).readable = data ++ buf.readable := by
  have hread := h.read_le
  have hwrite := h.write_le
  unfold Buffer.size at hwrite
  unfold Buffer.prepend Buffer.prependableBytes
  dsimp only
  rw [if_neg (not_lt.2 hlen), List.take_length]
  have hfits : buf.readIndex - data.length + data.length ≤ buf.buffer.length := by omega
  unfold Buffer.readable
  dsimp only
  rw [← slice_append _ (Nat.sub_le buf.readIndex data.length) hread,
    slice_writeAt_after (a := buf.readIndex) (b := buf.writeIndex) hfits (by omega)]
  congr 1
  have hself := slice_writeAt_self hfits
  rwa [Nat.sub_add_cancel hlen] at hself

/-- **`send`** puts the length in front of the message. -/
theorem send_eq {msg : List UInt8} (h : msg.length ≤ 65536) :
    ∃ buf, send msg = some buf ∧ buf.readable = encode msg := by
  obtain ⟨buf, hbuf⟩ := Buffer.exists_new (n := Buffer.initialSize) (by decide)
  obtain ⟨hin, hnil⟩ := Buffer.Input.new (n := Buffer.initialSize) (by decide) hbuf
  have hempty : buf.readableBytes = 0 := by
    rw [hin.toOk.readableBytes_eq, ← hin.toOk.length_readable, hnil, List.length_nil]
  have hroom : buf.readableBytes + 2 * msg.length + Buffer.prepends ≤ Buffer.maxSize := by
    unfold Buffer.prepends Buffer.maxSize
    omega
  obtain ⟨buf', happend⟩ := hin.exists_append hroom
  obtain ⟨hin', hread'⟩ := hin.append (by unfold Buffer.maxSize; omega) happend
  have hvalue : toUnsigned 4 (toSigned 4 (msg.length % 256 ^ 4)) = msg.length := by
    unfold toSigned toUnsigned
    rw [Nat.mod_eq_of_lt (by omega), if_pos (by omega)]
    rw [Int.emod_eq_of_lt (by omega) (by omega), Int.toNat_natCast]
  have hhead : memBytes 4 (hostToNet32 msg.length) = bigEndian 4 msg.length := memBytes_htobe 4 _
  refine ⟨buf'.prependInt32 (toSigned 4 (msg.length % 256 ^ 4)), ?_, ?_⟩
  · unfold send
    rw [hbuf]
    simp [happend]
  · unfold Buffer.prependInt32
    rw [hvalue, hhead, readable_prepend hin'.toOk, hread', hnil, List.nil_append]
    · rfl
    · have hpre := hin'.prepends_le_read
      unfold Buffer.prepends at hpre
      rw [bigEndian_eq, List.length_reverse, length_memBytes]
      omega

/-- The buffers of some messages. -/
theorem send_all {msgs : List (List UInt8)} (h : ∀ m ∈ msgs, m.length ≤ 65536) :
    ∃ bufs, msgs.mapM send = some bufs ∧
      (bufs.map Buffer.readable).flatten = msgs.flatMap encode := by
  induction msgs with
  | nil => exact ⟨[], rfl, rfl⟩
  | cons m msgs ih =>
    obtain ⟨buf, hsend, hread⟩ := send_eq (h m List.mem_cons_self)
    obtain ⟨bufs, hsends, hreads⟩ := ih fun m hm => h m (List.mem_cons_of_mem _ hm)
    refine ⟨buf :: bufs, ?_, ?_⟩
    · rw [List.mapM_cons, hsend, hsends]
      rfl
    · rw [List.map_cons, List.flatten_cons, hread, hreads, List.flatMap_cons]

/-- **What is sent is received.**  Messages of at most 65536 bytes are sent, and
the bytes come in reads that are cut anywhere: the reads go through, the messages
are handed over in order, nothing remains, and nothing is shut down. -/
theorem codec_round_trip (p : Platform) {msgs : List (List UInt8)}
    (hmsgs : ∀ m ∈ msgs, m.length ≤ 65536) :
    ∃ bufs, msgs.mapM send = some bufs ∧
      ∀ reads : List (List UInt8), reads.flatten = (bufs.map Buffer.readable).flatten →
        (∀ data ∈ reads, data.length ≤ 65536) →
        ∃ buf conn, Buffer.new Buffer.initialSize = some buf ∧
          run (receive p) (.new buf) reads = some conn ∧
          conn.messages = msgs ∧ conn.inputBuf.readable = [] ∧ conn.shutdown = false := by
  obtain ⟨bufs, hsends, hwire⟩ := send_all hmsgs
  refine ⟨bufs, hsends, fun reads hflat hreads => ?_⟩
  obtain ⟨buf, hbuf⟩ := Buffer.exists_new (n := Buffer.initialSize) (by decide)
  have hstart := follows_new (by decide) hbuf
  have hencode : ∀ m rest, m.length ≤ 65536 →
      lengthHeader.next (encode m ++ rest) = .frame m rest :=
    fun m rest hm => front_encode m rest hm
  have hdecode := lengthHeader.decode_encode hencode hmsgs []
  rw [Reader.decode_nil, List.append_nil, List.append_nil, ← hwire, ← hflat] at hdecode
  have hstream : (lengthHeader.decode reads.flatten).bad = false := by rw [hdecode]
  obtain ⟨conn, hrun⟩ := run_exists (p := p) reads hreads (.new buf) hstart fun pre hpre =>
    length_rest (.inl hstream) hpre
  have hdecoded := (follows_run hstart hrun).decoded
  rw [List.nil_append, hdecode] at hdecoded
  exact ⟨buf, conn, hbuf, hrun, congrArg Decoded.msgs hdecoded, congrArg Decoded.rest hdecoded,
    congrArg Decoded.bad hdecoded⟩

/-- Two messages. -/
theorem codec_round_trip_two : ∃ bufs, [[65, 66], []].mapM send = some bufs ∧
    ∀ reads : List (List UInt8), reads.flatten = (bufs.map Buffer.readable).flatten →
      (∀ data ∈ reads, data.length ≤ 65536) →
      ∃ buf conn, Buffer.new Buffer.initialSize = some buf ∧
        run (receive .linux) (.new buf) reads = some conn ∧
        conn.messages = [[65, 66], []] ∧ conn.inputBuf.readable = [] ∧ conn.shutdown = false :=
  @codec_round_trip .linux [[65, 66], []] (by decide)

end LengthHeaderCodec
end Examples
end Sevent
