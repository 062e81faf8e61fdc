import Mathlib.Tactic
import Grebe.UdpTransport

/-!
# Grebe.UdpReceive — receiving datagrams one by one or in batches

`receive_single` parses a datagram into what the caller passed, `receive_batch` parses those of one `recvmmsg` out of
their slots into a queue.  The buffers are reused: behind a short datagram they hold what an earlier one left.

* `UdpReceiver` is a consumer with what is around it: the caller's variables, what the calls on the socket will yield,
  and how long the queue was at each `recvmmsg`.  It is not closed while a call runs.
* `PayloadVector` keeps what a copy wrote past the end of the vector: of an odd payload both paths copy the last byte
  there.  C++ leaves open what follows from that; here the run goes on.  A vector that never had a sample has no place at
  all: a payload of one byte is then copied to a null pointer, and the program has `crashed`.
* `frameOf`: the frame of a datagram, whatever the buffers held.  Both parsers find it (`parseInto_eq`, `parseSlot_eq`),
  and it is `UdpConsumer.extract` with that byte (`frameOf_extract`).
* `run_spec`: as long as no datagram ends the program, the calls return the frames of the datagrams, in order and each
  once, and the kernel is called only when the queue is empty.
-/

namespace Grebe

open Lib

/-- The bytes start with a header that has the right magic. -/
def Headed (bytes : List UInt8) : Prop :=
  frameHeader.width ≤ bytes.length ∧ (frameHeader.decode bytes).magic = FRAME_HEADER_MAGIC

/-- The header announces whole samples, or more than follows it. -/
def WholeSamples (bytes : List UInt8) : Prop :=
  (frameHeader.decode bytes).payloadBytes.toNat % 2 = 0 ∨
    bytes.length < frameHeader.width + (frameHeader.decode bytes).payloadBytes.toNat

/-! ## State -/

section State

/-- A `std::vector<int16_t>` after a copy into it. -/
structure PayloadVector where
  samples : List Int16
  /-- the bytes written past the end of the vector -/
  past : List UInt8 := []
deriving DecidableEq

/-- `clear` -/
def PayloadVector.clear : PayloadVector := ⟨[], []⟩

def PayloadVector.resize (v : PayloadVector) (n : ℕ) : PayloadVector where
  samples := v.samples.take n ++ List.replicate (n - v.samples.length) 0

/-- `memcpy` to the start of the vector. -/
def PayloadVector.memcpy (v : PayloadVector) (bytes : List UInt8) : PayloadVector where
  samples := sample.decodeAll (min v.samples.length (bytes.length / 2)) bytes ++ v.samples.drop (bytes.length / 2)
  past := bytes.drop (2 * v.samples.length)

/-- What the kernel leaves in a buffer that receives a datagram: it cuts the datagram to the buffer. -/
def fill (buf datagram : List UInt8) : List UInt8 := datagram.take buf.length ++ buf.drop datagram.length

/-- A consumer and what is around it. -/
structure UdpReceiver where
  closed : Bool
  /-- the socket is valid -/
  sock : Bool
  recvCount : UInt64
  recvBuf : List UInt8
  burstSize : ℕ
  recvQueue : List (FrameHeaderV2 × PayloadVector)
  recvBufs : ℕ → List UInt8
  /-- `recv_mmsg_[i].msg_len` -/
  msgLen : ℕ → ℕ
  /-- the header that the caller passed -/
  header : FrameHeaderV2
  /-- the vector that the caller passed -/
  payload : PayloadVector
  /-- and it has storage -/
  allocated : Bool
  /-- a payload was copied to a null pointer, which has ended the program -/
  crashed : Bool
  /-- what `recvfrom` will yield -/
  recvfrom : List (Received (List UInt8))
  /-- what `recvmmsg` will yield -/
  recvmmsg : List (Received (List (List UInt8)))
  /-- the length of the queue at each call of `recvmmsg` -/
  queuedAtCall : List ℕ

end State

namespace UdpReceiver

/-! ## Receiving -/

section Receive

/-- A consumer after its constructor and `set_burst_size`, with the caller's variables. -/
def create (n : ℕ) (header : FrameHeaderV2) (payload : PayloadVector) (allocated : Bool)
    (recvfrom : List (Received (List UInt8))) (recvmmsg : List (Received (List (List UInt8)))) : UdpReceiver where
  closed := false
  sock := true
  recvCount := 0
  recvBuf := List.replicate recvBufSize 0
  burstSize := if n < 1 then 1 else n
  recvQueue := []
  recvBufs i := if i < n ∧ n > 1 then List.replicate recvBufSize 0 else []
  msgLen _ := 0
  header := header
  payload := payload
  allocated := allocated
  crashed := false
  recvfrom := recvfrom
  recvmmsg := recvmmsg
  queuedAtCall := []

variable (s : UdpReceiver)

/-- `recvfrom` took a datagram. -/
def recvd (datagram : List UInt8) : UdpReceiver := { s with recvBuf := fill s.recvBuf datagram }

/-- What `receive_single` does with `nbytes` bytes in its buffer; `false`: it goes on to the next datagram. -/
def parseInto (nbytes : ℕ) : Bool × UdpReceiver :=
  if nbytes < frameHeader.width then (false, s)
  else
    let s := { s with header := frameHeader.decode s.recvBuf }
    if s.header.magic ≠ FRAME_HEADER_MAGIC then (false, s)
    else
      let payloadAvailable := nbytes - frameHeader.width
      if payloadAvailable ≥ s.header.payloadBytes.toNat ∧ s.header.nullCopy s.allocated = true then
        (true, { s with crashed := true })
      else
        let payload :=
          if s.header.payloadBytes > 0 ∧ payloadAvailable ≥ s.header.payloadBytes.toNat then
            (s.payload.resize (s.header.payloadBytes.toNat / 2)).memcpy
              ((s.recvBuf.drop frameHeader.width).take s.header.payloadBytes.toNat)
          else .clear
        (true,
          { s with
            payload := payload
            allocated := s.allocated || !payload.samples.isEmpty
            recvCount := s.recvCount + 1 })

/-- The loop of `receive_single`; `none`: the call waits for a datagram, or the program has ended. -/
def receiveSingle (socket : List (Received (List UInt8))) (s : UdpReceiver) : Option Bool × UdpReceiver :=
  if s.closed ∨ s.sock = false then (some false, { s with recvfrom := socket })
  else
    match socket with
    | [] => (none, { s with recvfrom := [] })
    | .timeout :: socket => receiveSingle socket s
    | .error :: socket => (some false, { s with recvfrom := socket })
    | .got datagram :: socket =>
      match (s.recvd datagram).parseInto (min datagram.length s.recvBuf.length) with
      | (true, s) => (if s.crashed then none else some true, { s with recvfrom := socket })
      | (false, s) => receiveSingle socket s

/-- A call of `recvmmsg`. -/
def called : UdpReceiver := { s with queuedAtCall := s.queuedAtCall ++ [s.recvQueue.length] }

/-- `recvmmsg` took `datagrams`. -/
def recvdAll (datagrams : List (List UInt8)) : UdpReceiver :=
  { s with
    recvBufs := fun i => if h : i < datagrams.length then fill (s.recvBufs i) datagrams[i] else s.recvBufs i
    msgLen := fun i => if h : i < datagrams.length then min datagrams[i].length (s.recvBufs i).length else s.msgLen i }

/-- What `receive_batch` does with slot `i`. -/
def parseSlot (i : ℕ) : UdpReceiver :=
  let nbytes := s.msgLen i
  if s.crashed then s
  else if nbytes < frameHeader.width then s
  else
    let hdr := frameHeader.decode (s.recvBufs i)
    if hdr.magic ≠ FRAME_HEADER_MAGIC then s
    else
      let payloadAvailable := nbytes - frameHeader.width
      let pl : PayloadVector := ⟨[], []⟩
      if payloadAvailable ≥ hdr.payloadBytes.toNat ∧ hdr.nullCopy false = true then { s with crashed := true }
      else
        let pl :=
          if hdr.payloadBytes > 0 ∧ payloadAvailable ≥ hdr.payloadBytes.toNat then
            (pl.resize (hdr.payloadBytes.toNat / 2)).memcpy
              (((s.recvBufs i).drop frameHeader.width).take hdr.payloadBytes.toNat)
          else pl
        { s with recvCount := s.recvCount + 1, recvQueue := s.recvQueue ++ [(hdr, pl)] }

/-- The lengths are reset for the next batch. -/
def resetLengths : UdpReceiver := { s with msgLen := fun i => if i < s.burstSize then 0 else s.msgLen i }

/-- What `receive_batch` does with the `n` messages of a `recvmmsg`. -/
def parseBatch (n : ℕ) : UdpReceiver := ((List.range n).foldl parseSlot s).resetLengths

/-- The loop of `receive_batch`; `none`: the call waits for a datagram, or the program has ended.  The caller's vector takes
over the storage of the queued one. -/
def receiveBatch (socket : List (Received (List (List UInt8)))) (s : UdpReceiver) : Option Bool × UdpReceiver :=
  if s.closed then (some false, { s with recvmmsg := socket })
  else
    match s.recvQueue with
    | front :: queue =>
      (some true,
        { s with
          header := front.1
          payload := front.2
          allocated := !front.2.samples.isEmpty
          recvQueue := queue
          recvmmsg := socket })
    | [] =>
      if s.sock = false then (some false, { s with recvmmsg := socket })
      else
        match socket with
        | [] => (none, { s.called with recvmmsg := [] })
        | .timeout :: socket => receiveBatch socket s.called
        | .error :: socket => (some false, { s.called with recvmmsg := socket })
        | .got datagrams :: socket =>
          let t := (s.called.recvdAll datagrams).parseBatch datagrams.length
          if t.crashed then (none, { t with recvmmsg := socket }) else receiveBatch socket t

def receiveFrame : Option Bool × UdpReceiver :=
  if s.burstSize > 1 then receiveBatch s.recvmmsg s else receiveSingle s.recvfrom s

/-- What the first `n` calls of `receive_frame` return, up to the first that does not return true, and the state then. -/
def run : ℕ → UdpReceiver → List (FrameHeaderV2 × PayloadVector) × UdpReceiver
  | 0, s => ([], s)
  | n + 1, s =>
    match s.receiveFrame with
    | (some true, t) => ((t.header, t.payload) :: (run n t).1, (run n t).2)
    | (_, t) => ([], t)

end Receive

/-! ## The frame of a datagram -/

section Frame

/-- The payload that a header announces, if `rest` has it. -/
def announced (header : FrameHeaderV2) (rest : List UInt8) : PayloadVector :=
  if header.payloadBytes.toNat ≤ rest.length then
    { samples := sample.decodeAll (header.payloadBytes.toNat / 2) rest
      past := (rest.take header.payloadBytes.toNat).drop (2 * (header.payloadBytes.toNat / 2)) }
  else ⟨[], []⟩

/-- The frame of a datagram; `none` when it is skipped. -/
def frameOf (datagram : List UInt8) : Option (FrameHeaderV2 × PayloadVector) :=
  let bytes := UdpConsumer.buffered datagram
  if bytes.length < frameHeader.width then none
  else
    let header := frameHeader.decode bytes
    if header.magic ≠ FRAME_HEADER_MAGIC then none
    else some (header, announced header (bytes.drop frameHeader.width))

theorem readsWidth_u32 : u32.ReadsWidth := .le

theorem readsWidth_u64 : u64.ReadsWidth := .le

theorem readsWidth_sample : sample.ReadsWidth := .le

theorem readsWidth_frameHeader : frameHeader.ReadsWidth :=
  have h32 := readsWidth_u32
  have h64 := readsWidth_u64
  Codec.ReadsWidth.map (h32.prod (h32.prod (h64.prod (h64.prod (h32.prod (h32.prod (h32.prod (h32.prod
    ((h64.map Double.bits Double.mk fun _ => rfl).prod (h64.prod h64)))))))))) _ _ _

/-- With the samples alone it is the frame that `UdpConsumer` extracts. -/
theorem frameOf_extract (datagram : List UInt8) :
    (frameOf datagram).map (fun frame => (frame.1, frame.2.samples)) = UdpConsumer.extract datagram := by
  unfold frameOf UdpConsumer.extract announced
  generalize UdpConsumer.buffered datagram = bytes
  dsimp only
  generalize frameHeader.decode bytes = header
  by_cases hlen : bytes.length < frameHeader.width
  · rw [if_pos hlen, if_pos hlen, Option.map_none]
  rw [if_neg hlen, if_neg hlen]
  by_cases hmagic : header.magic ≠ FRAME_HEADER_MAGIC
  · rw [if_pos hmagic, if_pos hmagic, Option.map_none]
  rw [if_neg hmagic, if_neg hmagic, Option.map_some, List.length_drop]
  by_cases hfit : header.payloadBytes.toNat ≤ bytes.length - frameHeader.width
  · rw [if_pos hfit]
    by_cases h0 : header.payloadBytes > 0
    · rw [if_pos ⟨h0, hfit⟩]
    · rw [if_neg (fun h => h0 h.1), eq_zero_of_not_pos h0]
      rfl
  · rw [if_neg hfit, if_neg (fun h => hfit h.2)]

theorem accepts_iff {datagram : List UInt8} :
    UdpConsumer.accepts datagram = true ↔ Headed (UdpConsumer.buffered datagram) := by
  rw [UdpConsumer.accepts, decide_eq_true_eq, Headed]

/-- Of `n` announced bytes the first `m` are copied, or all. -/
theorem past_eq_nil_iff {n : ℕ} {bytes : List UInt8} (h : bytes.length ≤ n) :
    bytes.drop (2 * (n / 2)) = [] ↔ n % 2 = 0 ∨ bytes.length < n := by
  rw [List.drop_eq_nil_iff]
  omega

/-- In a datagram. -/
theorem past_announced {bytes : List UInt8} (h : frameHeader.width ≤ bytes.length) :
    (announced (frameHeader.decode bytes) (bytes.drop frameHeader.width)).past = [] ↔
      WholeSamples bytes := by
  unfold announced WholeSamples
  generalize (frameHeader.decode bytes).payloadBytes.toNat = n
  rw [List.length_drop]
  by_cases hfit : n ≤ bytes.length - frameHeader.width
  · rw [if_pos hfit, past_eq_nil_iff (List.length_take_le ..), List.length_take, List.length_drop]
    omega
  · rw [if_neg hfit]
    exact iff_of_true rfl (.inr (by omega))

theorem frameOf_headed {datagram : List UInt8} (h : Headed (UdpConsumer.buffered datagram)) :
    frameOf datagram = some (frameHeader.decode (UdpConsumer.buffered datagram),
      announced (frameHeader.decode (UdpConsumer.buffered datagram))
        ((UdpConsumer.buffered datagram).drop frameHeader.width)) := by
  unfold frameOf
  dsimp only
  rw [if_neg (not_lt.mpr h.1), if_neg (not_not.mpr h.2)]

theorem headed_of_frameOf {datagram : List UInt8} {frame : FrameHeaderV2 × PayloadVector}
    (h : frameOf datagram = some frame) : Headed (UdpConsumer.buffered datagram) := by
  unfold frameOf at h
  dsimp only at h
  split_ifs at h with hlen hmagic
  exact ⟨not_lt.mp hlen, not_not.mp hmagic⟩

/-- Nothing is written past the end of a vector, and so to no null pointer. -/
theorem nullCopy_of_wholeSamples {datagram : List UInt8}
    (h : UdpConsumer.accepts datagram = true → WholeSamples (UdpConsumer.buffered datagram)) :
    UdpConsumer.nullCopy datagram = false := by
  by_contra hnull
  simp only [UdpConsumer.nullCopy, Bool.not_eq_false, decide_eq_true_eq, nullCopy_iff] at hnull
  obtain ⟨hfit, hmagic, hone, -⟩ := hnull
  rcases h (accepts_iff.mpr ⟨le_of_add_le_left hfit, hmagic⟩) with heven | hshort
  · omega
  · omega

theorem nullCopy_of_past {datagram : List UInt8} {frame : FrameHeaderV2 × PayloadVector}
    (h : frameOf datagram = some frame) (hpast : frame.2.past = []) : UdpConsumer.nullCopy datagram = false := by
  have hheaded := headed_of_frameOf h
  obtain rfl := Option.some.inj ((frameOf_headed hheaded).symm.trans h)
  exact nullCopy_of_wholeSamples fun _ => (past_announced hheaded.1).mp hpast

end Frame

/-! ## Parsing in reused buffers -/

section Parse

theorem length_fill (buf datagram : List UInt8) : (fill buf datagram).length = buf.length := by
  rw [fill, List.length_append, List.length_take, List.length_drop]
  omega

/-- A buffer of the full size holds what is left of the datagram, and then what was there before. -/
theorem fill_eq {buf : List UInt8} (h : buf.length = recvBufSize) (datagram : List UInt8) :
    fill buf datagram = UdpConsumer.buffered datagram ++ buf.drop datagram.length := by
  rw [fill, h, UdpConsumer.buffered]

theorem received_length {buf : List UInt8} (h : buf.length = recvBufSize) (datagram : List UInt8) :
    min datagram.length buf.length = (UdpConsumer.buffered datagram).length := by
  rw [UdpConsumer.buffered, List.length_take, h, min_comm]

/-- A copy into a vector of half as many samples leaves nothing of what was in it. -/
theorem memcpy_resize (v : PayloadVector) {n : ℕ} {bytes : List UInt8} (h : bytes.length = n) :
    (v.resize (n / 2)).memcpy bytes = ⟨sample.decodeAll (n / 2) bytes, bytes.drop (2 * (n / 2))⟩ := by
  have hlen : (v.resize (n / 2)).samples.length = n / 2 := by
    simp only [PayloadVector.resize, List.length_append, List.length_take, List.length_replicate]
    omega
  have hdrop : (v.resize (n / 2)).samples.drop (n / 2) = [] := List.drop_eq_nil_of_le hlen.le
  rw [PayloadVector.memcpy, hlen, h, min_self, hdrop, List.append_nil]

/-- The copy of the payload, whatever the vector held and whatever follows the datagram in the buffer. -/
theorem payload_eq (v : PayloadVector) (header : FrameHeaderV2) {bytes : List UInt8} (stale : List UInt8)
    (h : ¬ bytes.length < frameHeader.width) :
    (if header.payloadBytes > 0 ∧ bytes.length - frameHeader.width ≥ header.payloadBytes.toNat then
        (v.resize (header.payloadBytes.toNat / 2)).memcpy
          (((bytes ++ stale).drop frameHeader.width).take header.payloadBytes.toNat)
      else .clear) = announced header (bytes.drop frameHeader.width) := by
  rw [announced, List.length_drop]
  by_cases hfit : header.payloadBytes.toNat ≤ bytes.length - frameHeader.width
  · rw [if_pos hfit]
    by_cases h0 : header.payloadBytes > 0
    · have hlen : header.payloadBytes.toNat ≤ (bytes.drop frameHeader.width).length := by rwa [List.length_drop]
      have hodd : sample.width * (header.payloadBytes.toNat / 2) ≤ header.payloadBytes.toNat := Nat.mul_div_le _ _
      rw [if_pos ⟨h0, hfit⟩, List.drop_append_of_le_length (not_lt.mp h), List.take_append_of_le_length hlen,
        memcpy_resize v (List.length_take_of_le hlen), readsWidth_sample.decodeAll_take _ hodd]
    · rw [if_neg (fun h => h0 h.1), eq_zero_of_not_pos h0]
      rfl
  · rw [if_neg hfit, if_neg (fun h => hfit h.2)]
    rfl

/-- The header too is read from the datagram alone. -/
theorem decode_stale {bytes : List UInt8} (stale : List UInt8) (h : ¬ bytes.length < frameHeader.width) :
    frameHeader.decode (bytes ++ stale) = frameHeader.decode bytes :=
  readsWidth_frameHeader.decode_congr (List.take_append_of_le_length (not_lt.mp h))

/-- Where the parsers come to the copy of a payload, they copy to a null pointer exactly if `nullCopy` says so. -/
theorem nullCopy_datagram_iff {datagram : List UInt8} (allocated : Bool)
    (hlen : ¬ (UdpConsumer.buffered datagram).length < frameHeader.width)
    (hmagic : (frameHeader.decode (UdpConsumer.buffered datagram)).magic = FRAME_HEADER_MAGIC) :
    (UdpConsumer.buffered datagram).length - frameHeader.width ≥
          (frameHeader.decode (UdpConsumer.buffered datagram)).payloadBytes.toNat ∧
        (frameHeader.decode (UdpConsumer.buffered datagram)).nullCopy allocated = true ↔
      UdpConsumer.nullCopy datagram = true ∧ allocated = false := by
  unfold UdpConsumer.nullCopy
  dsimp only
  rw [decide_eq_true_eq, nullCopy_iff, nullCopy_iff]
  constructor
  · rintro ⟨hfit, hone, hallocated⟩
    exact ⟨⟨by omega, hmagic, hone, rfl⟩, hallocated⟩
  · rintro ⟨⟨hfit, -, hone, -⟩, hallocated⟩
    exact ⟨by omega, hone, hallocated⟩

variable {s : UdpReceiver} {datagram stale : List UInt8}

/-- `receive_single` finds the frame of the datagram. -/
theorem parseInto_eq (h : s.recvBuf = UdpConsumer.buffered datagram ++ stale)
    (hcopy : ¬(UdpConsumer.nullCopy datagram = true ∧ s.allocated = false)) :
    ∃ header payload allocated count, s.parseInto (UdpConsumer.buffered datagram).length =
        ((frameOf datagram).isSome,
          { s with header := header, payload := payload, allocated := allocated, recvCount := count }) ∧
      ∀ frame ∈ frameOf datagram,
        (header, payload) = frame ∧ allocated = (s.allocated || !frame.2.samples.isEmpty) := by
  unfold parseInto frameOf
  rw [h]
  dsimp only
  by_cases hlen : (UdpConsumer.buffered datagram).length < frameHeader.width
  · rw [if_pos hlen, if_pos hlen, ← h]
    exact ⟨_, _, _, _, rfl, by simp⟩
  rw [if_neg hlen, if_neg hlen, decode_stale stale hlen, payload_eq s.payload _ stale hlen, ← h]
  by_cases hmagic : (frameHeader.decode (UdpConsumer.buffered datagram)).magic ≠ FRAME_HEADER_MAGIC
  · rw [if_pos hmagic, if_pos hmagic]
    exact ⟨_, _, _, _, rfl, by simp⟩
  · rw [if_neg hmagic, if_neg hmagic, if_neg (mt (nullCopy_datagram_iff s.allocated hlen (not_not.mp hmagic)).mp hcopy)]
    refine ⟨_, _, _, _, rfl, fun frame hframe => ?_⟩
    obtain rfl := Option.some.inj hframe
    exact ⟨rfl, rfl⟩

/-- Or the program ends. -/
theorem parseInto_crashed (h : s.recvBuf = UdpConsumer.buffered datagram ++ stale)
    (hnull : UdpConsumer.nullCopy datagram = true) (hallocated : s.allocated = false) :
    ∃ header, s.parseInto (UdpConsumer.buffered datagram).length =
      (true, { s with header := header, crashed := true }) := by
  have hframe := hnull
  simp only [UdpConsumer.nullCopy, decide_eq_true_eq] at hframe
  have hlen : ¬ (UdpConsumer.buffered datagram).length < frameHeader.width := by omega
  unfold parseInto
  rw [h]
  dsimp only
  rw [if_neg hlen, decode_stale stale hlen, if_neg (not_not.mpr hframe.2.1),
    if_pos ((nullCopy_datagram_iff s.allocated hlen hframe.2.1).mpr ⟨hnull, hallocated⟩), ← h]
  exact ⟨_, rfl⟩

/-- `receive_batch` finds the same. -/
theorem parseSlot_eq {i : ℕ} (h : s.recvBufs i = UdpConsumer.buffered datagram ++ stale)
    (hlength : s.msgLen i = (UdpConsumer.buffered datagram).length) (hcrashed : s.crashed = false)
    (hcopy : UdpConsumer.nullCopy datagram = false) :
    ∃ count, s.parseSlot i =
      { s with recvCount := count, recvQueue := s.recvQueue ++ (frameOf datagram).toList } := by
  unfold parseSlot frameOf
  rw [h, hlength, if_neg (by simp [hcrashed])]
  dsimp only
  by_cases hlen : (UdpConsumer.buffered datagram).length < frameHeader.width
  · rw [if_pos hlen, if_pos hlen]
    exact ⟨s.recvCount, by simp⟩
  rw [if_neg hlen, if_neg hlen, decode_stale stale hlen]
  by_cases hmagic : (frameHeader.decode (UdpConsumer.buffered datagram)).magic ≠ FRAME_HEADER_MAGIC
  · rw [if_pos hmagic, if_pos hmagic]
    exact ⟨s.recvCount, by simp⟩
  · have hpayload := payload_eq ⟨[], []⟩ (frameHeader.decode (UdpConsumer.buffered datagram)) stale hlen
    unfold PayloadVector.clear at hpayload
    rw [if_neg hmagic, if_neg hmagic,
      if_neg (mt (nullCopy_datagram_iff false hlen (not_not.mp hmagic)).mp (by simp [hcopy])), hpayload]
    exact ⟨_, rfl⟩

/-- Or the program ends. -/
theorem parseSlot_crashed {i : ℕ} (h : s.recvBufs i = UdpConsumer.buffered datagram ++ stale)
    (hlength : s.msgLen i = (UdpConsumer.buffered datagram).length) (hnull : UdpConsumer.nullCopy datagram = true) :
    (s.parseSlot i).crashed = true := by
  have hframe := hnull
  simp only [UdpConsumer.nullCopy, decide_eq_true_eq] at hframe
  have hlen : ¬ (UdpConsumer.buffered datagram).length < frameHeader.width := by omega
  unfold parseSlot
  by_cases hcrashed : s.crashed = true
  · rw [if_pos hcrashed]
    exact hcrashed
  rw [h, hlength, if_neg hcrashed]
  dsimp only
  rw [if_neg hlen, decode_stale stale hlen, if_neg (not_not.mpr hframe.2.1),
    if_pos ((nullCopy_datagram_iff false hlen hframe.2.1).mpr ⟨hnull, rfl⟩)]

/-- Slot `i` holds `datagram`, and behind it what an earlier one left. -/
def SlotHolds (s : UdpReceiver) (i : ℕ) (datagram : List UInt8) : Prop :=
  (∃ stale, s.recvBufs i = UdpConsumer.buffered datagram ++ stale) ∧
    s.msgLen i = (UdpConsumer.buffered datagram).length

/-- The loop over the slots appends the frames of the datagrams. -/
theorem foldl_parseSlot {datagrams : List (List UInt8)} (hcrashed : s.crashed = false)
    (h : ∀ i (hi : i < datagrams.length), s.SlotHolds i datagrams[i]) {n : ℕ} (hn : n ≤ datagrams.length)
    (hcopy : ∀ d ∈ datagrams.take n, UdpConsumer.nullCopy d = false) :
    ∃ count, (List.range n).foldl parseSlot s =
      { s with recvCount := count, recvQueue := s.recvQueue ++ (datagrams.take n).filterMap frameOf } := by
  induction n with
  | zero => exact ⟨s.recvCount, by simp⟩
  | succ n ih =>
    rw [List.take_succ_eq_append_getElem hn] at hcopy
    obtain ⟨count, hfold⟩ := ih (by omega) fun d hd => hcopy d (List.mem_append_left _ hd)
    obtain ⟨⟨stale, hbuf⟩, hlength⟩ := h n hn
    rw [List.range_succ, List.foldl_append, hfold, List.foldl_cons, List.foldl_nil]
    obtain ⟨count', hslot⟩ := parseSlot_eq
      (s := { s with recvCount := count, recvQueue := s.recvQueue ++ (datagrams.take n).filterMap frameOf })
      hbuf hlength hcrashed (hcopy _ (List.mem_append_right _ (List.mem_singleton_self _)))
    rw [hslot]
    refine ⟨count', ?_⟩
    dsimp only
    rw [List.append_assoc, List.take_succ_eq_append_getElem hn, List.filterMap_append]
    congr 2

/-- With a payload for a null pointer among them, the program ends. -/
theorem crashed_foldl {datagrams : List (List UInt8)} (hcrashed : s.crashed = false)
    (h : ∀ i (hi : i < datagrams.length), s.SlotHolds i datagrams[i]) {n : ℕ} (hn : n ≤ datagrams.length)
    (hnull : ∃ d ∈ datagrams.take n, UdpConsumer.nullCopy d = true) :
    ((List.range n).foldl parseSlot s).crashed = true := by
  induction n with
  | zero =>
    obtain ⟨d, hd, -⟩ := hnull
    cases hd
  | succ n ih =>
    rw [List.range_succ, List.foldl_append, List.foldl_cons, List.foldl_nil]
    by_cases hbefore : ∃ d ∈ datagrams.take n, UdpConsumer.nullCopy d = true
    · have hdone := ih (by omega) hbefore
      rw [parseSlot, if_pos hdone]
      exact hdone
    -- it is the last of them
    obtain ⟨count, hfold⟩ := foldl_parseSlot hcrashed h (n := n) (by omega) fun d hd =>
      Bool.eq_false_of_not_eq_true fun hd' => hbefore ⟨d, hd, hd'⟩
    obtain ⟨⟨stale, hbuf⟩, hlength⟩ := h n hn
    have hlast : UdpConsumer.nullCopy datagrams[n] = true := by
      obtain ⟨d, hd, hd'⟩ := hnull
      rw [List.take_succ_eq_append_getElem hn, List.mem_append, List.mem_singleton] at hd
      obtain hd | rfl := hd
      · exact absurd ⟨d, hd, hd'⟩ hbefore
      · exact hd'
    rw [hfold]
    exact parseSlot_crashed hbuf hlength hlast

end Parse

/-! ## The calls -/

section Calls

/-- What every step keeps of an open consumer. -/
structure Running (s : UdpReceiver) : Prop where
  crashed : s.crashed = false
  closed : s.closed = false
  sock : s.sock = true
  recvBuf : s.recvBuf.length = recvBufSize
  recvBufs : s.burstSize > 1 → ∀ i < s.burstSize, (s.recvBufs i).length = recvBufSize
  queuedAtCall : ∀ queued ∈ s.queuedAtCall, queued = 0

/-- An open consumer whose socket fails in no call, and yields no more messages than `recvmmsg` is asked for. -/
structure Serving (s : UdpReceiver) : Prop extends Running s where
  recvfrom : .error ∉ s.recvfrom
  recvmmsg : .error ∉ s.recvmmsg
  groups : s.burstSize > 1 → ∀ datagrams ∈ UdpConsumer.arrivals s.recvmmsg, datagrams.length ≤ s.burstSize

/-- No datagram ends the program. -/
structure Ready (s : UdpReceiver) : Prop extends Serving s where
  copies : ∀ d ∈ (if s.burstSize > 1 then (UdpConsumer.arrivals s.recvmmsg).flatten
    else UdpConsumer.arrivals s.recvfrom), UdpConsumer.nullCopy d = false

/-- The frames that are to come. -/
def pending (s : UdpReceiver) : List (FrameHeaderV2 × PayloadVector) :=
  if s.burstSize > 1 then s.recvQueue ++ (UdpConsumer.arrivals s.recvmmsg).flatten.filterMap frameOf
  else (UdpConsumer.arrivals s.recvfrom).filterMap frameOf

/-- The call hands out the first of `frames` and leaves the others; when there is none, it waits. -/
def HandsOut (frames : List (FrameHeaderV2 × PayloadVector)) (r : Option Bool × UdpReceiver) : Prop :=
  match frames with
  | [] => r.1 = none
  | frame :: rest => r.1 = some true ∧ (r.2.header, r.2.payload) = frame ∧ r.2.pending = rest

variable {s : UdpReceiver}

theorem Running.isOpen (h : Running s) : ¬(s.closed = true ∨ s.sock = false) := by simp [h.closed, h.sock]

theorem Running.notClosed (h : Running s) : ¬ s.closed = true := fun hclosed => h.isOpen (.inl hclosed)

theorem Running.hasSock (h : Running s) : ¬ s.sock = false := fun hsock => h.isOpen (.inr hsock)

/-- The socket and the caller's variables are no part of it. -/
theorem Running.congr {t : UdpReceiver} (h : Running s) (hcrashed : t.crashed = s.crashed)
    (hclosed : t.closed = s.closed) (hsock : t.sock = s.sock) (hrecvBuf : t.recvBuf = s.recvBuf)
    (hburstSize : t.burstSize = s.burstSize) (hrecvBufs : t.recvBufs = s.recvBufs)
    (hqueued : t.queuedAtCall = s.queuedAtCall) : Running t where
  crashed := hcrashed ▸ h.crashed
  closed := hclosed ▸ h.closed
  sock := hsock ▸ h.sock
  recvBuf := hrecvBuf ▸ h.recvBuf
  recvBufs := by rw [hburstSize, hrecvBufs]; exact h.recvBufs
  queuedAtCall := hqueued ▸ h.queuedAtCall

theorem mem_arrivals {β : Type} {b : β} {socket : List (Received β)} (h : .error ∉ socket) :
    b ∈ UdpConsumer.arrivals socket ↔ .got b ∈ socket := by
  induction socket with
  | nil => simp [UdpConsumer.arrivals]
  | cons event socket ih =>
    have hsocket := ih fun hmem => h (List.mem_cons_of_mem _ hmem)
    rcases event with c | _ | _
    · simp [UdpConsumer.arrivals, hsocket]
    · simp [UdpConsumer.arrivals, hsocket]
    · exact absurd List.mem_cons_self h

/-- Nor does it matter to what follows what the socket has yielded. -/
theorem Serving.next {t : UdpReceiver} (h : Serving s) (ht : Running t) (hburst : t.burstSize = s.burstSize)
    (hfrom : t.recvfrom ⊆ s.recvfrom) (hmmsg : t.recvmmsg ⊆ s.recvmmsg) : Serving t where
  toRunning := ht
  recvfrom hmem := h.recvfrom (hfrom hmem)
  recvmmsg hmem := h.recvmmsg (hmmsg hmem)
  groups hmany g hg := by
    have herror : .error ∉ t.recvmmsg := fun hmem => h.recvmmsg (hmmsg hmem)
    rw [hburst] at hmany ⊢
    exact h.groups hmany g ((mem_arrivals h.recvmmsg).mpr (hmmsg ((mem_arrivals herror).mp hg)))

theorem Ready.next {t : UdpReceiver} (h : Ready s) (ht : Running t) (hburst : t.burstSize = s.burstSize)
    (hfrom : t.recvfrom ⊆ s.recvfrom) (hmmsg : t.recvmmsg ⊆ s.recvmmsg) : Ready t where
  toServing := h.toServing.next ht hburst hfrom hmmsg
  copies d hd := by
    have herror : .error ∉ t.recvfrom := fun hmem => h.recvfrom (hfrom hmem)
    have herror' : .error ∉ t.recvmmsg := fun hmem => h.recvmmsg (hmmsg hmem)
    apply h.copies d
    rw [hburst] at hd
    split_ifs at hd ⊢ with hmany
    · obtain ⟨g, hg, hdg⟩ := List.mem_flatten.mp hd
      exact List.mem_flatten.mpr ⟨g, (mem_arrivals h.recvmmsg).mpr (hmmsg ((mem_arrivals herror').mp hg)), hdg⟩
    · exact (mem_arrivals h.recvfrom).mpr (hfrom ((mem_arrivals herror).mp hd))

/-- One datagram that `receive_single` hands out. -/
theorem receiveSingle_frame {datagram : List UInt8} {frame : FrameHeaderV2 × PayloadVector}
    (socket : List (Received (List UInt8))) (h : Running s)
    (hcopy : ¬(UdpConsumer.nullCopy datagram = true ∧ s.allocated = false)) (hfound : frameOf datagram = some frame) :
    ∃ t, receiveSingle (.got datagram :: socket) s = (some true, t) ∧ Running t ∧ t.burstSize = s.burstSize ∧
      t.recvfrom = socket ∧ t.recvmmsg = s.recvmmsg ∧ (t.header, t.payload) = frame ∧
      t.allocated = (s.allocated || !frame.2.samples.isEmpty) := by
  have hbuf : (s.recvd datagram).recvBuf = UdpConsumer.buffered datagram ++ s.recvBuf.drop datagram.length :=
    fill_eq h.recvBuf datagram
  obtain ⟨header, payload, allocated, count, hparse, hframe⟩ := parseInto_eq hbuf hcopy
  rw [hfound] at hparse hframe
  obtain ⟨hpair, hallocated⟩ := hframe frame rfl
  have hrunning : Running (s.recvd datagram) :=
    ⟨h.crashed, h.closed, h.sock, (length_fill _ _).trans h.recvBuf, h.recvBufs, h.queuedAtCall⟩
  have hlives : ¬ (s.recvd datagram).crashed = true := by simp [hrunning.crashed]
  rw [receiveSingle.eq_def, if_neg h.isOpen]
  dsimp only
  rw [received_length h.recvBuf, hparse]
  exact ⟨_, Prod.ext (if_neg hlives) rfl, hrunning.congr rfl rfl rfl rfl rfl rfl rfl, rfl, rfl, rfl, hpair, hallocated⟩

theorem receiveSingle_spec {socket : List (Received (List UInt8))} (h : Ready { s with recvfrom := socket })
    (hburst : ¬ s.burstSize > 1) :
    HandsOut ((UdpConsumer.arrivals socket).filterMap frameOf) (receiveSingle socket s) ∧
      Ready (receiveSingle socket s).2 ∧ (receiveSingle socket s).2.burstSize = s.burstSize := by
  induction socket generalizing s with
  | nil =>
    have hopen : ¬(s.closed = true ∨ s.sock = false) := h.isOpen
    rw [receiveSingle.eq_def, if_neg hopen]
    exact ⟨rfl, h, rfl⟩
  | cons event socket ih =>
    have hrunning : Running s := h.congr rfl rfl rfl rfl rfl rfl rfl
    rcases event with datagram | _ | _
    · have hcopy : UdpConsumer.nullCopy datagram = false := by
        apply h.copies
        rw [if_neg hburst]
        exact List.mem_cons_self
      rcases hfound : frameOf datagram with _ | frame
      · -- it is skipped
        have hbuf : (s.recvd datagram).recvBuf = UdpConsumer.buffered datagram ++ s.recvBuf.drop datagram.length :=
          fill_eq h.recvBuf datagram
        obtain ⟨header, payload, allocated, count, hparse, -⟩ := parseInto_eq hbuf (by simp [hcopy])
        have hrecvd : Running (s.recvd datagram) :=
          ⟨h.crashed, h.closed, h.sock, (length_fill _ _).trans h.recvBuf, h.recvBufs, h.queuedAtCall⟩
        have hnext : Ready { s.recvd datagram with
            header := header, payload := payload, allocated := allocated, recvCount := count, recvfrom := socket } :=
          h.next (hrecvd.congr rfl rfl rfl rfl rfl rfl rfl) rfl (List.subset_cons_self _ _) (List.Subset.refl _)
        rw [receiveSingle.eq_def, if_neg hrunning.isOpen]
        dsimp only
        rw [received_length h.recvBuf, hparse, hfound, UdpConsumer.arrivals, List.filterMap_cons_none hfound]
        exact ih hnext hburst
      · obtain ⟨t, hcall, ht, hburst', hrecvfrom, hrecvmmsg, hframe, -⟩ :=
          receiveSingle_frame socket hrunning (by simp [hcopy]) hfound
        rw [hcall, UdpConsumer.arrivals, List.filterMap_cons_some hfound]
        refine ⟨⟨rfl, hframe, ?_⟩, h.next ht hburst' ?_ ?_, hburst'⟩
        · rw [pending, hburst', if_neg hburst, hrecvfrom]
        · rw [hrecvfrom]
          exact List.subset_cons_self _ _
        · rw [hrecvmmsg]
          exact List.Subset.refl _
    · rw [receiveSingle.eq_def, if_neg hrunning.isOpen]
      exact ih (h.next (h.congr rfl rfl rfl rfl rfl rfl rfl) rfl (List.subset_cons_self _ _) (List.Subset.refl _)) hburst
    · exact absurd List.mem_cons_self h.recvfrom

/-- After `recvmmsg` the slots hold the datagrams it took. -/
theorem slotHolds_recvdAll {datagrams : List (List UInt8)}
    (h : ∀ i < datagrams.length, (s.recvBufs i).length = recvBufSize) (i : ℕ) (hi : i < datagrams.length) :
    (s.recvdAll datagrams).SlotHolds i datagrams[i] := by
  refine ⟨⟨(s.recvBufs i).drop datagrams[i].length, ?_⟩, ?_⟩
  · exact (dif_pos hi).trans (fill_eq (h i hi) _)
  · exact (dif_pos hi).trans (received_length (h i hi) _)

theorem running_called (h : Running s) (hqueue : s.recvQueue = []) : Running s.called := by
  refine ⟨h.crashed, h.closed, h.sock, h.recvBuf, h.recvBufs, ?_⟩
  intro queued hmem
  rcases List.mem_append.mp hmem with hold | hnew
  · exact h.queuedAtCall queued hold
  · rw [List.mem_singleton.mp hnew, hqueue, List.length_nil]

/-- One `recvmmsg` with an empty queue: the frames of its datagrams are queued. -/
theorem parseBatch_spec {datagrams : List (List UInt8)} (h : Running s) (hburst : s.burstSize > 1)
    (hqueue : s.recvQueue = []) (hfit : datagrams.length ≤ s.burstSize)
    (hcopy : ∀ d ∈ datagrams, UdpConsumer.nullCopy d = false) :
    ∃ t, (s.called.recvdAll datagrams).parseBatch datagrams.length = t ∧ Running t ∧ t.burstSize = s.burstSize ∧
      t.recvQueue = datagrams.filterMap frameOf ∧ t.recvfrom = s.recvfrom := by
  have hslots : ∀ i (hi : i < datagrams.length), (s.called.recvdAll datagrams).SlotHolds i datagrams[i] :=
    slotHolds_recvdAll fun i hi => h.recvBufs hburst i (hi.trans_le hfit)
  obtain ⟨count, hfold⟩ := foldl_parseSlot (s := s.called.recvdAll datagrams) h.crashed hslots le_rfl
    (by rwa [List.take_length])
  rw [parseBatch, hfold, List.take_length]
  refine ⟨_, rfl, ⟨h.crashed, h.closed, h.sock, h.recvBuf, fun _ i hi => ?_, (running_called h hqueue).queuedAtCall⟩, rfl, ?_,
    rfl⟩
  · show (if hi : i < datagrams.length then fill (s.recvBufs i) datagrams[i] else s.recvBufs i).length = recvBufSize
    split
    · rw [length_fill, h.recvBufs hburst i hi]
    · exact h.recvBufs hburst i hi
  · show s.recvQueue ++ datagrams.filterMap frameOf = _
    rw [hqueue, List.nil_append]

/-- Unless one of them ends the program. -/
theorem parseBatch_crashed {datagrams : List (List UInt8)} (h : Running s) (hburst : s.burstSize > 1)
    (hfit : datagrams.length ≤ s.burstSize) (hnull : ∃ d ∈ datagrams, UdpConsumer.nullCopy d = true) :
    ((s.called.recvdAll datagrams).parseBatch datagrams.length).crashed = true :=
  crashed_foldl (s := s.called.recvdAll datagrams) h.crashed
    (slotHolds_recvdAll fun i hi => h.recvBufs hburst i (hi.trans_le hfit)) le_rfl (by rwa [List.take_length])

/-- A call with frames in its queue takes the first and does not come to the kernel. -/
theorem receiveBatch_front {front : FrameHeaderV2 × PayloadVector} {queue : List (FrameHeaderV2 × PayloadVector)}
    (socket : List (Received (List (List UInt8)))) (hclosed : ¬ s.closed = true) (hqueue : s.recvQueue = front :: queue) :
    receiveBatch socket s = (some true,
      { s with
        header := front.1
        payload := front.2
        allocated := !front.2.samples.isEmpty
        recvQueue := queue
        recvmmsg := socket }) := by
  rw [receiveBatch.eq_def, if_neg hclosed, hqueue]

theorem receiveBatch_queue {socket : List (Received (List (List UInt8)))} {front : FrameHeaderV2 × PayloadVector}
    {queue : List (FrameHeaderV2 × PayloadVector)} (h : Ready { s with recvmmsg := socket })
    (hburst : s.burstSize > 1) (hqueue : s.recvQueue = front :: queue) :
    HandsOut (front :: queue ++ (UdpConsumer.arrivals socket).flatten.filterMap frameOf) (receiveBatch socket s) ∧
      Ready (receiveBatch socket s).2 ∧ (receiveBatch socket s).2.burstSize = s.burstSize := by
  have hclosed : ¬ s.closed = true := h.notClosed
  rw [receiveBatch_front socket hclosed hqueue]
  exact ⟨⟨rfl, rfl, if_pos hburst⟩,
    h.next (h.congr rfl rfl rfl rfl rfl rfl rfl) rfl (List.Subset.refl _) (List.Subset.refl _), rfl⟩

/-- A call that has nothing more to come waits. -/
theorem receiveBatch_wait (h : Ready { s with recvmmsg := [] }) (hqueue : s.recvQueue = []) :
    HandsOut [] (receiveBatch [] s) ∧ Ready (receiveBatch [] s).2 ∧
      (receiveBatch [] s).2.burstSize = s.burstSize := by
  have hclosed : ¬ s.closed = true := h.notClosed
  have hsock : ¬ s.sock = false := h.hasSock
  have hrunning : Running s := h.congr rfl rfl rfl rfl rfl rfl rfl
  have hcall : receiveBatch [] s = (none, { s.called with recvmmsg := [] }) := by
    rw [receiveBatch.eq_def, if_neg hclosed, hqueue]
    exact if_neg hsock
  rw [hcall]
  exact ⟨rfl, h.next ((running_called hrunning hqueue).congr rfl rfl rfl rfl rfl rfl rfl) rfl (List.Subset.refl _)
    (List.Subset.refl _), rfl⟩

theorem receiveBatch_spec {socket : List (Received (List (List UInt8)))} (h : Ready { s with recvmmsg := socket })
    (hburst : s.burstSize > 1) :
    HandsOut (s.recvQueue ++ (UdpConsumer.arrivals socket).flatten.filterMap frameOf) (receiveBatch socket s) ∧
      Ready (receiveBatch socket s).2 ∧ (receiveBatch socket s).2.burstSize = s.burstSize := by
  induction socket generalizing s with
  | nil =>
    rcases hqueue : s.recvQueue with _ | ⟨front, queue⟩
    · exact receiveBatch_wait h hqueue
    · exact receiveBatch_queue h hburst hqueue
  | cons event socket ih =>
    rcases hqueue : s.recvQueue with _ | ⟨front, queue⟩
    · have hclosed : ¬ s.closed = true := h.notClosed
      have hsock : ¬ s.sock = false := h.hasSock
      have hrunning : Running s := h.congr rfl rfl rfl rfl rfl rfl rfl
      rw [receiveBatch.eq_def, if_neg hclosed, hqueue]
      dsimp only
      rw [if_neg hsock, List.nil_append]
      rcases event with datagrams | _ | _
      · have hcopy : ∀ d ∈ datagrams, UdpConsumer.nullCopy d = false := by
          intro d hd
          apply h.copies
          rw [if_pos hburst]
          exact List.mem_flatten.mpr ⟨datagrams, List.mem_cons_self, hd⟩
        obtain ⟨t, hbatch, ht, hburst', hqueue', hrecvfrom⟩ :=
          parseBatch_spec hrunning hburst hqueue (h.groups hburst datagrams List.mem_cons_self) hcopy
        have hnext : Ready { t with recvmmsg := socket } :=
          h.next (ht.congr rfl rfl rfl rfl rfl rfl rfl) hburst' (hrecvfrom ▸ List.Subset.refl _)
            (List.subset_cons_self _ _)
        have hspec := ih hnext (hburst' ▸ hburst)
        dsimp only
        rw [hbatch, if_neg (by simp [ht.crashed]), UdpConsumer.arrivals, List.flatten_cons, List.filterMap_append,
          ← hqueue', ← hburst']
        exact hspec
      · have hcalled : Ready { s.called with recvmmsg := socket } :=
          h.next ((running_called hrunning hqueue).congr rfl rfl rfl rfl rfl rfl rfl) rfl (List.Subset.refl _)
            (List.subset_cons_self _ _)
        have hspec := ih hcalled hburst
        rwa [show s.called.recvQueue = [] from hqueue, List.nil_append] at hspec
      · exact absurd List.mem_cons_self h.recvmmsg
    · exact receiveBatch_queue h hburst hqueue

/-- **One call** hands out the next frame, in either mode. -/
theorem receiveFrame_spec (h : Ready s) :
    HandsOut s.pending s.receiveFrame ∧ Ready s.receiveFrame.2 ∧ s.receiveFrame.2.burstSize = s.burstSize := by
  rw [receiveFrame, pending]
  by_cases hburst : s.burstSize > 1
  · rw [if_pos hburst, if_pos hburst]
    exact receiveBatch_spec h hburst
  · rw [if_neg hburst, if_neg hburst]
    exact receiveSingle_spec h hburst

/-- A run of calls: the frames in order, each once. -/
theorem run_spec (h : Ready s) (n : ℕ) : (run n s).1 = s.pending.take n ∧ Ready (run n s).2 := by
  induction n generalizing s with
  | zero => exact ⟨List.take_zero.symm, h⟩
  | succ n ih =>
    obtain ⟨hhands, hready, -⟩ := receiveFrame_spec h
    rcases hpending : s.pending with _ | ⟨frame, rest⟩
    · rw [hpending] at hhands
      have hcall : s.receiveFrame = (none, s.receiveFrame.2) := Prod.ext hhands rfl
      rw [run, hcall]
      exact ⟨List.take_nil.symm, hready⟩
    · rw [hpending] at hhands
      obtain ⟨htrue, hframe, hrest⟩ := hhands
      have hcall : s.receiveFrame = (some true, s.receiveFrame.2) := Prod.ext htrue rfl
      obtain ⟨hrun, hready'⟩ := ih hready
      rw [run, hcall]
      refine ⟨?_, hready'⟩
      dsimp only
      rw [hrun, hframe, hrest, List.take_succ_cons]

end Calls

/-! ## A new consumer -/

section Create

variable {recvfrom : List (Received (List UInt8))} {recvmmsg : List (Received (List (List UInt8)))}

theorem burstSize_create (n : ℕ) (header : FrameHeaderV2) (payload : PayloadVector) (allocated : Bool) :
    (create n header payload allocated recvfrom recvmmsg).burstSize = max n 1 := by
  show (if n < 1 then 1 else n) = max n 1
  split <;> omega

theorem serving_create {n : ℕ} (header : FrameHeaderV2) (payload : PayloadVector) (allocated : Bool)
    (hsingle : .error ∉ recvfrom) (hbatch : .error ∉ recvmmsg)
    (hgroups : n > 1 → ∀ datagrams ∈ UdpConsumer.arrivals recvmmsg, datagrams.length ≤ n) :
    Serving (create n header payload allocated recvfrom recvmmsg) where
  crashed := rfl
  closed := rfl
  sock := rfl
  recvBuf := List.length_replicate
  recvBufs hburst i hi := by
    rw [burstSize_create] at hburst hi
    have hn : i < n ∧ n > 1 := by omega
    show (if i < n ∧ n > 1 then List.replicate recvBufSize 0 else []).length = recvBufSize
    rw [if_pos hn, List.length_replicate]
  queuedAtCall _ hmem := absurd hmem List.not_mem_nil
  recvfrom := hsingle
  recvmmsg := hbatch
  groups hburst datagrams hmem := by
    rw [burstSize_create] at hburst ⊢
    exact (hgroups (by omega) datagrams hmem).trans (le_max_left n 1)

theorem ready_create {n : ℕ} (header : FrameHeaderV2) (payload : PayloadVector) (allocated : Bool)
    (hsingle : .error ∉ recvfrom) (hbatch : .error ∉ recvmmsg)
    (hgroups : n > 1 → ∀ datagrams ∈ UdpConsumer.arrivals recvmmsg, datagrams.length ≤ n)
    (hcopies : ∀ d ∈ (if n > 1 then (UdpConsumer.arrivals recvmmsg).flatten else UdpConsumer.arrivals recvfrom),
      UdpConsumer.nullCopy d = false) :
    Ready (create n header payload allocated recvfrom recvmmsg) where
  toServing := serving_create header payload allocated hsingle hbatch hgroups
  copies d hd := by
    have hmany : (create n header payload allocated recvfrom recvmmsg).burstSize > 1 ↔ n > 1 := by
      rw [burstSize_create]
      omega
    simp only [hmany] at hd
    exact hcopies d hd

end Create

end UdpReceiver

end Grebe
