import Mathlib.Tactic
import Grebe.Contracts

/-!
# Grebe.UdpProducer — sending datagrams one by one or in batches

With a burst size above one `send_frame` copies the frame into slot `batch_count_` and leaves pointers to the copies in
the iovecs and messages of the slot; `flush_internal` hands the messages to `sendmmsg`, which may take fewer than it is
offered.  Without, `sendmsg` gets pointers to what the caller passed.  A pointer is read when the kernel is called:

* `IovBase` is what a pointer points to.  The bytes of a vector move when it grows, so a pointer to them has the number
  of the allocation, and reading it later fails (`none`) when there is a newer one.
* `Sender` is a producer with what is around it: the caller's buffer, the datagrams that the kernel took, the calls.
* `logical`: the datagrams taken and those of the slots, together; every step of the batch path extends them as one
  datagram sent at once would (`logical_sendFrame`), and a flush moves them to the wire (`flushInternal_eq`).
* `batched_eq_unbatched`: whatever the burst size and the kernel, the datagrams and the returned values are the same.
-/

namespace Grebe

/-! ## State -/

section State

/-- What an `iov_base` points to. -/
inductive IovBase
  /-- the header that the caller passed -/
  | header (h : FrameHeaderV2)
  /-- the buffer of the caller -/
  | payload
  /-- `&batch_headers_[k]` -/
  | batchHeader (k : ℕ)
  /-- `batch_payloads_[k].data()`, with the allocation it was taken from -/
  | batchPayload (k alloc : ℕ)
deriving DecidableEq

structure Iovec where
  iovBase : IovBase
  iovLen : ℕ
deriving DecidableEq

/-- A message of `sendmmsg`: where its iovecs begin, and how many they are. -/
structure Mmsghdr where
  msgIov : ℕ
  msgIovlen : ℕ
deriving DecidableEq

/-- A `std::vector<uint8_t>`. -/
structure ByteVector where
  data : List UInt8
  capacity : ℕ
  alloc : ℕ
deriving DecidableEq

/-- `resize`; a vector that has to grow moves to the allocation `alloc`. -/
def ByteVector.resize (v : ByteVector) (n alloc : ℕ) : ByteVector where
  data := v.data.take n ++ List.replicate (n - v.data.length) 0
  capacity := max v.capacity n
  alloc := if v.capacity < n then alloc else v.alloc

structure UdpProducer where
  /-- the socket is valid -/
  sock : Bool
  sendCount : ℕ
  maxDatagramSize : ℕ
  burstSize : ℕ
  batchCount : ℕ
  batchHeaders : ℕ → FrameHeaderV2
  batchPayloads : ℕ → ByteVector
  batchIovecs : ℕ → Iovec
  batchMmsg : ℕ → Mmsghdr

/-- The message of slot `k` leads to its own copies. -/
structure UdpProducer.OwnSlot (p : UdpProducer) (k : ℕ) : Prop where
  msg : ∃ n ≤ 2, p.batchMmsg k = ⟨k * 2, n⟩
  header : (p.batchIovecs (k * 2)).iovBase = .batchHeader k
  payload : ∃ alloc, (p.batchIovecs (k * 2 + 1)).iovBase = .batchPayload k alloc

/-- A producer and what is around it. -/
structure Sender where
  producer : UdpProducer
  /-- what the payload pointer points to -/
  buffer : List UInt8
  /-- the number of the next allocation -/
  nextAlloc : ℕ
  /-- how often the kernel was called -/
  calls : ℕ
  /-- the datagrams that the kernel took; `none` if it read what is no longer there -/
  wire : List (Option (List UInt8))
  /-- what the calls of `send_frame` returned -/
  returned : List Bool

/-- A kernel that sends every datagram it is given, and of the messages of a `sendmmsg` at least one and at most those
that remain.  Their number is passed as an `unsigned int`. -/
structure SendKernel (burst : ℕ) where
  sendmsg : ℕ → ℤ
  sendmmsg : ℕ → UInt32 → ℤ
  sent : ∀ call, 0 ≤ sendmsg call
  pos : ∀ call remaining, 0 < remaining → remaining ≤ burst → 1 ≤ sendmmsg call (UInt32.ofNat remaining)
  le : ∀ call remaining, 0 < remaining → remaining ≤ burst → sendmmsg call (UInt32.ofNat remaining) ≤ remaining

end State

/-! ## Sending -/

namespace Sender

section Send

variable (s : Sender)

/-- The bytes that the kernel finds at an iovec. -/
def read (v : Iovec) : Option (List UInt8) :=
  match v.iovBase with
  | .header h => some ((frameHeader.encode h).take v.iovLen)
  | .payload => some (s.buffer.take v.iovLen)
  | .batchHeader k => some ((frameHeader.encode (s.producer.batchHeaders k)).take v.iovLen)
  | .batchPayload k alloc =>
    if (s.producer.batchPayloads k).alloc = alloc then some ((s.producer.batchPayloads k).data.take v.iovLen) else none

/-- The datagram of a message. -/
def gather (iovs : List Iovec) : Option (List UInt8) := (iovs.mapM s.read).map List.flatten

/-- The datagram of slot `k`. -/
def slotDatagram (k : ℕ) : Option (List UInt8) :=
  let msg := s.producer.batchMmsg k
  s.gather ((List.range msg.msgIovlen).map fun j => s.producer.batchIovecs (msg.msgIov + j))

def slotDatagrams (offset n : ℕ) : List (Option (List UInt8)) := (List.range' offset n).map s.slotDatagram

/-- The kernel took `datagrams`. -/
def took (datagrams : List (Option (List UInt8))) : Sender :=
  { s with wire := s.wire ++ datagrams, calls := s.calls + 1 }

/-- The loop of `flush_internal`; `none`: it takes more than `fuel` rounds. -/
def flushLoop (sendmmsg : ℕ → UInt32 → ℤ) : ℕ → ℕ → ℕ → Sender → Option Sender
  | fuel, offset, remaining, s =>
    if remaining > 0 then
      match fuel with
      | 0 => none
      | fuel + 1 =>
        let sent := sendmmsg s.calls (UInt32.ofNat remaining)
        if sent < 0 then some (s.took [])
        else
          flushLoop sendmmsg fuel (offset + sent.toNat) (remaining - sent.toNat)
            (s.took (s.slotDatagrams offset sent.toNat))
    else some s

/-- `flush_internal`. -/
def flushInternal (sendmmsg : ℕ → UInt32 → ℤ) : Option Sender :=
  if s.producer.batchCount = 0 then some s
  else
    (flushLoop sendmmsg s.producer.batchCount 0 s.producer.batchCount s).map fun s =>
      { s with producer := { s.producer with batchCount := 0 } }

/-- The iovecs of `send_scatter_gather`. -/
def scatterGather (header : FrameHeaderV2) (payload : Bool) : List Iovec :=
  if header.payloadBytes > 0 ∧ payload then [⟨.header header, 64⟩, ⟨.payload, header.payloadBytes.toNat⟩]
  else [⟨.header header, 64⟩]

/-- `send_scatter_gather`. -/
def sendScatterGather (sendmsg : ℕ → ℤ) (header : FrameHeaderV2) (payload : Bool) : Sender × Bool :=
  if sendmsg s.calls < 0 then (s.took [], false)
  else
    let t := s.took [s.gather (scatterGather header payload)]
    ({ t with producer := { t.producer with sendCount := t.producer.sendCount + 1 } }, true)

/-- `batch_payloads_[batch_count_]` after the copy. -/
def slotPayload (header : FrameHeaderV2) (payload : Bool) : ByteVector :=
  let v := (s.producer.batchPayloads s.producer.batchCount).resize header.payloadBytes.toNat s.nextAlloc
  if header.payloadBytes > 0 ∧ payload then { v with data := s.buffer.take header.payloadBytes.toNat } else v

/-- The batch path of `send_frame` up to the flush. -/
def fillSlot (header : FrameHeaderV2) (payload : Bool) : Sender :=
  let p := s.producer
  let k := p.batchCount
  let v := s.slotPayload header payload
  { s with
    nextAlloc := s.nextAlloc + 1
    producer := { p with
      batchHeaders := Function.update p.batchHeaders k header
      batchPayloads := Function.update p.batchPayloads k v
      batchIovecs := Function.update (Function.update p.batchIovecs (k * 2) ⟨.batchHeader k, 64⟩) (k * 2 + 1)
        ⟨.batchPayload k v.alloc, header.payloadBytes.toNat⟩
      batchMmsg := Function.update p.batchMmsg k ⟨k * 2, if header.payloadBytes > 0 then 2 else 1⟩
      batchCount := k + 1
      sendCount := p.sendCount + 1 } }

def ret (b : Bool) : Sender := { s with returned := s.returned ++ [b] }

variable {burst : ℕ} (K : SendKernel burst)

/-- `send_frame`; `payload`: the pointer is not null. -/
def sendFrame (header : FrameHeaderV2) (payload : Bool) : Option Sender :=
  if s.producer.sock = false then some (s.ret false)
  else if 64 + header.payloadBytes.toNat > s.producer.maxDatagramSize then some (s.ret false)
  else if s.producer.burstSize > 1 then
    let t := s.fillSlot header payload
    (if t.producer.batchCount ≥ t.producer.burstSize then t.flushInternal K.sendmmsg else some t).map fun t => t.ret true
  else
    let r := s.sendScatterGather K.sendmsg header payload
    some (r.1.ret r.2)

/-- What the user of a producer does. -/
inductive Op
  /-- `send_frame` with a pointer to these bytes, or with a null pointer -/
  | sendFrame (header : FrameHeaderV2) (payload : Option (List UInt8))
  /-- The caller writes into its buffer. -/
  | overwrite (bytes : List UInt8)
  | flush

def step (s : Sender) : Op → Option Sender
  | .sendFrame header payload => sendFrame { s with buffer := payload.getD s.buffer } K header payload.isSome
  | .overwrite bytes => some { s with buffer := bytes }
  | .flush => s.flushInternal K.sendmmsg

def run (s : Sender) (ops : List Op) : Option Sender := ops.foldlM (step K) s

/-- A producer after its constructor and `set_burst_size`. -/
def create (sock : Bool) (maxDatagramSize n : ℕ) : Sender where
  producer :=
    { sock := sock
      sendCount := 0
      maxDatagramSize := maxDatagramSize
      burstSize := if n < 1 then 1 else n
      batchCount := 0
      batchHeaders _ := {}
      batchPayloads _ := ⟨[], 0, 0⟩
      batchIovecs _ := ⟨.payload, 0⟩
      batchMmsg _ := ⟨0, 0⟩ }
  buffer := []
  nextAlloc := 1
  calls := 0
  wire := []
  returned := []

end Send

/-! ## The flush -/

section Flush

variable {burst : ℕ} (K : SendKernel burst) (s : Sender)

/-- The datagrams taken, and those of the slots. -/
def logical : List (Option (List UInt8)) := s.wire ++ s.slotDatagrams 0 s.producer.batchCount

/-- The kernel may take the messages in any pieces: the loop ends, with all of them taken in order. -/
theorem flushLoop_eq (offset : ℕ) {fuel remaining : ℕ} (hfuel : remaining ≤ fuel) (hburst : remaining ≤ burst) :
    ∃ calls, flushLoop K.sendmmsg fuel offset remaining s =
      some { s with wire := s.wire ++ s.slotDatagrams offset remaining, calls := calls } := by
  induction fuel generalizing offset remaining s with
  | zero =>
    obtain rfl : remaining = 0 := by omega
    exact ⟨s.calls, by simp [flushLoop, slotDatagrams]⟩
  | succ fuel ih =>
    unfold flushLoop
    by_cases hpos : remaining > 0
    · have h1 := K.pos s.calls remaining hpos hburst
      have h2 := K.le s.calls remaining hpos hburst
      obtain ⟨m, hm⟩ : ∃ m : ℕ, K.sendmmsg s.calls (UInt32.ofNat remaining) = m :=
        ⟨_, (Int.toNat_of_nonneg (by omega)).symm⟩
      rw [hm] at h1 h2
      obtain ⟨calls, hrest⟩ := ih (s.took (s.slotDatagrams offset m)) (offset + m)
        (show remaining - m ≤ fuel by omega) (by omega)
      have hsplit : s.slotDatagrams offset remaining =
          s.slotDatagrams offset m ++ s.slotDatagrams (offset + m) (remaining - m) := by
        rw [slotDatagrams, slotDatagrams, slotDatagrams, ← List.map_append, List.range'_append_1]
        congr 2
        omega
      refine ⟨calls, ?_⟩
      rw [if_pos hpos]
      dsimp only
      rw [hm, if_neg (by omega), Int.toNat_natCast, hrest, hsplit, ← List.append_assoc]
      rfl
    · obtain rfl : remaining = 0 := by omega
      exact ⟨s.calls, by simp [slotDatagrams]⟩

/-- **`flush_internal`** moves the datagrams of the slots to the wire. -/
theorem flushInternal_eq (hburst : s.producer.batchCount ≤ burst) :
    ∃ calls, s.flushInternal K.sendmmsg =
      some { s with wire := s.logical, calls := calls, producer := { s.producer with batchCount := 0 } } := by
  unfold flushInternal
  split_ifs with h0
  · refine ⟨s.calls, ?_⟩
    have hlogical : s.logical = s.wire := by simp [logical, slotDatagrams, h0]
    rw [hlogical, ← h0]
  · obtain ⟨calls, hloop⟩ := flushLoop_eq K s 0 le_rfl hburst
    exact ⟨calls, by rw [hloop]; rfl⟩

end Flush

/-! ## A frame -/

section Frame

variable {burst : ℕ} (K : SendKernel burst) (s : Sender)

/-- The datagram of a frame: its header, and its payload. -/
def datagram (header : FrameHeaderV2) (bytes : List UInt8) : List UInt8 :=
  frameHeader.encode header ++ bytes.take header.payloadBytes.toNat

theorem gather_scatterGather {header : FrameHeaderV2} {payload : Bool}
    (hpayload : header.payloadBytes > 0 → payload = true) :
    s.gather (scatterGather header payload) = some (datagram header s.buffer) := by
  have hheader : (frameHeader.encode header).take 64 = frameHeader.encode header :=
    List.take_of_length_le (length_frameHeader header).le
  by_cases h0 : header.payloadBytes > 0
  · simp [gather, scatterGather, read, datagram, h0, hpayload h0, hheader]
  · have hzero := eq_zero_of_not_pos h0
    simp [gather, scatterGather, read, datagram, hzero, hheader]

variable {s} {header : FrameHeaderV2} {payload : Bool} {k : ℕ}

@[simp] theorem fillSlot_batchCount : (s.fillSlot header payload).producer.batchCount = s.producer.batchCount + 1 := rfl

theorem fillSlot_batchHeaders_other (hk : k ≠ s.producer.batchCount) :
    (s.fillSlot header payload).producer.batchHeaders k = s.producer.batchHeaders k :=
  Function.update_of_ne hk _ _

theorem fillSlot_batchPayloads_other (hk : k ≠ s.producer.batchCount) :
    (s.fillSlot header payload).producer.batchPayloads k = s.producer.batchPayloads k :=
  Function.update_of_ne hk _ _

theorem fillSlot_batchMmsg_other (hk : k ≠ s.producer.batchCount) :
    (s.fillSlot header payload).producer.batchMmsg k = s.producer.batchMmsg k :=
  Function.update_of_ne hk _ _

theorem fillSlot_batchIovecs_other (hk : k ≠ s.producer.batchCount) {j : ℕ} (hj : j < 2) :
    (s.fillSlot header payload).producer.batchIovecs (k * 2 + j) = s.producer.batchIovecs (k * 2 + j) := by
  show Function.update (Function.update s.producer.batchIovecs (s.producer.batchCount * 2) _)
    (s.producer.batchCount * 2 + 1) _ (k * 2 + j) = _
  rw [Function.update_of_ne (by omega), Function.update_of_ne (by omega)]

theorem fillSlot_batchIovecs_header : (s.fillSlot header payload).producer.batchIovecs (s.producer.batchCount * 2) =
    ⟨.batchHeader s.producer.batchCount, 64⟩ := by
  show Function.update (Function.update s.producer.batchIovecs (s.producer.batchCount * 2) _)
    (s.producer.batchCount * 2 + 1) _ (s.producer.batchCount * 2) = _
  rw [Function.update_of_ne (by omega), Function.update_self]

theorem fillSlot_batchIovecs_payload :
    (s.fillSlot header payload).producer.batchIovecs (s.producer.batchCount * 2 + 1) =
      ⟨.batchPayload s.producer.batchCount (s.slotPayload header payload).alloc, header.payloadBytes.toNat⟩ :=
  Function.update_self _ _ _

theorem fillSlot_batchMmsg_self : (s.fillSlot header payload).producer.batchMmsg s.producer.batchCount =
    ⟨s.producer.batchCount * 2, if header.payloadBytes > 0 then 2 else 1⟩ :=
  Function.update_self _ _ _

/-- The slot that is filled, and those filled before. -/
theorem ownSlot_fillSlot (hown : ∀ k < s.producer.batchCount, s.producer.OwnSlot k) :
    ∀ k < (s.fillSlot header payload).producer.batchCount, (s.fillSlot header payload).producer.OwnSlot k := by
  intro k hk
  rw [fillSlot_batchCount, Nat.lt_succ_iff_lt_or_eq] at hk
  obtain hlt | rfl := hk
  · obtain ⟨hmsg, hheader, hpayload⟩ := hown k hlt
    refine ⟨?_, ?_, ?_⟩
    · rwa [fillSlot_batchMmsg_other hlt.ne]
    · rwa [← Nat.add_zero (k * 2), fillSlot_batchIovecs_other hlt.ne Nat.two_pos]
    · rwa [fillSlot_batchIovecs_other hlt.ne Nat.one_lt_two]
  · refine ⟨⟨if header.payloadBytes > 0 then 2 else 1, ?_, fillSlot_batchMmsg_self⟩, ?_,
      ⟨(s.slotPayload header payload).alloc, ?_⟩⟩
    · split_ifs <;> omega
    · rw [fillSlot_batchIovecs_header]
    · rw [fillSlot_batchIovecs_payload]

/-- The slot that is filled holds the datagram of the frame. -/
theorem slotDatagram_fillSlot
    (hpayload : header.payloadBytes > 0 → payload = true ∧ header.payloadBytes.toNat ≤ s.buffer.length) :
    (s.fillSlot header payload).slotDatagram s.producer.batchCount = some (datagram header s.buffer) := by
  have hheader : (frameHeader.encode header).take 64 = frameHeader.encode header :=
    List.take_of_length_le (length_frameHeader header).le
  have hself : (s.fillSlot header payload).producer.batchHeaders s.producer.batchCount = header :=
    Function.update_self _ _ _
  have hslot : (s.fillSlot header payload).producer.batchPayloads s.producer.batchCount = s.slotPayload header payload :=
    Function.update_self _ _ _
  have hread : (s.fillSlot header payload).read ⟨.batchHeader s.producer.batchCount, 64⟩ =
      some (frameHeader.encode header) := by
    simp only [read, hself, hheader]
  rw [slotDatagram, fillSlot_batchMmsg_self]
  by_cases h0 : header.payloadBytes > 0
  · obtain ⟨hnonnull, -⟩ := hpayload h0
    have hcopy : (s.slotPayload header payload).data = s.buffer.take header.payloadBytes.toNat := by
      simp [slotPayload, h0, hnonnull]
    have hread' : (s.fillSlot header payload).read
        ⟨.batchPayload s.producer.batchCount (s.slotPayload header payload).alloc, header.payloadBytes.toNat⟩ =
          some (s.buffer.take header.payloadBytes.toNat) := by
      simp [read, hslot, hcopy, List.take_take]
    simp [gather, if_pos h0, List.range_succ, fillSlot_batchIovecs_header, fillSlot_batchIovecs_payload, hread, hread',
      datagram]
  · have hzero := eq_zero_of_not_pos h0
    simp [gather, hzero, List.range_succ, fillSlot_batchIovecs_header, hread, datagram]

/-- What the datagram of a slot depends on. -/
theorem slotDatagram_congr {t : Sender} (hown : s.producer.OwnSlot k)
    (hmsg : t.producer.batchMmsg k = s.producer.batchMmsg k)
    (hiovecs : ∀ j < 2, t.producer.batchIovecs (k * 2 + j) = s.producer.batchIovecs (k * 2 + j))
    (hheaders : t.producer.batchHeaders k = s.producer.batchHeaders k)
    (hpayloads : t.producer.batchPayloads k = s.producer.batchPayloads k) : t.slotDatagram k = s.slotDatagram k := by
  obtain ⟨⟨n, hn, hown⟩, hheader, alloc, hpayload⟩ := hown
  have hread0 : t.read (s.producer.batchIovecs (k * 2)) = s.read (s.producer.batchIovecs (k * 2)) := by
    simp only [read, hheader, hheaders]
  have hread1 : t.read (s.producer.batchIovecs (k * 2 + 1)) = s.read (s.producer.batchIovecs (k * 2 + 1)) := by
    simp only [read, hpayload, hpayloads]
  have hiov0 := hiovecs 0 Nat.two_pos
  have hiov1 := hiovecs 1 Nat.one_lt_two
  rw [Nat.add_zero] at hiov0
  rw [slotDatagram, slotDatagram, hmsg, hown]
  obtain rfl | rfl | rfl : n = 0 ∨ n = 1 ∨ n = 2 := by omega
  · rfl
  · simp [gather, List.range_succ, hiov0, hread0]
  · simp [gather, List.range_succ, hiov0, hiov1, hread0, hread1]

/-- **Filling a slot** adds the datagram of the frame to those of the slots. -/
theorem logical_fillSlot (hown : ∀ k < s.producer.batchCount, s.producer.OwnSlot k)
    (hpayload : header.payloadBytes > 0 → payload = true ∧ header.payloadBytes.toNat ≤ s.buffer.length) :
    (s.fillSlot header payload).logical = s.logical ++ [some (datagram header s.buffer)] := by
  have hold : (s.fillSlot header payload).slotDatagrams 0 s.producer.batchCount =
      s.slotDatagrams 0 s.producer.batchCount := by
    apply List.map_congr_left
    intro k hk
    have hlt : k < s.producer.batchCount := by
      rw [List.mem_range'_1] at hk
      omega
    exact slotDatagram_congr (hown k hlt) (fillSlot_batchMmsg_other hlt.ne)
      (fun j hj => fillSlot_batchIovecs_other hlt.ne hj) (fillSlot_batchHeaders_other hlt.ne)
      (fillSlot_batchPayloads_other hlt.ne)
  have hsplit : (s.fillSlot header payload).slotDatagrams 0 (s.producer.batchCount + 1) =
      (s.fillSlot header payload).slotDatagrams 0 s.producer.batchCount ++
        [(s.fillSlot header payload).slotDatagram s.producer.batchCount] := by
    rw [slotDatagrams, slotDatagrams, List.range'_1_concat, List.map_append, Nat.zero_add]
    rfl
  show s.wire ++ (s.fillSlot header payload).slotDatagrams 0 (s.producer.batchCount + 1) = _
  rw [hsplit, hold, slotDatagram_fillSlot hpayload, ← List.append_assoc]
  rfl

end Frame

/-! ## Runs -/

section Runs

variable {burst k : ℕ} (K : SendKernel burst) {s : Sender} {sock : Bool} {maxDatagramSize : ℕ}

/-- A payload pointer that is needed is not null, and points to the whole payload. -/
def Op.Valid : Op → Prop
  | .sendFrame header payload =>
    header.payloadBytes > 0 → ∃ bytes, payload = some bytes ∧ header.payloadBytes.toNat ≤ bytes.length
  | _ => True

/-- What `send_frame` returns where datagrams are sent at once. -/
def Op.result (sock : Bool) (maxDatagramSize : ℕ) : Op → Option Bool
  | .sendFrame header _ => some (sock && decide (64 + header.payloadBytes.toNat ≤ maxDatagramSize))
  | _ => none

/-- The datagram of a call of `send_frame` that is not refused. -/
def Op.sent (sock : Bool) (maxDatagramSize : ℕ) : Op → Option (List UInt8)
  | .sendFrame header payload =>
    if sock = true ∧ 64 + header.payloadBytes.toNat ≤ maxDatagramSize then some (datagram header (payload.getD []))
    else none
  | _ => none

/-- After the operations `ops` of a run: what was sent and returned, and the slots not yet sent. -/
structure After (burst : ℕ) (sock : Bool) (maxDatagramSize : ℕ) (ops : List Op) (s : Sender) : Prop where
  valid : s.producer.sock = sock
  limit : s.producer.maxDatagramSize = maxDatagramSize
  burstSize : s.producer.burstSize = burst
  batchCount : s.producer.batchCount < burst
  own : ∀ k < s.producer.batchCount, s.producer.OwnSlot k
  logical : s.logical = (ops.filterMap (Op.sent sock maxDatagramSize)).map some
  returned : s.returned = ops.filterMap (Op.result sock maxDatagramSize)

theorem after_create (sock : Bool) (maxDatagramSize n : ℕ) :
    After (max n 1) sock maxDatagramSize [] (create sock maxDatagramSize n) := by
  refine ⟨rfl, rfl, ?_, ?_, nofun, rfl, rfl⟩
  · show (if n < 1 then 1 else n) = max n 1
    split_ifs <;> omega
  · exact Nat.lt_of_lt_of_le Nat.one_pos (le_max_right n 1)

/-- The pointers of the slots do not lead to the buffer of the caller. -/
theorem After.buffer {ops : List Op} (h : After burst sock maxDatagramSize ops s) (bytes : List UInt8) :
    After burst sock maxDatagramSize ops { s with buffer := bytes } := by
  refine ⟨h.valid, h.limit, h.burstSize, h.batchCount, h.own, ?_, h.returned⟩
  rw [← h.logical]
  refine congrArg (s.wire ++ ·) (List.map_congr_left ?_)
  intro k hk
  have hlt : k < s.producer.batchCount := by
    rw [List.mem_range'_1] at hk
    have := hk.2
    dsimp only at this
    omega
  exact slotDatagram_congr (h.own k hlt) rfl (fun _ _ => rfl) rfl rfl

/-- What one more operation adds. -/
theorem After.snoc {ops : List Op} {op : Op} {t : Sender} (h : After burst sock maxDatagramSize ops s)
    (hp : t.producer.sock = s.producer.sock ∧ t.producer.maxDatagramSize = s.producer.maxDatagramSize ∧
      t.producer.burstSize = s.producer.burstSize)
    (hcount : t.producer.batchCount < burst) (hown : ∀ k < t.producer.batchCount, t.producer.OwnSlot k)
    (hlogical : t.logical = s.logical ++ (op.sent sock maxDatagramSize).toList.map some)
    (hreturned : t.returned = s.returned ++ (op.result sock maxDatagramSize).toList) :
    After burst sock maxDatagramSize (ops ++ [op]) t := by
  have hsnoc : ∀ {β : Type} (f : Op → Option β), (ops ++ [op]).filterMap f = ops.filterMap f ++ (f op).toList := by
    intro β f
    rw [List.filterMap_append]
    cases hf : f op <;> simp [hf]
  refine ⟨hp.1.trans h.valid, hp.2.1.trans h.limit, hp.2.2.trans h.burstSize, hcount, hown, ?_, ?_⟩
  · rw [hlogical, h.logical, hsnoc, List.map_append]
  · rw [hreturned, h.returned, hsnoc]

/-- The flush of at most `burst` slots. -/
theorem flush_spec (hcount : s.producer.batchCount ≤ burst) :
    ∃ t, s.flushInternal K.sendmmsg = some t ∧ t.producer.batchCount = 0 ∧ t.wire = s.logical ∧ t.logical = s.logical ∧
      t.returned = s.returned ∧ t.producer.sock = s.producer.sock ∧
      t.producer.maxDatagramSize = s.producer.maxDatagramSize ∧ t.producer.burstSize = s.producer.burstSize := by
  obtain ⟨calls, hflush⟩ := flushInternal_eq K s hcount
  exact ⟨_, hflush, rfl, rfl, List.append_nil _, rfl, rfl, rfl, rfl⟩

/-- A frame that is sent at once. -/
theorem after_scatterGather {ops : List Op} {op : Op} {header : FrameHeaderV2} {payload : Bool}
    (h : After burst sock maxDatagramSize ops s) (hone : ¬ s.producer.burstSize > 1)
    (hpayload : header.payloadBytes > 0 → payload = true)
    (hsent : op.sent sock maxDatagramSize = some (datagram header s.buffer))
    (hresult : op.result sock maxDatagramSize = some true) :
    ∃ t, some ((s.sendScatterGather K.sendmsg header payload).1.ret (s.sendScatterGather K.sendmsg header payload).2) =
      some t ∧ After burst sock maxDatagramSize (ops ++ [op]) t := by
  have hcount : s.producer.batchCount = 0 := by
    have := h.batchCount
    rw [← h.burstSize] at this
    omega
  rw [sendScatterGather, if_neg (not_lt.mpr (K.sent _))]
  refine ⟨_, rfl, h.snoc ⟨rfl, rfl, rfl⟩ h.batchCount (fun k hk => absurd hk ?_) ?_ ?_⟩
  · show ¬ k < s.producer.batchCount
    omega
  · have hlogical : s.logical = s.wire := by simp [logical, slotDatagrams, hcount]
    have hnone : s.slotDatagrams 0 s.producer.batchCount = [] := by simp [slotDatagrams, hcount]
    rw [hsent, hlogical]
    show s.wire ++ [s.gather (scatterGather header payload)] ++ s.slotDatagrams 0 s.producer.batchCount = _
    rw [hnone, List.append_nil, gather_scatterGather s hpayload]
    rfl
  · rw [hresult]
    rfl

/-- A frame that goes to a slot, and perhaps a flush. -/
theorem after_fillSlot {ops : List Op} {op : Op} {header : FrameHeaderV2} {payload : Bool}
    (h : After burst sock maxDatagramSize ops s)
    (hpayload : header.payloadBytes > 0 → payload = true ∧ header.payloadBytes.toNat ≤ s.buffer.length)
    (hsent : op.sent sock maxDatagramSize = some (datagram header s.buffer))
    (hresult : op.result sock maxDatagramSize = some true) :
    ∃ t, ((if (s.fillSlot header payload).producer.batchCount ≥ (s.fillSlot header payload).producer.burstSize then
        (s.fillSlot header payload).flushInternal K.sendmmsg else some (s.fillSlot header payload)).map
          fun t => t.ret true) = some t ∧ After burst sock maxDatagramSize (ops ++ [op]) t := by
  have hfill := logical_fillSlot h.own hpayload
  have hbatch := h.batchCount
  split_ifs with hfull
  · obtain ⟨t, hflush, hcount, -, hlogical, hreturned, hp⟩ := flush_spec K (s := s.fillSlot header payload)
      (by rw [fillSlot_batchCount]; omega)
    rw [hflush]
    refine ⟨t.ret true, rfl, h.snoc hp ?_ (fun k hk => absurd hk ?_) ?_ ?_⟩
    · show t.producer.batchCount < burst
      omega
    · show ¬ k < t.producer.batchCount
      omega
    · rw [hsent]
      show t.logical = _
      rw [hlogical, hfill]
      rfl
    · rw [hresult]
      show t.returned ++ [true] = _
      rw [hreturned]
      rfl
  · refine ⟨_, rfl, h.snoc ⟨rfl, rfl, rfl⟩ ?_ (ownSlot_fillSlot h.own) ?_ ?_⟩
    · rw [← h.burstSize]
      exact not_le.mp hfull
    · rw [hsent]
      exact hfill
    · rw [hresult]
      rfl

theorem after_sendFrame {ops : List Op} {header : FrameHeaderV2} {payload : Option (List UInt8)}
    (hop : (Op.sendFrame header payload).Valid) (h : After burst sock maxDatagramSize ops s) :
    ∃ t, step K s (.sendFrame header payload) = some t ∧
      After burst sock maxDatagramSize (ops ++ [.sendFrame header payload]) t := by
  have hbuffer := h.buffer (payload.getD s.buffer)
  have hpayload : header.payloadBytes > 0 → payload.isSome = true ∧
      header.payloadBytes.toNat ≤ (payload.getD s.buffer).length := by
    intro h0
    obtain ⟨bytes, rfl, hlen⟩ := hop h0
    exact ⟨rfl, hlen⟩
  have hdatagram : datagram header (payload.getD []) = datagram header (payload.getD s.buffer) := by
    by_cases h0 : header.payloadBytes > 0
    · obtain ⟨bytes, rfl, -⟩ := hop h0
      rfl
    · simp [datagram, eq_zero_of_not_pos h0]
  -- a frame that is refused
  have hrefuse : (sock && decide (64 + header.payloadBytes.toNat ≤ maxDatagramSize)) = false →
      After burst sock maxDatagramSize (ops ++ [.sendFrame header payload])
        (({ s with buffer := payload.getD s.buffer } : Sender).ret false) := by
    intro hno
    refine hbuffer.snoc ⟨rfl, rfl, rfl⟩ h.batchCount hbuffer.own ?_ ?_
    · have hnone : (Op.sendFrame header payload).sent sock maxDatagramSize = none := by
        simpa [Op.sent] using hno
      rw [hnone, Option.toList_none, List.map_nil, List.append_nil]
      rfl
    · rw [Op.result, hno]
      rfl
  simp only [step, sendFrame]
  by_cases hsock : s.producer.sock = false
  · rw [if_pos hsock]
    refine ⟨_, rfl, hrefuse ?_⟩
    rw [← h.valid, hsock, Bool.false_and]
  by_cases hlarge : 64 + header.payloadBytes.toNat > s.producer.maxDatagramSize
  · rw [if_neg hsock, if_pos hlarge]
    refine ⟨_, rfl, hrefuse ?_⟩
    rw [← h.limit, decide_eq_false (not_le.mpr hlarge), Bool.and_false]
  have hvalid : sock = true ∧ 64 + header.payloadBytes.toNat ≤ maxDatagramSize :=
    ⟨h.valid ▸ Bool.eq_true_of_not_eq_false hsock, h.limit ▸ not_lt.mp hlarge⟩
  have hsent : (Op.sendFrame header payload).sent sock maxDatagramSize =
      some (datagram header (payload.getD s.buffer)) := by
    rw [Op.sent, if_pos hvalid, hdatagram]
  have hresult : (Op.sendFrame header payload).result sock maxDatagramSize = some true := by
    simp [Op.result, hvalid]
  rw [if_neg hsock, if_neg hlarge]
  by_cases hburst : s.producer.burstSize > 1
  · rw [if_pos hburst]
    exact after_fillSlot K hbuffer hpayload hsent hresult
  · rw [if_neg hburst]
    exact after_scatterGather K hbuffer hburst (fun h0 => (hpayload h0).1) hsent hresult

/-- **One operation**, at any burst size. -/
theorem after_step {ops : List Op} {op : Op} (hop : op.Valid) (h : After burst sock maxDatagramSize ops s) :
    ∃ t, step K s op = some t ∧ After burst sock maxDatagramSize (ops ++ [op]) t := by
  cases op with
  | sendFrame header payload => exact after_sendFrame K hop h
  | overwrite bytes =>
    have hbuffer := h.buffer bytes
    exact ⟨_, rfl, hbuffer.snoc ⟨rfl, rfl, rfl⟩ h.batchCount hbuffer.own (List.append_nil _).symm
      (List.append_nil _).symm⟩
  | flush =>
    obtain ⟨t, hflush, hcount, -, hlogical, hreturned, hp⟩ := flush_spec K h.batchCount.le
    refine ⟨t, hflush, h.snoc hp ?_ (fun k hk => absurd hk ?_) ?_ ?_⟩
    · rw [hcount]
      exact (Nat.zero_le _).trans_lt h.batchCount
    · omega
    · rw [hlogical]
      exact (List.append_nil _).symm
    · rw [hreturned]
      exact (List.append_nil _).symm

theorem after_run {ops : List Op} (hops : ∀ op ∈ ops, op.Valid) {done : List Op}
    (h : After burst sock maxDatagramSize done s) :
    ∃ t, run K s ops = some t ∧ After burst sock maxDatagramSize (done ++ ops) t := by
  induction ops generalizing s done with
  | nil => exact ⟨s, rfl, by rwa [List.append_nil]⟩
  | cons op ops ih =>
    obtain ⟨t, hst, ht⟩ := after_step K (hops op (by simp)) h
    obtain ⟨u, hrun, hu⟩ := ih (fun o ho => hops o (by simp [ho])) ht
    refine ⟨u, ?_, by rwa [List.append_assoc] at hu⟩
    rw [run, List.foldlM_cons, hst]
    exact hrun

/-- A whole run, with its last flush. -/
theorem run_flush {n : ℕ} (K : SendKernel (max n 1)) (sock : Bool) (maxDatagramSize : ℕ) {ops : List Op}
    (hops : ∀ op ∈ ops, op.Valid) :
    ∃ s, run K (create sock maxDatagramSize n) (ops ++ [.flush]) = some s ∧
      s.wire = (ops.filterMap (Op.sent sock maxDatagramSize)).map some ∧
      s.returned = ops.filterMap (Op.result sock maxDatagramSize) := by
  obtain ⟨t, hrun, ht⟩ := after_run K hops (after_create sock maxDatagramSize n)
  obtain ⟨u, hflush, -, hwire, -, hreturned, -⟩ := flush_spec K ht.batchCount.le
  have hsplit : run K (create sock maxDatagramSize n) (ops ++ [.flush]) = some u := by
    rw [run, List.foldlM_append]
    show (run K (create sock maxDatagramSize n) ops).bind (fun t => run K t [.flush]) = some u
    rw [hrun, Option.bind_some, run, List.foldlM_cons, step, hflush]
    rfl
  exact ⟨u, hsplit, hwire.trans ht.logical, hreturned.trans ht.returned⟩

/-- **Batches put the same datagrams on the wire.**  Whatever the burst size, the operations and the kernel, after a last
flush the datagrams taken are those of the frames within the limit, in order and each once, as without batches; so are
the returned values, and every flush has ended. -/
theorem batched_eq_unbatched {n : ℕ} (K : SendKernel (max n 1)) (K' : SendKernel 1) (sock : Bool)
    (maxDatagramSize : ℕ) {ops : List Op} (hops : ∀ op ∈ ops, op.Valid) :
    ∃ s t, run K (create sock maxDatagramSize n) (ops ++ [.flush]) = some s ∧
      run K' (create sock maxDatagramSize 1) (ops ++ [.flush]) = some t ∧
      s.wire = t.wire ∧ s.returned = t.returned ∧
      s.wire = (ops.filterMap (Op.sent sock maxDatagramSize)).map some := by
  obtain ⟨s, hs, hwire, hreturned⟩ := run_flush K sock maxDatagramSize hops
  obtain ⟨t, ht, hwire', hreturned'⟩ := run_flush (n := 1) K' sock maxDatagramSize hops
  exact ⟨s, t, hs, ht, hwire.trans hwire'.symm, hreturned.trans hreturned'.symm, hwire⟩

/-- A kernel that takes one message at a time. -/
def oneByOne (burst : ℕ) : SendKernel burst where
  sendmsg _ := 64
  sendmmsg _ _ := 1
  sent _ := by decide
  pos _ _ _ _ := le_rfl
  le _ remaining hpos _ := by exact_mod_cast hpos

/-- Two frames of a byte in a batch of three, the buffer overwritten between them, and one that is too large. -/
def threeFrames : List Op :=
  [.sendFrame { payloadBytes := 1 } (some [7]), .overwrite [9], .sendFrame { payloadBytes := 3 } (some [1, 2, 3]),
    .sendFrame { payloadBytes := 1 } (some [8])]

theorem batched_eq_unbatched_three :
    ∃ s t, run (oneByOne 3) (create true 66 3) (threeFrames ++ [.flush]) = some s ∧
      run (oneByOne 1) (create true 66 1) (threeFrames ++ [.flush]) = some t ∧ s.wire = t.wire ∧
      s.returned = t.returned ∧ s.wire = (threeFrames.filterMap (Op.sent true 66)).map some := by
  apply batched_eq_unbatched (n := 3) (oneByOne 3) (oneByOne 1) true 66
  intro op hop
  simp only [threeFrames, List.mem_cons, List.not_mem_nil, or_false] at hop
  rcases hop with rfl | rfl | rfl | rfl
  · exact fun _ => ⟨_, rfl, by decide⟩
  · trivial
  · exact fun _ => ⟨_, rfl, by decide⟩
  · exact fun _ => ⟨_, rfl, by decide⟩

end Runs

end Sender

end Grebe
