import Grebe.Lib.Network
import Grebe.UdpProducer
import Grebe.UdpReceive

/-!
# Grebe.UdpLink — frames over a network that loses datagrams

A producer and a consumer with a network between them.  Which datagrams arrive, how often and in which order, is up to
the network.  Each frame is one datagram, so it arrives whole or not at all.

* `frameOf_datagram`: the consumer makes the frame again that the producer was given.
* `link_frames`: what the consumer's calls return, for every burst size on either side, every kernel and every network.
* `bench_udp`: what a scenario of the benchmark reports.
-/

namespace Grebe

open Lib

/-! ## One datagram -/

section Datagram

open Sender

variable {sock : Bool} {maxDatagramSize : ℕ}

/-- A header that says how long its payload is, in whole samples. -/
def Sender.Op.Framed : Op → Prop
  | .sendFrame header _ => header.magic = FRAME_HEADER_MAGIC ∧ 2 ∣ header.payloadBytes.toNat
  | _ => True

/-- The frame that a call of `send_frame` sends, unless it is refused. -/
def Sender.Op.frame (sock : Bool) (maxDatagramSize : ℕ) : Op → Option (FrameHeaderV2 × PayloadVector)
  | .sendFrame header payload =>
    if sock = true ∧ 64 + header.payloadBytes.toNat ≤ maxDatagramSize then
      some (header, ⟨sample.decodeAll (header.payloadBytes.toNat / 2) (payload.getD []), []⟩)
    else none
  | _ => none

/-- **A datagram is the frame again.** -/
theorem frameOf_datagram {header : FrameHeaderV2} {bytes : List UInt8} (hmagic : header.magic = FRAME_HEADER_MAGIC)
    (heven : 2 ∣ header.payloadBytes.toNat) (hbytes : header.payloadBytes.toNat ≤ bytes.length)
    (hfit : 64 + header.payloadBytes.toNat ≤ recvBufSize) :
    UdpReceiver.frameOf (datagram header bytes) =
      some (header, ⟨sample.decodeAll (header.payloadBytes.toNat / 2) bytes, []⟩) := by
  have hlength : (datagram header bytes).length = 64 + header.payloadBytes.toNat := by
    rw [datagram, List.length_append, length_frameHeader, List.length_take, min_eq_left hbytes]
  have hwhole : UdpConsumer.buffered (datagram header bytes) = datagram header bytes :=
    List.take_of_length_le (hlength.trans_le hfit)
  have hheader : frameHeader.decode (datagram header bytes) = header := frameHeader.decode_encode header _
  have hrest : (datagram header bytes).drop frameHeader.width = bytes.take header.payloadBytes.toNat :=
    List.drop_left' (length_frameHeader header)
  unfold UdpReceiver.frameOf
  dsimp only
  rw [hwhole, if_neg (by rw [hlength, width_frameHeader]; omega), hheader, if_neg (not_not.mpr hmagic), hrest]
  have htaken : (bytes.take header.payloadBytes.toNat).length = header.payloadBytes.toNat := by
    rw [List.length_take, min_eq_left hbytes]
  rw [UdpReceiver.announced, if_pos htaken.ge,
    UdpReceiver.readsWidth_sample.decodeAll_take bytes (by rw [width_sample]; omega), Nat.mul_div_cancel' heven,
    List.drop_eq_nil_of_le (by rw [List.length_take, htaken, min_self])]

variable {op : Op}

/-- What arrives of a call of `send_frame` is its frame. -/
theorem frameOf_sent (hvalid : op.Valid) (hframed : op.Framed) (hlimit : maxDatagramSize ≤ recvBufSize) :
    (op.sent sock maxDatagramSize).bind UdpReceiver.frameOf = op.frame sock maxDatagramSize := by
  cases op with
  | sendFrame header payload =>
    rw [Op.sent, Op.frame]
    split
    · rename_i hfit
      have hbytes : header.payloadBytes.toNat ≤ (payload.getD []).length := by
        by_cases hpos : header.payloadBytes > 0
        · obtain ⟨bytes, rfl, hle⟩ := hvalid hpos
          exact hle
        · rw [eq_zero_of_not_pos hpos]
          exact Nat.zero_le _
      exact frameOf_datagram hframed.1 hframed.2 hbytes (hfit.2.trans hlimit)
    · rfl
  | overwrite bytes => rfl
  | flush => rfl

end Datagram

/-! ## The link -/

namespace UdpLink

section Link

open Sender

variable {sock : Bool} {maxDatagramSize n m : ℕ} {ops : List Op}

/-- The frames that are sent. -/
def framesOf (sock : Bool) (maxDatagramSize : ℕ) (ops : List Op) : List (FrameHeaderV2 × PayloadVector) :=
  ops.filterMap (Op.frame sock maxDatagramSize)

/-- The calls on a socket of a consumer with the burst size `m` yield these datagrams, and none of them fails. -/
structure Yields (m : ℕ) (recvfrom : List (Received (List UInt8))) (recvmmsg : List (Received (List (List UInt8))))
    (datagrams : List (List UInt8)) : Prop where
  recvfrom_ok : .error ∉ recvfrom
  recvmmsg_ok : .error ∉ recvmmsg
  groups : m > 1 → ∀ group ∈ UdpConsumer.arrivals recvmmsg, group.length ≤ m
  yields : (if m > 1 then (UdpConsumer.arrivals recvmmsg).flatten else UdpConsumer.arrivals recvfrom) = datagrams

/-- What a consumer returns of the datagrams that its socket yields. -/
theorem run_yields {recvfrom : List (Received (List UInt8))} {recvmmsg : List (Received (List (List UInt8)))}
    {datagrams : List (List UInt8)} (h : Yields m recvfrom recvmmsg datagrams) (header : FrameHeaderV2)
    (payload : PayloadVector) (allocated : Bool) (calls : ℕ)
    (hcopies : ∀ d ∈ datagrams, UdpConsumer.nullCopy d = false) :
    (UdpReceiver.run calls (UdpReceiver.create m header payload allocated recvfrom recvmmsg)).1 =
      (datagrams.filterMap UdpReceiver.frameOf).take calls := by
  have hready := UdpReceiver.ready_create header payload allocated h.recvfrom_ok h.recvmmsg_ok h.groups
    (by rwa [h.yields])
  have hburst : (UdpReceiver.create m header payload allocated recvfrom recvmmsg).burstSize = max m 1 :=
    UdpReceiver.burstSize_create m header payload allocated
  rw [(UdpReceiver.run_spec hready calls).1, UdpReceiver.pending, ← h.yields]
  by_cases hm : m > 1
  · rw [if_pos (by rw [hburst]; omega), if_pos hm]
    rfl
  · rw [if_neg (by rw [hburst]; omega), if_neg hm]
    rfl

/-- The datagrams of the frames are these frames. -/
theorem filterMap_frameOf (sock : Bool) (hops : ∀ op ∈ ops, op.Valid ∧ op.Framed) (hlimit : maxDatagramSize ≤ recvBufSize) :
    (∀ d ∈ ops.filterMap (Op.sent sock maxDatagramSize),
        ∃ frame, UdpReceiver.frameOf d = some frame ∧ frame.2.past = []) ∧
      (ops.filterMap (Op.sent sock maxDatagramSize)).filterMap UdpReceiver.frameOf =
        framesOf sock maxDatagramSize ops := by
  constructor
  · intro d hd
    obtain ⟨op, hop, hsent⟩ := List.mem_filterMap.mp hd
    have hframe : (op.sent sock maxDatagramSize).bind UdpReceiver.frameOf = op.frame sock maxDatagramSize :=
      frameOf_sent (hops op hop).1 (hops op hop).2 hlimit
    rw [hsent, Option.bind_some] at hframe
    rw [hframe]
    cases op with
    | sendFrame header payload =>
      rw [Op.sent] at hsent
      split at hsent
      · rename_i hfit
        exact ⟨_, if_pos hfit, rfl⟩
      · cases hsent
    | overwrite bytes => cases hsent
    | flush => cases hsent
  · rw [List.filterMap_filterMap, framesOf]
    exact List.filterMap_congr fun op hop => frameOf_sent (hops op hop).1 (hops op hop).2 hlimit

/-- After some operations of a producer the network has the datagrams of the first frames that were not refused, and
whatever it lets through of these, the consumer's calls return the frames at the same places. -/
theorem delivered {burst : ℕ} {s : Sender} (hafter : After burst sock maxDatagramSize ops s)
    (hops : ∀ op ∈ ops, op.Valid ∧ op.Framed) (hlimit : maxDatagramSize ≤ recvBufSize) :
    s.wire.length + s.producer.batchCount = (framesOf sock maxDatagramSize ops).length ∧
      ∀ (route : List ℕ) (m : ℕ) recvfrom recvmmsg, Yields m recvfrom recvmmsg (deliver route (s.wire.filterMap id)) →
        ∀ header payload allocated calls,
          (UdpReceiver.run calls (UdpReceiver.create m header payload allocated recvfrom recvmmsg)).1 =
            (deliver route ((framesOf sock maxDatagramSize ops).take s.wire.length)).take calls := by
  obtain ⟨hsome, hframes⟩ := filterMap_frameOf sock hops hlimit
  have hlogical := hafter.logical
  obtain ⟨datagrams, hdatagrams⟩ : ∃ datagrams, datagrams = ops.filterMap (Op.sent sock maxDatagramSize) := ⟨_, rfl⟩
  rw [Sender.logical, ← hdatagrams] at hlogical
  rw [← hdatagrams] at hsome hframes
  -- a function to the frames makes them a map
  obtain ⟨g, hg⟩ : ∃ g : List UInt8 → FrameHeaderV2 × PayloadVector,
      ∀ d ∈ datagrams, UdpReceiver.frameOf d = some (g d) := by
    refine ⟨fun d => (UdpReceiver.frameOf d).getD ({}, ⟨[], []⟩), fun d hd => ?_⟩
    obtain ⟨frame, hframe, -⟩ := hsome d hd
    simp [hframe]
  have hmap (l : List (List UInt8)) (hl : ∀ d ∈ l, d ∈ datagrams) : l.filterMap UdpReceiver.frameOf = l.map g := by
    rw [← List.filterMap_eq_map]
    exact List.filterMap_congr fun d hd => hg d (hl d hd)
  have hwire : s.wire.filterMap id = datagrams.take s.wire.length := by
    have hprefix := congrArg (List.take s.wire.length) hlogical
    rw [List.take_left, ← List.map_take] at hprefix
    calc s.wire.filterMap id
      _ = ((datagrams.take s.wire.length).map some).filterMap id := congrArg (List.filterMap id) hprefix
      _ = datagrams.take s.wire.length := by rw [List.filterMap_map, Function.id_comp, List.filterMap_some]
  have htake : (s.wire.filterMap id).filterMap UdpReceiver.frameOf =
      (framesOf sock maxDatagramSize ops).take s.wire.length := by
    rw [hwire, ← hframes, hmap _ fun d hd => List.mem_of_mem_take hd, hmap _ fun _ hd => hd, List.map_take]
  have hwired (d) (hd : d ∈ s.wire.filterMap id) : UdpReceiver.frameOf d = some (g d) := by
    rw [hwire] at hd
    exact hg d (List.mem_of_mem_take hd)
  constructor
  · have hlength := congrArg List.length hlogical
    rw [List.length_append, Sender.slotDatagrams, List.length_map, List.length_range', List.length_map] at hlength
    rw [hlength, ← hframes, hmap _ fun _ hd => hd, List.length_map]
  · intro route m recvfrom recvmmsg hyields header payload allocated calls
    have hcopies : ∀ d ∈ deliver route (s.wire.filterMap id), UdpConsumer.nullCopy d = false := by
      intro d hd
      have hmem := mem_of_mem_deliver hd
      rw [hwire] at hmem
      obtain ⟨frame, hframe, hpast⟩ := hsome d (List.mem_of_mem_take hmem)
      exact UdpReceiver.nullCopy_of_past hframe hpast
    rw [run_yields hyields header payload allocated calls hcopies, deliver_filterMap hwired, htake]

/-- A flush leaves no slot filled. -/
theorem after_flush {burst : ℕ} (K : SendKernel burst) {s : Sender} (h : After burst sock maxDatagramSize ops s) :
    ∃ t, Sender.step K s .flush = some t ∧ After burst sock maxDatagramSize (ops ++ [.flush]) t ∧
      t.producer.batchCount = 0 := by
  have hvalid : (Op.flush).Valid := trivial
  obtain ⟨t, hstep, ht⟩ := Sender.after_step K hvalid h
  obtain ⟨u, hflush, hcount, -⟩ := Sender.flush_spec K h.batchCount.le
  obtain rfl : u = t := Option.some.inj (hflush.symm.trans hstep)
  exact ⟨u, hstep, ht, hcount⟩

end Link

end UdpLink

/-! ## The benchmark -/

namespace UdpBench

section Bench

open Sender UdpLink

/-- `max_block_size`. -/
def maxBlockSize (channels : UInt32) (maxDatagram : ℕ) : UInt32 :=
  UInt32.ofNat ((maxDatagram - 64) / (channels.toNat * 2))

/-- The samples of every frame. -/
def benchPayload (channels blockSize : UInt32) : List Int16 :=
  (List.range (channels * blockSize).toNat).map fun i => Int16.ofNat (i &&& 0x7FFF)

/-- The header of the frame after `sent` others. -/
def benchHeader (channels blockSize : UInt32) (rate : Double) (sent : UInt64) : FrameHeaderV2 where
  sequence := sent
  channelCount := channels
  blockLengthSamples := blockSize
  payloadBytes := UInt32.ofNat ((channels * blockSize).toNat * 2)
  sampleRateHz := rate

variable (channels blockSize : UInt32) (rate : Double) {burst maxDatagram : ℕ} (K : SendKernel burst)

/-- The call of `send_frame` in a round. -/
def benchSend (sent : UInt64) : Op :=
  .sendFrame (benchHeader channels blockSize rate sent) (some (sample.encodeAll (benchPayload channels blockSize)))

/-- The sender until the deadline, which it meets after `rounds` rounds. -/
def benchLoop (rounds : ℕ) (r : Sender × UInt64) : Option (Sender × UInt64) :=
  match rounds with
  | 0 => some r
  | rounds + 1 =>
    (Sender.step K r.1 (benchSend channels blockSize rate r.2)).bind fun s =>
      benchLoop rounds (s, if s.returned.getLast? = some true then r.2 + 1 else r.2)

/-- The sender with the last flush, and `sent`. -/
def benchSender (rounds : ℕ) (s : Sender) : Option (Sender × UInt64) :=
  (benchLoop channels blockSize rate K rounds (s, 0)).bind fun r => (Sender.step K r.1 .flush).map fun s => (s, r.2)

/-- The counts of a scenario. -/
structure UdpBenchResult where
  framesSent : UInt64
  framesRecv : UInt64
  dropRate : ℚ

/-- The result of a scenario; the difference is one of `uint64_t`. -/
def UdpBenchResult.of (sent received : UInt64) : UdpBenchResult where
  framesSent := sent
  framesRecv := received
  dropRate := if sent > 0 then ((sent - received).toNat : ℚ) / sent.toNat else 0

/-- The frame that is received for the call after `i` others. -/
def benchFrame (i : ℕ) : FrameHeaderV2 × PayloadVector :=
  (benchHeader channels blockSize rate (UInt64.ofNat i), ⟨benchPayload channels blockSize, []⟩)

variable {channels blockSize}

theorem length_benchPayload :
    (sample.encodeAll (benchPayload channels blockSize)).length = (channels * blockSize).toNat * 2 := by
  rw [length_samples, benchPayload, List.length_map, List.length_range, Nat.mul_comm]

/-- A block of at most the maximal size fits. -/
theorem payload_fits (hchannels : 0 < channels) (hdatagram : 64 ≤ maxDatagram) (hlimit : maxDatagram ≤ recvBufSize)
    (hblock : blockSize ≤ maxBlockSize channels maxDatagram) :
    64 + (channels * blockSize).toNat * 2 ≤ maxDatagram ∧
      (benchHeader channels blockSize rate 0).payloadBytes.toNat = (channels * blockSize).toNat * 2 := by
  have hpos : 0 < channels.toNat := hchannels
  have hblock' : blockSize.toNat * (channels.toNat * 2) ≤ maxDatagram - 64 := by
    have hmax : (maxBlockSize channels maxDatagram).toNat ≤ (maxDatagram - 64) / (channels.toNat * 2) := by
      rw [maxBlockSize, UInt32.toNat_ofNat']
      exact Nat.mod_le _ _
    exact (Nat.le_div_iff_mul_le (by omega)).mp (le_trans hblock hmax)
  have hlimit' : maxDatagram ≤ 65536 := hlimit
  have hproduct : (channels * blockSize).toNat * 2 = blockSize.toNat * (channels.toNat * 2) := by
    have hsmall : channels.toNat * blockSize.toNat * 2 ≤ maxDatagram - 64 := by
      calc channels.toNat * blockSize.toNat * 2
        _ = blockSize.toNat * (channels.toNat * 2) := by ring
        _ ≤ maxDatagram - 64 := hblock'
    rw [UInt32.toNat_mul, Nat.mod_eq_of_lt (by omega)]
    ring
  constructor
  · omega
  · show (UInt32.ofNat ((channels * blockSize).toNat * 2)).toNat = _
    rw [UInt32.toNat_ofNat', Nat.mod_eq_of_lt (by omega)]

/-- The calls of `send_frame` in the first rounds. -/
def benchOps (channels blockSize : UInt32) (rate : Double) (rounds : ℕ) : List Op :=
  (List.range rounds).map fun i => benchSend channels blockSize rate (UInt64.ofNat i)

variable {rate}

theorem benchOps_succ (rounds : ℕ) : benchOps channels blockSize rate (rounds + 1) =
    benchOps channels blockSize rate rounds ++ [benchSend channels blockSize rate (UInt64.ofNat rounds)] := by
  rw [benchOps, List.range_succ, List.map_append]
  rfl

/-- The block of a scenario fits a datagram. -/
structure Fits (channels blockSize : UInt32) (rate : Double) (maxDatagram : ℕ) : Prop where
  fits : 64 + (channels * blockSize).toNat * 2 ≤ maxDatagram
  payloadBytes : ∀ sent, (benchHeader channels blockSize rate sent).payloadBytes.toNat = (channels * blockSize).toNat * 2

variable (h : Fits channels blockSize rate maxDatagram)
include h

theorem Fits.valid (sent : UInt64) :
    (benchSend channels blockSize rate sent).Valid ∧ (benchSend channels blockSize rate sent).Framed := by
  refine ⟨fun _ => ⟨_, rfl, ?_⟩, rfl, ?_⟩
  · rw [h.payloadBytes, length_benchPayload]
  · rw [h.payloadBytes]
    exact dvd_mul_left _ _

theorem Fits.result (sent : UInt64) : (benchSend channels blockSize rate sent).result true maxDatagram = some true := by
  have hfit : 64 + (benchHeader channels blockSize rate sent).payloadBytes.toNat ≤ maxDatagram := by
    rw [h.payloadBytes]
    exact h.fits
  exact congrArg some (decide_eq_true hfit)

theorem Fits.frame (i : ℕ) : (benchSend channels blockSize rate (UInt64.ofNat i)).frame true maxDatagram =
    some (benchFrame channels blockSize rate i) := by
  have hfit : 64 + (benchHeader channels blockSize rate (UInt64.ofNat i)).payloadBytes.toNat ≤ maxDatagram := by
    rw [h.payloadBytes]
    exact h.fits
  have hhalf : (channels * blockSize).toNat * 2 / 2 = (benchPayload channels blockSize).length := by
    rw [Nat.mul_div_cancel _ Nat.two_pos, benchPayload, List.length_map, List.length_range]
  have hdecode := sample.decodeAll_encodeAll (benchPayload channels blockSize) []
  rw [List.append_nil] at hdecode
  rw [benchSend, Op.frame, if_pos ⟨rfl, hfit⟩, h.payloadBytes, Option.getD_some, hhalf, hdecode]
  rfl

theorem Fits.framesOf (rounds : ℕ) : framesOf true maxDatagram (benchOps channels blockSize rate rounds) =
    (List.range rounds).map (benchFrame channels blockSize rate) := by
  rw [UdpLink.framesOf, benchOps, List.filterMap_map, ← List.filterMap_eq_map]
  exact List.filterMap_congr fun i _ => h.frame i

/-- **Every round sends**, and the number in the next header is the number of the rounds. -/
theorem Fits.benchLoop {s : Sender} {k : ℕ} (hs : After burst true maxDatagram (benchOps channels blockSize rate k) s)
    (rounds : ℕ) : ∃ t, benchLoop channels blockSize rate K rounds (s, UInt64.ofNat k) =
        some (t, UInt64.ofNat (k + rounds)) ∧
      After burst true maxDatagram (benchOps channels blockSize rate (k + rounds)) t := by
  induction rounds generalizing s k with
  | zero => exact ⟨s, rfl, hs⟩
  | succ rounds ih =>
    obtain ⟨t, hstep, ht⟩ := Sender.after_step K (h.valid (UInt64.ofNat k)).1 hs
    rw [← benchOps_succ] at ht
    have hreturned : t.returned.getLast? = some true := by
      rw [ht.returned, benchOps_succ, List.filterMap_append, List.filterMap_cons_some (h.result _), List.filterMap_nil,
        List.getLast?_concat]
    have hnext : UInt64.ofNat k + 1 = UInt64.ofNat (k + 1) := by
      rw [UInt64.ofNat_add]
      rfl
    obtain ⟨u, hloop, hu⟩ := ih ht
    rw [Nat.add_right_comm] at hloop hu
    exact ⟨u, by rw [UdpBench.benchLoop, hstep, Option.bind_some, if_pos hreturned, hnext, hloop, Nat.add_assoc], hu⟩

omit h

theorem fits_of_le (hchannels : 0 < channels) (hdatagram : 64 ≤ maxDatagram) (hlimit : maxDatagram ≤ recvBufSize)
    (hblock : blockSize ≤ maxBlockSize channels maxDatagram) : Fits channels blockSize rate maxDatagram :=
  have h := payload_fits rate hchannels hdatagram hlimit hblock
  ⟨h.1, fun _ => h.2⟩

/-- Nothing is subtracted that was not sent. -/
theorem dropRate_of {sent received : ℕ} (hle : received ≤ sent) (hsent : sent < 2 ^ 64) :
    (UdpBenchResult.of (UInt64.ofNat sent) (UInt64.ofNat received)).dropRate = ((sent - received : ℕ) : ℚ) / sent := by
  have hsent' : (UInt64.ofNat sent).toNat = sent := UInt64.toNat_ofNat_of_lt' hsent
  have hreceived : (UInt64.ofNat received).toNat = received := UInt64.toNat_ofNat_of_lt' (hle.trans_lt hsent)
  have hle' : UInt64.ofNat received ≤ UInt64.ofNat sent := by
    rw [UInt64.le_iff_toNat_le, hsent', hreceived]
    exact hle
  rw [UdpBenchResult.of, UInt64.toNat_sub_of_le _ _ hle', hsent', hreceived]
  dsimp only
  split
  · rfl
  · rename_i hzero
    have hzero' : sent = 0 := by
      rw [gt_iff_lt, UInt64.lt_iff_toNat_lt, hsent'] at hzero
      exact Nat.eq_zero_of_not_pos hzero
    rw [hzero', Nat.cast_zero, div_zero]

variable {rounds n : ℕ}

/-- **The benchmark.**  Where the block is at most the maximal one, each round of a scenario sends a frame, however they are
batched; what is received are the frames of the rounds at the places of the route, each with the number of its round and
its samples.  If the network repeats nothing, these are at most those sent, and the drop rate is the part that was lost. -/
theorem bench_udp (K : SendKernel (max n 1)) (hchannels : 0 < channels) (hdatagram : 64 ≤ maxDatagram)
    (hlimit : maxDatagram ≤ recvBufSize) (hblock : blockSize ≤ maxBlockSize channels maxDatagram)
    (hrounds : rounds < 2 ^ 64) :
    ∃ s, benchSender channels blockSize rate K rounds (Sender.create true maxDatagram n) =
        some (s, UInt64.ofNat rounds) ∧
      ∀ (route : List ℕ) (m : ℕ) recvfrom recvmmsg, Yields m recvfrom recvmmsg (deliver route (s.wire.filterMap id)) →
        ∀ header payload allocated calls received,
          (UdpReceiver.run calls (UdpReceiver.create m header payload allocated recvfrom recvmmsg)).1 = received →
          received = ((deliver route (List.range rounds)).map (benchFrame channels blockSize rate)).take calls ∧
          (route.Nodup → received.length ≤ rounds ∧
            (UdpBenchResult.of (UInt64.ofNat rounds) (UInt64.ofNat received.length)).dropRate =
              ((rounds - received.length : ℕ) : ℚ) / rounds) := by
  have h : Fits channels blockSize rate maxDatagram := fits_of_le hchannels hdatagram hlimit hblock
  obtain ⟨t, hloop, ht⟩ := h.benchLoop K (k := 0) (Sender.after_create true maxDatagram n) rounds
  rw [Nat.zero_add] at hloop ht
  obtain ⟨s, hflush, hs, hcount⟩ := after_flush K ht
  refine ⟨s, ?_, ?_⟩
  · show (UdpBench.benchLoop channels blockSize rate K rounds (Sender.create true maxDatagram n, UInt64.ofNat 0)).bind _ = _
    rw [hloop, Option.bind_some, hflush]
    rfl
  have hvalid : ∀ op ∈ benchOps channels blockSize rate rounds ++ [.flush], op.Valid ∧ op.Framed := by
    intro op hop
    rw [List.mem_append, List.mem_singleton] at hop
    rcases hop with hop | rfl
    · obtain ⟨i, -, rfl⟩ := List.mem_map.mp hop
      exact h.valid _
    · exact ⟨trivial, trivial⟩
  have hframes : framesOf true maxDatagram (benchOps channels blockSize rate rounds ++ [.flush]) =
      (List.range rounds).map (benchFrame channels blockSize rate) := by
    rw [← h.framesOf, UdpLink.framesOf, List.filterMap_append]
    exact List.append_nil _
  obtain ⟨hlength, hreceived⟩ := delivered hs hvalid hlimit
  rw [hcount, Nat.add_zero] at hlength
  rw [hlength, List.take_length, hframes] at hreceived
  rintro route m recvfrom recvmmsg hyields header payload allocated calls received rfl
  have hrun := hreceived route m recvfrom recvmmsg hyields header payload allocated calls
  rw [deliver_map] at hrun
  refine ⟨hrun, fun hnodup => ?_⟩
  have hle : ((UdpReceiver.run calls (UdpReceiver.create m header payload allocated recvfrom recvmmsg)).1).length ≤ rounds := by
    calc ((UdpReceiver.run calls (UdpReceiver.create m header payload allocated recvfrom recvmmsg)).1).length
      _ ≤ ((deliver route (List.range rounds)).map (benchFrame channels blockSize rate)).length := by
        rw [hrun]
        exact List.length_take_le' _ _
      _ ≤ (List.range rounds).length := by
        rw [List.length_map]
        exact length_deliver_le hnodup _
      _ = rounds := List.length_range
  exact ⟨hle, dropRate_of hle hrounds⟩

theorem bench_udp_three :
    ∃ s, benchSender 2 16 ⟨0⟩ (oneByOne 4) 3 (Sender.create true 128 4) = some (s, UInt64.ofNat 3) ∧
      ∀ (route : List ℕ) (m : ℕ) recvfrom recvmmsg, Yields m recvfrom recvmmsg (deliver route (s.wire.filterMap id)) →
        ∀ header payload allocated calls received,
          (UdpReceiver.run calls (UdpReceiver.create m header payload allocated recvfrom recvmmsg)).1 = received →
          received = ((deliver route (List.range 3)).map (benchFrame 2 16 ⟨0⟩)).take calls ∧
          (route.Nodup → received.length ≤ 3 ∧
            (UdpBenchResult.of (UInt64.ofNat 3) (UInt64.ofNat received.length)).dropRate =
              ((3 - received.length : ℕ) : ℚ) / (3 : ℕ)) :=
  bench_udp (n := 4) (oneByOne 4) (by decide) (by decide) (by decide) (by decide) (by decide)

end Bench

end UdpBench

end Grebe
