import Mathlib.Tactic
import Grebe.Frame
import Grebe.PipeTransport
import Grebe.LinearRuntime

/-!
# Grebe.TransportStages — the stages at the two ends of a pipe

`TransportTxStage` turns each frame of its batch into a header and a payload and sends them; `TransportRxStage` receives
one frame at a time.  `pipe_round_trip`: whatever the kernel does with the bytes on either side, the frames received are
the frames sent.
-/

namespace Grebe

open Lib

/-! ## Sending -/

section Tx

/-- The header that `TransportTxStage` builds; the size of the payload is cut to 32 bits. -/
def txHeader (frame : Frame Double) : FrameHeaderV2 where
  sequence := frame.sequence
  producerTsNs := frame.producerTsNs
  channelCount := frame.channelCount
  blockLengthSamples := frame.samplesPerChannel
  payloadBytes := UInt32.ofNat (frame.dataCount * 2)
  sampleRateHz := frame.sampleRateHz
  firstSampleIndex := frame.firstSampleIndex

variable (writev : ℕ → ℕ → ℤ) (stale : ℕ → List UInt8)

/-- The loop of `TransportTxStage::process`: what it returns, the bytes sent, and the number of the next call. -/
def txLoop (call : ℕ) : List (Frame Double) → StageResult × List UInt8 × ℕ
  | [] => (.ok, [], call)
  | frame :: frames =>
    let r := sendFrame writev (stale call) call (txHeader frame) (some (sample.encodeAll frame.data))
    if r.ok then
      let t := txLoop r.call frames
      (t.1, r.bytes ++ t.2.1, t.2.2)
    else (.error, r.bytes, r.call)

/-- `TransportTxStage::process`. -/
def TransportTxStage.process (call : ℕ) (batch : List (Frame Double)) : StageResult × List UInt8 × ℕ :=
  if batch.isEmpty then (.noData, [], call) else txLoop writev stale call batch

/-- One `process` after the other: what they return, the bytes sent, and the number of the next call. -/
def TransportTxStage.run (call : ℕ) : List (List (Frame Double)) → List StageResult × List UInt8 × ℕ
  | [] => ([], [], call)
  | batch :: batches =>
    let r := process writev stale call batch
    let t := run r.2.2 batches
    (r.1 :: t.1, r.2.1 ++ t.2.1, t.2.2)

end Tx

/-! ## Receiving -/

section Rx

variable (read : ℕ → ℕ → ℕ → ℤ)

/-- `TransportRxStage::process` over a pipe; `allocated`: its `payload_`, which it keeps from call to call, has storage. -/
def TransportRxStage.process (allocated : Bool) (p : PipeEnd) : StageResult × List (Frame Double) × PipeEnd :=
  match PipeConsumer.receiveFrame read allocated p with
  | (none, p) => (.eos, [], p)
  | (some (header, payload), p) =>
    let ch := header.channelCount
    let spc := header.blockLengthSamples
    let frame : Frame Double := .makeOwned ch spc
    let count := ch.toNat * spc.toNat
    let data := if count > 0 ∧ payload.length ≥ count then payload.take count else frame.data
    (.ok,
      [{ frame with
        sequence := header.sequence
        producerTsNs := header.producerTsNs
        channelCount := ch
        samplesPerChannel := spc
        sampleRateHz := header.sampleRateHz
        firstSampleIndex := header.firstSampleIndex
        data := data }], p)

/-- What the first `n` calls of `process` return and push; `allocated n` is for the call before the last `n`. -/
def TransportRxStage.run (allocated : ℕ → Bool) : ℕ → PipeEnd → List (StageResult × List (Frame Double))
  | 0, _ => []
  | n + 1, p =>
    let r := process read (allocated n) p
    (r.1, r.2.1) :: run allocated n r.2.2

end Rx

/-! ## The round trip -/

section RoundTrip

/-- A frame as the stages send it: its counts describe its samples, the payload has a 32-bit size, and the reserved
flags, which have no place in the header, are clear. -/
structure Sendable (frame : Frame Double) : Prop where
  count : frame.dataCount = frame.channels * frame.spc
  size : 2 * frame.dataCount < 2 ^ 32
  flags : frame.flags = 0

/-- The bytes of a frame on the wire. -/
def wire (frame : Frame Double) : List UInt8 := frameHeader.encode (txHeader frame) ++ sample.encodeAll frame.data

variable {frame : Frame Double} {stale : ℕ → List UInt8}

theorem payloadBytes_txHeader (h : 2 * frame.dataCount < 2 ^ 32) :
    (txHeader frame).payloadBytes.toNat = 2 * frame.data.length := by
  have hmod : frame.dataCount * 2 % 2 ^ 32 = frame.dataCount * 2 := Nat.mod_eq_of_lt (by omega)
  rw [txHeader, UInt32.toNat_ofNat', hmod, Nat.mul_comm]
  rfl

/-- Every send of the loop succeeds, and the bytes are those of the frames in order. -/
theorem txLoop_eq (k : WriteKernel) (call : ℕ) {frames : List (Frame Double)} (hframes : ∀ f ∈ frames, Sendable f) :
    (txLoop k.count stale call frames).1 = .ok ∧
      (txLoop k.count stale call frames).2.1 = frames.flatMap wire ∧
      (txLoop k.count stale call frames).2.2 ≤ call + (frames.flatMap wire).length := by
  induction frames generalizing call with
  | nil => exact ⟨rfl, rfl, le_rfl⟩
  | cons frame frames ih =>
    have hframe := hframes frame (by simp)
    have hlen : (sample.encodeAll frame.data).length = (txHeader frame).payloadBytes.toNat := by
      rw [length_samples, payloadBytes_txHeader hframe.size]
    obtain ⟨hok, hbytes, hcall⟩ := sendFrame_eq k (stale call) call hlen
    obtain ⟨hok', hbytes', hcall'⟩ :=
      ih (sendFrame k.count (stale call) call (txHeader frame) (some (sample.encodeAll frame.data))).call
        fun f hf => hframes f (by simp [hf])
    simp only [txLoop, hok, if_true, hbytes, hbytes', List.flatMap_cons, List.length_append]
    refine ⟨hok', rfl, ?_⟩
    rw [List.length_append] at hcall
    simp only [wire, List.length_append] at hcall hcall' ⊢
    omega

theorem txRun_eq (k : WriteKernel) (call : ℕ) {batches : List (List (Frame Double))}
    (hframes : ∀ f ∈ batches.flatten, Sendable f) :
    (TransportTxStage.run k.count stale call batches).1 =
        batches.map (fun batch => if batch.isEmpty then .noData else .ok) ∧
      (TransportTxStage.run k.count stale call batches).2.1 = batches.flatten.flatMap wire ∧
      (TransportTxStage.run k.count stale call batches).2.2 ≤ call + (batches.flatten.flatMap wire).length := by
  induction batches generalizing call with
  | nil => exact ⟨rfl, rfl, le_rfl⟩
  | cons batch batches ih =>
    have hbatch : (TransportTxStage.process k.count stale call batch).1 = (if batch.isEmpty then .noData else .ok) ∧
        (TransportTxStage.process k.count stale call batch).2.1 = batch.flatMap wire ∧
        (TransportTxStage.process k.count stale call batch).2.2 ≤ call + (batch.flatMap wire).length := by
      unfold TransportTxStage.process
      cases batch with
      | nil => exact ⟨rfl, rfl, le_rfl⟩
      | cons frame frames => exact txLoop_eq k call fun f hf => hframes f (List.mem_flatten_of_mem (by simp) hf)
    obtain ⟨hres, hbytes, hcall⟩ := hbatch
    obtain ⟨hres', hbytes', hcall'⟩ := ih (TransportTxStage.process k.count stale call batch).2.2 fun f hf =>
      hframes f (by simp only [List.flatten_cons, List.mem_append]; exact .inr hf)
    simp only [TransportTxStage.run, List.map_cons, List.flatten_cons, List.flatMap_append, List.length_append, hres,
      hbytes, hres', hbytes', true_and]
    omega

/-- One `process` of the receiver takes one frame off the stream. -/
theorem rxProcess_wire (k : ReadKernel) (allocated : Bool) (h : Sendable frame) (rest : List UInt8) (call : ℕ) :
    ∃ call', TransportRxStage.process k.count allocated ⟨wire frame ++ rest, call⟩ =
      (.ok, [frame], ⟨rest, call'⟩) := by
  obtain ⟨call', hreceive⟩ :=
    receiveFrame_eq k allocated (txHeader frame) frame.data rest call rfl (payloadBytes_txHeader h.size)
  refine ⟨call', ?_⟩
  have hcount : frame.data.length = frame.channelCount.toNat * frame.samplesPerChannel.toNat := h.count
  have hdata : (if frame.channelCount.toNat * frame.samplesPerChannel.toNat > 0 ∧
        frame.data.length ≥ frame.channelCount.toNat * frame.samplesPerChannel.toNat then
      frame.data.take (frame.channelCount.toNat * frame.samplesPerChannel.toNat)
      else List.replicate (frame.channelCount.toNat * frame.samplesPerChannel.toNat) 0) = frame.data := by
    rw [← hcount]
    by_cases h0 : frame.data.length > 0
    · rw [if_pos ⟨h0, le_rfl⟩, List.take_length]
    · have hnil : frame.data = [] := List.length_eq_zero_iff.mp (by omega)
      rw [if_neg (fun hc => h0 hc.1), hnil]
      rfl
  rw [TransportRxStage.process, wire, hreceive]
  dsimp only [txHeader, Frame.makeOwned]
  rw [hdata]
  obtain ⟨_, _, _, _, _, _, flags, _⟩ := frame
  obtain rfl : flags = 0 := h.flags
  rfl

/-- The receiver yields the frames on the wire one by one, and then the end of the stream. -/
theorem rxRun_wire (k : ReadKernel) (allocated : ℕ → Bool) (call : ℕ) {frames : List (Frame Double)}
    (hframes : ∀ f ∈ frames, Sendable f) :
    TransportRxStage.run k.count allocated (frames.length + 1) ⟨frames.flatMap wire, call⟩ =
      frames.map (fun f => (.ok, [f])) ++ [(.eos, [])] := by
  induction frames generalizing call with
  | nil =>
    have hnone := receiveFrame_nil k (allocated 0) call
    have hprocess : (TransportRxStage.process k.count (allocated 0) ⟨[], call⟩).1 = .eos ∧
        (TransportRxStage.process k.count (allocated 0) ⟨[], call⟩).2.1 = [] := by
      unfold TransportRxStage.process
      split
      · exact ⟨rfl, rfl⟩
      · rename_i heq
        rw [heq] at hnone
        cases hnone
    simp only [List.length_nil, List.flatMap_nil, TransportRxStage.run, hprocess.1, hprocess.2,
      List.map_nil, List.nil_append]
  | cons frame frames ih =>
    obtain ⟨call', hfirst⟩ := rxProcess_wire k (allocated (frames.length + 1)) (hframes frame (by simp))
      (frames.flatMap wire) call
    rw [List.length_cons, TransportRxStage.run, List.flatMap_cons, hfirst, List.map_cons, List.cons_append]
    exact congrArg _ (ih call' fun f hf => hframes f (by simp [hf]))

/-- **The round trip.**  For every stream of frames cut into batches in any way, every behaviour of the kernel at the two
ends of the pipe and whatever storage the receiver has: every send succeeds after finitely many calls, the bytes written
are the headers and payloads of the frames in order, and the receiver yields exactly these frames and then the end of the
stream. -/
theorem pipe_round_trip (w : WriteKernel) (r : ReadKernel) (stale : ℕ → List UInt8) (allocated : ℕ → Bool)
    (batches : List (List (Frame Double))) (hframes : ∀ f ∈ batches.flatten, Sendable f) :
    (TransportTxStage.run w.count stale 0 batches).1 =
        batches.map (fun batch => if batch.isEmpty then .noData else .ok) ∧
    (TransportTxStage.run w.count stale 0 batches).2.2 ≤ (TransportTxStage.run w.count stale 0 batches).2.1.length ∧
    (TransportTxStage.run w.count stale 0 batches).2.1 =
        batches.flatten.flatMap (fun f => frameHeader.encode (txHeader f) ++ sample.encodeAll f.data) ∧
    TransportRxStage.run r.count allocated (batches.flatten.length + 1)
        ⟨(TransportTxStage.run w.count stale 0 batches).2.1, 0⟩ =
      batches.flatten.map (fun f => (.ok, [f])) ++ [(.eos, [])] := by
  obtain ⟨hres, hbytes, hcall⟩ := txRun_eq w 0 hframes
  refine ⟨hres, by rw [hbytes]; omega, hbytes, ?_⟩
  rw [hbytes]
  exact rxRun_wire r allocated 0 hframes

/-- A kernel that takes one byte at a time. -/
def bytewiseWrites : WriteKernel where
  count _ offered := min 1 offered
  pos _ _ h := by omega
  le _ _ := by omega

/-- A kernel that yields one byte at a time. -/
def bytewiseReads : ReadKernel where
  count _ len available := min 1 (min len available)
  pos _ _ _ _ _ := by omega
  le_len _ _ _ := by omega
  le_available _ _ _ := by omega

/-- One sample on each of two channels. -/
def twoChannels : Frame Double := ⟨7, 1000, 2, 1, ⟨0x3FF0000000000000⟩, 40, 0, [-1, 300]⟩

/-- A frame without samples. -/
def noSamples : Frame Double := ⟨8, 2000, 2, 0, ⟨0x3FF0000000000000⟩, 41, 0, []⟩

/-- **A round trip**, byte by byte, of two frames with an empty batch between them. -/
theorem pipe_round_trip_bytewise :
    TransportRxStage.run bytewiseReads.count (fun _ => false) 3
        ⟨(TransportTxStage.run bytewiseWrites.count (fun _ => []) 0 [[twoChannels], [], [noSamples]]).2.1, 0⟩ =
      [(.ok, [twoChannels]), (.ok, [noSamples]), (.eos, [])] := by
  have hsendable : ∀ f ∈ [[twoChannels], [], [noSamples]].flatten, Sendable f := by
    intro f hf
    obtain rfl | rfl : f = twoChannels ∨ f = noSamples := by simpa using hf
    · exact ⟨by decide, by decide, rfl⟩
    · exact ⟨by decide, by decide, rfl⟩
  exact (pipe_round_trip bytewiseWrites bytewiseReads (fun _ => []) (fun _ => false) _ hsendable).2.2.2

end RoundTrip

end Grebe
