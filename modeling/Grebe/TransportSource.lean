import Mathlib.Tactic
import Grebe.DecimationStage
import Grebe.PipeTransport
import Grebe.UdpTransport

/-!
# Grebe.TransportSource — from a transport into the pipeline

`TransportSource` fills a buffer from the header and the payload of a message, and `DataSourceAdapter` makes a frame of
it.  The counts of the frame come from the header, its samples from the payload, and nobody compares them:
`reads_inside_iff_countsFit` says for which messages the decimation stage reads inside the samples, and
`short_datagram_read_outside` shows a datagram for which it does not.
-/

namespace Grebe

open Lib

variable {σ : Type}

/-! ## The source and its adapter -/

section Source

inductive ReadResult
  | ok
  | noData
  | endOfStream
  | error
deriving DecidableEq

/-- The source over a transport with the state `σ`. -/
structure TransportSource (σ : Type) where
  transport : σ
  sampleRate : Double := 0
  sgDropsTotal : UInt64 := 0
  started : Bool := false

/-- The adapter, with the buffer that it reuses. -/
structure DataSourceAdapter (σ : Type) where
  source : TransportSource σ
  fb : FrameBuffer := {}

variable (receive : σ → Option (FrameHeaderV2 × List Int16) × σ)

def TransportSource.readFrame (src : TransportSource σ) (frame : FrameBuffer) :
    ReadResult × FrameBuffer × TransportSource σ :=
  if src.started = false then (.endOfStream, frame, src)
  else
    match receive src.transport with
    | (none, transport) => (.endOfStream, frame, { src with transport })
    | (some (hdr, payload), transport) =>
      (.ok,
        { sequence := hdr.sequence
          producerTsNs := hdr.producerTsNs
          channelCount := hdr.channelCount
          samplesPerChannel := hdr.blockLengthSamples
          data := payload },
        { src with
          transport := transport
          sampleRate := if hdr.sampleRateHz.pos then hdr.sampleRateHz else src.sampleRate
          sgDropsTotal := hdr.sgDropsTotal })

/-- What `process` returns and pushes, and the adapter after it. -/
def DataSourceAdapter.process (a : DataSourceAdapter σ) :
    StageResult × List (Frame Double) × DataSourceAdapter σ :=
  let r := a.source.readFrame receive a.fb
  let next : DataSourceAdapter σ := ⟨r.2.2, r.2.1⟩
  match r.1 with
  | .ok =>
    let frame : Frame Double := .fromFrameBuffer next.fb
    (.ok, [{ frame with sampleRateHz := next.source.sampleRate }], next)
  | .noData => (.noData, [], next)
  | .endOfStream => (.eos, [], next)
  | .error => (.error, [], next)

/-- The frames that the first `n` calls of `process` push, up to the first that yields none. -/
def DataSourceAdapter.run : ℕ → DataSourceAdapter σ → List (Frame Double)
  | 0, _ => []
  | n + 1, a =>
    match process receive a with
    | (.ok, frames, a) => frames ++ run n a
    | (_, frames, _) => frames

/-- A started source behind a fresh adapter. -/
def DataSourceAdapter.over (transport : σ) : DataSourceAdapter σ := ⟨{ transport, started := true }, {}⟩

variable {receive}

/-- The frame of a message: counts of the header, samples of the payload. -/
theorem process_some {a : DataSourceAdapter σ} {hdr : FrameHeaderV2} {payload : List Int16} {transport : σ}
    (hstarted : a.source.started = true) (hreceive : receive a.source.transport = (some (hdr, payload), transport)) :
    ∃ frame next, a.process receive = (.ok, [frame], next) ∧ next.source.started = true ∧
      next.source.transport = transport ∧ frame.channelCount = hdr.channelCount ∧
      frame.samplesPerChannel = hdr.blockLengthSamples ∧ frame.data = payload := by
  simp only [DataSourceAdapter.process, TransportSource.readFrame, hstarted, hreceive, Bool.true_eq_false, if_false]
  exact ⟨_, _, rfl, rfl, rfl, rfl, rfl, rfl⟩

theorem process_none {a : DataSourceAdapter σ} {transport : σ} (hstarted : a.source.started = true)
    (hreceive : receive a.source.transport = (none, transport)) : ∃ next, a.process receive = (.eos, [], next) := by
  simp only [DataSourceAdapter.process, TransportSource.readFrame, hstarted, hreceive, Bool.true_eq_false, if_false]
  exact ⟨_, rfl⟩

/-- The frames of a run have the counts and the samples of what is received. -/
theorem run_covered_iff (n : ℕ) {a : DataSourceAdapter σ} (hstarted : a.source.started = true) :
    (∀ frame ∈ a.run receive n, frame.Covered) ↔
      ∀ r ∈ received receive n a.source.transport,
        r.1.channelCount.toNat * r.1.blockLengthSamples.toNat ≤ r.2.length := by
  induction n generalizing a with
  | zero => simp [DataSourceAdapter.run, received]
  | succ n ih =>
    rcases hreceive : receive a.source.transport with ⟨_ | ⟨hdr, payload⟩, transport⟩
    · obtain ⟨next, hprocess⟩ := process_none hstarted hreceive
      simp [DataSourceAdapter.run, received, hprocess, hreceive]
    · obtain ⟨frame, next, hprocess, hnext, htransport, hch, hspc, hdata⟩ := process_some hstarted hreceive
      have hcovered : frame.Covered ↔ hdr.channelCount.toNat * hdr.blockLengthSamples.toNat ≤ payload.length := by
        rw [Frame.Covered, Frame.channels, Frame.spc, Frame.dataCount, hch, hspc, hdata]
      simp only [DataSourceAdapter.run, received, hprocess, hreceive, List.singleton_append, List.forall_mem_cons,
        hcovered, ih hnext, htransport]

end Source

/-! ## Reads outside the samples -/

section Reads

variable (n : ℕ)

/-- The frames of the first `n` messages from a socket. -/
def udpFrames (c : UdpConsumer) : List (Frame Double) :=
  (DataSourceAdapter.over c).run UdpConsumer.receiveFrame n

/-- The frames of the first `n` messages from a pipe; `read_frame` has a fresh vector for each. -/
def pipeFrames (k : ReadKernel) (input : List UInt8) : List (Frame Double) :=
  (DataSourceAdapter.over ⟨input, 0⟩).run (PipeConsumer.receiveFrame k.count false) n

/-- The stage reads only samples that the frame has. -/
def ReadsInside (frame : Frame Double) : Prop := ∀ i ∈ DecimationStage.readIndices frame, i < frame.dataCount

variable {α β : Type}

/-- A condition on headers and counts of samples carries over between lists that have the same of both. -/
theorem forall_fit_iff {xs : List α} {ys : List β} {f : α → FrameHeaderV2 × ℕ} {g : β → FrameHeaderV2 × ℕ}
    (h : xs.map f = ys.map g) :
    (∀ x ∈ xs, (f x).1.channelCount.toNat * (f x).1.blockLengthSamples.toNat ≤ (f x).2) ↔
      ∀ y ∈ ys, (g y).1.channelCount.toNat * (g y).1.blockLengthSamples.toNat ≤ (g y).2 := by
  have hcarry : ∀ {γ : Type} (zs : List γ) (k : γ → FrameHeaderV2 × ℕ),
      (∀ z ∈ zs, (k z).1.channelCount.toNat * (k z).1.blockLengthSamples.toNat ≤ (k z).2) ↔
        ∀ r ∈ zs.map k, r.1.channelCount.toNat * r.1.blockLengthSamples.toNat ≤ r.2 :=
    fun zs k => by rw [List.forall_mem_map]
  rw [hcarry xs f, h, ← hcarry ys g]

theorem udpFrames_inside_iff (burst : ℕ) (recvfrom : List (Received (List UInt8)))
    (recvmmsg : List (Received (List (List UInt8)))) :
    (∀ frame ∈ udpFrames n ⟨burst, [], recvfrom, recvmmsg⟩, ReadsInside frame) ↔
      ∀ d ∈ ((UdpConsumer.datagrams ⟨burst, [], recvfrom, recvmmsg⟩).filter UdpConsumer.accepts).take n,
        CountsFit (frameHeader.decode (UdpConsumer.buffered d)) ((UdpConsumer.buffered d).length - 64) := by
  have hpending : UdpConsumer.pending ⟨burst, [], recvfrom, recvmmsg⟩ =
      (UdpConsumer.datagrams ⟨burst, [], recvfrom, recvmmsg⟩).filterMap UdpConsumer.extract := by
    unfold UdpConsumer.pending
    split_ifs <;> rfl
  have hmap := congrArg (List.take n) (UdpConsumer.filterMap_extract
    (UdpConsumer.datagrams ⟨burst, [], recvfrom, recvmmsg⟩))
  rw [← List.map_take, ← List.map_take] at hmap
  simp only [ReadsInside, DecimationStage.reads_inside_iff, udpFrames]
  rw [run_covered_iff n rfl, DataSourceAdapter.over, UdpConsumer.received_eq, hpending]
  exact forall_fit_iff hmap

theorem pipeFrames_inside_iff (k : ReadKernel) (input : List UInt8) :
    (∀ frame ∈ pipeFrames n k input, ReadsInside frame) ↔
      ∀ header ∈ heads n input, CountsFit header header.payloadBytes.toNat := by
  simp only [ReadsInside, DecimationStage.reads_inside_iff, pipeFrames]
  rw [run_covered_iff n rfl]
  exact forall_fit_iff (received_pipe k n ⟨input, 0⟩)

/-- **When the pipeline reads inside the samples.**  For every socket (with or without bursts) and every byte stream, and
for every number of messages: the stage reads inside the samples of all their frames if and only if the counts of each
message are within its payload, which for a datagram has to be there in full.  A payload of one byte makes no frame: the
`read` fails, or the program ends. -/
theorem reads_inside_iff_countsFit :
    (∀ (burst : ℕ) (recvfrom : List (Received (List UInt8))) (recvmmsg : List (Received (List (List UInt8)))),
      (∀ frame ∈ udpFrames n ⟨burst, [], recvfrom, recvmmsg⟩, ReadsInside frame) ↔
        ∀ d ∈ ((UdpConsumer.datagrams ⟨burst, [], recvfrom, recvmmsg⟩).filter UdpConsumer.accepts).take n,
          CountsFit (frameHeader.decode (UdpConsumer.buffered d)) ((UdpConsumer.buffered d).length - 64)) ∧
    ∀ (k : ReadKernel) (input : List UInt8),
      (∀ frame ∈ pipeFrames n k input, ReadsInside frame) ↔
        ∀ header ∈ heads n input, CountsFit header header.payloadBytes.toNat :=
  ⟨udpFrames_inside_iff n, pipeFrames_inside_iff n⟩

/-- A header that announces one sample. -/
def oneSample : FrameHeaderV2 := { channelCount := 1, blockLengthSamples := 1, payloadBytes := 2 }

/-- A datagram that ends after its header: the frame has no samples, and the stage reads the first one. -/
theorem short_datagram_read_outside :
    ¬∀ frame ∈ udpFrames 1 ⟨1, [], [.got (frameHeader.encode oneSample)], []⟩, ReadsInside frame := by
  rw [udpFrames_inside_iff]
  decide

end Reads

end Grebe
