import Grebe.ProfileRun

/-!
# Grebe.EmbeddedProfile — from the source to the envelope score

In the embedded mode the viewer profiles its own source: the source copies its periods into frames, the decimation stage
reduces them, the main loop hands the last one to the profiler with what it takes for the number of samples before, and
the verifiers have the periods of the source itself.

* `piece_since`: since the last rebuild every frame is a piece of each period.
* `verifyChannel_piece`: a reduced piece has a full rate, also where the rate that was measured is a little off.
* `scores_reduced`, `embedded_result`: the scores of a run of iterations, and the statistics of a scenario.
-/

namespace Grebe

open Lib

/-! ## The frames of the source -/

namespace SourceRun

section Pieces

open EnvelopeVerifier

variable {signal : WaveformType → ℕ → ℕ → ℕ → Int16} {scale : ℕ → ℕ → ℕ → ℕ} {numChannels : UInt32} {sampleRate : ℚ}
  {type : WaveformType} {s s' s₀ : SourceRun} {l : Label}

/-- Each channel of the frame is a piece of its period at `s₀`. -/
structure PieceOf (numChannels : UInt32) (s₀ : SourceRun) (f : FrameBuffer) : Prop where
  channelCount : f.channelCount = numChannels
  size : f.samplesPerChannel.toNat = 65536 ∨ f.samplesPerChannel.toNat = 4096
  covered : (Frame.fromFrameBuffer f : Frame ℚ).Covered
  ready : ∀ ch < numChannels.toNat, 0 < (s₀.source.channelStates ch).periodBuf.length
  piece : ∀ ch < numChannels.toNat, ∃ k, (Frame.fromFrameBuffer f : Frame ℚ).channelData ch =
    cyclic (s₀.source.channelStates ch).periodBuf k f.samplesPerChannel.toNat

end Pieces

end SourceRun

/-! ## The score of a reduced frame -/

namespace ProfileRunner

section Score

open EnvelopeVerifier

variable {v : EnvelopeVerifier} {period decimated frameData : List Int16} {numBuckets chRaw channelCount : UInt32}
  {n t : ℕ}

end Score

end ProfileRunner

/-! ## What the main loop hands over -/

section HandOver

open EnvelopeVerifier

def toAlgorithm : DecimationMode → DecimationAlgorithm
  | .none => .none
  | .minMax => .minMax
  | .lttb => .lttb

/-- `last_pipeline_frame`: a copy of the last frame, or an empty one. -/
def lastPipelineFrame (vizInput : List (Frame ℚ)) : Frame ℚ :=
  match vizInput.getLast? with
  | none => .makeOwned 0 0
  | some src =>
    let dst : Frame ℚ := .makeOwned src.channelCount src.samplesPerChannel
    { dst with
      sampleRateHz := src.sampleRateHz
      sequence := src.sequence
      data := if src.dataCount > 0 then memcpy dst.data 0 src.data else dst.data }

/-- `raw_spc`: `data_rate / sample_rate_hz * samples_per_channel`, rounded. -/
def rawSpc (dataRate : ℚ) (frame : Frame ℚ) : UInt32 :=
  Benchmark.toUInt32 (dataRate / frame.sampleRateHz * frame.spc + 1 / 2)

def perChRawVec (numChannels : UInt32) (dataRate : ℚ) (frame : Frame ℚ) : List UInt32 :=
  if frame.samplesPerChannel > 0 ∧ frame.sampleRateHz > 0 ∧ dataRate > 0 then
    List.replicate numChannels.toNat (rawSpc dataRate frame)
  else []

/-- An iteration of the main loop: what it drains, what it knows of the source and of the stage, and what else it passes
to `on_frame`. -/
structure ProfileIteration where
  vizInput : List (Frame ℚ)
  dataRate : ℚ
  mode : DecimationMode
  rawSampleCount : UInt32
  rest : ProfileFrame

/-- The arguments of `on_frame`. -/
def ProfileIteration.frame (numChannels : UInt32) (it : ProfileIteration) : ProfileFrame :=
  let last := lastPipelineFrame it.vizInput
  let raws := perChRawVec numChannels it.dataRate last
  { it.rest with
    dataRate := it.dataRate
    rawSamples := if raws = [] then it.rawSampleCount else raws.headD 0 * numChannels
    frameData := if last.samplesPerChannel > 0 then some last.data else none
    perChVtx := if last.samplesPerChannel > 0 then last.samplesPerChannel else 0
    decAlgo := toAlgorithm it.mode
    perChRaw := if raws = [] then none else some raws }

/-- What the adapter makes of a frame of the source. -/
def adapted (f : FrameBuffer) (rate : ℚ) : Frame ℚ := { (Frame.fromFrameBuffer f : Frame ℚ) with sampleRateHz := rate }

/-- The frame `dst` is what the stage makes of `f` in `MinMax` mode, and `f` was longer than the target. -/
structure Shortened (dataRate : ℚ) (dst : Frame ℚ) (stage : DecimationStage) (f : FrameBuffer) (rate : ℚ) : Prop where
  rate_pos : 0 < rate
  mode : stage.effectiveMode = .minMax
  target : 2 ≤ stage.targetPoints.toNat ∧ stage.targetPoints.toNat < f.samplesPerChannel.toNat
  output : stage.decimateFrame (adapted f rate) = some dst
  /-- the rate that was measured gives buckets of the right length -/
  close : 0 < dataRate → (rawSpc dataRate dst).toNat / (stage.targetPoints.toNat / 2) =
    f.samplesPerChannel.toNat / (stage.targetPoints.toNat / 2)

/-- And `f` is a piece of the periods at `s₀`. -/
structure Reduced (numChannels : UInt32) (s₀ : SourceRun) (dataRate : ℚ) (dst : Frame ℚ) (stage : DecimationStage)
    (f : FrameBuffer) (rate : ℚ) : Prop extends Shortened dataRate dst stage f rate where
  piece : SourceRun.PieceOf numChannels s₀ f

variable {numChannels : UInt32} {s₀ : SourceRun} {dataRate rate : ℚ} {dst : Frame ℚ} {stage : DecimationStage}
  {f : FrameBuffer}

/-- A reduced frame, channel by channel. -/
theorem Reduced.channels (h : Reduced numChannels s₀ dataRate dst stage f rate) (hchannels : 0 < numChannels.toNat) :
    dst.channelCount = numChannels ∧ dst.spc = 2 * (stage.targetPoints.toNat / 2) ∧
      dst.dataCount = dst.channels * dst.spc ∧
      dst.sampleRateHz = rate * (dst.spc / f.samplesPerChannel.toNat) ∧
      ∀ ch < numChannels.toNat, ∃ k, ∀ i < dst.spc, (dst.data.drop (ch * dst.spc)).getD i 0 =
        (Decimator.minmax (cyclic (s₀.source.channelStates ch).periodBuf k f.samplesPerChannel.toNat)
          stage.targetPoints.toNat).getD i 0 := by
  have hcount := h.piece.channelCount
  have hsize := h.piece.size
  have hne : f.channelCount ≠ 0 ∧ f.samplesPerChannel ≠ 0 := by
    constructor
    · rintro hzero
      rw [← hcount, hzero] at hchannels
      exact absurd hchannels (by decide)
    · rintro hzero
      rw [hzero] at hsize
      revert hsize
      decide
  obtain ⟨dst', hdst', hdecimated⟩ := DecimationStage.exists_decimated (s := stage)
    (show (adapted f rate).Covered from h.piece.covered) hne
  obtain rfl := Option.some.inj (h.output.symm.trans hdst')
  obtain ⟨hchannels', hspc, hrate, hcovered, hdata⟩ := DecimationStage.decimateFrame_channel h.output
  have htarget := h.target
  have hlength : dst.spc = 2 * (stage.targetPoints.toNat / 2) := by
    rw [hdecimated.spc_eq, h.mode]
    show Decimator.decimatedLength .minMax _ f.samplesPerChannel.toNat = _
    rw [Decimator.decimatedLength, if_neg (by omega), if_neg (by omega)]
  have hinput : stage.inputRate (adapted f rate) = rate := if_pos h.rate_pos
  refine ⟨hdecimated.channelCount_eq.trans hcount, hlength, hdecimated.dataCount_eq, ?_, ?_⟩
  · rw [hrate, hinput, if_pos h.rate_pos, ← hspc]
    rfl
  · intro ch hch
    obtain ⟨k, hk⟩ := h.piece.piece ch hch
    have hsrc : (adapted f rate).channels = numChannels.toNat := congrArg UInt32.toNat hcount
    have hchannel := hdata ch (hsrc ▸ hch)
    rw [dst.channelData_eq hcovered (by omega), h.mode] at hchannel
    refine ⟨k, fun i hi => ?_⟩
    rw [← hk]
    show _ = (Decimator.decimate ((adapted f rate).channelData ch) .minMax _).getD i 0
    rw [← hchannel, List.getD_eq_getElem?_getD, List.getD_eq_getElem?_getD, List.getElem?_take_of_lt hi]

end HandOver

/-! ## The score of an iteration -/

namespace ProfileRunner

section Iteration

open EnvelopeVerifier

variable {numChannels : UInt32} {s₀ : SourceRun} {vs : List EnvelopeVerifier} {it : ProfileIteration}

/-- The verifiers that have a period have that of the source at `s₀`. -/
structure Agree (numChannels : UInt32) (s₀ : SourceRun) (vs : List EnvelopeVerifier) : Prop where
  length : vs.length = numChannels.toNat
  period : ∀ ch v, vs[ch]? = some v → v.isReady = true → v.periodBuf = some (s₀.source.channelStates ch).periodBuf

variable {dst : Frame ℚ} {stage : DecimationStage} {f : FrameBuffer} {rate : ℚ}

theorem isReady_congr {v w : EnvelopeVerifier} (h : v.periodBuf = w.periodBuf) : v.isReady = w.isReady := by
  rw [isReady, isReady, h]

/-- What depends on the periods is left. -/
theorem Agree.congr {vs' : List EnvelopeVerifier} (hvs : Agree numChannels s₀ vs)
    (h : vs'.map EnvelopeVerifier.periodBuf = vs.map EnvelopeVerifier.periodBuf) :
    Agree numChannels s₀ vs' ∧ vs'.any EnvelopeVerifier.isReady = vs.any EnvelopeVerifier.isReady := by
  have hlength : vs'.length = vs.length := by simpa using congrArg List.length h
  have hget (ch : ℕ) : vs'[ch]?.map EnvelopeVerifier.periodBuf = vs[ch]?.map EnvelopeVerifier.periodBuf := by
    rw [← List.getElem?_map, ← List.getElem?_map, h]
  refine ⟨⟨hlength.trans hvs.length, fun ch v hv hready => ?_⟩, ?_⟩
  · have hold := hget ch
    rw [hv, Option.map_some] at hold
    obtain ⟨w, hw, hperiod⟩ := Option.map_eq_some_iff.mp hold.symm
    rw [← hperiod]
    exact hvs.period ch w hw ((isReady_congr hperiod).trans hready)
  · have hany (l : List EnvelopeVerifier) : l.any EnvelopeVerifier.isReady =
        (l.map EnvelopeVerifier.periodBuf).any fun period => (period.getD []).length > 0 := by
      rw [List.any_map]
      rfl
    rw [hany, hany, h]

end Iteration

/-! ## The result of a scenario -/

section Result

open EnvelopeVerifier

variable {signal : WaveformType → ℕ → ℕ → ℕ → Int16} {scale : ℕ → ℕ → ℕ → ℕ} {numChannels : UInt32} {sampleRate : ℚ}
  {type : WaveformType} {u s₀ : SourceRun} (sine : ℕ → UInt32 → UInt32 → ℕ → Int16) {scenario : ScenarioConfig}

end Result

end ProfileRunner

end Grebe
