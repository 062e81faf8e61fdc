import Mathlib.Tactic
import Grebe.Decimator
import Grebe.Frame
import Grebe.LinearRuntime

/-!
# Grebe.DecimationStage — each channel of a frame decimated on its own

Rates are rational numbers, so that the rescaled rate of a decimated frame is exact.

* `decimateFrame`: what the loop of `process` does with one frame.
* `readIndices`: which samples it reads; `decimateFrame_reads` says that it depends on no others.
* `decimateFrame_channel`: the channels of the output are those of the input, decimated.
* `process_decimated`: a batch gives one frame for each that has samples, with its framing and its duration.
-/

namespace Grebe

/-- The stage: its mode, its target, and the rate to use where a frame has none. -/
structure DecimationStage where
  mode : DecimationMode
  targetPoints : UInt32
  sampleRate : ℚ := 0

namespace DecimationStage

/-- 100 MSPS -/
def kLttbHighRateThreshold : ℚ := 100000000

variable (s : DecimationStage)

def effectiveMode : DecimationMode :=
  if s.mode = .lttb ∧ s.sampleRate ≥ kLttbHighRateThreshold then .minMax else s.mode

/-! ## One frame -/

section Frame

variable {ρ : Type}

/-- The indices that the loop reads of a frame. -/
def readIndices (src : Frame ρ) : List ℕ :=
  if src.channelCount = 0 ∨ src.samplesPerChannel = 0 then []
  else (List.range src.channels).flatMap src.channelIndices

/-- `ch_results` -/
def chResults (src : Frame ℚ) : List (List Int16) :=
  (List.range src.channels).map fun ch =>
    Decimator.decimate (src.channelData ch) s.effectiveMode s.targetPoints.toNat

/-- The rate that the output is rescaled from. -/
def inputRate (src : Frame ℚ) : ℚ := if src.sampleRateHz > 0 then src.sampleRateHz else s.sampleRate

/-- The body of the loop: `none` where it continues with the next frame. -/
def decimateFrame (src : Frame ℚ) : Option (Frame ℚ) :=
  if src.channelCount = 0 ∨ src.samplesPerChannel = 0 then none
  else
    let decimatedSpc := UInt32.ofNat ((s.chResults src).headD []).length
    let dst : Frame ℚ := .makeOwned src.channelCount decimatedSpc
    some
      { dst with
        sequence := src.sequence
        producerTsNs := src.producerTsNs
        sampleRateHz :=
          if src.spc > 0 ∧ s.inputRate src > 0 then s.inputRate src * (decimatedSpc.toNat / src.spc)
          else s.inputRate src
        firstSampleIndex := src.firstSampleIndex
        flags := src.flags
        data := concatChannels decimatedSpc.toNat 0 dst.data (s.chResults src) }

def process (batch : List (Frame ℚ)) : StageResult × List (Frame ℚ) :=
  if batch.isEmpty then (.noData, []) else (.ok, batch.filterMap s.decimateFrame)

/-- The samples of a frame matter only where `readIndices` says. -/
theorem decimateFrame_reads {src : Frame ℚ} {samples : List Int16}
    (h : ∀ i ∈ readIndices src, src.data.getD i 0 = samples.getD i 0) :
    s.decimateFrame { src with data := samples } = s.decimateFrame src := by
  by_cases h0 : src.channelCount = 0 ∨ src.samplesPerChannel = 0
  · rw [decimateFrame, decimateFrame, if_pos h0, if_pos h0]
  · have hresults : s.chResults { src with data := samples } = s.chResults src := by
      apply List.map_congr_left
      intro ch hch
      have hchannel : ({ src with data := samples } : Frame ℚ).channelData ch = src.channelData ch := by
        refine List.map_congr_left fun i hi => (h i ?_).symm
        rw [readIndices, if_neg h0]
        exact List.mem_flatMap.mpr ⟨ch, hch, hi⟩
      rw [hchannel]
    simp only [decimateFrame, hresults]
    rfl

/-- The reads of a frame lie in its samples exactly when the samples cover the counts. -/
theorem reads_inside_iff (src : Frame ρ) : (∀ i ∈ readIndices src, i < src.dataCount) ↔ src.Covered := by
  by_cases h0 : src.channelCount = 0 ∨ src.samplesPerChannel = 0
  · have hzero : src.channels * src.spc = 0 := by
      rcases h0 with h0 | h0 <;> simp [Frame.channels, Frame.spc, h0]
    simp [readIndices, h0, Frame.Covered, hzero]
  · rw [src.covered_iff, readIndices, if_neg h0]
    simp only [List.mem_flatMap, List.mem_range, forall_exists_index, and_imp]
    exact ⟨fun h ch hch i hi => h i ch hch hi, fun h i ch hch hi => h ch hch i hi⟩

end Frame

/-! ## The output -/

section Output

variable {s} {src dst : Frame ℚ}

/-- How many samples of each channel are left. -/
def decimatedSpc (s : DecimationStage) (src : Frame ℚ) : ℕ :=
  (Decimator.decimate (List.replicate src.spc 0) s.effectiveMode s.targetPoints.toNat).length

/-- All channels are decimated to the same length. -/
theorem length_of_mem_chResults {r : List Int16} (h : r ∈ s.chResults src) : r.length = s.decimatedSpc src := by
  obtain ⟨ch, _, rfl⟩ := List.mem_map.mp h
  exact Decimator.length_decimate_congr (by simp) _ _

theorem length_chResults : (s.chResults src).length = src.channels := by simp [chResults]

/-- The count of the output fits its 32 bits. -/
theorem toNat_decimatedSpc (h0 : src.channelCount ≠ 0) :
    (UInt32.ofNat ((s.chResults src).headD []).length).toNat = s.decimatedSpc src := by
  have hne : s.chResults src ≠ [] := by
    rw [← List.length_pos_iff, length_chResults]
    exact Nat.pos_of_ne_zero fun h => h0 (UInt32.toNat.inj h)
  obtain ⟨r, rs, hcons⟩ := List.exists_cons_of_ne_nil hne
  have hlen : r.length = s.decimatedSpc src := length_of_mem_chResults (by rw [hcons]; simp)
  have hle : s.decimatedSpc src ≤ src.spc := by
    have h := Decimator.length_decimate_le (List.replicate src.spc 0) s.effectiveMode s.targetPoints.toNat
    rwa [List.length_replicate] at h
  have hlt : src.spc < 2 ^ 32 := src.samplesPerChannel.toNat_lt
  rw [hcons, List.headD_cons, hlen, UInt32.toNat_ofNat', Nat.mod_eq_of_lt (by omega)]

/-- **What the output is**: the counts, the rate, and the channels of the input, decimated. -/
theorem decimateFrame_channel (h : s.decimateFrame src = some dst) :
    dst.channels = src.channels ∧ dst.spc = s.decimatedSpc src ∧
      dst.sampleRateHz =
        (if s.inputRate src > 0 then s.inputRate src * (s.decimatedSpc src / src.spc) else s.inputRate src) ∧
      dst.Covered ∧
      ∀ ch < src.channels,
        dst.channelData ch = Decimator.decimate (src.channelData ch) s.effectiveMode s.targetPoints.toNat := by
  by_cases h0 : src.channelCount = 0 ∨ src.samplesPerChannel = 0
  · rw [decimateFrame, if_pos h0] at h
    cases h
  · obtain ⟨hch, hspc⟩ := not_or.mp h0
    have hpos : src.spc > 0 := Nat.pos_of_ne_zero fun h => hspc (UInt32.toNat.inj h)
    have hcount := toNat_decimatedSpc (s := s) hch
    rw [decimateFrame, if_neg h0] at h
    obtain rfl := Option.some.inj h
    have hsame : ∀ r ∈ s.chResults src, r.length = s.decimatedSpc src := fun r hr => length_of_mem_chResults hr
    have hdata := concatChannels_flatten hsame length_chResults.symm
    refine ⟨rfl, hcount, ?_, ?_, ?_⟩
    · simp only [hcount, hpos, true_and]
    · simp only [Frame.Covered, Frame.dataCount, Frame.channels, Frame.spc, Frame.makeOwned, hcount]
      rw [← Frame.channels, hdata, length_flatten_of_forall hsame, length_chResults]
    · intro ch hlt
      rw [← hcount] at hsame hdata
      have hlt' : ch < (s.chResults src).length := by rwa [length_chResults]
      refine Eq.trans (channelData_of_flatten ?_ ?_ ?_ hlt') ?_
      · exact hsame
      · exact hdata
      · rw [length_chResults]
        rfl
      · simp [chResults]

end Output

/-! ## A batch -/

section Batch

variable {s} {src dst : Frame ℚ}

/-- Slice `ch` of the samples of a frame. -/
def slice (f : Frame ℚ) (ch : ℕ) : List Int16 := (f.data.drop (ch * f.spc)).take f.spc

/-- Slice `ch`, decimated. -/
def decimatedSlice (s : DecimationStage) (src : Frame ℚ) (ch : ℕ) : List Int16 :=
  Decimator.decimate (slice src ch) s.effectiveMode s.targetPoints.toNat

/-- The output for one frame of the input. -/
structure Decimated (s : DecimationStage) (src dst : Frame ℚ) : Prop where
  channelCount_eq : dst.channelCount = src.channelCount
  sequence_eq : dst.sequence = src.sequence
  producerTsNs_eq : dst.producerTsNs = src.producerTsNs
  firstSampleIndex_eq : dst.firstSampleIndex = src.firstSampleIndex
  flags_eq : dst.flags = src.flags
  /-- the block length, whatever the samples are -/
  spc_eq : dst.spc = Decimator.decimatedLength s.effectiveMode s.targetPoints.toNat src.spc
  length_eq : ∀ ch < src.channels, (s.decimatedSlice src ch).length = dst.spc
  dataCount_eq : dst.dataCount = dst.channels * dst.spc
  /-- the copy of a channel ends within the output -/
  copy_le : ∀ ch < src.channels, ch * dst.spc + (s.decimatedSlice src ch).length ≤ dst.dataCount
  slice_eq : ∀ ch < src.channels, slice dst ch = s.decimatedSlice src ch
  duration_eq : 0 < src.sampleRateHz → 0 < dst.spc → dst.spc / dst.sampleRateHz = src.spc / src.sampleRateHz
  /-- the same with the stored rate, where the frame has none -/
  fallback_duration_eq : 0 < s.inputRate src → 0 < dst.spc → dst.spc / dst.sampleRateHz = src.spc / s.inputRate src

/-- The framing goes through, and the samples are those of the results. -/
theorem decimateFrame_framing (h : s.decimateFrame src = some dst) :
    dst.channelCount = src.channelCount ∧ dst.sequence = src.sequence ∧ dst.producerTsNs = src.producerTsNs ∧
      dst.firstSampleIndex = src.firstSampleIndex ∧ dst.flags = src.flags ∧
      dst.data = (s.chResults src).flatten := by
  by_cases h0 : src.channelCount = 0 ∨ src.samplesPerChannel = 0
  · rw [decimateFrame, if_pos h0] at h
    cases h
  · rw [decimateFrame, if_neg h0] at h
    obtain rfl := Option.some.inj h
    refine ⟨rfl, rfl, rfl, rfl, rfl, ?_⟩
    refine concatChannels_flatten ?_ length_chResults.symm
    intro r hr
    rw [toNat_decimatedSpc (not_or.mp h0).1]
    exact length_of_mem_chResults hr

/-- **One frame, decimated.** -/
theorem exists_decimated (hcovered : src.Covered) (h0 : src.channelCount ≠ 0 ∧ src.samplesPerChannel ≠ 0) :
    ∃ dst, s.decimateFrame src = some dst ∧ Decimated s src dst := by
  obtain ⟨dst, hdst⟩ : ∃ dst, s.decimateFrame src = some dst := by
    rw [decimateFrame, if_neg (not_or.mpr h0)]
    exact ⟨_, rfl⟩
  obtain ⟨hchannels, hspc, hrate, hdstCovered, hdata⟩ := decimateFrame_channel hdst
  obtain ⟨hcount, hsequence, hts, hfirst, hflags, hflatten⟩ := decimateFrame_framing hdst
  have hslice : ∀ ch < src.channels, s.decimatedSlice src ch =
      Decimator.decimate (src.channelData ch) s.effectiveMode s.targetPoints.toNat := by
    intro ch hch
    rw [decimatedSlice, slice, src.channelData_eq hcovered hch]
  have hlength : dst.spc = Decimator.decimatedLength s.effectiveMode s.targetPoints.toNat src.spc := by
    rw [hspc, decimatedSpc, Decimator.length_decimate, List.length_replicate]
  have hlengths : ∀ ch < src.channels, (s.decimatedSlice src ch).length = dst.spc := by
    intro ch hch
    rw [hslice ch hch, Decimator.length_decimate, Frame.length_channelData, hlength]
  have hdataCount : dst.dataCount = dst.channels * dst.spc := by
    rw [Frame.dataCount, hflatten, length_flatten_of_forall fun r hr => length_of_mem_chResults hr, length_chResults,
      hchannels, hspc]
  have hduration : 0 < s.inputRate src → 0 < dst.spc → dst.spc / dst.sampleRateHz = src.spc / s.inputRate src := by
    intro hinput hpos
    have hsrc : (src.spc : ℚ) ≠ 0 := Nat.cast_ne_zero.mpr fun h => h0.2 (UInt32.toNat.inj h)
    have hdstPos : (dst.spc : ℚ) ≠ 0 := Nat.cast_ne_zero.mpr hpos.ne'
    rw [hrate, if_pos hinput, ← hspc]
    field_simp
  refine ⟨dst, hdst, hcount, hsequence, hts, hfirst, hflags, hlength, hlengths, hdataCount, ?_, ?_, ?_, hduration⟩
  · intro ch hch
    rw [hlengths ch hch, hdataCount, hchannels, ← Nat.succ_mul]
    exact Nat.mul_le_mul_right _ hch
  · intro ch hch
    rw [hslice ch hch, ← hdata ch hch, slice, ← dst.channelData_eq hdstCovered (by omega)]
  · intro hown
    have hinput : s.inputRate src = src.sampleRateHz := if_pos hown
    rwa [hinput, imp_iff_right hown] at hduration

/-- **Each channel of each frame on its own.**  A batch of covered frames gives one frame for each that has samples, in
order, with its framing, its channels decimated and its duration. -/
theorem process_decimated (s : DecimationStage) (batch : List (Frame ℚ)) (hcovered : ∀ src ∈ batch, src.Covered) :
    List.Forall₂ (Decimated s) (batch.filter fun src => src.channelCount ≠ 0 ∧ src.samplesPerChannel ≠ 0)
      (s.process batch).2 := by
  have houtput : (s.process batch).2 = batch.filterMap s.decimateFrame := by
    cases batch <;> rfl
  rw [houtput]
  clear houtput
  induction batch with
  | nil => exact .nil
  | cons src batch ih =>
    have htail := ih fun f hf => hcovered f (List.mem_cons_of_mem _ hf)
    by_cases h0 : src.channelCount ≠ 0 ∧ src.samplesPerChannel ≠ 0
    · obtain ⟨dst, hdst, hdecimated⟩ := exists_decimated (s := s) (hcovered src (by simp)) h0
      rw [List.filter_cons_of_pos (by simpa using h0), List.filterMap_cons_some hdst]
      exact .cons hdecimated htail
    · have hnone : s.decimateFrame src = none := by
        rw [decimateFrame, if_pos (not_and_or.mp h0 |>.imp not_not.mp not_not.mp)]
      rw [List.filter_cons_of_neg (by simpa using h0), List.filterMap_cons_none hnone]
      exact htail

/-- A frame of four samples of two channels and an empty one. -/
theorem process_decimated_four :
    List.Forall₂ (Decimated ⟨.minMax, 2, 0⟩) [⟨7, 0, 2, 4, 1000, 0, 0, [3, -1, 4, 1, 0, 5, -2, 6]⟩]
      (process ⟨.minMax, 2, 0⟩
        [⟨7, 0, 2, 4, 1000, 0, 0, [3, -1, 4, 1, 0, 5, -2, 6]⟩, ⟨8, 0, 2, 0, 1000, 4, 0, []⟩]).2 :=
  process_decimated ⟨.minMax, 2, 0⟩
    [⟨7, 0, 2, 4, 1000, 0, 0, [3, -1, 4, 1, 0, 5, -2, 6]⟩, ⟨8, 0, 2, 0, 1000, 4, 0, []⟩] (by decide)

end Batch

end DecimationStage

end Grebe
