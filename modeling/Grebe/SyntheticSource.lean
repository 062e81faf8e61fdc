import Grebe.Lib.Lts
import Grebe.Frame
import Grebe.PeriodTiling
import Grebe.TransportSource

/-!
# Grebe.SyntheticSource — the source of the embedded mode

`read_frame` looks at the settings, which the main thread may change at any time, builds new periods if one of them is
not the one that the periods were built for, and fills a frame from the periods.  A chirp has no period: with one among
the channels the samples come from a table, and here from the label of the step.  Rates are exact rationals, the values
of a waveform are a parameter, and so is the rounding of the new position.

* `synthetic`: the source with its frames as history.  The settings may also change between the two parts of
  `read_frame`.
* `reach_tiled`: before the loops every channel is in its period.
* `since_rebuild`: the frames since the last rebuild are the periods over and over.
* `tiling_seamless`: both, and what a rebuild makes of a position.
-/

namespace Grebe

open Lib

/-- The source; a state that is not there yet is empty. -/
structure SyntheticSource where
  numChannels : UInt32
  targetSampleRate : ℚ
  targetFrequency : ℚ := 1000
  waveformType : WaveformType
  channelWaveforms : ℕ → WaveformType
  paused : Bool := false
  started : Bool := false
  channelStates : ℕ → ChannelState := fun _ => {}
  cachedSampleRate : ℚ := 0
  cachedFrequency : ℚ := 0
  cachedTypes : ℕ → WaveformType
  sequence : UInt64 := 0

/-- The calls of the main thread. -/
inductive Setting
  | start
  | stop
  | sampleRate (rate : ℚ)
  | frequency (hz : ℚ)
  | waveformType (type : WaveformType)
  | channelWaveform (ch : UInt32) (type : WaveformType)
  | paused (paused : Bool)

/-- What `read_frame` has decided before its loops. -/
structure Batch where
  size : ℕ
  useTiling : Bool
deriving DecidableEq

namespace SyntheticSource

/-! ## The calls -/

section Calls

def new (numChannels : UInt32) (sampleRate : ℚ) (type : WaveformType) : SyntheticSource where
  numChannels := numChannels
  targetSampleRate := sampleRate
  waveformType := type
  channelWaveforms _ := type
  cachedTypes _ := type

variable (s : SyntheticSource)

def set : Setting → SyntheticSource
  | .start => { s with sequence := 0, started := true }
  | .stop => { s with started := false }
  | .sampleRate rate => { s with targetSampleRate := rate }
  | .frequency hz => { s with targetFrequency := max 1 hz }
  | .waveformType type => { s with waveformType := type, channelWaveforms := fun _ => type }
  | .channelWaveform ch type =>
    if ch < 8 then { s with channelWaveforms := Function.update s.channelWaveforms ch.toNat type } else s
  | .paused paused => { s with paused := paused }

variable (signal : WaveformType → ℕ → ℕ → ℕ → Int16) (scale : ℕ → ℕ → ℕ → ℕ)

/-- One round of the loop over the channels; `scale p l m` is `p / l * m`, cut to an integer, and `signal type ch len`
the period of a waveform. -/
def rebuildChannel (periodLen ch : ℕ) (type : WaveformType) (cs : ChannelState) : ChannelState :=
  let new := cs.withPeriod (signal type ch) (ChannelState.lengthFor type periodLen)
  { new with
    periodPos :=
      if 0 < cs.periodLen ∧ 0 < new.periodLen then scale cs.periodPos cs.periodLen new.periodLen % new.periodLen
      else 0 }

def rebuildPeriodBuffer (sampleRate frequency : ℚ) : SyntheticSource :=
  let periodLen := WaveformUtils.computePeriodLength sampleRate frequency
  { s with
    channelStates := fun ch =>
      if ch < s.numChannels.toNat then
        rebuildChannel signal scale periodLen ch (s.channelWaveforms ch) (s.channelStates ch)
      else s.channelStates ch
    cachedTypes := fun ch => if ch < s.numChannels.toNat then s.channelWaveforms ch else s.cachedTypes ch
    cachedSampleRate := sampleRate
    cachedFrequency := frequency }

/-- `frequency` in `read_frame`. -/
def frequency : ℚ := if s.targetFrequency < 1 then 1 else s.targetFrequency

def anyChirp : Bool := (List.range s.numChannels.toNat).any fun ch => s.channelWaveforms ch = .chirp

def needRebuild : Bool :=
  s.targetSampleRate ≠ s.cachedSampleRate ∨ s.frequency ≠ s.cachedFrequency ∨
    (List.range s.numChannels.toNat).any fun ch => s.channelWaveforms ch ≠ s.cachedTypes ch

/-- `read_frame` up to its loops: the result if it returns there. -/
def prepare : Except ReadResult (Batch × SyntheticSource) :=
  if s.started = false then .error .endOfStream
  else if s.paused then .error .noData
  else
    .ok (⟨if 100000000 ≤ s.targetSampleRate then 65536 else 4096, !s.anyChirp⟩,
      if s.needRebuild then s.rebuildPeriodBuffer signal scale s.targetSampleRate s.frequency else s)

/-- The samples of each channel, and its state after them; `lut ch`: those from the table. -/
def fillChannels (b : Batch) (lut : ℕ → ℕ → Int16) : Option (List (List Int16 × ChannelState)) :=
  let channels := List.range s.numChannels.toNat
  if b.useTiling then channels.mapM fun ch => ChannelState.tileLoop (b.size + 1) (s.channelStates ch) b.size
  else some (channels.map fun ch => ((List.range b.size).map (lut ch), s.channelStates ch))

/-- The rest of `read_frame`, at the time `now`; `none`: a loop reads outside a period, or does not end. -/
def fill (b : Batch) (lut : ℕ → ℕ → Int16) (now : UInt64) : Option (FrameBuffer × SyntheticSource) :=
  (s.fillChannels b lut).map fun filled =>
    ({ sequence := s.sequence
       producerTsNs := now
       channelCount := s.numChannels
       samplesPerChannel := UInt32.ofNat b.size
       data := concatChannels b.size 0 (List.replicate (s.numChannels.toNat * b.size) 0) (filled.map (·.1)) },
      { s with
        sequence := s.sequence + 1
        channelStates := fun ch => (filled[ch]?.map (·.2)).getD (s.channelStates ch) })

end Calls

end SyntheticSource

/-! ## Runs -/

/-- The source, the call that is under way, and as history the frames and the number of rebuilds. -/
structure SourceRun where
  source : SyntheticSource
  reading : Option Batch
  frames : List FrameBuffer
  rebuilds : ℕ

inductive SourceRun.Label
  | prepare
  | fill (lut : ℕ → ℕ → Int16) (now : UInt64)
  | set (setting : Setting)

namespace SourceRun

section Runs

variable (signal : WaveformType → ℕ → ℕ → ℕ → Int16) (scale : ℕ → ℕ → ℕ → ℕ)

def step (s : SourceRun) : Label → Option SourceRun
  | .prepare =>
    if s.reading.isSome then none
    else
      match s.source.prepare signal scale with
      | .error _ => some s
      | .ok (b, source) =>
        some { s with
          source := source
          reading := some b
          rebuilds := if s.source.needRebuild then s.rebuilds + 1 else s.rebuilds }
  | .fill lut now =>
    s.reading.bind fun b =>
      (s.source.fill b lut now).map fun r =>
        { s with source := r.2, reading := none, frames := s.frames ++ [r.1] }
  | .set setting => some { s with source := s.source.set setting }

def synthetic (numChannels : UInt32) (sampleRate : ℚ) (type : WaveformType) : Lts SourceRun Label where
  init s := s = ⟨.new numChannels sampleRate type, none, [], 0⟩
  step s l := s.step signal scale l

/-- There was a rebuild. -/
def rebuilt (s s' : SourceRun) : Bool := s.rebuilds ≠ s'.rebuilds

/-- The samples of channel `ch` in all frames. -/
def stream (s : SourceRun) (ch : ℕ) : List Int16 :=
  s.frames.flatMap fun f => (Frame.fromFrameBuffer f : Frame ℚ).channelData ch

/-- No setting of a chirp. -/
def Label.Periodic : Label → Prop
  | .set (.waveformType type) => type ≠ .chirp
  | .set (.channelWaveform _ type) => type ≠ .chirp
  | _ => True

end Runs

end SourceRun

/-! ## Rebuilds -/

namespace SyntheticSource

section Rebuild

variable {signal : WaveformType → ℕ → ℕ → ℕ → Int16} {scale : ℕ → ℕ → ℕ → ℕ} {s s' : SyntheticSource} {b : Batch}

/-- A new period is as long as it says, and the position is in it, wherever the old one was. -/
theorem rebuildChannel_ready {periodLen : ℕ} (h : 0 < periodLen) (ch : ℕ) (type : WaveformType) (cs : ChannelState) :
    (rebuildChannel signal scale periodLen ch type cs).Ready := by
  have hlen := ChannelState.lengthFor_pos type h
  refine ⟨by simp [rebuildChannel, ChannelState.withPeriod], ?_⟩
  show (if _ then _ else 0) < _
  split_ifs
  · exact Nat.mod_lt _ hlen
  · exact hlen

/-- A channel that had a period keeps its phase, as far as `scale` does. -/
theorem rebuildChannel_pos {periodLen : ℕ} (h : 0 < periodLen) (ch : ℕ) (type : WaveformType) {cs : ChannelState}
    (hcs : 0 < cs.periodLen) :
    let new := rebuildChannel signal scale periodLen ch type cs
    0 < new.periodLen ∧ new.periodPos = scale cs.periodPos cs.periodLen new.periodLen % new.periodLen :=
  have hlen := ChannelState.lengthFor_pos type h
  ⟨hlen, if_pos ⟨hcs, hlen⟩⟩

theorem rebuild_ready {sampleRate frequency : ℚ} {ch : ℕ} (hch : ch < s.numChannels.toNat) :
    ((s.rebuildPeriodBuffer signal scale sampleRate frequency).channelStates ch).Ready := by
  simp only [rebuildPeriodBuffer, if_pos hch]
  exact rebuildChannel_ready (WaveformUtils.computePeriodLength_pos ..) ..

theorem frequency_pos (s : SyntheticSource) : 0 < s.frequency := clamped_pos _

theorem anyChirp_eq_false : s.anyChirp = false ↔ ∀ ch < s.numChannels.toNat, s.channelWaveforms ch ≠ .chirp := by
  simp [anyChirp]

theorem needRebuild_eq_false : s.needRebuild = false ↔
    s.targetSampleRate = s.cachedSampleRate ∧ s.frequency = s.cachedFrequency ∧
      ∀ ch < s.numChannels.toNat, s.channelWaveforms ch = s.cachedTypes ch := by
  simp [needRebuild]

/-- The first call builds the periods: no frequency is zero. -/
theorem needRebuild_of_zero (h : s.cachedFrequency = 0) : s.needRebuild = true := by
  by_contra hno
  obtain ⟨-, hfreq, -⟩ := needRebuild_eq_false.mp (Bool.not_eq_true _ ▸ hno)
  exact s.frequency_pos.ne' (hfreq.trans h)

/-- A call that goes on to its loops has compared with the periods, and built them if they were not those. -/
theorem prepare_ok (h : s.prepare signal scale = .ok (b, s')) :
    (b.useTiling = true ↔ ∀ ch < s.numChannels.toNat, s.channelWaveforms ch ≠ .chirp) ∧
      (b.size = 65536 ∨ b.size = 4096) ∧
      (s.needRebuild = true ∧ s' = s.rebuildPeriodBuffer signal scale s.targetSampleRate s.frequency ∨
        s.needRebuild = false ∧ s' = s) := by
  unfold prepare at h
  split_ifs at h with hstarted hpaused hhigh hneed hneed <;> cases h
  all_goals refine ⟨by rw [Bool.not_eq_true', anyChirp_eq_false], by simp, ?_⟩
  · exact .inl ⟨hneed, rfl⟩
  · exact .inr ⟨Bool.not_eq_true _ ▸ hneed, rfl⟩
  · exact .inl ⟨hneed, rfl⟩
  · exact .inr ⟨Bool.not_eq_true _ ▸ hneed, rfl⟩

/-- The types that the periods are for are those that the call has seen. -/
theorem prepare_types (h : s.prepare signal scale = .ok (b, s')) :
    s'.numChannels = s.numChannels ∧ ∀ ch < s.numChannels.toNat, s'.cachedTypes ch = s.channelWaveforms ch := by
  obtain ⟨-, -, ⟨-, rfl⟩ | ⟨hneed, rfl⟩⟩ := prepare_ok h
  · exact ⟨rfl, fun ch hch => if_pos hch⟩
  · exact ⟨rfl, fun ch hch => ((needRebuild_eq_false.mp hneed).2.2 ch hch).symm⟩

end Rebuild

/-! ## Frames -/

section Fill

variable {s s' : SyntheticSource} {b : Batch} {lut : ℕ → ℕ → Int16} {now : UInt64} {f : FrameBuffer}

/-- A channel of a frame that is filled. -/
def filledWith (s : SyntheticSource) (b : Batch) (lut : ℕ → ℕ → Int16) (ch : ℕ) : List Int16 × ChannelState :=
  if b.useTiling then
    (cycle (s.channelStates ch).periodBuf (s.channelStates ch).periodPos b.size, (s.channelStates ch).advance b.size)
  else ((List.range b.size).map (lut ch), s.channelStates ch)

/-- **No loop fails** when every channel is in its period. -/
theorem fillChannels_eq (hready : ∀ ch < s.numChannels.toNat, (s.channelStates ch).Ready) (b : Batch)
    (lut : ℕ → ℕ → Int16) :
    s.fillChannels b lut = some ((List.range s.numChannels.toNat).map (s.filledWith b lut)) := by
  unfold fillChannels
  split_ifs with htiling
  · apply mapM_eq_map
    intro ch hch
    rw [ChannelState.tileLoop_eq (hready ch (List.mem_range.mp hch)) (Nat.le_succ _), filledWith, if_pos htiling]
  · refine congrArg some (List.map_congr_left ?_)
    intro ch _
    rw [filledWith, if_neg htiling]

theorem length_filledWith (hready : ∀ ch < s.numChannels.toNat, (s.channelStates ch).Ready) {ch : ℕ}
    (hch : ch < s.numChannels.toNat) : (s.filledWith b lut ch).1.length = b.size := by
  unfold filledWith
  split_ifs
  · have hcs := hready ch hch
    exact length_cycle (hcs.length ▸ Nat.zero_lt_of_lt hcs.pos) _ _
  · simp

/-- A call ends, and its frame says how many samples it has. -/
theorem fill_some (hready : ∀ ch < s.numChannels.toNat, (s.channelStates ch).Ready) (b : Batch) (lut : ℕ → ℕ → Int16)
    (now : UInt64) : ∃ f s', s.fill b lut now = some (f, s') := by
  rw [fill, fillChannels_eq hready, Option.map_some]
  exact ⟨_, _, rfl⟩

theorem samples_fill (hsize : b.size < 2 ^ 32) (h : s.fill b lut now = some (f, s')) :
    f.samplesPerChannel.toNat = b.size := by
  obtain ⟨filled, -, hf⟩ := Option.map_eq_some_iff.mp h
  obtain rfl := congrArg Prod.fst hf
  exact UInt32.toNat_ofNat_of_lt' hsize

/-- What `fill` makes of a channel, in the frame and in the source. -/
theorem fill_ok (hready : ∀ ch < s.numChannels.toNat, (s.channelStates ch).Ready) (hsize : b.size < 2 ^ 32)
    (h : s.fill b lut now = some (f, s')) :
    s' = { s with sequence := s.sequence + 1, channelStates := s'.channelStates } ∧
      ∀ ch < s.numChannels.toNat, s'.channelStates ch = (s.filledWith b lut ch).2 ∧
        (Frame.fromFrameBuffer f : Frame ℚ).channelData ch = (s.filledWith b lut ch).1 := by
  rw [fill, fillChannels_eq hready, Option.map_some, Option.some.injEq, Prod.mk.injEq] at h
  obtain ⟨rfl, rfl⟩ := h
  refine ⟨rfl, fun ch hch => ⟨by simp [hch], ?_⟩⟩
  have hlen : ∀ r ∈ ((List.range s.numChannels.toNat).map (s.filledWith b lut)).map (·.1), r.length = b.size := by
    simp only [List.mem_map, List.mem_range, forall_exists_index, and_imp]
    rintro _ _ ch hch rfl rfl
    exact length_filledWith hready hch
  have hspc : (UInt32.ofNat b.size).toNat = b.size := UInt32.toNat_ofNat_of_lt' hsize
  have hdata := concatChannels_flatten hlen (n := s.numChannels.toNat) (by simp)
  refine Eq.trans (channelData_of_flatten ?_ hdata ?_ (by simpa using hch)) ?_
  · exact fun r hr => (hlen r hr).trans hspc.symm
  · simp
    rfl
  · simp

end Fill

/-- A setting changes nothing that belongs to the periods. -/
theorem set_frame (s : SyntheticSource) (setting : Setting) :
    (s.set setting).numChannels = s.numChannels ∧ (s.set setting).channelStates = s.channelStates ∧
      (s.set setting).cachedTypes = s.cachedTypes ∧ (s.set setting).cachedFrequency = s.cachedFrequency := by
  cases setting with
  | channelWaveform ch type =>
    rw [set]
    split_ifs <;> exact ⟨rfl, rfl, rfl, rfl⟩
  | _ => exact ⟨rfl, rfl, rfl, rfl⟩

end SyntheticSource

/-! ## Every call finds its channels in their periods -/

namespace SourceRun

section Tiled

variable {signal : WaveformType → ℕ → ℕ → ℕ → Int16} {scale : ℕ → ℕ → ℕ → ℕ} {numChannels : UInt32} {sampleRate : ℚ}
  {type : WaveformType} {s s' s₀ : SourceRun} {l : Label}

/-- What a step does: a call that returns at once, the two parts of one that does not, and a setting. -/
theorem step_cases (h : s.step signal scale l = some s') :
    (l = .prepare ∧ s' = s) ∨
      (∃ b source, l = .prepare ∧ s.reading = none ∧ s.source.prepare signal scale = .ok (b, source) ∧
        s' = ⟨source, some b, s.frames, if s.source.needRebuild then s.rebuilds + 1 else s.rebuilds⟩) ∨
      (∃ b lut now f source, l = .fill lut now ∧ s.reading = some b ∧ s.source.fill b lut now = some (f, source) ∧
        s' = ⟨source, none, s.frames ++ [f], s.rebuilds⟩) ∨
      ∃ setting, l = .set setting ∧ s' = { s with source := s.source.set setting } := by
  cases l with
  | prepare =>
    unfold step at h
    by_cases hreading : s.reading.isSome
    · rw [if_pos hreading] at h
      cases h
    · rw [if_neg hreading] at h
      cases hprepare : s.source.prepare signal scale with
      | error e =>
        rw [hprepare] at h
        exact .inl ⟨rfl, (Option.some.inj h).symm⟩
      | ok r =>
        rw [hprepare] at h
        exact .inr (.inl ⟨r.1, r.2, rfl, Option.not_isSome_iff_eq_none.mp hreading, rfl, (Option.some.inj h).symm⟩)
  | fill lut now =>
    obtain ⟨b, hb, h⟩ := Option.bind_eq_some_iff.mp h
    obtain ⟨r, hr, rfl⟩ := Option.map_eq_some_iff.mp h
    exact .inr (.inr (.inl ⟨b, lut, now, r.1, r.2, rfl, hb, hr, rfl⟩))
  | set setting => exact .inr (.inr (.inr ⟨setting, rfl, (Option.some.inj h).symm⟩))

/-- Until the first call there are no periods.  From then on every channel is in its own, and a batch is filled from
them if they were built for no chirp. -/
structure Tiled (numChannels : UInt32) (s : SourceRun) : Prop where
  channels : s.source.numChannels = numChannels
  ready : (s.source.cachedFrequency = 0 ∧ s.reading = none ∧ ∀ ch, s.source.channelStates ch = {}) ∨
    ∀ ch < numChannels.toNat, (s.source.channelStates ch).Ready
  batch : ∀ b, s.reading = some b → (b.size = 65536 ∨ b.size = 4096) ∧
    (b.useTiling = true ↔ ∀ ch < numChannels.toNat, s.source.cachedTypes ch ≠ .chirp)

theorem Tiled.reading_ready (h : Tiled numChannels s) {b : Batch} (hb : s.reading = some b) :
    ∀ ch < numChannels.toNat, (s.source.channelStates ch).Ready := by
  obtain ⟨-, hnone, -⟩ | hready := h.ready
  · rw [hnone] at hb
    cases hb
  · exact hready

/-- What a batch leaves behind, channel by channel. -/
theorem Tiled.fill_ok (h : Tiled numChannels s) {b : Batch} (hb : s.reading = some b) {lut : ℕ → ℕ → Int16}
    {now : UInt64} {f : FrameBuffer} {source : SyntheticSource} (hfill : s.source.fill b lut now = some (f, source)) :
    source = { s.source with sequence := s.source.sequence + 1, channelStates := source.channelStates } ∧
      ∀ ch < numChannels.toNat, source.channelStates ch = (s.source.filledWith b lut ch).2 ∧
        (Frame.fromFrameBuffer f : Frame ℚ).channelData ch = (s.source.filledWith b lut ch).1 := by
  obtain rfl := h.channels
  exact SyntheticSource.fill_ok (h.reading_ready hb) (by have := (h.batch b hb).1; omega) hfill

theorem Tiled.samples_fill (h : Tiled numChannels s) {b : Batch} (hb : s.reading = some b) {lut : ℕ → ℕ → Int16}
    {now : UInt64} {f : FrameBuffer} {source : SyntheticSource} (hfill : s.source.fill b lut now = some (f, source)) :
    f.samplesPerChannel.toNat = b.size :=
  SyntheticSource.samples_fill (by have := (h.batch b hb).1; omega) hfill

theorem filledWith_ready {source : SyntheticSource} {ch : ℕ} (h : (source.channelStates ch).Ready) (b : Batch)
    (lut : ℕ → ℕ → Int16) : (source.filledWith b lut ch).2.Ready := by
  unfold SyntheticSource.filledWith
  split_ifs
  · exact h.advance b.size
  · exact h

/-- **A rebuild puts every channel into its new period**, and everything else leaves it in the old one. -/
theorem tiled_step (h : Tiled numChannels s) (hst : s.step signal scale l = some s') : Tiled numChannels s' := by
  obtain ⟨-, rfl⟩ | ⟨b, source, -, -, hprepare, rfl⟩ | ⟨b, lut, now, f, source, -, hb, hfill, rfl⟩ |
    ⟨setting, -, rfl⟩ := step_cases hst
  · exact h
  · obtain ⟨hchannels, htypes⟩ := SyntheticSource.prepare_types hprepare
    obtain ⟨htiling, hsize, hcases⟩ := SyntheticSource.prepare_ok hprepare
    obtain rfl := h.channels
    refine ⟨hchannels, .inr fun ch hch => ?_, fun b' hb' => ?_⟩
    · obtain ⟨-, rfl⟩ | ⟨hneed, rfl⟩ := hcases
      · exact SyntheticSource.rebuild_ready hch
      · obtain ⟨hzero, -⟩ | hready := h.ready
        · rw [SyntheticSource.needRebuild_of_zero hzero] at hneed
          cases hneed
        · exact hready ch hch
    · obtain rfl := Option.some.inj hb'
      refine ⟨hsize, htiling.trans (forall₂_congr ?_)⟩
      intro ch hch
      rw [htypes ch hch]
  · obtain ⟨hsource, hfilled⟩ := h.fill_ok hb hfill
    refine ⟨?_, .inr fun ch hch => ?_, fun b' hb' => nomatch hb'⟩
    · rw [hsource]
      exact h.channels
    · rw [(hfilled ch hch).1]
      exact filledWith_ready (h.reading_ready hb ch hch) b lut
  · obtain ⟨hchannels, hstates, htypes, hfrequency⟩ := s.source.set_frame setting
    refine ⟨hchannels.trans h.channels, ?_, ?_⟩
    · rw [hstates, hfrequency]
      exact h.ready
    · rw [htypes]
      exact h.batch

theorem reach_tiled (hs : (synthetic signal scale numChannels sampleRate type).Reachable s) : Tiled numChannels s := by
  refine hs.invariant (I := Tiled numChannels) ?_ fun _ _ _ h _ hst => tiled_step h hst
  rintro _ rfl
  exact ⟨rfl, .inl ⟨rfl, rfl, fun _ => rfl⟩, fun b hb => nomatch hb⟩

end Tiled

/-! ## The frames since the last rebuild -/

section Since

variable {signal : WaveformType → ℕ → ℕ → ℕ → Int16} {scale : ℕ → ℕ → ℕ → ℕ} {numChannels : UInt32} {sampleRate : ℚ}
  {type : WaveformType} {s s' s₀ : SourceRun} {l : Label}

/-- Every frame has the samples of a batch for each channel. -/
def Filled (numChannels : UInt32) (f : FrameBuffer) : Prop :=
  (f.samplesPerChannel.toNat = 65536 ∨ f.samplesPerChannel.toNat = 4096) ∧
    ∀ ch < numChannels.toNat, ((Frame.fromFrameBuffer f : Frame ℚ).channelData ch).length = f.samplesPerChannel.toNat

theorem filled_step (h : Tiled numChannels s) (hframes : ∀ f ∈ s.frames, Filled numChannels f)
    (hst : s.step signal scale l = some s') : ∀ f ∈ s'.frames, Filled numChannels f := by
  obtain ⟨-, rfl⟩ | ⟨b, source, -, -, -, rfl⟩ | ⟨b, lut, now, f, source, -, hb, hfill, rfl⟩ | ⟨setting, -, rfl⟩ :=
    step_cases hst
  · exact hframes
  · exact hframes
  · intro g hg
    rcases List.mem_append.mp hg with hg | hg
    · exact hframes g hg
    · obtain rfl := List.mem_singleton.mp hg
      have hsamples := h.samples_fill hb hfill
      refine ⟨by rw [hsamples]; exact (h.batch b hb).1, fun ch hch => ?_⟩
      obtain rfl := h.channels
      rw [((h.fill_ok hb hfill).2 ch hch).2, hsamples]
      exact SyntheticSource.length_filledWith (h.reading_ready hb) hch
  · exact hframes

theorem reach_filled (hs : (synthetic signal scale numChannels sampleRate type).Reachable s) :
    ∀ f ∈ s.frames, Filled numChannels f := by
  refine hs.invariant_of (I := fun s => ∀ f ∈ s.frames, Filled numChannels f) (fun _ => reach_tiled) ?_
    fun _ _ _ h htiled _ hst => filled_step h htiled hst
  rintro _ rfl f hf
  cases hf

/-- How many samples of a channel the frames since `s₀` have. -/
def samplesSince (s s₀ : SourceRun) : ℕ :=
  ((s.frames.drop s₀.frames.length).map fun f => f.samplesPerChannel.toNat).sum

theorem samplesSince_self (s : SourceRun) : samplesSince s s = 0 := by
  rw [samplesSince, List.drop_length]
  rfl

/-- `n` samples of each channel have been copied since `s₀`, each channel from where it was. -/
def CopiedSince (numChannels : UInt32) (s s₀ : SourceRun) (n : ℕ) : Prop :=
  ∀ ch < numChannels.toNat, let cs := s₀.source.channelStates ch
    s.source.channelStates ch = cs.advance n ∧ s.stream ch = s₀.stream ch ++ cycle cs.periodBuf cs.periodPos n

/-- A rebuild is the beginning. -/
theorem copiedSince_rebuild (h : Tiled numChannels s) (hst : s.step signal scale l = some s')
    (hmark : rebuilt s s' = true) : CopiedSince numChannels s' s' 0 := by
  intro ch hch
  have hready : (s'.source.channelStates ch).Ready := by
    obtain ⟨-, rfl⟩ | ⟨b, source, -, -, hprepare, rfl⟩ | ⟨b, lut, now, f, source, -, -, -, rfl⟩ |
      ⟨setting, -, rfl⟩ := step_cases hst
    · simp [rebuilt] at hmark
    · exact (tiled_step h hst).reading_ready rfl ch hch
    · simp [rebuilt] at hmark
    · simp [rebuilt] at hmark
  exact ⟨hready.advance_zero.symm, (List.append_nil _).symm⟩

/-- Only a rebuild changes the types that the periods are for. -/
theorem types_step (h : Tiled numChannels s) (hst : s.step signal scale l = some s') (hmark : rebuilt s s' = false) :
    s'.source.cachedTypes = s.source.cachedTypes := by
  obtain ⟨-, rfl⟩ | ⟨b, source, -, -, hprepare, rfl⟩ | ⟨b, lut, now, f, source, -, hb, hfill, rfl⟩ |
    ⟨setting, -, rfl⟩ := step_cases hst
  · rfl
  · obtain ⟨-, -, ⟨hneed, -⟩ | ⟨-, rfl⟩⟩ := SyntheticSource.prepare_ok hprepare
    · simp [rebuilt, hneed] at hmark
    · rfl
  · rw [(h.fill_ok hb hfill).1]
  · exact (s.source.set_frame setting).2.2.1

/-- A batch from the periods goes on where the last one ended. -/
theorem copiedSince_fill (h : Tiled numChannels s)
    (htypes : ∀ ch < numChannels.toNat, s.source.cachedTypes ch ≠ .chirp) {n : ℕ} (hn : CopiedSince numChannels s s₀ n)
    {b : Batch} (hb : s.reading = some b) {lut : ℕ → ℕ → Int16} {now : UInt64} {f : FrameBuffer}
    {source : SyntheticSource} (hfill : s.source.fill b lut now = some (f, source)) :
    CopiedSince numChannels ⟨source, none, s.frames ++ [f], s.rebuilds⟩ s₀ (n + b.size) := by
  intro ch hch
  have hready := h.reading_ready hb ch hch
  obtain ⟨hstate, hstream⟩ := hn ch hch
  obtain ⟨hnew, hdata⟩ := (h.fill_ok hb hfill).2 ch hch
  rw [SyntheticSource.filledWith, if_pos ((h.batch b hb).2.mpr htypes), hstate] at hnew hdata
  have hlen : (s₀.source.channelStates ch).periodBuf.length = (s₀.source.channelStates ch).periodLen := by
    rw [hstate] at hready
    exact hready.length
  refine ⟨hnew.trans (ChannelState.advance_add n b.size), ?_⟩
  rw [ChannelState.advance_periodBuf, ChannelState.cycle_advance hlen] at hdata
  calc (s.frames ++ [f]).flatMap (fun f => (Frame.fromFrameBuffer f : Frame ℚ).channelData ch)
    _ = s.stream ch ++ (Frame.fromFrameBuffer f : Frame ℚ).channelData ch := by
      rw [List.flatMap_append, List.flatMap_singleton, stream]
    _ = _ := by rw [hstream, hdata, List.append_assoc, ← cycle_add]

/-- The frames since `s₀` are the periods over and over, as many samples of each as they say. -/
structure TiledSince (numChannels : UInt32) (s s₀ : SourceRun) : Prop where
  frames : s₀.frames <+: s.frames
  copied : CopiedSince numChannels s s₀ (samplesSince s s₀)

/-- A call without a rebuild copies nothing yet, and a setting never does. -/
theorem tiledSince_step (h : Tiled numChannels s)
    (hn : (∀ ch < numChannels.toNat, s.source.cachedTypes ch ≠ .chirp) → TiledSince numChannels s s₀)
    (hst : s.step signal scale l = some s') (hmark : rebuilt s s' = false)
    (htypes : ∀ ch < numChannels.toNat, s'.source.cachedTypes ch ≠ .chirp) : TiledSince numChannels s' s₀ := by
  rw [types_step h hst hmark] at htypes
  obtain ⟨hframes, hcopied⟩ := hn htypes
  obtain ⟨-, rfl⟩ | ⟨b, source, -, -, hprepare, rfl⟩ | ⟨b, lut, now, f, source, -, hb, hfill, rfl⟩ |
    ⟨setting, -, rfl⟩ := step_cases hst
  · exact ⟨hframes, hcopied⟩
  · obtain ⟨-, -, ⟨hneed, -⟩ | ⟨-, rfl⟩⟩ := SyntheticSource.prepare_ok hprepare
    · simp [rebuilt, hneed] at hmark
    · exact ⟨hframes, hcopied⟩
  · refine ⟨hframes.trans (List.prefix_append ..), ?_⟩
    have hsince : samplesSince ⟨source, none, s.frames ++ [f], s.rebuilds⟩ s₀ = samplesSince s s₀ + b.size := by
      rw [samplesSince, List.drop_append_of_le_length hframes.length_le, List.map_append, List.sum_append,
        samplesSince, List.map_singleton, List.sum_singleton, h.samples_fill hb hfill]
    rw [hsince]
    exact copiedSince_fill h htypes hcopied hb hfill
  · refine ⟨hframes, ?_⟩
    intro ch hch
    rw [(s.source.set_frame setting).2.1]
    exact hcopied ch hch

/-- **Since the last rebuild every channel is its period over and over**, unless it was built for a chirp. -/
theorem since_rebuild (hs : ((synthetic signal scale numChannels sampleRate type).since rebuilt).Reachable (s, s₀))
    (htypes : ∀ ch < numChannels.toNat, s.source.cachedTypes ch ≠ .chirp) : TiledSince numChannels s s₀ := by
  refine Lts.since_rule (J := fun s s₀ => (∀ ch < numChannels.toNat, s.source.cachedTypes ch ≠ .chirp) →
    TiledSince numChannels s s₀) ?_ ?_ ?_ hs htypes
  · rintro _ rfl -
    exact ⟨List.prefix_rfl, fun _ _ => ⟨rfl, rfl⟩⟩
  · intro s _ l s' hr _ hst hmark _
    refine ⟨List.prefix_rfl, ?_⟩
    rw [samplesSince_self]
    exact copiedSince_rebuild (reach_tiled hr) hst hmark
  · intro s s₀ l s' hr hJ hst hmark
    exact tiledSince_step (reach_tiled hr) hJ hst hmark

/-- No channel has a chirp, and no period was built for one. -/
def NoChirp (s : SourceRun) : Prop := ∀ ch, s.source.channelWaveforms ch ≠ .chirp ∧ s.source.cachedTypes ch ≠ .chirp

theorem noChirp_set {source : SyntheticSource} (h : ∀ ch, source.channelWaveforms ch ≠ .chirp) {setting : Setting}
    (hperiodic : (Label.set setting).Periodic) (ch : ℕ) : (source.set setting).channelWaveforms ch ≠ .chirp := by
  cases setting with
  | waveformType t => exact hperiodic
  | channelWaveform ch' t =>
    rw [SyntheticSource.set]
    split_ifs
    · show Function.update source.channelWaveforms ch'.toNat t ch ≠ _
      by_cases hch : ch = ch'.toNat
      · rw [hch, Function.update_self]
        exact hperiodic
      · rw [Function.update_of_ne hch]
        exact h ch
    · exact h ch
  | _ => exact h ch

theorem noChirp_step (h : Tiled numChannels s) (hs : s.NoChirp) (hl : l.Periodic)
    (hst : s.step signal scale l = some s') : s'.NoChirp := by
  obtain ⟨-, rfl⟩ | ⟨b, source, -, -, hprepare, rfl⟩ | ⟨b, lut, now, f, source, -, hb, hfill, rfl⟩ |
    ⟨setting, rfl, rfl⟩ := step_cases hst
  · exact hs
  · obtain ⟨-, -, ⟨-, rfl⟩ | ⟨-, rfl⟩⟩ := SyntheticSource.prepare_ok hprepare
    · refine fun ch => ⟨(hs ch).1, ?_⟩
      show (if _ then _ else _) ≠ _
      split_ifs
      · exact (hs ch).1
      · exact (hs ch).2
    · exact hs
  · rw [NoChirp, (h.fill_ok hb hfill).1]
    exact hs
  · exact fun ch => ⟨noChirp_set (fun ch => (hs ch).1) hl ch, (s.source.set_frame setting).2.2.1 ▸ (hs ch).2⟩

/-- Without a setting of a chirp there is none. -/
theorem reach_noChirp (htype : type ≠ .chirp)
    (hs : ((synthetic signal scale numChannels sampleRate type).since rebuilt).Reach (fun _ l => l.Periodic) (s, s₀)) :
    s.NoChirp := by
  refine hs.invariant_of (J := fun p => Tiled numChannels p.1) (I := fun p => p.1.NoChirp)
    (fun p hp => reach_tiled (Lts.since_fst hp.reachable)) ?_ ?_
  · rintro p ⟨hinit, -⟩ ch
    rw [show p.1 = _ from hinit]
    exact ⟨htype, htype⟩
  · rintro p l _ h hp hl hst
    obtain ⟨s', hst', rfl⟩ := Option.map_eq_some_iff.mp hst
    exact noChirp_step h hp hl hst'

end Since

/-! ## Positions after a rebuild -/

section Rescale

/-- The quotient and the product without rounding, cut to an integer. -/
def exactScale (pos oldLen newLen : ℕ) : ℕ := ⌊(pos : ℚ) / oldLen * newLen⌋₊

/-- The new position is the last one that is not ahead of the old phase. -/
theorem exactScale_bounds {pos oldLen newLen : ℕ} (hpos : pos < oldLen) (hnew : 0 < newLen) :
    ((exactScale pos oldLen newLen % newLen : ℕ) : ℚ) / newLen ≤ pos / oldLen ∧
      (pos : ℚ) / oldLen < ((exactScale pos oldLen newLen % newLen : ℕ) + 1 : ℚ) / newLen := by
  have hold : (0 : ℚ) < oldLen := by exact_mod_cast Nat.zero_lt_of_lt hpos
  have hnew' : (0 : ℚ) < newLen := by exact_mod_cast hnew
  have hphase : (pos : ℚ) / oldLen < 1 := (div_lt_one hold).mpr (by exact_mod_cast hpos)
  have hnonneg : (0 : ℚ) ≤ pos / oldLen * newLen := by positivity
  have hlt : exactScale pos oldLen newLen < newLen := by
    rw [exactScale, Nat.floor_lt hnonneg]
    exact mul_lt_of_lt_one_left hnew' hphase
  rw [Nat.mod_eq_of_lt hlt, div_le_iff₀ hnew', lt_div_iff₀ hnew']
  exact ⟨Nat.floor_le hnonneg, Nat.lt_floor_add_one _⟩

variable {signal : WaveformType → ℕ → ℕ → ℕ → Int16} {scale : ℕ → ℕ → ℕ → ℕ} {numChannels : UInt32} {s s' : SourceRun}
  {l : Label}

/-- What a rebuild makes of a channel. -/
theorem rebuilt_channel (hst : s.step signal scale l = some s') (hmark : rebuilt s s' = true) {ch : ℕ}
    (hch : ch < s.source.numChannels.toNat) : ∃ periodLen type, 0 < periodLen ∧ s'.source.channelStates ch =
      SyntheticSource.rebuildChannel signal scale periodLen ch type (s.source.channelStates ch) := by
  obtain ⟨-, rfl⟩ | ⟨b, source, -, -, hprepare, rfl⟩ | ⟨b, lut, now, f, source, -, -, -, rfl⟩ |
    ⟨setting, -, rfl⟩ := step_cases hst
  · simp [rebuilt] at hmark
  · obtain ⟨-, -, ⟨-, rfl⟩ | ⟨hneed, -⟩⟩ := SyntheticSource.prepare_ok hprepare
    · exact ⟨_, _, WaveformUtils.computePeriodLength_pos .., if_pos hch⟩
    · simp [rebuilt, hneed] at hmark
  · simp [rebuilt] at hmark
  · simp [rebuilt] at hmark

/-- **A rebuild keeps the phase**, cut to a sample of the new period. -/
theorem rebuilt_phase (h : Tiled numChannels s) (hst : s.step signal exactScale l = some s')
    (hmark : rebuilt s s' = true) {ch : ℕ} (hch : ch < numChannels.toNat)
    (hold : 0 < (s.source.channelStates ch).periodLen) :
    let old := s.source.channelStates ch
    let new := s'.source.channelStates ch
    (new.periodPos : ℚ) / new.periodLen ≤ old.periodPos / old.periodLen ∧
      (old.periodPos : ℚ) / old.periodLen < (new.periodPos + 1) / new.periodLen := by
  have hready : (s.source.channelStates ch).Ready := by
    obtain ⟨-, -, hempty⟩ | hready := h.ready
    · rw [hempty] at hold
      exact absurd hold (Nat.lt_irrefl 0)
    · exact hready ch hch
  obtain ⟨periodLen, type, hlen, hnew⟩ := rebuilt_channel hst hmark (h.channels ▸ hch)
  obtain ⟨hpos, hscaled⟩ := SyntheticSource.rebuildChannel_pos hlen ch type hold
  rw [← hnew] at hpos hscaled
  intro old new
  rw [hscaled]
  exact exactScale_bounds hready.pos hpos

end Rescale

section Main

variable {signal : WaveformType → ℕ → ℕ → ℕ → Int16} {scale : ℕ → ℕ → ℕ → ℕ} {numChannels : UInt32} {sampleRate : ℚ}
  {type : WaveformType} {s s₀ : SourceRun}

/-- **The periods are put together without a seam.**  Before the loops every channel is in its period, and the call ends
with a frame that has exactly the samples of the batch: the period over and over from the position.  So has every frame.
Since the last rebuild, at `s₀`, the samples of a channel in all frames are its period over and over, from where it was
then, as many as the frames have.  And a rebuild keeps the phase of a channel that has a period, cut to a sample of the
new one, when the quotient is exact. -/
theorem tiling_seamless (htype : type ≠ .chirp)
    (hs : ((synthetic signal scale numChannels sampleRate type).since rebuilt).Reach (fun _ l => l.Periodic) (s, s₀)) :
    (∀ b, s.reading = some b → b.useTiling = true ∧
      (∀ ch < numChannels.toNat, let cs := s.source.channelStates ch
        cs.periodPos < cs.periodLen ∧ (cycle cs.periodBuf cs.periodPos b.size).length = b.size ∧
          ChannelState.tileLoop (b.size + 1) cs b.size =
            some (cycle cs.periodBuf cs.periodPos b.size, cs.advance b.size)) ∧
      ∀ lut now, ∃ f source, s.source.fill b lut now = some (f, source) ∧ f.samplesPerChannel.toNat = b.size ∧
        ∀ ch < numChannels.toNat, let cs := s.source.channelStates ch
          source.channelStates ch = cs.advance b.size ∧
            (Frame.fromFrameBuffer f : Frame ℚ).channelData ch = cycle cs.periodBuf cs.periodPos b.size) ∧
    (∀ f ∈ s.frames, (f.samplesPerChannel.toNat = 65536 ∨ f.samplesPerChannel.toNat = 4096) ∧
      ∀ ch < numChannels.toNat,
        ((Frame.fromFrameBuffer f : Frame ℚ).channelData ch).length = f.samplesPerChannel.toNat) ∧
    (s₀.frames <+: s.frames ∧ ∀ ch < numChannels.toNat, let cs := s₀.source.channelStates ch
      let n := ((s.frames.drop s₀.frames.length).map fun f => f.samplesPerChannel.toNat).sum
      s.source.channelStates ch = cs.advance n ∧ s.stream ch = s₀.stream ch ++ cycle cs.periodBuf cs.periodPos n) ∧
    (scale = exactScale → ∀ l s', s.step signal scale l = some s' → rebuilt s s' = true → ∀ ch < numChannels.toNat,
      let old := s.source.channelStates ch
      let new := s'.source.channelStates ch
      0 < old.periodLen → (new.periodPos : ℚ) / new.periodLen ≤ old.periodPos / old.periodLen ∧
        (old.periodPos : ℚ) / old.periodLen < (new.periodPos + 1) / new.periodLen) := by
  have hreach := Lts.since_fst hs.reachable
  have htiled : Tiled numChannels s := reach_tiled hreach
  have hnone : ∀ ch < numChannels.toNat, s.source.cachedTypes ch ≠ .chirp :=
    fun ch _ => (reach_noChirp htype hs ch).2
  have hsince := since_rebuild hs.reachable hnone
  refine ⟨fun b hb => ?_, reach_filled hreach, ⟨hsince.frames, hsince.copied⟩, ?_⟩
  · have htiling : b.useTiling = true := (htiled.batch b hb).2.mpr hnone
    refine ⟨htiling, fun ch hch => ?_, fun lut now => ?_⟩
    · have hready := htiled.reading_ready hb ch hch
      exact ⟨hready.pos, length_cycle (hready.length ▸ Nat.zero_lt_of_lt hready.pos) _ _,
        ChannelState.tileLoop_eq hready (Nat.le_succ _)⟩
    · have hready := htiled.reading_ready hb
      rw [← htiled.channels] at hready
      obtain ⟨f, source, hfill⟩ := SyntheticSource.fill_some hready b lut now
      refine ⟨f, source, hfill, htiled.samples_fill hb hfill, fun ch hch => ?_⟩
      obtain ⟨hstate, hdata⟩ := (htiled.fill_ok hb hfill).2 ch hch
      rw [SyntheticSource.filledWith, if_pos htiling] at hstate hdata
      exact ⟨hstate, hdata⟩
  · rintro rfl l s' hst hmark ch hch old new hold
    exact rebuilt_phase htiled hst hmark hch hold

variable (signal scale) in
theorem step_fill {b : Batch} (hb : s.reading = some b) {lut : ℕ → ℕ → Int16} {now : UInt64} {f : FrameBuffer}
    {source : SyntheticSource} (hfill : s.source.fill b lut now = some (f, source)) :
    s.step signal scale (.fill lut now) = some ⟨source, none, s.frames ++ [f], s.rebuilds⟩ := by
  rw [step, hb, Option.bind_some, hfill]
  rfl

/-- A channel of 4000 samples per second. -/
def oneChannel : Lts SourceRun Label := synthetic (fun _ _ _ i => Int16.ofNat i) exactScale 1 4000 .sine

/-- Its first frame. -/
theorem tiling_seamless_one : ∃ (s s₀ : SourceRun) (f : FrameBuffer), s.frames = [f] ∧
    f.samplesPerChannel.toNat = 4096 ∧ (s.stream 0).length = 4096 ∧
    s.stream 0 = cycle (s₀.source.channelStates 0).periodBuf (s₀.source.channelStates 0).periodPos 4096 := by
  have hinit : (oneChannel.since rebuilt).Reach (fun _ l => l.Periodic)
      (⟨.new 1 4000 .sine, none, [], 0⟩, ⟨.new 1 4000 .sine, none, [], 0⟩) := .init ⟨rfl, rfl⟩
  have hstarted := hinit.step (show Label.Periodic (.set .start) from trivial) rfl
  obtain ⟨s, s₀, hs, hreading, hframes⟩ : ∃ s s₀, (oneChannel.since rebuilt).Reach (fun _ l => l.Periodic) (s, s₀) ∧
      s.reading = some ⟨4096, true⟩ ∧ s.frames = [] := by
    refine ⟨_, _, hstarted.step (show Label.Periodic .prepare from trivial) rfl, ?_, rfl⟩
    show some (Batch.mk (if (100000000 : ℚ) ≤ 4000 then 65536 else 4096) true) = _
    rw [if_neg (by norm_num)]
  obtain ⟨hcall, -⟩ := tiling_seamless (by decide) hs
  obtain ⟨f, source, hfill, hsamples, -⟩ := (hcall _ hreading).2.2 (fun _ _ => 0) 0
  have hstep : oneChannel.step s (.fill (fun _ _ => 0) 0) = some ⟨source, none, [f], s.rebuilds⟩ := by
    rw [show [f] = s.frames ++ [f] by rw [hframes, List.nil_append]]
    exact step_fill (fun _ _ _ i => Int16.ofNat i) exactScale hreading hfill
  have hfilled : (oneChannel.since rebuilt).Reach (fun _ l => l.Periodic) (⟨source, none, [f], s.rebuilds⟩, s₀) := by
    have hnext := hs.step (show Label.Periodic (.fill (fun _ _ => 0) 0) from trivial) (Lts.since_step hstep)
    rwa [if_neg (by simp [rebuilt])] at hnext
  have hbefore : s₀.frames = [] := by
    obtain ⟨-, -, ⟨hearlier, -⟩, -⟩ := tiling_seamless (by decide) hs
    rw [hframes] at hearlier
    exact List.prefix_nil.mp hearlier
  obtain ⟨-, hfull, ⟨-, hstream⟩, -⟩ := tiling_seamless (by decide) hfilled
  obtain ⟨-, htiled⟩ := hstream 0 (by decide)
  have hdata := (hfull f (List.mem_singleton_self f)).2 0 (by decide)
  refine ⟨⟨source, none, [f], s.rebuilds⟩, s₀, f, rfl, hsamples, ?_, ?_⟩
  · rw [stream, List.flatMap_singleton, hdata, hsamples]
  · rw [htiled, stream, hbefore, List.flatMap_nil, List.nil_append, List.length_nil, List.drop_zero,
      List.map_singleton, List.sum_singleton, hsamples]

end Main

end SourceRun

end Grebe
