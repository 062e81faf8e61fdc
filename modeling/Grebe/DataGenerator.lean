import Grebe.PeriodTiling

/-!
# Grebe.DataGenerator — the periods of the generator of grebe-sg

The thread of the generator looks at the settings in every round and builds new periods if one of them is not the one
that the periods were built for.  Its copying is the loop of `Grebe.PeriodTiling`; here only the periods are of
interest.  A rebuild starts every period from its beginning, other than that of the embedded source.

* `maintain`: the part of a round that looks after the periods.
* `period_of_run`: after it the periods are those of the settings, whatever was set before.
-/

namespace Grebe

/-- The generator; the number of channels is that of the rings. -/
structure DataGenerator where
  numChannels : ℕ
  targetSampleRate : ℚ := 1000000
  targetFrequency : ℚ := 1000
  channelWaveforms : ℕ → WaveformType := fun _ => .sine
  channelStates : ℕ → ChannelState := fun _ => {}
  cachedSampleRate : ℚ := 0
  cachedFrequency : ℚ := 0
  cachedTypes : ℕ → WaveformType := fun _ => .sine

namespace DataGenerator

section Calls

variable (signal : WaveformType → ℕ → ℕ → ℕ → Int16) (g : DataGenerator)

def setSampleRate (rate : ℚ) : DataGenerator := { g with targetSampleRate := rate }

def setFrequency (hz : ℚ) : DataGenerator := { g with targetFrequency := max 1 hz }

def start (rings : ℕ) (sampleRate : ℚ) (type : WaveformType) : DataGenerator :=
  { g with numChannels := rings, targetSampleRate := sampleRate, channelWaveforms := fun _ => type }

/-- `types`: the waveforms, as they are loaded. -/
def rebuildPeriodBuffer (sampleRate frequency : ℚ) (types : ℕ → WaveformType) : DataGenerator :=
  let periodLen := WaveformUtils.computePeriodLength sampleRate frequency
  { g with
    channelStates := fun ch =>
      if ch < g.numChannels then
        let type := types ch
        { (g.channelStates ch).withPeriod (signal type ch) (ChannelState.lengthFor type periodLen) with periodPos := 0 }
      else g.channelStates ch
    cachedTypes := fun ch => if ch < g.numChannels then types ch else g.cachedTypes ch
    cachedSampleRate := sampleRate
    cachedFrequency := frequency }

/-- `frequency` in `thread_func`. -/
def frequency : ℚ := if g.targetFrequency < 1 then 1 else g.targetFrequency

def needRebuild : Bool :=
  g.targetSampleRate ≠ g.cachedSampleRate ∨ g.frequency ≠ g.cachedFrequency ∨
    (List.range g.numChannels).any fun ch => g.channelWaveforms ch ≠ g.cachedTypes ch

/-- The part of a round of `thread_func` that looks after the periods, where nobody sets a waveform meanwhile. -/
def maintain : DataGenerator :=
  if g.needRebuild then g.rebuildPeriodBuffer signal g.targetSampleRate g.frequency g.channelWaveforms else g

/-- What happens to the generator of a grebe-sg without a window: a command sets the rate, and the thread goes round. -/
inductive Event
  | setSampleRate (rate : ℚ)
  | round

def apply : Event → DataGenerator
  | .setSampleRate rate => g.setSampleRate rate
  | .round => g.maintain signal

def run (events : List Event) : DataGenerator := events.foldl (apply signal) g

end Calls

section Periods

variable (signal : WaveformType → ℕ → ℕ → ℕ → Int16) {g : DataGenerator}

/-- The periods, once there are any, are those of the settings that they were built for. -/
def Cached (g : DataGenerator) : Prop :=
  g.cachedFrequency = 0 ∨ ∀ ch < g.numChannels, (g.channelStates ch).periodLen = ChannelState.lengthFor
    (g.cachedTypes ch) (WaveformUtils.computePeriodLength g.cachedSampleRate g.cachedFrequency)

theorem frequency_pos (g : DataGenerator) : 0 < g.frequency := clamped_pos _

theorem needRebuild_eq_false : g.needRebuild = false ↔ g.targetSampleRate = g.cachedSampleRate ∧
    g.frequency = g.cachedFrequency ∧ ∀ ch < g.numChannels, g.channelWaveforms ch = g.cachedTypes ch := by
  simp [needRebuild]

/-- The settings are the same after a round. -/
theorem maintain_frame (g : DataGenerator) :
    (g.maintain signal).numChannels = g.numChannels ∧ (g.maintain signal).targetSampleRate = g.targetSampleRate ∧
      (g.maintain signal).targetFrequency = g.targetFrequency ∧
      (g.maintain signal).channelWaveforms = g.channelWaveforms := by
  unfold maintain
  split_ifs <;> exact ⟨rfl, rfl, rfl, rfl⟩

theorem cached_maintain (h : g.Cached) : (g.maintain signal).Cached := by
  unfold maintain
  split_ifs
  · refine .inr ?_
    intro ch hch
    have hch' : ch < g.numChannels := hch
    simp only [rebuildPeriodBuffer, if_pos hch']
    rfl
  · exact h

/-- **After a round the periods are those of the settings.** -/
theorem period_maintain (h : g.Cached) {ch : ℕ} (hch : ch < g.numChannels) :
    ((g.maintain signal).channelStates ch).periodLen = ChannelState.lengthFor (g.channelWaveforms ch)
      (WaveformUtils.computePeriodLength g.targetSampleRate g.frequency) := by
  unfold maintain
  split_ifs with hneed
  · simp only [rebuildPeriodBuffer, if_pos hch]
    rfl
  · obtain ⟨hrate, hfrequency, htypes⟩ := needRebuild_eq_false.mp (Bool.not_eq_true _ ▸ hneed)
    obtain hzero | hcached := h
    · exact absurd (hfrequency.trans hzero) g.frequency_pos.ne'
    · rw [hcached ch hch, hrate, hfrequency, htypes ch hch]

/-- Events change neither the frequency nor the waveforms. -/
theorem run_frame (h : g.Cached) (events : List Event) : (g.run signal events).Cached ∧
    (g.run signal events).numChannels = g.numChannels ∧
      (g.run signal events).targetFrequency = g.targetFrequency ∧
      (g.run signal events).channelWaveforms = g.channelWaveforms := by
  induction events generalizing g with
  | nil => exact ⟨h, rfl, rfl, rfl⟩
  | cons event events ih =>
    cases event with
    | setSampleRate rate => exact ih (g := g.setSampleRate rate) h
    | round =>
      obtain ⟨hn, -, hfrequency, htypes⟩ := maintain_frame signal g
      obtain ⟨hcached, hn', hfrequency', htypes'⟩ := ih (cached_maintain signal h)
      exact ⟨hcached, hn'.trans hn, hfrequency'.trans hfrequency, htypes'.trans htypes⟩

/-- **A rate that is set is that of the periods from the next round on**, with the frequency that was set before. -/
theorem period_of_run (h : g.Cached) (events : List Event) (rate : ℚ) {ch : ℕ} (hch : ch < g.numChannels) :
    ((g.run signal (events ++ [.setSampleRate rate, .round])).channelStates ch).periodLen =
      ChannelState.lengthFor (g.channelWaveforms ch) (WaveformUtils.computePeriodLength rate g.frequency) := by
  obtain ⟨hcached, hn, hfrequency, htypes⟩ := run_frame signal h events
  have hset : ((g.run signal events).setSampleRate rate).Cached := hcached
  have hround := period_maintain signal hset (hn.symm ▸ hch)
  rw [run, List.foldl_append, ← run]
  apply hround.trans
  rw [frequency, frequency]
  show ChannelState.lengthFor ((g.run signal events).channelWaveforms ch) (WaveformUtils.computePeriodLength rate
    (if (g.run signal events).targetFrequency < 1 then 1 else (g.run signal events).targetFrequency)) = _
  rw [hfrequency, htypes]

end Periods

end DataGenerator

end Grebe
