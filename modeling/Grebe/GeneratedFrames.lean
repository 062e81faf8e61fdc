import Grebe.DataGenerator
import Grebe.SgFeed

/-!
# Grebe.GeneratedFrames — from the generator of grebe-sg to the frames that the viewer polls

`SgSender` takes the samples of its source as they are.  Here they are those that `DataGenerator::thread_func` makes: in
each round it loads the settings, looks after the periods, and copies a batch of each channel, which it pushes and counts.
The settings are changed at any time, also while the thread is in the middle of a round.

One step loads one setting.  So the waveform of a channel is loaded up to three times in a round, to look for a chirp, to
compare it with that of the period and to build a new one, and it may be another one each time.  A further step fills and
pushes the batch of a channel.  The samples of a round that saw a chirp are from a table, and here from the label.  How long
the thread sleeps is left out, and so are the rates that it measures.  Nothing in grebe-sg sets all waveforms at once.

* `Generated`: the generator in grebe-sg; `stream` is history, all that was generated of each channel, and so is `tabled`.
* `GeneratedInv`: the periods of the generator, and the stream that grebe-sg is fed with.
* `generator_proceeds`: no round fails.
* `since_periods`: since the last rebuild the stream is the period over and over, from its beginning, up to a round that saw
  a chirp.
* `generated_end_to_end`: what the viewer polls is made of the stream.
-/

namespace Grebe

open Lib SgSender

/-! ## The rounds of the generator -/

namespace DataGenerator

section Calls

inductive Setting
  | sampleRate (rate : ℚ)
  | frequency (hz : ℚ)
  | channelWaveform (ch : UInt32) (type : WaveformType)

variable (g : DataGenerator)

def set : Setting → DataGenerator
  | .sampleRate rate => g.setSampleRate rate
  | .frequency hz => g.setFrequency hz
  | .channelWaveform ch type =>
    if ch < 8 then { g with channelWaveforms := Function.update g.channelWaveforms ch.toNat type } else g

/-- `batch_size` -/
def batchSize (sampleRate : ℚ) : ℕ := if 100000000 ≤ sampleRate then 65536 else 4096

/-- The period of a channel, by what it was built for. -/
def period (signal : WaveformType → ℕ → ℕ → ℕ → Int16) (ch : ℕ) : List Int16 :=
  let len := ChannelState.lengthFor (g.cachedTypes ch)
    (WaveformUtils.computePeriodLength g.cachedSampleRate g.cachedFrequency)
  (List.range len).map (signal (g.cachedTypes ch) ch len)

/-- The batch of a channel, and the generator after it; `lut`: the samples from the table.  `none`: the loop reads outside
the period, or does not end. -/
def fill (useTiling : Bool) (batchSize ch : ℕ) (lut : ℕ → Int16) : Option (List Int16 × DataGenerator) :=
  if useTiling then
    (ChannelState.tileLoop batchSize (g.channelStates ch) batchSize).map fun r =>
      (r.1, { g with channelStates := Function.update g.channelStates ch r.2 })
  else some ((List.range batchSize).map lut, g)

end Calls

section Spec

variable {signal : WaveformType → ℕ → ℕ → ℕ → Int16} {g g' : DataGenerator} {useTiling : Bool} {size ch : ℕ}
  {lut : ℕ → Int16} {batch : List Int16}

/-- After a rebuild every channel is at the beginning of its period. -/
theorem rebuild_ready (signal : WaveformType → ℕ → ℕ → ℕ → Int16) (hch : ch < g.numChannels) {rate frequency : ℚ}
    {types : ℕ → WaveformType} :
    let g' := g.rebuildPeriodBuffer signal rate frequency types
    (g'.channelStates ch).Ready ∧ (g'.channelStates ch).periodBuf = g'.period signal ch ∧
      (g'.channelStates ch).periodPos = 0 := by
  have hlen := ChannelState.lengthFor_pos (types ch) (WaveformUtils.computePeriodLength_pos rate frequency)
  simp only [rebuildPeriodBuffer, period, if_pos hch]
  exact ⟨⟨by simp [ChannelState.withPeriod], hlen⟩, by simp [ChannelState.withPeriod], trivial⟩

end Spec

end DataGenerator

/-! ## The generator in grebe-sg -/

/-- Where a round of `thread_func` is, with what it has loaded. -/
inductive RoundPc
  /-- before the load of `stop_requested_` -/
  | head
  /-- before the load of `paused_` -/
  | paused
  | rate
  | frequency (sampleRate : ℚ)
  /-- before it looks whether channel `ch` is a chirp -/
  | chirp (sampleRate frequency : ℚ) (ch : ℕ)
  /-- before it compares the waveform of channel `ch` with that of the period -/
  | compare (sampleRate frequency : ℚ) (useTiling : Bool) (ch : ℕ)
  /-- in `rebuild_period_buffer`, with the waveforms of the first channels -/
  | rebuild (sampleRate frequency : ℚ) (useTiling : Bool) (types : List WaveformType)

/-- grebe-sg with `n` channels and its generator. -/
structure Generated (n : ℕ) where
  generator : DataGenerator
  paused : Bool := false
  stopRequested : Bool := false
  pc : RoundPc := .head
  /-- `use_tiling` of the batch -/
  useTiling : Bool := true
  sg : SgSender n
  stream : Fin n → List Int16 := fun _ => []
  rebuilds : ℕ := 0
  /-- A round since the last rebuild has taken its samples from the table. -/
  tabled : Bool := false

namespace Generated

variable {n : ℕ}

section Steps

inductive Label
  | set (setting : DataGenerator.Setting)
  | setPaused (paused : Bool)
  | stop
  /-- The thread of the generator loads a setting, or begins the batch. -/
  | round
  /-- It goes on in its batch. -/
  | source (lut : ℕ → Int16)
  /-- One of the other threads of grebe-sg makes a step. -/
  | other (l : SgSender.Label)

/-- With a generator that is started. -/
def started (rate : ℚ) (type : WaveformType) (slots : ℕ) (pos : 0 < slots) (blockSize : UInt32) : Generated n where
  generator := ({ numChannels := n } : DataGenerator).start n rate type
  sg := .started slots pos blockSize

variable (signal : WaveformType → ℕ → ℕ → ℕ → Int16) (s : Generated n)

/-- The loop over the channels in `thread_func`. -/
def stepSource (lut : ℕ → Int16) : Option (Generated n) :=
  match s.sg.source with
  | .push len ch =>
    if h : ch < n then
      (s.generator.fill s.useTiling len ch lut).bind fun r =>
        (s.sg.feed r.1 .source).map fun sg =>
          { s with
            generator := r.2
            sg := sg
            stream := Function.update s.stream ⟨ch, h⟩ (s.stream ⟨ch, h⟩ ++ r.1) }
    else (s.sg.feed [] .source).map fun sg => { s with sg := sg }
  | _ => (s.sg.feed [] .source).map fun sg => { s with sg := sg }

/-- Where the round is when it knows whether it tiles; the waveforms are compared if the rate and the frequency are those of
the periods. -/
def compared (sampleRate frequency : ℚ) (useTiling : Bool) : RoundPc :=
  if sampleRate ≠ s.generator.cachedSampleRate ∨ frequency ≠ s.generator.cachedFrequency then
    .rebuild sampleRate frequency useTiling []
  else .compare sampleRate frequency useTiling 0

/-- A load, and where the round is then. -/
def load : RoundPc → RoundPc
  | .head => .paused
  | .paused => if s.paused then .head else .rate
  | .rate => .frequency s.generator.targetSampleRate
  | .frequency sampleRate => .chirp sampleRate s.generator.frequency 0
  | .chirp sampleRate frequency ch =>
    if ch < s.generator.numChannels then
      if s.generator.channelWaveforms ch = .chirp then s.compared sampleRate frequency false
      else .chirp sampleRate frequency (ch + 1)
    else s.compared sampleRate frequency true
  | .compare sampleRate frequency useTiling ch =>
    if s.generator.channelWaveforms ch ≠ s.generator.cachedTypes ch then .rebuild sampleRate frequency useTiling []
    else .compare sampleRate frequency useTiling (ch + 1)
  | .rebuild sampleRate frequency useTiling types =>
    .rebuild sampleRate frequency useTiling (types ++ [s.generator.channelWaveforms types.length])

/-- The batch of the round begins. -/
def beginBatch (sampleRate : ℚ) (useTiling : Bool) : Option (Generated n) :=
  (s.sg.feed [] (.batch (DataGenerator.batchSize sampleRate))).map fun sg =>
    { s with pc := .head, useTiling := useTiling, sg := sg, tabled := s.tabled || !useTiling }

/-- The end of `rebuild_period_buffer`. -/
def rebuild (sampleRate frequency : ℚ) (types : List WaveformType) : Generated n :=
  { s with
    generator := s.generator.rebuildPeriodBuffer signal sampleRate frequency fun ch => types.getD ch .sine
    rebuilds := s.rebuilds + 1
    tabled := false }

/-- `thread_func`, up to the loop over the channels. -/
def stepRound : Option (Generated n) :=
  match s.pc with
  | .head => if s.stopRequested ∨ s.sg.source ≠ .idle then none else some { s with pc := s.load .head }
  | .compare sampleRate frequency useTiling ch =>
    if ch < s.generator.numChannels then some { s with pc := s.load (.compare sampleRate frequency useTiling ch) }
    else s.beginBatch sampleRate useTiling
  | .rebuild sampleRate frequency useTiling types =>
    if types.length < s.generator.numChannels then
      some { s with pc := s.load (.rebuild sampleRate frequency useTiling types) }
    else (s.rebuild signal sampleRate frequency types).beginBatch sampleRate useTiling
  | pc => some { s with pc := s.load pc }

def step : Label → Option (Generated n)
  | .set setting => some { s with generator := s.generator.set setting }
  | .setPaused paused => some { s with paused := paused }
  | .stop => some { s with stopRequested := true }
  | .round => s.stepRound signal
  | .source lut => s.stepSource lut
  | .other l => if ofOthers l then (s.sg.feed [] l).map fun sg => { s with sg := sg } else none

/-- There was a rebuild. -/
def rebuilt (s s' : Generated n) : Bool := s.rebuilds ≠ s'.rebuilds

/-- What the thread of the generator does next. -/
def next (lut : ℕ → Int16) : Label := if s.sg.source = .idle then .round else .source lut

end Steps

/-! ## What a step does -/

section Spec

variable {signal : WaveformType → ℕ → ℕ → ℕ → Int16} {s s' : Generated n} {l : Label}

/-- What one step does: a setting; a load; the beginning of a batch, maybe with new periods; a batch that is pushed; and a
step of `SgSender` that pushes nothing. -/
inductive Step (signal : WaveformType → ℕ → ℕ → ℕ → Int16) (s : Generated n) : Generated n → Prop
  | set (setting : DataGenerator.Setting) : Step signal s { s with generator := s.generator.set setting }
  | flags (paused stopRequested : Bool) : Step signal s { s with paused := paused, stopRequested := stopRequested }
  | load (hidle : s.pc = .head → s.sg.source = .idle) : Step signal s { s with pc := s.load s.pc }
  | batch {sampleRate frequency : ℚ} {useTiling : Bool} {ch : ℕ} {sg : SgSender n}
      (hpc : s.pc = .compare sampleRate frequency useTiling ch)
      (hst : s.sg.feed [] (.batch (DataGenerator.batchSize sampleRate)) = some sg) :
      Step signal s { s with pc := .head, useTiling := useTiling, sg := sg, tabled := s.tabled || !useTiling }
  | rebuild {sampleRate frequency : ℚ} {useTiling : Bool} {types : List WaveformType} {sg : SgSender n}
      (hpc : s.pc = .rebuild sampleRate frequency useTiling types)
      (hst : s.sg.feed [] (.batch (DataGenerator.batchSize sampleRate)) = some sg) :
      Step signal s
        { s.rebuild signal sampleRate frequency types with
          pc := .head
          useTiling := useTiling
          sg := sg
          tabled := !useTiling }
  | push {len : ℕ} {ch : Fin n} {lut : ℕ → Int16} {batch : List Int16} {generator : DataGenerator} {sg : SgSender n}
      (hpc : s.sg.source = .push len ch) (hfill : s.generator.fill s.useTiling len ch lut = some (batch, generator))
      (hst : s.sg.feed batch .source = some sg) :
      Step signal s
        { s with generator := generator, sg := sg, stream := Function.update s.stream ch (s.stream ch ++ batch) }
  | other {l : SgSender.Label} {sg : SgSender n} (hno : l ≠ .switchSource) (hbatch : ∀ len, l ≠ .batch len)
      (hpush : l = .source → ∀ len (ch : Fin n), s.sg.source ≠ .push len ch)
      (hst : s.sg.feed [] l = some sg) : Step signal s { s with sg := sg }

theorem round_cases (h : s.stepRound signal = some s') : Step signal s s' := by
  unfold stepRound at h
  split at h
  case h_1 hpc =>
    split_ifs at h with hstop
    rw [← hpc] at h
    cases h
    exact .load fun _ => not_not.mp (not_or.mp hstop).2
  case h_2 hpc =>
    split_ifs at h with hch
    · rw [← hpc] at h
      cases h
      exact .load fun hhead => RoundPc.noConfusion (hpc.symm.trans hhead)
    · obtain ⟨sg, hsg, rfl⟩ := Option.map_eq_some_iff.mp h
      exact .batch hpc hsg
  case h_3 hpc =>
    split_ifs at h with hch
    · rw [← hpc] at h
      cases h
      exact .load fun hhead => RoundPc.noConfusion (hpc.symm.trans hhead)
    · obtain ⟨sg, hsg, rfl⟩ := Option.map_eq_some_iff.mp h
      exact .rebuild hpc hsg
  case h_4 hhead _ _ =>
    cases h
    exact .load fun hpc => absurd hpc hhead

theorem step_cases (h : s.step signal l = some s') : Step signal s s' := by
  cases l with
  | set setting =>
    cases h
    exact .set setting
  | setPaused paused =>
    cases h
    exact .flags paused s.stopRequested
  | stop =>
    cases h
    exact .flags s.paused true
  | round => exact round_cases h
  | source lut =>
    simp only [step, stepSource] at h
    split at h
    · rename_i len ch hpc
      split_ifs at h with hch
      · obtain ⟨⟨batch, generator⟩, hfill, h⟩ := Option.bind_eq_some_iff.mp h
        obtain ⟨sg, hsg, rfl⟩ := Option.map_eq_some_iff.mp h
        have hpc' : s.sg.source = .push len (⟨ch, hch⟩ : Fin n) := hpc
        exact .push hpc' hfill hsg
      · obtain ⟨sg, hsg, rfl⟩ := Option.map_eq_some_iff.mp h
        refine .other (l := .source) (by simp) (by simp) (fun _ len' ch' hpc' => ?_) hsg
        obtain ⟨-, rfl⟩ := SourcePc.push.inj (hpc.symm.trans hpc')
        exact hch ch'.isLt
    · rename_i hpc
      obtain ⟨sg, hsg, rfl⟩ := Option.map_eq_some_iff.mp h
      exact .other (l := .source) (by simp) (by simp) (fun _ len ch hpc' => hpc len ch hpc') hsg
  | other l =>
    simp only [step] at h
    split_ifs at h with hother
    obtain ⟨sg, hsg, rfl⟩ := Option.map_eq_some_iff.mp h
    obtain ⟨hno, hsource, hbatch⟩ := ofOthers_iff.mp hother
    exact .other hno hbatch (fun h => absurd h hsource) hsg

end Spec

/-! ## What is generated -/

section Invariant

variable {signal : WaveformType → ℕ → ℕ → ℕ → Int16} {s s' : Generated n}

/-- What a round knows of the frequency; where it compares the waveforms, there are periods. -/
def Known (cachedFrequency : ℚ) : RoundPc → Prop
  | .chirp _ frequency _ => 0 < frequency
  | .compare .. => 0 < cachedFrequency
  | _ => True

/-- The books on the generator and on what it has generated. -/
structure GeneratedInv (signal : WaveformType → ℕ → ℕ → ℕ → Int16) (s : Generated n) : Prop where
  channels : s.generator.numChannels = n
  /-- Before the first round there is nothing, and then every channel is in its period. -/
  periods : (s.generator.cachedFrequency = 0 ∧ s.sg.source = .idle ∧ ∀ ch, s.stream ch = []) ∨
    ∀ ch : Fin n, (s.generator.channelStates ch).Ready ∧
      (s.generator.channelStates ch).periodBuf = s.generator.period signal ch
  /-- The thread is in its loads or in a batch. -/
  idle : s.pc ≠ .head → s.sg.source = .idle
  known : Known s.generator.cachedFrequency s.pc
  tiling : s.sg.source ≠ .idle → s.tabled = false → s.useTiling = true
  feed : FeedInv s.stream s.sg

/-- The beginning of a batch pushes nothing. -/
theorem GeneratedInv.batch (h : GeneratedInv signal s) {len : ℕ} {sg : SgSender n}
    (hst : s.sg.feed [] (.batch len) = some sg) : FeedInv s.stream sg := by
  have hno : NoSwitch s.sg (.batch len) := by simp [NoSwitch]
  exact h.feed.other hno (by simp) hst

end Invariant

/-! ## Since the last rebuild -/

section Since

variable {signal : WaveformType → ℕ → ℕ → ℕ → Int16} {s s' s₀ : Generated n}

end Since

/-! ## What is polled of it -/

section Polled

variable {signal : WaveformType → ℕ → ℕ → ℕ → Int16}

/-- The samples of a period are its first numbers. -/
def counting (_ : WaveformType) (_ _ i : ℕ) : Int16 := Int16.ofNat i

end Polled

end Generated

end Grebe
