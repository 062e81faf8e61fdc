import Grebe.DataGenerator
import Grebe.EnvelopeVerifier
import Grebe.SgOptions
import Grebe.SyntheticSource

/-!
# Grebe.ProfilePeriod — the period that a profile compares with

The verifiers of a profile need the period of the signal.  In the embedded mode the source is at hand, and its buffers
are read.  With a grebe-sg the viewer computes a period of its own, for a frequency that follows from the rate; the
generator has the frequency of its options, of which the viewer passes none.

* `embedded_agree`: with the source at hand a verifier has its period.
* `periods_agree_iff`: with a grebe-sg the lengths are the same for hardly any rate, and for none of a profile.

Rates and frequencies are exact rationals, and the samples are parameters.
-/

namespace Grebe

/-- The value of a finite `double`. -/
def Double.value (x : Double) : ℚ :=
  let exponent := (x.bits >>> 52 &&& 0x7FF).toNat
  let fraction := (x.bits &&& 0xFFFFFFFFFFFFF).toNat
  let magnitude : ℚ :=
    if exponent = 0 then fraction * 2 ^ (-1074 : ℤ) else (2 ^ 52 + fraction) * 2 ^ ((exponent : ℤ) - 1075)
  if x.bits >>> 63 = 0 then magnitude else -magnitude

/-! ## The two processes -/

section Processes

/-- `sg_args` in `main` of the viewer. -/
def sgArgs (channelCount blockSize : UInt32) (ringBufferSize : UInt64) (filePath : String) : List String :=
  ["--channels=" ++ toString channelCount.toNat, "--block-size=" ++ toString blockSize.toNat] ++
    (if ringBufferSize ≠ 67108864 then ["--ring-size=" ++ toString ringBufferSize.toNat] else []) ++
    (if filePath ≠ "" then ["--file=" ++ filePath] else [])

/-- `data_gen`, as `main` of grebe-sg starts it. -/
def SgOptions.dataGen (opts : SgOptions) : DataGenerator :=
  (({ numChannels := 0 } : DataGenerator).setFrequency opts.frequencyHz.value).start opts.numChannels.toNat
    opts.sampleRate.value .sine

structure ScenarioConfig where
  name : String
  sampleRate : ℚ := 1000000
  warmupFrames : ℕ := 120
  measureFrames : ℕ := 300
  minFpsThreshold : ℚ := 30

namespace ProfileRunner

def buildScenarios (channelCount : UInt32) : List ScenarioConfig :=
  let channels := if channelCount > 1 then toString channelCount.toNat ++ "ch×" else ""
  [⟨channels ++ "1MSPS", 1000000, 120, 300, 30⟩, ⟨channels ++ "10MSPS", 10000000, 120, 300, 30⟩,
    ⟨channels ++ "100MSPS", 100000000, 120, 300, 30⟩, ⟨channels ++ "1GSPS", 1000000000, 120, 300, 30⟩]

/-- `init_envelope_verifiers`, after the verifiers have been cleared for the scenario; `source`: in the embedded mode. -/
def initEnvelopeVerifiers (source : Option SyntheticSource) (sine : ℕ → UInt32 → UInt32 → ℕ → Int16) (sampleRate : ℚ)
    (channelCount : UInt32) : List EnvelopeVerifier :=
  (List.range channelCount.toNat).map fun ch =>
    match source with
    | some source =>
      if source.channelWaveforms ch = .whiteNoise ∨ source.channelWaveforms ch = .chirp then .clear
      else if (source.channelStates ch).periodLen = 0 then .clear
      else .setPeriod (source.channelStates ch).periodBuf
    | none => .setPeriod (WaveformUtils.generateSinePeriod sine sampleRate (UInt32.ofNat ch) channelCount)

end ProfileRunner

end Processes

/-! ## Lengths -/

namespace WaveformUtils

section Rates

variable {r : ℚ}

/-- Up to 60 MSPS the frequency of the viewer is 180 Hz. -/
theorem computeFrequency_low (h : r ≤ 60000000) : computeFrequency r = 180 := by
  rw [computeFrequency, max_eq_left]
  linarith

/-- Above it is three periods in a million samples. -/
theorem length_high (h : 60000000 < r) : computePeriodLength r (computeFrequency r) = 333333 := by
  have hfrequency : computeFrequency r = 3 * r / 1000000 := by
    rw [computeFrequency, max_eq_right]
    linarith
  have hquot : r / computeFrequency r = 1000000 / 3 := by
    rw [hfrequency]
    field_simp
  rw [computePeriodLength_eq_iff (by rw [hquot]; norm_num) (by norm_num), hquot]
  norm_num

/-- **When the viewer's period and one of 1 kHz have the same length**: both a single sample, or a third of a million. -/
theorem length_eq_iff (hr : 0 < r) : computePeriodLength r (computeFrequency r) = computePeriodLength r 1000 ↔
    r < 270 ∨ 333332500 ≤ r ∧ r < 333333500 := by
  have hkilo : 0 ≤ r / 1000 := by positivity
  by_cases hlow : r ≤ 60000000
  · rw [computeFrequency_low hlow]
    have hviewer : 0 ≤ r / 180 := by positivity
    constructor
    · intro heq
      left
      by_contra hge
      -- at least two samples of the viewer's, and too few of the other
      obtain ⟨n, hn⟩ : ∃ n, computePeriodLength r 180 = n := ⟨_, rfl⟩
      have htwo : 2 ≤ n := by
        have hpos := computePeriodLength_pos r 180
        have hne : computePeriodLength r 180 ≠ 1 := by
          rw [Ne, computePeriodLength_eq_one hviewer]
          intro hlt
          linarith
        omega
      have htwo' : (2 : ℚ) ≤ n := by exact_mod_cast htwo
      obtain ⟨-, hupper⟩ := (computePeriodLength_eq_iff hviewer htwo).mp hn
      obtain ⟨hlower, -⟩ := (computePeriodLength_eq_iff hkilo htwo).mp (heq.symm.trans hn)
      linarith
    · rintro (hlt | ⟨hge, -⟩)
      · rw [(computePeriodLength_eq_one hviewer).mpr (by linarith), (computePeriodLength_eq_one hkilo).mpr (by linarith)]
      · linarith
  · rw [length_high (not_le.mp hlow), eq_comm, computePeriodLength_eq_iff hkilo (by norm_num)]
    have hhigh := not_le.mp hlow
    constructor
    · rintro ⟨hge, hlt⟩
      push_cast at hge hlt
      exact .inr ⟨by linarith, by linarith⟩
    · rintro (hlt | ⟨hge, hlt⟩)
      · linarith
      · push_cast
        exact ⟨by linarith, by linarith⟩

end Rates

end WaveformUtils

/-! ## The frequency of the generator -/

namespace SgOptions

section Frequency

variable {stod : String → Option Double} {opts opts' : SgOptions} {val arg : String}

/-- Only its own option changes the frequency. -/
theorem frequencyHz_options {o : String × (SgOptions → String → Except SgExit SgOptions)} (ho : o ∈ options stod)
    (hother : o.1 ≠ "--frequency=") (hset : o.2 opts val = .ok opts') : opts'.frequencyHz = opts.frequencyHz := by
  simp only [options, List.mem_cons, List.not_mem_nil, or_false] at ho
  rcases ho with rfl | rfl | rfl | rfl | rfl | rfl | rfl | rfl | rfl
  · obtain ⟨n, -, hn⟩ := orThrow_ok.mp hset
    split_ifs at hn
    cases hn
    rfl
  · obtain ⟨x, -, hx⟩ := orThrow_ok.mp hset
    cases hx
    rfl
  · exact absurd rfl hother
  · obtain ⟨sz, -, hsz⟩ := orThrow_ok.mp hset
    cases hsz
    rfl
  · obtain ⟨n, -, hn⟩ := orThrow_ok.mp hset
    cases hn
    rfl
  · cases hset
    rfl
  · dsimp only [setTransport] at hset
    split_ifs at hset
    cases hset
    rfl
  · obtain ⟨n, -, hn⟩ := orThrow_ok.mp hset
    cases hn
    rfl
  · dsimp only [setUdpTarget] at hset
    split_ifs at hset
    · obtain ⟨n, -, hn⟩ := orThrow_ok.mp hset
      cases hn
      rfl
    · cases hset
      rfl

theorem frequencyHz_parseArg (hother : ¬ "--frequency=".toList <+: arg.toList)
    (hparse : parseArg stod opts arg = .ok opts') : opts'.frequencyHz = opts.frequencyHz := by
  unfold parseArg at hparse
  split_ifs at hparse
  split at hparse
  · cases hparse
    rfl
  · rename_i o ho
    refine frequencyHz_options (List.mem_of_find?_eq_some ho) (fun hfrequency => hother ?_) hparse
    rw [← hfrequency]
    exact List.isPrefixOf_iff_prefix.mp (by simpa using List.find?_some ho)

/-- **Without its option the frequency is the default.** -/
theorem frequencyHz_parseSgCli {args : List String} (hother : ∀ arg ∈ args, ¬ "--frequency=".toList <+: arg.toList)
    (hparse : parseSgCli stod args = .ok opts) : opts.frequencyHz = ⟨0x408F400000000000⟩ := by
  have hfold : ∀ (args : List String) (o : SgOptions), (∀ arg ∈ args, ¬ "--frequency=".toList <+: arg.toList) →
      args.foldlM (parseArg stod) o = .ok opts → opts.frequencyHz = o.frequencyHz := by
    intro args
    induction args with
    | nil =>
      intro o _ heq
      cases heq
      rfl
    | cons arg args ih =>
      intro o hno heq
      rw [List.foldlM_cons] at heq
      cases harg : parseArg stod o arg with
      | error e =>
        rw [harg] at heq
        cases heq
      | ok o' =>
        rw [harg] at heq
        rw [ih o' (fun a ha => hno a (List.mem_cons_of_mem _ ha)) heq,
          frequencyHz_parseArg (hno arg List.mem_cons_self) harg]
  exact hfold args {} hother hparse

/-- The viewer passes no frequency. -/
theorem not_frequency_sgArgs {channelCount blockSize : UInt32} {ringBufferSize : UInt64} {filePath arg : String}
    (harg : arg ∈ sgArgs channelCount blockSize ringBufferSize filePath) : ¬ "--frequency=".toList <+: arg.toList := by
  simp only [sgArgs, List.mem_append, List.mem_cons, List.not_mem_nil, or_false, List.mem_ite_nil_right] at harg
  obtain ((rfl | rfl) | ⟨-, rfl⟩) | ⟨-, rfl⟩ := harg <;> simp

/-- 1 kHz -/
theorem value_default : (⟨0x408F400000000000⟩ : Double).value = 1000 := by
  have hexponent : ((0x408F400000000000 : UInt64) >>> 52 &&& 0x7FF).toNat = 1032 := by decide
  have hfraction : ((0x408F400000000000 : UInt64) &&& 0xFFFFFFFFFFFFF).toNat = 4292493394837504 := by decide
  have hsign : (0x408F400000000000 : UInt64) >>> 63 = 0 := by decide
  simp only [Double.value, hexponent, hfraction, hsign]
  norm_num

theorem frequency_dataGen (h : opts.frequencyHz = ⟨0x408F400000000000⟩) : opts.dataGen.frequency = 1000 := by
  have hfrequency : opts.dataGen.targetFrequency = 1000 := by
    show max 1 opts.frequencyHz.value = 1000
    rw [h, value_default]
    norm_num
  rw [DataGenerator.frequency, hfrequency]
  norm_num

end Frequency

end SgOptions

/-! ## The comparison -/

namespace ProfileRunner

section Embedded

variable {signal : WaveformType → ℕ → ℕ → ℕ → Int16} {scale : ℕ → ℕ → ℕ → ℕ} {numChannels : UInt32} {sampleRate : ℚ}
  {type : WaveformType} {s : SourceRun}

/-- **With the source at hand a verifier has the period that the source copies from.** -/
theorem embedded_agree (hs : (SourceRun.synthetic signal scale numChannels sampleRate type).Reachable s)
    (sine : ℕ → UInt32 → UInt32 → ℕ → Int16) (rate : ℚ) {ch : ℕ} (hch : ch < numChannels.toNat)
    (htype : s.source.channelWaveforms ch ≠ .whiteNoise ∧ s.source.channelWaveforms ch ≠ .chirp)
    (hlen : 0 < (s.source.channelStates ch).periodLen) :
    ∃ v, (initEnvelopeVerifiers (some s.source) sine rate numChannels)[ch]? = some v ∧
      v.periodBuf = some (s.source.channelStates ch).periodBuf ∧
      (s.source.channelStates ch).periodBuf.length = (s.source.channelStates ch).periodLen := by
  have hready : (s.source.channelStates ch).Ready := by
    obtain ⟨-, -, hempty⟩ | hready := (SourceRun.reach_tiled hs).ready
    · rw [hempty] at hlen
      exact absurd hlen (Nat.lt_irrefl 0)
    · exact hready ch hch
  refine ⟨_, List.getElem?_eq_some_iff.mpr ⟨by simpa [initEnvelopeVerifiers] using hch, rfl⟩, ?_, hready.length⟩
  simp [initEnvelopeVerifiers, htype, hlen.ne', EnvelopeVerifier.setPeriod]

end Embedded

section Spawned

variable (signal : WaveformType → ℕ → ℕ → ℕ → Int16) (sine : ℕ → UInt32 → UInt32 → ℕ → Int16)

/-- The verifier of channel `ch` has a period as long as that of the generator, some events after the start and a round
of its thread after the command that sets the rate. -/
def PeriodsAgree (opts : SgOptions) (channelCount : UInt32) (rate : ℚ) (events : List DataGenerator.Event) (ch : ℕ) :
    Prop :=
  (initEnvelopeVerifiers none sine rate channelCount)[ch]?.map (fun v => (v.periodBuf.getD []).length) =
    some ((opts.dataGen.run signal (events ++ [.setSampleRate rate, .round])).channelStates ch).periodLen

variable {stod : String → Option Double} {opts : SgOptions} {channelCount blockSize : UInt32} {ringBufferSize : UInt64}
  {filePath : String} {ch : ℕ}

theorem periodsAgree_iff_length
    (hparse : parseSgCli stod (sgArgs channelCount blockSize ringBufferSize filePath) = .ok opts)
    (hch : ch < channelCount.toNat) (hch' : ch < opts.numChannels.toNat) (rate : ℚ)
    (events : List DataGenerator.Event) : PeriodsAgree signal sine opts channelCount rate events ch ↔
      WaveformUtils.computePeriodLength rate (WaveformUtils.computeFrequency rate) =
        WaveformUtils.computePeriodLength rate 1000 := by
  have hfrequency := SgOptions.frequency_dataGen
    (SgOptions.frequencyHz_parseSgCli (fun _ harg => SgOptions.not_frequency_sgArgs harg) hparse)
  have hviewer : (initEnvelopeVerifiers none sine rate channelCount)[ch]?.map (fun v => (v.periodBuf.getD []).length) =
      some (WaveformUtils.computePeriodLength rate (WaveformUtils.computeFrequency rate)) := by
    simp [initEnvelopeVerifiers, hch, EnvelopeVerifier.setPeriod]
  have hgenerator := DataGenerator.period_of_run signal (g := opts.dataGen) (.inl rfl) events rate hch'
  rw [PeriodsAgree, hviewer, hgenerator, hfrequency, Option.some_inj]
  rfl

/-- **The verifier assumes the period that grebe-sg generates exactly if the rate is below 270, or within half a kilohertz
of 333.333 MSPS**, and so for no scenario of a profile. -/
theorem periods_agree_iff
    (hparse : parseSgCli stod (sgArgs channelCount blockSize ringBufferSize filePath) = .ok opts)
    (hch : ch < channelCount.toNat) (hch' : ch < opts.numChannels.toNat) (events : List DataGenerator.Event) :
    (∀ rate, 0 < rate → (PeriodsAgree signal sine opts channelCount rate events ch ↔
      rate < 270 ∨ 333332500 ≤ rate ∧ rate < 333333500)) ∧
    ∀ scenario ∈ buildScenarios channelCount,
      ¬ PeriodsAgree signal sine opts channelCount scenario.sampleRate events ch := by
  have hiff : ∀ rate, 0 < rate → (PeriodsAgree signal sine opts channelCount rate events ch ↔
      rate < 270 ∨ 333332500 ≤ rate ∧ rate < 333333500) := fun rate hrate =>
    (periodsAgree_iff_length signal sine hparse hch hch' rate events).trans (WaveformUtils.length_eq_iff hrate)
  refine ⟨hiff, ?_⟩
  intro scenario hscenario
  simp only [buildScenarios, List.mem_cons, List.not_mem_nil, or_false] at hscenario
  obtain rfl | rfl | rfl | rfl := hscenario
  all_goals
    rw [hiff _ (by norm_num)]
    norm_num

/-- **At 1 MSPS the verifier has 5556 samples and the generator 1000.** -/
theorem periods_differ : ∃ opts, parseSgCli (fun _ => none) (sgArgs 1 16384 67108864 "") = .ok opts ∧
    ⟨"1MSPS", 1000000, 120, 300, 30⟩ ∈ buildScenarios 1 ∧
    ((initEnvelopeVerifiers none (fun _ _ _ _ => 0) 1000000 1).map fun v => (v.periodBuf.getD []).length) = [5556] ∧
    ((opts.dataGen.run (fun _ _ _ _ => 0) [.setSampleRate 1000000, .round]).channelStates 0).periodLen = 1000 ∧
    ¬ PeriodsAgree (fun _ _ _ _ => 0) (fun _ _ _ _ => 0) opts 1 1000000 [] 0 := by
  have hviewer : ((initEnvelopeVerifiers none (fun _ _ _ _ => 0) 1000000 1).map fun v =>
      (v.periodBuf.getD []).length) = [5556] := by
    have hlen : WaveformUtils.computePeriodLength 1000000 (WaveformUtils.computeFrequency 1000000) = 5556 := by
      rw [WaveformUtils.computeFrequency_low (by norm_num),
        WaveformUtils.computePeriodLength_eq_iff (by norm_num) (by norm_num)]
      norm_num
    simp [initEnvelopeVerifiers, EnvelopeVerifier.setPeriod, hlen]
  have hgenerator : (((SgOptions.dataGen {}).run (fun _ _ _ _ => 0) [.setSampleRate 1000000, .round]).channelStates
      0).periodLen = 1000 := by
    have hlen : WaveformUtils.computePeriodLength 1000000 1000 = 1000 := by
      rw [WaveformUtils.computePeriodLength_eq_iff (by norm_num) (by norm_num)]
      norm_num
    apply (DataGenerator.period_of_run _ (g := SgOptions.dataGen {}) (.inl rfl) [] 1000000 (by decide)).trans
    rw [SgOptions.frequency_dataGen rfl]
    exact hlen
  refine ⟨{}, by decide +kernel, List.mem_cons_self, hviewer, hgenerator, ?_⟩
  rw [PeriodsAgree, List.nil_append, hgenerator, ← List.getElem?_map, hviewer]
  simp

theorem periods_agree_iff_one : PeriodsAgree (fun _ _ _ _ => 0) (fun _ _ _ _ => 0) {} 1 200 [] 0 :=
  ((periods_agree_iff (fun _ _ _ _ => 0) (fun _ _ _ _ => 0)
    (show parseSgCli (fun _ => none) (sgArgs 1 16384 67108864 "") = .ok {} by decide +kernel) (by decide) (by decide)
    []).1 200 (by norm_num)).mpr (.inl (by norm_num))

end Spawned

end ProfileRunner

end Grebe
