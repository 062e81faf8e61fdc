import Grebe.AppCommands
import Grebe.Benchmark
import Grebe.ProfileEnvelope
import Grebe.ProfilePeriod

/-!
# Grebe.ProfileRun — a profile, frame by frame

The main loop calls `on_frame` once for each frame that it draws.  A scenario begins with its first frame, which asks for
its rate; from its eleventh frame on the verifiers have a period; and the frames after the warm-up are measured.  The
last frame of a scenario makes a result of them, and the last one of all asks the viewer to quit.

`scenarioResult` says the same of a whole scenario at once, from the list of its frames alone.

* `run_scenario`: what `on_frame` makes of the frames of a scenario.
* `run_profile`: what it makes of any number of frames.
* `exitCode_iff`: when the profile passes.
-/

namespace Grebe

open ProfileRunner

/-! ## One frame -/

section Frames

structure FrameSample where
  frameTimeMs : ℚ := 0
  drainMs : ℚ := 0
  decimateMs : ℚ := 0
  uploadMs : ℚ := 0
  swapMs : ℚ := 0
  renderMs : ℚ := 0
  samples : UInt32 := 0
  vertexCount : UInt32 := 0
  decimateRatio : ℚ := 1
  dataRate : ℚ := 0
  windowCoverage : ℚ := 0
  /-- -1: skipped -/
  envelopeMatchRate : ℚ := -1

structure ScenarioResult where
  config : ScenarioConfig
  fps : MetricStats
  frameMs : MetricStats
  drainMs : MetricStats
  decimateMs : MetricStats
  uploadMs : MetricStats
  swapMs : MetricStats
  renderMs : MetricStats
  samplesPerFrame : MetricStats
  vertexCount : MetricStats
  dataRate : MetricStats
  windowCoverage : MetricStats
  envelopeMatchRate : MetricStats
  dropTotal : UInt64
  sgDropTotal : UInt64
  pass : Bool

/-- The arguments of a call of `on_frame`, the source that `synthetic_source_` points to at that time, and how often that
has built its periods. -/
structure ProfileFrame where
  bench : Benchmark
  vertexCount : UInt32
  dataRate : ℚ
  totalDrops : UInt64
  sgDrops : UInt64
  rawSamples : UInt32
  frameData : Option (List Int16) := none
  perChVtx : UInt32 := 0
  decAlgo : DecimationAlgorithm := .minMax
  perChRaw : Option (List UInt32) := none
  syntheticSource : Option SyntheticSource := none
  rebuilds : ℕ := 0

/-- The runner, and the commands that it has pushed. -/
structure ProfileRunner where
  scenarios : List ScenarioConfig := []
  results : List ScenarioResult := []
  currentSamples : List FrameSample := []
  currentScenario : ℕ := 0
  frameInScenario : ℕ := 0
  finished : Bool := false
  scenarioStarted : Bool := false
  scenariosBuilt : Bool := false
  channelCount : UInt32 := 1
  dropsAtStart : UInt64 := 0
  sgDropsAtStart : UInt64 := 0
  envelopeVerifiers : List EnvelopeVerifier := []
  envelopeVerifiersInitialized : Bool := false
  pushed : List AppCommand := []

namespace ProfileRunner

/-- What a frame is measured at. -/
def sampleOf (scenario : ScenarioConfig) (f : ProfileFrame) (envelopeMatchRate : ℚ) : FrameSample :=
  let frameMs := f.bench.frameTimeMs
  let expected := if frameMs > 0 then scenario.sampleRate * frameMs / 1000 else 0
  { frameTimeMs := frameMs
    drainMs := f.bench.drain.avg
    decimateMs := f.bench.decimate.avg
    uploadMs := f.bench.upload.avg
    swapMs := f.bench.swap.avg
    renderMs := f.bench.render.avg
    samples := Benchmark.toUInt32 f.bench.samples.avg
    vertexCount := f.vertexCount
    decimateRatio := f.bench.decimateRatio
    dataRate := f.dataRate
    windowCoverage := if expected > 0 then f.rawSamples.toNat / expected else 0
    envelopeMatchRate := envelopeMatchRate }

/-- The result of the samples of a scenario; `none` where the statistics are. -/
def resultOf (scenario : ScenarioConfig) (samples : List FrameSample) (drops sgDrops : UInt64) :
    Option ScenarioResult := do
  let stats (f : FrameSample → ℚ) := computeStats (samples.map f)
  let frameMs ← stats FrameSample.frameTimeMs
  let fps ← deriveFpsStats (samples.map FrameSample.frameTimeMs)
  let drainMs ← stats FrameSample.drainMs
  let decimateMs ← stats FrameSample.decimateMs
  let uploadMs ← stats FrameSample.uploadMs
  let swapMs ← stats FrameSample.swapMs
  let renderMs ← stats FrameSample.renderMs
  let samplesPerFrame ← stats fun s => s.samples.toNat
  let vertexCount ← stats fun s => s.vertexCount.toNat
  let dataRate ← stats FrameSample.dataRate
  let windowCoverage ← stats FrameSample.windowCoverage
  let envelopeMatchRate ← computeStats ((samples.map FrameSample.envelopeMatchRate).filter (· ≥ 0))
  some
    { config := scenario, fps := fps, frameMs := frameMs, drainMs := drainMs, decimateMs := decimateMs
      uploadMs := uploadMs, swapMs := swapMs, renderMs := renderMs, samplesPerFrame := samplesPerFrame
      vertexCount := vertexCount, dataRate := dataRate, windowCoverage := windowCoverage
      envelopeMatchRate := envelopeMatchRate, dropTotal := drops, sgDropTotal := sgDrops
      pass := fps.avg ≥ scenario.minFpsThreshold }

variable (sine : ℕ → UInt32 → UInt32 → ℕ → Int16) (r : ProfileRunner)

/-- `build_scenarios` -/
def withScenarios : ProfileRunner :=
  if r.scenariosBuilt then r else { r with scenariosBuilt := true, scenarios := buildScenarios r.channelCount }

/-- First frame of scenario -/
def startScenario (scenario : ScenarioConfig) (f : ProfileFrame) : ProfileRunner :=
  if r.scenarioStarted then r
  else
    { r with
      scenarioStarted := true
      frameInScenario := 0
      currentSamples := []
      dropsAtStart := f.totalDrops
      sgDropsAtStart := f.sgDrops
      envelopeVerifiers := r.envelopeVerifiers.map fun _ => .clear
      envelopeVerifiersInitialized := false
      pushed := r.pushed ++ [.setSampleRate scenario.sampleRate] }

/-- Initialize envelope verifiers after rate change has settled -/
def settle (scenario : ScenarioConfig) (f : ProfileFrame) : ProfileRunner :=
  if ¬ r.envelopeVerifiersInitialized ∧ r.frameInScenario ≥ 10 then
    { r with
      envelopeVerifiers := initEnvelopeVerifiers f.syntheticSource sine scenario.sampleRate r.channelCount
      envelopeVerifiersInitialized := true }
  else r

/-- `run_envelope_verification`, if there is data: the verifiers after it, and the score. -/
def verifyFrame (channelCount : UInt32) (vs : List EnvelopeVerifier) (f : ProfileFrame) : List EnvelopeVerifier × ℚ :=
  match f.frameData with
  | some data =>
    if f.perChVtx > 0 then runEnvelopeVerification vs channelCount data f.perChVtx f.rawSamples f.decAlgo f.perChRaw
    else (vs, -1)
  | none => (vs, -1)

/-- The frame itself: in the warm-up it is at most verified, after it it is measured. -/
def takeFrame (scenario : ScenarioConfig) (f : ProfileFrame) : ProfileRunner :=
  let verified := verifyFrame r.channelCount r.envelopeVerifiers f
  if r.frameInScenario < scenario.warmupFrames then
    if r.envelopeVerifiersInitialized then { r with envelopeVerifiers := verified.1 } else r
  else
    { r with
      envelopeVerifiers := verified.1
      currentSamples := r.currentSamples ++ [sampleOf scenario f verified.2] }

/-- Scenario complete? -/
def endFrame (scenario : ScenarioConfig) (f : ProfileFrame) : Option ProfileRunner :=
  let r := { r with frameInScenario := r.frameInScenario + 1 }
  if r.frameInScenario ≥ scenario.warmupFrames + scenario.measureFrames then
    (resultOf scenario r.currentSamples (f.totalDrops - r.dropsAtStart) (f.sgDrops - r.sgDropsAtStart)).map fun result =>
      let r :=
        { r with
          results := r.results ++ [result]
          currentScenario := r.currentScenario + 1
          scenarioStarted := false }
      if r.currentScenario ≥ r.scenarios.length then { r with finished := true, pushed := r.pushed ++ [.quit] } else r
  else some r

/-- `on_frame`; `none`: a read outside `scenarios_` or a sorted vector. -/
def onFrame (f : ProfileFrame) : Option ProfileRunner :=
  if r.finished then some r
  else
    let r := r.withScenarios
    r.scenarios[r.currentScenario]?.bind fun scenario =>
      (((r.startScenario scenario f).settle sine scenario f).takeFrame scenario f).endFrame scenario f

def run (frames : List ProfileFrame) : Option ProfileRunner := frames.foldlM (onFrame sine) r

/-- `generate_report`: the exit code -/
def generateReport : ℕ := if r.results.all (·.pass) then 0 else 1

/-! ## A whole scenario -/

/-- The verifiers after these frames. -/
def verifiersAfter (channelCount : UInt32) (vs : List EnvelopeVerifier) (frames : List ProfileFrame) :
    List EnvelopeVerifier :=
  frames.foldl (fun vs f => (verifyFrame channelCount vs f).1) vs

/-- The scores of these frames. -/
def scores (channelCount : UInt32) : List EnvelopeVerifier → List ProfileFrame → List ℚ
  | _, [] => []
  | vs, f :: frames => (verifyFrame channelCount vs f).2 :: scores channelCount (verifyFrame channelCount vs f).1 frames

/-- The verifiers of a scenario, from its eleventh frame on. -/
def scenarioVerifiers (channelCount : UInt32) (scenario : ScenarioConfig) (frames : List ProfileFrame) :
    List EnvelopeVerifier :=
  initEnvelopeVerifiers (frames[10]?.bind ProfileFrame.syntheticSource) sine scenario.sampleRate channelCount

/-- The samples of a scenario: its frames after the warm-up, with the scores by its own verifiers. -/
def scenarioSamples (channelCount : UInt32) (scenario : ScenarioConfig) (frames : List ProfileFrame) :
    List FrameSample :=
  List.zipWith (sampleOf scenario) (frames.drop scenario.warmupFrames)
    ((scores channelCount (scenarioVerifiers sine channelCount scenario frames) (frames.drop 10)).drop
      (scenario.warmupFrames - 10))

/-- The result of a scenario, from its frames. -/
def scenarioResult (channelCount : UInt32) (scenario : ScenarioConfig) (frames : List ProfileFrame) :
    Option ScenarioResult := do
  let first ← frames.head?
  let last ← frames.getLast?
  resultOf scenario (scenarioSamples sine channelCount scenario frames) (last.totalDrops - first.totalDrops)
    (last.sgDrops - first.sgDrops)

/-- `total_frames` -/
def totalFrames (scenario : ScenarioConfig) : ℕ := scenario.warmupFrames + scenario.measureFrames

/-- **A profile**: the results of the scenarios that these frames complete, and the commands. -/
def profile (channelCount : UInt32) : List ScenarioConfig → List ProfileFrame →
    List (Option ScenarioResult) × List AppCommand
  | [], _ => ([], [.quit])
  | scenario :: scenarios, frames =>
    if frames = [] then ([], [])
    else if frames.length < totalFrames scenario then ([], [.setSampleRate scenario.sampleRate])
    else
      let rest := profile channelCount scenarios (frames.drop (totalFrames scenario))
      (scenarioResult sine channelCount scenario (frames.take (totalFrames scenario)) :: rest.1,
        .setSampleRate scenario.sampleRate :: rest.2)

end ProfileRunner

end Frames

/-! ## Within a scenario -/

namespace ProfileRunner

section Within

variable {sine : ℕ → UInt32 → UInt32 → ℕ → Int16} {scenario : ScenarioConfig} {first f : ProfileFrame}
  {frames : List ProfileFrame} {r : ProfileRunner} {channelCount : UInt32} {vs : List EnvelopeVerifier}

@[simp] theorem length_scores (channelCount : UInt32) (vs : List EnvelopeVerifier) (frames : List ProfileFrame) :
    (scores channelCount vs frames).length = frames.length := by
  induction frames generalizing vs with
  | nil => rfl
  | cons f frames ih => rw [scores, List.length_cons, ih, List.length_cons]

theorem scores_concat (channelCount : UInt32) (vs : List EnvelopeVerifier) (frames : List ProfileFrame)
    (f : ProfileFrame) : scores channelCount vs (frames ++ [f]) = scores channelCount vs frames ++
      [(verifyFrame channelCount (verifiersAfter channelCount vs frames) f).2] := by
  induction frames generalizing vs with
  | nil => rfl
  | cons g frames ih =>
    rw [List.cons_append, scores, ih, scores, List.cons_append]
    rfl

theorem verifiersAfter_concat (channelCount : UInt32) (vs : List EnvelopeVerifier) (frames : List ProfileFrame)
    (f : ProfileFrame) : verifiersAfter channelCount vs (frames ++ [f]) =
      (verifyFrame channelCount (verifiersAfter channelCount vs frames) f).1 := by
  rw [verifiersAfter, List.foldl_append]
  rfl

/-- The frame that the verifiers come from stays. -/
theorem scenarioVerifiers_concat (h : 10 < frames.length) (f : ProfileFrame) :
    scenarioVerifiers sine channelCount scenario (frames ++ [f]) =
      scenarioVerifiers sine channelCount scenario frames := by
  rw [scenarioVerifiers, scenarioVerifiers, List.getElem?_append_left h]

/-- A frame of the warm-up is no sample. -/
theorem scenarioSamples_warmup (h : frames.length ≤ scenario.warmupFrames) :
    scenarioSamples sine channelCount scenario frames = [] := by
  rw [scenarioSamples, List.drop_eq_nil_of_le h, List.zipWith_nil_left]

/-- A frame after it is one more. -/
theorem scenarioSamples_concat (hten : 10 < frames.length) (hwarm : 10 ≤ scenario.warmupFrames)
    (h : scenario.warmupFrames ≤ frames.length) (f : ProfileFrame) :
    scenarioSamples sine channelCount scenario (frames ++ [f]) =
      scenarioSamples sine channelCount scenario frames ++
        [sampleOf scenario f (verifyFrame channelCount (verifiersAfter channelCount
          (scenarioVerifiers sine channelCount scenario frames) (frames.drop 10)) f).2] := by
  have hscores : scenario.warmupFrames - 10 ≤ (scores channelCount
      (scenarioVerifiers sine channelCount scenario frames) (frames.drop 10)).length := by
    rw [length_scores, List.length_drop]
    omega
  rw [scenarioSamples, scenarioVerifiers_concat hten, List.drop_append_of_le_length h,
    List.drop_append_of_le_length hten.le, scores_concat, List.drop_append_of_le_length hscores, List.zipWith_append]
  · rfl
  · simp only [List.length_drop, length_scores]
    omega

/-- The runner in the middle of a scenario that began with `first`, after these frames of it. -/
structure During (sine : ℕ → UInt32 → UInt32 → ℕ → Int16) (scenario : ScenarioConfig) (first : ProfileFrame)
    (frames : List ProfileFrame) (r : ProfileRunner) : Prop where
  frameInScenario : r.frameInScenario = frames.length
  started : r.scenarioStarted = true
  drops : r.dropsAtStart = first.totalDrops
  sgDrops : r.sgDropsAtStart = first.sgDrops
  initialized : r.envelopeVerifiersInitialized = decide (10 < frames.length)
  verifiers : 10 < frames.length → r.envelopeVerifiers =
    verifiersAfter r.channelCount (scenarioVerifiers sine r.channelCount scenario frames) (frames.drop 10)
  samples : r.currentSamples = scenarioSamples sine r.channelCount scenario frames

/-- The eleventh frame brings the verifiers. -/
theorem During.settle (h : During sine scenario first frames r) (f : ProfileFrame) : ∃ vs,
    r.settle sine scenario f =
      { r with envelopeVerifiers := vs, envelopeVerifiersInitialized := decide (10 ≤ frames.length) } ∧
    (10 ≤ frames.length → vs = verifiersAfter r.channelCount
      (scenarioVerifiers sine r.channelCount scenario (frames ++ [f])) (frames.drop 10)) := by
  have hinit := h.initialized
  have hframe := h.frameInScenario
  unfold ProfileRunner.settle
  obtain hlt | heq | hgt := lt_trichotomy frames.length 10
  · have hten : decide (10 < frames.length) = decide (10 ≤ frames.length) := by
      simp only [decide_eq_decide]
      omega
    rw [if_neg (by omega), ← hten, ← hinit]
    exact ⟨_, rfl, fun hge => by omega⟩
  · have hget : (frames ++ [f])[10]? = some f := by
      rw [← heq]
      exact List.getElem?_concat_length
    rw [if_pos ⟨by simp [hinit, heq], by omega⟩, decide_eq_true heq.ge]
    refine ⟨_, rfl, fun _ => ?_⟩
    rw [List.drop_eq_nil_of_le heq.le, scenarioVerifiers, hget]
    rfl
  · have hten : decide (10 < frames.length) = decide (10 ≤ frames.length) := by
      simp only [decide_eq_decide]
      omega
    rw [if_neg (by simp [hinit, hgt]), ← hten, ← hinit]
    refine ⟨_, rfl, fun _ => ?_⟩
    rw [h.verifiers hgt, scenarioVerifiers_concat hgt]

/-- **One frame of a scenario**, up to its end. -/
theorem During.takeFrame (h : During sine scenario first frames r) (hwarm : 10 < scenario.warmupFrames)
    (f : ProfileFrame) : ∃ vs initialized samples,
      (r.settle sine scenario f).takeFrame scenario f =
        { r with envelopeVerifiers := vs, envelopeVerifiersInitialized := initialized, currentSamples := samples } ∧
      During sine scenario first (frames ++ [f])
        { r with
          envelopeVerifiers := vs
          envelopeVerifiersInitialized := initialized
          currentSamples := samples
          frameInScenario := r.frameInScenario + 1 } := by
  obtain ⟨vs, hsettle, hvs⟩ := h.settle f
  have hframe := h.frameInScenario
  have hlength : (frames ++ [f]).length = frames.length + 1 := by simp
  rw [hsettle, ProfileRunner.takeFrame]
  dsimp only
  have hnext : decide (10 ≤ frames.length) = decide (10 < (frames ++ [f]).length) := by
    simp only [decide_eq_decide, hlength]
    omega
  -- the verifiers after the frame, if it is not one of the first ten
  have hafter (hten : 10 ≤ frames.length) : (verifyFrame r.channelCount vs f).1 =
      verifiersAfter r.channelCount (scenarioVerifiers sine r.channelCount scenario (frames ++ [f]))
        ((frames ++ [f]).drop 10) := by
    rw [List.drop_append_of_le_length hten, verifiersAfter_concat, ← hvs hten]
  by_cases hin : frames.length < scenario.warmupFrames
  · have hsamples : r.currentSamples = scenarioSamples sine r.channelCount scenario (frames ++ [f]) := by
      rw [h.samples, scenarioSamples_warmup hin.le, scenarioSamples_warmup (by omega)]
    rw [if_pos (by omega)]
    by_cases hten : 10 ≤ frames.length
    · rw [if_pos (by simpa using hten)]
      refine ⟨_, _, _, rfl, ?_⟩
      exact ⟨by simp [hframe], h.started, h.drops, h.sgDrops, hnext, fun _ => hafter hten, hsamples⟩
    · rw [if_neg (by simpa using hten)]
      refine ⟨_, _, _, rfl, ?_⟩
      exact ⟨by simp [hframe], h.started, h.drops, h.sgDrops, hnext, fun hgt => absurd hgt (by omega), hsamples⟩
  · have hten : 10 < frames.length := by omega
    rw [if_neg (by omega)]
    refine ⟨_, _, _, rfl, ?_⟩
    refine ⟨by simp [hframe], h.started, h.drops, h.sgDrops, hnext, fun _ => hafter hten.le, ?_⟩
    rw [h.samples, hvs hten.le, scenarioVerifiers_concat hten, scenarioSamples_concat hten hwarm.le (by omega)]

end Within

/-! ## Between scenarios -/

section Between

variable {sine : ℕ → UInt32 → UInt32 → ℕ → Int16} {scenario : ScenarioConfig} {first f : ProfileFrame}
  {frames : List ProfileFrame} {r : ProfileRunner} {channelCount : UInt32} {remaining : List ScenarioConfig}
  {results : List ScenarioResult} {cmds : List AppCommand}

/-- The profile as a whole: what is done, and which scenarios remain, the current one among them. -/
structure Profiles (channelCount : UInt32) (remaining : List ScenarioConfig) (results : List ScenarioResult)
    (cmds : List AppCommand) (r : ProfileRunner) : Prop where
  built : r.scenariosBuilt = true
  scenarios : ∃ done, r.scenarios = done ++ remaining ∧ r.currentScenario = done.length
  channelCount : r.channelCount = channelCount
  results : r.results = results
  pushed : r.pushed = cmds
  finished : r.finished = remaining.isEmpty

variable (sine) in
theorem onFrame_eq (h : Profiles channelCount (scenario :: remaining) results cmds r) (f : ProfileFrame) :
    onFrame sine r f =
      (((r.startScenario scenario f).settle sine scenario f).takeFrame scenario f).endFrame scenario f := by
  obtain ⟨done, hscenarios, hcurrent⟩ := h.scenarios
  have hfinished : r.finished = false := h.finished
  have hget : r.scenarios[r.currentScenario]? = some scenario := by
    rw [hscenarios, hcurrent]
    exact by simp
  simp only [onFrame, hfinished, withScenarios, h.built, if_true, hget, Option.bind_some]
  rfl

variable (sine) in
/-- The first frame of a scenario asks for its rate. -/
theorem Profiles.startScenario (h : Profiles channelCount (scenario :: remaining) results cmds r)
    (hstarted : r.scenarioStarted = false) (f : ProfileFrame) :
    During sine scenario f [] (r.startScenario scenario f) ∧
      Profiles channelCount (scenario :: remaining) results (cmds ++ [.setSampleRate scenario.sampleRate])
        (r.startScenario scenario f) := by
  have hempty : scenarioSamples sine r.channelCount scenario [] = [] := scenarioSamples_warmup (Nat.zero_le _)
  rw [ProfileRunner.startScenario, hstarted, if_neg Bool.false_ne_true]
  refine ⟨⟨rfl, rfl, rfl, rfl, rfl, fun hlt => absurd hlt (by simp), hempty.symm⟩, ?_⟩
  exact ⟨h.built, h.scenarios, h.channelCount, h.results, by rw [← h.pushed], h.finished⟩

theorem exists_computeStats (values : List ℚ) : ∃ stats, computeStats values = some stats := by
  by_cases hne : values = []
  · exact ⟨_, if_pos hne⟩
  · exact ⟨_, computeStats_eq hne⟩

theorem exists_deriveFpsStats (values : List ℚ) : ∃ stats, deriveFpsStats values = some stats := by
  by_cases hne : values = []
  · exact ⟨_, if_pos hne⟩
  · exact ⟨_, deriveFpsStats_eq hne⟩

/-- Statistics never fail: no sample is needed for them. -/
theorem exists_resultOf (scenario : ScenarioConfig) (samples : List FrameSample) (drops sgDrops : UInt64) :
    ∃ result fps, resultOf scenario samples drops sgDrops = some result ∧
      deriveFpsStats (samples.map FrameSample.frameTimeMs) = some fps ∧ result.fps = fps ∧
      result.config = scenario ∧ result.pass = decide (fps.avg ≥ scenario.minFpsThreshold) := by
  obtain ⟨fps, hfps⟩ := exists_deriveFpsStats (samples.map FrameSample.frameTimeMs)
  obtain ⟨_, h1⟩ := exists_computeStats (samples.map FrameSample.frameTimeMs)
  obtain ⟨_, h2⟩ := exists_computeStats (samples.map FrameSample.drainMs)
  obtain ⟨_, h3⟩ := exists_computeStats (samples.map FrameSample.decimateMs)
  obtain ⟨_, h4⟩ := exists_computeStats (samples.map FrameSample.uploadMs)
  obtain ⟨_, h5⟩ := exists_computeStats (samples.map FrameSample.swapMs)
  obtain ⟨_, h6⟩ := exists_computeStats (samples.map FrameSample.renderMs)
  obtain ⟨_, h7⟩ := exists_computeStats (samples.map fun s => (s.samples.toNat : ℚ))
  obtain ⟨_, h8⟩ := exists_computeStats (samples.map fun s => (s.vertexCount.toNat : ℚ))
  obtain ⟨_, h9⟩ := exists_computeStats (samples.map FrameSample.dataRate)
  obtain ⟨_, h10⟩ := exists_computeStats (samples.map FrameSample.windowCoverage)
  obtain ⟨_, h11⟩ := exists_computeStats ((samples.map FrameSample.envelopeMatchRate).filter (· ≥ 0))
  obtain ⟨result, hresult⟩ : ∃ result, result = resultOf scenario samples drops sgDrops := ⟨_, rfl⟩
  rw [← hresult]
  simp only [resultOf, hfps, h1, h2, h3, h4, h5, h6, h7, h8, h9, h10, h11, Option.bind_eq_bind, Option.bind_some]
    at hresult
  exact ⟨_, fps, hresult, hfps, rfl, rfl, rfl⟩

/-- **One frame in the middle of a scenario.** -/
theorem During.frame (h : During sine scenario first frames r)
    (hr : Profiles channelCount (scenario :: remaining) results cmds r) (hwarm : 10 < scenario.warmupFrames)
    (hlt : frames.length + 1 < totalFrames scenario) (f : ProfileFrame) :
    ∃ r', ((r.settle sine scenario f).takeFrame scenario f).endFrame scenario f = some r' ∧
      During sine scenario first (frames ++ [f]) r' ∧
      Profiles channelCount (scenario :: remaining) results cmds r' := by
  obtain ⟨vs, initialized, samples, htake, hduring⟩ := h.takeFrame hwarm f
  have hframe : ¬ r.frameInScenario + 1 ≥ scenario.warmupFrames + scenario.measureFrames := by
    rw [h.frameInScenario]
    exact not_le.mpr hlt
  refine ⟨_, ?_, hduring, ?_⟩
  · rw [htake]
    exact if_neg hframe
  · exact ⟨hr.built, hr.scenarios, hr.channelCount, hr.results, hr.pushed, hr.finished⟩

/-- **The last frame of a scenario** makes a result of its samples. -/
theorem During.lastFrame (h : During sine scenario first frames r)
    (hr : Profiles channelCount (scenario :: remaining) results cmds r) (hwarm : 10 < scenario.warmupFrames)
    (hlast : frames.length + 1 = totalFrames scenario) (hfirst : (frames ++ [f]).head? = some first) :
    ∃ r' result, ((r.settle sine scenario f).takeFrame scenario f).endFrame scenario f = some r' ∧
      scenarioResult sine channelCount scenario (frames ++ [f]) = some result ∧ r'.scenarioStarted = false ∧
      Profiles channelCount remaining (results ++ [result]) (cmds ++ if remaining = [] then [.quit] else []) r' := by
  obtain ⟨vs, initialized, samples, htake, hduring⟩ := h.takeFrame hwarm f
  obtain ⟨done, hscenarios, hcurrent⟩ := hr.scenarios
  have hframe : r.frameInScenario + 1 ≥ scenario.warmupFrames + scenario.measureFrames := by
    rw [h.frameInScenario]
    exact hlast.ge
  have hsamples : samples = scenarioSamples sine channelCount scenario (frames ++ [f]) := by
    rw [← hr.channelCount]
    exact hduring.samples
  obtain ⟨result, fps, hresult, -⟩ :=
    exists_resultOf scenario samples (f.totalDrops - r.dropsAtStart) (f.sgDrops - r.sgDropsAtStart)
  have hspec : scenarioResult sine channelCount scenario (frames ++ [f]) = some result := by
    simp only [scenarioResult, hfirst, List.getLast?_concat, Option.bind_eq_bind, Option.bind_some]
    rw [← hsamples, ← h.drops, ← h.sgDrops, hresult]
  have hlength : r.scenarios.length = r.currentScenario + 1 + remaining.length := by
    rw [hscenarios, hcurrent, List.length_append, List.length_cons]
    omega
  have hrest : ∃ done', r.scenarios = done' ++ remaining ∧ r.currentScenario + 1 = done'.length :=
    ⟨done ++ [scenario], by rw [hscenarios, List.append_assoc]; rfl, by simp [hcurrent]⟩
  rw [htake, endFrame]
  dsimp only
  rw [if_pos hframe, hresult, Option.map_some]
  cases remaining with
  | nil =>
    have hall : r.currentScenario + 1 ≥ r.scenarios.length := hlength.le
    rw [if_pos hall]
    exact ⟨_, result, rfl, hspec, rfl, hr.built, hrest, hr.channelCount, by rw [← hr.results], by rw [← hr.pushed]; rfl,
      rfl⟩
  | cons next remaining =>
    rw [if_neg (by rw [hlength, List.length_cons]; omega)]
    refine ⟨_, result, rfl, hspec, rfl, hr.built, hrest, hr.channelCount, by rw [← hr.results], ?_, hr.finished⟩
    rw [if_neg (List.cons_ne_nil _ _), List.append_nil]
    exact hr.pushed

theorem run_concat (r : ProfileRunner) (frames : List ProfileFrame) (f : ProfileFrame) :
    run sine r (frames ++ [f]) = (run sine r frames).bind fun r' => onFrame sine r' f := by
  have hone (r' : ProfileRunner) : [f].foldlM (onFrame sine) r' = onFrame sine r' f := by simp
  rw [run, List.foldlM_append]
  simp only [hone]
  rfl

variable (sine) in
/-- **The frames of a scenario that has not ended.** -/
theorem run_part (hr : Profiles channelCount (scenario :: remaining) results cmds r) (hstarted : r.scenarioStarted = false)
    (hwarm : 10 < scenario.warmupFrames) (hlt : (f :: frames).length < totalFrames scenario) :
    ∃ r', run sine r (f :: frames) = some r' ∧ During sine scenario f (f :: frames) r' ∧
      Profiles channelCount (scenario :: remaining) results (cmds ++ [.setSampleRate scenario.sampleRate]) r' := by
  obtain ⟨hduring, hprofile⟩ := hr.startScenario sine hstarted f
  induction frames using List.reverseRecOn with
  | nil =>
    obtain ⟨r', hframe, hduring', hr'⟩ := hduring.frame hprofile hwarm hlt f
    refine ⟨r', ?_, hduring', hr'⟩
    rw [run, List.foldlM_cons, onFrame_eq sine hr, hframe]
    rfl
  | append_singleton frames g ih =>
    have hlt' : (f :: frames).length + 1 < totalFrames scenario := by simpa using hlt
    obtain ⟨r', hrun, hduring', hr'⟩ := ih (by omega)
    have hstep := onFrame_eq sine hr' g
    rw [startScenario, if_pos hduring'.started] at hstep
    obtain ⟨r'', hframe, hduring'', hr''⟩ := hduring'.frame hr' hwarm hlt' g
    refine ⟨r'', ?_, hduring'', hr''⟩
    rw [← List.cons_append, run_concat, hrun, Option.bind_some, hstep, hframe]

variable (sine) in
/-- **The frames of a whole scenario.** -/
theorem run_scenario (hr : Profiles channelCount (scenario :: remaining) results cmds r)
    (hstarted : r.scenarioStarted = false) (hwarm : 10 < scenario.warmupFrames)
    (hlength : frames.length = totalFrames scenario) :
    ∃ r' result, run sine r frames = some r' ∧ scenarioResult sine channelCount scenario frames = some result ∧
      r'.scenarioStarted = false ∧
      Profiles channelCount remaining (results ++ [result])
        (cmds ++ .setSampleRate scenario.sampleRate :: if remaining = [] then [.quit] else []) r' := by
  have htotal : 10 < totalFrames scenario := Nat.lt_of_lt_of_le hwarm (Nat.le_add_right ..)
  obtain ⟨first, rest, rfl⟩ := List.exists_cons_of_length_pos (Nat.zero_lt_of_lt (hlength ▸ htotal))
  obtain ⟨mid, last, rfl⟩ : ∃ mid last, rest = mid ++ [last] := by
    have hrest : rest ≠ [] := by
      rintro rfl
      simp only [List.length_singleton] at hlength
      omega
    exact ⟨_, _, (List.dropLast_append_getLast hrest).symm⟩
  have hlength' : (first :: mid).length + 1 = totalFrames scenario := by simpa using hlength
  obtain ⟨r', hrun, hduring, hr'⟩ := run_part sine hr hstarted hwarm (f := first) (by omega : (first :: mid).length < _)
  have hstep := onFrame_eq sine hr' last
  rw [startScenario, if_pos hduring.started] at hstep
  obtain ⟨r'', result, hframe, hresult, hnot, hr''⟩ := hduring.lastFrame hr' hwarm hlength' rfl
  refine ⟨r'', result, ?_, hresult, hnot, ?_⟩
  · rw [← List.cons_append, run_concat, hrun, Option.bind_some, hstep, hframe]
  · rw [List.append_assoc] at hr''
    exact hr''

variable (sine) in
theorem onFrame_finished (h : r.finished = true) (f : ProfileFrame) : onFrame sine r f = some r := if_pos h

variable (sine) in
theorem run_finished (h : r.finished = true) (frames : List ProfileFrame) : run sine r frames = some r := by
  induction frames with
  | nil => rfl
  | cons f frames ih =>
    rw [run, List.foldlM_cons, onFrame_finished sine h]
    exact ih

theorem run_append {r' : ProfileRunner} {frames frames' : List ProfileFrame} (h : run sine r frames = some r') :
    run sine r (frames ++ frames') = run sine r' frames' := by
  rw [run, List.foldlM_append]
  rw [run] at h
  rw [h]
  rfl

variable (sine) in
/-- **A run of a profile** follows the profile of its frames. -/
theorem run_remaining (hr : Profiles channelCount remaining results cmds r) (hstarted : r.scenarioStarted = false)
    (hwarm : ∀ scenario ∈ remaining, 10 < scenario.warmupFrames) (hne : remaining ≠ []) (frames : List ProfileFrame) :
    ∃ r', run sine r frames = some r' ∧
      r'.results.map some = results.map some ++ (profile sine channelCount remaining frames).1 ∧
      r'.pushed = cmds ++ (profile sine channelCount remaining frames).2 ∧
      r'.finished = decide ((remaining.map totalFrames).sum ≤ frames.length) := by
  induction remaining generalizing r results cmds frames with
  | nil => exact absurd rfl hne
  | cons scenario remaining ih =>
    have hwarm' := hwarm scenario List.mem_cons_self
    have hpos : 0 < totalFrames scenario := Nat.lt_of_lt_of_le (Nat.zero_lt_of_lt hwarm') (Nat.le_add_right ..)
    cases frames with
    | nil =>
      refine ⟨r, rfl, by simp [profile, hr.results], by simp [profile, hr.pushed], ?_⟩
      rw [hr.finished]
      simp
      omega
    | cons f frames =>
      rw [profile, if_neg (List.cons_ne_nil f frames)]
      by_cases hlt : (f :: frames).length < totalFrames scenario
      · -- the scenario does not end
        obtain ⟨r', hrun, -, hr'⟩ := run_part sine hr hstarted hwarm' hlt
        rw [if_pos hlt]
        refine ⟨r', hrun, by simp [hr'.results], hr'.pushed, ?_⟩
        rw [hr'.finished]
        simp only [List.isEmpty_cons, List.map_cons, List.sum_cons, eq_comm (a := false), decide_eq_false_iff_not]
        omega
      · have hlength : ((f :: frames).take (totalFrames scenario)).length = totalFrames scenario :=
          List.length_take_of_le (not_lt.mp hlt)
        obtain ⟨r', result, hrun, hresult, hnot, hr'⟩ := run_scenario sine hr hstarted hwarm' hlength
        have hsplit : run sine r (f :: frames) = run sine r' ((f :: frames).drop (totalFrames scenario)) := by
          rw [← run_append hrun, List.take_append_drop]
        rw [if_neg hlt, hsplit, hresult]
        by_cases hend : remaining = []
        · subst hend
          refine ⟨r', run_finished sine hr'.finished _, ?_, ?_, ?_⟩
          · simp [profile, hr'.results]
          · rw [hr'.pushed]
            rfl
          · rw [hr'.finished]
            simp only [List.map_cons, List.map_nil, List.sum_cons, List.sum_nil]
            exact (decide_eq_true (not_lt.mp hlt)).symm
        · obtain ⟨r'', hrun', hresults, hpushed, hfinished⟩ := ih hr' hnot
            (fun s hs => hwarm s (List.mem_cons_of_mem _ hs)) hend ((f :: frames).drop (totalFrames scenario))
          refine ⟨r'', hrun', ?_, ?_, ?_⟩
          · rw [hresults, List.map_append, List.append_assoc]
            rfl
          · rw [hpushed, if_neg hend, List.append_assoc]
            rfl
          · rw [hfinished, List.length_drop, List.map_cons, List.sum_cons]
            simp only [decide_eq_decide]
            omega

end Between

/-! ## The profile of the program -/

section Report

variable (sine : ℕ → UInt32 → UInt32 → ℕ → Int16) {scenario : ScenarioConfig} {frames : List ProfileFrame}
  {channelCount : UInt32}

variable (channelCount) in
/-- The results of scenarios of one length. -/
theorem profile_getElem? {total : ℕ} (htotal : 0 < total) {scenarios : List ScenarioConfig}
    (hall : ∀ scenario ∈ scenarios, totalFrames scenario = total) {j : ℕ} (hj : scenarios[j]? = some scenario)
    (frames : List ProfileFrame) : (profile sine channelCount scenarios frames).1[j]? =
      if total * (j + 1) ≤ frames.length then
        some (scenarioResult sine channelCount scenario ((frames.drop (total * j)).take total))
      else none := by
  induction scenarios generalizing j frames with
  | nil => cases hj
  | cons head scenarios ih =>
    have hhead := hall head List.mem_cons_self
    have hmul : total ≤ total * (j + 1) := Nat.le_mul_of_pos_right total (Nat.succ_pos j)
    rw [profile]
    by_cases hnil : frames = []
    · subst hnil
      rw [if_pos rfl, if_neg (by simp only [List.length_nil]; omega)]
      rfl
    · rw [if_neg hnil, hhead]
      by_cases hlt : frames.length < total
      · rw [if_pos hlt, if_neg (by omega)]
        rfl
      · rw [if_neg hlt]
        cases j with
        | zero =>
          obtain rfl : head = scenario := by simpa using hj
          rw [if_pos (by omega), Nat.mul_zero, List.drop_zero]
          rfl
        | succ j =>
          rw [List.getElem?_cons_succ] at hj
          have hrest := ih (fun s hs => hall s (List.mem_cons_of_mem _ hs)) hj (frames.drop total)
          rw [List.length_drop, List.drop_drop] at hrest
          have hoffset : total + total * j = total * (j + 1) := by ring
          have hcount : total * (j + 1) ≤ frames.length - total ↔ total * (j + 1 + 1) ≤ frames.length := by
            rw [Nat.mul_succ total (j + 1)]
            omega
          rw [List.getElem?_cons_succ, hrest, hoffset]
          simp only [hcount]

theorem length_profile {total : ℕ} (htotal : 0 < total) {scenarios : List ScenarioConfig}
    (hall : ∀ scenario ∈ scenarios, totalFrames scenario = total) (frames : List ProfileFrame) :
    (profile sine channelCount scenarios frames).1.length = min scenarios.length (frames.length / total) := by
  induction scenarios generalizing frames with
  | nil => simp [profile]
  | cons head scenarios ih =>
    have hhead := hall head List.mem_cons_self
    rw [profile, hhead]
    by_cases hnil : frames = []
    · subst hnil
      simp
    · rw [if_neg hnil]
      by_cases hlt : frames.length < total
      · rw [if_pos hlt, Nat.div_eq_of_lt hlt]
        rfl
      · have hrest := ih (fun s hs => hall s (List.mem_cons_of_mem _ hs)) (frames.drop total)
        have hsucc : frames.length / total = (frames.length - total) / total + 1 := by
          rw [Nat.div_eq_sub_div htotal (not_lt.mp hlt)]
        rw [if_neg hlt]
        dsimp only
        rw [List.length_cons, hrest, List.length_drop, hsucc, List.length_cons]
        omega

/-- The command that a scenario begins with. -/
def rateCommand (scenario : ScenarioConfig) : AppCommand := .setSampleRate scenario.sampleRate

/-- The commands of scenarios of one length. -/
theorem profile_commands {total : ℕ} (htotal : 0 < total) {scenarios : List ScenarioConfig}
    (hall : ∀ scenario ∈ scenarios, totalFrames scenario = total) (frames : List ProfileFrame) :
    (profile sine channelCount scenarios frames).2 =
      (scenarios.take ((frames.length + (total - 1)) / total)).map rateCommand ++
        if total * scenarios.length ≤ frames.length then [.quit] else [] := by
  induction scenarios generalizing frames with
  | nil => simp [profile]
  | cons head scenarios ih =>
    have hhead := hall head List.mem_cons_self
    have hmul : total ≤ total * (scenarios.length + 1) := Nat.le_mul_of_pos_right total (Nat.succ_pos _)
    rw [profile, hhead, List.length_cons]
    by_cases hnil : frames = []
    · subst hnil
      have hnone : (([] : List ProfileFrame).length + (total - 1)) / total = 0 :=
        Nat.div_eq_of_lt (by simp only [List.length_nil]; omega)
      rw [if_pos rfl, hnone, if_neg (by simp only [List.length_nil]; omega)]
      rfl
    · have hpos := List.length_pos_of_ne_nil hnil
      rw [if_neg hnil]
      by_cases hlt : frames.length < total
      · have hone : (frames.length + (total - 1)) / total = 1 :=
          Nat.div_eq_of_lt_le (by omega) (by omega)
        rw [if_pos hlt, hone, if_neg (by omega)]
        rfl
      · have hrest := ih (fun s hs => hall s (List.mem_cons_of_mem _ hs)) (frames.drop total)
        have hsucc : (frames.length + (total - 1)) / total = (frames.length - total + (total - 1)) / total + 1 := by
          rw [← Nat.add_div_right _ htotal]
          congr 1
          omega
        have hcount : total * scenarios.length ≤ frames.length - total ↔
            total * (scenarios.length + 1) ≤ frames.length := by
          rw [Nat.mul_succ]
          omega
        rw [if_neg hlt]
        dsimp only
        rw [hrest, hsucc, List.length_drop, List.take_succ_cons, List.map_cons, List.cons_append]
        simp only [hcount]
        rfl

theorem totalFrames_buildScenarios (hscenario : scenario ∈ buildScenarios channelCount) :
    totalFrames scenario = 420 ∧ scenario.warmupFrames = 120 ∧ scenario.minFpsThreshold = 30 := by
  simp only [buildScenarios, List.mem_cons, List.not_mem_nil, or_false] at hscenario
  obtain rfl | rfl | rfl | rfl := hscenario <;> exact ⟨rfl, rfl, rfl⟩

/-- The first frame builds the scenarios. -/
theorem run_new (channelCount : UInt32) (frames : List ProfileFrame) (hne : frames ≠ []) :
    run sine { channelCount := channelCount } frames =
      run sine { channelCount := channelCount, scenariosBuilt := true, scenarios := buildScenarios channelCount }
        frames := by
  obtain ⟨f, frames, rfl⟩ := List.exists_cons_of_ne_nil hne
  rfl

theorem profiles_new (channelCount : UInt32) : Profiles channelCount (buildScenarios channelCount) [] []
    { channelCount := channelCount, scenariosBuilt := true, scenarios := buildScenarios channelCount } :=
  ⟨rfl, ⟨[], rfl, rfl⟩, rfl, rfl, rfl, rfl⟩

/-- **A profile over any frames**: no read is outside, a scenario ends with each 420 frames, its result is that of its
own frames, measured after the warm-up with verifiers that were set up within it, and the commands are the rates of the
scenarios that have begun, and at the end one to quit. -/
theorem run_profile (channelCount : UInt32) (frames : List ProfileFrame) :
    ∃ r, run sine { channelCount := channelCount } frames = some r ∧
      (∀ j scenario, (buildScenarios channelCount)[j]? = some scenario → r.results[j]? =
        if 420 * (j + 1) ≤ frames.length then
          scenarioResult sine channelCount scenario ((frames.drop (420 * j)).take 420)
        else none) ∧
      r.results.length = min 4 (frames.length / 420) ∧
      r.pushed = ((buildScenarios channelCount).take ((frames.length + 419) / 420)).map rateCommand ++
        (if 1680 ≤ frames.length then [.quit] else []) ∧
      r.finished = decide (1680 ≤ frames.length) := by
  have hall : ∀ scenario ∈ buildScenarios channelCount, totalFrames scenario = 420 := fun _ hs =>
    (totalFrames_buildScenarios hs).1
  obtain ⟨r, hrun, hresults, hpushed, hfinished⟩ : ∃ r, run sine { channelCount := channelCount } frames = some r ∧
      r.results.map some = (profile sine channelCount (buildScenarios channelCount) frames).1 ∧
      r.pushed = (profile sine channelCount (buildScenarios channelCount) frames).2 ∧
      r.finished = decide (1680 ≤ frames.length) := by
    by_cases hnil : frames = []
    · subst hnil
      exact ⟨_, rfl, rfl, rfl, rfl⟩
    · have hwarm : ∀ scenario ∈ buildScenarios channelCount, 10 < scenario.warmupFrames := fun _ hs => by
        rw [(totalFrames_buildScenarios hs).2.1]
        omega
      have hsum : ((buildScenarios channelCount).map totalFrames).sum = 1680 := by
        simp [buildScenarios, totalFrames]
      rw [run_new sine channelCount frames hnil, ← hsum]
      exact run_remaining sine (profiles_new channelCount) rfl hwarm (List.cons_ne_nil _ _) frames
  refine ⟨r, hrun, ?_, ?_, ?_, hfinished⟩
  · intro j scenario hj
    have hget := profile_getElem? sine channelCount (by decide) hall hj frames
    rw [← hresults, List.getElem?_map] at hget
    cases hresult : r.results[j]? with
    | none =>
      rw [hresult] at hget
      split_ifs at hget with hle
      · cases hget
      · rw [if_neg hle]
    | some result =>
      rw [hresult] at hget
      split_ifs at hget with hle
      · rw [if_pos hle]
        exact Option.some.inj hget
      · cases hget
  · rw [← List.length_map some, hresults, length_profile sine (by decide) hall]
    rfl
  · rw [hpushed, profile_commands sine (by decide) hall]
    rfl

/-! ## The exit code -/

/-- The samples of a scenario are as many as its frames after the warm-up, and have their times. -/
theorem map_frameTimeMs_scenarioSamples (hwarm : 10 ≤ scenario.warmupFrames) :
    (scenarioSamples sine channelCount scenario frames).map FrameSample.frameTimeMs =
      (frames.drop scenario.warmupFrames).map fun f => f.bench.frameTimeMs := by
  rw [scenarioSamples, List.map_zipWith]
  apply List.ext_getElem
  · simp only [List.length_zipWith, List.length_drop, length_scores, List.length_map]
    omega
  · intro i hi hi'
    simp [sampleOf]

/-- `sum / sorted.size()`, by the values as they came. -/
theorem average_sort (values : List ℚ) : average (sort values) = values.sum / values.length := by
  have hperm : (sort values).Perm values := List.mergeSort_perm ..
  rw [average, ← List.sum_eq_foldl, hperm.sum_eq, hperm.length_eq]

/-- Frames per second are enough if the time of a frame is short enough. -/
theorem perSecond_ge_iff {ms threshold : ℚ} (h : 0 < threshold) :
    perSecond ms ≥ threshold ↔ 0 < ms ∧ threshold * ms ≤ 1000 := by
  unfold perSecond
  split_ifs with hms
  · rw [ge_iff_le, le_div_iff₀ hms]
    exact ⟨fun hle => ⟨hms, hle⟩, fun hle => hle.2⟩
  · exact ⟨fun hge => absurd hge (not_le.mpr h), fun hle => absurd hle.1 hms⟩

/-- How long the measured frames of scenario `j` took. -/
def measuredTime (frames : List ProfileFrame) (j : ℕ) : ℚ :=
  (((frames.drop (420 * j + 120)).take 300).map fun f => f.bench.frameTimeMs).sum

/-- A scenario passes if its 300 measured frames took ten seconds at most. -/
theorem pass_iff {j : ℕ} (hscenario : (buildScenarios channelCount)[j]? = some scenario)
    (hle : 420 * (j + 1) ≤ frames.length) : ∃ result,
      scenarioResult sine channelCount scenario ((frames.drop (420 * j)).take 420) = some result ∧
        (result.pass = true ↔ 0 < measuredTime frames j ∧ measuredTime frames j ≤ 10000) := by
  obtain ⟨-, hwarm, hthreshold⟩ := totalFrames_buildScenarios (List.mem_of_getElem? hscenario)
  have hlength : ((frames.drop (420 * j)).take 420).length = 420 := by
    rw [List.length_take_of_le]
    rw [List.length_drop]
    omega
  have hne : (frames.drop (420 * j)).take 420 ≠ [] := by
    intro hnil
    rw [hnil] at hlength
    cases hlength
  have htimes : ((frames.drop (420 * j)).take 420).drop scenario.warmupFrames =
      (frames.drop (420 * j + 120)).take 300 := by
    rw [hwarm, List.drop_take, List.drop_drop]
  have hmap : (scenarioSamples sine channelCount scenario ((frames.drop (420 * j)).take 420)).map
      FrameSample.frameTimeMs = ((frames.drop (420 * j + 120)).take 300).map fun f => f.bench.frameTimeMs := by
    rw [map_frameTimeMs_scenarioSamples sine (by omega), htimes]
  obtain ⟨result, fps, hresult, hfps, -, -, hpass⟩ := exists_resultOf scenario
    (scenarioSamples sine channelCount scenario ((frames.drop (420 * j)).take 420))
    ((((frames.drop (420 * j)).take 420).getLast hne).totalDrops -
      (((frames.drop (420 * j)).take 420).head hne).totalDrops)
    ((((frames.drop (420 * j)).take 420).getLast hne).sgDrops -
      (((frames.drop (420 * j)).take 420).head hne).sgDrops)
  refine ⟨result, ?_, ?_⟩
  · simp only [scenarioResult, List.head?_eq_some_head hne, List.getLast?_eq_some_getLast hne, Option.bind_eq_bind,
      Option.bind_some]
    exact hresult
  · have hcount : (((frames.drop (420 * j + 120)).take 300).map fun f => f.bench.frameTimeMs).length = 300 := by
      rw [List.length_map, List.length_take_of_le]
      rw [List.length_drop]
      omega
    have hvalues : (((frames.drop (420 * j + 120)).take 300).map fun f => f.bench.frameTimeMs) ≠ [] := by
      intro hnil
      rw [hnil] at hcount
      cases hcount
    rw [hmap, deriveFpsStats_eq hvalues, Option.some.injEq] at hfps
    have havg : fps.avg = perSecond (measuredTime frames j / 300) := by
      rw [← hfps, average_sort, hcount]
      rfl
    rw [hpass, decide_eq_true_eq, havg, hthreshold, perSecond_ge_iff (by norm_num)]
    constructor
    · rintro ⟨hpos, hten⟩
      exact ⟨by linarith, by linarith⟩
    · rintro ⟨hpos, hten⟩
      exact ⟨by linarith, by linarith⟩

/-- **When a profile reports success**: each scenario that has ended took ten seconds at most, and some time, for the
frames that it measured.  A scenario that has not ended is not counted. -/
theorem exitCode_iff (channelCount : UInt32) (frames : List ProfileFrame) :
    ∃ r, run sine { channelCount := channelCount } frames = some r ∧
      (r.generateReport = 0 ↔ ∀ j < 4, 420 * (j + 1) ≤ frames.length →
        0 < measuredTime frames j ∧ measuredTime frames j ≤ 10000) := by
  obtain ⟨r, hrun, hresults, hlength, -⟩ := run_profile sine channelCount frames
  refine ⟨r, hrun, ?_⟩
  have hreport : r.generateReport = 0 ↔ ∀ result ∈ r.results, result.pass = true := by
    simp [generateReport]
  have hget {j : ℕ} (hj : j < 4) : ∃ scenario, (buildScenarios channelCount)[j]? = some scenario :=
    ⟨_, List.getElem?_eq_getElem hj⟩
  rw [hreport]
  constructor
  · intro hall j hj hle
    obtain ⟨scenario, hscenario⟩ := hget hj
    obtain ⟨result, hresult, hpass⟩ := pass_iff sine hscenario hle
    have hmem := hresults j scenario hscenario
    rw [if_pos hle, hresult] at hmem
    exact hpass.mp (hall result (List.mem_of_getElem? hmem))
  · intro hall result hmem
    obtain ⟨j, hj, hat⟩ := List.getElem_of_mem hmem
    have hle : 420 * (j + 1) ≤ frames.length := by omega
    obtain ⟨scenario, hscenario⟩ := hget (show j < 4 by omega)
    obtain ⟨result', hresult, hpass⟩ := pass_iff sine hscenario hle
    have hat' := hresults j scenario hscenario
    rw [if_pos hle, hresult, List.getElem?_eq_getElem hj, hat, Option.some.injEq] at hat'
    rw [hat']
    exact hpass.mpr (hall j (by omega) hle)

end Report

end ProfileRunner

/-! ## A profile in the main loop -/

/-- The components and the runner. -/
structure ProfileLoop where
  app : AppComponents
  profiler : ProfileRunner

/-- One iteration of the main loop: the keys of its `glfwPollEvents`, and the frame, if one is drawn. -/
structure Iteration where
  keys : List Key
  frame : Option ProfileFrame

namespace ProfileLoop

section Loop

variable (sine : ℕ → UInt32 → UInt32 → ℕ → Int16)

/-- `glfwPollEvents`, and `process_commands` -/
def poll (keys : List Key) : List AppComponents.Event := keys.map .key ++ [.processCommands]

/-- An iteration; the loop ends when the window should close. -/
def iterate (s : ProfileLoop) (it : Iteration) : Option ProfileLoop :=
  if s.app.windowShouldClose then some s
  else
    let app := s.app.run (poll it.keys)
    match it.frame with
    | none => some { s with app := app }
    | some f =>
      (onFrame sine s.profiler f).map fun r =>
        { app := (app.syncRate f.dataRate).push (r.pushed.drop s.profiler.pushed.length), profiler := r }

def run (s : ProfileLoop) (its : List Iteration) : Option ProfileLoop := its.foldlM (iterate sine) s

/-- The command of the profiler, if an event is one. -/
def profiler? : AppComponents.Event → Option AppCommand
  | .profiler cmd => some cmd
  | _ => none

variable {sine} {app₀ : AppComponents} {channelCount : UInt32} {s : ProfileLoop}

theorem pushed_startScenario (r : ProfileRunner) (scenario : ScenarioConfig) (f : ProfileFrame) :
    r.pushed <+: (r.startScenario scenario f).pushed := by
  unfold startScenario
  split
  · exact List.prefix_rfl
  · exact List.prefix_append ..

theorem pushed_settle (r : ProfileRunner) (scenario : ScenarioConfig) (f : ProfileFrame) :
    (r.settle sine scenario f).pushed = r.pushed := by
  unfold settle
  split <;> rfl

theorem pushed_takeFrame (r : ProfileRunner) (scenario : ScenarioConfig) (f : ProfileFrame) :
    (r.takeFrame scenario f).pushed = r.pushed := by
  unfold takeFrame
  dsimp only
  split
  · split <;> rfl
  · rfl

theorem pushed_endFrame {r r' : ProfileRunner} {scenario : ScenarioConfig} {f : ProfileFrame}
    (h : r.endFrame scenario f = some r') : r.pushed <+: r'.pushed := by
  unfold endFrame at h
  dsimp only at h
  split at h
  · obtain ⟨result, -, rfl⟩ := Option.map_eq_some_iff.mp h
    split
    · exact List.prefix_append ..
    · exact List.prefix_rfl
  · cases h
    exact List.prefix_rfl

/-- The runner only adds to what it has pushed. -/
theorem pushed_onFrame {r r' : ProfileRunner} {f : ProfileFrame} (h : onFrame sine r f = some r') :
    r.pushed <+: r'.pushed := by
  unfold onFrame at h
  split at h
  · cases h
    exact List.prefix_rfl
  · obtain ⟨scenario, -, hframe⟩ := Option.bind_eq_some_iff.mp h
    have hbuilt : r.withScenarios.pushed = r.pushed := by
      unfold withScenarios
      split <;> rfl
    have hprefix := pushed_endFrame hframe
    rw [pushed_takeFrame, pushed_settle] at hprefix
    rw [← hbuilt]
    exact (pushed_startScenario ..).trans hprefix

/-- Where the loop is after some frames and keys: the events have the commands of the frames, and no other keys. -/
def Ran (sine : ℕ → UInt32 → UInt32 → ℕ → Int16) (app₀ : AppComponents) (channelCount : UInt32) (s : ProfileLoop)
    (frames : List ProfileFrame) (keys : List Key) : Prop :=
  ProfileRunner.run sine { channelCount := channelCount } frames = some s.profiler ∧
    ∃ events, s.app = app₀.run events ∧ events.filterMap profiler? = s.profiler.pushed ∧
      ∀ k, .key k ∈ events → k ∈ keys

theorem run_append (app : AppComponents) (events events' : List AppComponents.Event) :
    app.run (events ++ events') = (app.run events).run events' := List.foldl_append ..

theorem run_profiler (app : AppComponents) (cmds : List AppCommand) : app.run (cmds.map .profiler) = app.push cmds := by
  induction cmds generalizing app with
  | nil =>
    show app = { app with cmdQueue := app.cmdQueue ++ [] }
    rw [List.append_nil]
  | cons cmd cmds ih =>
    refine (ih (app.push [cmd])).trans ?_
    simp [AppComponents.push]

/-- What the keys push does not come from the profiler. -/
theorem filterMap_profiler_poll (keys : List Key) : (poll keys).filterMap profiler? = [] := by
  have hkeys : (keys.map AppComponents.Event.key).filterMap profiler? = [] := by
    rw [List.filterMap_map]
    exact List.filterMap_eq_nil_iff.mpr fun _ _ => rfl
  rw [poll, List.filterMap_append, hkeys]
  rfl

theorem filterMap_profiler_map (cmds : List AppCommand) :
    (cmds.map AppComponents.Event.profiler).filterMap profiler? = cmds := by
  rw [List.filterMap_map]
  exact List.filterMap_some

variable {frames : List ProfileFrame} {keys : List Key}

theorem mem_poll {k : Key} : .key k ∈ poll keys ↔ k ∈ keys := by simp [poll]

/-- **One iteration.** -/
theorem Ran.iterate (h : Ran sine app₀ channelCount s frames keys) (it : Iteration) :
    ∃ s' frames', ProfileLoop.iterate sine s it = some s' ∧
      Ran sine app₀ channelCount s' (frames ++ frames') (keys ++ it.keys) ∧
      frames' = if s.app.windowShouldClose then [] else it.frame.toList := by
  obtain ⟨hrun, events, happ, hevents, hkeys⟩ := h
  have hmem (k : Key) (hk : .key k ∈ events ++ poll it.keys) : k ∈ keys ++ it.keys := by
    rw [List.mem_append] at hk ⊢
    exact hk.imp (hkeys k) mem_poll.mp
  unfold ProfileLoop.iterate
  split
  · refine ⟨s, [], rfl, ⟨by rwa [List.append_nil], events, happ, hevents, ?_⟩, rfl⟩
    exact fun k hk => List.mem_append_left _ (hkeys k hk)
  · have hpoll := filterMap_profiler_poll it.keys
    have happ' : s.app.run (poll it.keys) = app₀.run (events ++ poll it.keys) := by rw [happ, run_append]
    cases hframe : it.frame with
    | none =>
      refine ⟨_, [], rfl, ⟨by rwa [List.append_nil], _, happ', ?_, hmem⟩, rfl⟩
      rw [List.filterMap_append, hpoll, List.append_nil, hevents]
    | some f =>
      obtain ⟨r, hr, -⟩ := run_profile sine channelCount (frames ++ [f])
      rw [run_concat, hrun, Option.bind_some] at hr
      obtain ⟨more, hmore⟩ := pushed_onFrame hr
      have hdrop : r.pushed.drop s.profiler.pushed.length = more := by rw [← hmore, List.drop_left]
      simp only [hr, Option.map_some, hdrop]
      refine ⟨_, [f], rfl, ⟨?_, events ++ poll it.keys ++ (.syncRate f.dataRate :: more.map .profiler), ?_, ?_, ?_⟩, rfl⟩
      · rw [run_concat, hrun, Option.bind_some, hr]
      · rw [happ', run_append app₀ _ (.syncRate f.dataRate :: _), ← run_profiler]
        rfl
      · rw [List.filterMap_append, List.filterMap_append, hpoll, List.append_nil, hevents, List.filterMap_cons_none rfl,
          filterMap_profiler_map, hmore]
      · intro k hk
        obtain hk | hk := List.mem_append.mp hk
        · exact hmem k hk
        · simp at hk

/-- The frames of a run are those of its first iterations, and all of them if the window is still open. -/
theorem Ran.run (h : Ran sine app₀ channelCount s frames keys) (its : List Iteration) :
    ∃ s' frames', ProfileLoop.run sine s its = some s' ∧
      Ran sine app₀ channelCount s' (frames ++ frames') (keys ++ its.flatMap Iteration.keys) ∧
      frames' <+: its.filterMap Iteration.frame ∧ (s.app.windowShouldClose = true → s' = s ∧ frames' = []) ∧
      (s'.app.windowShouldClose = false → frames' = its.filterMap Iteration.frame) := by
  induction its generalizing s frames keys with
  | nil =>
    exact ⟨s, [], rfl, by rwa [List.append_nil, List.flatMap_nil, List.append_nil], List.nil_prefix,
      fun _ => ⟨rfl, rfl⟩, fun _ => rfl⟩
  | cons it its ih =>
    obtain ⟨s', frames', hstep, h', hframes⟩ := h.iterate it
    obtain ⟨s'', frames'', hrun, h'', hprefix, hended, hall⟩ := ih h'
    rw [List.append_assoc, List.append_assoc] at h''
    have hrun' : ProfileLoop.run sine s (it :: its) = some s'' := by
      rw [ProfileLoop.run, List.foldlM_cons, hstep]
      exact hrun
    by_cases hclose : s.app.windowShouldClose = true
    · -- the loop has ended
      rw [ProfileLoop.iterate, if_pos hclose] at hstep
      cases hstep
      rw [if_pos hclose] at hframes
      obtain ⟨rfl, hnone⟩ := hended hclose
      rw [hframes, hnone] at h''
      exact ⟨s'', [], hrun', h'', List.nil_prefix, fun _ => ⟨rfl, rfl⟩, fun hopen => by simp [hclose] at hopen⟩
    · have hcons : (it :: its).filterMap Iteration.frame = frames' ++ its.filterMap Iteration.frame := by
        rw [hframes, if_neg hclose, List.filterMap_cons]
        cases it.frame <;> rfl
      refine ⟨s'', frames' ++ frames'', hrun', h'', ?_, fun h => absurd h hclose, ?_⟩
      · rw [hcons]
        exact (List.prefix_append_right_inj frames').mpr hprefix
      · intro hopen
        rw [hcons, hall hopen]

theorem ipc_rateCommand (scenarios : List ScenarioConfig) :
    (scenarios.map rateCommand).filterMap AppComponents.ipc? =
      scenarios.map fun scenario => (IpcCommand.SET_SAMPLE_RATE, scenario.sampleRate) := by
  rw [List.filterMap_map]
  exact List.filterMap_eq_map_iff_forall_eq_some.mpr fun _ _ => rfl

/-- What the transport is for comes from the profiler alone. -/
theorem ipc_pushed (events : List AppComponents.Event) :
    (AppComponents.pushed true events).filterMap AppComponents.ipc? =
      (events.filterMap profiler?).filterMap AppComponents.ipc? := by
  induction events with
  | nil => rfl
  | cons e events ih =>
    rw [AppComponents.pushed, List.flatMap_cons, List.filterMap_append]
    rw [AppComponents.pushed] at ih
    rw [ih]
    cases e with
    | key k =>
      have hkey : (keyCallback true k).filterMap AppComponents.ipc? = [] :=
        List.filterMap_eq_nil_iff.mpr fun _ hcmd => AppComponents.ipc_key hcmd
      rw [AppComponents.Event.pushes, hkey]
      rfl
    | profiler cmd =>
      rw [List.filterMap_cons_some (show profiler? (.profiler cmd) = some cmd from rfl)]
      cases hcmd : AppComponents.ipc? cmd <;> simp [AppComponents.Event.pushes, hcmd]
    | processCommands => rfl
    | syncRate dataRate => rfl

variable (sine) in
/-- **A profile over IPC sends the rates of the scenarios that have begun, each once and in their order, whatever keys are
pressed**; one that is not sent yet is in the queue, and the loop ends only by escape or with the last scenario. -/
theorem run_loop (hwired : app₀.Wired) (hqueue : app₀.cmdQueue = []) (hipc : app₀.transportSource = some [])
    (hopen : app₀.windowShouldClose = false) (channelCount : UInt32) (its : List Iteration) :
    ∃ s frames sent, ProfileLoop.run sine ⟨app₀, { channelCount := channelCount }⟩ its = some s ∧
      ProfileRunner.run sine { channelCount := channelCount } frames = some s.profiler ∧
      frames <+: its.filterMap Iteration.frame ∧
      (s.app.windowShouldClose = false → frames = its.filterMap Iteration.frame) ∧
      s.app.transportSource = some sent ∧
      sent ++ s.app.cmdQueue.filterMap AppComponents.ipc? =
        ((buildScenarios channelCount).take ((frames.length + 419) / 420)).map (fun scenario =>
          (IpcCommand.SET_SAMPLE_RATE, scenario.sampleRate)) ∧
      (s.app.windowShouldClose = true → (∃ it ∈ its, .escape ∈ it.keys) ∨ 1680 ≤ frames.length) := by
  have hstart : Ran sine app₀ channelCount ⟨app₀, { channelCount := channelCount }⟩ [] [] :=
    ⟨rfl, [], rfl, rfl, fun _ hk => by cases hk⟩
  obtain ⟨s, frames, hrun, ⟨hprofile, events, happ, hevents, hkeys⟩, hprefix, -, hall⟩ := hstart.run its
  rw [List.nil_append] at hprofile hkeys
  have hmode : app₀.isIpcMode = true := by rw [AppComponents.isIpcMode, hipc]; rfl
  obtain ⟨cmds, hpushed, happlied, -⟩ := AppComponents.run_applied hwired hqueue events
  rw [hmode, ← happ] at hpushed
  rw [← happ] at happlied
  obtain ⟨r, hr, -, -, hcommands, -⟩ := run_profile sine channelCount frames
  obtain rfl : r = s.profiler := Option.some.inj (hr.symm.trans hprofile)
  have hquit : (if 1680 ≤ frames.length then [AppCommand.quit] else []).filterMap AppComponents.ipc? = [] := by
    split <;> rfl
  refine ⟨s, frames, cmds.filterMap AppComponents.ipc?, hrun, hprofile, hprefix, hall, ?_, ?_, ?_⟩
  · rw [happlied.sent, hipc]
    rfl
  · rw [← List.filterMap_append, ← hpushed, ipc_pushed, hevents, hcommands, List.filterMap_append, ipc_rateCommand,
      hquit, List.append_nil]
  · intro hclose
    rw [happlied.close, hopen, Bool.false_or, List.contains_iff_mem] at hclose
    have hmem : AppCommand.quit ∈ AppComponents.pushed true events := by
      rw [hpushed]
      exact List.mem_append_left _ hclose
    obtain ⟨e, he, hquit⟩ := List.mem_flatMap.mp hmem
    cases e with
    | key k =>
      left
      obtain ⟨it, hit, hk⟩ := List.mem_flatMap.mp (hkeys k he)
      obtain rfl : k = .escape := by
        cases k <;> simp_all [AppComponents.Event.pushes, keyCallback]
      exact ⟨it, hit, hk⟩
    | profiler cmd =>
      right
      obtain rfl := List.mem_singleton.mp hquit
      have hprofiler : AppCommand.quit ∈ s.profiler.pushed := by
        rw [← hevents]
        exact List.mem_filterMap.mpr ⟨_, he, rfl⟩
      rw [hcommands, List.mem_append] at hprofiler
      obtain hrate | hend := hprofiler
      · obtain ⟨scenario, -, hrate⟩ := List.mem_map.mp hrate
        cases hrate
      · by_contra hlt
        rw [if_neg hlt] at hend
        cases hend
    | processCommands => cases hquit
    | syncRate dataRate => cases hquit

/-- A frame, and keys for another rate and for a pause. -/
def twoIterations : List Iteration :=
  [⟨[.digit (Fin.last 3), .space], some ⟨{}, 0, 0, 0, 0, 0, none, 0, .minMax, none, none, 0⟩⟩, ⟨[.g], none⟩]

theorem run_loop_ipc : AppComponents.ipcStart.Wired ∧
    ∃ s sent, ProfileLoop.run (fun _ _ _ _ => 0) ⟨AppComponents.ipcStart, { channelCount := 1 }⟩ twoIterations = some s ∧
      s.app.transportSource = some sent ∧
      sent ++ s.app.cmdQueue.filterMap AppComponents.ipc? = [(IpcCommand.SET_SAMPLE_RATE, 1000000)] := by
  have hwired : AppComponents.ipcStart.Wired := ⟨rfl, nofun⟩
  refine ⟨hwired, ?_⟩
  obtain ⟨s, frames, sent, hrun, -, hprefix, hopen, hsent, hrates, hclose⟩ :=
    run_loop (fun _ _ _ _ => 0) hwired rfl rfl rfl 1 twoIterations
  have hlength : frames.length ≤ 1 := hprefix.length_le
  have hstill : s.app.windowShouldClose = false := by
    by_contra hne
    obtain ⟨it, hit, hescape⟩ | hend := hclose (Bool.eq_true_of_not_eq_false hne)
    · simp only [twoIterations, List.mem_cons, List.not_mem_nil, or_false] at hit
      obtain rfl | rfl := hit <;> simp at hescape
    · omega
  rw [hopen hstill] at hrates
  exact ⟨s, sent, hrun, hsent, hrates⟩

end Loop

end ProfileLoop

end Grebe
