import Grebe.ProfileRun

/-!
# Grebe.ProfilePointers — the periods that the verifiers point to

In the embedded mode a verifier keeps a pointer into a buffer of the source, and reads the period through it when it
builds a window set; a rebuild of the source changes the buffer, or frees it.  `ProfileRunner` has the period itself.

* `PointingRunner`: the runner with the pointers; a frame that finds them into periods built anew has no result.
* `pointing_run`: with a source that is not rebuilt from the eleventh frame of a scenario to its end, the pointers hold
  in all frames, and the profile is that of `run_profile`.
-/

namespace Grebe

open ProfileRunner

/-- The runner, and how often the source had built its periods when the verifiers got their pointers. -/
structure PointingRunner where
  runner : ProfileRunner
  setAt : ℕ := 0

/-! ## Frames -/

section Frames

variable (sine : ℕ → UInt32 → UInt32 → ℕ → Int16)

/-- The verifiers have their pointers from an earlier frame of the scenario. -/
def ProfileRunner.Pointing (r : ProfileRunner) : Prop :=
  r.finished = false ∧ r.scenarioStarted = true ∧ r.envelopeVerifiersInitialized = true

instance (r : ProfileRunner) : Decidable r.Pointing := inferInstanceAs (Decidable (_ ∧ _ ∧ _))

namespace PointingRunner

variable (p : PointingRunner)

/-- `on_frame`; `none` also: the verifiers point into periods that the source has built anew since. -/
def onFrame (f : ProfileFrame) : Option PointingRunner :=
  if p.runner.Pointing ∧ f.syntheticSource.isSome ∧ f.rebuilds ≠ p.setAt then none
  else (p.runner.onFrame sine f).map fun r => ⟨r, if p.runner.Pointing then p.setAt else f.rebuilds⟩

def run (frames : List ProfileFrame) : Option PointingRunner := frames.foldlM (onFrame sine) p

end PointingRunner

/-- The source builds no periods from the eleventh frame of a scenario to its end. -/
def Kept (frames : List ProfileFrame) : Prop :=
  ∀ j i f g, frames[420 * j + 10]? = some g → 10 ≤ i → i < 420 → frames[420 * j + i]? = some f →
    f.syntheticSource.isSome = true → f.rebuilds = g.rebuilds

end Frames

/-! ## The frame of a scenario -/

namespace ProfileRunner

section Clock

variable {sine : ℕ → UInt32 → UInt32 → ℕ → Int16} {r r' : ProfileRunner} {m : ℕ} {f : ProfileFrame}

/-- The runner after `m` frames: the frame it is at, and whether its verifiers are set up. -/
structure Clock (m : ℕ) (r : ProfileRunner) : Prop where
  scenarios : ∀ scenario ∈ r.withScenarios.scenarios, totalFrames scenario = 420
  started : r.scenarioStarted = true →
    r.frameInScenario = m % 420 ∧ 0 < m % 420 ∧ r.envelopeVerifiersInitialized = decide (10 < m % 420)
  idle : r.scenarioStarted = false → m % 420 = 0

theorem clock_new (channelCount : UInt32) : Clock 0 { channelCount := channelCount } where
  scenarios scenario hscenario := (totalFrames_buildScenarios hscenario).1
  started h := by cases h
  idle _ := rfl

/-- What a scenario begins with, or goes on with. -/
theorem Clock.startScenario (h : Clock m r) (scenario : ScenarioConfig) (f : ProfileFrame) :
    let s := r.withScenarios.startScenario scenario f
    s.frameInScenario = m % 420 ∧ s.scenarioStarted = true ∧ s.envelopeVerifiersInitialized = decide (10 < m % 420) ∧
      s.scenarios = r.withScenarios.scenarios ∧ s.scenariosBuilt = true := by
  have hbuilt : r.withScenarios.scenariosBuilt = true ∧ r.withScenarios.scenarioStarted = r.scenarioStarted ∧
      r.withScenarios.frameInScenario = r.frameInScenario ∧
      r.withScenarios.envelopeVerifiersInitialized = r.envelopeVerifiersInitialized := by
    unfold withScenarios
    split_ifs with hbuilt
    · exact ⟨hbuilt, rfl, rfl, rfl⟩
    · exact ⟨rfl, rfl, rfl, rfl⟩
  obtain ⟨hbuilt, hstarted, hframe, hinit⟩ := hbuilt
  unfold ProfileRunner.startScenario
  rw [hstarted]
  cases hnow : r.scenarioStarted with
  | true =>
    obtain ⟨hcount, -, hset⟩ := h.started hnow
    exact ⟨hframe.trans hcount, hstarted.trans hnow, hinit.trans hset, rfl, hbuilt⟩
  | false =>
    have hzero := h.idle hnow
    rw [if_neg Bool.false_ne_true, hzero]
    exact ⟨rfl, rfl, rfl, rfl, hbuilt⟩

/-- The eleventh frame sets the verifiers up, and no frame before its end changes the rest. -/
theorem settled_fields (sine : ℕ → UInt32 → UInt32 → ℕ → Int16) (scenario : ScenarioConfig) (f : ProfileFrame) {k : ℕ}
    (hframe : r.frameInScenario = k) (hinit : r.envelopeVerifiersInitialized = decide (10 < k)) :
    let s := (r.settle sine scenario f).takeFrame scenario f
    s.frameInScenario = k ∧ s.scenarioStarted = r.scenarioStarted ∧ s.envelopeVerifiersInitialized = decide (10 ≤ k) ∧
      s.scenarios = r.scenarios ∧ s.scenariosBuilt = r.scenariosBuilt := by
  have hsettle : (r.settle sine scenario f).frameInScenario = k ∧
      (r.settle sine scenario f).scenarioStarted = r.scenarioStarted ∧
      (r.settle sine scenario f).envelopeVerifiersInitialized = decide (10 ≤ k) ∧
      (r.settle sine scenario f).scenarios = r.scenarios ∧
      (r.settle sine scenario f).scenariosBuilt = r.scenariosBuilt := by
    unfold settle
    split_ifs with hnow
    · refine ⟨hframe, rfl, ?_, rfl, rfl⟩
      exact (decide_eq_true (by omega)).symm
    · refine ⟨hframe, rfl, ?_, rfl, rfl⟩
      rw [hinit, decide_eq_decide]
      by_contra hne
      have hten : k = 10 := by omega
      exact hnow ⟨by simp [hinit, hten], by omega⟩
  have htake (s : ProfileRunner) : (s.takeFrame scenario f).frameInScenario = s.frameInScenario ∧
      (s.takeFrame scenario f).scenarioStarted = s.scenarioStarted ∧
      (s.takeFrame scenario f).envelopeVerifiersInitialized = s.envelopeVerifiersInitialized ∧
      (s.takeFrame scenario f).scenarios = s.scenarios ∧ (s.takeFrame scenario f).scenariosBuilt = s.scenariosBuilt := by
    unfold takeFrame
    dsimp only
    split_ifs <;> exact ⟨rfl, rfl, rfl, rfl, rfl⟩
  obtain ⟨h1, h2, h3, h4, h5⟩ := htake (r.settle sine scenario f)
  obtain ⟨g1, g2, g3, g4, g5⟩ := hsettle
  exact ⟨h1.trans g1, h2.trans g2, h3.trans g3, h4.trans g4, h5.trans g5⟩

theorem withScenarios_of_built (h : r.scenariosBuilt = true) : r.withScenarios = r := if_pos h

/-- **One frame**, of a profile that goes on. -/
theorem Clock.onFrame (h : Clock m r) (hopen : r.finished = false) (hst : onFrame sine r f = some r') :
    r'.finished = true ∨ Clock (m + 1) r' := by
  rw [ProfileRunner.onFrame, if_neg (by simp [hopen])] at hst
  obtain ⟨scenario, hscenario, hst⟩ := Option.bind_eq_some_iff.mp hst
  obtain ⟨hframe, hstarted, hinit, hscenarios, hbuilt⟩ := h.startScenario scenario f
  obtain ⟨hframe', hstarted', hinit', hscenarios', hbuilt'⟩ := settled_fields sine scenario f hframe hinit
  have htotal := h.scenarios scenario (List.mem_of_getElem? hscenario)
  rw [totalFrames] at htotal
  generalize ((r.withScenarios.startScenario scenario f).settle sine scenario f).takeFrame scenario f = s at *
  rw [hstarted] at hstarted'
  rw [hscenarios] at hscenarios'
  rw [hbuilt] at hbuilt'
  have hall : ∀ c ∈ s.scenarios, totalFrames c = 420 := by
    rw [hscenarios']
    exact h.scenarios
  unfold endFrame at hst
  dsimp only at hst
  rw [htotal, hframe'] at hst
  split_ifs at hst with hlast hend
  · obtain ⟨result, -, rfl⟩ := Option.map_eq_some_iff.mp hst
    exact .inl rfl
  · obtain ⟨result, -, rfl⟩ := Option.map_eq_some_iff.mp hst
    refine .inr ⟨?_, fun hon => (by cases hon), fun _ => by omega⟩
    rw [withScenarios_of_built (by exact hbuilt')]
    exact hall
  · cases hst
    refine .inr ⟨?_, fun _ => ⟨by dsimp only; omega, by omega, ?_⟩, fun hoff => ?_⟩
    · rw [withScenarios_of_built (by exact hbuilt')]
      exact hall
    · dsimp only
      rw [hinit', decide_eq_decide]
      omega
    · rw [hstarted'] at hoff
      cases hoff

end Clock

end ProfileRunner

/-! ## The pointers of a profile -/

namespace PointingRunner

section Pointers

variable {sine : ℕ → UInt32 → UInt32 → ℕ → Int16} {p : PointingRunner} {frames : List ProfileFrame} {f : ProfileFrame}

theorem run_concat (p : PointingRunner) (frames : List ProfileFrame) (f : ProfileFrame) :
    run sine p (frames ++ [f]) = (run sine p frames).bind fun q => onFrame sine q f := by
  have hone (q : PointingRunner) : [f].foldlM (onFrame sine) q = onFrame sine q f := by simp
  rw [run, List.foldlM_append]
  simp only [hone]
  rfl

/-- After these frames the pointers are those of the eleventh frame of the scenario. -/
structure Aimed (frames : List ProfileFrame) (p : PointingRunner) : Prop where
  clock : p.runner.finished = true ∨ Clock frames.length p.runner
  setAt : p.runner.Pointing → ∃ g, frames[420 * (frames.length / 420) + 10]? = some g ∧ p.setAt = g.rebuilds

/-- They are there from the twelfth frame on. -/
theorem Aimed.pointing_iff (h : Aimed frames p) (hopen : p.runner.finished = false) :
    p.runner.Pointing ↔ 10 < frames.length % 420 := by
  have hclock : Clock frames.length p.runner := h.clock.resolve_left (by simp [hopen])
  constructor
  · intro hpointing
    have hinit := (hclock.started hpointing.2.1).2.2
    rw [hpointing.2.2] at hinit
    exact of_decide_eq_true hinit.symm
  · intro hten
    have hstarted : p.runner.scenarioStarted = true := by
      by_contra hoff
      have hzero := hclock.idle (Bool.eq_false_of_not_eq_true hoff)
      omega
    refine ⟨hopen, hstarted, ?_⟩
    rw [(hclock.started hstarted).2.2]
    exact decide_eq_true hten

/-- **One frame** of a source that was not rebuilt. -/
theorem Aimed.onFrame (h : Aimed frames p) (hkept : Kept (frames ++ [f])) {r : ProfileRunner}
    (hrun : p.runner.onFrame sine f = some r) :
    ∃ q, PointingRunner.onFrame sine p f = some q ∧ q.runner = r ∧ Aimed (frames ++ [f]) q := by
  have hlength : (frames ++ [f]).length = frames.length + 1 := by simp
  have hsplit : 420 * (frames.length / 420) + frames.length % 420 = frames.length := Nat.div_add_mod ..
  have hbehind {k : ℕ} (hk : k < frames.length) : (frames ++ [f])[k]? = frames[k]? := List.getElem?_append_left hk
  have hlast : (frames ++ [f])[frames.length]? = some f := List.getElem?_concat_length
  -- the pointers hold
  have hholds : ¬ (p.runner.Pointing ∧ f.syntheticSource.isSome ∧ f.rebuilds ≠ p.setAt) := by
    rintro ⟨hpointing, hsource, hne⟩
    obtain ⟨g, hg, hset⟩ := h.setAt hpointing
    have hten := (h.pointing_iff hpointing.1).mp hpointing
    refine hne (hset ▸ hkept (frames.length / 420) (frames.length % 420) f g ?_ hten.le (Nat.mod_lt _ (by decide)) ?_
      hsource)
    · rw [hbehind (by omega), hg]
    · rw [hsplit, hlast]
  have hfinished : p.runner.finished = true → r.finished = true := by
    intro hfin
    rw [onFrame_finished sine hfin, Option.some.injEq] at hrun
    rwa [← hrun]
  have hclock : r.finished = true ∨ Clock (frames ++ [f]).length r := by
    cases hopen : p.runner.finished with
    | true => exact .inl (hfinished hopen)
    | false =>
      rw [hlength]
      exact (h.clock.resolve_left (by simp [hopen])).onFrame hopen hrun
  refine ⟨⟨r, if p.runner.Pointing then p.setAt else f.rebuilds⟩, ?_, rfl, hclock, fun hpoints => ?_⟩
  · rw [PointingRunner.onFrame, if_neg hholds, hrun, Option.map_some]
  · have hpointing : r.Pointing := hpoints
    have hopen : p.runner.finished = false := by
      by_contra hfin
      have hr := hfinished (Bool.eq_true_of_not_eq_false hfin)
      rw [hpointing.1] at hr
      cases hr
    have hnext : 10 < (frames.length + 1) % 420 := by
      have hinit := ((hclock.resolve_left (by simp [hpointing.1])).started hpointing.2.1).2.2
      rw [hpointing.2.2, hlength] at hinit
      exact of_decide_eq_true hinit.symm
    have hiff := h.pointing_iff hopen
    rw [hlength]
    dsimp only
    by_cases hbefore : p.runner.Pointing
    · obtain ⟨g, hg, hset⟩ := h.setAt hbefore
      have hten := hiff.mp hbefore
      rw [if_pos hbefore, show (frames.length + 1) / 420 = frames.length / 420 by omega, hbehind (by omega)]
      exact ⟨g, hg, hset⟩
    · have hten : frames.length % 420 = 10 := by
        have hle := mt hiff.mpr hbefore
        omega
      rw [if_neg hbefore, show 420 * ((frames.length + 1) / 420) + 10 = frames.length by omega]
      exact ⟨f, hlast, rfl⟩

theorem kept_front {frames : List ProfileFrame} {f : ProfileFrame} (h : Kept (frames ++ [f])) : Kept frames := by
  intro j i f' g hg hten hi hf hsource
  have hmem {k : ℕ} {x : ProfileFrame} (hx : frames[k]? = some x) : (frames ++ [f])[k]? = some x := by
    rw [List.getElem?_append_left (List.getElem?_eq_some_iff.mp hx).1, hx]
  exact h j i f' g (hmem hg) hten hi (hmem hf) hsource

variable (sine) in
/-- **The pointers hold in every run** of a source that is not rebuilt where it must not be. -/
theorem run_aimed (channelCount : UInt32) (hkept : Kept frames) :
    ∃ p, run sine ⟨{ channelCount := channelCount }, 0⟩ frames = some p ∧
      ProfileRunner.run sine { channelCount := channelCount } frames = some p.runner ∧ Aimed frames p := by
  induction frames using List.reverseRecOn with
  | nil => exact ⟨_, rfl, rfl, .inr (clock_new channelCount), fun hpointing => by cases hpointing.2.1⟩
  | append_singleton frames f ih =>
    obtain ⟨p, hp, hrunner, hset⟩ := ih (kept_front hkept)
    obtain ⟨r, hr, -⟩ := run_profile sine channelCount (frames ++ [f])
    rw [ProfileRunner.run_concat, hrunner, Option.bind_some] at hr
    obtain ⟨q, hq, rfl, hset'⟩ := hset.onFrame hkept hr
    refine ⟨q, ?_, ?_, hset'⟩
    · rw [run_concat, hp, Option.bind_some, hq]
    · rw [ProfileRunner.run_concat, hrunner, Option.bind_some, hr]

variable (sine) in
/-- **A profile over any frames whose source is not rebuilt from the eleventh frame of a scenario to its end**: no read
is outside or through a pointer into a period that has changed, a scenario ends with each 420 frames, its result is that
of its own frames, measured after the warm-up with verifiers that were set up within it, and the commands are the rates
of the scenarios that have begun, and at the end one to quit. -/
theorem pointing_run (channelCount : UInt32) (hkept : Kept frames) :
    ∃ p, run sine ⟨{ channelCount := channelCount }, 0⟩ frames = some p ∧
      (∀ j scenario, (buildScenarios channelCount)[j]? = some scenario → p.runner.results[j]? =
        if 420 * (j + 1) ≤ frames.length then
          scenarioResult sine channelCount scenario ((frames.drop (420 * j)).take 420)
        else none) ∧
      p.runner.results.length = min 4 (frames.length / 420) ∧
      p.runner.pushed = ((buildScenarios channelCount).take ((frames.length + 419) / 420)).map rateCommand ++
        (if 1680 ≤ frames.length then [.quit] else []) ∧
      p.runner.finished = decide (1680 ≤ frames.length) := by
  obtain ⟨p, hp, hrunner, -⟩ := run_aimed sine channelCount hkept
  obtain ⟨r, hr, hprofile⟩ := run_profile sine channelCount frames
  obtain rfl : r = p.runner := Option.some.inj (hr.symm.trans hrunner)
  exact ⟨p, hp, hprofile⟩

/-- A frame of the embedded mode. -/
def embeddedFrame (rebuilds : ℕ) : ProfileFrame where
  bench := {}
  vertexCount := 0
  dataRate := 1000000
  totalDrops := 0
  sgDrops := 0
  rawSamples := 0
  syntheticSource := some (.new 1 1000000 .sine)
  rebuilds := rebuilds

/-- A source that the first command rebuilds, a few frames after it: a whole scenario, and one more frame. -/
theorem pointing_run_one : ∃ p, run (fun _ _ _ _ => 0) ⟨{ channelCount := 1 }, 0⟩
      (List.replicate 3 (embeddedFrame 1) ++ List.replicate 418 (embeddedFrame 2)) = some p ∧
    p.runner.results.length = 1 ∧ p.runner.finished = false := by
  have hkept : Kept (List.replicate 3 (embeddedFrame 1) ++ List.replicate 418 (embeddedFrame 2)) := by
    have hafter {k : ℕ} {x : ProfileFrame} (hk : 3 ≤ k)
        (hx : (List.replicate 3 (embeddedFrame 1) ++ List.replicate 418 (embeddedFrame 2))[k]? = some x) :
        x = embeddedFrame 2 := by
      rw [List.getElem?_append_right (by simpa using hk)] at hx
      exact List.eq_of_mem_replicate (List.mem_of_getElem? hx)
    intro j i f g hg hten _ hf _
    rw [hafter (by omega) hg, hafter (by omega) hf]
  obtain ⟨p, hp, -, hlength, -, hfinished⟩ := pointing_run (fun _ _ _ _ => 0) 1 hkept
  rw [List.length_append, List.length_replicate, List.length_replicate] at hlength hfinished
  exact ⟨p, hp, hlength, hfinished⟩

end Pointers

end PointingRunner

end Grebe
