import Mathlib.Tactic
import Grebe.DecimationThreadStop

/-!
# Grebe.DecimationThreadProgress — when the workers pick a cycle up

A worker sleeps until `work_generation_` is above its last generation.  Both are 32 bits wide, and the cycle after
generation 2³² - 1 has generation 0, above which no last generation lies: all workers sleep through it, and the
coordinator waits for them.

* `GenerationInv`: what holds of the generations before `stop`, as long as no cycle wraps the counter.
* `uncounted_enabled`: in the runs whose steps meet `NoWrap`, while the coordinator waits, some worker that has not
  counted itself can move.
* `wrap_asleep`: the cycle that wraps the counter finds every worker asleep, in every run.
* `asleep_reachable`: a run of 2³² cycles with one worker that gets there.
-/

namespace Grebe

namespace DecimationThread

variable {n : ℕ} {s s' : DecimationThread n}

/-! ## The generations -/

section Generations

/-- No cycle is opened that wraps `work_generation_`. -/
def NoWrap (s : DecimationThread n) : Label n → Prop
  | .coordinator _ => s.coordinator = .signal → s.workGeneration + 1 < 2 ^ 32
  | _ => True

instance : ∀ (s : DecimationThread n) (l : Label n), Decidable (NoWrap s l)
  | s, .coordinator _ => inferInstanceAs (Decidable (s.coordinator = .signal → s.workGeneration + 1 < 2 ^ 32))
  | _, .worker _ => inferInstanceAs (Decidable True)
  | _, .stop => inferInstanceAs (Decidable True)

theorem nextGeneration_of_lt {g : ℕ} (h : g + 1 < 2 ^ 32) : nextGeneration g = g + 1 :=
  Nat.mod_eq_of_lt h

/-- No worker is ahead of the generation, and one that has still to work in the open cycle is behind it. -/
def GenerationOk (passes : ℕ) (coordinator : CoordinatorPc) (generation : ℕ) : DecimationWorker → Prop
  | .waiting last => last ≤ generation ∧ (coordinator = .wait → passes = 0 → last < generation)
  | .working last => last ≤ generation
  | .left => False

/-- What holds before `stop` as long as the counter does not wrap. -/
structure GenerationInv (s : DecimationThread n) : Prop where
  home : s.workersExit = false
  worker : ∀ w, GenerationOk (s.passes w) s.coordinator s.workGeneration (s.workers w)

theorem generationInv_started : GenerationInv (started : DecimationThread n) where
  home := rfl
  worker _ := ⟨le_rfl, fun h => by cases h⟩

/-- Outside the wait, the place of the coordinator says nothing of the workers. -/
theorem GenerationInv.roam (h : GenerationInv s) {pc : CoordinatorPc} (hpc : pc ≠ .wait) :
    GenerationInv { s with coordinator := pc } where
  home := h.home
  worker w := by
    have hw := h.worker w
    dsimp only
    cases hpcw : s.workers w with
    | waiting last =>
      rw [hpcw] at hw
      exact ⟨hw.1, fun hwait => absurd hwait hpc⟩
    | working last =>
      rw [hpcw] at hw
      exact hw
    | left =>
      rw [hpcw] at hw
      exact hw

/-- The coordinator opens a cycle without wrapping the counter: every worker falls behind by one. -/
theorem GenerationInv.openCycle (h : GenerationInv s) (hwrap : s.workGeneration + 1 < 2 ^ 32) :
    GenerationInv { s with
      workGeneration := nextGeneration s.workGeneration
      doneCount := 0
      passes := fun _ => 0
      coordinator := .wait } where
  home := h.home
  worker w := by
    have hw := h.worker w
    dsimp only
    rw [nextGeneration_of_lt hwrap]
    cases hpcw : s.workers w with
    | waiting last =>
      rw [hpcw] at hw
      have hle : last ≤ s.workGeneration := hw.1
      exact ⟨by omega, fun _ _ => by omega⟩
    | working last =>
      rw [hpcw] at hw
      have hle : last ≤ s.workGeneration := hw
      exact Nat.le_succ_of_le hle
    | left =>
      rw [hpcw] at hw
      exact hw

/-- **One step keeps the invariant of the generations**, before `stop`. -/
theorem generationInv_step {l : Label n} (h : GenerationInv s) (hwrap : NoWrap s l) (hstop : s'.stop = .idle)
    (hfin : s'.coordinator ≠ .finished) (hst : s.Step l s') : GenerationInv s' := by
  rcases hst with ⟨_, hpc'⟩ | hpc | _ | _ | ⟨w, hw, hexit⟩ | ⟨w, hw, _, hgen⟩ | ⟨w, hw⟩ | _ | _ | _ | _ | _
  case roam => exact h.roam hpc'.1
  case openCycle => exact h.openCycle (hwrap hpc)
  case collect => exact h.roam (by simp)
  case finish => exact absurd rfl hfin
  case leave => exact absurd (h.home.symm.trans hexit) (by simp)
  case pickUp =>
    refine ⟨h.home, ?_⟩
    intro v
    by_cases hv : v = w
    · subst hv
      rw [moveWorker_self]
      exact le_refl s.workGeneration
    · rw [moveWorker_other _ _ hv]
      exact h.worker v
  case count last =>
    refine ⟨h.home, ?_⟩
    intro v
    have hv := h.worker v
    by_cases hvw : v = w
    · subst hvw
      rw [hw] at hv
      show GenerationOk (Function.update s.passes v (s.passes v + 1) v) _ _ ((s.moveWorker v _).workers v)
      rw [moveWorker_self, Function.update_self]
      exact ⟨hv, fun _ h0 => absurd h0 (Nat.succ_ne_zero _)⟩
    · show GenerationOk (Function.update s.passes w _ v) _ _ ((s.moveWorker w _).workers v)
      rw [moveWorker_other _ _ hvw, Function.update_of_ne hvw]
      exact hv
  all_goals cases hstop

theorem idle_step {l : Label n} (hst : s.Step l s') (h : s'.stop = .idle) : s.stop = .idle := by
  rcases hst with _ | _ | _ | _ | _ | _ | _ | _ | _ | _ | _ | _
  case request | exit | joined | joinedWorker | reset => cases h
  all_goals exact h

/-- The invariant of the generations holds before `stop` in every run that does not wrap the counter. -/
theorem reach_generationInv (hs : (threads n).Reach NoWrap s) :
    s.stop = .idle → s.coordinator ≠ .finished → GenerationInv s := by
  refine hs.invariant (I := fun s => s.stop = .idle → s.coordinator ≠ .finished → GenerationInv s)
    (fun t h0 _ _ => ?_) (fun t l t' h hwrap hst hstop hfin => ?_)
  · rw [show t = started from h0]
    exact generationInv_started
  · have hst' := step_cases hst
    have hfin' : t.coordinator ≠ .finished := fun hf => hfin (finished_step hf hst')
    exact generationInv_step (h (idle_step hst' hstop) hfin') hwrap hstop hfin hst'

end Generations

/-! ## Progress -/

section Progress

/-- A worker that finds a newer generation, or is in its pass, can move. -/
theorem enabled_of_behind {w : Fin n}
    (h : (∃ last, s.workers w = .waiting last ∧ last < s.workGeneration) ∨ ∃ last, s.workers w = .working last) :
    ∃ s', s.step (.worker w) = some s' := by
  rcases h with ⟨last, hpc, hgen⟩ | ⟨last, hpc⟩
  · by_cases hexit : s.workersExit = true
    · exact ⟨s.moveWorker w .left, by simp [step, stepWorker, hpc, hexit]⟩
    · exact ⟨s.moveWorker w (.working s.workGeneration), by simp [step, stepWorker, hpc, hexit, hgen]⟩
  · exact ⟨_, by simp [step, stepWorker, hpc]; rfl⟩

/-- **While the coordinator waits for the workers, one that has not counted itself can move**, before `stop` and as
long as no cycle has wrapped the counter. -/
theorem uncounted_enabled (hs : (threads n).Reach NoWrap s) (hstop : s.stop = .idle)
    (hwait : s.coordinator = .wait) (hdone : s.doneCount < n) :
    ∃ w, s.passes w = 0 ∧ ∃ s', s.step (.worker w) = some s' := by
  have hfin : s.coordinator ≠ .finished := by simp [hwait]
  obtain ⟨w, hw⟩ := (reach_cycleInv hs.reachable hfin).exists_uncounted hdone
  refine ⟨w, hw, enabled_of_behind ?_⟩
  have hok := (reach_generationInv hs hstop hfin).worker w
  cases hpc : s.workers w with
  | waiting last =>
    rw [hpc] at hok
    exact .inl ⟨last, rfl, hok.2 hwait hw⟩
  | working last => exact .inr ⟨last, rfl⟩
  | left =>
    rw [hpc] at hok
    exact absurd hok id

/-- Two workers, the second of which has counted itself. -/
theorem uncounted_enabled_two :
    ∃ s : DecimationThread 2, s.coordinator = .wait ∧ s.doneCount = 1 ∧
      ∃ w, s.passes w = 0 ∧ ∃ s', s.step (.worker w) = some s' := by
  obtain ⟨s, hs, hco, hdone, hstop⟩ : ∃ s, Lib.Lts.execIn NoWrap (threads 2) started
      [.coordinator true, .coordinator true, .coordinator true, .worker 1, .worker 1] = some s ∧
      s.coordinator = .wait ∧ s.doneCount = 1 ∧ s.stop = .idle := ⟨_, rfl, rfl, rfl, rfl⟩
  exact ⟨s, hco, hdone, uncounted_enabled (.execIn (.init rfl) hs) hstop hco (by omega)⟩

end Progress

/-! ## The wrap -/

section Wrap

theorem generation_lt (hs : (threads n).Reachable s) : s.workGeneration < 2 ^ 32 := by
  refine hs.invariant (I := fun s => s.workGeneration < 2 ^ 32) ?_ ?_
  · intro t h0
    rw [show t = started from h0]
    exact Nat.two_pow_pos 32
  · intro t l t' h _ hst
    rcases step_cases hst with _ | _ | _ | _ | _ | _ | _ | _ | _ | _ | _ | _
    case openCycle => exact Nat.mod_lt _ (Nat.two_pow_pos 32)
    case reset => exact Nat.two_pow_pos 32
    all_goals exact h

/-- At generation 0 a waiting worker is asleep until it is told to exit. -/
theorem asleep_of_zero {w : Fin n} {last : ℕ} (hpc : s.workers w = .waiting last) (hexit : s.workersExit = false)
    (hgen : s.workGeneration = 0) : s.step (.worker w) = none := by
  simp [step, stepWorker, hpc, hexit, hgen]

/-- **The cycle that wraps the counter finds every worker asleep**, and none has counted itself. -/
theorem wrap_asleep (hs : (threads n).Reach NoWrap s) (hstop : s.stop = .idle) {avail : Bool}
    (hwrap : ¬ NoWrap s (.coordinator avail)) :
    ∃ s', s.step (.coordinator avail) = some s' ∧ s'.coordinator = .wait ∧ s'.doneCount = 0 ∧
      ∀ w, s'.passes w = 0 ∧ s'.step (.worker w) = none := by
  have hpc : s.coordinator = .signal := by
    by_contra hne
    exact hwrap fun h => absurd h hne
  have hge : ¬ s.workGeneration + 1 < 2 ^ 32 := fun hlt => hwrap fun _ => hlt
  have hlt := generation_lt hs.reachable
  have hgen : nextGeneration s.workGeneration = 0 := by
    rw [nextGeneration, show s.workGeneration + 1 = 2 ^ 32 by omega, Nat.mod_self]
  have hfin : s.coordinator ≠ .finished := by simp [hpc]
  have hinv := reach_generationInv hs hstop hfin
  refine ⟨_, by simp only [step, stepCoordinator, hpc]; rfl, rfl, rfl, fun w => ⟨rfl, ?_⟩⟩
  have hcycle := (reach_cycleInv hs.reachable hfin).worker w
  have hok := hinv.worker w
  cases hpcw : s.workers w with
  | waiting last => exact asleep_of_zero hpcw hinv.home hgen
  | working last =>
    rw [hpcw] at hcycle
    exact absurd hcycle.1 (by simp [hpc])
  | left =>
    rw [hpcw] at hok
    exact absurd hok id

/-- One worker, after `g` whole cycles. -/
def afterCycles (g : ℕ) : DecimationThread 1 :=
  { (started : DecimationThread 1) with
    workGeneration := g
    doneCount := min g 1
    workers := fun _ => .waiting g
    passes := fun _ => min g 1 }

/-- The labels of one cycle with one worker. -/
def oneCycle (w : Fin 1) : List (Label 1) :=
  [.coordinator true, .coordinator true, .coordinator true, .worker w, .worker w, .coordinator true, .coordinator true]

theorem afterCycles_cycle {g : ℕ} (hg : g + 1 < 2 ^ 32) :
    (threads 1).exec (afterCycles g) (oneCycle 0) = some (afterCycles (g + 1)) := by
  have hgen := nextGeneration_of_lt hg
  have hworkers (f : Fin 1 → DecimationWorker) (pc : DecimationWorker) : Function.update f 0 pc = fun _ => pc := by
    funext w
    rw [Subsingleton.elim w 0, Function.update_self]
  have hpasses (f : Fin 1 → ℕ) (p : ℕ) : Function.update f 0 p = fun _ => p := by
    funext w
    rw [Subsingleton.elim w 0, Function.update_self]
  simp [oneCycle, threads, step, stepCoordinator, stepWorker, moveWorker, afterCycles, started, hgen, hworkers, hpasses]

theorem afterCycles_reachable {g : ℕ} (hg : g < 2 ^ 32) : (threads 1).Reachable (afterCycles g) := by
  induction g with
  | zero => exact .init rfl
  | succ g ih => exact (ih (by omega)).exec (afterCycles_cycle hg)

/-- The coordinator waits in cycle 2³², and the only worker is asleep. -/
def asleep : DecimationThread 1 :=
  { (started : DecimationThread 1) with coordinator := .wait, workers := fun _ => .waiting (2 ^ 32 - 1) }

/-- **The worker cycle gets stuck in cycle 2³².** -/
theorem asleep_reachable :
    (threads 1).Reachable asleep ∧ asleep.stop = .idle ∧ asleep.coordinator = .wait ∧ asleep.doneCount < 1 ∧
      ¬ ∃ w, asleep.passes w = 0 ∧ ∃ s', asleep.step (.worker w) = some s' := by
  refine ⟨?_, rfl, rfl, Nat.one_pos, ?_⟩
  · have hrun : (threads 1).exec (afterCycles (2 ^ 32 - 1))
        [.coordinator true, .coordinator true, .coordinator true] = some asleep := by
      simp [threads, step, stepCoordinator, afterCycles, started, asleep, nextGeneration]
    exact (afterCycles_reachable (by omega)).exec hrun
  · rintro ⟨w, -, s', hst⟩
    rw [asleep_of_zero (s := asleep) rfl rfl rfl] at hst
    cases hst

end Wrap

end DecimationThread

end Grebe
