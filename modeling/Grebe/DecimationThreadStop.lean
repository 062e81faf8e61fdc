import Mathlib.Tactic
import Grebe.DecimationThread

/-!
# Grebe.DecimationThreadStop — when `stop` can get stuck

A worker tests `workers_exit_` before it picks a cycle up, and `stop` sets that flag without regard to the cycle that
the coordinator may just have opened.  The workers then leave uncounted, the coordinator waits for them for ever, and
`stop` in its join.

* `CycleInv`: what holds of a cycle in every run, before the coordinator has finished.
* `stop_never_deadlocks`: no deadlock in the runs whose steps meet `SafeStop`: no cycle is opened after `workers_exit_`
  is set, and it is set during a cycle only when each worker has picked the cycle up.
* `late_exit_deadlocks`: any other step leads to a deadlock, from every reachable state.
* `stop_deadlocks`: a run with one worker that deadlocks.
-/

namespace Grebe

namespace DecimationThread

variable {n : ℕ}

/-- In the middle of a pass. -/
def picked : DecimationWorker → Bool
  | .working _ => true
  | _ => false

/-! ## The cycle -/

section Cycle

/-- `stop` joins workers only after the coordinator, which then has finished. -/
def Joined (s : DecimationThread n) : Prop :=
  s.stop = .idle ∨ s.stop = .signal ∨ s.stop = .joinCoordinator ∨ s.coordinator = .finished

/-- What holds of a worker that has counted itself `passes` times in the cycle: it works only in the open cycle and
before it counts itself, and otherwise has no reason to pick up a cycle. -/
def WorkerOk (passes : ℕ) (coordinator : CoordinatorPc) (generation : ℕ) (exit : Bool) : DecimationWorker → Prop
  | .waiting last => passes ≠ 0 ∨ coordinator ≠ .wait → generation ≤ last
  | .working last => coordinator = .wait ∧ passes = 0 ∧ generation ≤ last
  | .left => exit = true

/-- What holds of the cycle before the coordinator has finished. -/
structure CycleInv (s : DecimationThread n) : Prop where
  total : s.doneCount = ∑ w, s.passes w
  once : ∀ w, s.passes w ≤ 1
  worker : ∀ w, WorkerOk (s.passes w) s.coordinator s.workGeneration s.workersExit (s.workers w)

variable {s s' : DecimationThread n}

theorem joined_step {l : Label n} (h : Joined s) (hst : s.Step l s') : Joined s' := by
  rcases hst with ⟨hpc, _⟩ | hpc | ⟨hpc, _⟩ | hpc | _ | _ | _ | _ | _ | ⟨_, hfin⟩ | hpc | hpc
  case finish => exact .inr (.inr (.inr rfl))
  case leave | pickUp | count => exact h
  case request => exact .inr (.inl rfl)
  case exit => exact .inr (.inr (.inl rfl))
  case joined => exact .inr (.inr (.inr hfin))
  case joinedWorker | reset =>
    refine .inr (.inr (.inr ?_))
    rcases h with h | h | h | h
    · simp [hpc] at h
    · simp [hpc] at h
    · simp [hpc] at h
    · exact h
  all_goals
    rcases h with h | h | h | h
    · exact .inl h
    · exact .inr (.inl h)
    · exact .inr (.inr (.inl h))
    · simp [h] at hpc

theorem reach_joined (hs : (threads n).Reachable s) : Joined s := by
  refine hs.invariant (I := Joined) (fun t h0 => ?_) fun _ _ _ h _ hst => joined_step h (step_cases hst)
  rw [show t = started from h0]
  exact .inl rfl

theorem cycleInv_started : CycleInv (started : DecimationThread n) where
  total := by simp [started]
  once _ := Nat.zero_le _
  worker _ _ := Nat.zero_le _

/-- If the count is complete, every worker has counted itself. -/
theorem CycleInv.all_counted (h : CycleInv s) (hdone : n ≤ s.doneCount) (w : Fin n) : s.passes w = 1 := by
  by_contra hw
  have hlt : ∑ v, s.passes v < ∑ _v : Fin n, 1 :=
    Finset.sum_lt_sum (fun v _ => h.once v) ⟨w, Finset.mem_univ w, by have := h.once w; omega⟩
  rw [← h.total, Finset.sum_const, Finset.card_univ, Fintype.card_fin, smul_eq_mul, mul_one] at hlt
  omega

/-- While the count is short, some worker has not counted itself. -/
theorem CycleInv.exists_uncounted (h : CycleInv s) (hdone : s.doneCount < n) : ∃ w, s.passes w = 0 := by
  by_contra hnone
  have hle : ∑ _v : Fin n, 1 ≤ ∑ v, s.passes v :=
    Finset.sum_le_sum fun v _ => Nat.one_le_iff_ne_zero.mpr fun h0 => hnone ⟨v, h0⟩
  rw [← h.total, Finset.sum_const, Finset.card_univ, Fintype.card_fin, smul_eq_mul, mul_one] at hle
  omega

/-- Outside a cycle no worker is in a pass, so the coordinator may open one or go on. -/
theorem CycleInv.outside (h : CycleInv s) (hco : s.coordinator ≠ .wait) {p g : ℕ} {pc : CoordinatorPc}
    (hg : g = s.workGeneration ∨ (p = 0 ∧ pc = .wait)) (w : Fin n) :
    WorkerOk p pc g s.workersExit (s.workers w) := by
  have hw := h.worker w
  cases hpc : s.workers w with
  | waiting last =>
    rw [hpc] at hw
    rintro ho
    rcases hg with rfl | ⟨h0, hwait⟩
    · exact hw (.inr hco)
    · exact absurd ho (by simp [h0, hwait])
  | working last =>
    rw [hpc] at hw
    exact absurd hw.1 hco
  | left =>
    rw [hpc] at hw
    exact hw

/-- A worker moves, and the others do not see it. -/
theorem CycleInv.move (h : CycleInv s) {w : Fin n} {pc : DecimationWorker}
    (hw : WorkerOk (s.passes w) s.coordinator s.workGeneration s.workersExit pc) : CycleInv (s.moveWorker w pc) where
  total := h.total
  once := h.once
  worker v := by
    by_cases hv : v = w
    · subst hv
      rw [moveWorker_self]
      exact hw
    · rw [moveWorker_other _ _ hv]
      exact h.worker v

/-- A worker counts itself, which it has not done before in this cycle. -/
theorem CycleInv.count (h : CycleInv s) {w : Fin n} {last : ℕ} (hw : s.workers w = .working last)
    (hcount : s'.doneCount = s.doneCount + 1) (hpasses : s'.passes = Function.update s.passes w (s.passes w + 1))
    (hworkers : s'.workers = (s.moveWorker w (.waiting last)).workers) (hco : s'.coordinator = s.coordinator)
    (hgen : s'.workGeneration = s.workGeneration) (hexit : s'.workersExit = s.workersExit) : CycleInv s' := by
  have hok := h.worker w
  rw [hw] at hok
  obtain ⟨-, hpass, hlast⟩ := hok
  refine ⟨?_, ?_, ?_⟩
  · have hsum := Finset.sum_update_of_mem (Finset.mem_univ w) s.passes (s.passes w + 1)
    have hsplit := Finset.add_sum_erase Finset.univ s.passes (Finset.mem_univ w)
    rw [hcount, hpasses, hsum, h.total, ← hsplit, Finset.sdiff_singleton_eq_erase]
    omega
  · intro v
    rw [hpasses]
    by_cases hv : v = w
    · subst hv
      simp [hpass]
    · simpa [Function.update_of_ne hv] using h.once v
  · intro v
    rw [hpasses, hworkers, hco, hgen, hexit]
    by_cases hv : v = w
    · subst hv
      rw [moveWorker_self]
      exact fun _ => hlast
    · rw [moveWorker_other _ _ hv, Function.update_of_ne hv]
      exact h.worker v

/-- **One step keeps the invariant of the cycle**, until the coordinator has finished. -/
theorem cycleInv_step {l : Label n} (h : CycleInv s) (hj : Joined s) (hfin' : s'.coordinator ≠ .finished)
    (hst : s.Step l s') : CycleInv s' := by
  have hjoin (hne : s.coordinator ≠ .finished) : s.stop = .idle ∨ s.stop = .signal ∨ s.stop = .joinCoordinator := by
    rcases hj with hj | hj | hj | hj
    · exact .inl hj
    · exact .inr (.inl hj)
    · exact .inr (.inr hj)
    · exact absurd hj hne
  rcases hst with ⟨hpc, hpc'⟩ | hpc | ⟨hpc, hdone⟩ | hpc | ⟨w, hw, hexit⟩ | ⟨w, hw, hexit, hgen⟩ | ⟨w, hw⟩ | _ | _ |
    ⟨_, hfin⟩ | hpc | hpc
  case roam =>
    have hnot : s.coordinator ≠ .wait := by rcases hpc with hpc | hpc | hpc <;> simp [hpc]
    exact ⟨h.total, h.once, fun w => h.outside hnot (.inl rfl) w⟩
  case openCycle =>
    have hnot : s.coordinator ≠ .wait := by simp [hpc]
    exact ⟨by simp, fun _ => Nat.zero_le _, fun w => h.outside hnot (.inr ⟨rfl, rfl⟩) w⟩
  case collect =>
    refine ⟨h.total, h.once, ?_⟩
    intro w
    have hw := h.worker w
    have hone := h.all_counted hdone w
    dsimp only
    cases hpcw : s.workers w with
    | waiting last =>
      rw [hpcw] at hw
      exact fun _ => hw (.inl (by simp [hone]))
    | working last =>
      rw [hpcw] at hw
      exact absurd hw.2.1 (by simp [hone])
    | left =>
      rw [hpcw] at hw
      exact hw
  case finish => exact absurd rfl hfin'
  case leave => exact h.move hexit
  case pickUp last =>
    -- only a worker that has not counted itself finds a newer generation, and only in a cycle
    have hok := h.worker w
    rw [hw] at hok
    have hcycle : s.coordinator = .wait ∧ s.passes w = 0 := by
      by_contra hne
      have hle : s.workGeneration ≤ last := hok (by tauto)
      omega
    exact h.move ⟨hcycle.1, hcycle.2, le_rfl⟩
  case count => exact h.count hw rfl rfl rfl rfl rfl rfl
  case request => exact ⟨h.total, h.once, h.worker⟩
  case exit =>
    refine ⟨h.total, h.once, ?_⟩
    intro w
    have hw := h.worker w
    dsimp only
    cases hpcw : s.workers w <;> rw [hpcw] at hw
    · exact hw
    · exact hw
    · rfl
  case joined => exact absurd hfin hfin'
  case joinedWorker => exact absurd (hjoin hfin') (by simp [hpc])
  case reset => exact absurd (hjoin hfin') (by simp [hpc])

theorem finished_step {l : Label n} (h : s.coordinator = .finished) (hst : s.Step l s') :
    s'.coordinator = .finished := by
  rcases hst with ⟨hpc, _⟩ | hpc | ⟨hpc, _⟩ | hpc | _ | _ | _ | _ | _ | _ | _ | _
  case roam => rcases hpc with hpc | hpc | hpc <;> simp [h] at hpc
  case openCycle | collect | finish => simp [h] at hpc
  all_goals exact h

/-- The invariant of the cycle holds in every run until the coordinator has finished. -/
theorem reach_cycleInv (hs : (threads n).Reachable s) (hfin : s.coordinator ≠ .finished) : CycleInv s := by
  refine hs.invariant_of (I := fun s => s.coordinator ≠ .finished → CycleInv s) (J := Joined)
    (fun t ht => reach_joined ht) (fun t h0 _ => ?_) (fun t l t' hj h _ hst hfin' => ?_) hfin
  · rw [show t = started from h0]
    exact cycleInv_started
  · have hst' := step_cases hst
    exact cycleInv_step (h fun hf => hfin' (finished_step hf hst')) hj hfin' hst'

end Cycle

/-! ## Deadlock -/

section Deadlock

/-- The coordinator waits, its count is short, and all who have not counted themselves have left. -/
def Deadlocked (s : DecimationThread n) : Prop :=
  s.coordinator = .wait ∧ s.doneCount < n ∧ ∀ w, s.passes w = 0 → s.workers w = .left

/-- No cycle is opened once `workers_exit_` is set, and while the coordinator waits `stop` sets it only when each worker
that has not counted itself has picked the cycle up. -/
def SafeStop (s : DecimationThread n) : Label n → Prop
  | .coordinator _ => s.coordinator = .signal → s.workersExit = false
  | .stop => s.stop = .signal → s.coordinator = .wait → ∀ w, s.passes w = 0 → picked (s.workers w) = true
  | .worker _ => True

/-- In a cycle, when the workers are sent home, each of them has counted itself or will. -/
def Covered (s : DecimationThread n) : Prop :=
  s.workersExit = true → s.coordinator = .wait → ∀ w, s.passes w = 0 → picked (s.workers w) = true

variable {s s' : DecimationThread n}

theorem covered_step {l : Label n} (h : Covered s) (hC : SafeStop s l) (hst : s.Step l s') : Covered s' := by
  rcases hst with ⟨_, hpc'⟩ | hpc | _ | _ | ⟨w, hw, hexit⟩ | ⟨w, hw, hexit, _⟩ | ⟨w, hw⟩ | _ | hpc | _ | _ | _
  case roam => exact fun _ hwait => absurd hwait hpc'.1
  case openCycle => exact fun hexit => absurd hexit (by simp [hC hpc])
  case collect => exact fun _ hwait => absurd hwait (by simp)
  case finish => exact fun _ hwait => absurd hwait (by simp)
  case leave =>
    -- a worker in the wait was counted, for it was not in a pass
    intro _ hwait v hv
    have hpick := h hexit hwait v hv
    by_cases hvw : v = w
    · subst hvw
      simp [hw, picked] at hpick
    · rwa [moveWorker_other _ _ hvw]
  case pickUp => exact fun hexit' => absurd (hexit.symm.trans hexit') (by simp)
  case count =>
    intro hexit hwait v hv
    have hvw : v ≠ w := by
      rintro rfl
      simp at hv
    have hpick := h hexit hwait v (by simpa [Function.update_of_ne hvw] using hv)
    show picked ((s.moveWorker w _).workers v) = true
    rwa [moveWorker_other _ _ hvw]
  case exit => exact fun _ hwait => hC hpc hwait
  case reset => exact fun hexit => absurd hexit (by simp)
  all_goals exact h

/-- **No deadlock in the runs whose steps meet `SafeStop`**, for any number of workers. -/
theorem stop_never_deadlocks (hs : (threads n).Reach SafeStop s) : ¬ Deadlocked s := by
  rintro ⟨hwait, hdone, hall⟩
  have hinv := reach_cycleInv hs.reachable (by simp [hwait])
  have hcovered : Covered s := by
    refine hs.invariant (I := Covered) (fun t h0 hexit => ?_) fun _ _ _ h hC hst => covered_step h hC (step_cases hst)
    rw [show t = started from h0] at hexit
    exact absurd hexit (by simp [started])
  -- some worker is missing from the count; it has left, so the workers were sent home before it picked the cycle up
  obtain ⟨w, hw⟩ := hinv.exists_uncounted hdone
  have hleft := hall w hw
  have hexit : s.workersExit = true := by
    have hok := hinv.worker w
    rwa [hleft] at hok
  have hpick := hcovered hexit hwait w hw
  simp [hleft, picked] at hpick

/-- The workers are sent home while the coordinator waits for one that will not work again. -/
structure Stuck (s : DecimationThread n) : Prop where
  cycle : CycleInv s
  joined : Joined s
  waits : s.coordinator = .wait
  exit : s.workersExit = true
  missing : ∃ w, s.passes w = 0 ∧ picked (s.workers w) = false

/-- Nothing gets the coordinator out of its wait. -/
theorem stuck_trap : (threads n).Trap (fun _ => True) Stuck := by
  intro s l s' h _ hst
  have hst' := step_cases hst
  obtain ⟨w, hw, hpick⟩ := h.missing
  have hfin : s.coordinator ≠ .finished := by simp [h.waits]
  suffices hkeep : s'.coordinator = .wait ∧ s'.workersExit = true ∧
      ∃ w, s'.passes w = 0 ∧ picked (s'.workers w) = false from
    ⟨cycleInv_step h.cycle h.joined (by simp [hkeep.1]) hst', joined_step h.joined hst', hkeep.1, hkeep.2.1, hkeep.2.2⟩
  rcases hst' with ⟨hpc, _⟩ | hpc | ⟨_, hdone⟩ | hpc | ⟨v, hv, _⟩ | ⟨_, _, hexit, _⟩ | ⟨v, hv⟩ | _ | _ | ⟨_, hf⟩ |
    hpc | hpc
  case roam => rcases hpc with hpc | hpc | hpc <;> simp [h.waits] at hpc
  case openCycle | finish => simp [h.waits] at hpc
  case collect => exact absurd (h.cycle.all_counted hdone w) (by simp [hw])
  case leave =>
    refine ⟨h.waits, h.exit, w, hw, ?_⟩
    by_cases hwv : w = v
    · subst hwv
      rw [moveWorker_self]
      rfl
    · rwa [moveWorker_other _ _ hwv]
  case pickUp => exact absurd (h.exit.symm.trans hexit) (by simp)
  case count =>
    have hwv : w ≠ v := by
      rintro rfl
      simp [hv, picked] at hpick
    refine ⟨h.waits, h.exit, w, ?_, ?_⟩
    · simpa [Function.update_of_ne hwv] using hw
    · show picked ((s.moveWorker v _).workers w) = false
      rwa [moveWorker_other _ _ hwv]
  case request => exact ⟨h.waits, h.exit, w, hw, hpick⟩
  case exit => exact ⟨h.waits, rfl, w, hw, hpick⟩
  case joined => exact absurd hf hfin
  case joinedWorker | reset => rcases h.joined with hj | hj | hj | hj <;> simp_all

/-- How many more steps a worker takes once the workers are sent home. -/
def stepsLeft : DecimationWorker → ℕ
  | .working _ => 2
  | .waiting _ => 1
  | .left => 0

theorem sum_stepsLeft_move {w : Fin n} {pc : DecimationWorker} (h : stepsLeft pc < stepsLeft (s.workers w)) :
    ∑ v, stepsLeft ((s.moveWorker w pc).workers v) < ∑ v, stepsLeft (s.workers v) := by
  refine Finset.sum_lt_sum ?_ ⟨w, Finset.mem_univ w, by rwa [moveWorker_self]⟩
  intro v _
  by_cases hv : v = w
  · subst hv
    rw [moveWorker_self]
    exact h.le
  · rw [moveWorker_other _ _ hv]

/-- A worker that has not left can move, and has then fewer steps left. -/
theorem stuck_moves (hs : Stuck s) (hleft : ¬ ∀ w, s.workers w = .left) :
    ∃ l s', True ∧ (threads n).step s l = some s' ∧ Stuck s' ∧
      ∑ w, stepsLeft (s'.workers w) < ∑ w, stepsLeft (s.workers w) := by
  obtain ⟨w, hw⟩ := not_forall.mp hleft
  cases hpc : s.workers w with
  | waiting last =>
    have hst : (threads n).step s (.worker w) = some (s.moveWorker w .left) := by
      simp [threads, step, stepWorker, hpc, hs.exit]
    exact ⟨.worker w, _, trivial, hst, stuck_trap s _ _ hs trivial hst, sum_stepsLeft_move (by simp [hpc, stepsLeft])⟩
  | working last =>
    have hst : (threads n).step s (.worker w) = some { s.moveWorker w (.waiting last) with
        doneCount := s.doneCount + 1, passes := Function.update s.passes w (s.passes w + 1) } := by
      simp [threads, step, stepWorker, hpc]
    exact ⟨.worker w, _, trivial, hst, stuck_trap s _ _ hs trivial hst, sum_stepsLeft_move (by simp [hpc, stepsLeft])⟩
  | left => exact absurd hpc hw

/-- The workers that can still move leave one by one, and the coordinator is deadlocked. -/
theorem stuck_deadlocks (h : Stuck s) : ∃ t, (threads n).CanReach (fun _ => True) s t ∧ Deadlocked t := by
  obtain ⟨t, ht, hleft, hpath⟩ := Lib.Lts.CanReach.of_measure (M := threads n) (L := fun _ => True) (I := Stuck)
    (G := fun s => ∀ w, s.workers w = .left) (fun s => ∑ w, stepsLeft (s.workers w))
    (fun _ hs hleft => stuck_moves hs hleft) s h
  refine ⟨t, hpath, ht.waits, ?_, fun w _ => hleft w⟩
  by_contra hdone
  obtain ⟨w, hw, -⟩ := ht.missing
  exact absurd (ht.cycle.all_counted (by omega) w) (by simp [hw])

/-- **`SafeStop` is exact.**  A step that breaks it, from any reachable state, leads to a deadlock and to nothing but
states in which the coordinator waits. -/
theorem late_exit_deadlocks {l : Label n} (hn : 0 < n) (hs : (threads n).Reachable s)
    (hst : (threads n).step s l = some s') (hC : ¬ SafeStop s l) :
    (∃ t, (threads n).CanReach (fun _ => True) s' t ∧ Deadlocked t) ∧
    ∀ t, (threads n).CanReach (fun _ => True) s' t → t.coordinator = .wait := by
  have hst' := step_cases hst
  have hjoined := joined_step (reach_joined hs) hst'
  suffices hstuck : Stuck s' from
    ⟨stuck_deadlocks hstuck, fun t ht => (Lib.Lts.Trap.canReach stuck_trap hstuck ht).waits⟩
  have hcycle (hfin : s'.coordinator ≠ .finished) : CycleInv s' :=
    reach_cycleInv (.step hs trivial hst) hfin
  rcases hst' with ⟨hpc, _⟩ | hpc | ⟨hpc, _⟩ | hpc | _ | _ | _ | hpc | hpc | ⟨hpc, _⟩ | hpc | hpc
  case openCycle =>
    simp only [SafeStop, Classical.not_imp, Bool.not_eq_false] at hC
    refine ⟨hcycle (by simp), hjoined, rfl, hC.2, ⟨0, hn⟩, rfl, ?_⟩
    have hok := (reach_cycleInv hs (by simp [hpc])).worker ⟨0, hn⟩
    dsimp only
    cases hw : s.workers ⟨0, hn⟩ with
    | working last =>
      rw [hw] at hok
      exact absurd hok.1 (by simp [hpc])
    | waiting last => rfl
    | left => rfl
  case exit =>
    simp only [SafeStop, Classical.not_imp, not_forall, Bool.not_eq_true] at hC
    obtain ⟨-, hwait, w, hw, hpick⟩ := hC
    exact ⟨hcycle (by simp [hwait]), hjoined, hwait, rfl, w, hw, hpick⟩
  case roam => rcases hpc with hpc | hpc | hpc <;> simp [SafeStop, hpc] at hC
  case leave | pickUp | count => exact absurd trivial hC
  all_goals simp [SafeStop, hpc] at hC

/-- One worker: the coordinator has found samples when `stop` sets both flags, and opens its cycle after the worker has
left. -/
def lateExit (w : Fin 1) : List (Label 1) :=
  [.coordinator true, .coordinator true, .stop, .stop, .worker w, .coordinator true]

/-- **A run that deadlocks.** -/
theorem stop_deadlocks : ∃ s, (threads 1).Reachable s ∧ Deadlocked s := by
  have he : ((threads 1).exec started (lateExit 0)).map
      (fun s => (s.coordinator, s.doneCount, s.workers 0)) = some (.wait, 0, .left) := by decide
  obtain ⟨s, hs, hp⟩ := Option.map_eq_some_iff.mp he
  simp only [Prod.mk.injEq] at hp
  obtain ⟨hwait, hdone, hleft⟩ := hp
  refine ⟨s, Lib.Lts.reachable_of_exec (lateExit 0) rfl hs, hwait, by omega, ?_⟩
  intro w _
  obtain rfl : w = 0 := Subsingleton.elim _ _
  exact hleft

instance (s : DecimationThread n) (l : Label n) : Decidable (SafeStop s l) :=
  match l with
  | .coordinator _ | .stop => inferInstanceAs (Decidable (_ → _))
  | .worker _ => .isTrue trivial

/-- One worker: `stop` sets both flags while the worker is in its pass. -/
def timelyExit : List (Label 1) :=
  [.coordinator true, .coordinator true, .coordinator true, .worker 0, .stop, .stop]

/-- **A run of `stop_never_deadlocks`** with the workers sent home during a cycle. -/
theorem stop_never_deadlocks_timely :
    ∃ s : DecimationThread 1, s.workersExit = true ∧ s.coordinator = .wait ∧ ¬ Deadlocked s := by
  have he : (Lib.Lts.execIn SafeStop (threads 1) started timelyExit).map
      (fun s => (s.workersExit, s.coordinator)) = some (true, .wait) := by decide
  obtain ⟨s, hs, hp⟩ := Option.map_eq_some_iff.mp he
  simp only [Prod.mk.injEq] at hp
  exact ⟨s, hp.1, hp.2, stop_never_deadlocks (.execIn (.init rfl) hs)⟩

end Deadlock

end DecimationThread

end Grebe
