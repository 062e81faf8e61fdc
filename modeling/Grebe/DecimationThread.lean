import Mathlib.Tactic
import Grebe.Lib.Lts

/-!
# Grebe.DecimationThread — the coordinator, the workers and `stop`

With two or more channels, `thread_func_multi` runs cycles: it signals the workers by a new `work_generation_`, waits on
`done_cv_` until `done_count_` reaches their number, and gathers their results.  A worker waits on `work_cv_` for a
generation above its last one or for `workers_exit_`, which it tests first.  `stop` sets `stop_requested_`, then
`workers_exit_`, and joins the coordinator and the workers.

One step is one section under `work_mutex_`, or one access to an atomic; a wait on a condition variable is a step that
is enabled when its predicate holds.  Whether the rings hold samples comes with the label.  What a cycle does to the
samples is left out here.  `passes` is history and no step reads it: how often each worker has counted itself since the
cycle was opened.
-/

namespace Grebe

/-- Where the coordinator is in `thread_func_multi`. -/
inductive CoordinatorPc
  /-- at the test of `stop_requested_` -/
  | head
  /-- before it looks at the rings -/
  | look
  /-- before the section that opens a cycle -/
  | signal
  /-- in the wait on `done_cv_` -/
  | wait
  /-- past the wait, before the end of the cycle -/
  | gather
  /-- before the section that sends the workers home -/
  | leave
  | finished
deriving DecidableEq

/-- Where a worker is in `worker_func`, with its `last_generation`. -/
inductive DecimationWorker
  /-- in the wait on `work_cv_` -/
  | waiting (lastGeneration : ℕ)
  /-- draining and decimating, before it counts itself -/
  | working (lastGeneration : ℕ)
  | left
deriving DecidableEq

/-- Where the thread that calls `stop` is. -/
inductive StopPc
  | idle
  /-- before the section that sets `workers_exit_` -/
  | signal
  /-- in the join of the coordinator -/
  | joinCoordinator
  /-- in the join of worker `k` -/
  | joinWorker (k : ℕ)
  | done
deriving DecidableEq

/-- The state of a `DecimationThread` with `n` workers. -/
structure DecimationThread (n : ℕ) where
  stopRequested : Bool
  workersExit : Bool
  workGeneration : ℕ
  doneCount : ℕ
  coordinator : CoordinatorPc
  workers : Fin n → DecimationWorker
  stop : StopPc
  passes : Fin n → ℕ

namespace DecimationThread

variable {n : ℕ}

/-! ## Steps -/

section Steps

/-- Who moves; for the coordinator, whether the rings hold samples. -/
inductive Label (n : ℕ)
  | coordinator (avail : Bool)
  | worker (w : Fin n)
  | stop
deriving DecidableEq

/-- The state after `start`. -/
def started : DecimationThread n where
  stopRequested := false
  workersExit := false
  workGeneration := 0
  doneCount := 0
  coordinator := .head
  workers _ := .waiting 0
  stop := .idle
  passes _ := 0

/-- `work_generation_` and `last_generation` are 32 bits wide. -/
def nextGeneration (g : ℕ) : ℕ := (g + 1) % 2 ^ 32

/-- `thread_func_multi`. -/
def stepCoordinator (s : DecimationThread n) (avail : Bool) : Option (DecimationThread n) :=
  match s.coordinator with
  | .head => some { s with coordinator := if s.stopRequested then .leave else .look }
  | .look => some { s with coordinator := if avail then .signal else .head }
  | .signal =>
    some { s with
      workGeneration := nextGeneration s.workGeneration
      doneCount := 0
      passes := fun _ => 0
      coordinator := .wait }
  | .wait => if s.doneCount ≥ n then some { s with coordinator := .gather } else none
  | .gather => some { s with coordinator := .head }
  | .leave => some { s with workersExit := true, coordinator := .finished }
  | .finished => none

/-- Worker `w` goes on at `pc`. -/
def moveWorker (s : DecimationThread n) (w : Fin n) (pc : DecimationWorker) : DecimationThread n :=
  { s with workers := Function.update s.workers w pc }

/-- `worker_func` of worker `w`. -/
def stepWorker (s : DecimationThread n) (w : Fin n) : Option (DecimationThread n) :=
  match s.workers w with
  | .waiting last =>
    if s.workersExit || s.workGeneration > last then
      if s.workersExit then some (s.moveWorker w .left)
      else some (s.moveWorker w (.working s.workGeneration))
    else none
  | .working last =>
    some { s.moveWorker w (.waiting last) with
      doneCount := s.doneCount + 1
      passes := Function.update s.passes w (s.passes w + 1) }
  | .left => none

/-- `stop`, called once. -/
def stepStop (s : DecimationThread n) : Option (DecimationThread n) :=
  match s.stop with
  | .idle => some { s with stopRequested := true, stop := .signal }
  | .signal => some { s with workersExit := true, stop := .joinCoordinator }
  | .joinCoordinator => if s.coordinator = .finished then some { s with stop := .joinWorker 0 } else none
  | .joinWorker k =>
    if h : k < n then
      if s.workers ⟨k, h⟩ = .left then some { s with stop := .joinWorker (k + 1) } else none
    else some { s with workersExit := false, workGeneration := 0, doneCount := 0, stop := .done }
  | .done => none

def step (s : DecimationThread n) : Label n → Option (DecimationThread n)
  | .coordinator avail => s.stepCoordinator avail
  | .worker w => s.stepWorker w
  | .stop => s.stepStop

/-- A started `DecimationThread` with `n` workers, and one call of `stop`. -/
def threads (n : ℕ) : Lib.Lts (DecimationThread n) (Label n) where
  init s := s = started
  step := step

end Steps

/-! ## What a step can do, said once -/

section Spec

variable (s : DecimationThread n)

@[simp] theorem moveWorker_self (w : Fin n) (pc : DecimationWorker) : (s.moveWorker w pc).workers w = pc :=
  Function.update_self ..

theorem moveWorker_other {v w : Fin n} (pc : DecimationWorker) (h : v ≠ w) :
    (s.moveWorker w pc).workers v = s.workers v :=
  Function.update_of_ne h ..

/-- What one step does. -/
inductive Step : Label n → DecimationThread n → Prop
  /-- The coordinator goes on outside a cycle. -/
  | roam {avail : Bool} {pc : CoordinatorPc}
      (hpc : s.coordinator = .head ∨ s.coordinator = .look ∨ s.coordinator = .gather)
      (hpc' : pc ≠ .wait ∧ pc ≠ .finished) : Step (.coordinator avail) { s with coordinator := pc }
  /-- The coordinator opens a cycle. -/
  | openCycle {avail : Bool} (hpc : s.coordinator = .signal) :
      Step (.coordinator avail)
        { s with
          workGeneration := nextGeneration s.workGeneration
          doneCount := 0
          passes := fun _ => 0
          coordinator := .wait }
  /-- The coordinator's wait is over. -/
  | collect {avail : Bool} (hpc : s.coordinator = .wait) (hdone : n ≤ s.doneCount) :
      Step (.coordinator avail) { s with coordinator := .gather }
  | finish {avail : Bool} (hpc : s.coordinator = .leave) :
      Step (.coordinator avail) { s with workersExit := true, coordinator := .finished }
  /-- A worker leaves its loop. -/
  | leave {last : ℕ} (w : Fin n) (hpc : s.workers w = .waiting last) (hexit : s.workersExit = true) :
      Step (.worker w) (s.moveWorker w .left)
  /-- A worker picks the cycle up. -/
  | pickUp {last : ℕ} (w : Fin n) (hpc : s.workers w = .waiting last) (hexit : s.workersExit = false)
      (hgen : last < s.workGeneration) :
      Step (.worker w) (s.moveWorker w (.working s.workGeneration))
  /-- A worker counts itself. -/
  | count {last : ℕ} (w : Fin n) (hpc : s.workers w = .working last) :
      Step (.worker w)
        { s.moveWorker w (.waiting last) with
          doneCount := s.doneCount + 1
          passes := Function.update s.passes w (s.passes w + 1) }
  | request (hpc : s.stop = .idle) : Step .stop { s with stopRequested := true, stop := .signal }
  | exit (hpc : s.stop = .signal) : Step .stop { s with workersExit := true, stop := .joinCoordinator }
  | joined (hpc : s.stop = .joinCoordinator) (hfin : s.coordinator = .finished) :
      Step .stop { s with stop := .joinWorker 0 }
  | joinedWorker {k : ℕ} (hpc : s.stop = .joinWorker k) : Step .stop { s with stop := .joinWorker (k + 1) }
  | reset {k : ℕ} (hpc : s.stop = .joinWorker k) :
      Step .stop { s with workersExit := false, workGeneration := 0, doneCount := 0, stop := .done }

variable {s}

theorem step_cases {l : Label n} {s' : DecimationThread n} (h : s.step l = some s') : s.Step l s' := by
  rcases l with avail | w | _
  · simp only [step, stepCoordinator] at h
    split at h
    · rename_i hpc
      cases h
      exact .roam (.inl hpc) (by split_ifs <;> simp)
    · rename_i hpc
      cases h
      exact .roam (.inr (.inl hpc)) (by split_ifs <;> simp)
    · rename_i hpc
      cases h
      exact .openCycle hpc
    · rename_i hpc
      by_cases hdone : s.doneCount ≥ n
      · rw [if_pos hdone] at h
        cases h
        exact .collect hpc hdone
      · rw [if_neg hdone] at h
        cases h
    · rename_i hpc
      cases h
      exact .roam (.inr (.inr hpc)) (by simp)
    · rename_i hpc
      cases h
      exact .finish hpc
    · cases h
  · simp only [step, stepWorker] at h
    split at h
    · rename_i last hpc
      by_cases hexit : s.workersExit = true
      · rw [if_pos (by simp [hexit]), if_pos hexit] at h
        cases h
        exact .leave w hpc hexit
      · have hexit' : s.workersExit = false := Bool.eq_false_of_not_eq_true hexit
        by_cases hgen : s.workGeneration > last
        · rw [if_pos (by simp [hgen]), if_neg hexit] at h
          cases h
          exact .pickUp w hpc hexit' hgen
        · simp [hexit', hgen] at h
    · rename_i last hpc
      cases h
      exact .count w hpc
    · cases h
  · simp only [step, stepStop] at h
    split at h
    · rename_i hpc
      cases h
      exact .request hpc
    · rename_i hpc
      cases h
      exact .exit hpc
    · rename_i hpc
      by_cases hfin : s.coordinator = .finished
      · rw [if_pos hfin] at h
        cases h
        exact .joined hpc hfin
      · rw [if_neg hfin] at h
        cases h
    · rename_i k hpc
      by_cases hk : k < n
      · rw [dif_pos hk] at h
        by_cases hleft : s.workers ⟨k, hk⟩ = .left
        · rw [if_pos hleft] at h
          cases h
          exact .joinedWorker hpc
        · rw [if_neg hleft] at h
          cases h
      · rw [dif_neg hk] at h
        cases h
        exact .reset hpc
    · cases h

end Spec

end DecimationThread

end Grebe
