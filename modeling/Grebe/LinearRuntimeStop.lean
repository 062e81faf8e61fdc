import Mathlib.Tactic
import Grebe.LinearRuntimeDelivery

/-!
# Grebe.LinearRuntimeStop — the way out of a worker

Once `stop` is set, a worker that is not in `process` leaves its loop on its own:

* `stepsLeft`: how many steps that takes at most, and `worker_leaves`: there is always the next one, as long as the
  worker does not wait in `enqueue`, which it never does where no policy is `Block` (`reachable_free`).
* `reachable_joined`: the workers that `stop` has joined have left.
-/

namespace Grebe

namespace LinearRuntime

variable {α : Type}

section Joined

variable {s s' : LinearRuntime α} {i : ℕ}

/-- What a step of worker `i` leaves alone; a worker that has left makes no step. -/
theorem stepWorker_frame {l : WorkerLabel α} (h : s.stepWorker i l = some s') :
    s'.main = s.main ∧ s'.stop = s.stop ∧ (s.workers i).pc ≠ .exited ∧ ∀ j ≠ i, s'.workers j = s.workers j := by
  have hexited : (s.workers i).pc ≠ .exited := by
    intro hpc
    simp [stepWorker, hpc] at h
  obtain ⟨hmain, hstop, hworkers⟩ :
      s'.main = s.main ∧ s'.stop = s.stop ∧ ∀ j ≠ i, s'.workers j = s.workers j := by
    rcases stepWorker_cases h with _ | _ | _ | _ | _ | _ | _ | _ | _ | _
    case processed => exact ⟨rfl, rfl, fun j hj => s.setWorker_other i _ hj⟩
    case finished => exact ⟨rfl, rfl, fun j hj => s.setWorker_other i _ hj⟩
    all_goals exact ⟨rfl, rfl, fun j hj => goto_other _ _ _ hj⟩
  exact ⟨hmain, hstop, hexited, hworkers⟩

/-- A step of the main thread leaves the workers alone. -/
theorem step_workers {n : ℕ} {l : Label α} (h : s.step n l = some s') :
    (∃ i w, l = .worker i w ∧ s.stepWorker i w = some s') ∨ s'.workers = s.workers := by
  cases l with
  | worker i w =>
    simp only [step] at h
    split_ifs at h
    exact .inl ⟨i, w, rfl, h⟩
  | _ =>
    right
    rcases step_cases h with _ | _ | _ | _ | _ | _
    all_goals rfl

/-- How many of `n` workers the main thread has joined. -/
def joinedCount (n : ℕ) : MainPc → ℕ
  | .polling | .shutdown _ => 0
  | .join k => k
  | .stopped => n

/-- The joined workers have left. -/
def Joined (n : ℕ) (s : LinearRuntime α) : Prop := ∀ i < joinedCount n s.main, (s.workers i).pc = .exited

theorem joined_step {n : ℕ} {l : Label α} (h : Joined n s) (hst : s.step n l = some s') : Joined n s' := by
  cases l with
  | worker i l =>
    simp only [step] at hst
    split_ifs at hst
    obtain ⟨hmain, -, hexited, hworkers⟩ := stepWorker_frame hst
    intro j hj
    rw [hmain] at hj
    have hji : j ≠ i := by
      rintro rfl
      exact hexited (h j hj)
    rw [hworkers j hji]
    exact h j hj
  | pollOutput =>
    simp only [step] at hst
    split_ifs at hst
    split at hst
    all_goals
      cases hst
      exact h
  | stop =>
    simp only [step] at hst
    split_ifs at hst
    cases hst
    exact fun i hi => absurd hi (Nat.not_lt_zero i)
  | shutdown =>
    simp only [step] at hst
    split at hst
    · split_ifs at hst
      all_goals
        cases hst
        exact fun i hi => absurd hi (Nat.not_lt_zero i)
    · cases hst
  | join =>
    simp only [step] at hst
    split at hst
    · rename_i k hmain
      rw [Joined, hmain] at h
      split_ifs at hst with hk
      · split at hst
        · rename_i hexited
          cases hst
          intro i hi
          obtain hi | rfl := Nat.lt_succ_iff_lt_or_eq.mp hi
          · exact h i hi
          · exact hexited
        · cases hst
      · cases hst
        exact fun i hi => h i (lt_of_lt_of_le hi (not_lt.mp hk))
    · cases hst

theorem reachable_joined {entries : List StageEntry} (hs : (runtime entries).Reachable s) :
    Joined entries.length s :=
  hs.invariant (I := Joined entries.length)
    (fun _ h0 i hi => by
      rw [h0] at hi
      exact absurd hi (Nat.not_lt_zero i))
    fun _ _ _ h _ hst => joined_step h hst

end Joined

section Leaving

variable {s s' : LinearRuntime α} {i : ℕ} {entries : List StageEntry}

/-- The first worker has no input queue to fetch from, and no worker waits in `enqueue`. -/
structure Free (s : LinearRuntime α) : Prop where
  first : (s.workers 0).pc ≠ .fetch
  blocked : ∀ i item left count result, (s.workers i).pc ≠ .blocked item left count result

theorem first_step {l : WorkerLabel α} (h : s.stepWorker 0 l = some s') : (s'.workers 0).pc ≠ .fetch := by
  unfold stepWorker at h
  split at h
  · cases h
    rw [goto_self, if_pos rfl]
    split_ifs <;> simp
  · cases h
  · cases h
    rw [goto_self]
    split_ifs <;> simp
  · cases h
    exact fun h => by simp at h
  · split at h
    all_goals
      cases h
      rw [goto_self]
      simp
  · split_ifs at h
    cases h
    rw [goto_self]
    simp
  · cases h
    rw [setWorker_self]
    dsimp only
    split_ifs <;> simp
  · cases h

theorem free_step {l : Label α} (hpolicy : ∀ i, (s.queues i).policy ≠ .block) (h : Free s)
    (hst : s.step entries.length l = some s') : Free s' := by
  obtain ⟨i, w, -, hw⟩ | hworkers := step_workers hst
  · obtain ⟨-, -, -, hworkers⟩ := stepWorker_frame hw
    constructor
    · by_cases hi : i = 0
      · subst hi
        exact first_step hw
      · rw [hworkers 0 (Ne.symm hi)]
        exact h.first
    · intro j item left count result
      by_cases hj : j = i
      · subst hj
        rcases stepWorker_cases hw with
          ⟨-, -, -, -, hout⟩ | _ | _ | _ | _ | _ | ⟨-, -, hblock⟩ | _ | _ | _
        case idle =>
          rw [goto_self]
          rintro rfl
          cases hout
        case waits => exact absurd hblock (hpolicy j)
        case processed =>
          rw [setWorker_self]
          simp
        case finished =>
          rw [setWorker_self]
          dsimp only
          split_ifs <;> simp
        all_goals
          rw [goto_self]
          simp
      · rw [hworkers j hj]
        exact h.blocked j item left count result
  · exact ⟨by rw [hworkers]; exact h.first, by rw [hworkers]; exact h.blocked⟩

theorem reachable_free (hpolicy : ∀ i, (queueEntry entries i).policy ≠ .block)
    (hs : (runtime entries).Reachable s) : Free s := by
  refine hs.invariant_of (I := Free) (J := Config entries) (fun _ h => reachable_config h) ?_ ?_
  · rintro s rfl
    exact ⟨by simp [started], by simp [started]⟩
  · intro s l s' hc h _ hst
    exact free_step (fun i => by rw [hc.policy i]; exact hpolicy i) h hst

/-- At most how many steps a worker makes until it leaves, once `stop` is set; `process` counts as one. -/
def stepsLeft : WorkerPc α → ℕ
  | .exited => 0
  | .head | .idle => 1
  | .process _ => 3
  | .fetch => 4
  | .emit left _ _ => 2 + 2 * left.length
  | .blocked _ left _ _ => 3 + 2 * left.length

/-- What `process` returns with this step. -/
def WorkerLabel.produced : WorkerLabel α → List α
  | .process produced _ _ => produced
  | _ => []

/-- Once `stop` is set each step of a worker brings it nearer to its end, but for the frames that `process` produces. -/
theorem stepsLeft_step (hstop : s.stop = true) {l : WorkerLabel α} (h : s.stepWorker i l = some s') :
    stepsLeft (s'.workers i).pc + 1 ≤ stepsLeft (s.workers i).pc + 2 * l.produced.length := by
  unfold stepWorker at h
  split at h
  case h_1 hpc =>
    cases h
    rw [hpc, goto_self, if_pos hstop]
    simp [stepsLeft]
  case h_2 hpc =>
    rw [hpc]
    split at h
    · cases h
    · split at h
      all_goals
        cases h
        rw [goto_self]
        simp [stepsLeft, WorkerLabel.produced]
  case h_3 hpc =>
    cases h
    rw [hpc, goto_self, if_pos hstop]
    simp [stepsLeft]
  case h_4 produced result ns hpc =>
    cases h
    rw [hpc]
    simp only [setWorker_self, stepsLeft, WorkerLabel.produced]
    omega
  case h_5 hpc =>
    rw [hpc]
    split at h
    all_goals
      cases h
      rw [goto_self]
      simp only [stepsLeft, List.length_cons]
      omega
  case h_6 hpc =>
    split_ifs at h
    cases h
    rw [hpc, goto_self]
    simp only [stepsLeft]
    omega
  case h_7 hpc =>
    cases h
    rw [hpc, setWorker_self]
    dsimp only
    split_ifs <;> simp [stepsLeft, WorkerLabel.produced]
  case h_8 => cases h

/-- A worker has a next step, unless it waits for room in an open queue: whatever its stage returns, where it is in
`process`. -/
theorem worker_moves (hfirst : (s.workers 0).pc ≠ .fetch)
    (hblocked : ∀ item left count result, (s.workers i).pc = .blocked item left count result →
      (s.queues i).canResume = true)
    (hexited : (s.workers i).pc ≠ .exited) :
    ∃ l s', ((∃ input, (s.workers i).pc = .process input) ∨ ∀ produced result ns, l ≠ .process produced result ns) ∧
      s.stepWorker i l = some s' := by
  cases hpc : (s.workers i).pc with
  | head => exact ⟨.test, _, .inr (by simp), by simp only [stepWorker, hpc]; rfl⟩
  | fetch =>
    obtain ⟨j, rfl⟩ : ∃ j, i = j + 1 := Nat.exists_eq_succ_of_ne_zero fun h0 => hfirst (h0 ▸ hpc)
    rcases hd : (s.queues j).dequeue with _ | ⟨frame, q⟩
    · exact ⟨.fetch, s.goto (j + 1) .idle, .inr (by simp), by simp [stepWorker, hpc, hd]⟩
    · exact ⟨.fetch, (s.takeOut j frame q).goto (j + 1) (.process [frame]), .inr (by simp), by
        simp [stepWorker, hpc, hd]⟩
  | idle => exact ⟨.retest, _, .inr (by simp), by simp only [stepWorker, hpc]; rfl⟩
  | process input => exact ⟨.process [] .ok 0, _, .inl ⟨input, rfl⟩, by simp only [stepWorker, hpc]; rfl⟩
  | emit left count result =>
    rcases left with _ | ⟨item, left⟩
    · exact ⟨.finish, _, .inr (by simp), by simp only [stepWorker, hpc]; rfl⟩
    · rcases he : (s.queues i).enqueue item with _ | ⟨q, _⟩
      · exact ⟨.enqueue, s.goto i (.blocked item left count result), .inr (by simp), by simp [stepWorker, hpc, he]⟩
      · exact ⟨.enqueue, (s.setQueue i q).goto i (.emit left count result), .inr (by simp), by
          simp [stepWorker, hpc, he]⟩
  | blocked item left count result =>
    exact ⟨.resume 0, _, .inr (by simp), by simp only [stepWorker, hpc, if_pos (hblocked item left count result hpc)]; rfl⟩
  | exited => exact absurd hpc hexited

/-- How many calls of `process` a worker makes until it leaves, once `stop` is set. -/
def processLeft : WorkerPc α → ℕ
  | .fetch | .process _ => 1
  | _ => 0

def WorkerLabel.processCalls : WorkerLabel α → ℕ
  | .process _ _ _ => 1
  | _ => 0

theorem processLeft_step (hstop : s.stop = true) {l : WorkerLabel α} (h : s.stepWorker i l = some s') :
    l.processCalls + processLeft (s'.workers i).pc ≤ processLeft (s.workers i).pc := by
  unfold stepWorker at h
  split at h
  case h_1 =>
    cases h
    rw [goto_self, if_pos hstop]
    exact Nat.zero_le _
  case h_2 hpc =>
    rw [hpc]
    split at h
    · cases h
    · split at h
      all_goals
        cases h
        rw [goto_self]
        simp [processLeft, WorkerLabel.processCalls]
  case h_3 =>
    cases h
    rw [goto_self, if_pos hstop]
    exact Nat.zero_le _
  case h_4 hpc =>
    cases h
    rw [hpc, setWorker_self]
    exact le_rfl
  case h_5 =>
    split at h
    all_goals
      cases h
      rw [goto_self]
      exact Nat.zero_le _
  case h_6 =>
    split_ifs at h
    cases h
    rw [goto_self]
    exact Nat.zero_le _
  case h_7 =>
    cases h
    rw [setWorker_self]
    dsimp only
    split_ifs <;> exact Nat.zero_le _
  case h_8 => cases h

/-- **The way out**: once `stop` is set, a worker outside `process` has a next step towards it; the source worker does
not go back into `process`. -/
theorem worker_leaves (hstop : s.stop = true) (hfree : Free s) (hexited : (s.workers i).pc ≠ .exited)
    (hprocess : ∀ input, (s.workers i).pc ≠ .process input) :
    ∃ l s', (∀ produced result ns, l ≠ .process produced result ns) ∧ s.stepWorker i l = some s' ∧
      stepsLeft (s'.workers i).pc < stepsLeft (s.workers i).pc ∧
      (i = 0 → ∀ input, (s'.workers i).pc ≠ .process input) := by
  obtain ⟨l, s', hl, hst⟩ := worker_moves hfree.first
    (fun item left count result hpc => absurd hpc (hfree.blocked i item left count result)) hexited
  have hnot : ∀ produced result ns, l ≠ .process produced result ns :=
    hl.resolve_left fun ⟨input, hpc⟩ => hprocess input hpc
  have hproduced : l.produced = [] := by
    cases l with
    | process produced result ns => exact absurd rfl (hnot produced result ns)
    | _ => rfl
  refine ⟨l, s', hnot, hst, ?_, ?_⟩
  · have hsteps := stepsLeft_step hstop hst
    rw [hproduced] at hsteps
    exact hsteps
  · rintro rfl input hpc
    have hleft := processLeft_step hstop hst
    have hzero : processLeft (s.workers 0).pc = 0 := by
      cases hp : (s.workers 0).pc with
      | fetch => exact absurd hp hfree.first
      | process input => exact absurd hp (hprocess input)
      | _ => rfl
    rw [hzero, hpc] at hleft
    exact absurd (le_trans (Nat.le_add_left _ _) hleft) (by simp [processLeft])

end Leaving

end LinearRuntime

end Grebe
