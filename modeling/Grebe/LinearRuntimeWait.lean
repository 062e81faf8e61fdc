import Mathlib.Tactic
import Grebe.LinearRuntimeStop

/-!
# Grebe.LinearRuntimeWait — who sleeps in the queues, and who wakes them

In `LinearRuntime` a worker that waits in `enqueue` goes on whenever the predicate of its wait holds.  Here it is asleep:
it goes on after somebody has woken it, and tests the predicate then.

* `dequeue` under `Block` wakes one waiter while it holds the lock.  Worker `i` alone enqueues into queue `i`, so this is
  worker `i`.
* `shutdown` sets its flag under the lock and wakes all waiters after that, so `stop` has one step more for each queue;
  a worker may come to the wait, and even be woken for no reason and go back to sleep, between the two.
* `awake_after_stop`: once `stop` is past the queues nobody sleeps, and every worker gets to its end, in a number of its
  own steps that the frames it has to enqueue bound, whatever the others do.
-/

namespace Grebe

open Lib

/-- A runtime, which of its workers sleep, and the queue whose waiters `stop` has yet to wake. -/
structure WaitingRuntime (α : Type) where
  runtime : LinearRuntime α
  asleep : ℕ → Bool
  notifying : Option ℕ

namespace WaitingRuntime

variable {α : Type}

/-! ## Steps -/

section Steps

inductive Label (α : Type)
  | runtime (l : LinearRuntime.Label α)
  /-- Worker `i` wakes for no reason. -/
  | spurious (i : ℕ)
  /-- Worker `i`, woken, finds the predicate of its wait false. -/
  | sleep (i : ℕ)
  /-- `not_full_.notify_all()` -/
  | notifyAll

variable (s : WaitingRuntime α)

def setAsleep (i : ℕ) (b : Bool) : WaitingRuntime α := { s with asleep := Function.update s.asleep i b }

def blocked (pc : WorkerPc α) : Bool :=
  match pc with
  | .blocked _ _ _ _ => true
  | _ => false

/-- Who sleeps after a `dequeue` from queue `j`. -/
def notifyOne (j : ℕ) : ℕ → Bool :=
  if (s.runtime.queues j).policy = .block ∧ (s.runtime.queues j).queue ≠ [] then Function.update s.asleep j false
  else s.asleep

/-- Who sleeps when the step `l` has led to `t`; a call that comes to the wait tests the predicate before it sleeps. -/
def asleepAfter (n : ℕ) (t : LinearRuntime α) : LinearRuntime.Label α → ℕ → Bool
  | .worker i .enqueue =>
    Function.update s.asleep i (blocked (t.workers i).pc && !(s.runtime.queues i).canResume)
  | .worker (j + 1) .fetch => s.notifyOne j
  | .pollOutput => s.notifyOne (n - 1)
  | _ => s.asleep

/-- The queue that `shutdown` has just marked. -/
def notifyingAfter (n : ℕ) : LinearRuntime.Label α → Option ℕ
  | .shutdown =>
    match s.runtime.main with
    | .shutdown k => if k < n then some k else none
    | _ => none
  | _ => s.notifying

/-- A sleeping worker does not return from its wait, and `stop` does not go on before it has woken the waiters. -/
def ready : LinearRuntime.Label α → Bool
  | .worker i (.resume _) => !s.asleep i
  | .shutdown | .join => s.notifying.isNone
  | _ => true

def step (n : ℕ) : Label α → Option (WaitingRuntime α)
  | .runtime l =>
    if s.ready l then
      (s.runtime.step n l).map fun t =>
        { runtime := t, asleep := s.asleepAfter n t l, notifying := s.notifyingAfter n l }
    else none
  | .spurious i => if s.asleep i then some (s.setAsleep i false) else none
  | .sleep i =>
    if i < n ∧ blocked (s.runtime.workers i).pc ∧ s.asleep i = false ∧ (s.runtime.queues i).canResume = false then
      some (s.setAsleep i true)
    else none
  | .notifyAll => s.notifying.map fun k => { s.setAsleep k false with notifying := none }

/-- `waiting entries` is `runtime entries` with the waits in it. -/
def waiting (entries : List StageEntry) : Lts (WaitingRuntime α) (Label α) where
  init s := s = ⟨.started entries, fun _ => false, none⟩
  step s := s.step entries.length

/-- The steps of worker `i`. -/
def own (i : ℕ) : Label α → Bool
  | .runtime (.worker j _) => j = i
  | .sleep j => j = i
  | _ => false

/-- The frames that `process` of stage `i` returns in a run. -/
def producedBy (i : ℕ) (ls : List (Label α)) : List α :=
  ls.flatMap fun
    | .runtime (.worker j l) => if j = i then l.produced else []
    | _ => []

/-- The calls of `process` of stage `i` that return in a run. -/
def processCalls (i : ℕ) (ls : List (Label α)) : ℕ :=
  (ls.map fun
    | .runtime (.worker j l) => if j = i then l.processCalls else 0
    | _ => 0).sum

/-- `stop` is past the queues: each is shut down, and its waiters were woken. -/
def Down (n : ℕ) : Prop :=
  s.notifying = none ∧ (s.runtime.main = .shutdown n ∨ (∃ k, s.runtime.main = .join k) ∨ s.runtime.main = .stopped)

end Steps

/-! ## The runtime without the waits -/

section Runtime

variable {entries : List StageEntry} {s s' : WaitingRuntime α}

/-- What one step does. -/
inductive Step (n : ℕ) (s : WaitingRuntime α) : Label α → WaitingRuntime α → Prop
  | runtime {l : LinearRuntime.Label α} {r : LinearRuntime α} (hready : s.ready l = true)
      (hr : s.runtime.step n l = some r) :
      Step n s (.runtime l) { runtime := r, asleep := s.asleepAfter n r l, notifying := s.notifyingAfter n l }
  | spurious (i : ℕ) : Step n s (.spurious i) (s.setAsleep i false)
  | sleep (i : ℕ) (hi : i < n) (hblocked : blocked (s.runtime.workers i).pc = true)
      (hfull : (s.runtime.queues i).canResume = false) : Step n s (.sleep i) (s.setAsleep i true)
  | notifyAll (k : ℕ) (hk : s.notifying = some k) : Step n s .notifyAll { s.setAsleep k false with notifying := none }

theorem step_cases {n : ℕ} {l : Label α} (hst : s.step n l = some s') : s.Step n l s' := by
  cases l with
  | runtime l =>
    simp only [step] at hst
    split_ifs at hst with hready
    obtain ⟨r, hr, rfl⟩ := Option.map_eq_some_iff.mp hst
    exact .runtime hready hr
  | spurious i =>
    simp only [step] at hst
    split_ifs at hst
    cases hst
    exact .spurious i
  | sleep i =>
    simp only [step] at hst
    split_ifs at hst with hc
    cases hst
    exact .sleep i hc.1 hc.2.1 hc.2.2.2
  | notifyAll =>
    obtain ⟨k, hk, rfl⟩ := Option.map_eq_some_iff.mp hst
    exact .notifyAll k hk

theorem step_runtime {n : ℕ} {l : Label α} (hst : s.step n l = some s') :
    (∃ l₀, l = .runtime l₀ ∧ s.runtime.step n l₀ = some s'.runtime) ∨ s'.runtime = s.runtime := by
  rcases step_cases hst with ⟨-, hr⟩ | _ | _ | _
  case runtime => exact .inl ⟨_, rfl, hr⟩
  all_goals exact .inr rfl

/-- A run with the waits is a run of the runtime. -/
theorem reach_runtime (hs : (waiting entries).Reachable s) : (LinearRuntime.runtime entries).Reachable s.runtime := by
  induction hs with
  | init h0 => exact .init (congrArg runtime h0)
  | step _ _ hst ih =>
    rcases step_runtime hst with ⟨l₀, -, ht⟩ | heq
    · exact .step ih trivial ht
    · rwa [heq]

end Runtime

/-! ## Sleepers -/

section Sleepers

variable {entries : List StageEntry} {s s' : WaitingRuntime α} {r r' : LinearRuntime α} {n : ℕ}

theorem setQueue_isShutdown {i : ℕ} {q : InProcessQueue α} (h : q.isShutdown = (r.queues i).isShutdown) (k : ℕ) :
    ((r.setQueue i q).queues k).isShutdown = (r.queues k).isShutdown := by
  by_cases hk : k = i
  · rw [hk, LinearRuntime.setQueue_self, h]
  · rw [LinearRuntime.setQueue_other _ _ _ hk]

/-- Only `shutdown` shuts a queue down. -/
theorem isShutdown_stepWorker {i : ℕ} {l : LinearRuntime.WorkerLabel α} (h : r.stepWorker i l = some r') (k : ℕ) :
    (r'.queues k).isShutdown = (r.queues k).isShutdown := by
  rcases LinearRuntime.stepWorker_cases h with
    _ | ⟨hi, hpc, hq, hq'⟩ | _ | _ | _ | _ | _ | _ | _ | _
  case fetched j frame q =>
    refine setQueue_isShutdown ?_ k
    rw [hq']
  case idle => rfl
  case processed => rfl
  case waits => rfl
  case finished => rfl
  all_goals
    rw [LinearRuntime.goto_queues]
    apply setQueue_isShutdown
    rfl

/-- How many of `n` queues are shut down. -/
def shutCount (n : ℕ) : MainPc → ℕ
  | .polling => 0
  | .shutdown k => k
  | .join _ | .stopped => n

theorem step_isShutdown {l : LinearRuntime.Label α} (h : r.step n l = some r') :
    ((∀ k, (r'.queues k).isShutdown = (r.queues k).isShutdown) ∧ shutCount n r'.main ≤ shutCount n r.main) ∨
    ∃ k, l = .shutdown ∧ r.main = .shutdown k ∧ k < n ∧ r'.main = .shutdown (k + 1) ∧
      (r'.queues k).isShutdown = true ∧ ∀ j ≠ k, (r'.queues j).isShutdown = (r.queues j).isShutdown := by
  cases l with
  | worker i w =>
    simp only [LinearRuntime.step] at h
    split_ifs at h
    obtain ⟨hmain, -, -, -⟩ := LinearRuntime.stepWorker_frame h
    exact .inl ⟨isShutdown_stepWorker h, by rw [hmain]⟩
  | pollOutput =>
    simp only [LinearRuntime.step] at h
    split_ifs at h
    split at h
    case h_1 =>
      cases h
      exact .inl ⟨fun _ => rfl, le_rfl⟩
    case h_2 frame q hd =>
      cases h
      obtain ⟨-, hq⟩ := InProcessQueue.dequeue_eq_some _ hd
      exact .inl ⟨setQueue_isShutdown (by rw [hq]), le_rfl⟩
  | stop =>
    simp only [LinearRuntime.step] at h
    split_ifs at h
    cases h
    exact .inl ⟨fun _ => rfl, Nat.zero_le _⟩
  | shutdown =>
    simp only [LinearRuntime.step] at h
    split at h
    case h_1 k hmain =>
      split_ifs at h with hk
      · cases h
        refine .inr ⟨k, rfl, hmain, hk, rfl, ?_, fun j hj => ?_⟩
        · show ((r.setQueue k _).queues k).isShutdown = true
          rw [LinearRuntime.setQueue_self]
          rfl
        · show ((r.setQueue k _).queues j).isShutdown = _
          rw [LinearRuntime.setQueue_other _ _ _ hj]
      · cases h
        refine .inl ⟨fun _ => rfl, ?_⟩
        rw [hmain]
        exact not_lt.mp hk
    case h_2 => cases h
  | join =>
    simp only [LinearRuntime.step] at h
    split at h
    case h_1 k hmain =>
      have hcount : shutCount n r.main = n := by rw [hmain]; rfl
      split_ifs at h
      · split at h
        · cases h
          exact .inl ⟨fun _ => rfl, hcount.ge⟩
        · cases h
      · cases h
        exact .inl ⟨fun _ => rfl, hcount.ge⟩
    case h_2 => cases h

/-- Who sleeps, waits in an open queue, or in one whose waiters are about to be woken. -/
structure Sleepers (n : ℕ) (s : WaitingRuntime α) : Prop where
  blocked : ∀ i, s.asleep i = true → i < n ∧ blocked (s.runtime.workers i).pc = true
  waking : ∀ i, s.asleep i = true → (s.runtime.queues i).isShutdown = false ∨ s.notifying = some i
  shut : ∀ i < shutCount n s.runtime.main, (s.runtime.queues i).isShutdown = true
  first : (s.runtime.workers 0).pc ≠ .fetch

theorem notifyOne_le {i j : ℕ} (h : s.notifyOne j i = true) : s.asleep i = true := by
  unfold notifyOne at h
  split_ifs at h
  · by_cases hij : i = j
    · rw [hij, Function.update_self] at h
      cases h
    · rwa [Function.update_of_ne hij] at h
  · exact h

/-- A sleeper slept before, or has just come to the wait in an open queue. -/
theorem asleepAfter_cases {l : LinearRuntime.Label α} {i : ℕ} (h : s.asleepAfter n r l i = true) :
    s.asleep i = true ∨ (l = .worker i .enqueue ∧ WaitingRuntime.blocked (r.workers i).pc = true ∧
      (s.runtime.queues i).isShutdown = false) := by
  unfold asleepAfter at h
  split at h
  case h_1 j =>
    by_cases hij : i = j
    · subst hij
      rw [Function.update_self, Bool.and_eq_true, Bool.not_eq_true'] at h
      exact .inr ⟨rfl, h.1, (Bool.or_eq_false_iff.mp h.2).2⟩
    · rw [Function.update_of_ne hij] at h
      exact .inl h
  case h_2 => exact .inl (notifyOne_le h)
  case h_3 => exact .inl (notifyOne_le h)
  case h_4 => exact .inl h

theorem setAsleep_eq_true {i k : ℕ} {b : Bool} (h : (s.setAsleep i b).asleep k = true) :
    (k = i ∧ b = true) ∨ (k ≠ i ∧ s.asleep k = true) := by
  have hupdate : Function.update s.asleep i b k = true := h
  by_cases hk : k = i
  · subst hk
    rw [Function.update_self] at hupdate
    exact .inl ⟨rfl, hupdate⟩
  · rw [Function.update_of_ne hk] at hupdate
    exact .inr ⟨hk, hupdate⟩

/-- A worker that sleeps makes no step of its own. -/
theorem workers_of_asleep {i : ℕ} {l : LinearRuntime.Label α} (h : Sleepers n s) (hi : s.asleep i = true)
    (hready : s.ready l = true) (hst : s.runtime.step n l = some r) : r.workers i = s.runtime.workers i := by
  obtain ⟨j, w, rfl, hw⟩ | hworkers := LinearRuntime.step_workers hst
  · obtain ⟨-, -, -, hworkers⟩ := LinearRuntime.stepWorker_frame hw
    apply hworkers i
    intro hij
    subst hij
    have hblocked := (h.blocked i hi).2
    cases hpc : (s.runtime.workers i).pc with
    | blocked item left count result =>
      -- the one step from the wait is its end
      cases w with
      | resume ns =>
        rw [ready, hi] at hready
        cases hready
      | _ => simp [LinearRuntime.stepWorker, hpc] at hw
    | _ =>
      rw [hpc] at hblocked
      cases hblocked
  · rw [hworkers]

theorem sleepers_runtime {l : LinearRuntime.Label α} (h : Sleepers n s) (hready : s.ready l = true)
    (hst : s.runtime.step n l = some r) :
    Sleepers n { runtime := r, asleep := s.asleepAfter n r l, notifying := s.notifyingAfter n l } := by
  refine ⟨fun i hi => ?_, fun i hi => ?_, fun i hi => ?_, ?_⟩
  · rcases asleepAfter_cases hi with hold | ⟨rfl, hblocked, -⟩
    · dsimp only
      rw [workers_of_asleep h hold hready hst]
      exact h.blocked i hold
    · simp only [LinearRuntime.step] at hst
      split_ifs at hst with hlt
      exact ⟨hlt, hblocked⟩
  · dsimp only
    rcases step_isShutdown hst with ⟨hsame, -⟩ | ⟨k, rfl, hmain, hk, -, -, hothers⟩
    · rw [hsame]
      rcases asleepAfter_cases hi with hold | ⟨-, -, hopen⟩
      · rcases h.waking i hold with hopen | hnotifying
        · exact .inl hopen
        · right
          cases l with
          | shutdown =>
            rw [ready, hnotifying] at hready
            cases hready
          | _ => exact hnotifying
      · exact .inl hopen
    · have hold : s.asleep i = true := hi
      have hnone : s.notifying = none := Option.isNone_iff_eq_none.mp hready
      by_cases hik : i = k
      · right
        subst hik
        simp only [notifyingAfter, hmain, if_pos hk]
      · rw [hothers i hik]
        refine .inl ((h.waking i hold).resolve_right ?_)
        rw [hnone]
        exact (Option.some_ne_none i).symm
  · rcases step_isShutdown hst with ⟨hsame, hcount⟩ | ⟨k, rfl, hmain, hk, hmain', hself, hothers⟩
    · rw [hsame]
      exact h.shut i (lt_of_lt_of_le hi hcount)
    · by_cases hik : i = k
      · rw [hik, hself]
      · rw [hothers i hik]
        apply h.shut i
        rw [hmain'] at hi
        rw [hmain]
        exact lt_of_le_of_ne (Nat.lt_succ_iff.mp hi) hik
  · obtain ⟨j, w, -, hw⟩ | hworkers := LinearRuntime.step_workers hst
    · by_cases hj : j = 0
      · subst hj
        exact LinearRuntime.first_step hw
      · rw [(LinearRuntime.stepWorker_frame hw).2.2.2 0 (Ne.symm hj)]
        exact h.first
    · rw [hworkers]
      exact h.first

theorem sleepers_step {l : Label α} (h : Sleepers n s) (hst : s.step n l = some s') : Sleepers n s' := by
  rcases step_cases hst with ⟨hready, hr⟩ | i | ⟨i, hlt, hblocked, hfull⟩ | ⟨j, hj⟩
  case runtime => exact sleepers_runtime h hready hr
  case spurious =>
    refine ⟨fun k hk => ?_, fun k hk => ?_, h.shut, h.first⟩
    all_goals rcases setAsleep_eq_true hk with ⟨-, hfalse⟩ | ⟨-, hold⟩
    · cases hfalse
    · exact h.blocked k hold
    · cases hfalse
    · exact h.waking k hold
  case sleep =>
    refine ⟨fun k hk => ?_, fun k hk => ?_, h.shut, h.first⟩
    all_goals rcases setAsleep_eq_true hk with ⟨rfl, -⟩ | ⟨-, hold⟩
    · exact ⟨hlt, hblocked⟩
    · exact h.blocked k hold
    · exact .inl (Bool.or_eq_false_iff.mp hfull).2
    · exact h.waking k hold
  case notifyAll =>
    refine ⟨fun k hk => ?_, fun k hk => ?_, h.shut, h.first⟩
    all_goals rcases setAsleep_eq_true hk with ⟨-, hfalse⟩ | ⟨hne, hold⟩
    · cases hfalse
    · exact h.blocked k hold
    · cases hfalse
    · refine .inl ((h.waking k hold).resolve_right fun hk' => hne ?_)
      rw [hj] at hk'
      exact (Option.some.inj hk').symm

theorem reach_sleepers (hs : (waiting entries).Reachable s) : Sleepers entries.length s := by
  refine hs.invariant (I := Sleepers entries.length) (fun t h0 => ?_) fun _ _ _ h _ hst => sleepers_step h hst
  rw [show t = _ from h0]
  exact ⟨nofun, nofun, fun i hi => absurd hi (Nat.not_lt_zero i), nofun⟩

end Sleepers

/-! ## After the shutdowns -/

section Down

variable {entries : List StageEntry} {s s' t : WaitingRuntime α} {n i : ℕ}

theorem Down.shutCount (h : s.Down n) : WaitingRuntime.shutCount n s.runtime.main = n := by
  rcases h.2 with hm | ⟨k, hm⟩ | hm <;> rw [hm] <;> rfl

theorem Down.main_ne (h : s.Down n) : s.runtime.main ≠ .polling := by
  rcases h.2 with hm | ⟨k, hm⟩ | hm <;> rw [hm] <;> exact nofun

/-- Nobody sleeps in a queue once all are shut down and notified. -/
theorem Sleepers.awake (h : Sleepers n s) (hdown : s.Down n) (i : ℕ) : s.asleep i = false := by
  by_contra hi
  have hi := eq_true_of_ne_false hi
  have hshut := h.shut i (by rw [hdown.shutCount]; exact (h.blocked i hi).1)
  rcases h.waking i hi with hopen | hnotifying
  · rw [hshut] at hopen
    cases hopen
  · rw [hdown.1] at hnotifying
    cases hnotifying

/-- The runtime goes on through the joins. -/
theorem down_runtime {l : LinearRuntime.Label α} (h : s.Down n) (hr : s.runtime.step n l = some r) :
    Down { runtime := r, asleep := s.asleepAfter n r l, notifying := s.notifyingAfter n l } n := by
  cases l with
  | worker j w =>
    simp only [LinearRuntime.step] at hr
    split_ifs at hr
    obtain ⟨hmain, -, -, -⟩ := LinearRuntime.stepWorker_frame hr
    exact ⟨h.1, by rw [hmain]; exact h.2⟩
  | pollOutput =>
    simp only [LinearRuntime.step, if_neg h.main_ne] at hr
    cases hr
  | stop =>
    simp only [LinearRuntime.step, if_neg h.main_ne] at hr
    cases hr
  | shutdown =>
    rcases h.2 with hm | ⟨k, hm⟩ | hm
    all_goals simp only [LinearRuntime.step, hm, lt_irrefl, if_false] at hr
    all_goals cases hr
    exact ⟨by simp [notifyingAfter, hm], .inr (.inl ⟨0, rfl⟩)⟩
  | join =>
    rcases h.2 with hm | ⟨k, hm⟩ | hm
    all_goals simp only [LinearRuntime.step, hm] at hr
    · cases hr
    · split_ifs at hr
      · split at hr
        · cases hr
          exact ⟨h.1, .inr (.inl ⟨k + 1, rfl⟩)⟩
        · cases hr
      · cases hr
        exact ⟨h.1, .inr (.inr rfl)⟩
    · cases hr

theorem down_step {l : Label α} (h : s.Down n) (hst : s.step n l = some s') : s'.Down n := by
  rcases step_cases hst with ⟨-, hr⟩ | _ | _ | _
  case runtime => exact down_runtime h hr
  case spurious | sleep => exact h
  case notifyAll => exact ⟨rfl, h.2⟩

theorem Sleepers.canResume (h : Sleepers n s) (hdown : s.Down n) (hi : i < n) :
    (s.runtime.queues i).canResume = true := by
  rw [InProcessQueue.canResume, h.shut i (by rw [hdown.shutCount]; exact hi), Bool.or_true]

/-- Worker `i` has a step of its own to make. -/
def Enabled (n i : ℕ) (s : WaitingRuntime α) : Prop := ∃ l s', own i l = true ∧ s.step n l = some s'

theorem Sleepers.enabled (h : Sleepers n s) (hdown : s.Down n) (hi : i < n)
    (hexited : (s.runtime.workers i).pc ≠ .exited) : Enabled n i s := by
  obtain ⟨l, r, -, hst⟩ := LinearRuntime.worker_moves h.first (fun _ _ _ _ _ => h.canResume hdown hi) hexited
  have hready : s.ready (.worker i l) = true := by
    cases l with
    | resume ns =>
      rw [ready, h.awake hdown]
      rfl
    | _ => rfl
  have hr : s.runtime.step n (.worker i l) = some r := by simp only [LinearRuntime.step, if_pos hi, hst]
  exact ⟨.runtime (.worker i l), ⟨r, s.asleepAfter n r (.worker i l), s.notifying⟩, by simp [own], by
    simp only [step, if_pos hready, hr]
    rfl⟩

theorem stop_of_down (hs : (waiting entries).Reachable s) (hdown : s.Down entries.length) : s.runtime.stop = true := by
  have hconfig := LinearRuntime.reachable_config (reach_runtime hs)
  by_contra hstop
  exact hdown.main_ne (hconfig.polling.mp (Bool.eq_false_of_not_eq_true hstop))

/-- What one step costs worker `i`. -/
theorem ownStep_le {l : Label α} (h : Sleepers n s) (hstop : s.runtime.stop = true) (hdown : s.Down n)
    (hst : s.step n l = some s') (i : ℕ) :
    [l].countP (own i) + LinearRuntime.stepsLeft (s'.runtime.workers i).pc ≤
      LinearRuntime.stepsLeft (s.runtime.workers i).pc + 2 * (producedBy i [l]).length ∧
    processCalls i [l] + LinearRuntime.processLeft (s'.runtime.workers i).pc ≤
      LinearRuntime.processLeft (s.runtime.workers i).pc := by
  -- a step that is not the worker's own leaves it where it is
  have hother : own i l = false → s'.runtime.workers i = s.runtime.workers i := by
    intro hown
    rcases step_runtime hst with ⟨l₀, rfl, hr⟩ | heq
    · obtain ⟨j, w, rfl, hw⟩ | hworkers := LinearRuntime.step_workers hr
      · exact (LinearRuntime.stepWorker_frame hw).2.2.2 i fun hij => by simp [own, hij] at hown
      · rw [hworkers]
    · rw [heq]
  rcases step_cases hst with ⟨-, hr⟩ | _ | ⟨j, hj, -, hfull⟩ | _
  case runtime l r =>
    cases l with
    | worker j w =>
      by_cases hij : j = i
      · subst hij
        simp only [LinearRuntime.step] at hr
        split_ifs at hr
        have hsteps := LinearRuntime.stepsLeft_step hstop hr
        have hprocess := LinearRuntime.processLeft_step hstop hr
        simp only [own, producedBy, processCalls, List.countP_singleton, List.flatMap_singleton, List.map_singleton,
          List.sum_singleton, decide_true, if_true]
        exact ⟨by omega, hprocess⟩
      · rw [hother (by simp [own, hij])]
        simp [own, producedBy, processCalls, hij]
    | _ =>
      rw [hother rfl]
      simp [own, producedBy, processCalls]
  case sleep => exact absurd (h.canResume hdown hj) (by simp [hfull])
  case spurious | notifyAll =>
    rw [hother rfl]
    simp [own, producedBy, processCalls]

/-- **The own steps of a worker after the shutdowns**, and its calls of `process`, over a whole run. -/
theorem ownSteps_le {ls : List (Label α)} (hs : (waiting entries).Reachable s) (hdown : s.Down entries.length)
    (hrun : (waiting entries).exec s ls = some t) (i : ℕ) :
    (ls.countP (own i) + LinearRuntime.stepsLeft (t.runtime.workers i).pc ≤
      LinearRuntime.stepsLeft (s.runtime.workers i).pc + 2 * (producedBy i ls).length ∧
    processCalls i ls + LinearRuntime.processLeft (t.runtime.workers i).pc ≤
      LinearRuntime.processLeft (s.runtime.workers i).pc) ∧ t.Down entries.length := by
  induction ls generalizing s with
  | nil =>
    cases hrun
    exact ⟨⟨by simp [producedBy], by simp [processCalls]⟩, hdown⟩
  | cons l ls ih =>
    rw [Lts.exec_cons, Option.bind_eq_some_iff] at hrun
    obtain ⟨s', hst, hrun⟩ := hrun
    obtain ⟨⟨hsteps, hcalls⟩, hdown'⟩ := ih (.step hs trivial hst) (down_step hdown hst) hrun
    obtain ⟨hstep, hcall⟩ := ownStep_le (reach_sleepers hs) (stop_of_down hs hdown) hdown hst i
    have hcount : (l :: ls).countP (own i) = [l].countP (own i) + ls.countP (own i) := by
      rw [← List.countP_append]
      rfl
    have hproduced : producedBy i (l :: ls) = producedBy i [l] ++ producedBy i ls := by
      simp [producedBy]
    have hprocess : processCalls i (l :: ls) = processCalls i [l] + processCalls i ls := by
      simp [processCalls]
    rw [hcount, hproduced, hprocess, List.length_append]
    exact ⟨⟨by omega, by omega⟩, hdown'⟩

theorem stepsLeft_le (pc : WorkerPc α) : LinearRuntime.stepsLeft pc ≤ 4 + 2 * pc.pending.length := by
  cases pc <;> simp only [LinearRuntime.stepsLeft, WorkerPc.pending, List.length_cons, List.length_nil] <;> omega

theorem stepsLeft_eq_zero {pc : WorkerPc α} (h : LinearRuntime.stepsLeft pc = 0) : pc = .exited := by
  cases pc with
  | exited => rfl
  | _ => simp [LinearRuntime.stepsLeft] at h

theorem processLeft_le (pc : WorkerPc α) : LinearRuntime.processLeft pc ≤ 1 := by
  cases pc <;> simp [LinearRuntime.processLeft]

/-- **`stop` leaves nobody asleep.**  In every state in which `stop` is past the queues no worker sleeps; from there on,
whatever the others do, a worker that has not left can always make a step of its own, calls `process` once more at most,
and has left after as many own steps as the frames it holds, and those of that call, need. -/
theorem awake_after_stop (hs : (waiting entries).Reachable s) (hdown : s.Down entries.length) :
    (∀ i, s.asleep i = false) ∧
    ∀ ls t, (waiting entries).exec s ls = some t → ∀ i < entries.length,
      t.asleep i = false ∧ processCalls i ls ≤ 1 ∧
      ls.countP (own i) ≤ 4 + 2 * ((s.runtime.workers i).pc.pending.length + (producedBy i ls).length) ∧
      (4 + 2 * ((s.runtime.workers i).pc.pending.length + (producedBy i ls).length) ≤ ls.countP (own i) →
        (t.runtime.workers i).pc = .exited) ∧
      ((t.runtime.workers i).pc ≠ .exited → Enabled entries.length i t) := by
  refine ⟨(reach_sleepers hs).awake hdown, ?_⟩
  intro ls t hrun i hi
  obtain ⟨⟨hsteps, hcalls⟩, hdown'⟩ := ownSteps_le hs hdown hrun i
  have ht := reach_sleepers (hs.exec hrun)
  have hbound := stepsLeft_le (s.runtime.workers i).pc
  have hcall := processLeft_le (s.runtime.workers i).pc
  refine ⟨ht.awake hdown' i, by omega, by omega, ?_, ht.enabled hdown' hi⟩
  intro hle
  exact stepsLeft_eq_zero (by omega)

/-- Worker 0 of two stages sleeps with the second of two frames when `stop` comes; it has left after six steps at most. -/
theorem awake_after_stop_block :
    ∃ s : WaitingRuntime ℕ, (waiting [⟨"a", 1, .block⟩, ⟨"b", 1, .block⟩]).Reachable s ∧ s.Down 2 ∧
      (s.runtime.workers 0).pc = .blocked 8 [] 2 .ok ∧ s.asleep 0 = false ∧
      ∀ ls t, (waiting [⟨"a", 1, .block⟩, ⟨"b", 1, .block⟩]).exec s ls = some t → producedBy 0 ls = [] →
        6 ≤ ls.countP (own 0) → (t.runtime.workers 0).pc = .exited := by
  obtain ⟨s, hs, hpc, hmain, hnotifying⟩ : ∃ s : WaitingRuntime ℕ,
      (waiting [⟨"a", 1, .block⟩, ⟨"b", 1, .block⟩]).exec
        ⟨.started [⟨"a", 1, .block⟩, ⟨"b", 1, .block⟩], fun _ => false, none⟩
        [.runtime (.worker 0 .test), .runtime (.worker 0 (.process [7, 8] .ok 0)), .runtime (.worker 0 .enqueue),
          .runtime (.worker 0 .enqueue), .runtime .stop, .runtime .shutdown, .notifyAll, .runtime .shutdown,
          .notifyAll] = some s ∧
      (s.runtime.workers 0).pc = .blocked 8 [] 2 .ok ∧ s.runtime.main = .shutdown 2 ∧ s.notifying = none :=
    ⟨_, rfl, rfl, rfl, rfl⟩
  have hreach := Lts.reachable_of_exec _ rfl hs
  have hdown : s.Down 2 := ⟨hnotifying, .inl hmain⟩
  obtain ⟨hasleep, hall⟩ := awake_after_stop hreach hdown
  refine ⟨s, hreach, hdown, hpc, hasleep 0, ?_⟩
  intro ls t hrun hproduced hcount
  obtain ⟨-, -, -, hexited, -⟩ := hall ls t hrun 0 (by decide)
  apply hexited
  rw [hpc, hproduced]
  exact hcount

end Down

end WaitingRuntime

end Grebe
