import Mathlib.Tactic
import Grebe.Lib.Lts
import Grebe.InProcessQueue

/-!
# Grebe.LinearRuntime — one worker thread per stage, queues between them

`LinearRuntime` runs a list of stages.  Worker `i` takes single frames out of queue `i - 1` (the first one has no
input), calls `process` of its stage and enqueues what it produced into queue `i`; the main thread polls the last
queue, and at the end stops the workers.  The steps of `runtime entries` are:

* of a worker: the test of its loop, the dequeue, the second test after an empty dequeue, `process`, one `enqueue`, the
  return of an `enqueue` from its wait, and the end of the iteration;
* of the main thread: `poll_output`, and the parts of `stop`: the flag, the shutdown of each queue, each join.

The frames that `process` produces, its result and its time come with the label: a stage may do anything.  The fields
`emitted` and `taken` are history and no step reads them.  `poll_latest` is `poll_output` until it yields nothing.  The
`ExecContext` that a stage receives, the log and the times of day are left out.
-/

namespace Grebe

/-- What `IStage::process` returns. -/
inductive StageResult
  | ok
  | noData
  | eos
  | retry
  | error
deriving DecidableEq

/-- What `add_stage` records of a stage, with its default arguments. -/
structure StageEntry where
  name : String
  queueCapacity : ℕ := 64
  policy : BackpressurePolicy := .dropOldest

/-- Where a worker is in `worker_func`. -/
inductive WorkerPc (α : Type)
  /-- at the test of the loop -/
  | head
  /-- before the dequeue of its input queue -/
  | fetch
  /-- after a dequeue that found nothing -/
  | idle
  /-- in `process` -/
  | process (input : List α)
  /-- with these frames left to enqueue, of `count` produced -/
  | emit (left : List α) (count : ℕ) (result : StageResult)
  /-- in the wait of `enqueue` with `item` -/
  | blocked (item : α) (left : List α) (count : ℕ) (result : StageResult)
  | exited

/-- A worker thread and its two counters. -/
structure WorkerState (α : Type) where
  pc : WorkerPc α
  framesProcessed : ℕ
  totalProcessNs : ℕ

/-- Where the main thread is: polling, or in `stop` before queue `k` is shut down or worker `k` joined. -/
inductive MainPc
  | polling
  | shutdown (k : ℕ)
  | join (k : ℕ)
  | stopped
deriving DecidableEq

structure LinearRuntime (α : Type) where
  stop : Bool
  queues : ℕ → InProcessQueue α
  workers : ℕ → WorkerState α
  main : MainPc
  /-- the frames that `process` of each stage produced, in order -/
  emitted : ℕ → List α
  /-- the frames taken out of each queue, in order -/
  taken : ℕ → List α

/-- The entry of `telemetry` for one stage. -/
structure StageTelemetry where
  name : String
  framesProcessed : ℕ
  avgProcessTimeMs : ℚ
  queueDropped : ℕ

namespace WorkerPc

variable {α : Type}

/-- The frames a worker has taken and made nothing of yet. -/
def input : WorkerPc α → List α
  | .process input => input
  | _ => []

/-- The frames a worker has produced and not yet handed over. -/
def pending : WorkerPc α → List α
  | .emit left _ _ => left
  | .blocked item left _ _ => item :: left
  | _ => []

/-- In the middle of `process`, or of enqueuing what it produced. -/
def busy : WorkerPc α → Bool
  | .process _ | .emit _ _ _ | .blocked _ _ _ _ => true
  | _ => false

theorem pending_eq_nil {pc : WorkerPc α} (h : pc.busy = false) : pc.pending = [] := by
  cases pc <;> simp_all [busy, pending]

end WorkerPc

namespace LinearRuntime

variable {α : Type}

/-! ## Start -/

section Start

/-- The entry whose capacity and policy `start` gives to queue `i`: the next stage's, or the last stage's own. -/
def queueEntry (entries : List StageEntry) (i : ℕ) : StageEntry :=
  if i + 1 < entries.length then entries.getD (i + 1) ⟨"", 64, .dropOldest⟩
  else entries.getD i ⟨"", 64, .dropOldest⟩

/-- The state after `start`. -/
def started (entries : List StageEntry) : LinearRuntime α where
  stop := false
  queues i := .make (queueEntry entries i).queueCapacity (queueEntry entries i).policy
  workers _ := ⟨.head, 0, 0⟩
  main := .polling
  emitted _ := []
  taken _ := []

end Start

/-! ## Parts of a step -/

section Parts

variable (s : LinearRuntime α) (i : ℕ)

def setWorker (w : WorkerState α) : LinearRuntime α := { s with workers := Function.update s.workers i w }

/-- Worker `i` goes on at `pc`. -/
def goto (pc : WorkerPc α) : LinearRuntime α := s.setWorker i { s.workers i with pc := pc }

def setQueue (q : InProcessQueue α) : LinearRuntime α := { s with queues := Function.update s.queues i q }

/-- Queue `i` is left as `q` when `frame` is taken out of it. -/
def takeOut (frame : α) (q : InProcessQueue α) : LinearRuntime α :=
  { s.setQueue i q with taken := Function.update s.taken i (s.taken i ++ [frame]) }

end Parts

/-! ## Steps -/

section Steps

/-- The steps of one worker. -/
inductive WorkerLabel (α : Type)
  | test
  | fetch
  | retest
  | process (produced : List α) (result : StageResult) (ns : ℕ)
  | enqueue
  | resume (ns : ℕ)
  | finish

inductive Label (α : Type)
  | worker (i : ℕ) (l : WorkerLabel α)
  | pollOutput
  | stop
  | shutdown
  | join

/-- `worker_func` of stage `i`. -/
def stepWorker (s : LinearRuntime α) (i : ℕ) (l : WorkerLabel α) : Option (LinearRuntime α) :=
  match (s.workers i).pc, l with
  | .head, .test =>
    some (s.goto i (if s.stop then .exited else if i = 0 then .process [] else .fetch))
  | .fetch, .fetch =>
    match i with
    -- the first stage has no input queue
    | 0 => none
    | j + 1 =>
      match (s.queues j).dequeue with
      | none => some (s.goto (j + 1) .idle)
      | some (frame, q) => some ((s.takeOut j frame q).goto (j + 1) (.process [frame]))
  | .idle, .retest => some (s.goto i (if s.stop then .exited else .head))
  | .process _, .process produced result ns =>
    some { s.setWorker i
        { pc := .emit produced produced.length result
          framesProcessed := (s.workers i).framesProcessed
          totalProcessNs := (s.workers i).totalProcessNs + ns }
      with emitted := Function.update s.emitted i (s.emitted i ++ produced) }
  | .emit (item :: left) count result, .enqueue =>
    match (s.queues i).enqueue item with
    | some (q, _) => some ((s.setQueue i q).goto i (.emit left count result))
    | none => some (s.goto i (.blocked item left count result))
  | .blocked item left count result, .resume ns =>
    if (s.queues i).canResume then
      some ((s.setQueue i ((s.queues i).resume item ns).1).goto i (.emit left count result))
    else none
  | .emit [] count result, .finish =>
    some (s.setWorker i
      { pc := if result = .eos ∨ result = .error then .exited else .head
        framesProcessed := (s.workers i).framesProcessed + count
        totalProcessNs := (s.workers i).totalProcessNs })
  | _, _ => none

/-- `n` is the number of stages. -/
def step (n : ℕ) (s : LinearRuntime α) : Label α → Option (LinearRuntime α)
  | .worker i l => if i < n then s.stepWorker i l else none
  | .pollOutput =>
    if s.main = .polling then
      match (s.queues (n - 1)).dequeue with
      | none => some s
      | some (frame, q) => some (s.takeOut (n - 1) frame q)
    else none
  | .stop => if s.main = .polling then some { s with stop := true, main := .shutdown 0 } else none
  | .shutdown =>
    match s.main with
    | .shutdown k =>
      if k < n then some { s.setQueue k (s.queues k).shutdown with main := .shutdown (k + 1) }
      else some { s with main := .join 0 }
    | _ => none
  | .join =>
    match s.main with
    | .join k =>
      if k < n then
        match (s.workers k).pc with
        | .exited => some { s with main := .join (k + 1) }
        | _ => none
      else some { s with main := .stopped }
    | _ => none

/-- A started runtime with its worker threads and the main thread. -/
def runtime (entries : List StageEntry) : Lib.Lts (LinearRuntime α) (Label α) where
  init s := s = started entries
  step s l := s.step entries.length l

end Steps

/-! ## What a step can do, said once -/

section Spec

variable (s : LinearRuntime α) (i : ℕ)

@[simp] theorem goto_emitted (pc : WorkerPc α) : (s.goto i pc).emitted = s.emitted := rfl

@[simp] theorem goto_taken (pc : WorkerPc α) : (s.goto i pc).taken = s.taken := rfl

@[simp] theorem goto_queues (pc : WorkerPc α) : (s.goto i pc).queues = s.queues := rfl

@[simp] theorem goto_stop (pc : WorkerPc α) : (s.goto i pc).stop = s.stop := rfl

@[simp] theorem goto_main (pc : WorkerPc α) : (s.goto i pc).main = s.main := rfl

@[simp] theorem setWorker_self (w : WorkerState α) : (s.setWorker i w).workers i = w := by
  simp [setWorker]

theorem setWorker_other {k : ℕ} (w : WorkerState α) (h : k ≠ i) : (s.setWorker i w).workers k = s.workers k := by
  simp [setWorker, Function.update_of_ne h]

@[simp] theorem goto_self (pc : WorkerPc α) : ((s.goto i pc).workers i).pc = pc := by
  simp [goto]

theorem goto_other {k : ℕ} (pc : WorkerPc α) (h : k ≠ i) : (s.goto i pc).workers k = s.workers k :=
  s.setWorker_other i _ h

@[simp] theorem setQueue_emitted (q : InProcessQueue α) : (s.setQueue i q).emitted = s.emitted := rfl

@[simp] theorem setQueue_taken (q : InProcessQueue α) : (s.setQueue i q).taken = s.taken := rfl

@[simp] theorem setQueue_workers (q : InProcessQueue α) : (s.setQueue i q).workers = s.workers := rfl

@[simp] theorem setQueue_stop (q : InProcessQueue α) : (s.setQueue i q).stop = s.stop := rfl

@[simp] theorem setQueue_self (q : InProcessQueue α) : (s.setQueue i q).queues i = q := by
  simp [setQueue]

theorem setQueue_other {k : ℕ} (q : InProcessQueue α) (h : k ≠ i) : (s.setQueue i q).queues k = s.queues k := by
  simp [setQueue, Function.update_of_ne h]

@[simp] theorem takeOut_emitted (frame : α) (q : InProcessQueue α) : (s.takeOut i frame q).emitted = s.emitted := rfl

@[simp] theorem takeOut_workers (frame : α) (q : InProcessQueue α) : (s.takeOut i frame q).workers = s.workers := rfl

@[simp] theorem takeOut_stop (frame : α) (q : InProcessQueue α) : (s.takeOut i frame q).stop = s.stop := rfl

@[simp] theorem takeOut_queues_self (frame : α) (q : InProcessQueue α) : (s.takeOut i frame q).queues i = q := by
  simp [takeOut, setQueue]

theorem takeOut_queues_other {k : ℕ} (frame : α) (q : InProcessQueue α) (h : k ≠ i) :
    (s.takeOut i frame q).queues k = s.queues k := by
  simp [takeOut, setQueue, Function.update_of_ne h]

@[simp] theorem takeOut_taken_self (frame : α) (q : InProcessQueue α) :
    (s.takeOut i frame q).taken i = s.taken i ++ [frame] := by
  simp [takeOut]

theorem takeOut_taken_other {k : ℕ} (frame : α) (q : InProcessQueue α) (h : k ≠ i) :
    (s.takeOut i frame q).taken k = s.taken k := by
  simp [takeOut, Function.update_of_ne h]

/-- What one step of worker `i` does. -/
inductive WorkerStep : WorkerLabel α → LinearRuntime α → Prop
  /-- It goes on with no frame in hand. -/
  | idle {l : WorkerLabel α} {pc : WorkerPc α} (hl : l ≠ .enqueue) (hin : (s.workers i).pc.input = [])
      (hout : (s.workers i).pc.pending = []) (hin' : pc.input = [])
      (hout' : pc.pending = []) :
      WorkerStep l (s.goto i pc)
  /-- It takes a frame out of the queue before it. -/
  | fetched {j : ℕ} {frame : α} {q : InProcessQueue α} (hi : i = j + 1) (hpc : (s.workers i).pc = .fetch)
      (hq : (s.queues j).queue = frame :: q.queue) (hq' : q = { s.queues j with queue := q.queue }) :
      WorkerStep .fetch ((s.takeOut j frame q).goto i (.process [frame]))
  /-- Its stage returns. -/
  | processed {input produced : List α} {result : StageResult} {ns : ℕ} (hpc : (s.workers i).pc = .process input) :
      WorkerStep (.process produced result ns)
        { s.setWorker i
            { pc := .emit produced produced.length result
              framesProcessed := (s.workers i).framesProcessed
              totalProcessNs := (s.workers i).totalProcessNs + ns }
          with emitted := Function.update s.emitted i (s.emitted i ++ produced) }
  /-- Its queue has room for the next frame. -/
  | stored {item : α} {left : List α} {count : ℕ} {result : StageResult}
      (hpc : (s.workers i).pc = .emit (item :: left) count result)
      (hroom : (s.queues i).queue.length < (s.queues i).capacity) :
      WorkerStep .enqueue ((s.setQueue i ((s.queues i).push item)).goto i (.emit left count result))
  /-- Its queue is full and drops the frame. -/
  | refused {item : α} {left : List α} {count : ℕ} {result : StageResult}
      (hpc : (s.workers i).pc = .emit (item :: left) count result)
      (hfull : (s.queues i).capacity ≤ (s.queues i).queue.length) (hpol : (s.queues i).policy = .dropLatest) :
      WorkerStep .enqueue
        ((s.setQueue i { s.queues i with totalDropped := (s.queues i).totalDropped + 1 }).goto i
          (.emit left count result))
  /-- Its queue is full and drops its oldest frame. -/
  | evicted {item oldest : α} {left rest : List α} {count : ℕ} {result : StageResult}
      (hpc : (s.workers i).pc = .emit (item :: left) count result)
      (hfull : (s.queues i).capacity ≤ (s.queues i).queue.length) (hpol : (s.queues i).policy = .dropOldest)
      (hq : (s.queues i).queue = oldest :: rest) :
      WorkerStep .enqueue
        ((s.setQueue i (InProcessQueue.push
          { s.queues i with queue := rest, totalDropped := (s.queues i).totalDropped + 1 } item)).goto i
          (.emit left count result))
  /-- Its queue is full and makes it wait. -/
  | waits {item : α} {left : List α} {count : ℕ} {result : StageResult}
      (hpc : (s.workers i).pc = .emit (item :: left) count result)
      (hfull : (s.queues i).capacity ≤ (s.queues i).queue.length) (hpol : (s.queues i).policy = .block) :
      WorkerStep .enqueue (s.goto i (.blocked item left count result))
  /-- It returns from the wait and there is room. -/
  | resumed {item : α} {left : List α} {count : ℕ} {result : StageResult} {ns : ℕ}
      (hpc : (s.workers i).pc = .blocked item left count result) (hopen : (s.queues i).isShutdown = false)
      (hroom : (s.queues i).queue.length < (s.queues i).capacity) :
      WorkerStep (.resume ns)
        ((s.setQueue i (InProcessQueue.push
          { s.queues i with totalBlockedNs := (s.queues i).totalBlockedNs + ns } item)).goto i
          (.emit left count result))
  /-- It returns from the wait after the shutdown of its queue. -/
  | abandoned {item : α} {left : List α} {count : ℕ} {result : StageResult} {ns : ℕ}
      (hpc : (s.workers i).pc = .blocked item left count result) (hshut : (s.queues i).isShutdown = true) :
      WorkerStep (.resume ns)
        ((s.setQueue i { s.queues i with totalBlockedNs := (s.queues i).totalBlockedNs + ns }).goto i
          (.emit left count result))
  /-- It ends the iteration. -/
  | finished {count : ℕ} {result : StageResult} (hpc : (s.workers i).pc = .emit [] count result) :
      WorkerStep .finish
        (s.setWorker i
          { pc := if result = .eos ∨ result = .error then .exited else .head
            framesProcessed := (s.workers i).framesProcessed + count
            totalProcessNs := (s.workers i).totalProcessNs })

variable {s i}

theorem stepWorker_cases {l : WorkerLabel α} {s' : LinearRuntime α} (h : s.stepWorker i l = some s') :
    s.WorkerStep i l s' := by
  unfold stepWorker at h
  split at h
  · -- the test of the loop
    rename_i hpc
    cases h
    refine .idle (by simp) (by simp [hpc, WorkerPc.input]) (by simp [hpc, WorkerPc.pending]) ?_ ?_
    · split_ifs <;> rfl
    · split_ifs <;> rfl
  · -- the dequeue
    rename_i hpc
    split at h
    · cases h
    · rename_i j
      split at h
      · cases h
        exact .idle (by simp) (by simp [hpc, WorkerPc.input]) (by simp [hpc, WorkerPc.pending]) rfl rfl
      · rename_i frame q hd
        cases h
        obtain ⟨hq, hq'⟩ := InProcessQueue.dequeue_eq_some _ hd
        exact .fetched rfl hpc hq hq'
  · -- the second test
    rename_i hpc
    cases h
    refine .idle (by simp) (by simp [hpc, WorkerPc.input]) (by simp [hpc, WorkerPc.pending]) ?_ ?_
    · split_ifs <;> rfl
    · split_ifs <;> rfl
  · -- the return of `process`
    rename_i hpc
    cases h
    exact .processed hpc
  · -- an `enqueue`
    rename_i item left count result hpc
    rcases (s.queues i).enqueue_cases item with
      ⟨hroom, he⟩ | ⟨hfull, ⟨hp, he⟩ | ⟨hp, oldest, rest, hq, he⟩ | ⟨hp, he⟩⟩
    all_goals
      rw [he] at h
      cases h
    · exact .stored hpc hroom
    · exact .refused hpc hfull hp
    · exact .evicted hpc hfull hp hq
    · exact .waits hpc hfull hp
  · -- the return from the wait
    rename_i item left count result ns hpc
    by_cases hres : (s.queues i).canResume = true
    · rw [if_pos hres] at h
      rcases (s.queues i).resume_cases item ns hres with ⟨hs, he⟩ | ⟨hs, hroom, he⟩
      all_goals
        rw [he] at h
        cases h
      · exact .abandoned hpc hs
      · exact .resumed hpc hs hroom
    · rw [if_neg hres] at h
      cases h
  · -- the end of the iteration
    rename_i count result hpc
    cases h
    exact .finished hpc
  · cases h

variable (s)

/-- What one step of the runtime with `n` stages does. -/
inductive Step (n : ℕ) : Label α → LinearRuntime α → Prop
  | worker {l : WorkerLabel α} {s' : LinearRuntime α} (i : ℕ) (hi : i < n) (h : s.WorkerStep i l s') :
      Step n (.worker i l) s'
  /-- The last queue is empty. -/
  | polledNothing (hmain : s.main = .polling) : Step n .pollOutput s
  | polled {frame : α} {q : InProcessQueue α} (hmain : s.main = .polling)
      (hq : (s.queues (n - 1)).queue = frame :: q.queue) (hq' : q = { s.queues (n - 1) with queue := q.queue }) :
      Step n .pollOutput (s.takeOut (n - 1) frame q)
  | stop (hmain : s.main = .polling) : Step n .stop { s with stop := true, main := .shutdown 0 }
  | shutdown {k : ℕ} (hmain : s.main = .shutdown k) (hk : k < n) :
      Step n .shutdown { s.setQueue k (s.queues k).shutdown with main := .shutdown (k + 1) }
  /-- `stop` goes on to the joins, to the next join or to its end. -/
  | stopping {l : Label α} {main : MainPc} (hl : l = .shutdown ∨ l = .join) (hmain : s.main ≠ .polling)
      (hmain' : main ≠ .polling) : Step n l { s with main := main }

variable {s}

theorem step_cases {n : ℕ} {l : Label α} {s' : LinearRuntime α} (h : s.step n l = some s') : s.Step n l s' := by
  cases l with
  | worker i l =>
    simp only [step] at h
    by_cases hi : i < n
    · rw [if_pos hi] at h
      exact .worker i hi (stepWorker_cases h)
    · rw [if_neg hi] at h
      cases h
  | pollOutput =>
    simp only [step] at h
    by_cases hm : s.main = .polling
    · rw [if_pos hm] at h
      cases hd : (s.queues (n - 1)).dequeue with
      | none =>
        rw [hd] at h
        cases h
        exact .polledNothing hm
      | some p =>
        rw [hd] at h
        cases h
        obtain ⟨hq, hq'⟩ := InProcessQueue.dequeue_eq_some _ hd
        exact .polled hm hq hq'
    · rw [if_neg hm] at h
      cases h
  | stop =>
    simp only [step] at h
    by_cases hm : s.main = .polling
    · rw [if_pos hm] at h
      cases h
      exact .stop hm
    · rw [if_neg hm] at h
      cases h
  | shutdown =>
    simp only [step] at h
    split at h
    · rename_i k hm
      by_cases hk : k < n
      · rw [if_pos hk] at h
        cases h
        exact .shutdown hm hk
      · rw [if_neg hk] at h
        cases h
        exact .stopping (.inl rfl) (by simp [hm]) (by simp)
    · cases h
  | join =>
    simp only [step] at h
    split at h
    · rename_i k hm
      by_cases hk : k < n
      · rw [if_pos hk] at h
        split at h
        · cases h
          exact .stopping (.inr rfl) (by simp [hm]) (by simp)
        · cases h
      · rw [if_neg hk] at h
        cases h
        exact .stopping (.inr rfl) (by simp [hm]) (by simp)
    · cases h

end Spec

/-! ## Telemetry -/

section Telemetry

/-- `telemetry`: the drops of a stage are those of its input queue, and the first stage has none. -/
def telemetry (entries : List StageEntry) (s : LinearRuntime α) : List StageTelemetry :=
  entries.mapIdx fun i entry =>
    { name := entry.name
      framesProcessed := (s.workers i).framesProcessed
      avgProcessTimeMs :=
        if (s.workers i).framesProcessed > 0 then
          ((s.workers i).totalProcessNs : ℚ) / 1000000 / (s.workers i).framesProcessed
        else 0
      queueDropped := if i > 0 then (s.queues (i - 1)).totalDropped else 0 }

end Telemetry

end LinearRuntime

end Grebe
