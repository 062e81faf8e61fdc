import Grebe.DecimationCycle
import Grebe.DecimationThreadStop

/-!
# Grebe.DecimationRun — the threads of `DecimationThread` on their rings

`DecimationThread` says how the threads of a `DecimationThread` take turns; here they carry what they work on.  Between
the section in which a worker picks the cycle up and the one in which it counts itself lies its pass: it loads the
settings, and goes through its slots.  The coordinator looks at the rings one after the other, and its gathering
publishes a frame.  Producers push into the rings at any time.  `SingleRun` is the same for `thread_func_single`.

One step is one call on a ring, one section under `work_mutex_` or one access to an atomic; what a thread does with its
own data comes with the step before it.  What is loaded of the settings comes with the label, as they may be set at any
time.  `cycles`, `used`, `log` and what is kept beside a published frame are history.
-/

namespace Grebe

open DecimationCycle

/-- Where a worker is in its pass. -/
inductive PassPc (N : ℕ)
  /-- before it loads the settings -/
  | load
  /-- before slot `i`, or past the last -/
  | slot (σ : DecimationSettings) (i : ℕ)
  /-- past `size` -/
  | sized (σ : DecimationSettings) (i : ℕ) (ch : Fin N) (avail : ℕ)
  /-- past `discard_bulk`; `seen` is what `size` gave, and `gone` what was discarded -/
  | discarded (σ : DecimationSettings) (i : ℕ) (ch : Fin N) (avail seen gone : ℕ)
deriving DecidableEq

/-- One drain and decimation of a channel: who, at which slot, what `size` gave, and how much was removed. -/
structure DrainRecord (n : ℕ) where
  worker : Fin n
  slot : ℕ
  seen : ℕ
  removed : ℕ
deriving DecidableEq

/-- A published frame, with the histories it is from, the settings of each channel, and the target of the padding. -/
structure Publication (N : ℕ) where
  frame : CycleFrame N
  histories : Fin N → List Int16
  settings : Fin N → DecimationSettings
  target : UInt32

/-- A `DecimationThread` with `n` workers and `N` channels. -/
structure DecimationRun (n N : ℕ) where
  sync : DecimationThread n
  rings : Fin N → RingBuffer Int16
  states : Fin n → DecimationCycle.WorkerState
  pass : Fin n → PassPc N
  /-- how many rings the coordinator has looked at, and what they hold -/
  looked : ℕ
  totalAvail : ℕ
  cycles : ℕ
  used : Fin n → ℕ → DecimationSettings
  log : Fin N → List (DrainRecord n)
  published : List (Publication N)

namespace DecimationRun

variable {n N : ℕ} [NeZero n]

/-! ## Steps -/

section Steps

/-- Who moves; a producer with what it pushes, the coordinator and a worker with what they load of the settings. -/
inductive Label (n N : ℕ)
  | push (ch : Fin N) (src : List Int16)
  | coordinator (target : UInt32)
  | worker (w : Fin n) (loaded : DecimationSettings)
  | stop

/-- The state after `start`. -/
def started (rings : Fin N → RingBuffer Int16) : DecimationRun n N where
  sync := .started
  rings := rings
  states _ := DecimationCycle.WorkerState.started
  pass _ := .load
  looked := 0
  totalAvail := 0
  cycles := 0
  used _ _ := ⟨.none, 0, 0, 0⟩
  log _ := []
  published := []

variable (toSize : Double → Double → ℕ) (s : DecimationRun n N)

/-- What the gathering publishes. -/
def gathered (target : UInt32) : Publication N where
  frame := gather (fun ch => gatherPiece target ((s.states (owner ch)).decResults (slot n ch)))
    fun ch => (s.states (owner ch)).rawCounts (slot n ch)
  histories := historyOf s.states
  settings ch := s.used (owner ch) (slot n ch)
  target := target

/-- `thread_func_multi` -/
def stepCoordinator (target : UInt32) : Option (DecimationRun n N) :=
  match s.sync.coordinator with
  | .head =>
    (s.sync.step (.coordinator false)).map fun sync => { s with sync := sync, looked := 0, totalAvail := 0 }
  | .look =>
    if h : s.looked < N then
      some { s with looked := s.looked + 1, totalAvail := s.totalAvail + (s.rings ⟨s.looked, h⟩).size }
    else (s.sync.step (.coordinator (s.totalAvail ≠ 0))).map fun sync => { s with sync := sync }
  | .signal =>
    (s.sync.step (.coordinator false)).map fun sync =>
      { s with sync := sync, cycles := s.cycles + 1, log := fun _ => [] }
  | .gather =>
    (s.sync.step (.coordinator false)).map fun sync =>
      { s with sync := sync, published := s.published ++ [s.gathered target] }
  | _ => (s.sync.step (.coordinator false)).map fun sync => { s with sync := sync }

/-- Worker `w` goes on in its pass. -/
def movePass (w : Fin n) (pc : PassPc N) : DecimationRun n N := { s with pass := Function.update s.pass w pc }

/-- `worker_func` of worker `w`. -/
def stepWorker (w : Fin n) (loaded : DecimationSettings) : Option (DecimationRun n N) :=
  match s.sync.workers w with
  | .working _ =>
    match s.pass w with
    | .load => some (s.movePass w (.slot loaded 0))
    | .slot σ i =>
      match (assignedChannels N w)[i]? with
      | some ch => some (s.movePass w (.sized σ i ch (s.rings ch).size))
      | none => (s.sync.step (.worker w)).map fun sync => { s with sync := sync }
    | .sized σ i ch avail =>
      let r := discardOld (windowOf toSize σ (s.rings ch)) (s.rings ch) avail
      some { s.movePass w (.discarded σ i ch r.2 avail ((s.rings ch).size - r.1.size)) with
        rings := Function.update s.rings ch r.1 }
    | .discarded σ i ch avail seen gone =>
      let d := popInto (windowOf toSize σ (s.rings ch)) (s.rings ch) ((s.states w).historyBufs i) avail
      some { s.movePass w (.slot σ (i + 1)) with
        rings := Function.update s.rings ch d.ring
        states := Function.update s.states w ((s.states w).store σ i d.history)
        used := Function.update s.used w (Function.update (s.used w) i σ)
        log := Function.update s.log ch (s.log ch ++ [⟨w, i, seen, gone + d.popped⟩]) }
  | _ => (s.sync.step (.worker w)).map fun sync => { s.movePass w .load with sync := sync }

def step : Label n N → Option (DecimationRun n N)
  | .push ch src => some { s with rings := Function.update s.rings ch ((s.rings ch).pushBulk src).2 }
  | .coordinator target => s.stepCoordinator target
  | .worker w loaded => s.stepWorker toSize w loaded
  | .stop => (s.sync.step .stop).map fun sync => { s with sync := sync }

/-- A started `DecimationThread` with `n` workers and `N` channels. -/
def threads (toSize : Double → Double → ℕ) (n N : ℕ) [NeZero n] : Lib.Lts (DecimationRun n N) (Label n N) where
  init s := ∃ rings, s = started rings
  step := step toSize

end Steps

/-! ## What a step does, said once -/

section Spec

variable (toSize : Double → Double → ℕ) (s : DecimationRun n N)

/-- What one step does. -/
inductive Step : Label n N → DecimationRun n N → Prop
  | push {ch : Fin N} {src : List Int16} :
      Step (.push ch src) { s with rings := Function.update s.rings ch ((s.rings ch).pushBulk src).2 }
  /-- The coordinator looks at a ring. -/
  | look {target : UInt32} {looked totalAvail : ℕ} :
      Step (.coordinator target) { s with looked := looked, totalAvail := totalAvail }
  /-- The coordinator goes on, neither opening a cycle nor gathering. -/
  | coordinate {target : UInt32} {avail : Bool} {sync : DecimationThread n} {looked totalAvail : ℕ}
      (hpc : s.sync.coordinator ≠ .signal) (hsync : s.sync.step (.coordinator avail) = some sync) :
      Step (.coordinator target) { s with sync := sync, looked := looked, totalAvail := totalAvail }
  | openCycle {target : UInt32} {avail : Bool} {sync : DecimationThread n} (hpc : s.sync.coordinator = .signal)
      (hsync : s.sync.step (.coordinator avail) = some sync) :
      Step (.coordinator target) { s with sync := sync, cycles := s.cycles + 1, log := fun _ => [] }
  | publish {target : UInt32} {avail : Bool} {sync : DecimationThread n} (hpc : s.sync.coordinator = .gather)
      (hsync : s.sync.step (.coordinator avail) = some sync) :
      Step (.coordinator target) { s with sync := sync, published := s.published ++ [s.gathered target] }
  /-- A worker picks the cycle up, or leaves. -/
  | wake {w : Fin n} {loaded : DecimationSettings} {sync : DecimationThread n}
      (hpc : ∀ last, s.sync.workers w ≠ .working last) (hsync : s.sync.step (.worker w) = some sync) :
      Step (.worker w loaded) { s.movePass w .load with sync := sync }
  | load {w : Fin n} {loaded : DecimationSettings} {last : ℕ} (hpc : s.sync.workers w = .working last)
      (hpass : s.pass w = .load) : Step (.worker w loaded) (s.movePass w (.slot loaded 0))
  | size {w : Fin n} {loaded σ : DecimationSettings} {last i : ℕ} {ch : Fin N}
      (hpc : s.sync.workers w = .working last) (hpass : s.pass w = .slot σ i)
      (hch : (assignedChannels N w)[i]? = some ch) :
      Step (.worker w loaded) (s.movePass w (.sized σ i ch (s.rings ch).size))
  /-- A worker past its last slot counts itself. -/
  | count {w : Fin n} {loaded σ : DecimationSettings} {last i : ℕ} {sync : DecimationThread n}
      (hpc : s.sync.workers w = .working last) (hpass : s.pass w = .slot σ i)
      (hch : (assignedChannels N w)[i]? = none) (hsync : s.sync.step (.worker w) = some sync) :
      Step (.worker w loaded) { s with sync := sync }
  | discard {w : Fin n} {loaded σ : DecimationSettings} {last i avail : ℕ} {ch : Fin N}
      (hpc : s.sync.workers w = .working last) (hpass : s.pass w = .sized σ i ch avail) :
      Step (.worker w loaded)
        { s.movePass w (.discarded σ i ch (discardOld (windowOf toSize σ (s.rings ch)) (s.rings ch) avail).2 avail
            ((s.rings ch).size - (discardOld (windowOf toSize σ (s.rings ch)) (s.rings ch) avail).1.size)) with
          rings := Function.update s.rings ch (discardOld (windowOf toSize σ (s.rings ch)) (s.rings ch) avail).1 }
  /-- A worker pops, and decimates the history. -/
  | pop {w : Fin n} {loaded σ : DecimationSettings} {last i avail seen gone : ℕ} {ch : Fin N} {d : Drained}
      (hpc : s.sync.workers w = .working last) (hpass : s.pass w = .discarded σ i ch avail seen gone)
      (hd : d = popInto (windowOf toSize σ (s.rings ch)) (s.rings ch) ((s.states w).historyBufs i) avail) :
      Step (.worker w loaded)
        { s.movePass w (.slot σ (i + 1)) with
          rings := Function.update s.rings ch d.ring
          states := Function.update s.states w ((s.states w).store σ i d.history)
          used := Function.update s.used w (Function.update (s.used w) i σ)
          log := Function.update s.log ch (s.log ch ++ [⟨w, i, seen, gone + d.popped⟩]) }
  | stop {sync : DecimationThread n} (hsync : s.sync.step .stop = some sync) : Step .stop { s with sync := sync }

variable {toSize s} {s' : DecimationRun n N}

theorem step_cases {l : Label n N} (h : s.step toSize l = some s') : Step toSize s l s' := by
  rcases l with ⟨ch, src⟩ | target | ⟨w, loaded⟩ | _
  · cases h
    exact .push
  · simp only [step, stepCoordinator] at h
    split at h
    · rename_i hpc
      obtain ⟨sync, hsync, rfl⟩ := Option.map_eq_some_iff.mp h
      exact .coordinate (by simp [hpc]) hsync
    · rename_i hpc
      split_ifs at h
      · cases h
        exact .look
      · obtain ⟨sync, hsync, rfl⟩ := Option.map_eq_some_iff.mp h
        exact .coordinate (by simp [hpc]) hsync
    · rename_i hpc
      obtain ⟨sync, hsync, rfl⟩ := Option.map_eq_some_iff.mp h
      exact .openCycle hpc hsync
    · rename_i hpc
      obtain ⟨sync, hsync, rfl⟩ := Option.map_eq_some_iff.mp h
      exact .publish hpc hsync
    · rename_i hpc _
      obtain ⟨sync, hsync, rfl⟩ := Option.map_eq_some_iff.mp h
      exact .coordinate (by assumption) hsync
  · simp only [step, stepWorker] at h
    split at h
    · rename_i last hpc
      split at h
      · rename_i hpass
        cases h
        exact .load hpc hpass
      · rename_i σ i hpass
        split at h
        · rename_i ch hch
          cases h
          exact .size hpc hpass hch
        · rename_i hch
          obtain ⟨sync, hsync, rfl⟩ := Option.map_eq_some_iff.mp h
          exact .count hpc hpass hch hsync
      · rename_i σ i ch avail hpass
        cases h
        exact .discard hpc hpass
      · rename_i σ i ch avail seen gone hpass
        cases h
        exact .pop hpc hpass rfl
    · rename_i hpc
      obtain ⟨sync, hsync, rfl⟩ := Option.map_eq_some_iff.mp h
      exact .wake hpc hsync
  · obtain ⟨sync, hsync, rfl⟩ := Option.map_eq_some_iff.mp h
    exact .stop hsync

/-- What one step does to the synchronisation: nothing, or a step of it. -/
theorem sync_cases {l : Label n N} (h : Step toSize s l s') :
    s'.sync = s.sync ∨ ∃ k, s.sync.step k = some s'.sync := by
  rcases h with _ | _ | ⟨_, hsync⟩ | ⟨_, hsync⟩ | ⟨_, hsync⟩ | ⟨_, hsync⟩ | _ | _ | ⟨_, _, _, hsync⟩ | _ | _ | hsync
  case coordinate | openCycle | publish | wake | count | stop => exact .inr ⟨_, hsync⟩
  all_goals exact .inl rfl

/-- **The synchronisation runs as it does without the data.** -/
theorem reach_sync (hs : (threads toSize n N).Reachable s) : (DecimationThread.threads n).Reachable s.sync := by
  refine hs.invariant (I := fun s => (DecimationThread.threads n).Reachable s.sync) (fun t h0 => ?_)
    fun t l t' h _ hst => ?_
  · obtain ⟨rings, rfl⟩ := h0
    exact .init rfl
  · rcases sync_cases (step_cases hst) with hsame | ⟨k, hsync⟩
    · rw [hsame]
      exact h
    · exact .step h trivial hsync

end Spec

end DecimationRun

/-! ## The single path -/

/-- Where `thread_func_single` is. -/
inductive SinglePc (N : ℕ)
  | head
  /-- before it looks at ring `ch` -/
  | look (ch totalAvail : ℕ)
  /-- before it loads the rate and the time span -/
  | load
  /-- before the drain of channel `ch`, or past the last -/
  | drain (σ : DecimationSettings) (ch totalNew : ℕ)
  /-- past `size` -/
  | sized (σ : DecimationSettings) (ch : Fin N) (totalNew avail : ℕ)
  /-- past `discard_bulk` -/
  | discarded (σ : DecimationSettings) (ch : Fin N) (totalNew avail : ℕ)
  /-- before it loads the mode and the target, and decimates -/
  | decimate (totalNew : ℕ)
  | finished
deriving DecidableEq

/-- A `DecimationThread` without workers and `N` channels. -/
structure SingleRun (N : ℕ) where
  rings : Fin N → RingBuffer Int16
  histories : Fin N → List Int16
  stopRequested : Bool
  pc : SinglePc N
  published : List (Publication N)

namespace SingleRun

section Steps

inductive Label (N : ℕ)
  | push (ch : Fin N) (src : List Int16)
  | single (loaded : DecimationSettings)
  | stop

variable {N : ℕ} (toSize : Double → Double → ℕ) (s : SingleRun N)

/-- The state after `start`. -/
def started (rings : Fin N → RingBuffer Int16) : SingleRun N := ⟨rings, fun _ => [], false, .head, []⟩

/-- What is published. -/
def decimated (σ : DecimationSettings) : Publication N where
  frame := gather (fun ch => singlePiece σ (s.histories ch)) fun ch => (s.histories ch).length
  histories := s.histories
  settings _ := σ
  target := σ.targetPoints

/-- `thread_func_single` -/
def stepSingle (loaded : DecimationSettings) : Option (SingleRun N) :=
  match s.pc with
  | .head => some { s with pc := if s.stopRequested then .finished else .look 0 0 }
  | .look ch totalAvail =>
    if h : ch < N then some { s with pc := .look (ch + 1) (totalAvail + (s.rings ⟨ch, h⟩).size) }
    else some { s with pc := if totalAvail = 0 then .head else .load }
  | .load => some { s with pc := .drain loaded 0 0 }
  | .drain σ ch totalNew =>
    if h : ch < N then some { s with pc := .sized σ ⟨ch, h⟩ totalNew (s.rings ⟨ch, h⟩).size }
    else some { s with pc := .decimate totalNew }
  | .sized σ ch totalNew avail =>
    let r := discardOld (windowOf toSize σ (s.rings ch)) (s.rings ch) avail
    some { s with rings := Function.update s.rings ch r.1, pc := .discarded σ ch totalNew r.2 }
  | .discarded σ ch totalNew avail =>
    let d := popInto (windowOf toSize σ (s.rings ch)) (s.rings ch) (s.histories ch) avail
    some { s with
      rings := Function.update s.rings ch d.ring
      histories := Function.update s.histories ch d.history
      pc := .drain σ (ch + 1) (totalNew + d.popped) }
  | .decimate totalNew =>
    let p := s.decimated loaded
    some { s with
      pc := .head
      published := if p.frame.rawCount = 0 ∨ totalNew = 0 then s.published else s.published ++ [p] }
  | .finished => none

def step : Label N → Option (SingleRun N)
  | .push ch src => some { s with rings := Function.update s.rings ch ((s.rings ch).pushBulk src).2 }
  | .single loaded => s.stepSingle toSize loaded
  | .stop => some { s with stopRequested := true }

/-- A started `DecimationThread` with `N` channels and no workers. -/
def threads (toSize : Double → Double → ℕ) (N : ℕ) : Lib.Lts (SingleRun N) (Label N) where
  init s := ∃ rings, s = started rings
  step := step toSize

end Steps

section Spec

variable {N : ℕ} {toSize : Double → Double → ℕ} {s s' : SingleRun N}

/-- What one step publishes: nothing, or the histories decimated. -/
theorem published_cases {l : Label N} (h : s.step toSize l = some s') :
    s'.published = s.published ∨ ∃ σ, s'.published = s.published ++ [s.decimated σ] := by
  rcases l with ⟨ch, src⟩ | loaded | _
  · cases h
    exact .inl rfl
  · simp only [step, stepSingle] at h
    split at h
    case h_7 =>
      cases h
      dsimp only
      split_ifs
      · exact .inl rfl
      · exact .inr ⟨loaded, rfl⟩
    case h_2 | h_4 =>
      split_ifs at h <;> cases h <;> exact .inl rfl
    case h_8 => cases h
    all_goals
      cases h
      exact .inl rfl
  · cases h
    exact .inl rfl

end Spec

end SingleRun

end Grebe
