import Mathlib.Data.UInt
import Grebe.Contracts
import Grebe.Decimator
import Grebe.RingBuffer

/-!
# Grebe.DecimationCycle — one cycle of `DecimationThread`, with and without workers

A cycle drains each ring into the history of its channel, decimates the histories, and publishes the results one after
the other.  `thread_func_single` does it in one loop; `thread_func_multi` leaves the channels to the workers, channel
`ch` to worker `ch % num_workers_`, and gathers their results from the slots.

The two differ in two tests: the single path pads a channel whose history is empty, the workers' path one whose result
is empty; and the single path publishes nothing when the sum of the 32-bit raw counts is zero.

* `slot_spec`: the slot that the gathering looks up is that of the channel.
* `workersPass_eq`: in whatever order the workers process their slots, each channel is drained and decimated once.
* `cycle_agrees_iff`: when the two paths agree.

The product of rate and time span, at least 1 and truncated to `size_t`, is the parameter `toSize`.  What is only
telemetry is left out: the mode in effect, times, ratios and fill levels.
-/

namespace Grebe

structure DecimationSettings where
  mode : DecimationMode
  targetPoints : UInt32
  sampleRate : Double
  visibleTimeSpan : Double
deriving DecidableEq

/-- The mode, with the guard at high rates. -/
def DecimationSettings.effectiveMode (σ : DecimationSettings) : DecimationMode :=
  if σ.mode = .lttb ∧ σ.sampleRate.highRate then .minMax else σ.mode

namespace DecimationCycle

/-! ## Draining a ring -/

section Drain

/-- `compute_window_samples` -/
def computeWindowSamples (toSize : Double → Double → ℕ) (sampleRate timeSpan : Double) (maxSamples : ℕ) : ℕ :=
  if sampleRate.nonPos || timeSpan.nonPos || maxSamples = 0 then 0 else min (toSize sampleRate timeSpan) maxSamples

/-- The window for a ring. -/
def windowOf (toSize : Double → Double → ℕ) (σ : DecimationSettings) (ring : RingBuffer Int16) : ℕ :=
  computeWindowSamples toSize σ.sampleRate σ.visibleTimeSpan ring.capacity

/-- Discards what is older than the window: the ring, and how much there is to pop. -/
def discardOld (window : ℕ) (ring : RingBuffer Int16) (avail : ℕ) : RingBuffer Int16 × ℕ :=
  if window > 0 ∧ avail > window then ((ring.discardBulk (avail - window)).2, window) else (ring, avail)

/-- The history with what was popped, trimmed to the window. -/
def extendHistory (window : ℕ) (hist popped : List Int16) : List Int16 :=
  let hist := hist ++ popped
  if window > 0 ∧ hist.length > window then hist.drop (hist.length - window) else hist

/-- A channel after its ring was drained. -/
structure Drained where
  ring : RingBuffer Int16
  history : List Int16
  popped : ℕ

/-- Pops what there is to pop. -/
def popInto (window : ℕ) (ring : RingBuffer Int16) (hist : List Int16) (avail : ℕ) : Drained :=
  if avail > 0 then
    let r := ring.popBulk avail
    ⟨r.2, extendHistory window hist r.1, r.1.length⟩
  else ⟨ring, hist, 0⟩

/-- The drain of one channel, nothing being pushed in between. -/
def drain (window : ℕ) (ring : RingBuffer Int16) (hist : List Int16) : Drained :=
  let r := discardOld window ring ring.size
  popInto window r.1 hist r.2

/-- How long a history of `len` samples is after a drain of `size` samples. -/
def keptLength (window size len : ℕ) : ℕ :=
  if size = 0 then len else if window = 0 then len + size else min window (len + min window size)

theorem length_extendHistory (window : ℕ) (hist popped : List Int16) :
    (extendHistory window hist popped).length =
      if window = 0 then hist.length + popped.length else min window (hist.length + popped.length) := by
  have hlen : (hist ++ popped).length = hist.length + popped.length := List.length_append
  unfold extendHistory
  by_cases h : window > 0 ∧ (hist ++ popped).length > window
  · rw [if_pos h, List.length_drop, hlen, if_neg (by omega)]
    omega
  · rw [if_neg h, hlen]
    split_ifs <;> omega

variable (window : ℕ) (ring : RingBuffer Int16) (hist : List Int16)

theorem drain_of_empty (h : ring.size = 0) : drain window ring hist = ⟨ring, hist, 0⟩ := by
  rw [drain, discardOld, if_neg (by omega), popInto, if_neg (by omega)]

/-- What is popped of a ring that holds samples. -/
theorem drain_of_pos (h : 0 < ring.size) :
    ∃ xs, (drain window ring hist).history = extendHistory window hist xs ∧
      (drain window ring hist).popped = xs.length ∧
      xs.length = if window = 0 then ring.size else min window ring.size := by
  by_cases hold : window > 0 ∧ ring.size > window
  · have hsize : (ring.discardBulk (ring.size - window)).2.size = window := by
      rw [RingBuffer.size, RingBuffer.items_discardBulk, List.length_drop]
      show ring.size - (ring.size - window) = window
      omega
    rw [drain, discardOld, if_pos hold, popInto, if_pos hold.1]
    refine ⟨_, rfl, rfl, ?_⟩
    rw [RingBuffer.length_popBulk, hsize, min_self, if_neg (by omega), min_eq_left hold.2.le]
  · rw [drain, discardOld, if_neg hold, popInto, if_pos h]
    refine ⟨_, rfl, rfl, ?_⟩
    rw [RingBuffer.length_popBulk, min_self]
    split_ifs <;> omega

theorem length_history_drain :
    (drain window ring hist).history.length = keptLength window ring.size hist.length := by
  rcases Nat.eq_zero_or_pos ring.size with h | h
  · rw [drain_of_empty window ring hist h, keptLength, if_pos h]
  · obtain ⟨xs, hhist, -, hlen⟩ := drain_of_pos window ring hist h
    rw [hhist, length_extendHistory, hlen, keptLength, if_neg h.ne']
    split_ifs <;> rfl

theorem popped_drain_pos (h : 0 < ring.size) : 0 < (drain window ring hist).popped := by
  obtain ⟨xs, -, hpopped, hlen⟩ := drain_of_pos window ring hist h
  rw [hpopped, hlen]
  split_ifs <;> omega

theorem history_drain_ne_nil (h : 0 < ring.size) : (drain window ring hist).history ≠ [] := by
  rw [← List.length_pos_iff, length_history_drain, keptLength, if_neg h.ne']
  split_ifs <;> omega

end Drain

/-! ## The frame of a cycle -/

section Frames

/-- A frame that is published. -/
structure CycleFrame (N : ℕ) where
  data : List Int16
  perChVtx : UInt32
  rawCount : UInt32
  perChRaw : Fin N → UInt32

/-- What a cycle leaves; `published` is none when it publishes nothing. -/
structure CycleResult (N : ℕ) where
  rings : Fin N → RingBuffer Int16
  histories : Fin N → List Int16
  published : Option (CycleFrame N)

variable {N : ℕ}

/-- The loop over the channels that concatenates their vertices. -/
def gather (piece : Fin N → List Int16) (raw : Fin N → ℕ) : CycleFrame N where
  data := ((List.finRange N).map piece).flatten
  perChVtx := ((List.finRange N).map piece).foldl (fun _ dec => UInt32.ofNat dec.length) 0
  rawCount := ((List.finRange N).map fun ch => UInt32.ofNat (raw ch)).sum
  perChRaw ch := UInt32.ofNat (raw ch)

/-- `resize` by `target` zeros. -/
def padding (target : UInt32) : List Int16 := List.replicate target.toNat 0

/-- The vertices of a channel in `thread_func_single`. -/
def singlePiece (σ : DecimationSettings) (hist : List Int16) : List Int16 :=
  if hist.isEmpty then padding σ.targetPoints
  else Decimator.decimate hist σ.effectiveMode σ.targetPoints.toNat

/-- `dec_results` of a channel in `worker_func`. -/
def decResult (σ : DecimationSettings) (hist : List Int16) : List Int16 :=
  if !hist.isEmpty then Decimator.decimate hist σ.effectiveMode σ.targetPoints.toNat else []

/-- The vertices of a channel in the gathering of `thread_func_multi`. -/
def gatherPiece (target : UInt32) (dec : List Int16) : List Int16 :=
  if dec.isEmpty then padding target else dec

/-- The drain of channel `ch`. -/
def drainChannel (toSize : Double → Double → ℕ) (σ : DecimationSettings) (rings : Fin N → RingBuffer Int16)
    (histories : Fin N → List Int16) (ch : Fin N) : Drained :=
  drain (windowOf toSize σ (rings ch)) (rings ch) (histories ch)

/-- The body of the loop of `thread_func_single`. -/
def singleCycle (toSize : Double → Double → ℕ) (σ : DecimationSettings) (rings : Fin N → RingBuffer Int16)
    (histories : Fin N → List Int16) : CycleResult N :=
  if ((List.finRange N).map fun ch => (rings ch).size).sum = 0 then ⟨rings, histories, none⟩
  else
    let d := drainChannel toSize σ rings histories
    let totalNew := ((List.finRange N).map fun ch => (d ch).popped).sum
    let frame := gather (fun ch => singlePiece σ (d ch).history) fun ch => (d ch).history.length
    { rings := fun ch => (d ch).ring
      histories := fun ch => (d ch).history
      published := if frame.rawCount = 0 ∨ totalNew = 0 then none else some frame }

end Frames

/-! ## The workers -/

section Workers

/-- The vectors of a `WorkerState`, slot by slot. -/
structure WorkerState where
  historyBufs : ℕ → List Int16
  decResults : ℕ → List Int16
  rawCounts : ℕ → ℕ

variable {n N : ℕ} [NeZero n]

/-- `ch % num_workers_` -/
def owner (ch : Fin N) : Fin n := ⟨ch % n, Nat.mod_lt _ (NeZero.pos n)⟩

/-- `assigned_channels` of worker `w`, as `start` fills it. -/
def assignedChannels (N : ℕ) (w : Fin n) : List (Fin N) :=
  (List.finRange N).foldl (fun assigned ch => if owner ch = w then assigned ++ [ch] else assigned) []

/-- The slot of a channel, as the gathering looks it up. -/
def slotOf (assigned : List (Fin N)) (ch : Fin N) : ℕ := (assigned.findIdx? fun c => c = ch).getD 0

theorem assignedChannels_eq (w : Fin n) : assignedChannels N w = (List.finRange N).filter fun ch => owner ch = w := by
  have hfold (l acc : List (Fin N)) :
      l.foldl (fun assigned ch => if owner ch = w then assigned ++ [ch] else assigned) acc =
        acc ++ l.filter fun ch => owner ch = w := by
    induction l generalizing acc with
    | nil => simp
    | cons ch l ih =>
      rw [List.foldl_cons, ih, List.filter_cons]
      by_cases h : owner ch = w <;> simp [h]
  exact hfold _ []

theorem mem_assignedChannels {w : Fin n} {ch : Fin N} : ch ∈ assignedChannels N w ↔ owner ch = w := by
  simp [assignedChannels_eq, List.mem_finRange]

theorem nodup_assignedChannels (w : Fin n) : (assignedChannels N w).Nodup := by
  rw [assignedChannels_eq]
  exact (List.nodup_finRange N).filter _

theorem slotOf_getElem {assigned : List (Fin N)} (h : assigned.Nodup) {i : ℕ} (hi : i < assigned.length) :
    slotOf assigned assigned[i] = i := by
  have hfind : assigned.findIdx? (fun c => c = assigned[i]) = some i := by
    rw [List.findIdx?_eq_some_iff_getElem]
    refine ⟨hi, by simp, ?_⟩
    intro j hj
    have hne : assigned[j] ≠ assigned[i] := fun heq => hj.ne ((h.getElem_inj_iff).mp heq)
    simpa using hne
  rw [slotOf, hfind]
  rfl

/-- The slot of channel `ch` at its worker. -/
def slot (n : ℕ) [NeZero n] (ch : Fin N) : ℕ := slotOf (assignedChannels N (owner (n := n) ch)) ch

/-- **The slot that the gathering looks up is that of the channel.** -/
theorem slot_spec (ch : Fin N) : (assignedChannels N (owner (n := n) ch))[slot n ch]? = some ch := by
  obtain ⟨i, hi, hget⟩ := List.mem_iff_getElem.mp (mem_assignedChannels.mpr (rfl : owner (n := n) ch = owner ch))
  have hslot := slotOf_getElem (nodup_assignedChannels (owner (n := n) ch)) hi
  rw [hget] at hslot
  rw [slot, hslot, List.getElem?_eq_getElem hi, hget]

theorem slot_lt (ch : Fin N) : slot n ch < (assignedChannels N (owner (n := n) ch)).length :=
  (List.getElem?_eq_some_iff.mp (slot_spec ch)).1

/-- The channel of a slot has that worker and that slot. -/
theorem owner_slot {w : Fin n} {i : ℕ} {ch : Fin N} (h : (assignedChannels N w)[i]? = some ch) :
    owner ch = w ∧ slot n ch = i := by
  obtain ⟨hi, rfl⟩ := List.getElem?_eq_some_iff.mp h
  have hw := mem_assignedChannels.mp (List.getElem_mem hi)
  refine ⟨hw, ?_⟩
  rw [slot, hw]
  exact slotOf_getElem (nodup_assignedChannels w) hi

end Workers

/-! ## A cycle with workers -/

section Multi

variable {n N : ℕ} [NeZero n]

/-- The state with slot `i` drained to `hist`, and decimated. -/
def WorkerState.store (state : WorkerState) (σ : DecimationSettings) (i : ℕ) (hist : List Int16) : WorkerState where
  historyBufs := Function.update state.historyBufs i hist
  decResults := Function.update state.decResults i (decResult σ hist)
  rawCounts := Function.update state.rawCounts i hist.length

/-- The history of channel `ch`. -/
def historyOf (states : Fin n → WorkerState) (ch : Fin N) : List Int16 := (states (owner ch)).historyBufs (slot n ch)

/-- The workers in the middle of a cycle: `next` is the slot that each of them is at. -/
structure Pass (n N : ℕ) where
  rings : Fin N → RingBuffer Int16
  states : Fin n → WorkerState
  next : Fin n → ℕ

variable (toSize : Double → Double → ℕ) (σ : DecimationSettings)

/-- Worker `w` drains and decimates its next slot. -/
def stepSlot (m : Pass n N) (w : Fin n) : Pass n N :=
  match (assignedChannels N w)[m.next w]? with
  | none => m
  | some ch =>
    let d := drain (windowOf toSize σ (m.rings ch)) (m.rings ch) ((m.states w).historyBufs (m.next w))
    { rings := Function.update m.rings ch d.ring
      states := Function.update m.states w ((m.states w).store σ (m.next w) d.history)
      next := Function.update m.next w (m.next w + 1) }

/-- The workers go on in the order given. -/
def workersPass (order : List (Fin n)) (m : Pass n N) : Pass n N := order.foldl (stepSlot toSize σ) m

/-- Each worker gets to all of its slots. -/
def Complete (N : ℕ) (order : List (Fin n)) : Prop := ∀ w, order.count w = (assignedChannels N w).length

/-- A cycle of `thread_func_multi` whose workers process their slots in the order given. -/
def multiCycle (rings : Fin N → RingBuffer Int16) (states : Fin n → WorkerState) (order : List (Fin n)) :
    CycleResult N :=
  if ((List.finRange N).map fun ch => (rings ch).size).sum = 0 then ⟨rings, historyOf states, none⟩
  else
    let m := workersPass toSize σ order ⟨rings, states, fun _ => 0⟩
    { rings := m.rings
      histories := historyOf m.states
      published := some (gather
        (fun ch => gatherPiece σ.targetPoints ((m.states (owner ch)).decResults (slot n ch)))
        fun ch => (m.states (owner ch)).rawCounts (slot n ch)) }

/-- Where channel `ch` is in a cycle that began with `rings` and `states`. -/
structure Progress (rings : Fin N → RingBuffer Int16) (states : Fin n → WorkerState) (m : Pass n N) (ch : Fin N) :
    Prop where
  todo : m.next (owner ch) ≤ slot n ch → m.rings ch = rings ch ∧ historyOf m.states ch = historyOf states ch
  done : slot n ch < m.next (owner ch) →
    m.rings ch = (drainChannel toSize σ rings (historyOf states) ch).ring ∧
    historyOf m.states ch = (drainChannel toSize σ rings (historyOf states) ch).history ∧
    (m.states (owner ch)).decResults (slot n ch) = decResult σ (historyOf m.states ch) ∧
    (m.states (owner ch)).rawCounts (slot n ch) = (historyOf m.states ch).length

variable {toSize σ} {rings : Fin N → RingBuffer Int16} {states : Fin n → WorkerState} {m : Pass n N}
  {w : Fin n}

/-- **One slot**: its channel is done, and the others stay where they are. -/
theorem progress_step {ch : Fin N} (h : Progress toSize σ rings states m ch) (w : Fin n) :
    Progress toSize σ rings states (stepSlot toSize σ m w) ch := by
  unfold stepSlot
  split
  · exact h
  · rename_i c hc
    obtain ⟨hw, hslot⟩ := owner_slot hc
    by_cases hch : ch = c
    · subst hch
      have hpair := h.todo (by rw [hw, hslot])
      have hdrain : drain (windowOf toSize σ (m.rings ch)) (m.rings ch) ((m.states w).historyBufs (m.next w)) =
          drainChannel toSize σ rings (historyOf states) ch := by
        have hhist : (m.states w).historyBufs (m.next w) = historyOf m.states ch := by rw [historyOf, hw, hslot]
        rw [hhist, hpair.1, hpair.2, drainChannel]
      rw [hdrain]
      constructor
      · intro hle
        simp only [hw, hslot, Function.update_self] at hle
        omega
      · intro _
        simp only [historyOf, hw, hslot, Function.update_self, WorkerState.store, and_self]
    · by_cases hwc : owner ch = w
      · -- another slot of the same worker
        have hne : slot n ch ≠ m.next w := by
          intro heq
          have hspec := slot_spec (n := n) ch
          rw [heq, hwc, hc] at hspec
          exact hch (Option.some.inj hspec).symm
        have hlt : slot n ch < m.next w + 1 ↔ slot n ch < m.next w := by omega
        have hle : m.next w + 1 ≤ slot n ch ↔ m.next w ≤ slot n ch := by omega
        have htodo := h.todo
        have hdone := h.done
        simp only [historyOf, hwc] at htodo hdone
        constructor <;>
          simp only [historyOf, hwc, Function.update_self, Function.update_of_ne hch, WorkerState.store,
            Function.update_of_ne hne, hlt, hle]
        · exact htodo
        · exact hdone
      · have htodo := h.todo
        have hdone := h.done
        simp only [historyOf] at htodo hdone
        constructor <;> simp only [historyOf, Function.update_of_ne hwc, Function.update_of_ne hch]
        · exact htodo
        · exact hdone

theorem progress_workersPass {ch : Fin N} (order : List (Fin n)) (h : Progress toSize σ rings states m ch) :
    Progress toSize σ rings states (workersPass toSize σ order m) ch := by
  induction order generalizing m with
  | nil => exact h
  | cons w order ih => exact ih (progress_step h w)

theorem next_stepSlot (h : m.next w ≤ (assignedChannels N w).length) (v : Fin n) :
    (stepSlot toSize σ m v).next w = min (m.next w + if v = w then 1 else 0) (assignedChannels N w).length := by
  unfold stepSlot
  split
  · rename_i hnone
    rw [List.getElem?_eq_none_iff] at hnone
    split_ifs with hv
    · subst hv
      omega
    · omega
  · rename_i c hc
    have hlt := (List.getElem?_eq_some_iff.mp hc).1
    by_cases hv : v = w
    · subst hv
      rw [if_pos rfl]
      show Function.update m.next v (m.next v + 1) v = _
      rw [Function.update_self]
      omega
    · rw [if_neg hv]
      show Function.update m.next v (m.next v + 1) w = _
      rw [Function.update_of_ne (Ne.symm hv)]
      omega

theorem next_workersPass (order : List (Fin n)) (h : m.next w ≤ (assignedChannels N w).length) :
    (workersPass toSize σ order m).next w = min (m.next w + order.count w) (assignedChannels N w).length := by
  induction order generalizing m with
  | nil =>
    rw [List.count_nil, Nat.add_zero, min_eq_left h]
    rfl
  | cons v order ih =>
    have hnext : (stepSlot toSize σ m v).next w = _ := next_stepSlot h v
    have hcount : (v :: order).count w = order.count w + if v = w then 1 else 0 := by
      rw [List.count_cons]
      simp only [beq_iff_eq]
    show (workersPass toSize σ order (stepSlot toSize σ m v)).next w = _
    rw [ih (by omega), hcount, hnext]
    split_ifs <;> omega

variable (toSize σ rings states)

/-- **In whatever order the workers process their slots**, each channel is drained and decimated once. -/
theorem workersPass_eq {order : List (Fin n)} (h : Complete N order) (ch : Fin N) :
    let m := workersPass toSize σ order ⟨rings, states, fun _ => 0⟩
    let d := drainChannel toSize σ rings (historyOf states) ch
    m.rings ch = d.ring ∧ historyOf m.states ch = d.history ∧
      (m.states (owner ch)).decResults (slot n ch) = decResult σ d.history ∧
      (m.states (owner ch)).rawCounts (slot n ch) = d.history.length := by
  intro m d
  have hprogress : Progress toSize σ rings states m ch :=
    progress_workersPass order ⟨fun _ => ⟨rfl, rfl⟩, fun hlt => absurd hlt (Nat.not_lt_zero _)⟩
  have hnext : m.next (owner ch) = (assignedChannels N (owner (n := n) ch)).length := by
    show (workersPass toSize σ order _).next (owner ch) = _
    rw [next_workersPass order (Nat.zero_le _), h, Nat.zero_add, min_self]
  obtain ⟨hring, hhist, hdec, hraw⟩ := hprogress.done (by rw [hnext]; exact slot_lt ch)
  rw [hhist] at hdec hraw
  exact ⟨hring, hhist, hdec, hraw⟩

end Multi

/-! ## When the two agree -/

section Agreement

/-- The least target at which a mode leaves samples. -/
def minTarget : DecimationMode → ℕ
  | .none => 0
  | .minMax => 2
  | .lttb => 3

/-- The target is 0, or one at which the mode leaves samples. -/
def Regular (σ : DecimationSettings) : Prop :=
  σ.targetPoints = 0 ∨ minTarget σ.effectiveMode ≤ σ.targetPoints.toNat

instance : DecidablePred Regular := fun _ => inferInstanceAs (Decidable (_ ∨ _))

variable {toSize : Double → Double → ℕ} {σ : DecimationSettings} {hist : List Int16}

theorem decimate_eq_nil_iff (h : hist ≠ []) (mode : DecimationMode) (target : ℕ) :
    Decimator.decimate hist mode target = [] ↔ target < minTarget mode := by
  have hpos := List.length_pos_iff.mpr h
  rw [← List.length_eq_zero_iff]
  cases mode with
  | none =>
    show hist.length = 0 ↔ target < 0
    omega
  | minMax =>
    rw [Decimator.decimate, Decimator.length_minmax, minTarget]
    split_ifs <;> omega
  | lttb =>
    rw [Decimator.decimate, Decimator.length_lttb, minTarget]
    split_ifs <;> omega

theorem singlePiece_of_ne (h : hist ≠ []) :
    singlePiece σ hist = Decimator.decimate hist σ.effectiveMode σ.targetPoints.toNat := by
  rw [singlePiece, if_neg (by rwa [List.isEmpty_iff])]

theorem decResult_of_ne (h : hist ≠ []) :
    decResult σ hist = Decimator.decimate hist σ.effectiveMode σ.targetPoints.toNat := by
  rw [decResult, if_pos (by rwa [Bool.not_eq_true', List.isEmpty_eq_false_iff])]

/-- The two paths give a channel the same vertices at a regular target. -/
theorem gatherPiece_decResult (h : Regular σ) (hist : List Int16) :
    gatherPiece σ.targetPoints (decResult σ hist) = singlePiece σ hist := by
  by_cases hne : hist = []
  · subst hne
    rfl
  · rw [singlePiece_of_ne hne, decResult_of_ne hne, gatherPiece]
    split_ifs with hdec
    · -- nothing is left, so the target is 0 and the padding is empty as well
      rw [List.isEmpty_iff] at hdec
      have hlt := (decimate_eq_nil_iff hne _ _).mp hdec
      have hzero : σ.targetPoints = 0 := h.resolve_right (not_le.mpr hlt)
      rw [hdec, padding, hzero]
      rfl
    · rfl

/-- At any other target the gathering pads what the single path leaves empty. -/
theorem length_singlePiece_lt (h : ¬ Regular σ) (hne : hist ≠ []) :
    (singlePiece σ hist).length < (gatherPiece σ.targetPoints (decResult σ hist)).length := by
  rw [Regular, not_or, not_le] at h
  have hpos : 0 < σ.targetPoints.toNat := by
    rw [Nat.pos_iff_ne_zero]
    exact fun h0 => h.1 (UInt32.toNat.inj h0)
  have hdec := (decimate_eq_nil_iff hne σ.effectiveMode σ.targetPoints.toNat).mpr h.2
  rw [singlePiece_of_ne hne, decResult_of_ne hne, hdec, gatherPiece, if_pos List.isEmpty_nil, padding,
    List.length_replicate]
  exact hpos

theorem length_singlePiece_le (h : ¬ Regular σ) (hist : List Int16) :
    (singlePiece σ hist).length ≤ (gatherPiece σ.targetPoints (decResult σ hist)).length := by
  by_cases hne : hist = []
  · subst hne
    exact le_rfl
  · exact (length_singlePiece_lt h hne).le

theorem sum_ofNat (l : List ℕ) : (l.map UInt32.ofNat).sum = UInt32.ofNat l.sum := by
  induction l with
  | nil => rfl
  | cons x l ih => rw [List.map_cons, List.sum_cons, List.sum_cons, ih, UInt32.ofNat_add]

variable {n N : ℕ} [NeZero n]

/-- The total raw count is zero where the sum of the lengths is a multiple of 2³². -/
theorem rawCount_gather_eq_zero_iff (piece : Fin N → List Int16) (raw : Fin N → ℕ) :
    (gather piece raw).rawCount = 0 ↔ 2 ^ 32 ∣ ((List.finRange N).map raw).sum := by
  have hsum : (gather piece raw).rawCount = UInt32.ofNat ((List.finRange N).map raw).sum := by
    rw [← sum_ofNat, List.map_map]
    rfl
  rw [hsum, ← UInt32.toNat_inj, UInt32.toNat_ofNat', Nat.dvd_iff_mod_eq_zero]
  rfl

variable {rings : Fin N → RingBuffer Int16} {states : Fin n → WorkerState} {order : List (Fin n)}

theorem sum_size_pos (h : ∃ ch, 0 < (rings ch).size) : ((List.finRange N).map fun ch => (rings ch).size).sum ≠ 0 := by
  obtain ⟨ch, hch⟩ := h
  have hle : (rings ch).size ≤ ((List.finRange N).map fun ch => (rings ch).size).sum :=
    List.single_le_sum (fun _ _ => Nat.zero_le _) _ (List.mem_map_of_mem (List.mem_finRange ch))
  omega

/-- **What a cycle with workers leaves and publishes**, in whatever order they work. -/
theorem multiCycle_eq (horder : Complete N order) (hnew : ∃ ch, 0 < (rings ch).size) :
    multiCycle toSize σ rings states order =
      ⟨fun ch => (drainChannel toSize σ rings (historyOf states) ch).ring,
        fun ch => (drainChannel toSize σ rings (historyOf states) ch).history,
        some (gather
          (fun ch => gatherPiece σ.targetPoints
            (decResult σ (drainChannel toSize σ rings (historyOf states) ch).history))
          fun ch => (drainChannel toSize σ rings (historyOf states) ch).history.length)⟩ := by
  have hpass := workersPass_eq toSize σ rings states horder
  rw [multiCycle, if_neg (sum_size_pos hnew), CycleResult.mk.injEq]
  refine ⟨funext fun ch => (hpass ch).1, funext fun ch => (hpass ch).2.1, ?_⟩
  congr 2
  · funext ch
    rw [(hpass ch).2.2.1]
  · funext ch
    rw [(hpass ch).2.2.2]

/-- **When the two paths agree**: at a regular target, unless the lengths of the histories add up to a multiple of
2³². -/
theorem cycle_agrees_iff (horder : Complete N order) (hnew : ∃ ch, 0 < (rings ch).size) :
    multiCycle toSize σ rings states order = singleCycle toSize σ rings (historyOf states) ↔
      Regular σ ∧ ¬ 2 ^ 32 ∣ ((List.finRange N).map fun ch =>
        keptLength (windowOf toSize σ (rings ch)) (rings ch).size (historyOf states ch).length).sum := by
  obtain ⟨c, hc⟩ := hnew
  have hlen (ch : Fin N) : (drainChannel toSize σ rings (historyOf states) ch).history.length =
      keptLength (windowOf toSize σ (rings ch)) (rings ch).size (historyOf states ch).length := length_history_drain ..
  have hne : (drainChannel toSize σ rings (historyOf states) c).history ≠ [] := history_drain_ne_nil _ _ _ hc
  have hpopped : ((List.finRange N).map fun ch =>
      (drainChannel toSize σ rings (historyOf states) ch).popped).sum ≠ 0 := by
    have hle := List.single_le_sum (fun _ _ => Nat.zero_le _) _ (List.mem_map_of_mem (f := fun ch =>
      (drainChannel toSize σ rings (historyOf states) ch).popped) (List.mem_finRange c))
    have hpos : 0 < (drainChannel toSize σ rings (historyOf states) c).popped := popped_drain_pos _ _ _ hc
    omega
  rw [multiCycle_eq horder ⟨c, hc⟩, singleCycle, if_neg (sum_size_pos ⟨c, hc⟩), CycleResult.mk.injEq]
  simp only [hlen, true_and, hpopped, or_false, rawCount_gather_eq_zero_iff]
  constructor
  · intro heq
    split_ifs at heq with hdvd
    refine ⟨?_, hdvd⟩
    by_contra hreg
    have hdata := congrArg (fun frame => frame.data.length) (Option.some.inj heq)
    simp only [gather, List.length_flatten, List.map_map] at hdata
    refine absurd hdata (ne_of_gt (List.sum_lt_sum _ _ (fun ch _ => length_singlePiece_le hreg _) ⟨c, ?_, ?_⟩))
    · exact List.mem_finRange c
    · exact length_singlePiece_lt hreg hne
  · rintro ⟨hreg, hdvd⟩
    rw [if_neg hdvd]
    simp only [gatherPiece_decResult hreg]

/-- A ring of capacity 7 that holds these samples. -/
def ringOf (xs : List Int16) : RingBuffer Int16 := ((RingBuffer.new 8 (by decide)).pushBulk xs).2

/-- The state of a worker before its first cycle. -/
def WorkerState.started : WorkerState := ⟨fun _ => [], fun _ => [], fun _ => 0⟩

/-- MinMax at 1 MSPS over 10 ms. -/
def minMaxAt (target : UInt32) : DecimationSettings := ⟨.minMax, target, ⟨0x412E848000000000⟩, ⟨0x3F847AE147AE147B⟩⟩

/-- Two workers at target 2, the second of which is first. -/
theorem cycle_agrees_two :
    multiCycle (fun _ _ => 10000) (minMaxAt 2) ![ringOf [3, 1, 2], ringOf [5]] (fun _ : Fin 2 => .started) [1, 0] =
      singleCycle (fun _ _ => 10000) (minMaxAt 2) ![ringOf [3, 1, 2], ringOf [5]]
        (historyOf fun _ : Fin 2 => .started) :=
  (cycle_agrees_iff (by unfold Complete; decide) ⟨0, by decide⟩).mpr ⟨by decide, by decide⟩

/-- **At target 1 the workers' path publishes two zeros and the single path nothing of the two samples.** -/
theorem padded_disagrees :
    (multiCycle (fun _ _ => 10000) (minMaxAt 1) ![ringOf [3], ringOf [5]] (fun _ : Fin 2 => .started)
        [0, 1]).published.map (fun frame => (frame.data, frame.perChVtx)) = some ([0, 0], 1) ∧
      (singleCycle (fun _ _ => 10000) (minMaxAt 1) ![ringOf [3], ringOf [5]]
        (historyOf fun _ : Fin 2 => .started)).published.map (fun frame => (frame.data, frame.perChVtx)) =
        some ([], 0) := by
  decide

end Agreement

end DecimationCycle

end Grebe
