import Mathlib.Tactic
import Mathlib.Data.List.ReduceOption
import Grebe.MainLoop

/-!
# Grebe.DrawsInFlight — the draws that the GPU has not finished

`draw_frame` records a draw against the device buffer of the draw slot and submits it with the fence of its frame index;
it waits for that fence before, so that two draws can be in flight.  `upload_streaming` knows of the transfers only: it
takes a slot that is not drawn now, and one of the draws in flight may still read it.

One step is one call of the loop, or a fence that signals.  Draws complete in the order of their submission, so that a
draw is known by its number, as an upload is.  `VkBuffer` handles are numbers, a new one for each buffer.  `torn` is
history: the device buffers that were destroyed or written while a draw in flight read them.

* `inFlight_le_two`: at most two draws are in flight.
* `Clear`: the uploads at which each draw in flight reads the slot still drawn, or an idle slot comes before its slot.
* `untorn_iff`: exactly the runs whose uploads are all clear leave every draw its buffer.
* `drawn_overwritten`: a run that writes a buffer that is drawn.
-/

namespace Grebe

/-- A submitted draw, and what it reads. -/
structure Draw where
  slot : Fin 3
  device : ℕ
deriving DecidableEq

/-- Where the loop is in an iteration. -/
inductive DrawLoopPc
  | upload
  | swap
  | draw
deriving DecidableEq

structure DrawLoop where
  buffers : BufferManager
  /-- the device buffer of each slot -/
  device : Fin 3 → ℕ
  capacity : Fin 3 → ℕ
  /-- how many device buffers were created -/
  created : ℕ
  pc : DrawLoopPc
  currentFrame : Fin 2
  /-- the number of the draw last submitted with each fence, zero before the first one -/
  inFlightFences : Fin 2 → ℕ
  /-- the draws in the order of their submission, `none` for one that binds no buffer -/
  draws : List (Option Draw)
  /-- how many of them are complete -/
  completed : ℕ
  torn : List ℕ

namespace BufferManager

variable {s : BufferManager} {i j : Fin 3}

/-- Neither drawn nor in transfer. -/
def Idle (s : BufferManager) (i : Fin 3) : Prop := some i ≠ s.drawSlot ∧ (s.slots i).transferPending = false

instance : DecidablePred s.Idle := fun _ => inferInstanceAs (Decidable (_ ∧ _))

/-- The first idle slot is taken. -/
theorem findFreeSlot_eq (hi : s.Idle i) (hfirst : ∀ j < i, ¬ s.Idle j) : s.findFreeSlot = i := by
  have hfind : (List.finRange 3).find? (fun i => some i ≠ s.drawSlot ∧ (s.slots i).transferPending = false) = some i := by
    rw [List.find?_eq_some_iff_getElem]
    refine ⟨decide_eq_true hi, i, by simp, by simp, ?_⟩
    intro j hj
    have hidle := hfirst ⟨j, hj.trans i.isLt⟩ hj
    simpa [Idle, or_iff_not_imp_left] using hidle
  rw [findFreeSlot, hfind]

/-- Of a slot that is not in transfer: what makes it the free one. -/
theorem findFreeSlot_eq_iff (hi : (s.slots i).transferPending = false) :
    s.findFreeSlot = i ↔ ¬ (s.drawSlot = some i ∨ ∃ j < i, s.Idle j) := by
  constructor
  · rintro rfl
    rintro (hdrawn | ⟨j, hj, hidle⟩)
    · exact s.findFreeSlot_ne_drawSlot hdrawn.symm
    · -- the first idle slot would have been taken
      obtain ⟨k, hk, hfirst⟩ : ∃ k, s.Idle k ∧ ∀ m < k, ¬ s.Idle m :=
        ⟨Fin.find s.Idle ⟨j, hidle⟩, Fin.find_spec ⟨j, hidle⟩, fun m hm => Fin.find_min ⟨j, hidle⟩ hm⟩
      have hkj : k ≤ j := not_lt.mp fun hlt => hfirst j hlt hidle
      rw [findFreeSlot_eq hk hfirst] at hj
      exact absurd hkj (not_le.mpr hj)
  · intro h
    rw [not_or, not_exists] at h
    exact findFreeSlot_eq ⟨fun hd => h.1 hd.symm, hi⟩ fun j hj hidle => h.2 j ⟨hj, hidle⟩

end BufferManager

namespace DrawLoop

/-! ## Steps -/

section Steps

inductive Label
  /-- the data that is uploaded, empty if there is no display frame -/
  | upload (data : List Int16)
  | swap (done : Fin 3 → ℕ)
  /-- `draw_frame`, which submits nothing when it acquires no image -/
  | draw (acquired : Bool)
  | transferDone
  | drawDone

def INITIAL_CAPACITY : ℕ := 2 * 1024 * 1024

/-- After `init`. -/
def initialized : DrawLoop where
  buffers := .created
  device i := i
  capacity _ := INITIAL_CAPACITY
  created := 3
  pc := .upload
  currentFrame := 0
  inFlightFences _ := 0
  draws := []
  completed := 0
  torn := []

variable (s : DrawLoop)

/-- The draws in flight that read a buffer. -/
def reading : List Draw := (s.draws.drop s.completed).reduceOption

/-- `ensure_slot_capacity`: a buffer that is too small is destroyed. -/
def ensureSlotCapacity (i : Fin 3) (requiredSize : ℕ) : DrawLoop :=
  if s.capacity i ≥ requiredSize then s
  else
    { s with
      device := Function.update s.device i s.created
      capacity := Function.update s.capacity i requiredSize
      created := s.created + 1 }

/-- The device buffer of slot `i` is destroyed or written. -/
def touch (i : Fin 3) : List ℕ :=
  if ∃ d ∈ s.reading, d.device = s.device i then s.torn ++ [s.device i] else s.torn

/-- `upload_streaming`, which writes the free slot or destroys its buffers before. -/
def upload (data : List Int16) : Option DrawLoop :=
  if data = [] then some { s with pc := .swap }
  else
    let i := s.buffers.findFreeSlot
    (s.buffers.upload data).map fun buffers =>
      { s.ensureSlotCapacity i (data.length * 2) with
        buffers := buffers
        pc := .swap
        torn := s.touch i }

/-- What `draw_frame` binds. -/
def bound : Option Draw :=
  if s.buffers.vertexCount > 0 then s.buffers.drawSlot.map fun i => ⟨i, s.device i⟩ else none

/-- `draw_frame`, which waits for the fence of its frame index. -/
def drawFrame (acquired : Bool) : Option DrawLoop :=
  if s.inFlightFences s.currentFrame ≤ s.completed then
    if acquired then
      some { s with
        pc := .upload
        currentFrame := s.currentFrame + 1
        inFlightFences := Function.update s.inFlightFences s.currentFrame (s.draws.length + 1)
        draws := s.draws ++ [s.bound] }
    else some { s with pc := .upload }
  else none

def step : Label → Option DrawLoop
  | .upload data => if s.pc = .upload then s.upload data else none
  | .swap done =>
    if s.pc = .swap then (s.buffers.stepSwap done).map fun buffers => { s with buffers := buffers, pc := .draw }
    else none
  | .draw acquired => if s.pc = .draw then s.drawFrame acquired else none
  | .transferDone => (s.buffers.step .signal).map fun buffers => { s with buffers := buffers }
  | .drawDone => if s.completed < s.draws.length then some { s with completed := s.completed + 1 } else none

/-- The loop, the transfers and the draws. -/
def drawLoop : Lib.Lts DrawLoop Label where
  init s := s = initialized
  step := step

end Steps

/-! ## What a step does, said once -/

section Spec

variable {s s' : DrawLoop}

inductive Step (s : DrawLoop) : Label → DrawLoop → Prop
  | skip (hpc : s.pc = .upload) : Step s (.upload []) { s with pc := .swap }
  | upload {data : List Int16} {buffers : BufferManager} (hpc : s.pc = .upload) (hdata : data ≠ [])
      (hupload : s.buffers.step (.upload data) = some buffers) :
      Step s (.upload data)
        { s.ensureSlotCapacity s.buffers.findFreeSlot (data.length * 2) with
          buffers := buffers
          pc := .swap
          torn := s.touch s.buffers.findFreeSlot }
  | swap {done : Fin 3 → ℕ} {buffers : BufferManager} (hpc : s.pc = .swap)
      (hswap : s.buffers.step (.trySwap done) = some buffers) :
      Step s (.swap done) { s with buffers := buffers, pc := .draw }
  | submit (hpc : s.pc = .draw) (hfence : s.inFlightFences s.currentFrame ≤ s.completed) :
      Step s (.draw true)
        { s with
          pc := .upload
          currentFrame := s.currentFrame + 1
          inFlightFences := Function.update s.inFlightFences s.currentFrame (s.draws.length + 1)
          draws := s.draws ++ [s.bound] }
  /-- The swapchain is out of date. -/
  | outOfDate (hpc : s.pc = .draw) : Step s (.draw false) { s with pc := .upload }
  | transferDone {buffers : BufferManager} (hsignal : s.buffers.step .signal = some buffers) :
      Step s .transferDone { s with buffers := buffers }
  | drawDone (hlt : s.completed < s.draws.length) : Step s .drawDone { s with completed := s.completed + 1 }

theorem step_cases {l : Label} (h : s.step l = some s') : s.Step l s' := by
  rcases l with data | done | acquired | _ | _
  · simp only [step, upload] at h
    split_ifs at h with hpc hdata
    · cases h
      rw [hdata]
      exact .skip hpc
    · obtain ⟨buffers, hb, rfl⟩ := Option.map_eq_some_iff.mp h
      exact .upload hpc hdata hb
  · simp only [step] at h
    split_ifs at h with hpc
    obtain ⟨buffers, hb, rfl⟩ := Option.map_eq_some_iff.mp h
    exact .swap hpc hb
  · simp only [step, drawFrame] at h
    split_ifs at h with hpc hfence hacquired
    · cases h
      rw [hacquired]
      exact .submit hpc hfence
    · cases h
      rw [Bool.eq_false_of_not_eq_true hacquired]
      exact .outOfDate hpc
  · obtain ⟨buffers, hb, rfl⟩ := Option.map_eq_some_iff.mp h
    exact .transferDone hb
  · simp only [step] at h
    split_ifs at h with hlt
    cases h
    exact .drawDone hlt

/-- **The slots of the loop are in a state that calls on a `BufferManager` reach.** -/
theorem reach_buffers (hs : drawLoop.Reachable s) : BufferManager.calls.Reachable s.buffers := by
  refine hs.invariant (I := fun s => BufferManager.calls.Reachable s.buffers) (fun t h0 => ?_)
    fun t l t' h _ hst => ?_
  · rw [show t = initialized from h0]
    exact .init rfl
  · rcases step_cases hst with _ | ⟨_, _, hb⟩ | ⟨_, hb⟩ | _ | _ | hb | _
    case upload | swap | transferDone => exact BufferManager.reachable_step h hb
    all_goals exact h

end Spec

/-! ## What holds in every run -/

section Invariant

variable {s s' : DrawLoop}

/-- The fences are those of the last two draws, and the older one is waited for before the next draw. -/
structure FencesInv (s : DrawLoop) : Prop where
  completed_le : s.completed ≤ s.draws.length
  next : s.inFlightFences s.currentFrame = s.draws.length - 1
  last : s.inFlightFences (s.currentFrame + 1) = s.draws.length
  two : s.draws.length ≤ s.completed + 2

/-- A buffer that is in use has a handle of its own. -/
structure DevicesInv (s : DrawLoop) : Prop where
  injective : Function.Injective s.device
  created : ∀ i, s.device i < s.created
  reading : ∀ d ∈ s.reading, d.device < s.created

theorem succ_ne_self (i : Fin 2) : i + 1 ≠ i := by
  fin_cases i <;> decide

theorem add_two_self (i : Fin 2) : i + 1 + 1 = i := by
  fin_cases i <;> rfl

theorem fencesInv_step {l : Label} (h : FencesInv s) (hst : s.Step l s') : FencesInv s' := by
  rcases hst with _ | _ | _ | ⟨_, hfence⟩ | _ | _ | hlt
  case upload =>
    unfold ensureSlotCapacity
    split_ifs
    all_goals exact ⟨h.completed_le, h.next, h.last, h.two⟩
  case submit =>
    rw [h.next] at hfence
    constructor
    · dsimp only
      rw [List.length_append]
      exact h.completed_le.trans (Nat.le_add_right _ _)
    · dsimp only
      rw [Function.update_of_ne (succ_ne_self _), h.last, List.length_append]
      rfl
    · dsimp only
      rw [add_two_self, Function.update_self, List.length_append]
      rfl
    · dsimp only
      rw [List.length_append, List.length_singleton]
      omega
  case drawDone =>
    have htwo := h.two
    exact ⟨hlt, h.next, h.last, by dsimp only; omega⟩
  all_goals exact ⟨h.completed_le, h.next, h.last, h.two⟩

theorem reach_fencesInv (hs : drawLoop.Reachable s) : FencesInv s := by
  refine hs.invariant (I := FencesInv) (fun t h0 => ?_) fun _ _ _ h _ hst => fencesInv_step h (step_cases hst)
  rw [show t = initialized from h0]
  exact ⟨le_rfl, rfl, rfl, Nat.zero_le _⟩

/-- **At most two draws are in flight.** -/
theorem inFlight_le_two (hs : drawLoop.Reachable s) : (s.draws.drop s.completed).length ≤ 2 := by
  have htwo := (reach_fencesInv hs).two
  rw [List.length_drop]
  omega

/-- What becomes of the draws in flight. -/
theorem reading_cases {l : Label} (hle : s.completed ≤ s.draws.length) (hst : s.Step l s') {d : Draw}
    (hd : d ∈ s'.reading) : d ∈ s.reading ∨ s.bound = some d ∧ l = .draw true := by
  rcases hst with _ | _ | _ | _ | _ | _ | hlt
  case upload =>
    unfold ensureSlotCapacity at hd
    split_ifs at hd
    all_goals exact .inl hd
  case submit =>
    simp only [reading, List.drop_append_of_le_length hle, List.reduceOption_append, List.mem_append] at hd
    rcases hd with hd | hd
    · exact .inl hd
    · rw [List.reduceOption_mem_iff, List.mem_singleton] at hd
      exact .inr ⟨hd.symm, rfl⟩
  case drawDone =>
    simp only [reading, List.reduceOption_mem_iff] at hd ⊢
    rw [← List.tail_drop] at hd
    exact .inl (List.mem_of_mem_tail hd)
  all_goals exact .inl hd

theorem bound_eq {d : Draw} (h : s.bound = some d) : s.buffers.drawSlot = some d.slot ∧ d.device = s.device d.slot := by
  unfold bound at h
  split_ifs at h
  obtain ⟨i, hi, rfl⟩ := Option.map_eq_some_iff.mp h
  exact ⟨hi, rfl⟩

/-- Only the buffer of slot `i` is created anew, if it is. -/
theorem ensureSlotCapacity_cases (s : DrawLoop) (i : Fin 3) (n : ℕ) :
    ((s.ensureSlotCapacity i n).device = s.device ∧ (s.ensureSlotCapacity i n).created = s.created) ∨
      ((s.ensureSlotCapacity i n).device = Function.update s.device i s.created ∧
        (s.ensureSlotCapacity i n).created = s.created + 1) := by
  unfold ensureSlotCapacity
  split_ifs
  · exact .inl ⟨rfl, rfl⟩
  · exact .inr ⟨rfl, rfl⟩

theorem injective_update {f : Fin 3 → ℕ} (hf : Function.Injective f) {n : ℕ} (hlt : ∀ i, f i < n) (i : Fin 3) :
    Function.Injective (Function.update f i n) := by
  intro j k hjk
  by_cases hj : j = i
  · by_cases hk : k = i
    · rw [hj, hk]
    · rw [hj, Function.update_self, Function.update_of_ne hk] at hjk
      exact absurd hjk (hlt k).ne'
  · by_cases hk : k = i
    · rw [hk, Function.update_self, Function.update_of_ne hj] at hjk
      exact absurd hjk (hlt j).ne
    · rw [Function.update_of_ne hj, Function.update_of_ne hk] at hjk
      exact hf hjk

theorem devicesInv_step {l : Label} (hle : s.completed ≤ s.draws.length) (h : DevicesInv s) (hst : s.Step l s') :
    DevicesInv s' := by
  have hreading : ∀ d ∈ s'.reading, d.device < s.created := by
    intro d hd
    rcases reading_cases hle hst hd with hd | ⟨hbound, -⟩
    · exact h.reading d hd
    · rw [(bound_eq hbound).2]
      exact h.created _
  rcases hst with _ | _ | _ | _ | _ | _ | _
  case upload data _ _ _ _ =>
    rcases s.ensureSlotCapacity_cases s.buffers.findFreeSlot (data.length * 2) with ⟨hdev, hnew⟩ | ⟨hdev, hnew⟩
    · refine ⟨?_, ?_, ?_⟩
      all_goals dsimp only
      · rw [hdev]
        exact h.injective
      · rw [hdev, hnew]
        exact h.created
      · rw [hnew]
        exact hreading
    · refine ⟨?_, ?_, ?_⟩
      all_goals dsimp only
      · rw [hdev]
        exact injective_update h.injective h.created _
      · rw [hdev, hnew]
        intro j
        by_cases hj : j = s.buffers.findFreeSlot
        · rw [hj, Function.update_self]
          exact Nat.lt_succ_self _
        · rw [Function.update_of_ne hj]
          exact (h.created j).trans (Nat.lt_succ_self _)
      · rw [hnew]
        exact fun d hd => (hreading d hd).trans (Nat.lt_succ_self _)
  all_goals exact ⟨h.injective, h.created, hreading⟩

theorem reach_devicesInv (hs : drawLoop.Reachable s) : DevicesInv s := by
  refine hs.invariant_of (I := DevicesInv) (J := FencesInv) (fun _ h => reach_fencesInv h) (fun t h0 => ?_)
    fun _ _ _ hf h _ hst => devicesInv_step hf.completed_le h (step_cases hst)
  rw [show t = initialized from h0]
  exact ⟨Fin.val_injective, fun i => i.isLt, nofun⟩

end Invariant

/-! ## The slots that are written -/

section Clear

variable {s s' : DrawLoop}

/-- Each draw in flight reads the slot that is still drawn, or there is an idle slot before it. -/
def Clear (s : DrawLoop) : Label → Prop
  | .upload data => data = [] ∨ ∀ d ∈ s.reading, s.buffers.drawSlot = some d.slot ∨ ∃ j < d.slot, s.buffers.Idle j
  | _ => True

instance : ∀ (s : DrawLoop) (l : Label), Decidable (Clear s l)
  | s, .upload data => inferInstanceAs (Decidable (data = [] ∨ ∀ d ∈ s.reading,
      s.buffers.drawSlot = some d.slot ∨ ∃ j < d.slot, s.buffers.Idle j))
  | _, .swap _ => inferInstanceAs (Decidable True)
  | _, .draw _ => inferInstanceAs (Decidable True)
  | _, .transferDone => inferInstanceAs (Decidable True)
  | _, .drawDone => inferInstanceAs (Decidable True)

/-- Each draw in flight reads the buffer of its slot, and nothing is on its way there. -/
def Intact (s : DrawLoop) : Prop :=
  ∀ d ∈ s.reading, d.device = s.device d.slot ∧ (s.buffers.slots d.slot).transferPending = false

/-- A clear upload goes to a slot that no draw in flight reads. -/
theorem Intact.ne_free (h : Intact s) {data : List Int16} (hdata : data ≠ []) (hc : Clear s (.upload data)) {d : Draw}
    (hd : d ∈ s.reading) : d.slot ≠ s.buffers.findFreeSlot := fun heq =>
  (BufferManager.findFreeSlot_eq_iff (h d hd).2).mp heq.symm (hc.resolve_left hdata d hd)

theorem intact_step {l : Label} (hf : FencesInv s) (hb : BufferManager.SlotsInv s.buffers) (h : Intact s)
    (hc : Clear s l) (hst : s.Step l s') : Intact s' := by
  intro d hd
  rcases reading_cases hf.completed_le hst hd with hold | ⟨hbound, rfl⟩
  · obtain ⟨hdevice, hpending⟩ := h d hold
    rcases hst with _ | ⟨_, hdata, hupload⟩ | ⟨_, hswap⟩ | _ | _ | hsignal | _
    case upload data _ _ =>
      have hne := h.ne_free hdata hc hold
      constructor
      · dsimp only
        rcases s.ensureSlotCapacity_cases s.buffers.findFreeSlot (data.length * 2) with ⟨hdev, -⟩ | ⟨hdev, -⟩
        · rw [hdev, hdevice]
        · rw [hdev, Function.update_of_ne hne, hdevice]
      · rcases BufferManager.step_cases hupload with _ | _ | _ | _ | _
        case skip => exact absurd rfl hdata
        case upload =>
          rw [← hpending]
          exact congrArg _ (BufferManager.setSlot_other _ _ hne)
    case swap =>
      refine ⟨hdevice, Bool.eq_false_of_not_eq_true ?_⟩
      intro ht
      rcases BufferManager.step_cases hswap with _ | _ | _ | _ | _
      case miss => exact absurd (ht.symm.trans hpending) (by decide)
      case swap => exact absurd ((BufferManager.pending_polled d.slot).mp ht).1 (by simp [hpending])
    case transferDone =>
      rcases BufferManager.step_cases hsignal with _ | _ | _ | _ | _
      exact ⟨hdevice, hpending⟩
    all_goals exact ⟨hdevice, hpending⟩
  · obtain ⟨hdrawn, hdevice⟩ := bound_eq hbound
    have hpending := (hb.drawn d.slot hdrawn).1
    rcases hst with _ | _ | _ | _ | _ | _ | _
    exact ⟨hdevice, hpending⟩

theorem reach_intact (hs : drawLoop.Reach Clear s) : Intact s := by
  refine hs.invariant_of (I := Intact) (J := fun s => FencesInv s ∧ BufferManager.SlotsInv s.buffers)
    (fun _ h => ⟨reach_fencesInv h.reachable, BufferManager.reach_slotsInv (reach_buffers h.reachable)⟩)
    (fun t h0 => ?_) fun _ _ _ hJ h hc hst => intact_step hJ.1 hJ.2 h hc (step_cases hst)
  rw [show t = initialized from h0]
  exact nofun

/-- **No draw in flight reads the buffer of the free slot exactly when the upload is clear.** -/
theorem unread_iff (hs : drawLoop.Reach Clear s) {data : List Int16} (hdata : data ≠ []) :
    (∀ d ∈ s.reading, d.device ≠ s.device s.buffers.findFreeSlot) ↔ Clear s (.upload data) := by
  have hintact := reach_intact hs
  have hinj := (reach_devicesInv hs.reachable).injective
  rw [Clear, or_iff_right hdata]
  apply forall₂_congr
  intro d hd
  obtain ⟨hdevice, hpending⟩ := hintact d hd
  rw [hdevice, Ne, hinj.eq_iff, eq_comm, BufferManager.findFreeSlot_eq_iff hpending, not_not]

/-- **Exactly the runs whose uploads are clear leave every draw its buffer**: none is destroyed or written while a draw in
flight reads it. -/
theorem untorn_iff (hs : drawLoop.Reachable s) : s.torn = [] ↔ drawLoop.Reach Clear s := by
  have hiff := hs.unmarked_iff Clear (fun s => s.torn ≠ []) ?_ ?_ ?_
  · rwa [not_not] at hiff
  · intro t h0
    rw [show t = initialized from h0]
    exact not_not.mpr rfl
  · intro t l t' hst htorn
    rcases step_cases hst with _ | _ | _ | _ | _ | _ | _
    case upload =>
      dsimp only [touch]
      split_ifs
      · simp
      · exact htorn
    all_goals exact htorn
  · intro t l t' ht htorn hst
    rw [not_not] at htorn
    rcases step_cases hst with _ | ⟨_, hdata, _⟩ | _ | _ | _ | _ | _
    case skip => simp [htorn, Clear]
    case upload data _ =>
      rw [← unread_iff ht hdata]
      dsimp only [touch]
      split_ifs with htouch
      · obtain ⟨d, hd, heq⟩ := htouch
        exact ⟨fun _ hall => hall d hd heq, fun _ => by simp⟩
      · exact ⟨fun hne => absurd htorn hne, fun hall => absurd (fun d hd heq => htouch ⟨d, hd, heq⟩) hall⟩
    all_goals simp [htorn, Clear]

/-- **When a draw keeps its buffer until it is complete**: over the whole run, and at each upload. -/
theorem draws_keep_buffers (hs : drawLoop.Reachable s) :
    (s.torn = [] ↔ drawLoop.Reach Clear s) ∧
      (drawLoop.Reach Clear s → ∀ data, data ≠ [] →
        ((∀ d ∈ s.reading, d.device ≠ s.device s.buffers.findFreeSlot) ↔ Clear s (.upload data))) :=
  ⟨untorn_iff hs, fun hclear _ hdata => unread_iff hclear hdata⟩

/-- The transfers up to `c` complete before `try_swap` polls. -/
def swapAt (c : ℕ) : Label := .swap fun _ => c

/-- Two iterations that draw slot 0, and the upload of a third, into slot 2. -/
theorem draws_keep_buffers_two :
    ∃ s, drawLoop.Reachable s ∧ s.reading = [⟨0, 0⟩, ⟨0, 0⟩] ∧ (s.torn = [] ↔ drawLoop.Reach Clear s) := by
  obtain ⟨s, hs, hreading⟩ : ∃ s, drawLoop.exec initialized [.upload [1], .transferDone, swapAt 1, .draw true, .upload [2],
      swapAt 1, .draw true, .upload [3]] = some s ∧ s.reading = [⟨0, 0⟩, ⟨0, 0⟩] := ⟨_, rfl, rfl⟩
  have hreach : drawLoop.Reachable s := Lib.Lts.reachable_of_exec _ rfl hs
  exact ⟨s, hreach, hreading, (draws_keep_buffers hreach).1⟩

/-- **The fourth upload writes slot 0, which the second draw still reads.**  The transfers and the draws complete in the order
of their submission, as on one queue. -/
theorem drawn_overwritten :
    ∃ s, drawLoop.Reachable s ∧ s.torn = [0] ∧ s.reading = [⟨0, 0⟩, ⟨1, 1⟩] := by
  refine ⟨_, Lib.Lts.reachable_of_exec (s := initialized) [.upload [1], .transferDone, swapAt 1, .draw true, .upload [2],
    swapAt 1, .draw true, .drawDone, .upload [3], .transferDone, swapAt 2, .draw true, .upload [4]] rfl (by rfl), ?_⟩
  exact ⟨rfl, rfl⟩

end Clear

end DrawLoop

end Grebe
