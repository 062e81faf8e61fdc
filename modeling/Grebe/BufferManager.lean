import Mathlib.Tactic
import Grebe.Lib.Lts

/-!
# Grebe.BufferManager — three slots between the upload and the draw

`upload_streaming` takes a slot that is neither drawn nor in transfer, and starts a transfer into it; where there is none it
waits for one.  `try_swap` polls the fences of the slots in transfer, one slot after the other, and draws from the last
one it finds signalled: the one of the highest index, not the newest one.

One step is one call, or one fence that signals.  Transfers complete in the order of their submission, so a fence is
known by the number of its upload, and the fences that signal while `try_swap` polls come with its label.  `upload`,
`submitted`, `completed` and `swaps` are history that stands for the fences and for what was drawn.

* `InOrder`: the calls of `try_swap` that find the newest completed upload in the slot of the highest index.
* `promotes_iff`: those are the calls that promote the newest completed upload.
* `newest_promoted`: what holds of the uploads displayed in the runs whose steps meet `InOrder`.
* `older_promoted`: a run in which an older upload is displayed.
-/

namespace Grebe

/-- A slot: `upload` is the number of the last transfer into it, zero before the first one. -/
structure BufferSlot where
  vertexCount : UInt32 := 0
  device : List Int16 := []
  transferPending : Bool := false
  upload : ℕ := 0

structure BufferManager where
  slots : Fin 3 → BufferSlot
  drawSlot : Option (Fin 3)
  /-- how many transfers were submitted -/
  submitted : ℕ
  /-- how many of them are complete -/
  completed : ℕ
  /-- for each `try_swap` that found a completed transfer, the upload then drawn and `completed` -/
  swaps : List (ℕ × ℕ)

namespace BufferManager

/-! ## Steps -/

section Steps

inductive Label
  | upload (data : List Int16)
  /-- `done i` transfers are complete when the fence of slot `i` is polled. -/
  | trySwap (done : Fin 3 → ℕ)
  | signal

/-- After `init`. -/
def created : BufferManager where
  slots _ := {}
  drawSlot := none
  submitted := 0
  completed := 0
  swaps := []

variable (s : BufferManager)

/-- The wait for slot `i` in `find_free_slot` is in `upload`. -/
def findFreeSlot : Fin 3 :=
  match (List.finRange 3).find? fun i => some i ≠ s.drawSlot ∧ (s.slots i).transferPending = false with
  | some i => i
  | none =>
    match (List.finRange 3).find? fun i => some i ≠ s.drawSlot with
    | some i => i
    | none => 0

def setSlot (i : Fin 3) (slot : BufferSlot) : BufferManager := { s with slots := Function.update s.slots i slot }

/-- `upload_streaming`, which waits until the fence of the slot has signalled. -/
def upload (data : List Int16) : Option BufferManager :=
  if data = [] then some s
  else
    let i := s.findFreeSlot
    if (s.slots i).upload ≤ s.completed then
      some { s.setSlot i ⟨UInt32.ofNat data.length, data, true, s.submitted + 1⟩ with submitted := s.submitted + 1 }
    else none

/-- Slot `i` is in transfer, and `done` says that its fence has signalled. -/
def Found (done : Fin 3 → ℕ) (i : Fin 3) : Prop := (s.slots i).transferPending = true ∧ (s.slots i).upload ≤ done i

instance (done : Fin 3 → ℕ) : DecidablePred (s.Found done) := fun _ => inferInstanceAs (Decidable (_ ∧ _))

/-- One round of the loop of `try_swap`, with `best_slot`. -/
def poll (done : Fin 3 → ℕ) (r : BufferManager × Option (Fin 3)) (i : Fin 3) : BufferManager × Option (Fin 3) :=
  if r.1.Found done i then (r.1.setSlot i { r.1.slots i with transferPending := false }, some i) else r

/-- `try_swap`: the state after it, and what it returns. -/
def trySwap (done : Fin 3 → ℕ) : BufferManager × Bool :=
  match (List.finRange 3).foldl (poll done) (s, none) with
  | (s', some best) =>
    if some best ≠ s.drawSlot then ({ s' with drawSlot := some best }, true) else (s', false)
  | (s', none) => (s', false)

/-- The upload in the slot that is drawn, zero if there is none. -/
def drawn : ℕ := s.drawSlot.elim 0 fun i => (s.slots i).upload

/-- `done` is a course of the transfers during `try_swap`. -/
def Course (done : Fin 3 → ℕ) : Prop :=
  s.completed ≤ done 0 ∧ done 0 ≤ done 1 ∧ done 1 ≤ done 2 ∧ done 2 ≤ s.submitted

instance (done : Fin 3 → ℕ) : Decidable (s.Course done) := inferInstanceAs (Decidable (_ ∧ _))

/-- `try_swap`, with the history of what was drawn. -/
def stepSwap (done : Fin 3 → ℕ) : Option BufferManager :=
  if s.Course done then
    let s' := (s.trySwap done).1
    some { s' with
      completed := done 2
      swaps := if ∃ i, s.Found done i then s.swaps ++ [(s'.drawn, done 2)] else s.swaps }
  else none

def step : Label → Option BufferManager
  | .upload data => s.upload data
  | .trySwap done => s.stepSwap done
  | .signal => if s.completed < s.submitted then some { s with completed := s.completed + 1 } else none

/-- The calls on a `BufferManager` and the fences. -/
def calls : Lib.Lts BufferManager Label where
  init s := s = created
  step := step

end Steps

/-! ## What a call does, said once -/

section Spec

variable {s s' : BufferManager} {done : Fin 3 → ℕ}

@[simp] theorem setSlot_self (s : BufferManager) (i : Fin 3) (slot : BufferSlot) : (s.setSlot i slot).slots i = slot :=
  Function.update_self ..

theorem setSlot_other (s : BufferManager) {i j : Fin 3} (slot : BufferSlot) (h : j ≠ i) :
    (s.setSlot i slot).slots j = s.slots j :=
  Function.update_of_ne h ..

/-- **`find_free_slot` never hands out the slot being drawn.** -/
theorem findFreeSlot_ne_drawSlot (s : BufferManager) : some s.findFreeSlot ≠ s.drawSlot := by
  unfold findFreeSlot
  split
  · rename_i i hi
    have h := List.find?_some hi
    simp only [decide_eq_true_eq] at h
    exact h.1
  · split
    · rename_i i hi
      have h := List.find?_some hi
      simpa only [decide_eq_true_eq] using h
    · rename_i hnone
      rw [List.find?_eq_none] at hnone
      have h0 := hnone 0 (List.mem_finRange 0)
      have h1 := hnone 1 (List.mem_finRange 1)
      simp only [decide_eq_true_eq, not_not] at h0 h1
      exact absurd (h0.trans h1.symm) (by decide)

/-- A poll leaves the other slots as they were. -/
theorem found_setSlot_other (s : BufferManager) {i j : Fin 3} (slot : BufferSlot) (h : j ≠ i) :
    (s.setSlot i slot).Found done j ↔ s.Found done j := by
  rw [Found, Found, setSlot_other s slot h]

/-- Polling the slots `l`: those found are no longer in transfer, and the last one found is the best one. -/
theorem foldl_poll (l : List (Fin 3)) (hl : l.Nodup) (s : BufferManager) (best : Option (Fin 3)) :
    l.foldl (poll done) (s, best) =
      ({ s with slots := fun i =>
          if i ∈ l ∧ s.Found done i then { s.slots i with transferPending := false } else s.slots i },
        (l.filter (s.Found done)).getLast?.or best) := by
  induction l generalizing s best with
  | nil => simp
  | cons i l ih =>
    obtain ⟨hi, hl⟩ := List.nodup_cons.mp hl
    have hne {j : Fin 3} (hj : j ∈ l) : j ≠ i := fun h => hi (h ▸ hj)
    rw [List.foldl_cons, poll]
    by_cases hfound : s.Found done i
    · rw [if_pos hfound, ih hl]
      refine Prod.ext ?_ ?_
      · refine congrArg (fun slots => { s with slots := slots }) (funext ?_)
        intro j
        by_cases hj : j = i
        · subst hj
          rw [if_neg fun h => hi h.1, setSlot_self, if_pos ⟨List.mem_cons_self, hfound⟩]
        · simp only [setSlot_other _ _ hj, found_setSlot_other _ _ hj, List.mem_cons, hj, false_or]
      · have hfilter : l.filter ((s.setSlot i { s.slots i with transferPending := false }).Found done) =
            l.filter (s.Found done) :=
          List.filter_congr fun j hj => by simp only [found_setSlot_other _ _ (hne hj)]
        simp only [hfilter, List.filter_cons_of_pos (p := fun j => decide (s.Found done j)) (by simpa using hfound),
          List.getLast?_cons]
        cases (l.filter fun j => decide (s.Found done j)).getLast? <;> rfl
    · rw [if_neg hfound, ih hl]
      refine Prod.ext ?_ ?_
      · refine congrArg (fun slots => { s with slots := slots }) (funext ?_)
        intro j
        by_cases hj : j = i
        · subst hj
          rw [if_neg fun h => hi h.1, if_neg fun h => hfound h.2]
        · simp only [List.mem_cons, hj, false_or]
      · rw [List.filter_cons_of_neg (by simpa using hfound)]

/-- The slot that `try_swap` finds last. -/
def Best (s : BufferManager) (done : Fin 3 → ℕ) (i : Fin 3) : Prop :=
  s.Found done i ∧ ∀ j, s.Found done j → j ≤ i

theorem exists_best (h : ∃ i, s.Found done i) : ∃ i, s.Best done i := by
  obtain ⟨i, hi⟩ := h
  obtain ⟨b, hb, hmax⟩ := (Finset.univ.filter (s.Found done)).exists_max_image id ⟨i, by simpa using hi⟩
  exact ⟨b, by simpa using hb, fun j hj => hmax j (by simpa using hj)⟩

theorem getLast?_found {b : Fin 3} (hb : s.Best done b) :
    ((List.finRange 3).filter (s.Found done)).getLast? = some b := by
  have hmem : b ∈ (List.finRange 3).filter (s.Found done) := by simp [hb.1]
  have hsorted : ((List.finRange 3).filter (s.Found done)).Pairwise (· < ·) :=
    List.Pairwise.filter _ (List.pairwise_lt_finRange 3)
  obtain ⟨init, last, hsplit⟩ := List.eq_nil_or_concat .. |>.resolve_left (List.ne_nil_of_mem hmem)
  rw [hsplit] at hmem hsorted ⊢
  have hlast : last ∈ (List.finRange 3).filter (s.Found done) := by simp [hsplit]
  have hle : last ≤ b := hb.2 last (by simpa using hlast)
  rw [List.concat_eq_append] at hmem hsorted ⊢
  rcases List.mem_append.mp hmem with h | h
  · exact absurd ((List.pairwise_append.mp hsorted).2.2 b h last (by simp)) (not_lt.mpr hle)
  · rw [List.getLast?_append, List.mem_singleton.mp h]
    rfl

/-- The slots after `try_swap`. -/
def polled (s : BufferManager) (done : Fin 3 → ℕ) : BufferManager :=
  { s with slots := fun i => if s.Found done i then { s.slots i with transferPending := false } else s.slots i }

@[simp] theorem upload_polled (s : BufferManager) (done : Fin 3 → ℕ) (i : Fin 3) :
    ((s.polled done).slots i).upload = (s.slots i).upload := by
  simp only [polled]
  split_ifs <;> rfl

theorem pending_polled (i : Fin 3) : ((s.polled done).slots i).transferPending = true ↔
    (s.slots i).transferPending = true ∧ ¬ s.Found done i := by
  simp only [polled]
  split_ifs with h
  · simp [h]
  · simp [h]

/-- `try_swap` that finds nothing leaves the slots as they are. -/
theorem trySwap_of_none (h : ¬ ∃ i, s.Found done i) : s.trySwap done = (s, false) := by
  have hfilter : (List.finRange 3).filter (s.Found done) = [] := by
    rw [List.filter_eq_nil_iff]
    exact fun i _ => by simpa using fun hi => h ⟨i, hi⟩
  have hslots : (fun i => if i ∈ List.finRange 3 ∧ s.Found done i then
      { s.slots i with transferPending := false } else s.slots i) = s.slots :=
    funext fun i => if_neg fun hi => h ⟨i, hi.2⟩
  rw [trySwap, foldl_poll _ (List.nodup_finRange 3), hfilter, hslots]
  rfl

/-- `try_swap` draws from the last slot that it finds. -/
theorem trySwap_of_best {b : Fin 3} (hb : s.Best done b) :
    (s.trySwap done).1 = { s.polled done with drawSlot := some b } := by
  have hslots : (fun i => if i ∈ List.finRange 3 ∧ s.Found done i then
      { s.slots i with transferPending := false } else s.slots i) = (s.polled done).slots :=
    funext fun i => by simp only [polled, List.mem_finRange, true_and]
  rw [trySwap, foldl_poll _ (List.nodup_finRange 3), getLast?_found hb, hslots]
  simp only [Option.some_or]
  split_ifs with hd
  · rfl
  · rw [not_not] at hd
    simp [polled, ← hd]

/-- What one step does. -/
inductive Step (s : BufferManager) : Label → BufferManager → Prop
  | skip : Step s (.upload []) s
  | upload {data : List Int16} (hdata : data ≠ []) (hfence : (s.slots s.findFreeSlot).upload ≤ s.completed) :
      Step s (.upload data)
        { s.setSlot s.findFreeSlot ⟨UInt32.ofNat data.length, data, true, s.submitted + 1⟩ with
          submitted := s.submitted + 1 }
  /-- `try_swap` finds no complete transfer. -/
  | miss {done : Fin 3 → ℕ} (hdone : s.Course done) (hnone : ¬ ∃ i, s.Found done i) :
      Step s (.trySwap done) { s with completed := done 2 }
  /-- `try_swap` draws from slot `b`. -/
  | swap {done : Fin 3 → ℕ} {b : Fin 3} (hdone : s.Course done) (hb : s.Best done b) :
      Step s (.trySwap done)
        { s.polled done with
          drawSlot := some b
          completed := done 2
          swaps := s.swaps ++ [((s.slots b).upload, done 2)] }
  | signal (hlt : s.completed < s.submitted) : Step s .signal { s with completed := s.completed + 1 }

theorem step_cases {l : Label} (h : s.step l = some s') : s.Step l s' := by
  rcases l with data | done | _
  · simp only [step, upload] at h
    split_ifs at h with hdata hfence
    · cases h
      rw [hdata]
      exact .skip
    · cases h
      exact .upload hdata hfence
  · simp only [step, stepSwap] at h
    split_ifs at h with hdone hfound
    · obtain ⟨b, hb⟩ := exists_best hfound
      rw [trySwap_of_best hb] at h
      cases h
      have hdrawn : drawn { s.polled done with drawSlot := some b } = (s.slots b).upload := upload_polled s done b
      rw [hdrawn]
      exact .swap hdone hb
    · rw [trySwap_of_none hfound] at h
      cases h
      exact .miss hdone hfound
  · simp only [step] at h
    split_ifs at h with hlt
    cases h
    exact .signal hlt

/-- Only an upload writes a slot. -/
theorem Step.slot_eq {l : Label} (hst : s.Step l s') (hl : ∀ data, l ≠ .upload data) :
    s'.submitted = s.submitted ∧ ∀ i, (s'.slots i).upload = (s.slots i).upload ∧
      (s'.slots i).device = (s.slots i).device ∧ (s'.slots i).vertexCount = (s.slots i).vertexCount := by
  rcases hst with _ | _ | _ | _ | _
  case skip => exact absurd rfl (hl [])
  case upload data _ _ => exact absurd rfl (hl data)
  case swap done b _ _ =>
    refine ⟨rfl, fun i => ⟨upload_polled s done i, ?_, ?_⟩⟩
    all_goals
      simp only [polled]
      split_ifs <;> rfl
  all_goals exact ⟨rfl, fun _ => ⟨rfl, rfl, rfl⟩⟩

end Spec

/-! ## What holds in every run -/

section Invariant

variable {s s' : BufferManager} {done : Fin 3 → ℕ}

theorem Course.le_last (h : s.Course done) (i : Fin 3) : done i ≤ done 2 := by
  obtain ⟨-, h1, h2, -⟩ := h
  fin_cases i
  · exact h1.trans h2
  · exact h2
  · exact le_rfl

theorem Course.le_first (h : s.Course done) : s.completed ≤ done 2 :=
  h.1.trans (h.le_last 0)

/-- What holds of the slots and of what was drawn. -/
structure SlotsInv (s : BufferManager) : Prop where
  completed_le : s.completed ≤ s.submitted
  upload_le : ∀ i, (s.slots i).upload ≤ s.submitted
  distinct : ∀ i j, (s.slots i).upload = (s.slots j).upload → (s.slots i).upload ≠ 0 → i = j
  pending : ∀ i, (s.slots i).transferPending = true → (s.slots i).upload ≠ 0
  drawn : ∀ d, s.drawSlot = some d → (s.slots d).transferPending = false ∧ (s.slots d).upload ≠ 0
  last : s.swaps.getLast?.map Prod.fst = s.drawSlot.map fun d => (s.slots d).upload
  /-- What was drawn was complete, and is not in transfer again. -/
  shown : ∀ p ∈ s.swaps, p.1 ≤ p.2 ∧ p.2 ≤ s.completed ∧
    ∀ i, (s.slots i).transferPending = true → (s.slots i).upload ≠ p.1

theorem slotsInv_created : SlotsInv created where
  completed_le := le_rfl
  upload_le _ := le_rfl
  distinct _ _ _ h := absurd rfl h
  pending _ h := by cases h
  drawn _ h := by cases h
  last := rfl
  shown _ h := by cases h

/-- A new transfer into a slot that is not drawn. -/
theorem SlotsInv.upload (h : SlotsInv s) {i : Fin 3} (hi : some i ≠ s.drawSlot) (data : List Int16) :
    SlotsInv { s.setSlot i ⟨UInt32.ofNat data.length, data, true, s.submitted + 1⟩ with
      submitted := s.submitted + 1 } := by
  set slot : BufferSlot := ⟨UInt32.ofNat data.length, data, true, s.submitted + 1⟩
  have hself : (s.setSlot i slot).slots i = slot := setSlot_self ..
  have hother (j : Fin 3) (hj : j ≠ i) : (s.setSlot i slot).slots j = s.slots j := setSlot_other s slot hj
  have hnew (j : Fin 3) : (s.slots j).upload ≠ s.submitted + 1 := by have := h.upload_le j; omega
  refine ⟨Nat.le_succ_of_le h.completed_le, fun j => ?_, fun j k hjk hj0 => ?_, fun j hj => ?_, fun d hd => ?_, ?_,
    fun p hp => ⟨(h.shown p hp).1, (h.shown p hp).2.1, fun j hj => ?_⟩⟩
  all_goals dsimp only at *
  · by_cases hj : j = i
    · rw [hj, hself]
    · rw [hother j hj]
      exact Nat.le_succ_of_le (h.upload_le j)
  · by_cases hj : j = i
    · by_cases hk : k = i
      · rw [hj, hk]
      · rw [hj, hself, hother k hk] at hjk
        exact absurd hjk.symm (hnew k)
    · by_cases hk : k = i
      · rw [hk, hself, hother j hj] at hjk
        exact absurd hjk (hnew j)
      · rw [hother j hj] at hjk hj0
        rw [hother k hk] at hjk
        exact h.distinct j k hjk hj0
  · by_cases hji : j = i
    · rw [hji, hself]
      exact Nat.succ_ne_zero _
    · rw [hother j hji] at hj ⊢
      exact h.pending j hj
  · have hdi : d ≠ i := fun hdi => hi (hdi ▸ hd.symm)
    rw [hother d hdi]
    exact h.drawn d hd
  · refine h.last.trans (Option.map_congr ?_)
    intro d hd
    rw [hother d fun hdi => hi (hdi ▸ hd.symm)]
  · by_cases hji : j = i
    · rw [hji, hself]
      have := (h.shown p hp).1.trans ((h.shown p hp).2.1.trans h.completed_le)
      exact fun h0 => by simp only [slot] at h0; omega
    · rw [hother j hji] at hj ⊢
      exact (h.shown p hp).2.2 j hj

/-- More transfers complete. -/
theorem SlotsInv.complete (h : SlotsInv s) {c : ℕ} (hle : s.completed ≤ c) (hc : c ≤ s.submitted) :
    SlotsInv { s with completed := c } :=
  ⟨hc, h.upload_le, h.distinct, h.pending, h.drawn, h.last,
    fun p hp => ⟨(h.shown p hp).1, (h.shown p hp).2.1.trans hle, (h.shown p hp).2.2⟩⟩

/-- The last slot that `try_swap` finds is drawn. -/
theorem SlotsInv.swap (h : SlotsInv s) (hdone : s.Course done) {b : Fin 3} (hb : s.Best done b) :
    SlotsInv { s.polled done with
      drawSlot := some b
      completed := done 2
      swaps := s.swaps ++ [((s.slots b).upload, done 2)] } := by
  refine ⟨hdone.2.2.2, fun i => ?_, fun i j hij hi0 => ?_, fun i hi => ?_, fun d hd => ?_, ?_, fun p hp => ?_⟩
  all_goals dsimp only at *
  · rw [upload_polled]
    exact h.upload_le i
  · rw [upload_polled] at hij hi0
    rw [upload_polled] at hij
    exact h.distinct i j hij hi0
  · rw [upload_polled]
    exact h.pending i (pending_polled i |>.mp hi).1
  · obtain rfl : b = d := Option.some.inj hd
    rw [upload_polled]
    exact ⟨Bool.eq_false_of_not_eq_true fun ht => (pending_polled b |>.mp ht).2 hb.1, h.pending b hb.1.1⟩
  · rw [List.getLast?_append]
    simp
  · rcases List.mem_append.mp hp with hp | hp
    · obtain ⟨hle, hc, hne⟩ := h.shown p hp
      refine ⟨hle, hc.trans hdone.le_first, ?_⟩
      intro i hi
      rw [upload_polled]
      exact hne i (pending_polled i |>.mp hi).1
    · rw [List.mem_singleton.mp hp]
      refine ⟨hb.1.2.trans (hdone.le_last b), le_rfl, ?_⟩
      intro i hi heq
      rw [upload_polled] at heq
      have hpend := pending_polled i |>.mp hi
      -- the uploads in transfer are distinct, and the drawn one was found
      exact hpend.2 (h.distinct i b heq (h.pending i hpend.1) ▸ hb.1)

/-- **One step keeps the invariant of the slots.** -/
theorem slotsInv_step {l : Label} (h : SlotsInv s) (hst : s.Step l s') : SlotsInv s' := by
  rcases hst with _ | _ | ⟨hdone, _⟩ | ⟨hdone, hb⟩ | hlt
  case skip => exact h
  case upload => exact h.upload s.findFreeSlot_ne_drawSlot _
  case miss => exact h.complete hdone.le_first hdone.2.2.2
  case swap => exact h.swap hdone hb
  case signal => exact h.complete (Nat.le_succ _) hlt

theorem reachable_step {l : Label} (hs : calls.Reachable s) (hst : s.step l = some s') : calls.Reachable s' :=
  .step hs trivial hst

theorem reach_slotsInv (hs : calls.Reachable s) : SlotsInv s := by
  refine hs.invariant (I := SlotsInv) (fun t h0 => ?_) fun _ _ _ h _ hst => slotsInv_step h (step_cases hst)
  rw [show t = created from h0]
  exact slotsInv_created

end Invariant

/-! ## The newest upload -/

section Newest

variable {s s' : BufferManager} {done : Fin 3 → ℕ}

/-- Of the slots that `try_swap` finds, one whose upload is not the newest complete one has a later index one that holds
it after it. -/
def InOrder (s : BufferManager) : Label → Prop
  | .trySwap done => ∀ i, s.Found done i → (s.slots i).upload < done 2 →
      ∃ j, i < j ∧ s.Found done j ∧ (s.slots j).upload = done 2
  | _ => True

instance : ∀ (s : BufferManager) (l : Label), Decidable (InOrder s l)
  | s, .trySwap done => inferInstanceAs (Decidable (∀ i, s.Found done i → (s.slots i).upload < done 2 →
      ∃ j, i < j ∧ s.Found done j ∧ (s.slots j).upload = done 2))
  | _, .upload _ => inferInstanceAs (Decidable True)
  | _, .signal => inferInstanceAs (Decidable True)

/-- The last slot found holds the newest complete upload exactly when the slots found are in order. -/
theorem best_newest_iff (hdone : s.Course done) {b : Fin 3} (hb : s.Best done b) :
    (s.slots b).upload = done 2 ↔ InOrder s (.trySwap done) := by
  constructor
  · intro hnew i hi hold
    have hne : i ≠ b := fun h => absurd (h ▸ hnew) hold.ne
    exact ⟨b, lt_of_le_of_ne (hb.2 i hi) hne, hb.1, hnew⟩
  · intro hord
    refine le_antisymm (hb.1.2.trans (hdone.le_last b)) (not_lt.mp ?_)
    intro hold
    obtain ⟨j, hlt, hj, -⟩ := hord b hb.1 hold
    exact absurd (hb.2 j hj) (not_le.mpr hlt)

/-- **`try_swap` promotes the newest complete upload exactly when it finds the slots in order.** -/
theorem promotes_iff (hst : s.step (.trySwap done) = some s') (hfound : ∃ i, s.Found done i) :
    (∃ d, s'.drawSlot = some d ∧ (s'.slots d).upload = s'.completed) ↔ InOrder s (.trySwap done) := by
  rcases step_cases hst with _ | _ | ⟨_, hnone⟩ | ⟨hdone, hb⟩ | _
  case miss => exact absurd hfound hnone
  case swap b =>
    rw [← best_newest_iff hdone hb]
    simp

/-- In the runs whose steps are in order, each upload displayed was the newest complete one, and newer than the one
before it. -/
theorem reach_newest (hs : calls.Reach InOrder s) :
    (∀ p ∈ s.swaps, p.1 = p.2) ∧ (s.swaps.map Prod.fst).Pairwise (· < ·) := by
  refine hs.invariant_of (I := fun s => (∀ p ∈ s.swaps, p.1 = p.2) ∧ (s.swaps.map Prod.fst).Pairwise (· < ·))
    (fun t ht => reach_slotsInv ht.reachable) (fun t h0 => ?_) (fun t l t' hinv h hord hst => ?_)
  · rw [show t = created from h0]
    exact ⟨by simp [created], List.Pairwise.nil⟩
  · rcases step_cases hst with _ | _ | _ | ⟨hdone, hb⟩ | _
    case swap done b =>
      have hnew := (best_newest_iff hdone hb).mpr hord
      refine ⟨?_, ?_⟩
      · intro p hp
        rcases List.mem_append.mp hp with hp | hp
        · exact h.1 p hp
        · rw [List.mem_singleton.mp hp]
          exact hnew
      · rw [List.map_append, List.pairwise_append]
        refine ⟨h.2, List.pairwise_singleton .., ?_⟩
        intro u hu v hv
        obtain ⟨p, hp, rfl⟩ := List.mem_map.mp hu
        obtain rfl : v = (t.slots b).upload := by simpa using hv
        obtain ⟨hle, hc, hne⟩ := hinv.shown p hp
        have hlast : p.1 ≤ (t.slots b).upload := hle.trans (hc.trans (hdone.le_first.trans hnew.ge))
        exact lt_of_le_of_ne hlast (hne b hb.1.1).symm
    all_goals exact h

/-- **The newest complete upload is displayed**, in the runs whose calls of `try_swap` find the slots in order. -/
theorem newest_promoted (hs : calls.Reach InOrder s) :
    (∀ done s', s.step (.trySwap done) = some s' → (∃ i, s.Found done i) →
      ((∃ d, s'.drawSlot = some d ∧ (s'.slots d).upload = s'.completed) ↔ InOrder s (.trySwap done))) ∧
    (∀ p ∈ s.swaps, p.1 = p.2) ∧ (s.swaps.map Prod.fst).Pairwise (· < ·) ∧
    s.swaps.getLast?.map Prod.fst = s.drawSlot.map (fun d => (s.slots d).upload) ∧
    some s.findFreeSlot ≠ s.drawSlot :=
  ⟨fun _ _ hst hfound => promotes_iff hst hfound, (reach_newest hs).1, (reach_newest hs).2,
    (reach_slotsInv hs.reachable).last, s.findFreeSlot_ne_drawSlot⟩

/-- All transfers complete before `try_swap` polls. -/
def atOnce (c : ℕ) : Label := .trySwap fun _ => c

/-- Two uploads, of which the second is displayed. -/
theorem newest_promoted_two :
    ∃ s, calls.Reach InOrder s ∧ s.swaps = [(2, 2)] ∧ (s.swaps.map Prod.fst).Pairwise (· < ·) := by
  obtain ⟨s, hs, hswaps⟩ : ∃ s, Lib.Lts.execIn InOrder calls created
      [.upload [1], .upload [2], .signal, .signal, atOnce 2] = some s ∧ s.swaps = [(2, 2)] := ⟨_, rfl, rfl⟩
  exact ⟨s, .execIn (.init rfl) hs, hswaps, (newest_promoted (.execIn (.init rfl) hs)).2.2.1⟩

/-- **Upload 4 is displayed when upload 5 is complete**: upload 4 is in slot 2, and upload 5 in slot 1, which upload 2 has
left free. -/
theorem older_promoted :
    ∃ s, calls.Reachable s ∧ s.swaps = [(2, 2), (3, 3), (4, 5)] := by
  refine ⟨_, Lib.Lts.reachable_of_exec (s := created) [.upload [1], .upload [2], .signal, .signal, atOnce 2,
    .upload [3], .upload [4], .signal, atOnce 3, .upload [5], .signal, .signal, atOnce 5] rfl (by rfl), ?_⟩
  rfl

end Newest

end BufferManager

end Grebe
