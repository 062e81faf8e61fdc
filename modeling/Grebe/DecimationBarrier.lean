import Grebe.DecimationRun
import Grebe.DecimationThreadProgress

/-!
# Grebe.DecimationBarrier — what the coordinator finds past its wait

* `PassInv`: a worker that has counted itself in a cycle, or is in its pass, has the generation of the cycle.
* `LogInv`: while a worker is in its pass, the channels of the slots behind it were drained and decimated once in this
  cycle, and those of the slots before it not at all.
* `past_wait`: past its wait the coordinator finds every worker out of its pass, which each of them has made once in
  this cycle, and one record of every channel, by its worker, in the slot that the coordinator looks up.
-/

namespace Grebe

/-! ## The generation of a pass -/

namespace DecimationThread

variable {n : ℕ} {s s' : DecimationThread n}

section Passes

/-- A worker that works, or has counted itself in the cycle, has its generation. -/
def PassOk (passes generation : ℕ) : DecimationWorker → Prop
  | .waiting last => passes ≠ 0 → last = generation
  | .working last => last = generation
  | .left => False

/-- What holds before `stop`. -/
structure PassInv (s : DecimationThread n) : Prop where
  home : s.workersExit = false
  worker : ∀ w, PassOk (s.passes w) s.workGeneration (s.workers w)

/-- **One step keeps the generations of the passes**, before `stop`. -/
theorem passInv_step {l : Label n} (h : PassInv s) (hcycle : CycleInv s) (hstop : s'.stop = .idle)
    (hfin : s'.coordinator ≠ .finished) (hst : s.Step l s') : PassInv s' := by
  rcases hst with _ | hpc | _ | _ | ⟨w, hw, hexit⟩ | ⟨w, hw, _, hgen⟩ | ⟨w, hw⟩ | _ | _ | _ | _ | _
  case roam | collect => exact ⟨h.home, h.worker⟩
  case openCycle =>
    refine ⟨h.home, ?_⟩
    intro w
    have hw := h.worker w
    have hc := hcycle.worker w
    dsimp only
    cases hpcw : s.workers w with
    | waiting last => exact fun h0 => absurd rfl h0
    | working last =>
      rw [hpcw] at hc
      exact absurd hc.1 (by simp [hpc])
    | left =>
      rw [hpcw] at hw
      exact hw
  case finish => exact absurd rfl hfin
  case leave => exact absurd (h.home.symm.trans hexit) (by simp)
  case pickUp =>
    refine ⟨h.home, ?_⟩
    intro v
    by_cases hv : v = w
    · subst hv
      rw [moveWorker_self]
      exact (rfl : s.workGeneration = s.workGeneration)
    · rw [moveWorker_other _ _ hv]
      exact h.worker v
  case count last =>
    refine ⟨h.home, ?_⟩
    intro v
    have hv := h.worker v
    by_cases hvw : v = w
    · subst hvw
      rw [hw] at hv
      show PassOk _ _ ((s.moveWorker v _).workers v)
      rw [moveWorker_self]
      exact fun _ => hv
    · show PassOk (Function.update s.passes w _ v) _ ((s.moveWorker w _).workers v)
      rw [moveWorker_other _ _ hvw, Function.update_of_ne hvw]
      exact hv
  all_goals cases hstop

theorem reach_passInv (hs : (threads n).Reachable s) : s.stop = .idle → s.coordinator ≠ .finished → PassInv s := by
  refine hs.invariant_of (I := fun s => s.stop = .idle → s.coordinator ≠ .finished → PassInv s)
    (J := fun s => s.coordinator ≠ .finished → CycleInv s) (fun _ => reach_cycleInv) (fun t h0 _ _ => ?_)
    (fun t l t' hcycle h _ hst hstop hfin => ?_)
  · rw [show t = started from h0]
    exact ⟨rfl, fun _ h0 => absurd rfl h0⟩
  · have hst' := step_cases hst
    have hfin' : t.coordinator ≠ .finished := fun hf => hfin (finished_step hf hst')
    exact passInv_step (h (idle_step hst' hstop) hfin') (hcycle hfin') hstop hfin hst'

/-- The coordinator leaves the workers where they are, and their counts too unless it opens a cycle. -/
theorem coordinator_keeps {avail : Bool} (hpc : s.coordinator ≠ .signal) (hst : s.Step (.coordinator avail) s') :
    s'.workers = s.workers ∧ s'.passes = s.passes := by
  rcases hst with _ | hsignal | _ | _
  case openCycle => exact absurd hsignal hpc
  all_goals exact ⟨rfl, rfl⟩

theorem stop_keeps (hst : s.Step .stop s') : s'.workers = s.workers ∧ s'.passes = s.passes := by
  rcases hst with _ | _ | _ | _ | _ <;> exact ⟨rfl, rfl⟩

/-- Where the wait is over, every worker has counted itself, or the wait was over before. -/
theorem counted_cases {l : Label n} (hcycle : CycleInv s) (hwait : s'.coordinator ≠ .wait) (hst : s.Step l s') :
    (∀ w, s'.passes w = 1) ∨ s.coordinator ≠ .wait ∧ s'.passes = s.passes := by
  rcases hst with ⟨hpc, _⟩ | _ | ⟨_, hdone⟩ | hpc | _ | _ | ⟨w, hw⟩ | _ | _ | _ | _ | _
  case roam => exact .inr ⟨by rcases hpc with hpc | hpc | hpc <;> simp [hpc], rfl⟩
  case openCycle => exact absurd rfl hwait
  case collect => exact .inl (hcycle.all_counted hdone)
  case finish => exact .inr ⟨by simp [hpc], rfl⟩
  case count =>
    have hok := hcycle.worker w
    rw [hw] at hok
    exact absurd hok.1 hwait
  all_goals exact .inr ⟨hwait, rfl⟩

end Passes

end DecimationThread

namespace DecimationRun

open DecimationCycle

variable {n N : ℕ} [NeZero n] {toSize : Double → Double → ℕ} {s s' : DecimationRun n N} {w : Fin n}

/-! ## The slots of a pass -/

section Slots

/-- How many slots are done. -/
def done : PassPc N → ℕ
  | .load => 0
  | .slot _ i => i
  | .sized _ i _ _ => i
  | .discarded _ i _ _ _ _ => i

/-- How many slots worker `w` has done in this cycle. -/
def slotsDone (s : DecimationRun n N) (w : Fin n) : ℕ :=
  match s.sync.workers w with
  | .working _ => done (s.pass w)
  | _ => if s.sync.passes w = 0 then 0 else (assignedChannels N w).length

theorem slotsDone_of_working {last : ℕ} (hpc : s.sync.workers w = .working last) :
    s.slotsDone w = done (s.pass w) := by
  rw [slotsDone, hpc]

theorem slotsDone_of_waiting {last : ℕ} (hpc : s.sync.workers w = .waiting last) :
    s.slotsDone w = if s.sync.passes w = 0 then 0 else (assignedChannels N w).length := by
  rw [slotsDone, hpc]

theorem slotsDone_congr (hworker : s'.sync.workers w = s.sync.workers w) (hpasses : s'.sync.passes w = s.sync.passes w)
    (hpass : s'.pass w = s.pass w) : s'.slotsDone w = s.slotsDone w := by
  rw [slotsDone, slotsDone, hworker, hpasses, hpass]

/-- A step inside a pass that ends no slot. -/
theorem slotsDone_movePass {last : ℕ} {pc : PassPc N} (hpc : s.sync.workers w = .working last)
    (hdone : done pc = done (s.pass w)) (v : Fin n) : (s.movePass w pc).slotsDone v = s.slotsDone v := by
  by_cases hv : v = w
  · subst hv
    have hself : (s.movePass v pc).pass v = pc := Function.update_self ..
    rw [slotsDone_of_working (s := s.movePass v pc) hpc, slotsDone_of_working hpc, hself, hdone]
  · exact slotsDone_congr rfl rfl (Function.update_of_ne hv ..)

/-- The channel that a worker is at is that of its slot, and its ring holds what is to be popped. -/
def PassData (rings : Fin N → RingBuffer Int16) (w : Fin n) : PassPc N → Prop
  | .load => True
  | .slot _ i => i ≤ (assignedChannels N w).length
  | .sized _ i ch avail => (assignedChannels N w)[i]? = some ch ∧ avail ≤ (rings ch).size
  | .discarded _ i ch avail seen gone =>
    (assignedChannels N w)[i]? = some ch ∧ avail ≤ (rings ch).size ∧ gone + avail = seen

/-- Rings that do not lose samples leave it so. -/
theorem PassData.mono {rings rings' : Fin N → RingBuffer Int16} {pc : PassPc N} (h : PassData rings w pc)
    (hsize : ∀ ch, owner ch = w → (rings ch).size ≤ (rings' ch).size) : PassData rings' w pc := by
  cases pc with
  | load => trivial
  | slot σ i => exact h
  | sized σ i ch avail => exact ⟨h.1, h.2.trans (hsize ch (owner_slot h.1).1)⟩
  | discarded σ i ch avail seen gone => exact ⟨h.1, h.2.1.trans (hsize ch (owner_slot h.1).1), h.2.2⟩

/-- What a discard leaves to be popped is there, and with what it discarded it is what there was. -/
theorem discardOld_spec {window avail : ℕ} {ring : RingBuffer Int16} (h : avail ≤ ring.size) :
    (discardOld window ring avail).2 ≤ (discardOld window ring avail).1.size ∧
      ring.size - (discardOld window ring avail).1.size + (discardOld window ring avail).2 = avail := by
  unfold discardOld
  split_ifs with hold
  · have hsize : (ring.discardBulk (avail - window)).2.size = ring.size - (avail - window) := List.length_drop
    dsimp only
    omega
  · exact ⟨h, by dsimp only; omega⟩

theorem popped_popInto {window avail : ℕ} {ring : RingBuffer Int16} {hist : List Int16} (h : avail ≤ ring.size) :
    (popInto window ring hist avail).popped = avail := by
  unfold popInto
  split_ifs with hpos
  · show (ring.popBulk avail).1.length = avail
    rw [RingBuffer.length_popBulk, min_eq_left h]
  · show 0 = avail
    omega

end Slots

/-! ## The log of a cycle -/

section Log

/-- What holds of the passes and of the log before the coordinator has finished. -/
structure LogInv (s : DecimationRun n N) : Prop where
  pass : ∀ w last, s.sync.workers w = .working last → PassData s.rings w (s.pass w)
  done : ∀ ch, slot n ch < s.slotsDone (owner ch) → ∃ seen, s.log ch = [⟨owner ch, slot n ch, seen, seen⟩]
  todo : ∀ ch, s.slotsDone (owner ch) ≤ slot n ch → s.log ch = []

/-- A step that ends no slot. -/
theorem LogInv.keep (h : LogInv s) (hdone : ∀ w, s'.slotsDone w = s.slotsDone w) (hlog : s'.log = s.log)
    (hpass : ∀ w last, s'.sync.workers w = .working last → PassData s'.rings w (s'.pass w)) : LogInv s' where
  pass := hpass
  done ch hlt := by
    rw [hlog]
    exact h.done ch (by rwa [← hdone])
  todo ch hle := by
    rw [hlog]
    exact h.todo ch (by rwa [← hdone])

/-- A step of the coordinator or of a producer. -/
theorem LogInv.frame (h : LogInv s) (hworkers : s'.sync.workers = s.sync.workers)
    (hpasses : s'.sync.passes = s.sync.passes) (hpass : s'.pass = s.pass) (hlog : s'.log = s.log)
    (hsize : ∀ ch, (s.rings ch).size ≤ (s'.rings ch).size) : LogInv s' := by
  apply h.keep (fun w => slotsDone_congr (by rw [hworkers]) (by rw [hpasses]) (by rw [hpass])) hlog
  intro w last hpc
  rw [hworkers] at hpc
  rw [hpass]
  exact (h.pass w last hpc).mono fun ch _ => hsize ch

/-- A step of a worker inside its pass, on the ring of its slot at most. -/
theorem LogInv.inside (h : LogInv s) {last : ℕ} {pc : PassPc N} (hpc : s.sync.workers w = .working last)
    (hdone : DecimationRun.done pc = DecimationRun.done (s.pass w)) (hsync : s'.sync = s.sync)
    (hpass : s'.pass = Function.update s.pass w pc) (hlog : s'.log = s.log)
    (hother : ∀ ch, owner ch ≠ w → s'.rings ch = s.rings ch) (hdata : PassData s'.rings w pc) : LogInv s' := by
  refine h.keep ?_ hlog ?_
  · intro v
    rw [← slotsDone_movePass hpc hdone v]
    exact slotsDone_congr (by rw [hsync]; rfl) (by rw [hsync]; rfl) (by rw [hpass]; rfl)
  · intro v last' hpcv
    rw [hpass]
    by_cases hv : v = w
    · subst hv
      rw [Function.update_self]
      exact hdata
    · rw [Function.update_of_ne hv]
      rw [hsync] at hpcv
      apply (h.pass v last' hpcv).mono
      intro ch hch
      rw [hother ch (by rw [hch]; exact hv)]

/-- The coordinator opens a cycle when no worker is in its pass. -/
theorem LogInv.openCycle (hcycle : s.sync.CycleInv) (hpc : s.sync.coordinator = .signal)
    {avail : Bool} (hsync : s.sync.Step (.coordinator avail) s'.sync) (hlog : s'.log = fun _ => []) : LogInv s' := by
  have hworkers : s'.sync.workers = s.sync.workers ∧ s'.sync.passes = fun _ => 0 := by
    generalize s'.sync = t at hsync
    rcases hsync with ⟨hroam, _⟩ | _ | ⟨hwait, _⟩ | hleave
    case openCycle => exact ⟨rfl, rfl⟩
    case roam => simp [hpc] at hroam
    case collect => simp [hpc] at hwait
    case finish => simp [hpc] at hleave
  have hout (w : Fin n) (last : ℕ) : s'.sync.workers w ≠ .working last := by
    intro hw
    have hok := hcycle.worker w
    rw [hworkers.1] at hw
    rw [hw] at hok
    exact absurd hok.1 (by simp [hpc])
  have hzero (w : Fin n) : s'.slotsDone w = 0 := by
    rw [slotsDone, hworkers.2]
    split
    · rename_i last hw
      exact absurd hw (hout w last)
    · exact if_pos rfl
  refine ⟨fun w last hw => absurd hw (hout w last), ?_, fun ch _ => by rw [hlog]⟩
  intro ch hlt
  rw [hzero] at hlt
  exact absurd hlt (Nat.not_lt_zero _)

/-- A worker picks the cycle up that it has not counted itself in, or leaves. -/
theorem LogInv.wake (h : LogInv s) (hcycle : s.sync.CycleInv) (hpc : ∀ last, s.sync.workers w ≠ .working last)
    (hsync : s.sync.Step (.worker w) s'.sync) (hrings : s'.rings = s.rings)
    (hpass : s'.pass = Function.update s.pass w .load) (hlog : s'.log = s.log) : LogInv s' := by
  have hmove : ∃ last pc, s.sync.workers w = .waiting last ∧ s'.sync = s.sync.moveWorker w pc ∧
      (pc = .left ∨ s.sync.passes w = 0 ∧ pc = .working s.sync.workGeneration) := by
    generalize s'.sync = t at hsync
    rcases hsync with _ | _ | _ | _ | ⟨_, hw, hexit⟩ | ⟨_, hw, _, hgen⟩ | ⟨_, hw⟩
    case leave last => exact ⟨last, _, hw, rfl, .inl rfl⟩
    case pickUp last _ =>
      refine ⟨last, _, hw, rfl, .inr ⟨?_, rfl⟩⟩
      have hok := hcycle.worker w
      rw [hw] at hok
      by_contra hne
      have hle : s.sync.workGeneration ≤ last := hok (.inl hne)
      omega
    case count last => exact absurd hw (hpc last)
  obtain ⟨last, pc, hw, hsync', hnext⟩ := hmove
  have hself : s'.sync.workers w = pc := by rw [hsync', DecimationThread.moveWorker_self]
  have hpasses : s'.sync.passes = s.sync.passes := by
    rw [hsync']
    rfl
  have hpassSelf : s'.pass w = .load := by rw [hpass, Function.update_self]
  refine h.keep ?_ hlog ?_
  · intro v
    by_cases hv : v = w
    · subst hv
      rw [slotsDone_of_waiting hw, slotsDone, hself, hpasses, hpassSelf]
      rcases hnext with rfl | ⟨hzero, rfl⟩
      · rfl
      · exact (if_pos hzero).symm
    · refine slotsDone_congr ?_ (by rw [hpasses]) (by rw [hpass, Function.update_of_ne hv])
      rw [hsync', DecimationThread.moveWorker_other _ _ hv]
  · intro v last' hpcv
    rw [hrings]
    by_cases hv : v = w
    · subst hv
      rw [hpassSelf]
      trivial
    · rw [hpass, Function.update_of_ne hv]
      rw [hsync', DecimationThread.moveWorker_other _ _ hv] at hpcv
      exact h.pass v last' hpcv

/-- A worker past its last slot counts itself. -/
theorem LogInv.count (h : LogInv s) {last i : ℕ} {σ : DecimationSettings} (hpc : s.sync.workers w = .working last)
    (hslot : s.pass w = .slot σ i) (hch : (assignedChannels N w)[i]? = none) (hsync : s.sync.Step (.worker w) s'.sync)
    (hrings : s'.rings = s.rings) (hpass : s'.pass = s.pass) (hlog : s'.log = s.log) : LogInv s' := by
  have hdata := h.pass w last hpc
  rw [hslot] at hdata
  have hlen : i = (assignedChannels N w).length := le_antisymm hdata (List.getElem?_eq_none_iff.mp hch)
  have hcount : s'.sync.workers = Function.update s.sync.workers w (.waiting last) ∧
      s'.sync.passes = Function.update s.sync.passes w (s.sync.passes w + 1) := by
    generalize s'.sync = t at hsync
    rcases hsync with _ | _ | _ | _ | ⟨_, hw, _⟩ | ⟨_, hw, _, _⟩ | ⟨_, hw⟩
    case leave => rw [hpc] at hw; cases hw
    case pickUp => rw [hpc] at hw; cases hw
    case count =>
      rw [hpc] at hw
      cases hw
      exact ⟨rfl, rfl⟩
  have hself : s'.sync.workers w = .waiting last := by rw [hcount.1, Function.update_self]
  refine h.keep ?_ hlog ?_
  · intro v
    by_cases hv : v = w
    · subst hv
      rw [slotsDone_of_waiting hself, slotsDone_of_working hpc, hslot, hcount.2, Function.update_self,
        if_neg (Nat.succ_ne_zero _)]
      exact hlen.symm
    · refine slotsDone_congr ?_ ?_ (by rw [hpass])
      · rw [hcount.1, Function.update_of_ne hv]
      · rw [hcount.2, Function.update_of_ne hv]
  · intro v last' hpcv
    have hv : v ≠ w := by
      intro hv
      rw [hv, hself] at hpcv
      cases hpcv
    rw [hcount.1, Function.update_of_ne hv] at hpcv
    rw [hpass, hrings]
    exact h.pass v last' hpcv

/-- A worker ends a slot: its channel is logged with all that `size` had seen. -/
theorem LogInv.pop (h : LogInv s) {last i avail seen gone : ℕ} {σ : DecimationSettings} {c : Fin N} {d : Drained}
    (hpc : s.sync.workers w = .working last) (hslot : s.pass w = .discarded σ i c avail seen gone)
    (hpopped : avail ≤ (s.rings c).size → d.popped = avail) (hsync : s'.sync = s.sync)
    (hpass : s'.pass = Function.update s.pass w (.slot σ (i + 1)))
    (hrings : s'.rings = Function.update s.rings c d.ring)
    (hlog : s'.log = Function.update s.log c (s.log c ++ [⟨w, i, seen, gone + d.popped⟩])) : LogInv s' := by
  have hdata := h.pass w last hpc
  rw [hslot] at hdata
  obtain ⟨hch, hsize, hseen⟩ := hdata
  obtain ⟨hw, hslotc⟩ := owner_slot hch
  have hbefore : s.slotsDone w = i := by rw [slotsDone_of_working hpc, hslot, DecimationRun.done]
  have hafter : s'.slotsDone w = i + 1 := by
    have hpc' : s'.sync.workers w = .working last := by rw [hsync, hpc]
    rw [slotsDone_of_working hpc', hpass, Function.update_self, DecimationRun.done]
  have hother {v : Fin n} (hv : v ≠ w) : s'.slotsDone v = s.slotsDone v :=
    slotsDone_congr (by rw [hsync]) (by rw [hsync]) (by rw [hpass, Function.update_of_ne hv])
  -- the channels of the other slots
  have hlogOther {ch : Fin N} (hc : ch ≠ c) : s'.log ch = s.log ch := by rw [hlog, Function.update_of_ne hc]
  have hdone {ch : Fin N} (hc : ch ≠ c) : slot n ch < s'.slotsDone (owner ch) ↔ slot n ch < s.slotsDone (owner ch) := by
    by_cases hv : owner ch = w
    · have hne : slot n ch ≠ i := by
        intro heq
        have hspec := slot_spec (n := n) ch
        rw [heq, hv, hch] at hspec
        exact hc (Option.some.inj hspec).symm
      rw [hv, hafter, hbefore]
      omega
    · rw [hother hv]
  refine ⟨?_, ?_, ?_⟩
  · intro v last' hpcv
    rw [hpass]
    by_cases hv : v = w
    · subst hv
      rw [Function.update_self]
      exact (List.getElem?_eq_some_iff.mp hch).1
    · rw [Function.update_of_ne hv]
      rw [hsync] at hpcv
      apply (h.pass v last' hpcv).mono
      intro ch howner
      have hc : ch ≠ c := by
        rintro rfl
        exact hv (howner.symm.trans hw)
      rw [hrings, Function.update_of_ne hc]
  · intro ch hlt
    by_cases hc : ch = c
    · subst hc
      refine ⟨seen, ?_⟩
      rw [hlog, Function.update_self, h.todo ch (by rw [hw, hbefore, hslotc]), hw, hslotc, hpopped hsize, hseen,
        List.nil_append]
    · rw [hlogOther hc]
      exact h.done ch ((hdone hc).mp hlt)
  · intro ch hle
    by_cases hc : ch = c
    · subst hc
      rw [hw, hafter, hslotc] at hle
      omega
    · rw [hlogOther hc]
      refine h.todo ch (not_lt.mp ?_)
      intro hlt
      exact absurd ((hdone hc).mpr hlt) (not_lt.mpr hle)

/-- **One step keeps the log**, until the coordinator has finished. -/
theorem logInv_step {l : Label n N} (h : LogInv s) (hcycle : s.sync.CycleInv) (hst : Step toSize s l s') :
    LogInv s' := by
  rcases hst with _ | _ | ⟨hpc, hsync⟩ | ⟨hpc, hsync⟩ | ⟨hpc, hsync⟩ | ⟨hpc, hsync⟩ | ⟨hpc, hpass⟩ | ⟨hpc, hpass, hch⟩ |
    ⟨hpc, hpass, hch, hsync⟩ | ⟨hpc, hpass⟩ | ⟨hpc, hpass, hd⟩ | hsync
  case push c src =>
    refine h.frame rfl rfl rfl rfl ?_
    intro ch
    show (s.rings ch).size ≤ (Function.update s.rings c _ ch).size
    by_cases hc : ch = c
    · subst hc
      rw [Function.update_self, RingBuffer.size_pushBulk]
      exact Nat.le_add_right ..
    · rw [Function.update_of_ne hc]
  case look => exact h.frame rfl rfl rfl rfl fun _ => le_rfl
  case coordinate =>
    have hkeep := DecimationThread.coordinator_keeps hpc (DecimationThread.step_cases hsync)
    exact h.frame hkeep.1 hkeep.2 rfl rfl fun _ => le_rfl
  case openCycle => exact .openCycle hcycle hpc (DecimationThread.step_cases hsync) rfl
  case publish =>
    have hkeep := DecimationThread.coordinator_keeps (by simp [hpc]) (DecimationThread.step_cases hsync)
    exact h.frame hkeep.1 hkeep.2 rfl rfl fun _ => le_rfl
  case wake => exact h.wake hcycle hpc (DecimationThread.step_cases hsync) rfl rfl rfl
  case load =>
    exact h.inside hpc (by rw [hpass]; rfl) rfl rfl rfl (fun _ _ => rfl) (Nat.zero_le _)
  case size =>
    exact h.inside hpc (by rw [hpass]; rfl) rfl rfl rfl (fun _ _ => rfl) ⟨hch, le_rfl⟩
  case count => exact h.count hpc hpass hch (DecimationThread.step_cases hsync) rfl rfl rfl
  case discard w _ σ last i avail c =>
    have hdata := h.pass w last hpc
    rw [hpass] at hdata
    obtain ⟨hch, hsize⟩ := hdata
    refine h.inside hpc (by rw [hpass]; rfl) rfl rfl rfl ?_ ⟨hch, ?_⟩
    · intro ch howner
      have hc : ch ≠ c := by
        rintro rfl
        exact howner (owner_slot hch).1
      exact Function.update_of_ne hc ..
    · show _ ≤ (Function.update s.rings c _ c).size ∧ _
      rw [Function.update_self]
      exact discardOld_spec hsize
  case pop =>
    refine h.pop hpc hpass ?_ rfl rfl rfl rfl
    intro hsize
    rw [hd, popped_popInto hsize]
  case stop =>
    have hkeep := DecimationThread.stop_keeps (DecimationThread.step_cases hsync)
    exact h.frame hkeep.1 hkeep.2 rfl rfl fun _ => le_rfl

/-- The coordinator had not finished before a step after which it has not. -/
theorem unfinished_of_step {l : Label n N} (h : s'.sync.coordinator ≠ .finished) (hst : Step toSize s l s') :
    s.sync.coordinator ≠ .finished := by
  rcases sync_cases hst with hsame | ⟨k, hsync⟩
  · rwa [hsame] at h
  · exact fun hf => h (DecimationThread.finished_step hf (DecimationThread.step_cases hsync))

theorem reach_logInv (hs : (threads toSize n N).Reachable s) : s.sync.coordinator ≠ .finished → LogInv s := by
  refine hs.invariant_of (I := fun s => s.sync.coordinator ≠ .finished → LogInv s) (fun _ => reach_sync)
    (fun t h0 _ => ?_) (fun t l t' hreach h _ hst hfin => ?_)
  · obtain ⟨rings, rfl⟩ := h0
    exact ⟨fun w last hw => (by cases hw), fun ch hlt => absurd hlt (Nat.not_lt_zero _), fun _ _ => rfl⟩
  · have hfin' := unfinished_of_step hfin (step_cases hst)
    exact logInv_step (h hfin') (DecimationThread.reach_cycleInv hreach hfin') (step_cases hst)

end Log

/-! ## The barrier -/

section Barrier

/-- Past the wait of a cycle, every worker has counted itself once. -/
def Counted (s : DecimationRun n N) : Prop :=
  0 < s.cycles → s.sync.coordinator ≠ .wait → ∀ w, s.sync.passes w = 1

theorem counted_step {l : Label n N} (h : Counted s) (hcycle : s.sync.CycleInv) (hst : Step toSize s l s') :
    Counted s' := by
  intro hcycles hwait
  have hkeep {k : DecimationThread.Label n} (hc : 0 < s.cycles) (hsync : s.sync.step k = some s'.sync) :
      ∀ w, s'.sync.passes w = 1 := by
    rcases DecimationThread.counted_cases hcycle hwait (DecimationThread.step_cases hsync) with hall | ⟨hpast, hsame⟩
    · exact hall
    · rw [hsame]
      exact h hc hpast
  rcases hst with _ | _ | ⟨_, hsync⟩ | ⟨hpc, hsync⟩ | ⟨_, hsync⟩ | ⟨_, hsync⟩ | _ | _ | ⟨_, _, _, hsync⟩ | _ | _ | hsync
  case coordinate | publish | wake | count | stop => exact hkeep hcycles hsync
  case openCycle =>
    rcases DecimationThread.step_cases hsync with ⟨hroam, _⟩ | _ | ⟨hcollect, _⟩ | hleave
    case openCycle => exact absurd rfl hwait
    case roam => simp [hpc] at hroam
    case collect => simp [hpc] at hcollect
    case finish => simp [hpc] at hleave
  all_goals exact h hcycles hwait

theorem reach_counted (hs : (threads toSize n N).Reachable s) : s.sync.coordinator ≠ .finished → Counted s := by
  refine hs.invariant_of (I := fun s => s.sync.coordinator ≠ .finished → Counted s) (fun _ => reach_sync)
    (fun t h0 _ => ?_) (fun t l t' hreach h _ hst hfin => ?_)
  · obtain ⟨rings, rfl⟩ := h0
    exact fun hcycles => absurd hcycles (lt_irrefl _)
  · have hfin' := unfinished_of_step hfin (step_cases hst)
    exact counted_step (h hfin') (DecimationThread.reach_cycleInv hreach hfin') (step_cases hst)

/-- Past its wait, before it opens the next cycle. -/
def PastWait (s : DecimationRun n N) : Prop :=
  0 < s.cycles ∧ (s.sync.coordinator = .gather ∨ s.sync.coordinator = .head ∨ s.sync.coordinator = .look ∨
    s.sync.coordinator = .signal)

/-- **Past its wait the coordinator finds every worker out of its pass**, which each has made once for the generation,
and one record of every channel: by its worker, in the slot that the gathering looks up, and of all that the worker had
seen in its ring. -/
theorem past_wait (hs : (threads toSize n N).Reachable s) (hstop : s.sync.stop = .idle) (hpast : PastWait s) :
    (∀ w, s.sync.workers w = .waiting s.sync.workGeneration ∧ s.sync.passes w = 1) ∧
      ∀ ch, ∃ seen, s.log ch = [⟨owner ch, slot n ch, seen, seen⟩] := by
  obtain ⟨hcycles, hco⟩ := hpast
  have hwait : s.sync.coordinator ≠ .wait := by rcases hco with h | h | h | h <;> simp [h]
  have hfin : s.sync.coordinator ≠ .finished := by rcases hco with h | h | h | h <;> simp [h]
  have hcycle := DecimationThread.reach_cycleInv (reach_sync hs) hfin
  have hpass := DecimationThread.reach_passInv (reach_sync hs) hstop hfin
  have hcounted := reach_counted hs hfin hcycles hwait
  have hworkers (w : Fin n) : s.sync.workers w = .waiting s.sync.workGeneration := by
    have hok := hcycle.worker w
    have hgen := hpass.worker w
    cases hw : s.sync.workers w with
    | waiting last =>
      rw [hw] at hgen
      rw [show last = s.sync.workGeneration from hgen (by simp [hcounted w])]
    | working last =>
      rw [hw] at hok
      exact absurd hok.1 hwait
    | left =>
      rw [hw] at hgen
      exact hgen.elim
  refine ⟨fun w => ⟨hworkers w, hcounted w⟩, fun ch => ?_⟩
  apply (reach_logInv hs hfin).done ch
  rw [slotsDone_of_waiting (hworkers _), hcounted, if_neg Nat.one_ne_zero]
  exact slot_lt ch

end Barrier

end DecimationRun

end Grebe
