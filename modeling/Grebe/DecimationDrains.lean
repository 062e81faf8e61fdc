import Grebe.DecimationFrames
import Grebe.DecimationHistory

/-!
# Grebe.DecimationDrains — every channel is drained and decimated once in a cycle

A worker reads the `size` of a ring, discards, and pops, and producers push in between.  What it takes out is what the
ring held when it read the size, as if nothing had been pushed since.

* `Seen`: a ring as it was at some moment of a cycle, before anything was taken out of it.
* `DrainedOnce`: a channel whose ring lost all that it held at such a moment, and whose history was extended by it.
* `Exact`: what is known of a channel at its place, exactly; `exact_step`.
* `Counts`: the records of a cycle say how much left each ring since it was opened.
* `barrier`: past its wait the coordinator finds every worker out of its pass, which each of them has made once in this
  cycle, and every channel drained and decimated once, by its worker, in the slot that the coordinator looks up.
-/

namespace Grebe

open Lib

namespace DecimationCycle

/-! ## A drain while producers push -/

section Drain

variable {ring ring' : RingBuffer Int16} {window avail : ℕ} {hist : List Int16}

/-- The ring with more behind what it holds. -/
structure Filled (ring ring' : RingBuffer Int16) : Prop where
  removed : ring'.removed = ring.removed
  accepted : ring.accepted <+: ring'.accepted

theorem Filled.take_items (h : Filled ring ring') {k : ℕ} (hk : k ≤ ring.size) :
    ring'.items.take k = ring.items.take k := by
  obtain ⟨newer, hnewer⟩ := h.accepted
  rw [ring.split, ring'.split, h.removed, List.append_assoc] at hnewer
  rw [← List.append_cancel_left hnewer, List.take_append_of_le_length hk]

theorem accepted_discardOld : (discardOld window ring avail).1.accepted = ring.accepted := by
  unfold discardOld
  split <;> rfl

/-- The samples pushed in between change nothing for the discard. -/
theorem Filled.discardOld (window : ℕ) (h : Filled ring ring') (havail : avail ≤ ring.size) :
    (discardOld window ring' avail).2 = (discardOld window ring avail).2 ∧
      Filled (discardOld window ring avail).1 (discardOld window ring' avail).1 := by
  refine ⟨?_, ?_, ?_⟩
  · unfold DecimationCycle.discardOld
    split <;> rfl
  · unfold DecimationCycle.discardOld
    split
    · show ring'.removed ++ ring'.items.take (avail - window) = ring.removed ++ ring.items.take (avail - window)
      rw [h.removed, h.take_items (by omega)]
    · exact h.removed
  · rw [accepted_discardOld, accepted_discardOld]
    exact h.accepted

/-- Nor for the pop. -/
theorem Filled.popInto (window : ℕ) (hist : List Int16) (h : Filled ring ring') (havail : avail ≤ ring.size) :
    (popInto window ring' hist avail).history = (popInto window ring hist avail).history ∧
      (popInto window ring' hist avail).ring.removed = (popInto window ring hist avail).ring.removed := by
  have hpopped : (ring'.popBulk avail).1 = (ring.popBulk avail).1 := h.take_items havail
  unfold DecimationCycle.popInto
  split
  · refine ⟨?_, ?_⟩
    · show extendHistory window hist (ring'.popBulk avail).1 = extendHistory window hist (ring.popBulk avail).1
      rw [hpopped]
    · show ring'.removed ++ (ring'.popBulk avail).1 = ring.removed ++ (ring.popBulk avail).1
      rw [h.removed, hpopped]
  · exact ⟨rfl, h.removed⟩

/-- How much a discard takes out of a ring. -/
theorem length_removed_discardOld (h : avail ≤ ring.size) :
    (discardOld window ring avail).1.removed.length =
      ring.removed.length + (ring.size - (discardOld window ring avail).1.size) := by
  unfold discardOld
  split_ifs with hold
  · have hsize : (ring.discardBulk (avail - window)).2.size = ring.size - (avail - window) := List.length_drop
    have hlen : (ring.items.take (avail - window)).length = min (avail - window) ring.size := List.length_take
    show (ring.removed ++ ring.items.take (avail - window)).length = _
    rw [List.length_append, hlen]
    dsimp only
    omega
  · dsimp only
    omega

/-- How much a pop takes out of a ring. -/
theorem length_removed_popInto :
    (popInto window ring hist avail).ring.removed.length =
      ring.removed.length + (popInto window ring hist avail).popped := by
  unfold popInto
  split
  · exact List.length_append
  · rfl

/-- **A drain takes out all that the ring holds.** -/
theorem removed_drain : (drain window ring hist).ring.removed = ring.accepted := by
  have hall (r : RingBuffer Int16) : (popInto window r hist r.size).ring.removed = r.accepted := by
    unfold popInto
    split_ifs with hpos
    · show r.removed ++ r.items.take r.size = r.accepted
      rw [r.split, RingBuffer.size, List.take_length]
    · have hnil : r.items = [] := List.length_eq_zero_iff.mp (Nat.eq_zero_of_not_pos hpos)
      rw [r.split, hnil, List.append_nil]
  have hsize : (discardOld window ring ring.size).2 = (discardOld window ring ring.size).1.size := by
    unfold discardOld
    split_ifs with hold
    · have hlen : (ring.discardBulk (ring.size - window)).2.size = ring.size - (ring.size - window) := List.length_drop
      dsimp only
      omega
    · rfl
  show (popInto window (discardOld window ring ring.size).1 hist (discardOld window ring ring.size).2).ring.removed = _
  rw [hsize, hall, accepted_discardOld]

end Drain

/-! ## One channel in a cycle -/

section Channels

variable {c₀ c c' : Channel} {p p' : Place} {window : ℕ} {ring : RingBuffer Int16}

/-- The ring as it was at some moment between `c₀` and `c`, with nothing taken out since `c₀`. -/
structure Seen (c₀ c : Channel) (ring : RingBuffer Int16) : Prop where
  filled : Filled c₀.ring ring
  later : ring.accepted <+: c.ring.accepted

/-- The ring lost all that it held at a moment since `c₀`, and nothing more, and the history was extended by it. -/
structure DrainedOnce (window : ℕ) (ring : RingBuffer Int16) (c₀ c : Channel) : Prop where
  seen : Seen c₀ c ring
  removed : c.ring.removed = ring.accepted
  history : c.history = (drain window ring c₀.history).history

/-- What is known of a channel at its place, in a cycle that found it as `c₀`. -/
def Exact (c₀ c : Channel) : Place → Prop
  | .todo => c.history = c₀.history ∧ Filled c₀.ring c.ring
  | .sized avail => c.history = c₀.history ∧ ∃ ring, Seen c₀ c ring ∧ c.ring.removed = ring.removed ∧ avail = ring.size
  | .discarded window avail =>
    c.history = c₀.history ∧ ∃ ring, Seen c₀ c ring ∧
      c.ring.removed = (discardOld window ring ring.size).1.removed ∧ avail = (discardOld window ring ring.size).2
  | .done window => ∃ ring, DrainedOnce window ring c₀ c

theorem Seen.push (h : Seen c₀ c ring) (src : List Int16) :
    Seen c₀ { c with ring := (c.ring.pushBulk src).2 } ring :=
  ⟨h.filled, h.later.trans (List.prefix_append ..)⟩

theorem exact_push (src : List Int16) (h : Exact c₀ c p) : Exact c₀ { c with ring := (c.ring.pushBulk src).2 } p := by
  cases p with
  | todo => exact ⟨h.1, h.2.removed, h.2.accepted.trans (List.prefix_append ..)⟩
  | sized avail =>
    obtain ⟨hhist, ring, hseen, hrest⟩ := h
    exact ⟨hhist, ring, hseen.push src, hrest⟩
  | discarded window avail =>
    obtain ⟨hhist, ring, hseen, hrest⟩ := h
    exact ⟨hhist, ring, hseen.push src, hrest⟩
  | done window =>
    obtain ⟨ring, hdone⟩ := h
    exact ⟨ring, hdone.seen.push src, hdone.removed, hdone.history⟩

/-- **One step of a channel**, whichever thread makes it. -/
theorem exact_step (h : Exact c₀ c p) (hst : ChannelStep p c p' c') : Exact c₀ c' p' := by
  rcases hst with _ | src | _ | ⟨window, avail⟩ | ⟨window, avail⟩
  case stay => exact h
  case push => exact exact_push src h
  case size => exact ⟨h.1, c.ring, ⟨h.2, List.prefix_rfl⟩, rfl, rfl⟩
  case discard =>
    obtain ⟨hhist, ring, hseen, hremoved, rfl⟩ := h
    obtain ⟨havail, hfilled⟩ := Filled.discardOld window ⟨hremoved, hseen.later⟩ le_rfl
    refine ⟨hhist, ring, ⟨hseen.filled, ?_⟩, hfilled.removed, havail⟩
    show ring.accepted <+: (discardOld window c.ring ring.size).1.accepted
    rw [accepted_discardOld]
    exact hseen.later
  case pop =>
    obtain ⟨hhist, ring, hseen, hremoved, rfl⟩ := h
    have hfilled : Filled (discardOld window ring ring.size).1 c.ring :=
      ⟨hremoved, by rw [accepted_discardOld]; exact hseen.later⟩
    obtain ⟨hpopped, hgone⟩ := Filled.popInto window c.history hfilled (DecimationRun.discardOld_spec le_rfl).1
    refine ⟨ring, ⟨hseen.filled, ?_⟩, ?_, ?_⟩
    · show ring.accepted <+: (popInto window c.ring c.history _).ring.accepted
      have haccepted (avail : ℕ) : (popInto window c.ring c.history avail).ring.accepted = c.ring.accepted := by
        unfold popInto
        split <;> rfl
      rw [haccepted]
      exact hseen.later
    · exact hgone.trans removed_drain
    · rw [← hhist]
      exact hpopped

end Channels

end DecimationCycle

open DecimationCycle

/-! ## The channels of a run -/

namespace DecimationRun

section Runs

variable {n N : ℕ} [NeZero n] {toSize : Double → Double → ℕ} {s s' s₀ : DecimationRun n N} {l : Label n N}

/-- What is known of the channels in a cycle that began in the state `s₀`. -/
def CycleExact (toSize : Double → Double → ℕ) (s s₀ : DecimationRun n N) : Prop :=
  ∀ ch, Exact (s₀.channel ch) (s.channel ch) (place (fun σ => windowOf toSize σ (s.rings ch)) s ch)

theorem cycleExact_step (h : CycleExact toSize s s₀) (hlog : LogInv s) (hst : Step toSize s l s')
    (hopen : opens s s' = false) : CycleExact toSize s' s₀ := by
  intro ch
  have hwindow : (fun σ => windowOf toSize σ (s'.rings ch)) = fun σ => windowOf toSize σ (s.rings ch) :=
    funext fun σ => windowOf_congr toSize σ (capacity_step hst ch)
  rw [hwindow]
  exact exact_step (h ch) (channel_step hlog hst hopen ch)

/-- The coordinator opens a cycle when no worker is at a channel. -/
theorem place_opened (hs : (threads toSize n N).Reachable s) (hfin : s.sync.coordinator ≠ .finished)
    (hst : Step toSize s l s') (hopen : opens s s' = true) {window : DecimationSettings → ℕ} (ch : Fin N) :
    place window s' ch = .todo := by
  obtain ⟨hpc, -, hlog, hpass, hworkers⟩ := opens_cases hst hopen
  have hcycle := DecimationThread.reach_cycleInv (reach_sync hs) hfin
  have haway : Away window s' ch := by
    unfold Away
    rw [hworkers, hpass]
    exact away_of_not_wait hcycle (by simp [hpc])
  rw [place_of_away haway, hlog, if_pos rfl]

end Runs

/-! ## The records -/

section Records

variable {n N : ℕ} {s s' s₀ : DecimationRun n N}

/-- How much left each ring since `s₀`, as the worker that is at it and the records of the cycle have it. -/
structure Counts (s s₀ : DecimationRun n N) : Prop where
  gone : ∀ w last σ i ch avail seen gone, s.sync.workers w = .working last →
    s.pass w = .discarded σ i ch avail seen gone →
    (s.rings ch).removed.length = (s₀.rings ch).removed.length + gone
  logged : ∀ ch, ∀ record ∈ s.log ch,
    (s.rings ch).removed.length = (s₀.rings ch).removed.length + record.removed

/-- A step that takes nothing out of a ring, after which no more workers are past a discard. -/
theorem Counts.keep (h : Counts s s₀)
    (hpass : ∀ v last σ i ch avail seen gone, s'.sync.workers v = .working last →
      s'.pass v = .discarded σ i ch avail seen gone → s.sync.workers v = s'.sync.workers v ∧ s.pass v = s'.pass v)
    (hrings : s'.rings = s.rings) (hlog : s'.log = s.log) : Counts s' s₀ where
  gone v last σ i ch avail seen gone hpc hat := by
    obtain ⟨hworker, hsame⟩ := hpass v last σ i ch avail seen gone hpc hat
    rw [hrings]
    exact h.gone v last σ i ch avail seen gone (hworker.trans hpc) (hsame.trans hat)
  logged ch record hmem := by
    rw [hrings]
    rw [hlog] at hmem
    exact h.logged ch record hmem

/-- A step of the coordinator. -/
theorem Counts.frame (h : Counts s s₀) (hworkers : s'.sync.workers = s.sync.workers) (hpass : s'.pass = s.pass)
    (hrings : s'.rings = s.rings) (hlog : s'.log = s.log) : Counts s' s₀ :=
  h.keep (fun _ _ _ _ _ _ _ _ _ _ => ⟨by rw [hworkers], by rw [hpass]⟩) hrings hlog

/-- A step of a worker that is not past a discard after it. -/
theorem Counts.move (h : Counts s s₀) {w : Fin n} (hworkers : ∀ v, v ≠ w → s'.sync.workers v = s.sync.workers v)
    (hpass : ∀ v, v ≠ w → s'.pass v = s.pass v)
    (hout : ∀ σ i ch avail seen gone, s'.pass w ≠ .discarded σ i ch avail seen gone)
    (hrings : s'.rings = s.rings) (hlog : s'.log = s.log) : Counts s' s₀ := by
  refine h.keep (fun v last σ i ch avail seen gone _ hat => ?_) hrings hlog
  have hv : v ≠ w := by
    rintro rfl
    exact hout σ i ch avail seen gone hat
  exact ⟨(hworkers v hv).symm, (hpass v hv).symm⟩

variable [NeZero n] {toSize : Double → Double → ℕ} {l : Label n N}

/-- A step of a worker on the ring of its slot. -/
theorem Counts.inside (h : Counts s s₀) (hinv : LogInv s) {w : Fin n} {pc : PassPc N} {c : Fin N} {ring : RingBuffer Int16}
    (howner : owner c = w) (hsync : s'.sync = s.sync) (hpass : s'.pass = Function.update s.pass w pc)
    (hrings : s'.rings = Function.update s.rings c ring)
    (hself : ∀ σ i ch avail seen gone, pc = .discarded σ i ch avail seen gone →
      ch = c ∧ ring.removed.length = (s₀.rings c).removed.length + gone)
    (hother : ∀ ch, ch ≠ c → s'.log ch = s.log ch)
    (hlogged : ∀ record ∈ s'.log c, ring.removed.length = (s₀.rings c).removed.length + record.removed) :
    Counts s' s₀ := by
  refine ⟨?_, ?_⟩
  · intro v last σ i ch avail seen gone hpc hat
    rw [hpass] at hat
    by_cases hv : v = w
    · subst hv
      rw [Function.update_self] at hat
      obtain ⟨rfl, hlen⟩ := hself σ i ch avail seen gone hat
      rw [hrings, Function.update_self, hlen]
    · rw [Function.update_of_ne hv] at hat
      rw [hsync] at hpc
      have hdata := hinv.pass v last hpc
      rw [hat] at hdata
      have hc : ch ≠ c := by
        rintro rfl
        exact hv ((owner_slot hdata.1).1.symm.trans howner)
      rw [hrings, Function.update_of_ne hc]
      exact h.gone v last σ i ch avail seen gone hpc hat
  · intro ch record hmem
    by_cases hc : ch = c
    · subst hc
      rw [hrings, Function.update_self, hlogged record hmem]
    · rw [hother ch hc] at hmem
      rw [hrings, Function.update_of_ne hc]
      exact h.logged ch record hmem

/-- **One step keeps the counts of a cycle**, but for the one that opens it. -/
theorem counts_step (h : Counts s s₀) (hexact : CycleExact toSize s s₀) (hinv : LogInv s) (hst : Step toSize s l s')
    (hopen : opens s s' = false) : Counts s' s₀ := by
  rcases hst with @⟨c, src⟩ | _ | ⟨hpc, hsync⟩ | ⟨hpc, hsync⟩ | ⟨hpc, hsync⟩ |
    @⟨w, _, sync, hpc, hsync⟩ | @⟨w, loaded, last, hpc, hpass⟩ | @⟨w, _, σ, last, i, c, hpc, hpass, hch⟩ |
    @⟨w, _, σ, last, i, sync, hpc, hpass, hch, hsync⟩ | @⟨w, _, σ, last, i, avail, c, hpc, hpass⟩ |
    @⟨w, _, σ, last, i, avail, seen, gone, c, d, hpc, hpass, hd⟩ | hsync
  case push =>
    have hrings (ch : Fin N) : (Function.update s.rings c ((s.rings c).pushBulk src).2 ch).removed =
        (s.rings ch).removed := by
      by_cases hc : ch = c
      · subst hc
        rw [Function.update_self, RingBuffer.removed_pushBulk]
      · rw [Function.update_of_ne hc]
    refine ⟨fun w last σ i ch avail seen gone hpc hat => ?_, fun ch record hmem => ?_⟩
    · exact (congrArg List.length (hrings ch)).trans (h.gone w last σ i ch avail seen gone hpc hat)
    · exact (congrArg List.length (hrings ch)).trans (h.logged ch record hmem)
  case look => exact h.frame rfl rfl rfl rfl
  case coordinate => exact h.frame (DecimationThread.coordinator_workers (DecimationThread.step_cases hsync)) rfl rfl rfl
  case openCycle => simp [opens] at hopen
  case publish => exact h.frame (DecimationThread.coordinator_workers (DecimationThread.step_cases hsync)) rfl rfl rfl
  case wake =>
    have hself : Function.update s.pass w .load w = .load := Function.update_self ..
    exact h.move (fun v hv => DecimationThread.worker_keeps hv (DecimationThread.step_cases hsync))
      (fun v hv => Function.update_of_ne hv ..) (fun _ _ _ _ _ _ hat => by cases hself.symm.trans hat) rfl rfl
  case load =>
    have hself : Function.update s.pass w (.slot loaded 0) w = .slot loaded 0 := Function.update_self ..
    exact h.move (fun _ _ => rfl) (fun v hv => Function.update_of_ne hv ..)
      (fun _ _ _ _ _ _ hat => by cases hself.symm.trans hat) rfl rfl
  case size =>
    have hself : Function.update s.pass w (.sized σ i c (s.rings c).size) w = .sized σ i c (s.rings c).size :=
      Function.update_self ..
    exact h.move (fun _ _ => rfl) (fun v hv => Function.update_of_ne hv ..)
      (fun _ _ _ _ _ _ hat => by cases hself.symm.trans hat) rfl rfl
  case count =>
    exact h.move (fun v hv => DecimationThread.worker_keeps hv (DecimationThread.step_cases hsync)) (fun _ _ => rfl)
      (fun _ _ _ _ _ _ hat => by cases hpass.symm.trans hat) rfl rfl
  case discard =>
    have hdata := hinv.pass w last hpc
    rw [hpass] at hdata
    obtain ⟨rfl, -⟩ := owner_slot hdata.1
    have hnil : s.log c = [] := hinv.log_nil hpc (by rw [hpass]; rfl) hdata.1
    have hplace := hexact c
    rw [place_of_working hnil hpc hpass (if_pos rfl)] at hplace
    obtain ⟨-, ring, hseen, hremoved, -⟩ := hplace
    have hbefore : (s.rings c).removed = (s₀.rings c).removed := hremoved.trans hseen.filled.removed
    refine h.inside hinv rfl rfl rfl rfl ?_ (fun _ _ => rfl) (fun record hmem => ?_)
    · intro σ' i' ch' avail' seen' gone' hat
      cases hat
      refine ⟨rfl, ?_⟩
      rw [← hbefore]
      exact length_removed_discardOld hdata.2
    · have hmem' : record ∈ s.log c := hmem
      rw [hnil] at hmem'
      cases hmem'
  case pop =>
    have hdata := hinv.pass w last hpc
    rw [hpass] at hdata
    obtain ⟨rfl, -⟩ := owner_slot hdata.1
    have hnil : s.log c = [] := hinv.log_nil hpc (by rw [hpass]; rfl) hdata.1
    have hgone := h.gone _ last σ i c avail seen gone hpc hpass
    refine h.inside hinv rfl rfl rfl rfl ?_ (fun ch hc => Function.update_of_ne hc ..) (fun record hmem => ?_)
    · intro σ' i' ch' avail' seen' gone' hat
      cases hat
    · have hmem' : record ∈ Function.update s.log c _ c := hmem
      rw [Function.update_self, hnil, List.nil_append, List.mem_singleton] at hmem'
      subst hmem'
      subst hd
      rw [length_removed_popInto, hgone, Nat.add_assoc]
  case stop =>
    exact h.frame (DecimationThread.stop_keeps (DecimationThread.step_cases hsync)).1 rfl rfl rfl

/-- The coordinator opens a cycle when no worker is in its pass. -/
theorem counts_opened (hs : (threads toSize n N).Reachable s) (hfin : s.sync.coordinator ≠ .finished)
    (hst : Step toSize s l s') (hopen : opens s s' = true) : Counts s' s' := by
  obtain ⟨hpc, -, hlog, -, hworkers⟩ := opens_cases hst hopen
  refine ⟨fun w last _ _ _ _ _ _ hworking _ => ?_, fun ch record hmem => ?_⟩
  · have hok := (DecimationThread.reach_cycleInv (reach_sync hs) hfin).worker w
    rw [← hworkers, hworking] at hok
    exact absurd hok.1 (by simp [hpc])
  · rw [hlog] at hmem
    cases hmem

/-- **What is known of the channels and of the records since a cycle was opened.** -/
theorem reach_cycle {p : DecimationRun n N × DecimationRun n N} (hp : ((threads toSize n N).since opens).Reachable p) :
    p.1.sync.coordinator ≠ .finished → CycleExact toSize p.1 p.2 ∧ Counts p.1 p.2 := by
  refine Lts.since_rule
    (J := fun s s₀ => s.sync.coordinator ≠ .finished → CycleExact toSize s s₀ ∧ Counts s s₀) ?_ ?_ ?_ hp
  · rintro s ⟨rings, rfl⟩ -
    refine ⟨fun ch => ⟨rfl, rfl, List.prefix_rfl⟩, fun w last _ _ _ _ _ _ hworking _ => ?_, fun ch record hmem => ?_⟩
    · cases hworking
    · cases hmem
  · intro s s₀ l s' hs _ hst hopen hfin
    have hstep := step_cases hst
    have hfin' := unfinished_of_step hfin hstep
    refine ⟨fun ch => ?_, counts_opened hs hfin' hstep hopen⟩
    rw [place_opened hs hfin' hstep hopen]
    exact ⟨rfl, rfl, List.prefix_rfl⟩
  · intro s s₀ l s' hs h hst hopen hfin
    have hstep := step_cases hst
    have hfin' := unfinished_of_step hfin hstep
    have hinv := reach_logInv hs hfin'
    obtain ⟨hexact, hcounts⟩ := h hfin'
    exact ⟨cycleExact_step hexact hinv hstep hopen, counts_step hcounts hexact hinv hstep hopen⟩

/-- The raw count of each slot is the length of its history. -/
def RawOk (s : DecimationRun n N) : Prop := ∀ w i, (s.states w).rawCounts i = ((s.states w).historyBufs i).length

theorem rawOk_step (h : s.RawOk) (hst : Step toSize s l s') : s'.RawOk := by
  rcases hst with _ | _ | _ | _ | _ | _ | _ | _ | _ | _ | _ | _
  case pop w _ σ _ j _ _ _ _ d _ _ _ =>
    intro v i
    show (Function.update s.states w _ v).rawCounts i = ((Function.update s.states w _ v).historyBufs i).length
    by_cases hv : v = w
    · subst hv
      simp only [Function.update_self, WorkerState.store]
      by_cases hi : i = j
      · subst hi
        simp only [Function.update_self]
      · simp only [Function.update_of_ne hi]
        exact h v i
    · simp only [Function.update_of_ne hv]
      exact h v i
  all_goals exact h

theorem reach_rawOk (hs : (threads toSize n N).Reachable s) : s.RawOk :=
  hs.invariant (I := RawOk) (fun _ h0 => by obtain ⟨rings, rfl⟩ := h0; exact fun _ _ => rfl)
    fun _ _ _ h _ hst => rawOk_step h (step_cases hst)

end Records

/-! ## The barrier -/

section Barrier

variable {n N : ℕ} [NeZero n] {toSize : Double → Double → ℕ}

/-- What a slot holds after the cycle: its history, that decimated, and how long it was. -/
structure Decimated (s : DecimationRun n N) (ch : Fin N) : Prop where
  result : (s.states (owner ch)).decResults (slot n ch) =
    if historyOf s.states ch = [] then []
    else Decimator.decimate (historyOf s.states ch) (s.used (owner ch) (slot n ch)).effectiveMode
      (s.used (owner ch) (slot n ch)).targetPoints.toNat
  raw : (s.states (owner ch)).rawCounts (slot n ch) = (historyOf s.states ch).length

theorem reach_decimated {s : DecimationRun n N} (hs : (threads toSize n N).Reachable s) (ch : Fin N) :
    Decimated s ch where
  result := by
    rw [(reach_published hs).1, historyOf]
    by_cases hne : (s.states (owner ch)).historyBufs (slot n ch) = []
    · rw [if_pos hne, hne]
      rfl
    · rw [if_neg hne]
      exact decResult_of_ne hne
  raw := reach_rawOk hs _ _

/-- **Past its wait the coordinator finds every worker out of its pass**, which each has made once for the generation,
**and every channel drained and decimated once** since the cycle was opened, by its worker, in the slot that the gathering
looks up: of the ring as the worker had seen it nothing is left, the history was extended by it, and the slot holds that
history decimated. -/
theorem barrier {p : DecimationRun n N × DecimationRun n N} (hp : ((threads toSize n N).since opens).Reachable p)
    (hstop : p.1.sync.stop = .idle) (hpast : PastWait p.1) :
    (∀ w, p.1.sync.workers w = .waiting p.1.sync.workGeneration ∧ p.1.sync.passes w = 1) ∧
      ∀ ch, (assignedChannels N (owner (n := n) ch))[slot n ch]? = some ch ∧
        (∃ ring, p.1.log ch = [⟨owner ch, slot n ch, ring.size, ring.size⟩] ∧
          DrainedOnce (windowOf toSize (p.1.used (owner ch) (slot n ch)) (p.1.rings ch)) ring (p.2.channel ch)
            (p.1.channel ch)) ∧
        Decimated p.1 ch := by
  have hs := Lts.since_fst hp
  have hfin : p.1.sync.coordinator ≠ .finished := by rcases hpast.2 with h | h | h | h <;> simp [h]
  obtain ⟨hworkers, hrecords⟩ := past_wait hs hstop hpast
  obtain ⟨hexact, hcounts⟩ := reach_cycle hp hfin
  refine ⟨hworkers, fun ch => ⟨slot_spec ch, ?_, reach_decimated hs ch⟩⟩
  obtain ⟨seen, hlog⟩ := hrecords ch
  have hchannel := hexact ch
  rw [place_of_logged (by rw [hlog]; exact List.cons_ne_nil _ _)] at hchannel
  obtain ⟨ring, hdrained⟩ := hchannel
  -- what is recorded left the ring, and that is what the worker had seen in it
  have hlen := hcounts.logged ch _ (by rw [hlog]; exact List.mem_singleton_self _)
  have hseen : seen = ring.size := by
    have hremoved : (p.1.rings ch).removed = ring.accepted := hdrained.removed
    have hbefore : ring.removed = (p.2.rings ch).removed := hdrained.seen.filled.removed
    rw [hremoved, ring.split, List.length_append, hbefore] at hlen
    exact (Nat.add_left_cancel hlen).symm
  exact ⟨ring, by rw [hlog, hseen], hdrained⟩

/-- Two workers with a channel each, of which the second is first, and a sample pushed in between. -/
theorem barrier_two :
    ∃ p : DecimationRun 2 2 × DecimationRun 2 2, p.1.sync.coordinator = .gather ∧ (p.2.rings 0).items = [3, 1, 2] ∧
      (p.1.rings 0).removed = [3, 1, 2, 4] ∧ (p.1.states 0).decResults 0 = [1, 4] ∧
      (∀ w, p.1.sync.workers w = .waiting p.1.sync.workGeneration ∧ p.1.sync.passes w = 1) ∧
      ∀ ch, (assignedChannels 2 (owner (n := 2) ch))[slot 2 ch]? = some ch ∧
        (∃ ring, p.1.log ch = [⟨owner ch, slot 2 ch, ring.size, ring.size⟩] ∧
          DrainedOnce (windowOf (fun _ _ => 10000) (p.1.used (owner ch) (slot 2 ch)) (p.1.rings ch)) ring
            (p.2.channel ch) (p.1.channel ch)) ∧
        Decimated p.1 ch := by
  have hrun : (((threads (fun _ _ => 10000) 2 2).since opens).exec
      (started ![ringOf [3, 1, 2], ringOf [5]], started ![ringOf [3, 1, 2], ringOf [5]])
      (List.replicate 5 (Label.coordinator 2) ++ List.replicate 6 (Label.worker 1 (minMaxAt 2)) ++ [Label.push 0 [4]] ++
        List.replicate 6 (Label.worker 0 (minMaxAt 2)) ++ [Label.coordinator 2])).map (fun p =>
        ((p.1.sync.coordinator, p.1.sync.stop, p.1.cycles), (p.2.rings 0).items, (p.1.rings 0).removed,
          (p.1.states 0).decResults 0)) =
      some ((.gather, .idle, 1), [3, 1, 2], [3, 1, 2, 4], [1, 4]) := by decide +kernel
  obtain ⟨p, hp, hobs⟩ := Option.map_eq_some_iff.mp hrun
  simp only [Prod.mk.injEq] at hobs
  obtain ⟨⟨hco, hstop, hcycles⟩, hbefore, hremoved, hresult⟩ := hobs
  have hreach : ((threads (fun _ _ => 10000) 2 2).since opens).Reachable p :=
    Lts.reachable_of_exec _ ⟨⟨_, rfl⟩, rfl⟩ hp
  exact ⟨p, hco, hbefore, hremoved, hresult, barrier hreach hstop ⟨by rw [hcycles]; exact Nat.one_pos, .inl hco⟩⟩

end Barrier

end DecimationRun

end Grebe
