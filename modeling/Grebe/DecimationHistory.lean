import Grebe.DecimationBarrier

/-!
# Grebe.DecimationHistory — the window of raw samples that a channel keeps

Samples leave a ring discarded or popped, and the popped ones extend the history of the channel, which is trimmed to the
window of the cycle.  `size` is read before both, and producers push in between.

* `Place`: how far the drain of a channel is in a cycle; `ChannelStep`: what a step of any thread can do to it.  Both
  paths make such steps (`SingleRun.channel_step`, `DecimationRun.channel_step`).
* `Holds`: what is known of a channel at its place, against the state in which the cycle began; `holds_step`.
* `reach_contiguous`: outside the drain every history is a segment of what was pushed, up to what was taken out last.
* `window_contiguous`: after every cycle, on both paths, the history is the newest of what was taken out of the ring, a
  segment of what was pushed; its length is that before and what was taken out, cut to the window.
-/

namespace Grebe

open Lib

namespace DecimationCycle

/-! ## One channel -/

section Channels

/-- The ring of a channel and its history. -/
structure Channel where
  ring : RingBuffer Int16
  history : List Int16

/-- The history is a segment of what was pushed, and ends with what was taken out last. -/
def Channel.Contiguous (c : Channel) : Prop :=
  ∃ older newer, c.ring.accepted = older ++ c.history ++ newer ∧ c.ring.removed = older ++ c.history

theorem Channel.contiguous_iff {c : Channel} : c.Contiguous ↔ c.history <:+ c.ring.removed := by
  constructor
  · rintro ⟨older, -, -, hremoved⟩
    exact ⟨older, hremoved.symm⟩
  · rintro ⟨older, hremoved⟩
    exact ⟨older, c.ring.items, by rw [hremoved, c.ring.split], hremoved.symm⟩

/-- How far the drain of a channel is in a cycle. -/
inductive Place
  | todo
  /-- past `size` -/
  | sized (avail : ℕ)
  /-- past `discard_bulk` -/
  | discarded (window avail : ℕ)
  | done (window : ℕ)

/-- What a step does to a channel and its place. -/
inductive ChannelStep : Place → Channel → Place → Channel → Prop
  | stay {p : Place} {c : Channel} : ChannelStep p c p c
  | push {p : Place} {c : Channel} (src : List Int16) : ChannelStep p c p { c with ring := (c.ring.pushBulk src).2 }
  | size {c : Channel} : ChannelStep .todo c (.sized c.ring.size) c
  | discard (window avail : ℕ) {c : Channel} : ChannelStep (.sized avail) c
      (.discarded window (discardOld window c.ring avail).2) { c with ring := (discardOld window c.ring avail).1 }
  | pop (window avail : ℕ) {c : Channel} : ChannelStep (.discarded window avail) c (.done window)
      ⟨(popInto window c.ring c.history avail).ring, (popInto window c.ring c.history avail).history⟩

/-- Nothing was taken out of the ring. -/
def Untouched (c₀ c : Channel) : Prop := c.history = c₀.history ∧ c.ring.removed = c₀.ring.removed

/-- The history is as it was, and where samples were discarded there is a whole window to pop. -/
structure Discarded (window avail : ℕ) (c₀ c : Channel) : Prop where
  history : c.history = c₀.history
  removed : c₀.ring.removed <+: c.ring.removed
  full : c.ring.removed = c₀.ring.removed ∨ 0 < window ∧ avail = window

/-- What a cycle with this window makes of a channel. -/
structure Taken (window : ℕ) (c₀ c : Channel) : Prop where
  contiguous : c.Contiguous
  removed : c₀.ring.removed <+: c.ring.removed
  length : 0 < window → c₀.ring.removed.length < c.ring.removed.length →
    c.history.length = min window (c₀.history.length + (c.ring.removed.length - c₀.ring.removed.length))

/-- What is known of a channel at its place in a cycle that found it as `c₀`. -/
def Holds (c₀ c : Channel) : Place → Prop
  | .todo => Untouched c₀ c
  | .sized avail => Untouched c₀ c ∧ avail ≤ c.ring.size
  | .discarded window avail => Discarded window avail c₀ c ∧ avail ≤ c.ring.size
  | .done window => Taken window c₀ c

variable {c₀ c c' : Channel} {p p' : Place} {window avail : ℕ}

theorem holds_push (src : List Int16) (h : Holds c₀ c p) : Holds c₀ { c with ring := (c.ring.pushBulk src).2 } p := by
  have hsize : c.ring.size ≤ (c.ring.pushBulk src).2.size := by
    rw [RingBuffer.size_pushBulk]
    exact Nat.le_add_right ..
  cases p with
  | todo => exact h
  | sized avail => exact ⟨h.1, h.2.trans hsize⟩
  | discarded window avail => exact ⟨⟨h.1.history, h.1.removed, h.1.full⟩, h.2.trans hsize⟩
  | done window =>
    have hsuffix : c.history <:+ c.ring.removed := Channel.contiguous_iff.mp h.contiguous
    exact ⟨Channel.contiguous_iff.mpr hsuffix, h.removed, h.length⟩

theorem discarded_of_untouched (h : Untouched c₀ c) :
    Discarded window (discardOld window c.ring avail).2 c₀ { c with ring := (discardOld window c.ring avail).1 } := by
  unfold discardOld
  split_ifs with hold
  · refine ⟨h.1, ?_, .inr ⟨hold.1, rfl⟩⟩
    show c₀.ring.removed <+: c.ring.removed ++ _
    rw [h.2]
    exact List.prefix_append ..
  · exact ⟨h.1, h.2 ▸ List.prefix_rfl, .inl h.2⟩

/-- A history extended by what is taken out next, which is the whole window where samples were discarded before. -/
theorem extendHistory_suffix {hist removed popped : List Int16}
    (h : hist <:+ removed ∨ 0 < window ∧ popped.length = window) :
    extendHistory window hist popped <:+ removed ++ popped := by
  unfold extendHistory
  rcases h with ⟨older, rfl⟩ | ⟨hwindow, hfull⟩
  · have hall : hist ++ popped <:+ older ++ hist ++ popped := ⟨older, (List.append_assoc ..).symm⟩
    dsimp only
    split_ifs
    · exact (List.drop_suffix _ _).trans hall
    · exact hall
  · have hpopped : popped <:+ removed ++ popped := List.suffix_append ..
    have hlen : (hist ++ popped).length = hist.length + window := by rw [List.length_append, hfull]
    dsimp only
    split_ifs with hold
    · rwa [hlen, Nat.add_sub_cancel, List.drop_left]
    · have hnil : hist = [] := by
        rw [← List.length_eq_zero_iff]
        by_contra hne
        exact hold ⟨hwindow, by omega⟩
      rwa [hnil, List.nil_append]

theorem Untouched.contiguous (h₀ : c₀.Contiguous) (h : Untouched c₀ c) : c.Contiguous := by
  rw [Channel.contiguous_iff, h.1, h.2]
  exact Channel.contiguous_iff.mp h₀

theorem taken_of_untouched (h₀ : c₀.Contiguous) (h : Untouched c₀ c) : Taken window c₀ c where
  contiguous := h.contiguous h₀
  removed := h.2 ▸ List.prefix_rfl
  length _ hlt := absurd hlt (by rw [h.2]; exact lt_irrefl _)

/-- **The pop of a drain.** -/
theorem taken_of_discarded (h₀ : c₀.Contiguous) (h : Discarded window avail c₀ c) (hsize : avail ≤ c.ring.size) :
    Taken window c₀
      ⟨(popInto window c.ring c.history avail).ring, (popInto window c.ring c.history avail).history⟩ := by
  unfold popInto
  split_ifs with hpos
  · have hpopped : (c.ring.popBulk avail).1.length = avail := by
      rw [RingBuffer.length_popBulk, min_eq_left hsize]
    obtain ⟨gone, hgone⟩ := h.removed
    refine ⟨?_, ?_, fun hwindow _ => ?_⟩
    · rw [Channel.contiguous_iff]
      show extendHistory window c.history _ <:+ c.ring.removed ++ _
      apply extendHistory_suffix
      rcases h.full with hsame | ⟨hwindow, hfull⟩
      · left
        rw [h.history, hsame]
        exact Channel.contiguous_iff.mp h₀
      · exact .inr ⟨hwindow, hpopped.trans hfull⟩
    · exact ⟨gone ++ (c.ring.popBulk avail).1, by rw [← List.append_assoc, hgone]; rfl⟩
    · have hremoved : (c.ring.popBulk avail).2.removed.length = c₀.ring.removed.length + gone.length + avail := by
        rw [RingBuffer.removed_popBulk, List.length_append, hpopped, ← hgone, List.length_append]
      dsimp only
      rw [length_extendHistory, if_neg hwindow.ne', hremoved, hpopped, h.history]
      rcases h.full with hsame | ⟨-, hfull⟩
      · have hnone := congrArg List.length hgone
        rw [List.length_append, hsame] at hnone
        omega
      · omega
  · refine taken_of_untouched h₀ ⟨h.history, ?_⟩
    rcases h.full with hsame | ⟨hwindow, hfull⟩
    · exact hsame
    · omega

theorem windowOf_congr (toSize : Double → Double → ℕ) (σ : DecimationSettings) {ring ring' : RingBuffer Int16}
    (h : ring'.capacity = ring.capacity) : windowOf toSize σ ring' = windowOf toSize σ ring := by
  rw [windowOf, h, windowOf]

theorem capacity_discardOld (window : ℕ) (ring : RingBuffer Int16) (avail : ℕ) :
    (discardOld window ring avail).1.capacity = ring.capacity := by
  unfold discardOld
  split <;> rfl

theorem capacity_popInto (window : ℕ) (ring : RingBuffer Int16) (hist : List Int16) (avail : ℕ) :
    (popInto window ring hist avail).ring.capacity = ring.capacity := by
  unfold popInto
  split <;> rfl

theorem capacity_update {N : ℕ} {rings : Fin N → RingBuffer Int16} {c : Fin N} {ring : RingBuffer Int16}
    (h : ring.capacity = (rings c).capacity) (ch : Fin N) :
    (Function.update rings c ring ch).capacity = (rings ch).capacity := by
  by_cases hc : ch = c
  · subst hc
    rw [Function.update_self, h]
  · rw [Function.update_of_ne hc]

/-- **One step of a channel**, whichever thread makes it. -/
theorem holds_step (h₀ : c₀.Contiguous) (h : Holds c₀ c p) (hst : ChannelStep p c p' c') : Holds c₀ c' p' := by
  rcases hst with _ | src | _ | ⟨window, avail⟩ | ⟨window, avail⟩
  case stay => exact h
  case push => exact holds_push src h
  case size => exact ⟨h, le_rfl⟩
  case discard => exact ⟨discarded_of_untouched h.1, (DecimationRun.discardOld_spec h.2).1⟩
  case pop => exact taken_of_discarded h₀ h.1 h.2

end Channels

end DecimationCycle

open DecimationCycle

/-! ## The single path -/

namespace SingleRun

section Steps

variable {N : ℕ} (toSize : Double → Double → ℕ) (s : SingleRun N)

/-- Between its `load` and the end of its loop over the channels. -/
def draining : SinglePc N → Bool
  | .drain _ _ _ | .sized _ _ _ _ | .discarded _ _ _ _ => true
  | _ => false

/-- What one step does. -/
inductive Step : Label N → SingleRun N → Prop
  | push (ch : Fin N) (src : List Int16) :
      Step (.push ch src) { s with rings := Function.update s.rings ch ((s.rings ch).pushBulk src).2 }
  /-- The thread goes on outside the drain. -/
  | roam {loaded : DecimationSettings} (pc : SinglePc N) (published : List (Publication N))
      (hpc : draining s.pc = false) (hpc' : draining pc = false) :
      Step (.single loaded) { s with pc := pc, published := published }
  | load (loaded : DecimationSettings) (hpc : s.pc = .load) : Step (.single loaded) { s with pc := .drain loaded 0 0 }
  | size {loaded σ : DecimationSettings} {totalNew : ℕ} (ch : Fin N) (hpc : s.pc = .drain σ ch totalNew) :
      Step (.single loaded) { s with pc := .sized σ ch totalNew (s.rings ch).size }
  | discard {loaded σ : DecimationSettings} {totalNew avail : ℕ} (ch : Fin N) (hpc : s.pc = .sized σ ch totalNew avail) :
      Step (.single loaded)
        { s with
          rings := Function.update s.rings ch (discardOld (windowOf toSize σ (s.rings ch)) (s.rings ch) avail).1
          pc := .discarded σ ch totalNew (discardOld (windowOf toSize σ (s.rings ch)) (s.rings ch) avail).2 }
  | pop {loaded σ : DecimationSettings} {totalNew avail : ℕ} {d : Drained} (ch : Fin N)
      (hpc : s.pc = .discarded σ ch totalNew avail)
      (hd : d = popInto (windowOf toSize σ (s.rings ch)) (s.rings ch) (s.histories ch) avail) :
      Step (.single loaded)
        { s with
          rings := Function.update s.rings ch d.ring
          histories := Function.update s.histories ch d.history
          pc := .drain σ (ch + 1) (totalNew + d.popped) }
  /-- All channels are drained. -/
  | drained {loaded σ : DecimationSettings} {ch totalNew : ℕ} (hpc : s.pc = .drain σ ch totalNew) (hch : N ≤ ch) :
      Step (.single loaded) { s with pc := .decimate totalNew }
  | stop : Step .stop { s with stopRequested := true }

variable {toSize s} {s' : SingleRun N} {l : Label N}

theorem step_cases (h : s.step toSize l = some s') : Step toSize s l s' := by
  rcases l with ⟨ch, src⟩ | loaded | _
  · cases h
    exact .push ch src
  · simp only [step, stepSingle] at h
    split at h
    case h_1 hpc =>
      cases h
      exact .roam _ _ (by rw [hpc]; rfl) (by split_ifs <;> rfl)
    case h_2 ch totalAvail hpc =>
      split_ifs at h <;> cases h <;> exact .roam _ _ (by rw [hpc]; rfl) rfl
    case h_3 hpc =>
      cases h
      exact .load loaded hpc
    case h_4 σ ch totalNew hpc =>
      split_ifs at h with hch
      · cases h
        exact .size ⟨ch, hch⟩ hpc
      · cases h
        exact .drained hpc (not_lt.mp hch)
    case h_5 σ ch totalNew avail hpc =>
      cases h
      exact .discard ch hpc
    case h_6 σ ch totalNew avail hpc =>
      cases h
      exact .pop ch hpc rfl
    case h_7 totalNew hpc =>
      cases h
      exact .roam _ _ (by rw [hpc]; rfl) rfl
    case h_8 => cases h
  · cases h
    exact .stop

/-- The thread opens a cycle. -/
def opens (s s' : SingleRun N) : Bool :=
  match s.pc, s'.pc with
  | .load, .drain _ _ _ => true
  | _, _ => false

/-- A channel of the state. -/
def channel (s : SingleRun N) (ch : Fin N) : Channel := ⟨s.rings ch, s.histories ch⟩

/-- How far the drain of channel `ch` is, in a cycle with this window. -/
def place (window : ℕ) (pc : SinglePc N) (ch : Fin N) : Place :=
  match pc with
  | .drain _ c _ => if ch < c then .done window else .todo
  | .sized _ c _ avail => if ch < c then .done window else if ch = c then .sized avail else .todo
  | .discarded _ c _ avail => if ch < c then .done window else if ch = c then .discarded window avail else .todo
  | _ => .done window

/-- The settings that the drain goes by. -/
def loaded : SinglePc N → Option DecimationSettings
  | .drain σ _ _ | .sized σ _ _ _ | .discarded σ _ _ _ => some σ
  | _ => none

theorem place_of_not_draining (window : ℕ) {pc : SinglePc N} (h : draining pc = false) (ch : Fin N) :
    place window pc ch = .done window := by
  unfold place
  cases pc <;> first | rfl | cases h

theorem capacity_step (hst : Step toSize s l s') (ch : Fin N) : (s'.rings ch).capacity = (s.rings ch).capacity := by
  rcases hst with ⟨c, src⟩ | _ | _ | _ | _ | ⟨c, hpc, hd⟩ | _ | _
  case push =>
    have hpush : ((s.rings c).pushBulk src).2.capacity = (s.rings c).capacity := rfl
    exact capacity_update hpush ch
  case discard => exact capacity_update (capacity_discardOld ..) ch
  case pop =>
    subst hd
    exact capacity_update (capacity_popInto ..) ch
  all_goals rfl

/-- The settings stay those of the cycle. -/
theorem loaded_step {σ : DecimationSettings} (hσ : ∀ σ' ∈ loaded s.pc, σ' = σ) (hst : Step toSize s l s')
    (hopen : opens s s' = false) : ∀ σ' ∈ loaded s'.pc, σ' = σ := by
  rcases hst with _ | ⟨pc, published, hpc, hpc'⟩ | ⟨_, hpc⟩ | ⟨c, hpc⟩ | ⟨c, hpc⟩ | ⟨c, hpc, hd⟩ | _ | _
  case push | stop => exact hσ
  case roam =>
    have hnone : loaded pc = none := by
      cases pc <;> first | rfl | cases hpc'
    rw [show loaded _ = none from hnone]
    exact nofun
  case load => simp [opens, hpc] at hopen
  case drained => exact nofun
  all_goals
    rw [hpc] at hσ
    exact hσ

/-- **The steps of the single path on a channel**, but for the one that opens a cycle. -/
theorem channel_step {σ : DecimationSettings} (hσ : ∀ σ' ∈ loaded s.pc, σ' = σ) (hst : Step toSize s l s')
    (hopen : opens s s' = false) (ch : Fin N) :
    ChannelStep (place (windowOf toSize σ (s.rings ch)) s.pc ch) (s.channel ch)
      (place (windowOf toSize σ (s.rings ch)) s'.pc ch) (s'.channel ch) := by
  rcases hst with ⟨c, src⟩ | ⟨pc, published, hpc, hpc'⟩ | ⟨_, hpc⟩ | ⟨c, hpc⟩ | ⟨c, hpc⟩ | ⟨c, hpc, hd⟩ | ⟨hpc, hch⟩ | _
  case push =>
    by_cases hc : ch = c
    · subst hc
      simp only [channel, Function.update_self]
      exact .push src
    · simp only [channel, Function.update_of_ne hc]
      exact .stay
  case roam =>
    rw [place_of_not_draining _ hpc, place_of_not_draining _ hpc']
    exact .stay
  case load => simp [opens, hpc] at hopen
  case size =>
    rw [hpc]
    rcases lt_trichotomy ch c with hlt | rfl | hgt
    · simp only [place, if_pos hlt, Fin.val_fin_lt]
      exact .stay
    · simp only [place, lt_irrefl, if_false, if_true]
      exact .size
    · simp only [place, Fin.val_fin_lt, if_neg hgt.not_gt, if_neg hgt.ne']
      exact .stay
  case discard σ' totalNew avail =>
    rw [hpc] at hσ ⊢
    obtain rfl : σ' = σ := hσ σ' rfl
    rcases lt_trichotomy ch c with hlt | rfl | hgt
    · simp only [place, if_pos hlt, channel, Function.update_of_ne hlt.ne]
      exact .stay
    · simp only [place, lt_irrefl, if_false, if_true, channel, Function.update_self]
      exact .discard _ avail
    · simp only [place, if_neg hgt.not_gt, if_neg hgt.ne', channel, Function.update_of_ne hgt.ne']
      exact .stay
  case pop σ' totalNew avail d =>
    rw [hpc] at hσ ⊢
    obtain rfl : σ' = σ := hσ σ' rfl
    subst hd
    rcases lt_trichotomy ch c with hlt | rfl | hgt
    · have hlt' : ch.val < c.val + 1 := Nat.lt_succ_of_lt hlt
      simp only [place, if_pos hlt, if_pos hlt', channel, Function.update_of_ne hlt.ne]
      exact .stay
    · simp only [place, lt_irrefl, if_false, if_true, if_pos (Nat.lt_succ_self _), channel, Function.update_self]
      exact .pop _ avail
    · have hgt' : ¬ ch.val < c.val + 1 := not_lt.mpr hgt
      simp only [place, if_neg hgt.not_gt, if_neg hgt.ne', if_neg hgt', channel, Function.update_of_ne hgt.ne']
      exact .stay
  case drained c totalNew =>
    rw [hpc]
    simp only [place, if_pos (ch.isLt.trans_le hch)]
    exact .stay
  case stop => exact .stay

/-- What is known in a cycle that began in the state `s₀`. -/
structure CycleHolds (toSize : Double → Double → ℕ) (s s₀ : SingleRun N) (σ : DecimationSettings) : Prop where
  settings : ∀ σ' ∈ loaded s.pc, σ' = σ
  holds : ∀ ch, Holds (s₀.channel ch) (s.channel ch) (place (windowOf toSize σ (s.rings ch)) s.pc ch)

/-- What is known of the channels, whatever the settings that `s₀` may have loaded. -/
def CycleInv (toSize : Double → Double → ℕ) (s s₀ : SingleRun N) : Prop :=
  (∀ ch, (s₀.channel ch).Contiguous) ∧ ∀ σ, (∀ σ' ∈ loaded s₀.pc, σ' = σ) → CycleHolds toSize s s₀ σ

theorem cycleInv_step {s₀ : SingleRun N} (h : CycleInv toSize s s₀) (hst : Step toSize s l s')
    (hopen : opens s s' = false) : CycleInv toSize s' s₀ := by
  refine ⟨h.1, ?_⟩
  intro σ hσ
  obtain ⟨hsettings, hholds⟩ := h.2 σ hσ
  refine ⟨loaded_step hsettings hst hopen, ?_⟩
  intro ch
  rw [windowOf_congr toSize σ (capacity_step hst ch)]
  exact holds_step (h.1 ch) (hholds ch) (channel_step hsettings hst hopen ch)

/-- Outside the drain every channel is done, and its history contiguous. -/
theorem CycleInv.taken {s₀ : SingleRun N} (h : CycleInv toSize s s₀) (hpc : draining s.pc = false) {σ : DecimationSettings}
    (hσ : ∀ σ' ∈ loaded s₀.pc, σ' = σ) (ch : Fin N) :
    Taken (windowOf toSize σ (s.rings ch)) (s₀.channel ch) (s.channel ch) := by
  have hholds := (h.2 σ hσ).holds ch
  rwa [place_of_not_draining _ hpc] at hholds

theorem opens_cases (hst : Step toSize s l s') (hopen : opens s s' = true) :
    ∃ σ, s.pc = .load ∧ s' = { s with pc := .drain σ 0 0 } := by
  unfold opens at hopen
  split at hopen
  case h_1 hpc hpc' =>
    rcases hst with ⟨c, src⟩ | ⟨pc, published, hout, hout'⟩ | ⟨σ, hload⟩ | ⟨c, hdrain⟩ | ⟨c, hsized⟩ | ⟨c, hgone, hd⟩ |
      ⟨hdrain, hch⟩ | _
    case load => exact ⟨σ, hload, rfl⟩
    case push | stop => exact absurd (hpc.symm.trans hpc') nofun
    case roam =>
      rw [show pc = _ from hpc'] at hout'
      cases hout'
    case size | drained => exact absurd (hpc.symm.trans hdrain) nofun
    case discard => exact absurd (hpc.symm.trans hsized) nofun
    case pop => exact absurd (hpc.symm.trans hgone) nofun
  case h_2 => cases hopen

theorem reach_cycleInv {p : SingleRun N × SingleRun N} (hp : ((threads toSize N).since opens).Reachable p) :
    CycleInv toSize p.1 p.2 := by
  refine Lts.since_rule (J := CycleInv toSize) ?_ ?_ ?_ hp
  · rintro s ⟨rings, rfl⟩
    have hcontiguous (ch : Fin N) : ((started rings).channel ch).Contiguous :=
      Channel.contiguous_iff.mpr List.nil_suffix
    exact ⟨hcontiguous, fun σ _ => ⟨nofun, fun ch => taken_of_untouched (hcontiguous ch) ⟨rfl, rfl⟩⟩⟩
  · intro s s₀ l s' _ h hst hopen
    obtain ⟨σ, hpc, rfl⟩ := opens_cases (step_cases hst) hopen
    have hσ : ∀ σ' ∈ loaded s₀.pc, σ' = (loaded s₀.pc).getD σ := fun σ' hmem => by
      rw [Option.mem_def.mp hmem, Option.getD_some]
    have hcontiguous (ch : Fin N) : (s.channel ch).Contiguous := (h.taken (by rw [hpc]; rfl) hσ ch).contiguous
    refine ⟨hcontiguous, fun τ hτ => ⟨hτ, ?_⟩⟩
    intro ch
    simp only [place, if_neg (Nat.not_lt_zero _)]
    exact ⟨rfl, rfl⟩
  · intro s s₀ l s' _ h hst hopen
    exact cycleInv_step h (step_cases hst) hopen

/-- **Outside the drain every history is contiguous.** -/
theorem reach_contiguous (hs : (threads toSize N).Reachable s) (hpc : draining s.pc = false) (ch : Fin N) :
    (s.channel ch).Contiguous := by
  obtain ⟨s₀, hp⟩ := Lts.exists_since opens hs
  have hσ : ∀ σ ∈ loaded s₀.pc, σ = (loaded s₀.pc).getD ⟨.none, 0, 0, 0⟩ := fun σ hmem => by
    rw [Option.mem_def.mp hmem, Option.getD_some]
  exact ((reach_cycleInv hp).taken hpc hσ ch).contiguous

end Steps

end SingleRun

/-! ## The workers' path -/

namespace DecimationThread

/-- A worker leaves the others where they are. -/
theorem worker_keeps {n : ℕ} {s s' : DecimationThread n} {v w : Fin n} (hv : v ≠ w) (hst : s.Step (.worker w) s') :
    s'.workers v = s.workers v := by
  rcases hst with _ | _ | _ | _ | _ | _ | _ <;> exact moveWorker_other _ _ hv

/-- The coordinator leaves the workers where they are. -/
theorem coordinator_workers {n : ℕ} {s s' : DecimationThread n} {avail : Bool} (hst : s.Step (.coordinator avail) s') :
    s'.workers = s.workers := by
  rcases hst with _ | _ | _ | _ <;> rfl

end DecimationThread

namespace DecimationRun

section Steps

variable {n N : ℕ} [NeZero n] {toSize : Double → Double → ℕ} {s s' : DecimationRun n N} {l : Label n N}

/-- The coordinator opens a cycle. -/
def opens (s s' : DecimationRun n N) : Bool := s'.cycles ≠ s.cycles

/-- A channel of the state. -/
def channel (s : DecimationRun n N) (ch : Fin N) : Channel := ⟨s.rings ch, historyOf s.states ch⟩

/-- How far a worker at this place in its pass is with channel `ch`, when it has not done it. -/
def passPlace (window : DecimationSettings → ℕ) (ch : Fin N) : PassPc N → Place
  | .sized _ _ c avail => if c = ch then .sized avail else .todo
  | .discarded σ _ c avail _ _ => if c = ch then .discarded (window σ) avail else .todo
  | _ => .todo

/-- How far the drain of channel `ch` is. -/
def place (window : DecimationSettings → ℕ) (s : DecimationRun n N) (ch : Fin N) : Place :=
  if s.log ch = [] then
    if DecimationThread.picked (s.sync.workers (owner ch)) then passPlace window ch (s.pass (owner ch)) else .todo
  else .done (window (s.used (owner ch) (slot n ch)))

variable {window : DecimationSettings → ℕ} {ch : Fin N}

theorem place_congr (hlog : s'.log ch = s.log ch) (hused : s'.used = s.used)
    (hworker : s'.sync.workers (owner ch) = s.sync.workers (owner ch))
    (hpass : s'.pass (owner ch) = s.pass (owner ch)) : place window s' ch = place window s ch := by
  rw [place, hlog, hused, hworker, hpass, place]

/-- The worker of a channel is not at it. -/
def Away (window : DecimationSettings → ℕ) (s : DecimationRun n N) (ch : Fin N) : Prop :=
  DecimationThread.picked (s.sync.workers (owner ch)) = true → passPlace window ch (s.pass (owner ch)) = .todo

theorem place_of_away (h : Away window s ch) :
    place window s ch = if s.log ch = [] then .todo else .done (window (s.used (owner ch) (slot n ch))) := by
  unfold place
  by_cases hpicked : DecimationThread.picked (s.sync.workers (owner ch)) = true
  · rw [if_pos hpicked, h hpicked]
  · rw [if_neg hpicked]

theorem place_away (hlog : s'.log ch = s.log ch)
    (hused : s'.used (owner ch) (slot n ch) = s.used (owner ch) (slot n ch)) (h : Away window s ch)
    (h' : Away window s' ch) : place window s' ch = place window s ch := by
  rw [place_of_away h, place_of_away h', hlog, hused]

theorem place_of_working {last : ℕ} {pc : PassPc N} {p : Place} (hlog : s.log ch = [])
    (hpc : s.sync.workers (owner ch) = .working last) (hpass : s.pass (owner ch) = pc)
    (hp : passPlace window ch pc = p) : place window s ch = p := by
  rw [place, if_pos hlog, hpc, hpass, hp]
  exact if_pos rfl

theorem place_of_logged (hlog : s.log ch ≠ []) : place window s ch = .done (window (s.used (owner ch) (slot n ch))) :=
  if_neg hlog

theorem capacity_step (hst : Step toSize s l s') (ch : Fin N) : (s'.rings ch).capacity = (s.rings ch).capacity := by
  rcases hst with @⟨c, src⟩ | _ | _ | _ | _ | _ | _ | _ | _ | _ | ⟨_, _, hd⟩ | _
  case push =>
    have hpush : ((s.rings c).pushBulk src).2.capacity = (s.rings c).capacity := rfl
    exact capacity_update hpush ch
  case discard => exact capacity_update (capacity_discardOld ..) ch
  case pop =>
    subst hd
    exact capacity_update (capacity_popInto ..) ch
  all_goals rfl

/-- The channel of a worker's slot is not logged before the slot is done. -/
theorem LogInv.log_nil (h : LogInv s) {w : Fin n} {last i : ℕ} (hpc : s.sync.workers w = .working last)
    (hdone : DecimationRun.done (s.pass w) = i) (hch : (assignedChannels N w)[i]? = some ch) : s.log ch = [] := by
  obtain ⟨hw, hslot⟩ := owner_slot hch
  exact h.todo ch (by rw [hw, hslot, slotsDone_of_working hpc, hdone])

/-- A worker that moves in its pass, seen from the channels that it is not at. -/
theorem place_movePass {w : Fin n} {pc : PassPc N} (hsync : s'.sync = s.sync)
    (hpass : s'.pass = Function.update s.pass w pc) (hlog : s'.log ch = s.log ch)
    (hused : s'.used (owner ch) (slot n ch) = s.used (owner ch) (slot n ch))
    (haway : owner ch = w → passPlace window ch (s.pass w) = .todo ∧ passPlace window ch pc = .todo) :
    place window s' ch = place window s ch := by
  by_cases hw : owner ch = w
  · refine place_away hlog hused (fun _ => ?_) fun _ => ?_
    · rw [hw]
      exact (haway hw).1
    · rw [hw, hpass, Function.update_self]
      exact (haway hw).2
  · have hother : s'.pass (owner ch) = s.pass (owner ch) := by rw [hpass, Function.update_of_ne hw]
    rw [place, place, hlog, hused, hsync, hother]

theorem stay_of (hring : s'.rings ch = s.rings ch) (hhist : historyOf s'.states ch = historyOf s.states ch)
    (hplace : place window s' ch = place window s ch) :
    ChannelStep (place window s ch) (s.channel ch) (place window s' ch) (s'.channel ch) := by
  rw [hplace, channel, channel, hring, hhist]
  exact .stay

theorem step_of {p p' : Place} {ring : RingBuffer Int16} {hist : List Int16} (hplace : place window s ch = p)
    (hplace' : place window s' ch = p') (hring : s'.rings ch = ring) (hhist : historyOf s'.states ch = hist)
    (h : ChannelStep p (s.channel ch) p' ⟨ring, hist⟩) :
    ChannelStep (place window s ch) (s.channel ch) (place window s' ch) (s'.channel ch) := by
  rw [hplace, hplace', channel.eq_def s', hring, hhist]
  exact h

/-- The slot of another channel of the same worker is another. -/
theorem slot_ne {w : Fin n} {i : ℕ} {c : Fin N} (hch : (assignedChannels N w)[i]? = some c) (hw : owner ch = w)
    (hc : ch ≠ c) : slot n ch ≠ i := by
  intro hslot
  have hspec := slot_spec (n := n) ch
  rw [hslot, hw, hch] at hspec
  exact hc (Option.some.inj hspec).symm

section Passes

variable {w : Fin n} {last i avail seen gone v : ℕ} {σ : DecimationSettings} {c : Fin N}

/-- A worker reads the size of the ring of its slot. -/
theorem size_step (hlog : LogInv s) (hpc : s.sync.workers w = .working last) (hpass : s.pass w = .slot σ i)
    (hch : (assignedChannels N w)[i]? = some c) (hsync : s'.sync = s.sync)
    (hpass' : s'.pass = Function.update s.pass w (.sized σ i c (s.rings c).size)) (hrings : s'.rings = s.rings)
    (hstates : s'.states = s.states) (hused : s'.used = s.used) (hlog' : s'.log = s.log) :
    ChannelStep (place window s ch) (s.channel ch) (place window s' ch) (s'.channel ch) := by
  have hhist : historyOf s'.states ch = historyOf s.states ch := by rw [hstates]
  by_cases hc : ch = c
  · subst hc
    obtain ⟨rfl, -⟩ := owner_slot hch
    have hnil : s.log ch = [] := hlog.log_nil hpc (by rw [hpass]; rfl) hch
    have hbefore : place window s ch = .todo := place_of_working hnil hpc hpass rfl
    have hself : s'.pass (owner ch) = .sized σ i ch (s.rings ch).size := by rw [hpass', Function.update_self]
    have hafter : place window s' ch = .sized (s.rings ch).size :=
      place_of_working (by rw [hlog', hnil]) (by rw [hsync, hpc]) hself (if_pos rfl)
    exact step_of hbefore hafter (by rw [hrings]) hhist .size
  · refine stay_of (by rw [hrings]) hhist (place_movePass hsync hpass' (by rw [hlog']) (by rw [hused]) fun _ => ⟨?_, ?_⟩)
    · rw [hpass]
      rfl
    · exact if_neg (Ne.symm hc)

/-- A worker discards what is older than the window. -/
theorem discard_step (hlog : LogInv s) (hpc : s.sync.workers w = .working last) (hpass : s.pass w = .sized σ i c avail)
    (hwindow : ch = c → v = window σ) (hsync : s'.sync = s.sync)
    (hpass' : s'.pass =
      Function.update s.pass w (.discarded σ i c (discardOld v (s.rings c) avail).2 seen gone))
    (hrings : s'.rings = Function.update s.rings c (discardOld v (s.rings c) avail).1)
    (hstates : s'.states = s.states) (hused : s'.used = s.used) (hlog' : s'.log = s.log) :
    ChannelStep (place window s ch) (s.channel ch) (place window s' ch) (s'.channel ch) := by
  have hdata := hlog.pass w last hpc
  rw [hpass] at hdata
  have hhist : historyOf s'.states ch = historyOf s.states ch := by rw [hstates]
  by_cases hc : ch = c
  · subst hc
    obtain ⟨rfl, -⟩ := owner_slot hdata.1
    obtain rfl : v = window σ := hwindow rfl
    have hnil : s.log ch = [] := hlog.log_nil hpc (by rw [hpass]; rfl) hdata.1
    have hbefore : place window s ch = .sized avail := place_of_working hnil hpc hpass (if_pos rfl)
    have hself : s'.pass (owner ch) = .discarded σ i ch (discardOld (window σ) (s.rings ch) avail).2 seen gone := by
      rw [hpass', Function.update_self]
    have hafter : place window s' ch = .discarded (window σ) (discardOld (window σ) (s.rings ch) avail).2 :=
      place_of_working (by rw [hlog', hnil]) (by rw [hsync, hpc]) hself (if_pos rfl)
    have hring : s'.rings ch = (discardOld (window σ) (s.rings ch) avail).1 := by rw [hrings, Function.update_self]
    exact step_of hbefore hafter hring hhist (.discard (window σ) avail)
  · refine stay_of (by rw [hrings, Function.update_of_ne hc]) hhist
      (place_movePass hsync hpass' (by rw [hlog']) (by rw [hused]) fun _ => ⟨?_, ?_⟩)
    · rw [hpass]
      exact if_neg (Ne.symm hc)
    · exact if_neg (Ne.symm hc)

/-- A worker pops, which ends its slot. -/
theorem pop_step {d : Drained} {record : DrainRecord n} (hlog : LogInv s) (hpc : s.sync.workers w = .working last)
    (hpass : s.pass w = .discarded σ i c avail seen gone) (hwindow : ch = c → v = window σ)
    (hd : d = popInto v (s.rings c) ((s.states w).historyBufs i) avail) (hsync : s'.sync = s.sync)
    (hpass' : s'.pass = Function.update s.pass w (.slot σ (i + 1)))
    (hrings : s'.rings = Function.update s.rings c d.ring)
    (hstates : s'.states = Function.update s.states w ((s.states w).store σ i d.history))
    (hused : s'.used = Function.update s.used w (Function.update (s.used w) i σ))
    (hlog' : s'.log = Function.update s.log c (s.log c ++ [record])) :
    ChannelStep (place window s ch) (s.channel ch) (place window s' ch) (s'.channel ch) := by
  have hdata := hlog.pass w last hpc
  rw [hpass] at hdata
  by_cases hc : ch = c
  · subst hc
    obtain ⟨rfl, hslot⟩ := owner_slot hdata.1
    obtain rfl : v = window σ := hwindow rfl
    have hnil : s.log ch = [] := hlog.log_nil hpc (by rw [hpass]; rfl) hdata.1
    have hbefore : place window s ch = .discarded (window σ) avail := place_of_working hnil hpc hpass (if_pos rfl)
    have hlogged : s'.log ch ≠ [] := by
      rw [hlog', Function.update_self]
      exact List.append_ne_nil_of_right_ne_nil _ (List.cons_ne_nil _ _)
    have hafter : place window s' ch = .done (window σ) := by
      rw [place_of_logged hlogged, hused, Function.update_self, hslot, Function.update_self]
    have hhist : (s.states (owner ch)).historyBufs i = historyOf s.states ch := by rw [historyOf, hslot]
    have hhist' : historyOf s'.states ch = d.history := by
      rw [historyOf, hstates, Function.update_self, hslot]
      exact Function.update_self ..
    have hring : s'.rings ch = d.ring := by rw [hrings, Function.update_self]
    rw [hhist] at hd
    subst hd
    exact step_of hbefore hafter hring hhist' (.pop (window σ) avail)
  · have haway : owner ch = w → passPlace window ch (s.pass w) = .todo ∧ passPlace window ch (.slot σ (i + 1)) = .todo := by
      intro _
      rw [hpass]
      exact ⟨if_neg (Ne.symm hc), rfl⟩
    have hring : s'.rings ch = s.rings ch := by rw [hrings, Function.update_of_ne hc]
    have hlogOf : s'.log ch = s.log ch := by rw [hlog', Function.update_of_ne hc]
    by_cases hw : owner ch = w
    · have hslot := slot_ne hdata.1 hw hc
      have hhist : historyOf s'.states ch = historyOf s.states ch := by
        rw [historyOf, hstates, hw, Function.update_self, historyOf, hw]
        exact Function.update_of_ne hslot ..
      refine stay_of hring hhist (place_movePass hsync hpass' hlogOf ?_ haway)
      rw [hused, hw, Function.update_self, Function.update_of_ne hslot]
    · have hhist : historyOf s'.states ch = historyOf s.states ch := by
        rw [historyOf, hstates, Function.update_of_ne hw, historyOf]
      refine stay_of hring hhist (place_movePass hsync hpass' hlogOf ?_ haway)
      rw [hused, Function.update_of_ne hw]

end Passes

/-- **The steps of the workers' path on a channel**, but for the one that opens a cycle. -/
theorem channel_step (hlog : LogInv s) (hst : Step toSize s l s') (hopen : opens s s' = false) (ch : Fin N) :
    ChannelStep (place (fun σ => windowOf toSize σ (s.rings ch)) s ch) (s.channel ch)
      (place (fun σ => windowOf toSize σ (s.rings ch)) s' ch) (s'.channel ch) := by
  generalize hwindow : (fun σ => windowOf toSize σ (s.rings ch)) = window
  rcases hst with @⟨c, src⟩ | _ | ⟨hpc, hsync⟩ | ⟨hpc, hsync⟩ | ⟨hpc, hsync⟩ |
    @⟨w, _, sync, hpc, hsync⟩ | @⟨w, loaded, last, hpc, hpass⟩ | @⟨w, _, σ, last, i, c, hpc, hpass, hch⟩ |
    @⟨w, _, σ, last, i, sync, hpc, hpass, hch, hsync⟩ | @⟨w, _, σ, last, i, avail, c, hpc, hpass⟩ |
    @⟨w, _, σ, last, i, avail, seen, gone, c, d, hpc, hpass, hd⟩ | hsync
  case push =>
    have hplace : place window { s with rings := Function.update s.rings c ((s.rings c).pushBulk src).2 } ch =
        place window s ch := place_congr rfl rfl rfl rfl
    rw [hplace]
    by_cases hc : ch = c
    · subst hc
      simp only [channel, Function.update_self]
      exact .push src
    · simp only [channel, Function.update_of_ne hc]
      exact .stay
  case look => exact .stay
  case coordinate =>
    have hkeep := DecimationThread.coordinator_keeps hpc (DecimationThread.step_cases hsync)
    exact stay_of rfl rfl (place_congr rfl rfl (congrFun hkeep.1 _) rfl)
  case openCycle =>
    simp [opens] at hopen
  case publish =>
    have hkeep := DecimationThread.coordinator_keeps (by simp [hpc]) (DecimationThread.step_cases hsync)
    exact stay_of rfl rfl (place_congr rfl rfl (congrFun hkeep.1 _) rfl)
  case wake =>
    have hsync' := DecimationThread.step_cases hsync
    by_cases hw : owner ch = w
    · refine stay_of rfl rfl (place_away rfl rfl (fun hpicked => ?_) fun _ => ?_)
      · rw [hw] at hpicked
        cases hworker : s.sync.workers w with
        | working last => exact absurd hworker (hpc last)
        | waiting last =>
          rw [hworker] at hpicked
          cases hpicked
        | left =>
          rw [hworker] at hpicked
          cases hpicked
      · show passPlace window ch (Function.update s.pass w .load (owner ch)) = .todo
        rw [hw, Function.update_self]
        rfl
    · exact stay_of rfl rfl (place_congr rfl rfl (DecimationThread.worker_keeps hw hsync') (Function.update_of_ne hw ..))
  case load => exact stay_of rfl rfl (place_movePass rfl rfl rfl rfl fun _ => ⟨by rw [hpass]; rfl, rfl⟩)
  case size => exact size_step hlog hpc hpass hch rfl rfl rfl rfl rfl rfl
  case count =>
    have hsync' := DecimationThread.step_cases hsync
    by_cases hw : owner ch = w
    · have haway : passPlace window ch (s.pass (owner ch)) = .todo := by
        rw [hw, hpass]
        rfl
      exact stay_of rfl rfl (place_away rfl rfl (fun _ => haway) fun _ => haway)
    · exact stay_of rfl rfl (place_congr rfl rfl (DecimationThread.worker_keeps hw hsync') rfl)
  case discard =>
    refine discard_step hlog hpc hpass ?_ rfl rfl rfl rfl rfl rfl
    intro hc
    subst hc
    exact congrFun hwindow σ
  case pop =>
    refine pop_step hlog hpc hpass ?_ hd rfl rfl rfl rfl rfl rfl
    intro hc
    subst hc
    exact congrFun hwindow σ
  case stop =>
    have hkeep := DecimationThread.stop_keeps (DecimationThread.step_cases hsync)
    exact stay_of rfl rfl (place_congr rfl rfl (congrFun hkeep.1 _) rfl)

/-- What is known of the channels in a cycle that began in the state `s₀`. -/
structure CycleHolds (toSize : Double → Double → ℕ) (s s₀ : DecimationRun n N) : Prop where
  contiguous : ∀ ch, (s₀.channel ch).Contiguous
  holds : ∀ ch, Holds (s₀.channel ch) (s.channel ch) (place (fun σ => windowOf toSize σ (s.rings ch)) s ch)

variable {s₀ : DecimationRun n N}

theorem cycleHolds_step (h : CycleHolds toSize s s₀) (hlog : LogInv s) (hst : Step toSize s l s')
    (hopen : opens s s' = false) : CycleHolds toSize s' s₀ := by
  refine ⟨h.contiguous, ?_⟩
  intro ch
  have hwindow : (fun σ => windowOf toSize σ (s'.rings ch)) = fun σ => windowOf toSize σ (s.rings ch) :=
    funext fun σ => windowOf_congr toSize σ (capacity_step hst ch)
  rw [hwindow]
  exact holds_step (h.contiguous ch) (h.holds ch) (channel_step hlog hst hopen ch)

/-- Outside its wait the coordinator finds no worker at a channel. -/
theorem away_of_not_wait (hcycle : s.sync.CycleInv) (hwait : s.sync.coordinator ≠ .wait) : Away window s ch := by
  intro hpicked
  have hok := hcycle.worker (owner ch)
  cases hworker : s.sync.workers (owner ch) with
  | working last =>
    rw [hworker] at hok
    exact absurd hok.1 hwait
  | waiting last =>
    rw [hworker] at hpicked
    cases hpicked
  | left =>
    rw [hworker] at hpicked
    cases hpicked

/-- Every history is contiguous there. -/
theorem CycleHolds.contiguous_of_not_wait (h : CycleHolds toSize s s₀) (hcycle : s.sync.CycleInv)
    (hwait : s.sync.coordinator ≠ .wait) (ch : Fin N) : (s.channel ch).Contiguous := by
  have hholds := h.holds ch
  rw [place_of_away (away_of_not_wait hcycle hwait)] at hholds
  split at hholds
  · exact Untouched.contiguous (h.contiguous ch) hholds
  · exact hholds.contiguous

theorem opens_cases (hst : Step toSize s l s') (hopen : opens s s' = true) :
    s.sync.coordinator = .signal ∧ s'.channel = s.channel ∧ s'.log = (fun _ => []) ∧ s'.pass = s.pass ∧
      s'.sync.workers = s.sync.workers := by
  rcases hst with _ | _ | _ | ⟨hpc, hsync⟩ | _ | _ | _ | _ | _ | _ | _ | _
  case openCycle => exact ⟨hpc, rfl, rfl, rfl, DecimationThread.coordinator_workers (DecimationThread.step_cases hsync)⟩
  all_goals simp [opens, movePass] at hopen

theorem reach_cycleHolds {p : DecimationRun n N × DecimationRun n N}
    (hp : ((threads toSize n N).since opens).Reachable p) :
    p.1.sync.coordinator ≠ .finished → CycleHolds toSize p.1 p.2 := by
  refine Lts.since_rule (J := fun s s₀ => s.sync.coordinator ≠ .finished → CycleHolds toSize s s₀) ?_ ?_ ?_ hp
  · rintro s ⟨rings, rfl⟩ -
    exact ⟨fun ch => Channel.contiguous_iff.mpr List.nil_suffix, fun ch => ⟨rfl, rfl⟩⟩
  · intro s s₀ l s' hs h hst hopen hfin
    have hstep := step_cases hst
    obtain ⟨hpc, hchannel, hlog, hpass, hworkers⟩ := opens_cases hstep hopen
    have hfin' := unfinished_of_step hfin hstep
    have hcycle := DecimationThread.reach_cycleInv (reach_sync hs) hfin'
    have hwait : s.sync.coordinator ≠ .wait := by simp [hpc]
    refine ⟨fun ch => ?_, fun ch => ?_⟩
    · rw [hchannel]
      exact (h hfin').contiguous_of_not_wait hcycle hwait ch
    · have haway : Away (fun σ => windowOf toSize σ (s'.rings ch)) s' ch := by
        unfold Away
        rw [hworkers, hpass]
        exact away_of_not_wait hcycle hwait
      rw [place_of_away haway, hlog, if_pos rfl]
      exact ⟨rfl, rfl⟩
  · intro s s₀ l s' hs h hst hopen hfin
    have hstep := step_cases hst
    have hfin' := unfinished_of_step hfin hstep
    exact cycleHolds_step (h hfin') (reach_logInv hs hfin') hstep hopen

/-- **Whenever the coordinator does not wait every history is contiguous.** -/
theorem reach_contiguous (hs : (threads toSize n N).Reachable s) (hwait : s.sync.coordinator ≠ .wait)
    (hfin : s.sync.coordinator ≠ .finished) (ch : Fin N) : (s.channel ch).Contiguous := by
  obtain ⟨s₀, hp⟩ := Lts.exists_since opens hs
  have hcycle := DecimationThread.reach_cycleInv (reach_sync hs) hfin
  exact (reach_cycleHolds hp hfin).contiguous_of_not_wait hcycle hwait ch

/-- **Past its wait the coordinator finds every channel done.** -/
theorem taken {p : DecimationRun n N × DecimationRun n N} (hp : ((threads toSize n N).since opens).Reachable p)
    (hcycles : 0 < p.1.cycles) (hwait : p.1.sync.coordinator ≠ .wait) (hfin : p.1.sync.coordinator ≠ .finished)
    (ch : Fin N) :
    Taken (windowOf toSize (p.1.used (owner ch) (slot n ch)) (p.1.rings ch)) (p.2.channel ch) (p.1.channel ch) := by
  have hs := Lts.since_fst hp
  have hcycle := DecimationThread.reach_cycleInv (reach_sync hs) hfin
  have hpasses := reach_counted hs hfin hcycles hwait (owner ch)
  have hslots : p.1.slotsDone (owner ch) = (assignedChannels N (owner (n := n) ch)).length := by
    have hok := hcycle.worker (owner ch)
    unfold slotsDone
    split
    · rename_i last hworker
      rw [hworker] at hok
      exact absurd hok.1 hwait
    · rw [hpasses, if_neg Nat.one_ne_zero]
  obtain ⟨seen, hlog⟩ := (reach_logInv hs hfin).done ch (by rw [hslots]; exact slot_lt ch)
  have hholds := (reach_cycleHolds hp hfin).holds ch
  rw [place_of_logged (by rw [hlog]; exact List.cons_ne_nil _ _)] at hholds
  exact hholds

end Steps

end DecimationRun

/-! ## Both paths -/

section Windows

/-- **The raw window of a channel is contiguous after every cycle**, and as long as the cycle's window lets it be: of
whatever rings, whenever the producers push, and whatever settings are loaded. -/
theorem window_contiguous (toSize : Double → Double → ℕ) (n N : ℕ) [NeZero n] :
    (∀ p, ((SingleRun.threads toSize N).since SingleRun.opens).Reachable p → ∀ σ, p.2.pc = .drain σ 0 0 →
        SingleRun.draining p.1.pc = false → ∀ ch,
          Taken (windowOf toSize σ (p.1.rings ch)) (p.2.channel ch) (p.1.channel ch)) ∧
      ∀ p, ((DecimationRun.threads toSize n N).since DecimationRun.opens).Reachable p → 0 < p.1.cycles →
        p.1.sync.coordinator ≠ .wait → p.1.sync.coordinator ≠ .finished → ∀ ch,
          Taken (windowOf toSize (p.1.used (owner ch) (slot n ch)) (p.1.rings ch)) (p.2.channel ch)
            (p.1.channel ch) := by
  refine ⟨?_, fun p hp => DecimationRun.taken hp⟩
  intro p hp σ hσ hdone ch
  refine (SingleRun.reach_cycleInv hp).taken hdone ?_ ch
  intro σ' hmem
  rw [hσ] at hmem
  exact (Option.some.inj hmem).symm

/-- Steps of the coordinator, and of the only worker. -/
def coordinated (k : ℕ) : List (DecimationRun.Label 1 1) := List.replicate k (.coordinator 2)

def worked (w : Fin 1) (k : ℕ) : List (DecimationRun.Label 1 1) := List.replicate k (.worker w (minMaxAt 2))

/-- A window of two samples on both paths: three are found first, and one is pushed before the second cycle. -/
theorem window_contiguous_two :
    (∃ p : SingleRun 1 × SingleRun 1, p.2.histories 0 = [1, 2] ∧ p.1.histories 0 = [2, 7] ∧
        Taken (windowOf (fun _ _ => 2) (minMaxAt 2) (p.1.rings 0)) (p.2.channel 0) (p.1.channel 0)) ∧
      ∃ q : DecimationRun 1 1 × DecimationRun 1 1, historyOf q.2.states (0 : Fin 1) = [1, 2] ∧
        historyOf q.1.states (0 : Fin 1) = [2, 7] ∧
        Taken (windowOf (fun _ _ => 2) (q.1.used (owner (0 : Fin 1)) (slot 1 (0 : Fin 1))) (q.1.rings 0))
          (q.2.channel 0) (q.1.channel 0) := by
  have hboth := window_contiguous (fun _ _ => 2) 1 1
  constructor
  · have hrun : (((SingleRun.threads (fun _ _ => 2) 1).since SingleRun.opens).exec
        (.started ![ringOf [3, 1, 2]], .started ![ringOf [3, 1, 2]])
        (List.replicate 9 (SingleRun.Label.single (minMaxAt 2)) ++ [SingleRun.Label.push 0 [7]] ++
          List.replicate 9 (SingleRun.Label.single (minMaxAt 2)))).map
        (fun p => (p.2.pc, SingleRun.draining p.1.pc, p.2.histories 0, p.1.histories 0)) =
          some (.drain (minMaxAt 2) 0 0, false, [1, 2], [2, 7]) := by decide +kernel
    obtain ⟨p, hp, hobs⟩ := Option.map_eq_some_iff.mp hrun
    simp only [Prod.mk.injEq] at hobs
    obtain ⟨hpc, hdone, hbefore, hafter⟩ := hobs
    have hreach : ((SingleRun.threads (fun _ _ => 2) 1).since SingleRun.opens).Reachable p :=
      Lts.reachable_of_exec _ ⟨⟨_, rfl⟩, rfl⟩ hp
    exact ⟨p, hbefore, hafter, hboth.1 p hreach _ hpc hdone 0⟩
  · have hrun : (((DecimationRun.threads (fun _ _ => 2) 1 1).since DecimationRun.opens).exec
        (.started ![ringOf [3, 1, 2]], .started ![ringOf [3, 1, 2]])
        (coordinated 4 ++ worked 0 6 ++ coordinated 2 ++ [DecimationRun.Label.push 0 [7]] ++ coordinated 4 ++ worked 0 6 ++
          coordinated 1)).map
        (fun q => (q.1.cycles, q.1.sync.coordinator, historyOf q.2.states (0 : Fin 1),
          historyOf q.1.states (0 : Fin 1))) = some (2, .gather, [1, 2], [2, 7]) := by decide +kernel
    obtain ⟨q, hq, hobs⟩ := Option.map_eq_some_iff.mp hrun
    simp only [Prod.mk.injEq] at hobs
    obtain ⟨hcycles, hco, hbefore, hafter⟩ := hobs
    have hreach : ((DecimationRun.threads (fun _ _ => 2) 1 1).since DecimationRun.opens).Reachable q :=
      Lts.reachable_of_exec _ ⟨⟨_, rfl⟩, rfl⟩ hq
    exact ⟨q, hbefore, hafter, hboth.2 q hreach (by omega) (by simp [hco]) (by simp [hco]) 0⟩

end Windows

end Grebe
