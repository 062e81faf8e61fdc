import Grebe.RingBuffer
import Grebe.TransportSource

/-!
# Grebe.IngestionThread — from a data source into the rings

`thread_func` reads a frame after the other and pushes each channel into its ring; what does not fit is dropped and
counted.  It counts the numbers missing between the frames as well.  Meanwhile whoever owns the other ends of the rings
pops and discards.

One step is one call on the source or on a ring, or one access to a counter.  The rings are different from each other, and
so are the counters; `frames` is history.  The log lines are left out.

* `run_books`: what each ring has got of each frame, and what its counter says, at any time.
* `reach_gapInv`: the gaps that are reported.
-/

namespace Grebe

open Lib

/-! ## The thread -/

structure DropCounter where
  totalPushed : UInt64 := 0
  totalDropped : UInt64 := 0
deriving DecidableEq

namespace DropCounter

variable (counter : DropCounter)

/-- The first access of `record_push`. -/
def addPushed (pushed : ℕ) : DropCounter := { counter with totalPushed := counter.totalPushed + UInt64.ofNat pushed }

/-- The second access of `record_push`, if there is one. -/
def addDropped (dropped : ℕ) : DropCounter := { counter with totalDropped := counter.totalDropped + UInt64.ofNat dropped }

theorem addPushed_zero : counter.addPushed 0 = counter := by
  simp [addPushed]

theorem addDropped_zero : counter.addDropped 0 = counter := by
  simp [addDropped]

end DropCounter

/-- `IDataSource`, as the thread uses it; `σ` is the state of the source. -/
structure IDataSource (σ : Type) where
  readFrame : σ → FrameBuffer → ReadResult × FrameBuffer × σ
  sampleRateHz : σ → Double

/-- Where `thread_func` is. -/
inductive IngestionPc
  | head
  | read
  /-- before the turn of ring `ch` -/
  | push (ch : ℕ)
  /-- before it counts what ring `ch` took -/
  | pushed (ch count : ℕ)
  /-- before it counts what ring `ch` did not take -/
  | dropped (ch count : ℕ)
  | exited
deriving DecidableEq

/-- The thread, with `n` rings. -/
structure IngestionThread (σ : Type) (n : ℕ) where
  source : σ
  rings : Fin n → RingBuffer Int16
  /-- `none`: the ring has no counter -/
  dropCounters : Fin n → Option DropCounter
  stopRequested : Bool := false
  pc : IngestionPc := .head
  frame : FrameBuffer := {}
  expectedSeq : UInt64 := 0
  gapCount : UInt64 := 0
  sequenceGaps : UInt64 := 0
  lastProducerTsNs : UInt64 := 0
  sampleRate : Double := 0
  /-- the frames that were read -/
  frames : List FrameBuffer := []

namespace IngestionThread

variable {σ : Type} {n : ℕ}

section Steps

inductive Label (n : ℕ)
  | thread
  | stop
  /-- The other end of ring `ch` pops. -/
  | pop (ch : Fin n) (maxCount : ℕ)
  | discard (ch : Fin n) (maxCount : ℕ)

/-- `ch_count`: the channels of a frame that have a ring. -/
def chCount (n : ℕ) (frame : FrameBuffer) : ℕ := (min frame.channelCount (UInt32.ofNat n)).toNat

/-- The samples of channel `ch` are in the frame. -/
def InData (frame : FrameBuffer) (ch : ℕ) : Prop :=
  ch * frame.samplesPerChannel.toNat + frame.samplesPerChannel.toNat ≤ frame.data.length

instance (frame : FrameBuffer) (ch : ℕ) : Decidable (InData frame ch) := inferInstanceAs (Decidable (_ ≤ _))

/-- The samples of channel `ch`. -/
def samplesOf (frame : FrameBuffer) (ch : ℕ) : List Int16 :=
  (frame.data.drop (ch * frame.samplesPerChannel.toNat)).take frame.samplesPerChannel.toNat

variable (source : IDataSource σ) (s : IngestionThread σ n)

/-- There is a number expected, and it is not the one of the frame. -/
def IsGap (frame : FrameBuffer) : Prop := frame.sequence ≠ s.expectedSeq ∧ s.expectedSeq > 0

instance (frame : FrameBuffer) : Decidable (s.IsGap frame) := inferInstanceAs (Decidable (_ ∧ _))

def gap (frame : FrameBuffer) : UInt64 :=
  if frame.sequence > s.expectedSeq then frame.sequence - s.expectedSeq else 1

/-- A frame has been read. -/
def received (frame : FrameBuffer) (next : σ) : IngestionThread σ n :=
  { s with
    source := next
    frame := frame
    gapCount := if s.IsGap frame then s.gapCount + s.gap frame else s.gapCount
    sequenceGaps := if s.IsGap frame then s.gapCount + s.gap frame else s.sequenceGaps
    expectedSeq := frame.sequence + 1
    lastProducerTsNs := frame.producerTsNs
    sampleRate := source.sampleRateHz next
    frames := s.frames ++ [frame]
    pc := .push 0 }

def setRing (ch : Fin n) (ring : RingBuffer Int16) : IngestionThread σ n :=
  { s with rings := Function.update s.rings ch ring }

def setCounter (ch : Fin n) (counter : DropCounter) : IngestionThread σ n :=
  { s with dropCounters := Function.update s.dropCounters ch (some counter) }

/-- `thread_func` -/
def stepThread : Option (IngestionThread σ n) :=
  match s.pc with
  | .head => some { s with pc := if s.stopRequested then .exited else .read }
  | .read =>
    match source.readFrame s.source s.frame with
    | (.ok, frame, next) => some (s.received source frame next)
    | (.noData, frame, next) => some { s with source := next, frame := frame, pc := .head }
    | (_, frame, next) => some { s with source := next, frame := frame, pc := .exited }
  | .push ch =>
    if h : ch < n ∧ ch < chCount n s.frame then
      if InData s.frame ch then
        let r := (s.rings ⟨ch, h.1⟩).pushBulk (samplesOf s.frame ch)
        some { s.setRing ⟨ch, h.1⟩ r.2 with
          pc := if (s.dropCounters ⟨ch, h.1⟩).isSome then .pushed ch r.1 else .push (ch + 1) }
      else some { s with pc := .push (ch + 1) }
    else some { s with pc := .head }
  | .pushed ch count =>
    if h : ch < n then
      some { s.setCounter ⟨ch, h⟩ (((s.dropCounters ⟨ch, h⟩).getD {}).addPushed count) with
        pc := if count < s.frame.samplesPerChannel.toNat then .dropped ch count else .push (ch + 1) }
    else none
  | .dropped ch count =>
    if h : ch < n then
      let left := s.frame.samplesPerChannel.toNat - count
      some { s.setCounter ⟨ch, h⟩ (((s.dropCounters ⟨ch, h⟩).getD {}).addDropped left) with pc := .push (ch + 1) }
    else none
  | .exited => none

def step : Label n → Option (IngestionThread σ n)
  | .thread => s.stepThread source
  | .stop => some { s with stopRequested := true }
  | .pop ch maxCount => some (s.setRing ch ((s.rings ch).popBulk maxCount).2)
  | .discard ch maxCount => some (s.setRing ch ((s.rings ch).discardBulk maxCount).2)

/-- After `start`, with empty rings and fresh counters. -/
def Started (initial : σ) (s : IngestionThread σ n) : Prop :=
  ∃ (slots : Fin n → ℕ) (pos : ∀ ch, 0 < slots ch) (counted : Fin n → Bool),
    s = { source := initial, rings := fun ch => .new (slots ch) (pos ch),
          dropCounters := fun ch => if counted ch then some {} else none }

/-- The thread with those who pop. -/
def threads (n : ℕ) (source : IDataSource σ) (initial : σ) : Lts (IngestionThread σ n) (Label n) where
  init := Started initial
  step s := s.step source

end Steps

/-! ## What a step does, said once -/

section Spec

variable {source : IDataSource σ} {s s' : IngestionThread σ n}

theorem chCount_le (n : ℕ) (frame : FrameBuffer) : chCount n frame ≤ n := by
  have hle : (UInt32.ofNat n).toNat ≤ n := by
    rw [UInt32.toNat_ofNat']
    exact Nat.mod_le _ _
  show (if frame.channelCount ≤ UInt32.ofNat n then frame.channelCount else UInt32.ofNat n).toNat ≤ n
  split_ifs with hmin
  · exact (UInt32.le_iff_toNat_le.mp hmin).trans hle
  · exact hle

@[simp] theorem length_samplesOf {frame : FrameBuffer} {ch : ℕ} (h : InData frame ch) :
    (samplesOf frame ch).length = frame.samplesPerChannel.toNat := by
  have h' : ch * frame.samplesPerChannel.toNat + frame.samplesPerChannel.toNat ≤ frame.data.length := h
  rw [samplesOf, List.length_take, List.length_drop]
  omega

@[simp] theorem setRing_self (ch : Fin n) (ring : RingBuffer Int16) : (s.setRing ch ring).rings ch = ring :=
  Function.update_self ..

theorem setRing_other {c ch : Fin n} (ring : RingBuffer Int16) (h : c ≠ ch) : (s.setRing ch ring).rings c = s.rings c :=
  Function.update_of_ne h ..

@[simp] theorem setRing_frame (ch : Fin n) (ring : RingBuffer Int16) : (s.setRing ch ring).frame = s.frame := rfl

/-- Where a ring keeps what it has accepted, all rings do. -/
theorem accepted_setRing {ch : Fin n} {ring : RingBuffer Int16} (h : ring.accepted = (s.rings ch).accepted) (c : Fin n) :
    ((s.setRing ch ring).rings c).accepted = (s.rings c).accepted := by
  by_cases hc : c = ch
  · rw [hc, setRing_self, h]
  · rw [setRing_other _ hc]

@[simp] theorem setCounter_self (ch : Fin n) (counter : DropCounter) :
    (s.setCounter ch counter).dropCounters ch = some counter :=
  Function.update_self ..

@[simp] theorem setCounter_frame (ch : Fin n) (counter : DropCounter) :
    (s.setCounter ch counter).frame = s.frame := rfl

theorem setCounter_other {c ch : Fin n} (counter : DropCounter) (h : c ≠ ch) :
    (s.setCounter ch counter).dropCounters c = s.dropCounters c :=
  Function.update_of_ne h ..

/-- What one step does. -/
inductive Step (source : IDataSource σ) (s : IngestionThread σ n) : Label n → IngestionThread σ n → Prop
  | halt (hpc : s.pc = .head) : Step source s .thread { s with pc := .exited }
  | look (hpc : s.pc = .head) : Step source s .thread { s with pc := .read }
  | receive {frame : FrameBuffer} {next : σ} (hpc : s.pc = .read)
      (hread : source.readFrame s.source s.frame = (.ok, frame, next)) :
      Step source s .thread (s.received source frame next)
  /-- There is no frame for now. -/
  | wait {frame : FrameBuffer} {next : σ} (hpc : s.pc = .read)
      (hread : source.readFrame s.source s.frame = (.noData, frame, next)) :
      Step source s .thread { s with source := next, frame := frame, pc := .head }
  /-- There is no frame any more. -/
  | leave {frame : FrameBuffer} {next : σ} (hpc : s.pc = .read) :
      Step source s .thread { s with source := next, frame := frame, pc := .exited }
  | done {ch : ℕ} (hpc : s.pc = .push ch) (hch : chCount n s.frame ≤ ch) : Step source s .thread { s with pc := .head }
  /-- The samples of a channel are not all there. -/
  | skip {ch : Fin n} (hpc : s.pc = .push ch) (hch : ch < chCount n s.frame) (hdata : ¬ InData s.frame ch) :
      Step source s .thread { s with pc := .push (ch + 1) }
  | push {ch : Fin n} (hpc : s.pc = .push ch) (hch : ch < chCount n s.frame) (hdata : InData s.frame ch) :
      Step source s .thread
        { s.setRing ch ((s.rings ch).pushBulk (samplesOf s.frame ch)).2 with
          pc := if (s.dropCounters ch).isSome then .pushed ch ((s.rings ch).pushBulk (samplesOf s.frame ch)).1
                else .push (ch + 1) }
  | pushed {ch : Fin n} {count : ℕ} (hpc : s.pc = .pushed ch count) :
      Step source s .thread
        { s.setCounter ch (((s.dropCounters ch).getD {}).addPushed count) with
          pc := if count < s.frame.samplesPerChannel.toNat then .dropped ch count else .push (ch + 1) }
  | dropped {ch : Fin n} {count : ℕ} (hpc : s.pc = .dropped ch count) :
      Step source s .thread
        { s.setCounter ch (((s.dropCounters ch).getD {}).addDropped (s.frame.samplesPerChannel.toNat - count)) with
          pc := .push (ch + 1) }
  | stop : Step source s .stop { s with stopRequested := true }
  | pop {ch : Fin n} {maxCount : ℕ} :
      Step source s (.pop ch maxCount) (s.setRing ch ((s.rings ch).popBulk maxCount).2)
  | discard {ch : Fin n} {maxCount : ℕ} :
      Step source s (.discard ch maxCount) (s.setRing ch ((s.rings ch).discardBulk maxCount).2)

theorem step_cases {l : Label n} (h : s.step source l = some s') : s.Step source l s' := by
  rcases l with _ | _ | ⟨ch, maxCount⟩ | ⟨ch, maxCount⟩
  · simp only [step, stepThread] at h
    split at h
    · rename_i hpc
      cases h
      split_ifs with hstop
      · exact .halt hpc
      · exact .look hpc
    · rename_i hpc
      split at h
      · rename_i frame next hread
        cases h
        exact .receive hpc hread
      · rename_i frame next hread
        cases h
        exact .wait hpc hread
      · cases h
        exact .leave hpc
    · rename_i ch hpc
      by_cases hch : ch < n ∧ ch < chCount n s.frame
      · rw [dif_pos hch] at h
        have hpc' : s.pc = .push (⟨ch, hch.1⟩ : Fin n) := hpc
        by_cases hdata : InData s.frame ch
        · rw [if_pos hdata] at h
          cases h
          exact .push hpc' hch.2 hdata
        · rw [if_neg hdata] at h
          cases h
          exact .skip hpc' hch.2 hdata
      · rw [dif_neg hch] at h
        cases h
        exact .done hpc (not_lt.mp fun hlt => hch ⟨hlt.trans_le (chCount_le n s.frame), hlt⟩)
    · rename_i ch count hpc
      by_cases hch : ch < n
      · rw [dif_pos hch] at h
        cases h
        have hpc' : s.pc = .pushed (⟨ch, hch⟩ : Fin n) count := hpc
        exact .pushed hpc'
      · rw [dif_neg hch] at h
        cases h
    · rename_i ch count hpc
      by_cases hch : ch < n
      · rw [dif_pos hch] at h
        cases h
        have hpc' : s.pc = .dropped (⟨ch, hch⟩ : Fin n) count := hpc
        exact .dropped hpc'
      · rw [dif_neg hch] at h
        cases h
    · cases h
  · cases h
    exact .stop
  · cases h
    exact .pop
  · cases h
    exact .discard

end Spec

/-! ## The books -/

section Books

variable {source : IDataSource σ} {initial : σ} {s s' : IngestionThread σ n}

/-- What a frame has for ring `ch`. -/
def offered (n : ℕ) (frame : FrameBuffer) (ch : ℕ) : List Int16 :=
  if ch < chCount n frame ∧ InData frame ch then samplesOf frame ch else []

/-- Ring `ch` has had its turn with the newest frame. -/
def Handled (pc : IngestionPc) (ch : ℕ) : Prop :=
  match pc with
  | .push c => ch < c
  | .pushed c _ | .dropped c _ => ch ≤ c
  | _ => True

instance (pc : IngestionPc) (ch : ℕ) : Decidable (Handled pc ch) := by
  unfold Handled
  split <;> infer_instance

/-- What ring `ch` has been offered, frame by frame. -/
def offers (s : IngestionThread σ n) (ch : ℕ) : List (List Int16) :=
  (if Handled s.pc ch then s.frames else s.frames.dropLast).map fun frame => offered n frame ch

/-- What ring `ch` has taken and its counter does not count yet. -/
def unpushed (s : IngestionThread σ n) (ch : ℕ) : ℕ :=
  match s.pc with
  | .pushed c count => if ch = c then count else 0
  | _ => 0

/-- What ring `ch` has refused and its counter does not count yet. -/
def undropped (s : IngestionThread σ n) (ch : ℕ) : ℕ :=
  match s.pc with
  | .pushed c count | .dropped c count => if ch = c then s.frame.samplesPerChannel.toNat - count else 0
  | _ => 0

/-- The thread is busy with a frame. -/
def Busy : IngestionPc → Prop
  | .push _ | .pushed _ _ | .dropped _ _ => True
  | _ => False

/-- A ring has taken the front of each part that it was offered. -/
def TakesFronts (accepted : List Int16) (offers : List (List Int16)) : Prop :=
  ∃ pieces, accepted = pieces.flatten ∧ List.Forall₂ (· <+: ·) pieces offers

theorem TakesFronts.snoc {accepted piece offer : List Int16} {offers : List (List Int16)}
    (h : TakesFronts accepted offers) (hpiece : piece <+: offer) :
    TakesFronts (accepted ++ piece) (offers ++ [offer]) := by
  obtain ⟨pieces, rfl, hfronts⟩ := h
  exact ⟨pieces ++ [piece], by simp, List.rel_append hfronts (.cons hpiece .nil)⟩

/-- Where as much was taken as was offered, all of it was. -/
theorem TakesFronts.eq_of_length {accepted : List Int16} {offers : List (List Int16)} (h : TakesFronts accepted offers)
    (hlen : offers.flatten.length ≤ accepted.length) : accepted = offers.flatten := by
  obtain ⟨pieces, rfl, hfronts⟩ := h
  have hshort : ∀ {pieces offers : List (List Int16)}, List.Forall₂ (· <+: ·) pieces offers →
      pieces.flatten.length ≤ offers.flatten.length := by
    intro pieces offers hfronts
    induction hfronts with
    | nil => exact le_rfl
    | cons hpiece _ ih =>
      have hle := hpiece.length_le
      simp only [List.flatten_cons, List.length_append]
      omega
  induction hfronts with
  | nil => rfl
  | cons hpiece hrest ih =>
    have hle := hpiece.length_le
    have hrest' := hshort hrest
    simp only [List.flatten_cons, List.length_append] at hlen ⊢
    rw [hpiece.eq_of_length (by omega), ih (by omega)]

/-- The books on ring `ch`. -/
structure BooksInv (s : IngestionThread σ n) (ch : Fin n) : Prop where
  newest : Busy s.pc → ∃ before, s.frames = before ++ [s.frame]
  counting : ∀ count, s.pc = .pushed ch count ∨ s.pc = .dropped ch count → ∃ counter, s.dropCounters ch = some counter
  fronts : TakesFronts (s.rings ch).accepted (s.offers ch)
  counted : ∀ counter, s.dropCounters ch = some counter → ∃ pushed dropped,
    counter = ⟨UInt64.ofNat pushed, UInt64.ofNat dropped⟩ ∧ pushed + s.unpushed ch = (s.rings ch).accepted.length ∧
      (s.rings ch).accepted.length + dropped + s.undropped ch = (s.offers ch).flatten.length

theorem offers_same {ch : ℕ} (hframes : s'.frames = s.frames) (h : Handled s'.pc ch ↔ Handled s.pc ch) :
    s'.offers ch = s.offers ch := by
  rw [offers, offers, hframes, if_congr h rfl rfl]

theorem offers_turn {ch : ℕ} {before : List FrameBuffer} (hframes : s'.frames = s.frames)
    (hbefore : s.frames = before ++ [s.frame]) (h : ¬ Handled s.pc ch) (h' : Handled s'.pc ch) :
    s'.offers ch = s.offers ch ++ [offered n s.frame ch] := by
  rw [offers, offers, if_pos h', if_neg h, hframes, hbefore, List.dropLast_concat, List.map_append, List.map_singleton]

theorem idle_cases {pc : IngestionPc} (h : ¬ Busy pc) : pc = .head ∨ pc = .read ∨ pc = .exited := by
  cases pc with
  | head => exact .inl rfl
  | read => exact .inr (.inl rfl)
  | exited => exact .inr (.inr rfl)
  | push ch => exact absurd trivial h
  | pushed ch count => exact absurd trivial h
  | dropped ch count => exact absurd trivial h

theorem books_idle (h : ¬ Busy s.pc) (ch : Fin n) :
    s.offers ch = s.frames.map (offered n · ch) ∧ s.unpushed ch = 0 ∧ s.undropped ch = 0 := by
  rcases idle_cases h with hpc | hpc | hpc <;> simp [offers, unpushed, undropped, Handled, hpc]

theorem idle_of (h : s.pc = .head ∨ s.pc = .read) : ¬ Busy s.pc := by
  rcases h with hpc | hpc <;> simp [Busy, hpc]

/-- A step outside the frames leaves the books alone. -/
theorem books_roam (next : σ) (frame : FrameBuffer) {pc : IngestionPc} (h : ¬ Busy s.pc) (h' : ¬ Busy pc) (ch : Fin n) :
    ({ s with source := next, frame := frame, pc := pc } : IngestionThread σ n).offers ch = s.offers ch ∧
      ({ s with source := next, frame := frame, pc := pc } : IngestionThread σ n).unpushed ch = s.unpushed ch ∧
      ({ s with source := next, frame := frame, pc := pc } : IngestionThread σ n).undropped ch = s.undropped ch := by
  obtain ⟨hoffers, hunpushed, hundropped⟩ := books_idle h ch
  generalize hs' : ({ s with source := next, frame := frame, pc := pc } : IngestionThread σ n) = s'
  obtain ⟨hoffers', hunpushed', hundropped'⟩ := books_idle (s := s') (by rw [← hs']; exact h') ch
  have hframes : s'.frames = s.frames := by rw [← hs']
  rw [hoffers, hoffers', hframes, hunpushed, hunpushed', hundropped, hundropped']
  exact ⟨rfl, rfl, rfl⟩

/-- What one step does to ring `ch` and its counter: nothing; or the ring has its turn with the newest frame; or the
counter counts. -/
theorem books_cases {l : Label n} {ch : Fin n} (h : BooksInv s ch) (hst : s.step source l = some s') :
    ((s'.rings ch).accepted = (s.rings ch).accepted ∧ s'.dropCounters ch = s.dropCounters ch ∧
      s'.offers ch = s.offers ch ∧ s'.unpushed ch = s.unpushed ch ∧ s'.undropped ch = s.undropped ch) ∨
    (∃ piece offer, (s'.rings ch).accepted = (s.rings ch).accepted ++ piece ∧ s'.dropCounters ch = s.dropCounters ch ∧
      s'.offers ch = s.offers ch ++ [offer] ∧ piece <+: offer ∧ s.unpushed ch = 0 ∧ s.undropped ch = 0 ∧
      (s.dropCounters ch ≠ none → s'.unpushed ch = piece.length ∧ piece.length + s'.undropped ch = offer.length)) ∨
    ((s'.rings ch).accepted = (s.rings ch).accepted ∧ s'.offers ch = s.offers ch ∧ ∃ counter p d,
      s.dropCounters ch = some counter ∧ s'.dropCounters ch = some ((counter.addPushed p).addDropped d) ∧
      s.unpushed ch = p + s'.unpushed ch ∧ s.undropped ch = d + s'.undropped ch) := by
  rcases step_cases hst with
    hpc | hpc | ⟨hpc, -⟩ | ⟨hpc, -⟩ | hpc | ⟨hpc, hch⟩ | ⟨hpc, hch, hdata⟩ | ⟨hpc, hch, hdata⟩ | hpc | hpc | _ | _ | _
  case halt => exact .inl ⟨rfl, rfl, books_roam _ _ (idle_of (.inl hpc)) id ch⟩
  case look => exact .inl ⟨rfl, rfl, books_roam _ _ (idle_of (.inl hpc)) id ch⟩
  case receive frame next =>
    refine .inl ⟨rfl, rfl, ?_, by simp [unpushed, received, hpc], by simp [undropped, received, hpc]⟩
    simp [offers, Handled, received, hpc]
  case wait => exact .inl ⟨rfl, rfl, books_roam _ _ (idle_of (.inr hpc)) id ch⟩
  case leave => exact .inl ⟨rfl, rfl, books_roam _ _ (idle_of (.inr hpc)) id ch⟩
  case done c =>
    by_cases hlt : ch.val < c
    · exact .inl ⟨rfl, rfl, offers_same rfl (by simp [Handled, hpc, hlt]), by simp [unpushed, hpc],
        by simp [undropped, hpc]⟩
    · obtain ⟨before, hbefore⟩ := h.newest (by simp [Busy, hpc])
      have hnothing : offered n s.frame ch = [] := if_neg fun hin => hlt (hin.1.trans_le hch)
      refine .inr (.inl ⟨[], [], by simp, rfl, ?_, List.prefix_rfl, by simp [unpushed, hpc], by simp [undropped, hpc],
        fun _ => ⟨rfl, rfl⟩⟩)
      rw [← hnothing]
      exact offers_turn rfl hbefore (by simp [Handled, hpc, hlt]) trivial
  case skip c =>
    by_cases hc : ch = c
    · subst hc
      obtain ⟨before, hbefore⟩ := h.newest (by simp [Busy, hpc])
      have hnothing : offered n s.frame ch = [] := if_neg fun hin => hdata hin.2
      refine .inr (.inl ⟨[], [], by simp, rfl, ?_, List.prefix_rfl, by simp [unpushed, hpc], by simp [undropped, hpc],
        fun _ => ⟨rfl, rfl⟩⟩)
      rw [← hnothing]
      exact offers_turn rfl hbefore (by simp [Handled, hpc]) (Nat.lt_succ_self _)
    · have hval : ch.val ≠ c.val := fun heq => hc (Fin.ext heq)
      refine .inl ⟨rfl, rfl, offers_same rfl ?_, by simp [unpushed, hpc], by simp [undropped, hpc]⟩
      simp only [Handled, hpc]
      omega
  case push c =>
    by_cases hc : ch = c
    · subst hc
      obtain ⟨before, hbefore⟩ := h.newest (by simp [Busy, hpc])
      have hsamples : offered n s.frame ch = samplesOf s.frame ch := if_pos ⟨hch, hdata⟩
      refine .inr (.inl ⟨(samplesOf s.frame ch).take (s.rings ch).free, samplesOf s.frame ch, ?_, rfl, ?_,
        List.take_prefix _ _, by simp [unpushed, hpc], by simp [undropped, hpc], fun hcounter => ?_⟩)
      · show ((s.setRing ch _).rings ch).accepted = _
        rw [setRing_self, RingBuffer.accepted_pushBulk]
      · rw [← hsamples]
        refine offers_turn rfl hbefore (by simp [Handled, hpc]) ?_
        dsimp only
        split_ifs <;> simp [Handled]
      · have hsome : (s.dropCounters ch).isSome = true := Option.isSome_iff_ne_none.mpr hcounter
        simp only [unpushed, undropped, hsome, if_true, RingBuffer.pushBulk, List.length_take, length_samplesOf hdata,
          setRing_frame]
        exact ⟨min_comm _ _, by omega⟩
    · have hval : ch.val ≠ c.val := fun heq => hc (Fin.ext heq)
      refine .inl ⟨?_, rfl, offers_same rfl ?_, ?_, ?_⟩
      · show ((s.setRing c _).rings ch).accepted = _
        rw [setRing_other _ hc]
      · dsimp only
        split_ifs <;> simp only [Handled, hpc] <;> omega
      · dsimp only [unpushed]
        split_ifs <;> simp [hpc, hval]
      · dsimp only [undropped]
        split_ifs <;> simp [hpc, hval]
  case pushed c count =>
    have hhandled : Handled (if count < s.frame.samplesPerChannel.toNat then .dropped c count else .push (c + 1)) ch ↔
        Handled s.pc ch := by
      rw [hpc]
      split_ifs
      · exact Iff.rfl
      · exact Nat.lt_succ_iff
    by_cases hc : ch = c
    · subst hc
      obtain ⟨counter, hcounter⟩ := h.counting count (.inl hpc)
      refine .inr (.inr ⟨rfl, offers_same rfl hhandled, counter, count, 0, hcounter, ?_, ?_, ?_⟩)
      · show (s.setCounter ch _).dropCounters ch = _
        rw [setCounter_self, hcounter, DropCounter.addDropped_zero, Option.getD_some]
      · dsimp only [unpushed]
        split_ifs <;> simp [hpc]
      · dsimp only [undropped]
        split_ifs with hlt
        · simp [hpc]
        · simp [hpc, Nat.sub_eq_zero_of_le (not_lt.mp hlt)]
    · have hval : ch.val ≠ c.val := fun heq => hc (Fin.ext heq)
      refine .inl ⟨rfl, setCounter_other _ hc, offers_same rfl hhandled, ?_, ?_⟩
      · dsimp only [unpushed]
        split_ifs <;> simp [hpc, hval]
      · dsimp only [undropped]
        split_ifs <;> simp [hpc, hval]
  case dropped c count =>
    have hhandled : Handled (.push (c + 1)) ch ↔ Handled s.pc ch := by
      simp only [Handled, hpc]
      omega
    by_cases hc : ch = c
    · subst hc
      obtain ⟨counter, hcounter⟩ := h.counting count (.inr hpc)
      refine .inr (.inr ⟨rfl, offers_same rfl hhandled, counter, 0, s.frame.samplesPerChannel.toNat - count, hcounter,
        ?_, by simp [unpushed, hpc], by simp [undropped, hpc]⟩)
      show (s.setCounter ch _).dropCounters ch = _
      rw [setCounter_self, hcounter, DropCounter.addPushed_zero, Option.getD_some]
    · have hval : ch.val ≠ c.val := fun heq => hc (Fin.ext heq)
      exact .inl ⟨rfl, setCounter_other _ hc, offers_same rfl hhandled, by simp [unpushed, hpc],
        by simp [undropped, hpc, hval]⟩
  case stop => exact .inl ⟨rfl, rfl, rfl, rfl, rfl⟩
  case pop c maxCount => exact .inl ⟨accepted_setRing (RingBuffer.accepted_popBulk _ _) ch, rfl, rfl, rfl, rfl⟩
  case discard c maxCount => exact .inl ⟨accepted_setRing (RingBuffer.accepted_discardBulk _ _) ch, rfl, rfl, rfl, rfl⟩

theorem newest_step {l : Label n} (h : Busy s.pc → ∃ before, s.frames = before ++ [s.frame])
    (hst : s.step source l = some s') : Busy s'.pc → ∃ before, s'.frames = before ++ [s'.frame] := by
  rcases step_cases hst with
    hpc | hpc | _ | _ | _ | ⟨hpc, hch⟩ | ⟨hpc, hch, hdata⟩ | ⟨hpc, hch, hdata⟩ | hpc | hpc | _ | _ | _
  case receive => exact fun _ => ⟨s.frames, rfl⟩
  case skip => exact fun _ => h (by simp [Busy, hpc])
  case push => exact fun _ => h (by simp [Busy, hpc])
  case pushed => exact fun _ => h (by simp [Busy, hpc])
  case dropped => exact fun _ => h (by simp [Busy, hpc])
  case halt => exact False.elim
  case look => exact False.elim
  case done => exact False.elim
  case wait => exact False.elim
  case leave => exact False.elim
  all_goals exact h

theorem counting_step {l : Label n} {ch : Fin n} (h : BooksInv s ch) (hst : s.step source l = some s') {count : ℕ}
    (hpc' : s'.pc = .pushed ch count ∨ s'.pc = .dropped ch count) : ∃ counter, s'.dropCounters ch = some counter := by
  rcases step_cases hst with
    hpc | hpc | _ | _ | _ | ⟨hpc, hch⟩ | ⟨hpc, hch, hdata⟩ | ⟨hpc, hch, hdata⟩ | hpc | hpc | _ | _ | _
  case push c =>
    dsimp only at hpc'
    split_ifs at hpc' with hsome
    · have hc : ch = c := by
        rcases hpc' with heq | heq
        · exact Fin.ext (IngestionPc.pushed.inj heq).1.symm
        · cases heq
      exact Option.isSome_iff_exists.mp (hc ▸ hsome)
    · rcases hpc' with heq | heq <;> cases heq
  case pushed c taken =>
    dsimp only at hpc'
    split_ifs at hpc' with hlt
    · have hc : ch = c := by
        rcases hpc' with heq | heq
        · cases heq
        · exact Fin.ext (IngestionPc.dropped.inj heq).1.symm
      subst hc
      exact ⟨_, setCounter_self (s := s) ch _⟩
    · rcases hpc' with heq | heq <;> cases heq
  case stop => exact h.counting count hpc'
  case pop => exact h.counting count hpc'
  case discard => exact h.counting count hpc'
  all_goals rcases hpc' with heq | heq <;> cases heq

/-- **One step keeps the books.** -/
theorem booksInv_step {l : Label n} {ch : Fin n} (h : BooksInv s ch) (hst : s.step source l = some s') :
    BooksInv s' ch := by
  refine ⟨newest_step h.newest hst, fun _ => counting_step h hst, ?_, ?_⟩
  · rcases books_cases h hst with ⟨haccepted, -, hoffers, -⟩ | ⟨piece, offer, haccepted, -, hoffers, hpiece, -⟩ |
      ⟨haccepted, hoffers, -⟩
    · rw [haccepted, hoffers]
      exact h.fronts
    · rw [haccepted, hoffers]
      exact h.fronts.snoc hpiece
    · rw [haccepted, hoffers]
      exact h.fronts
  · intro counter' hcounter'
    rcases books_cases h hst with ⟨haccepted, hcounters, hoffers, hunpushed, hundropped⟩ |
      ⟨piece, offer, haccepted, hcounters, hoffers, -, hunpushed, hundropped, hnow⟩ |
      ⟨haccepted, hoffers, counter, p, d, hcounter, hcounters, hunpushed, hundropped⟩
    · rw [haccepted, hoffers, hunpushed, hundropped]
      exact h.counted counter' (hcounters ▸ hcounter')
    · rw [hcounters] at hcounter'
      obtain ⟨pushed, dropped, heq, hpushed, hdropped⟩ := h.counted counter' hcounter'
      obtain ⟨hunpushed', hundropped'⟩ := hnow (by simp [hcounter'])
      refine ⟨pushed, dropped, heq, ?_, ?_⟩
      · rw [haccepted, List.length_append, hunpushed']
        omega
      · rw [haccepted, hoffers, List.flatten_append, List.length_append, List.length_append, List.flatten_singleton]
        omega
    · obtain ⟨pushed, dropped, rfl, hpushed, hdropped⟩ := h.counted counter hcounter
      rw [hcounters] at hcounter'
      refine ⟨pushed + p, dropped + d, ?_, ?_, ?_⟩
      · rw [← Option.some.inj hcounter', DropCounter.addPushed, DropCounter.addDropped, UInt64.ofNat_add, UInt64.ofNat_add]
      · rw [haccepted]
        omega
      · rw [haccepted, hoffers]
        omega

theorem reach_booksInv (hs : (threads n source initial).Reachable s) (ch : Fin n) : BooksInv s ch := by
  refine hs.invariant (I := fun s => BooksInv s ch) (fun t h0 => ?_) fun _ _ _ h _ hst => booksInv_step h hst
  obtain ⟨slots, pos, counted, rfl⟩ := h0
  refine ⟨False.elim, by simp, ⟨[], rfl, .nil⟩, fun counter hcounter => ⟨0, 0, ?_, rfl, rfl⟩⟩
  dsimp only at hcounter
  split_ifs at hcounter
  exact (Option.some.inj hcounter).symm

/-- **The books, at any time.**  Whatever the source yields and whoever pops when, each ring has got the front of each part
that the frames had for it, in their order; what it has got was popped or discarded or is in the ring, and its counter tells
how much of what it was offered it has got and how much not, but for what the thread is about to count. -/
theorem run_books (hs : (threads n source initial).Reachable s) (ch : Fin n) :
    TakesFronts (s.rings ch).accepted (s.offers ch) ∧
      (s.rings ch).accepted = (s.rings ch).removed ++ (s.rings ch).items ∧
      (¬ Busy s.pc → s.offers ch = s.frames.map (offered n · ch) ∧ s.unpushed ch = 0 ∧ s.undropped ch = 0) ∧
      ∀ counter, s.dropCounters ch = some counter → ∃ pushed dropped,
        counter = ⟨UInt64.ofNat pushed, UInt64.ofNat dropped⟩ ∧ pushed + s.unpushed ch = (s.rings ch).accepted.length ∧
          (s.rings ch).accepted.length + dropped + s.undropped ch = (s.offers ch).flatten.length := by
  have hinv := reach_booksInv hs ch
  exact ⟨hinv.fronts, (s.rings ch).split, fun hidle => books_idle hidle ch, hinv.counted⟩

/-- A source of some frames. -/
def framesSource : IDataSource (List FrameBuffer) where
  readFrame
    | [], frame => (.endOfStream, frame, [])
    | next :: frames, _ => (.ok, next, frames)
  sampleRateHz _ := 0

/-- Two frames of two channels are offered to rings that hold two samples; nobody pops. -/
theorem run_books_two : ∃ s : IngestionThread (List FrameBuffer) 2,
    s.pc = .exited ∧ (s.rings 1).accepted = [3, 4] ∧ s.dropCounters 1 = some ⟨2, 2⟩ ∧ s.offers 1 = [[3, 4], [7, 8]] ∧
      TakesFronts (s.rings 1).accepted (s.offers 1) := by
  let frames : List FrameBuffer := [⟨0, 0, 2, 2, [1, 2, 3, 4]⟩, ⟨1, 0, 2, 2, [5, 6, 7, 8]⟩]
  let start : IngestionThread (List FrameBuffer) 2 :=
    { source := frames, rings := fun _ => .new 3 (by decide), dropCounters := fun _ => if true then some {} else none }
  have hrun : (((threads 2 framesSource frames).exec start (List.replicate 18 .thread)).map fun s =>
      (s.pc, (s.rings 1).accepted, s.dropCounters 1, s.offers 1)) =
        some (.exited, [3, 4], some ⟨2, 2⟩, [[3, 4], [7, 8]]) := by
    decide +kernel
  obtain ⟨s, hs, heq⟩ := Option.map_eq_some_iff.mp hrun
  have hreach : (threads 2 framesSource frames).Reachable s :=
    Lts.reachable_of_exec _ ⟨fun _ => 3, fun _ => Nat.succ_pos 2, fun _ => true, rfl⟩ hs
  simp only [Prod.mk.injEq] at heq
  obtain ⟨hpc, haccepted, hcounter, hoffers⟩ := heq
  exact ⟨s, hpc, haccepted, hcounter, hoffers, (run_books hreach 1).1⟩

end Books

/-! ## The gaps -/

section Gaps

variable {source : IDataSource σ} {initial : σ} {s s' : IngestionThread σ n}

/-- Frames whose numbers go up. -/
def Rising (frames : List FrameBuffer) : Prop := frames.Pairwise fun f g => f.sequence < g.sequence

/-- The books on the numbers of the frames. -/
structure GapInv (s : IngestionThread σ n) : Prop where
  published : s.sequenceGaps = s.gapCount
  none_read : s.frames = [] → s.expectedSeq = 0 ∧ s.gapCount = 0
  expected : ∀ last, s.frames.getLast? = some last → s.expectedSeq = last.sequence + 1
  gaps : Rising s.frames → ∀ first last, s.frames.head? = some first → s.frames.getLast? = some last →
    s.gapCount.toNat + s.frames.length + first.sequence.toNat = last.sequence.toNat + 1

/-- Only a frame that is read is in the books. -/
theorem gap_cases {l : Label n} (hst : s.step source l = some s') :
    (s'.frames = s.frames ∧ s'.expectedSeq = s.expectedSeq ∧ s'.gapCount = s.gapCount ∧
      s'.sequenceGaps = s.sequenceGaps) ∨ ∃ frame next, s' = s.received source frame next := by
  rcases step_cases hst with _ | _ | _ | _ | _ | _ | _ | _ | _ | _ | _ | _ | _
  case receive => exact .inr ⟨_, _, rfl⟩
  all_goals exact .inl ⟨rfl, rfl, rfl, rfl⟩

/-- The gap before a frame whose number is above the one before it. -/
theorem gap_of_lt {previous : UInt64} {frame : FrameBuffer} (hexpected : s.expectedSeq = previous + 1)
    (hlt : previous < frame.sequence) (hcount : s.gapCount.toNat ≤ previous.toNat) :
    (if s.IsGap frame then s.gapCount + s.gap frame else s.gapCount).toNat + previous.toNat + 1 =
      s.gapCount.toNat + frame.sequence.toNat := by
  have hlt' := UInt64.lt_iff_toNat_lt.mp hlt
  have hframe := frame.sequence.toNat_lt
  have hnext : s.expectedSeq.toNat = previous.toNat + 1 := by
    rw [hexpected, UInt64.toNat_add, UInt64.toNat_one, Nat.mod_eq_of_lt (by omega)]
  by_cases heq : frame.sequence = s.expectedSeq
  · rw [if_neg fun hgap => hgap.1 heq, heq, hnext]
    omega
  · have hne : frame.sequence.toNat ≠ s.expectedSeq.toNat := fun h => heq (UInt64.toNat_inj.mp h)
    have hpos : s.expectedSeq > 0 := by
      rw [gt_iff_lt, UInt64.lt_iff_toNat_lt, hnext]
      exact Nat.succ_pos _
    have habove : frame.sequence > s.expectedSeq := by
      rw [gt_iff_lt, UInt64.lt_iff_toNat_lt]
      omega
    have hgap : (s.gap frame).toNat = frame.sequence.toNat - s.expectedSeq.toNat := by
      rw [gap, if_pos habove, UInt64.toNat_sub_of_le _ _ (UInt64.le_of_lt habove)]
    rw [if_pos ⟨heq, hpos⟩, UInt64.toNat_add, hgap, hnext, Nat.mod_eq_of_lt (by omega)]
    omega

theorem gapInv_received (h : GapInv s) (frame : FrameBuffer) (next : σ) : GapInv (s.received source frame next) := by
  refine ⟨?_, fun hnone => absurd hnone (by simp [received]), fun last hlast => ?_, fun hrising first last hfirst hlast => ?_⟩
  · simp only [received, h.published]
  · obtain rfl : frame = last := by simpa [received] using hlast
    rfl
  · obtain rfl : frame = last := by simpa [received] using hlast
    show (if s.IsGap frame then s.gapCount + s.gap frame else s.gapCount).toNat + (s.frames ++ [frame]).length +
      first.sequence.toNat = frame.sequence.toNat + 1
    rcases List.eq_nil_or_concat' s.frames with hnil | ⟨before, previous, hframes⟩
    · obtain ⟨hexpected, hcount⟩ := h.none_read hnil
      obtain rfl : frame = first := by simpa [received, hnil] using hfirst
      have hno : ¬ s.IsGap frame := fun hgap => absurd hgap.2 (by simp [hexpected])
      rw [if_neg hno, hcount, hnil]
      simp
      omega
    · have hpairs : (s.frames ++ [frame]).Pairwise fun f g => f.sequence < g.sequence := hrising
      obtain ⟨hold, -, hnew⟩ := List.pairwise_append.mp hpairs
      have hlast' : s.frames.getLast? = some previous := by simp [hframes]
      have hfirst' : s.frames.head? = some first := by
        have : (s.frames ++ [frame]).head? = some first := hfirst
        simpa [hframes] using this
      have hbooks := h.gaps hold first previous hfirst' hlast'
      have hlength : 0 < s.frames.length := by simp [hframes]
      have hgap := gap_of_lt (h.expected previous hlast')
        (hnew previous (List.mem_of_getLast? hlast') frame (List.mem_singleton.mpr rfl)) (by omega)
      rw [List.length_append, List.length_singleton]
      omega

theorem gapInv_step {l : Label n} (h : GapInv s) (hst : s.step source l = some s') : GapInv s' := by
  rcases gap_cases hst with ⟨hframes, hexpected, hcount, hgaps⟩ | ⟨frame, next, rfl⟩
  · refine ⟨by rw [hgaps, hcount, h.published], ?_, ?_, ?_⟩
    · rw [hframes, hexpected, hcount]
      exact h.none_read
    · rw [hframes, hexpected]
      exact h.expected
    · rw [hframes, hcount]
      exact h.gaps
  · exact gapInv_received h frame next

theorem reach_gapInv (hs : (threads n source initial).Reachable s) : GapInv s := by
  refine hs.invariant (I := GapInv) (fun t h0 => ?_) fun _ _ _ h _ hst => gapInv_step h hst
  obtain ⟨slots, pos, counted, rfl⟩ := h0
  exact ⟨rfl, fun _ => ⟨rfl, rfl⟩, by simp, by simp⟩

end Gaps

end IngestionThread

end Grebe
