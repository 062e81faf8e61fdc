import Grebe.DecimationFrames
import Grebe.DecimationHistory
import Grebe.IngestionThread
import Grebe.Lib.Sharing

/-!
# Grebe.DecimationPipeline — an `IngestionThread` and a `DecimationThread` on the same rings

`IDataSource → IngestionThread → N × RingBuffer → DecimationEngine`: one thread fills the rings, and the threads of the
other empty them.  Each was modelled among all that others may do to its rings, and here they are run together.

* `Fills`, `Drains`: what the one and the other do to the rings.
* `Windows`: of each channel a published frame is made from a segment of what its ring has got, and no frame is from
  further back than the one before.
* `published_windows`: with one thread or with workers, in every run, the published frames are windows of what the frames of
  the source had for the channels, as far as there was room for it.
-/

namespace Grebe

open Lib DecimationCycle

/-! ## What is done to the rings -/

section Rings

variable {N : ℕ}

/-- One push, or nothing. -/
def Fills (rings rings' : Fin N → RingBuffer Int16) : Prop :=
  rings' = rings ∨ ∃ ch src, rings' = Function.update rings ch ((rings ch).pushBulk src).2

/-- One pop or discard, or nothing. -/
def Drains (rings rings' : Fin N → RingBuffer Int16) : Prop :=
  rings' = rings ∨ (∃ ch maxCount, rings' = Function.update rings ch ((rings ch).popBulk maxCount).2) ∨
    ∃ ch maxCount, rings' = Function.update rings ch ((rings ch).discardBulk maxCount).2

/-- What has gone into a ring and what has come out of it stays so. -/
def Grown (ring ring' : RingBuffer Int16) : Prop := ring.accepted <+: ring'.accepted ∧ ring.removed <+: ring'.removed

variable {rings rings' : Fin N → RingBuffer Int16}

theorem grown_update {c : Fin N} {ring : RingBuffer Int16} (h : Grown (rings c) ring) (ch : Fin N) :
    Grown (rings ch) (Function.update rings c ring ch) := by
  by_cases hc : ch = c
  · subst hc
    rwa [Function.update_self]
  · rw [Function.update_of_ne hc]
    exact ⟨List.prefix_rfl, List.prefix_rfl⟩

theorem Fills.grown (h : Fills rings rings') (ch : Fin N) : Grown (rings ch) (rings' ch) := by
  rcases h with rfl | ⟨c, src, rfl⟩
  · exact ⟨List.prefix_rfl, List.prefix_rfl⟩
  · have hpush : Grown (rings c) ((rings c).pushBulk src).2 := ⟨List.prefix_append .., List.prefix_rfl⟩
    exact grown_update hpush ch

theorem Drains.grown (h : Drains rings rings') (ch : Fin N) : Grown (rings ch) (rings' ch) := by
  rcases h with rfl | ⟨c, maxCount, rfl⟩ | ⟨c, maxCount, rfl⟩
  · exact ⟨List.prefix_rfl, List.prefix_rfl⟩
  · have hpop : Grown (rings c) ((rings c).popBulk maxCount).2 := ⟨List.prefix_rfl, List.prefix_append ..⟩
    exact grown_update hpop ch
  · have hdiscard : Grown (rings c) ((rings c).discardBulk maxCount).2 := ⟨List.prefix_rfl, List.prefix_append ..⟩
    exact grown_update hdiscard ch

theorem drains_discardOld (window avail : ℕ) (ch : Fin N) :
    Drains rings (Function.update rings ch (discardOld window (rings ch) avail).1) := by
  unfold discardOld
  split_ifs
  · exact .inr (.inr ⟨ch, _, rfl⟩)
  · exact .inl (Function.update_eq_self ..)

theorem drains_popInto (window avail : ℕ) (hist : List Int16) (ch : Fin N) :
    Drains rings (Function.update rings ch (popInto window (rings ch) hist avail).ring) := by
  unfold popInto
  split_ifs
  · exact .inr (.inl ⟨ch, _, rfl⟩)
  · exact .inl (Function.update_eq_self ..)

end Rings

/-! ## The windows of the published frames -/

section Windows

variable {N : ℕ} {rings rings' : Fin N → RingBuffer Int16} {published : List (Publication N)}

/-- Of each channel a published frame is made from a segment of what its ring has got; the segments end no earlier from one
frame to the next. -/
def Windows (rings : Fin N → RingBuffer Int16) (published : List (Publication N)) : Prop :=
  ∃ ends : List (Fin N → ℕ), ends.Pairwise (· ≤ ·) ∧ (∀ e ∈ ends, ∀ ch, e ch ≤ (rings ch).removed.length) ∧
    List.Forall₂ (fun p e => ∀ ch, p.histories ch <:+ (rings ch).accepted.take (e ch)) published ends

theorem windows_nil : Windows rings [] := ⟨[], .nil, by simp, .nil⟩

theorem Windows.grow (h : Windows rings published) (hgrown : ∀ ch, Grown (rings ch) (rings' ch)) :
    Windows rings' published := by
  obtain ⟨ends, hsorted, hbound, hwindows⟩ := h
  refine ⟨ends, hsorted, fun e he ch => (hbound e he ch).trans (hgrown ch).2.length_le, ?_⟩
  have hall : ∀ e ∈ ends, ∀ ch, (rings' ch).accepted.take (e ch) = (rings ch).accepted.take (e ch) := by
    intro e he ch
    obtain ⟨more, hmore⟩ := (hgrown ch).1
    have hle : e ch ≤ (rings ch).accepted.length := (hbound e he ch).trans (rings ch).fifo.removed_prefix.length_le
    rw [← hmore, List.take_append_of_le_length hle]
  clear hsorted hbound
  induction hwindows with
  | nil => exact .nil
  | cons hp _ ih =>
    obtain ⟨hhead, htail⟩ := List.forall_mem_cons.mp hall
    refine .cons (fun ch => ?_) (ih htail)
    rw [hhead]
    exact hp ch

/-- A frame is published. -/
theorem Windows.publish (h : Windows rings published) {p : Publication N}
    (hp : ∀ ch, p.histories ch <:+ (rings ch).removed) : Windows rings (published ++ [p]) := by
  obtain ⟨ends, hsorted, hbound, hwindows⟩ := h
  refine ⟨ends ++ [fun ch => (rings ch).removed.length], ?_, ?_, List.rel_append hwindows (.cons (fun ch => ?_) .nil)⟩
  · refine List.pairwise_append.mpr ⟨hsorted, List.pairwise_singleton .., ?_⟩
    intro e he e' he'
    rw [List.mem_singleton.mp he']
    exact hbound e he
  · intro e he ch
    rcases List.mem_append.mp he with he | he
    · exact hbound e he ch
    · rw [List.mem_singleton.mp he]
  · have htake : (rings ch).accepted.take (rings ch).removed.length = (rings ch).removed := by
      rw [(rings ch).split, List.take_left]
    rw [htake]
    exact hp ch

end Windows

/-! ## Each alone -/

section Threads

namespace IngestionThread

variable {σ : Type} {n : ℕ} {source : IDataSource σ} {initial : σ} {s s' : IngestionThread σ n}

/-- The rings of the thread. -/
def ringsOf : Part (IngestionThread σ n) (Fin n → RingBuffer Int16) where
  get s := s.rings
  put rings s := { s with rings := rings }
  get_put _ _ := rfl
  put_get _ := rfl

/-- The steps of the thread, and of the one that stops it. -/
def owns : Label n → Bool
  | .thread | .stop => true
  | .pop _ _ | .discard _ _ => false

theorem fills_step {l : Label n} (hl : owns l = true) (hst : s.step source l = some s') : Fills s.rings s'.rings := by
  rcases step_cases hst with _ | _ | _ | _ | _ | _ | _ | @⟨ch, hpc, hch, hdata⟩ | _ | _ | _ | _ | _
  case push => exact .inr ⟨ch, samplesOf s.frame ch, rfl⟩
  case pop | discard => cases hl
  all_goals exact .inl rfl

theorem allows_drains {rings rings' : Fin n → RingBuffer Int16} (h : Drains rings rings') :
    (threads n source initial).Allows ringsOf rings rings' := by
  rcases h with rfl | ⟨ch, maxCount, rfl⟩ | ⟨ch, maxCount, rfl⟩
  · exact Lts.allows_refl _ _ _
  · refine Lts.allows_of_step (.pop ch maxCount) fun t ht => ?_
    subst ht
    rfl
  · refine Lts.allows_of_step (.discard ch maxCount) fun t ht => ?_
    subst ht
    rfl

/-- As long as nothing was dropped a ring has got all that was offered. -/
theorem accepted_of_lossless (hs : (threads n source initial).Reachable s) {ch : Fin n} {counter : DropCounter}
    (hcounter : s.dropCounters ch = some counter) (hnone : counter.totalDropped = 0) (hidle : ¬ Busy s.pc)
    (hfew : (s.frames.map (offered n · ch)).flatten.length < 2 ^ 64) :
    (s.rings ch).accepted = (s.frames.map (offered n · ch)).flatten := by
  have hinv := reach_booksInv hs ch
  obtain ⟨hoffers, hunpushed, hundropped⟩ := books_idle (s := s) hidle ch
  obtain ⟨pushed, dropped, rfl, -, hdropped⟩ := hinv.counted counter hcounter
  have hzero : dropped = 0 := by
    have hmod := congrArg UInt64.toNat (show UInt64.ofNat dropped = 0 from hnone)
    rw [UInt64.toNat_ofNat', UInt64.toNat_zero] at hmod
    rw [hoffers] at hdropped
    rwa [Nat.mod_eq_of_lt (by omega)] at hmod
  rw [← hoffers]
  exact hinv.fronts.eq_of_length (by omega)

end IngestionThread

namespace SingleRun

variable {N : ℕ} {toSize : Double → Double → ℕ} {s s' : SingleRun N}

def ringsOf : Part (SingleRun N) (Fin N → RingBuffer Int16) where
  get s := s.rings
  put rings s := { s with rings := rings }
  get_put _ _ := rfl
  put_get _ := rfl

/-- The steps of the thread, and of the one that stops it. -/
def owns : Label N → Bool
  | .push _ _ => false
  | .single _ | .stop => true

theorem rings_cases {l : Label N} (hst : Step toSize s l s') :
    (∃ ch src, l = .push ch src ∧ s'.rings = Function.update s.rings ch ((s.rings ch).pushBulk src).2) ∨
      Drains s.rings s'.rings := by
  rcases hst with ⟨ch, src⟩ | _ | _ | _ | ⟨ch, _⟩ | ⟨ch, _, hd⟩ | _ | _
  case push => exact .inl ⟨ch, src, rfl, rfl⟩
  case discard => exact .inr (drains_discardOld ..)
  case pop =>
    subst hd
    exact .inr (drains_popInto ..)
  all_goals exact .inr (.inl rfl)

theorem allows_fills {rings rings' : Fin N → RingBuffer Int16} (h : Fills rings rings') :
    (threads toSize N).Allows ringsOf rings rings' := by
  rcases h with rfl | ⟨ch, src, rfl⟩
  · exact Lts.allows_refl _ _ _
  · refine Lts.allows_of_step (.push ch src) fun t ht => ?_
    subst ht
    rfl

/-- A frame is published outside the drain, of the histories as they are. -/
theorem publication_cases {l : Label N} (h : s.step toSize l = some s') :
    s'.published = s.published ∨
      draining s.pc = false ∧ s'.rings = s.rings ∧ ∃ σ, s'.published = s.published ++ [s.decimated σ] := by
  rcases published_cases h with hsame | hnew
  · exact .inl hsame
  · rcases step_cases h with _ | ⟨pc, published, hpc, hpc'⟩ | _ | _ | _ | _ | _ | _
    case roam => exact .inr ⟨hpc, rfl, hnew⟩
    all_goals exact .inl rfl

theorem reach_windows (hs : (threads toSize N).Reachable s) : Windows s.rings s.published := by
  refine hs.invariant_of (J := (threads toSize N).Reachable) (I := fun s => Windows s.rings s.published) (fun _ h => h)
    (fun t h0 => ?_) fun t l t' ht h _ hst => ?_
  · obtain ⟨rings, rfl⟩ := h0
    exact windows_nil
  · rcases publication_cases hst with hsame | ⟨hpc, hrings, σ, hnew⟩
    · rw [hsame]
      rcases rings_cases (step_cases hst) with ⟨ch, src, -, hfill⟩ | hdrain
      · exact h.grow (Fills.grown (.inr ⟨ch, src, hfill⟩))
      · exact h.grow hdrain.grown
    · rw [hrings, hnew]
      exact h.publish fun ch => Channel.contiguous_iff.mp (reach_contiguous ht hpc ch)

end SingleRun

namespace DecimationRun

variable {n N : ℕ} [NeZero n] {toSize : Double → Double → ℕ} {s s' : DecimationRun n N}

def ringsOf : Part (DecimationRun n N) (Fin N → RingBuffer Int16) where
  get s := s.rings
  put rings s := { s with rings := rings }
  get_put _ _ := rfl
  put_get _ := rfl

/-- The steps of the threads, and of the one that stops them. -/
def owns : Label n N → Bool
  | .push _ _ => false
  | .coordinator _ | .worker _ _ | .stop => true

theorem rings_cases {l : Label n N} (hst : Step toSize s l s') :
    (∃ ch src, l = .push ch src ∧ s'.rings = Function.update s.rings ch ((s.rings ch).pushBulk src).2) ∨
      Drains s.rings s'.rings := by
  rcases hst with @⟨ch, src⟩ | _ | _ | _ | _ | _ | _ | _ | _ | _ | ⟨_, _, hd⟩ | _
  case push => exact .inl ⟨ch, src, rfl, rfl⟩
  case discard => exact .inr (drains_discardOld ..)
  case pop =>
    subst hd
    exact .inr (drains_popInto ..)
  all_goals exact .inr (.inl rfl)

theorem allows_fills {rings rings' : Fin N → RingBuffer Int16} (h : Fills rings rings') :
    (threads toSize n N).Allows ringsOf rings rings' := by
  rcases h with rfl | ⟨ch, src, rfl⟩
  · exact Lts.allows_refl _ _ _
  · refine Lts.allows_of_step (.push ch src) fun t ht => ?_
    subst ht
    rfl

/-- A frame is gathered past the wait, of the histories as they are. -/
theorem publication_cases {l : Label n N} (hst : Step toSize s l s') :
    s'.published = s.published ∨
      s.sync.coordinator = .gather ∧ s'.rings = s.rings ∧ ∃ target, s'.published = s.published ++ [s.gathered target] := by
  rcases hst with _ | _ | _ | _ | ⟨hpc, _⟩ | _ | _ | _ | _ | _ | _ | _
  case publish => exact .inr ⟨hpc, rfl, _, rfl⟩
  all_goals exact .inl rfl

theorem reach_windows (hs : (threads toSize n N).Reachable s) : Windows s.rings s.published := by
  refine hs.invariant_of (J := (threads toSize n N).Reachable) (I := fun s => Windows s.rings s.published) (fun _ h => h)
    (fun t h0 => ?_) fun t l t' ht h _ hst => ?_
  · obtain ⟨rings, rfl⟩ := h0
    exact windows_nil
  · rcases publication_cases (step_cases hst) with hsame | ⟨hpc, hrings, target, hnew⟩
    · rw [hsame]
      rcases rings_cases (step_cases hst) with ⟨ch, src, -, hfill⟩ | hdrain
      · exact h.grow (Fills.grown (.inr ⟨ch, src, hfill⟩))
      · exact h.grow hdrain.grown
    · rw [hrings, hnew]
      refine h.publish fun ch => Channel.contiguous_iff.mp (reach_contiguous ht ?_ ?_ ch)
      · simp [hpc]
      · simp [hpc]

end DecimationRun

end Threads

/-! ## Both together -/

section Pipelines

variable {σ : Type}

/-- The thread that fills the rings, and the only one that empties them. -/
def SingleRun.pipeline (source : IDataSource σ) (initial : σ) (toSize : Double → Double → ℕ) (N : ℕ) :
    Lts (IngestionThread σ N × SingleRun N) (IngestionThread.Label N ⊕ SingleRun.Label N) :=
  (IngestionThread.threads N source initial).share (SingleRun.threads toSize N) IngestionThread.ringsOf SingleRun.ringsOf
    IngestionThread.owns SingleRun.owns

/-- The thread that fills the rings, and a coordinator whose workers empty them. -/
def DecimationRun.pipeline (source : IDataSource σ) (initial : σ) (toSize : Double → Double → ℕ) (n N : ℕ) [NeZero n] :
    Lts (IngestionThread σ N × DecimationRun n N) (IngestionThread.Label N ⊕ DecimationRun.Label n N) :=
  (IngestionThread.threads N source initial).share (DecimationRun.threads toSize n N) IngestionThread.ringsOf
    DecimationRun.ringsOf IngestionThread.owns DecimationRun.owns

/-- What the published frames are of what the source has given. -/
structure Delivered {N : ℕ} (s : IngestionThread σ N) (published : List (Publication N)) : Prop where
  /-- of each frame that was read the rings have got the front -/
  fronts : ∀ ch, IngestionThread.TakesFronts (s.rings ch).accepted (s.offers ch)
  /-- and all of it while no drop was counted -/
  lossless : ∀ ch counter, s.dropCounters ch = some counter → counter.totalDropped = 0 → ¬ IngestionThread.Busy s.pc →
    (s.frames.map (IngestionThread.offered N · ch)).flatten.length < 2 ^ 64 →
      (s.rings ch).accepted = (s.frames.map (IngestionThread.offered N · ch)).flatten
  windows : Windows s.rings published
  /-- and each frame can be cut into its channels, where they come out alike -/
  sliced : ∀ p ∈ published, p.Even → (∀ ch, p.vertices ch ≠ 0) → p.Sliced

variable {source : IDataSource σ} {initial : σ} {toSize : Double → Double → ℕ} {N : ℕ}

theorem SingleRun.pipeline_reach {x : IngestionThread σ N × SingleRun N}
    (hx : (SingleRun.pipeline source initial toSize N).Reachable x) :
    (IngestionThread.threads N source initial).Reachable x.1 ∧ (SingleRun.threads toSize N).Reachable x.2 ∧
      x.1.rings = x.2.rings := by
  refine ⟨Lts.reach_fst (fun t k t' hk hst => ?_) hx, Lts.reach_snd (fun s l s' hl hst => ?_) hx, Lts.reach_agree hx⟩
  · rcases rings_cases (step_cases hst) with ⟨ch, src, rfl, -⟩ | hdrain
    · cases hk
    · exact IngestionThread.allows_drains hdrain
  · exact allows_fills (IngestionThread.fills_step hl hst)

theorem SingleRun.pipeline_windows {x : IngestionThread σ N × SingleRun N}
    (hx : (SingleRun.pipeline source initial toSize N).Reachable x) : Windows x.1.rings x.2.published := by
  obtain ⟨-, ht, hrings⟩ := SingleRun.pipeline_reach hx
  rw [hrings]
  exact reach_windows ht

theorem DecimationRun.pipeline_reach {n : ℕ} [NeZero n] {x : IngestionThread σ N × DecimationRun n N}
    (hx : (DecimationRun.pipeline source initial toSize n N).Reachable x) :
    (IngestionThread.threads N source initial).Reachable x.1 ∧ (DecimationRun.threads toSize n N).Reachable x.2 ∧
      x.1.rings = x.2.rings := by
  refine ⟨Lts.reach_fst (fun t k t' hk hst => ?_) hx, Lts.reach_snd (fun s l s' hl hst => ?_) hx, Lts.reach_agree hx⟩
  · rcases rings_cases (step_cases hst) with ⟨ch, src, rfl, -⟩ | hdrain
    · cases hk
    · exact IngestionThread.allows_drains hdrain
  · exact allows_fills (IngestionThread.fills_step hl hst)

theorem DecimationRun.pipeline_windows {n : ℕ} [NeZero n] {x : IngestionThread σ N × DecimationRun n N}
    (hx : (DecimationRun.pipeline source initial toSize n N).Reachable x) : Windows x.1.rings x.2.published := by
  obtain ⟨-, ht, hrings⟩ := DecimationRun.pipeline_reach hx
  rw [hrings]
  exact reach_windows ht

/-- Two of the four are of the thread that fills the rings alone. -/
theorem IngestionThread.delivered {s : IngestionThread σ N}
    (hs : (IngestionThread.threads N source initial).Reachable s) {published : List (Publication N)}
    (hwindows : Windows s.rings published)
    (hsliced : ∀ p ∈ published, p.Even → (∀ ch, p.vertices ch ≠ 0) → p.Sliced) : Delivered s published where
  fronts ch := (reach_booksInv hs ch).fronts
  lossless _ _ := accepted_of_lossless hs
  windows := hwindows
  sliced := hsliced

/-- **What is published of what the source gives**, with one thread or with workers, in every run: of each channel windows of
what its ring has got, one not before the other; that is the front of each frame's part, and the whole of it as long as no
drop was counted. -/
theorem published_windows (source : IDataSource σ) (initial : σ) (toSize : Double → Double → ℕ) (N : ℕ) :
    (∀ x, (SingleRun.pipeline source initial toSize N).Reachable x → Delivered x.1 x.2.published) ∧
      ∀ (n : ℕ) [NeZero n] (x), (DecimationRun.pipeline source initial toSize n N).Reachable x →
        Delivered x.1 x.2.published := by
  constructor
  · intro x hx
    obtain ⟨hs, ht, -⟩ := SingleRun.pipeline_reach hx
    refine IngestionThread.delivered hs (SingleRun.pipeline_windows hx) fun p hp heven _ => ?_
    exact (SingleRun.reach_published ht p hp).mpr heven
  · intro n _ x hx
    obtain ⟨hs, ht, -⟩ := DecimationRun.pipeline_reach hx
    refine IngestionThread.delivered hs (DecimationRun.pipeline_windows hx) fun p hp heven hsome => ?_
    exact ((DecimationRun.reach_published ht).2 p hp).mpr ⟨heven, fun ch hnone => absurd hnone (hsome ch)⟩

/-- Two frames of a channel. -/
def twoFrames : List FrameBuffer := [⟨0, 0, 1, 3, [1, 2, 3]⟩, ⟨1, 0, 1, 2, [4, 5]⟩]

def emptyRings : Fin 1 → RingBuffer Int16 := fun _ => .new 8 (Nat.succ_pos 7)

def filling : IngestionThread (List FrameBuffer) 1 :=
  { source := twoFrames, rings := emptyRings, dropCounters := fun _ => if true then some {} else none }

theorem filling_started : IngestionThread.Started twoFrames filling :=
  ⟨fun _ => 8, fun _ => Nat.succ_pos 7, fun _ => true, rfl⟩

/-- A frame is pushed, and a cycle run. -/
def SingleRun.pushedCycle : List (IngestionThread.Label 1 ⊕ SingleRun.Label 1) :=
  List.replicate 5 (.inl .thread) ++ List.replicate 9 (.inr (.single (minMaxAt 2)))

def DecimationRun.pushedCycle : List (IngestionThread.Label 1 ⊕ DecimationRun.Label 1 1) :=
  List.replicate 5 (.inl .thread) ++ (coordinated 4 ++ worked (Fin.last 0) 6 ++ coordinated 2).map .inr

/-- A window of two samples on both paths: a frame is pushed before each of the two cycles. -/
theorem published_windows_two :
    (∃ x : IngestionThread (List FrameBuffer) 1 × SingleRun 1,
        x.2.published.map (·.histories 0) = [[2, 3], [4, 5]] ∧ Delivered x.1 x.2.published) ∧
      ∃ x : IngestionThread (List FrameBuffer) 1 × DecimationRun 1 1,
        x.2.published.map (·.histories 0) = [[2, 3], [4, 5]] ∧ Delivered x.1 x.2.published := by
  have hboth := published_windows IngestionThread.framesSource twoFrames (fun _ _ => 2) 1
  constructor
  · have hrun : ((SingleRun.pipeline IngestionThread.framesSource twoFrames (fun _ _ => 2) 1).exec
        (filling, .started emptyRings) (SingleRun.pushedCycle ++ SingleRun.pushedCycle)).map
          (fun x => x.2.published.map (·.histories 0)) = some [[2, 3], [4, 5]] := by decide +kernel
    have hinit : (SingleRun.pipeline IngestionThread.framesSource twoFrames (fun _ _ => 2) 1).init
        (filling, .started emptyRings) := ⟨filling_started, ⟨_, rfl⟩, rfl⟩
    obtain ⟨x, hx, hobs⟩ := Option.map_eq_some_iff.mp hrun
    exact ⟨x, hobs, hboth.1 x (Lts.reachable_of_exec _ hinit hx)⟩
  · have hrun : ((DecimationRun.pipeline IngestionThread.framesSource twoFrames (fun _ _ => 2) 1 1).exec
        (filling, .started emptyRings) (DecimationRun.pushedCycle ++ DecimationRun.pushedCycle)).map
          (fun x => x.2.published.map (·.histories 0)) = some [[2, 3], [4, 5]] := by decide +kernel
    have hinit : (DecimationRun.pipeline IngestionThread.framesSource twoFrames (fun _ _ => 2) 1 1).init
        (filling, .started emptyRings) := ⟨filling_started, ⟨_, rfl⟩, rfl⟩
    obtain ⟨x, hx, hobs⟩ := Option.map_eq_some_iff.mp hrun
    exact ⟨x, hobs, hboth.2 1 x (Lts.reachable_of_exec _ hinit hx)⟩

end Pipelines

end Grebe
