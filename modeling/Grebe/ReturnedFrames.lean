import Grebe.DecimationEngine
import Grebe.DecimationPipeline
import Grebe.Lib.Network

/-!
# Grebe.ReturnedFrames — from a data source to what `DecimationEngine::try_get_frame` returns

The frames that the threads of `DecimationPipeline` publish go through the engine, one after the other: each has its count
stored and is swapped to the front, while `try_get_frame` is called at any time.  The count that is returned may be that of
the next frame; the data and the raw counts are spoken of here.

* `returned_holds`: what is returned is of one frame, but for the count.
* `fed`: an engine that is fed with the frames that a system makes.
* `returned_windows`: in every run from the source to the caller of `try_get_frame`, what he gets is made of windows of what
  the rings have got, one not before the other.
-/

namespace Grebe

open Lib

/-! ## The engine -/

namespace DecimationEngine

section Returned

variable {s s' : DecimationEngine}

/-- The frame, but for the count. -/
def SameButCount (output frame : DecimationOutput) : Prop :=
  Holds output.data output.rawSampleCount output.perChannelRawCounts frame

/-- What was returned is the frame of its cycle, but for the count. -/
def ReturnedOk (s : DecimationEngine) : Prop :=
  ∀ r ∈ s.returned, ∃ frame, s.published[r.1]? = some frame ∧ SameButCount r.2 frame

theorem returnedOk_step {l : Label} (hinv : EngineInv s) (h : ReturnedOk s) (hst : s.Step l s') : ReturnedOk s' := by
  rcases hst with _ | hpc | _ | _ | hpc
  case store | take | miss => exact h
  case publish frame =>
    intro r hr
    obtain ⟨g, hg, hholds⟩ := h r hr
    exact ⟨g, by rw [List.getElem?_append_left (List.getElem?_eq_some_iff.mp hg).1, hg], hholds⟩
  case load taken rawCount output =>
    intro r hr
    rcases List.mem_append.mp hr with hr | hr
    · exact h r hr
    · obtain ⟨k, hk, rfl⟩ := List.mem_map.mp hr
      have htaken : taken = some k := by simpa using hk
      have hreader := hinv.reader
      rw [hpc, htaken] at hreader
      exact hreader

theorem returned_holds (hs : engine.Reachable s) : ReturnedOk s := by
  refine hs.invariant_of (I := ReturnedOk) (fun t ht => reach_engineInv ht) (fun t h0 => ?_)
    fun _ _ _ hinv h _ hst => returnedOk_step hinv h (step_cases hst)
  rw [show t = created from h0]
  exact fun r hr => by cases hr

/-- The frames whose count is stored. -/
def supplied (s : DecimationEngine) : List DecimationOutput := s.published ++ s.publisher.pending.toList

theorem supplied_cases {l : Label} (hst : s.Step l s') :
    s'.supplied = s.supplied ∨ ∃ frame, l = .store frame ∧ s'.supplied = s.supplied ++ [frame] := by
  rcases hst with hpc | hpc | _ | _ | _
  case store frame => exact .inr ⟨frame, rfl, by simp [supplied, hpc, PublisherPc.pending]⟩
  case publish frame => exact .inl (by simp [supplied, hpc, PublisherPc.pending])
  all_goals exact .inl rfl

end Returned

section Fed

universe u v

variable {α : Type u} {ℓ : Type v}

/-- An engine that is fed with the frames of `M`, in their order.  What makes them does not wait here until they are
swapped, so that there are more runs than with the threads. -/
def fed (M : Lts α ℓ) (frames : α → List DecimationOutput) : Lts (α × DecimationEngine) (ℓ ⊕ Label) where
  init x := M.init x.1 ∧ x.2 = created
  step x
    | .inl l => (M.step x.1 l).map fun s => (s, x.2)
    | .inr (.store frame) =>
      if (frames x.1)[x.2.supplied.length]? = some frame then (x.2.step (.store frame)).map fun t => (x.1, t) else none
    | .inr k => (x.2.step k).map fun t => (x.1, t)

variable {M : Lts α ℓ} {frames : α → List DecimationOutput} {x x' : α × DecimationEngine}

theorem fed_cases {l : ℓ ⊕ Label} (h : (fed M frames).step x l = some x') :
    (∃ l s, M.step x.1 l = some s ∧ x' = (s, x.2)) ∨
      ∃ k t, x.2.step k = some t ∧ x' = (x.1, t) ∧
        ∀ frame, k = .store frame → (frames x.1)[x.2.supplied.length]? = some frame := by
  rcases l with l | frame | _ | output | _
  · obtain ⟨s, hs, rfl⟩ := Option.map_eq_some_iff.mp h
    exact .inl ⟨l, s, hs, rfl⟩
  · simp only [fed] at h
    split_ifs at h with hframe
    obtain ⟨t, ht, rfl⟩ := Option.map_eq_some_iff.mp h
    exact .inr ⟨_, t, ht, rfl, fun g hg => by cases hg; exact hframe⟩
  all_goals
    obtain ⟨t, ht, rfl⟩ := Option.map_eq_some_iff.mp h
    exact .inr ⟨_, t, ht, rfl, fun g hg => by cases hg⟩

theorem reach_fed (hgrow : ∀ s l s', M.step s l = some s' → frames s <+: frames s')
    (hx : (fed M frames).Reachable x) :
    M.Reachable x.1 ∧ engine.Reachable x.2 ∧ x.2.supplied <+: frames x.1 := by
  refine hx.invariant (I := fun x => M.Reachable x.1 ∧ engine.Reachable x.2 ∧ x.2.supplied <+: frames x.1)
    (fun y h0 => ?_) fun y l y' h _ hst => ?_
  · obtain ⟨hinit, hcreated⟩ := h0
    rw [hcreated]
    exact ⟨.init hinit, .init rfl, List.nil_prefix⟩
  · obtain ⟨hM, hengine, hprefix⟩ := h
    rcases fed_cases hst with ⟨l, s, hs, rfl⟩ | ⟨k, t, ht, rfl, hstore⟩
    · exact ⟨.step hM trivial hs, hengine, hprefix.trans (hgrow _ _ _ hs)⟩
    · refine ⟨hM, .step hengine trivial ht, ?_⟩
      rcases supplied_cases (step_cases ht) with hsame | ⟨frame, rfl, hnew⟩
      · rwa [hsame]
      · obtain ⟨rest, hrest⟩ := hprefix
        have hnext := hstore frame rfl
        rw [← hrest, List.getElem?_append_right le_rfl, Nat.sub_self] at hnext
        obtain ⟨rest', rfl⟩ : ∃ rest', rest = frame :: rest' := by
          cases rest with
          | nil => cases hnext
          | cons g rest' => exact ⟨rest', by rw [Option.some.inj hnext]⟩
        rw [hnew, ← hrest]
        exact ⟨rest', by simp⟩

/-- **What is returned, in order, is a sublist of the frames that `M` has made**, but for the counts. -/
theorem returned_sublist (hgrow : ∀ s l s', M.step s l = some s' → frames s <+: frames s')
    (hx : (fed M frames).Reachable x) :
    List.SublistForall₂ SameButCount (x.2.returned.map Prod.snd) (frames x.1) := by
  obtain ⟨-, hengine, hprefix⟩ := reach_fed hgrow hx
  have hrising : (x.2.returned.map Prod.fst).Pairwise (· < ·) :=
    (List.pairwise_append.mp (reach_engineInv hengine).increasing).1
  have hall : List.Forall₂ SameButCount (x.2.returned.map Prod.snd)
      (deliver (x.2.returned.map Prod.fst) x.2.published) := forall₂_deliver (returned_holds hengine)
  have hpublished : x.2.published <+: frames x.1 := (List.prefix_append ..).trans hprefix
  exact sublistForall₂_trans_sublist (sublistForall₂_of_forall₂ hall)
    ((deliver_sublist hrising _).trans hpublished.sublist)

end Fed

end DecimationEngine

/-! ## From the source to the caller -/

section Returned

variable {N : ℕ} {rings : Fin N → RingBuffer Int16} {published : List (Publication N)}

/-- A published frame, as `try_get_frame` has it. -/
def Publication.output (p : Publication N) : DecimationOutput where
  data := p.frame.data
  perChannelVertexCount := p.frame.perChVtx
  rawSampleCount := p.frame.rawCount
  perChannelRawCounts := (List.finRange N).map p.frame.perChRaw

theorem Windows.sublist {ps : List (Publication N)} (h : Windows rings published) (hsub : ps.Sublist published) :
    Windows rings ps := by
  obtain ⟨ends, hsorted, hbound, hwindows⟩ := h
  obtain ⟨ends', hwindows', hends⟩ :=
    List.sublistForall₂_iff.mp (sublistForall₂_of_sublist hsub (sublistForall₂_of_forall₂ hwindows))
  exact ⟨ends', hsorted.sublist hends, fun e he => hbound e (hends.subset he), hwindows'⟩

/-- What is returned is, in order, of some of the published frames, and of windows of what the rings have got. -/
def Returned (rings : Fin N → RingBuffer Int16) (published : List (Publication N)) (returned : List DecimationOutput) :
    Prop :=
  ∃ ps : List (Publication N), ps.Sublist published ∧
    List.Forall₂ (fun output p => DecimationEngine.SameButCount output p.output) returned ps ∧ Windows rings ps

theorem Windows.returned {returned : List DecimationOutput} (h : Windows rings published)
    (hreturned : List.SublistForall₂ DecimationEngine.SameButCount returned (published.map Publication.output)) :
    Returned rings published returned := by
  obtain ⟨frames, hsame, hsub⟩ := List.sublistForall₂_iff.mp hreturned
  obtain ⟨ps, hps, rfl⟩ := List.sublist_map_iff.mp hsub
  exact ⟨ps, hps, List.forall₂_map_right_iff.mp hsame, h.sublist hps⟩

variable {σ : Type} {source : IDataSource σ} {initial : σ} {toSize : Double → Double → ℕ}

theorem SingleRun.pipeline_grows {x x' : IngestionThread σ N × SingleRun N}
    {l : IngestionThread.Label N ⊕ SingleRun.Label N}
    (hst : (SingleRun.pipeline source initial toSize N).step x l = some x') :
    x.2.published.map Publication.output <+: x'.2.published.map Publication.output := by
  rcases Lts.share_cases hst with ⟨l, s, -, -, rfl⟩ | ⟨k, t, -, ht, rfl⟩
  · exact List.prefix_rfl
  · rcases published_cases ht with hsame | ⟨p, hnew⟩
    · rw [hsame]
    · rw [hnew, List.map_append]
      exact List.prefix_append ..

theorem DecimationRun.pipeline_grows {n : ℕ} [NeZero n] {x x' : IngestionThread σ N × DecimationRun n N}
    {l : IngestionThread.Label N ⊕ DecimationRun.Label n N}
    (hst : (DecimationRun.pipeline source initial toSize n N).step x l = some x') :
    x.2.published.map Publication.output <+: x'.2.published.map Publication.output := by
  rcases Lts.share_cases hst with ⟨l, s, -, -, rfl⟩ | ⟨k, t, -, ht, rfl⟩
  · exact List.prefix_rfl
  · rcases published_cases (step_cases ht) with hsame | ⟨p, hnew⟩
    · rw [hsame]
    · rw [hnew, List.map_append]
      exact List.prefix_append ..

/-- **What a caller of `try_get_frame` gets of what the source gives**, with one thread or with workers, in every run: in
order, data and raw counts of some of the published frames, made from windows of what the rings have got, one not before the
other, which is the front of each frame's part. -/
theorem returned_windows (source : IDataSource σ) (initial : σ) (toSize : Double → Double → ℕ) (N : ℕ) :
    (∀ x, (DecimationEngine.fed (SingleRun.pipeline source initial toSize N)
        fun y => y.2.published.map Publication.output).Reachable x →
      Returned x.1.1.rings x.1.2.published (x.2.returned.map Prod.snd) ∧
        ∀ ch, IngestionThread.TakesFronts (x.1.1.rings ch).accepted (x.1.1.offers ch)) ∧
      ∀ (n : ℕ) [NeZero n] (x), (DecimationEngine.fed (DecimationRun.pipeline source initial toSize n N)
          fun y => y.2.published.map Publication.output).Reachable x →
        Returned x.1.1.rings x.1.2.published (x.2.returned.map Prod.snd) ∧
          ∀ ch, IngestionThread.TakesFronts (x.1.1.rings ch).accepted (x.1.1.offers ch) := by
  constructor
  · intro x hx
    obtain ⟨hpipeline, -⟩ := DecimationEngine.reach_fed (fun _ _ _ => SingleRun.pipeline_grows) hx
    have hreturned := DecimationEngine.returned_sublist (fun _ _ _ => SingleRun.pipeline_grows) hx
    obtain ⟨hs, -, -⟩ := SingleRun.pipeline_reach hpipeline
    exact ⟨(SingleRun.pipeline_windows hpipeline).returned hreturned, fun ch => (IngestionThread.reach_booksInv hs ch).fronts⟩
  · intro n _ x hx
    obtain ⟨hpipeline, -⟩ := DecimationEngine.reach_fed (fun _ _ _ => DecimationRun.pipeline_grows) hx
    have hreturned := DecimationEngine.returned_sublist (fun _ _ _ => DecimationRun.pipeline_grows) hx
    obtain ⟨hs, -, -⟩ := DecimationRun.pipeline_reach hpipeline
    exact ⟨(DecimationRun.pipeline_windows hpipeline).returned hreturned, fun ch => (IngestionThread.reach_booksInv hs ch).fronts⟩

/-- A frame is swapped to the front, and taken. -/
def exchanged (frame : DecimationOutput) : List DecimationEngine.Label := [.store frame, .publish, .take {}, .load]

/-- Both frames of the two cycles are returned, on both paths. -/
theorem returned_windows_two :
    (∃ x : (IngestionThread (List FrameBuffer) 1 × SingleRun 1) × DecimationEngine,
        x.2.returned.map (·.2.data) = [[2, 3], [4, 5]] ∧
          Returned x.1.1.rings x.1.2.published (x.2.returned.map Prod.snd)) ∧
      ∃ x : (IngestionThread (List FrameBuffer) 1 × DecimationRun 1 1) × DecimationEngine,
        x.2.returned.map (·.2.data) = [[2, 3], [4, 5]] ∧
          Returned x.1.1.rings x.1.2.published (x.2.returned.map Prod.snd) := by
  have hboth := returned_windows IngestionThread.framesSource twoFrames (fun _ _ => 2) 1
  constructor
  · have hrun : ((DecimationEngine.fed (SingleRun.pipeline IngestionThread.framesSource twoFrames (fun _ _ => 2) 1)
        fun y => y.2.published.map Publication.output).exec ((filling, .started emptyRings), .created)
        (SingleRun.pushedCycle.map .inl ++ (exchanged ⟨[2, 3], 2, 2, [2]⟩).map .inr ++
          SingleRun.pushedCycle.map .inl ++ (exchanged ⟨[4, 5], 2, 2, [2]⟩).map .inr)).map
          (fun x => x.2.returned.map (·.2.data)) = some [[2, 3], [4, 5]] := by decide +kernel
    have hinit : (DecimationEngine.fed (SingleRun.pipeline IngestionThread.framesSource twoFrames (fun _ _ => 2) 1)
        fun y => y.2.published.map Publication.output).init ((filling, .started emptyRings), .created) :=
      ⟨⟨filling_started, ⟨_, rfl⟩, rfl⟩, rfl⟩
    obtain ⟨x, hx, hobs⟩ := Option.map_eq_some_iff.mp hrun
    exact ⟨x, hobs, (hboth.1 x (Lts.reachable_of_exec _ hinit hx)).1⟩
  · have hrun : ((DecimationEngine.fed (DecimationRun.pipeline IngestionThread.framesSource twoFrames (fun _ _ => 2) 1 1)
        fun y => y.2.published.map Publication.output).exec ((filling, .started emptyRings), .created)
        (DecimationRun.pushedCycle.map .inl ++ (exchanged ⟨[2, 3], 2, 2, [2]⟩).map .inr ++
          DecimationRun.pushedCycle.map .inl ++ (exchanged ⟨[4, 5], 2, 2, [2]⟩).map .inr)).map
          (fun x => x.2.returned.map (·.2.data)) = some [[2, 3], [4, 5]] := by decide +kernel
    have hinit : (DecimationEngine.fed
        (DecimationRun.pipeline IngestionThread.framesSource twoFrames (fun _ _ => 2) 1 1)
        fun y => y.2.published.map Publication.output).init ((filling, .started emptyRings), .created) :=
      ⟨⟨filling_started, ⟨_, rfl⟩, rfl⟩, rfl⟩
    obtain ⟨x, hx, hobs⟩ := Option.map_eq_some_iff.mp hrun
    exact ⟨x, hobs, (hboth.2 1 x (Lts.reachable_of_exec _ hinit hx)).1⟩

end Returned

end Grebe
