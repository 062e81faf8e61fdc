import Grebe.DecimationStage
import Grebe.Lib.Network
import Grebe.LinearRuntimeDelivery
import Grebe.TransportSource

/-!
# Grebe.ViewerPipeline — from the messages of a transport to the frames that the main loop polls

grebe-viewer runs two stages: the adapter of its transport, and the decimation, whose settings the main thread changes while
it runs.  Both queues drop their oldest frames.

* `MappedBy`: what a stage has made of the frames it took, where what it makes may differ from call to call.
* `run_messages`: the frames of the adapter are those of the messages that the transport hands out.
* `polled_messages`: in every run, each polled frame is what the decimation makes, with some settings, of the frame of a
  message; in the order of the messages, and none twice.
-/

namespace Grebe

open Lib

/-! ## A stage whose results vary -/

namespace LinearRuntime

section Mapped

variable {α : Type} {R : α → List α → Prop} {j : ℕ} {s s' : LinearRuntime α}

/-- What stage `j + 1` took out of queue `j` it has made into what it emitted, a frame at a time, or holds. -/
def MappedBy (R : α → List α → Prop) (j : ℕ) (s : LinearRuntime α) : Prop :=
  ∃ done outs, s.taken j = done ++ (s.workers (j + 1)).pc.input ∧ List.Forall₂ R done outs ∧
    s.emitted (j + 1) = outs.flatten

/-- The step is no return of `process` of stage `i`, or the stage has made what it returns of its input. -/
def Makes (R : α → List α → Prop) (i : ℕ) (s : LinearRuntime α) : Label α → Prop
  | .worker k (.process produced _ _) =>
    k = i → ∃ outs, List.Forall₂ R (s.workers i).pc.input outs ∧ produced = outs.flatten
  | _ => True

theorem MappedBy.of_eq (h : MappedBy R j s) (he : s'.emitted (j + 1) = s.emitted (j + 1))
    (hi : (s'.workers (j + 1)).pc.input = (s.workers (j + 1)).pc.input) (ht : s'.taken j = s.taken j) :
    MappedBy R j s' := by
  rw [MappedBy, he, hi, ht]
  exact h

/-- The stage itself: a fetch puts the frame into its hand, a return of `process` what it made into its output. -/
theorem MappedBy.worker {l : WorkerLabel α} (h : MappedBy R j s) (hC : Makes R (j + 1) s (.worker (j + 1) l))
    (hst : s.WorkerStep (j + 1) l s') : MappedBy R j s' := by
  rcases hst with ⟨_, hin, _, hin', _⟩ | @⟨j', frame, _, hj, hpc, _, _⟩ | @⟨input, produced, _, _, hpc⟩ | ⟨hpc, _⟩ |
    ⟨hpc, _, _⟩ | ⟨hpc, _, _, _⟩ | ⟨hpc, _, _⟩ | ⟨hpc, _, _⟩ | ⟨hpc, _⟩ | ⟨hpc⟩
  case idle => exact h.of_eq rfl (by rw [goto_self, hin, hin']) rfl
  case fetched =>
    obtain rfl : j = j' := by omega
    obtain ⟨done, outs, htaken, hmade, hemitted⟩ := h
    rw [hpc] at htaken
    refine ⟨done, outs, ?_, hmade, hemitted⟩
    rw [goto_taken, takeOut_taken_self, goto_self, htaken]
    exact congrArg (· ++ [frame]) (List.append_nil done)
  case processed =>
    obtain ⟨made, hmade', hproduced⟩ := hC rfl
    obtain ⟨done, outs, htaken, hmade, hemitted⟩ := h
    refine ⟨done ++ (s.workers (j + 1)).pc.input, outs ++ made, ?_, List.rel_append hmade hmade', ?_⟩
    · show s.taken j = _ ++ ((s.setWorker (j + 1) _).workers (j + 1)).pc.input
      rw [setWorker_self, htaken]
      exact (List.append_nil _).symm
    · show Function.update s.emitted (j + 1) _ (j + 1) = _
      rw [Function.update_self, hproduced, hemitted, List.flatten_append]
  case finished =>
    refine h.of_eq rfl ?_ rfl
    rw [setWorker_self, hpc]
    simp only []
    split_ifs <;> rfl
  all_goals exact h.of_eq rfl (by rw [goto_self, hpc]; rfl) rfl

/-- **One step keeps the books of a stage.** -/
theorem MappedBy.step {n : ℕ} {l : Label α} (hj : j + 1 < n) (h : MappedBy R j s) (hC : Makes R (j + 1) s l)
    (hst : s.Step n l s') : MappedBy R j s' := by
  rcases hst with ⟨i, _, hw⟩ | _ | _ | _ | _ | _
  case worker =>
    by_cases hi : j + 1 = i
    · subst hi
      exact h.worker hC hw
    · obtain ⟨he, hwk, ht⟩ := hw.frame hi
      exact h.of_eq he (by rw [hwk]) ht
  case polled => exact h.of_eq rfl rfl (takeOut_taken_other _ _ _ _ (by omega))
  all_goals exact h

theorem reach_mappedBy {entries : List StageEntry} {C : LinearRuntime α → Label α → Prop}
    (hC : ∀ s l, C s l → Makes R (j + 1) s l) (hs : (runtime entries).Reach C s) (hj : j + 1 < entries.length) :
    MappedBy R j s :=
  hs.invariant (I := MappedBy R j)
    (fun s h0 => by rw [show s = started entries from h0]; exact ⟨[], [], rfl, .nil, rfl⟩)
    fun s l _ h hl hst => h.step hj (hC s l hl) (step_cases hst)

/-- What one step adds to the frames that stage `i` has emitted. -/
theorem emitted_step {n i : ℕ} {l : Label α} (hst : s.Step n l s') : s'.emitted i = s.emitted i ∨
    ∃ produced result ns, l = .worker i (.process produced result ns) ∧ s'.emitted i = s.emitted i ++ produced := by
  rcases hst with ⟨k, _, hw⟩ | _ | _ | _ | _ | _
  case worker =>
    rcases hw with _ | _ | _ | _ | _ | _ | _ | _ | _ | _
    case processed produced result ns hpc =>
      by_cases hi : i = k
      · subst hi
        exact .inr ⟨produced, result, ns, rfl, Function.update_self ..⟩
      · exact .inl (Function.update_of_ne hi _ _)
    all_goals exact .inl rfl
  all_goals exact .inl rfl

end Mapped

end LinearRuntime

/-! ## The adapter -/

section Adapter

variable {σ : Type} (receive : σ → Option (FrameHeaderV2 × List Int16) × σ)

/-- The adapter after `n` calls of `process`. -/
def DataSourceAdapter.after : ℕ → DataSourceAdapter σ → DataSourceAdapter σ
  | 0, a => a
  | n + 1, a => after n (a.process receive).2.2

/-- The frame that the adapter makes of a message; the first index that the header tells is not passed on. -/
structure OfMessage (m : FrameHeaderV2 × List Int16) (frame : Frame Double) : Prop where
  sequence : frame.sequence = m.1.sequence
  producerTsNs : frame.producerTsNs = m.1.producerTsNs
  channelCount : frame.channelCount = m.1.channelCount
  samplesPerChannel : frame.samplesPerChannel = m.1.blockLengthSamples
  rate : m.1.sampleRateHz.pos → frame.sampleRateHz = m.1.sampleRateHz
  firstSampleIndex : frame.firstSampleIndex = 0
  data : frame.data = m.2

variable {receive}

theorem process_message {a : DataSourceAdapter σ} {m : FrameHeaderV2 × List Int16} {transport : σ}
    (hstarted : a.source.started = true) (hreceive : receive a.source.transport = (some m, transport)) :
    ∃ frame next, a.process receive = (.ok, [frame], next) ∧ next.source.started = true ∧
      next.source.transport = transport ∧ OfMessage m frame := by
  obtain ⟨hdr, payload⟩ := m
  simp only [DataSourceAdapter.process, TransportSource.readFrame, hstarted, hreceive, Bool.true_eq_false, if_false]
  exact ⟨_, _, rfl, rfl, rfl, rfl, rfl, rfl, rfl, fun hpos => if_pos hpos, rfl, rfl⟩

/-- **The frames of the adapter are those of the messages**, in order. -/
theorem run_messages (n : ℕ) {a : DataSourceAdapter σ} (hstarted : a.source.started = true) :
    List.Forall₂ OfMessage (received receive n a.source.transport) (a.run receive n) := by
  induction n generalizing a with
  | zero => exact .nil
  | succ n ih =>
    rcases hreceive : receive a.source.transport with ⟨_ | m, transport⟩
    · obtain ⟨next, hprocess⟩ := process_none hstarted hreceive
      simp [DataSourceAdapter.run, received, hprocess, hreceive]
    · obtain ⟨frame, next, hprocess, hnext, htransport, hframe⟩ := process_message hstarted hreceive
      have hrest := ih hnext
      rw [htransport] at hrest
      simp only [DataSourceAdapter.run, received, hprocess, hreceive, List.singleton_append]
      exact .cons hframe hrest

/-- The next call, where each one before it has made a frame. -/
theorem run_succ {n : ℕ} {a : DataSourceAdapter σ} (hstarted : a.source.started = true)
    (hlength : (a.run receive n).length = n) :
    a.run receive (n + 1) = a.run receive n ++ ((a.after receive n).process receive).2.1 ∧
      (((a.after receive n).process receive).2.1.length = 1 ∨ ((a.after receive n).process receive).2.1 = []) := by
  induction n generalizing a with
  | zero =>
    rcases hreceive : receive a.source.transport with ⟨_ | m, transport⟩
    · obtain ⟨next, hprocess⟩ := process_none hstarted hreceive
      simp [DataSourceAdapter.run, DataSourceAdapter.after, hprocess]
    · obtain ⟨frame, next, hprocess, -⟩ := process_message hstarted hreceive
      simp [DataSourceAdapter.run, DataSourceAdapter.after, hprocess]
  | succ n ih =>
    rcases hreceive : receive a.source.transport with ⟨_ | m, transport⟩
    · obtain ⟨next, hprocess⟩ := process_none hstarted hreceive
      simp [DataSourceAdapter.run, hprocess] at hlength
    · obtain ⟨frame, next, hprocess, hnext, -⟩ := process_message hstarted hreceive
      have hrun (k : ℕ) : a.run receive (k + 1) = frame :: next.run receive k := by
        simp [DataSourceAdapter.run, hprocess]
      rw [hrun n, List.length_cons, Nat.add_left_inj] at hlength
      obtain ⟨hrest, hone⟩ := ih hnext hlength
      have hafter : a.after receive (n + 1) = next.after receive n := by
        rw [DataSourceAdapter.after, hprocess]
      rw [hrun (n + 1), hrun n, hafter, hrest]
      exact ⟨rfl, hone⟩

end Adapter

/-! ## The viewer -/

section Viewer

open LinearRuntime

/-- The same frame with its rate as `value` tells. -/
def Frame.mapRate {ρ τ : Type} (value : ρ → τ) (f : Frame ρ) : Frame τ where
  sequence := f.sequence
  producerTsNs := f.producerTsNs
  channelCount := f.channelCount
  samplesPerChannel := f.samplesPerChannel
  sampleRateHz := value f.sampleRateHz
  firstSampleIndex := f.firstSampleIndex
  flags := f.flags
  data := f.data

/-- The stages of grebe-viewer. -/
def viewerStages : List StageEntry :=
  [{ name := "DataSourceAdapter" }, { name := "DecimationStage", queueCapacity := 512, policy := .dropOldest }]

variable {σ : Type} (receive : σ → Option (FrameHeaderV2 × List Int16) × σ) (a : DataSourceAdapter σ)
  (value : Double → ℚ)

/-- The stages return what they do in the viewer: the adapter on its transport, the decimation with any settings. -/
def Viewing (s : LinearRuntime (Frame ℚ)) : Label (Frame ℚ) → Prop
  | .worker 0 (.process produced result _) =>
    let r := (a.after receive (s.emitted 0).length).process receive
    result = r.1 ∧ produced = r.2.1.map (Frame.mapRate value)
  | .worker 1 (.process produced result _) =>
    ∃ stage : DecimationStage, (result, produced) = stage.process (s.workers 1).pc.input
  | _ => True

/-- A frame that the decimation makes of a message, with some settings. -/
def Shows (frame : Frame ℚ) (m : FrameHeaderV2 × List Int16) : Prop :=
  ∃ (stage : DecimationStage) (src : Frame Double), OfMessage m src ∧
    stage.decimateFrame (src.mapRate value) = some frame

variable {receive a value} {s : LinearRuntime (Frame ℚ)}

/-- The source's frames so far. -/
theorem reach_emitted (hstarted : a.source.started = true)
    (hs : (runtime viewerStages).Reach (Viewing receive a value) s) :
    (a.run receive (s.emitted 0).length).length = (s.emitted 0).length ∧
      s.emitted 0 = (a.run receive (s.emitted 0).length).map (Frame.mapRate value) := by
  refine hs.invariant (I := fun s => (a.run receive (s.emitted 0).length).length = (s.emitted 0).length ∧
    s.emitted 0 = (a.run receive (s.emitted 0).length).map (Frame.mapRate value)) (fun s h0 => ?_) ?_
  · rw [show s = started viewerStages from h0]
    exact ⟨rfl, rfl⟩
  · rintro s l s' ⟨hlength, hemitted⟩ hC hst
    rcases emitted_step (i := 0) (step_cases hst) with hsame | ⟨produced, result, ns, rfl, hmore⟩
    · rw [hsame]
      exact ⟨hlength, hemitted⟩
    · obtain ⟨-, hproduced⟩ := hC
      obtain ⟨hrun, hone⟩ := run_succ hstarted hlength
      rcases hone with hone | hnone
      · have hlength' : (s'.emitted 0).length = (s.emitted 0).length + 1 := by
          rw [hmore, List.length_append, hproduced, List.length_map, hone]
        rw [hlength', hrun, List.length_append, hlength, hone, List.map_append, ← hproduced, ← hemitted]
        exact ⟨rfl, hmore⟩
      · rw [hproduced, hnone, List.map_nil, List.append_nil] at hmore
        rw [hmore]
        exact ⟨hlength, hemitted⟩

/-- The decimation takes each frame on its own. -/
theorem makes_of_viewing (s : LinearRuntime (Frame ℚ)) (l : Label (Frame ℚ)) (h : Viewing receive a value s l) :
    Makes (fun x ys => ∃ stage : DecimationStage, ys = (stage.decimateFrame x).toList) 1 s l := by
  rcases l with ⟨k, _ | _ | _ | ⟨produced, result, ns⟩ | _ | _ | _⟩ | _ | _ | _ | _
  case worker.process =>
    rintro rfl
    obtain ⟨stage, hprocess⟩ := h
    refine ⟨(s.workers 1).pc.input.map fun x => (stage.decimateFrame x).toList, ?_, ?_⟩
    · rw [List.forall₂_map_right_iff]
      exact List.forall₂_same.mpr fun x _ => ⟨stage, rfl⟩
    · have hproduced : produced = (stage.process (s.workers 1).pc.input).2 := congrArg Prod.snd hprocess
      rw [hproduced, ← List.flatMap_def, ← List.filterMap_eq_flatMap_toList, DecimationStage.process]
      cases (s.workers 1).pc.input <;> rfl
  all_goals trivial

/-- **What the main loop polls.**  In every run of the viewer, whatever the queues drop and however the main thread changes
the settings of the decimation, the polled frames are decimated frames of messages that the transport handed out, in the
order of the messages and none twice. -/
theorem polled_messages (hstarted : a.source.started = true)
    (hs : (runtime viewerStages).Reach (Viewing receive a value) s) :
    List.SublistForall₂ (Shows value) (s.polled viewerStages)
      (received receive (s.emitted 0).length a.source.transport) := by
  obtain ⟨-, hemitted⟩ := reach_emitted hstarted hs
  have hmapped : MappedBy (fun x ys => ∃ stage : DecimationStage, ys = (stage.decimateFrame x).toList) 0 s :=
    reach_mappedBy makes_of_viewing hs (by decide)
  obtain ⟨done, outs, htaken, hmade, hout⟩ := hmapped
  have hpolled : (s.polled viewerStages).Sublist outs.flatten := by
    rw [← hout]
    exact (List.sublist_append_left _ _).trans (taken_append_queue_sublist hs.reachable 1)
  have hdone : done.Sublist (s.emitted 0) := by
    have htook := (List.sublist_append_left _ _).trans (taken_append_queue_sublist hs.reachable 0)
    rw [htaken] at htook
    exact (List.sublist_append_left _ _).trans htook
  have hone (x : Frame ℚ) (ys : List (Frame ℚ)) (h : ∃ stage : DecimationStage, ys = (stage.decimateFrame x).toList) :
      ys.length ≤ 1 := by
    obtain ⟨stage, rfl⟩ := h
    exact Option.length_toList_le
  have hmessages : List.Forall₂ (fun x m => ∃ src, OfMessage m src ∧ x = src.mapRate value) (s.emitted 0)
      (received receive (s.emitted 0).length a.source.transport) := by
    rw [hemitted, List.forall₂_map_left_iff, List.length_map, (reach_emitted hstarted hs).1]
    exact (run_messages _ hstarted).flip.imp fun src m h => ⟨src, h, rfl⟩
  -- from the polled frames to those decimated, to those the source emitted, to the messages
  have hdecimated := sublistForall₂_of_sublist hpolled (sublistForall₂_flatten hone hmade)
  have hchain := sublistForall₂_comp (sublistForall₂_trans_sublist hdecimated hdone)
    (sublistForall₂_of_forall₂ hmessages)
  obtain ⟨shown, hshown, hsub⟩ := List.sublistForall₂_iff.mp hchain
  refine List.sublistForall₂_iff.mpr ⟨shown, hshown.imp ?_, hsub⟩
  rintro frame m ⟨x, ⟨stage, hframe⟩, src, hsrc, rfl⟩
  exact ⟨stage, src, hsrc, Option.toList_eq_singleton_iff.mp hframe.symm⟩

/-- The first message goes all the way. -/
theorem exists_polled (hstarted : a.source.started = true) {m : FrameHeaderV2 × List Int16} {transport : σ}
    (hreceive : receive a.source.transport = (some m, transport))
    (hpos : m.1.channelCount ≠ 0 ∧ m.1.blockLengthSamples ≠ 0) :
    ∃ s, (runtime viewerStages).Reach (Viewing receive a value) s ∧ (s.polled viewerStages).length = 1 := by
  obtain ⟨src, next, hprocess, -, -, hsrc⟩ := process_message hstarted hreceive
  obtain ⟨dst, hdst⟩ : ∃ dst, DecimationStage.decimateFrame ⟨.minMax, 2, 0⟩ (src.mapRate value) = some dst := by
    have hsrcPos : ¬((src.mapRate value).channelCount = 0 ∨ (src.mapRate value).samplesPerChannel = 0) := by
      show ¬(src.channelCount = 0 ∨ src.samplesPerChannel = 0)
      rw [hsrc.channelCount, hsrc.samplesPerChannel]
      exact not_or.mpr hpos
    rw [DecimationStage.decimateFrame, if_neg hsrcPos]
    exact ⟨_, rfl⟩
  have hsource : Viewing receive a value ((started viewerStages : LinearRuntime (Frame ℚ)).goto 0 (.process []))
      (.worker 0 (.process [src.mapRate value] .ok 0)) := by
    show StageResult.ok = (a.process receive).1 ∧ [src.mapRate value] = (a.process receive).2.1.map (Frame.mapRate value)
    rw [hprocess]
    exact ⟨rfl, rfl⟩
  have hdecimated : DecimationStage.process ⟨.minMax, 2, 0⟩ [src.mapRate value] = (.ok, [dst]) := by
    rw [DecimationStage.process, List.filterMap_cons_some hdst]
    rfl
  have h0 : (runtime viewerStages).Reach (Viewing receive a value) (started viewerStages) := .init rfl
  have h1 := h0.step (show Viewing receive a value _ (.worker 0 .test) from trivial) rfl
  have h2 := h1.step hsource rfl
  have h3 := h2.step (show Viewing receive a value _ (.worker 0 .enqueue) from trivial) rfl
  have h4 := h3.step (show Viewing receive a value _ (.worker 1 .test) from trivial) rfl
  have h5 := h4.step (show Viewing receive a value _ (.worker 1 .fetch) from trivial) rfl
  have h6 := h5.step (show Viewing receive a value _ (.worker 1 (.process [dst] .ok 0)) from
    ⟨⟨.minMax, 2, 0⟩, hdecimated.symm⟩) rfl
  have h7 := h6.step (show Viewing receive a value _ (.worker 1 .enqueue) from trivial) rfl
  have h8 := h7.step (show Viewing receive a value _ .pollOutput from trivial) rfl
  exact ⟨_, h8, rfl⟩

end Viewer

end Grebe
