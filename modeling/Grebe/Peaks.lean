import Mathlib.Tactic
import Grebe.Lib.Envelope
import Grebe.DecimationStage
import Grebe.VisualizationStage

/-!
# Grebe.Peaks — what is left of the extremes on the display

Frames are decimated one by one, and what is left of them is windowed and decimated again for the display.

* `foldl_accumulate`: what the history holds after any frames of one channel count: the samples since the rate changed.
* `display_holds`: what the display shows of a history that fits the window.
* `displayed_extremes`: the display has the extremes of the raw samples since the rescaled rate changed;
  `peak_cleared` is a run in which a peak before that is lost.
-/

namespace Grebe

open Lib

/-! ## The history since the rate changed -/

section SameRate

variable {α : Type} (rate : α → ℚ)

/-- The last items of the list, as long as they have the rate of the last one. -/
def sinceRateChange (xs : List α) : List α :=
  match xs.getLast? with
  | none => []
  | some last => xs.rtakeWhile fun x => rate x = rate last

theorem sinceRateChange_concat (xs : List α) (x : α) :
    sinceRateChange rate (xs ++ [x]) =
      if ∀ last ∈ xs.getLast?, rate last = rate x then sinceRateChange rate xs ++ [x] else [x] := by
  have hlast : (xs ++ [x]).getLast? = some x := by simp
  rw [sinceRateChange, hlast]
  dsimp only
  rw [List.rtakeWhile_concat_pos _ _ _ (by simp)]
  rcases hxs : xs.getLast? with _ | last
  · rw [List.getLast?_eq_none_iff] at hxs
    simp [hxs, sinceRateChange]
  · obtain ⟨ys, rfl⟩ : ∃ ys, xs = ys ++ [last] := List.getLast?_eq_some_iff.mp hxs
    by_cases hsame : rate last = rate x
    · simp [sinceRateChange, hsame]
    · rw [List.rtakeWhile_concat_neg _ _ _ (by simpa using hsame)]
      simp [hsame]

theorem sinceRateChange_suffix (xs : List α) : sinceRateChange rate xs <:+ xs := by
  unfold sinceRateChange
  split
  · exact List.nil_suffix
  · exact List.rtakeWhile_suffix _ xs

theorem sinceRateChange_map {β : Type} {rate' : β → ℚ} {f : β → α} {xs : List β}
    (h : ∀ x ∈ xs, rate (f x) = rate' x) :
    sinceRateChange rate (xs.map f) = (sinceRateChange rate' xs).map f := by
  induction xs using List.reverseRecOn with
  | nil => rfl
  | append_singleton xs x ih =>
    have hxs : ∀ y ∈ xs, rate (f y) = rate' y := fun y hy => h y (by simp [hy])
    have hsame : (∀ last ∈ (xs.map f).getLast?, rate last = rate (f x)) ↔
        ∀ last ∈ xs.getLast?, rate' last = rate' x := by
      rw [List.getLast?_map]
      rcases hlast : xs.getLast? with _ | last
      · simp
      · simp [h x (by simp), hxs last (List.mem_of_getLast? hlast)]
    rw [List.map_append, List.map_singleton, sinceRateChange_concat, sinceRateChange_concat, ih hxs]
    by_cases hkeep : ∀ last ∈ xs.getLast?, rate' last = rate' x
    · rw [if_pos hkeep, if_pos (hsame.mpr hkeep), List.map_append, List.map_singleton]
    · rw [if_neg hkeep, if_neg fun h => hkeep (hsame.mp h), List.map_singleton]

end SameRate

section Accumulated

variable {chCount : UInt32} {h : History} {frame : Frame ℚ} {frames : List (Frame ℚ)}

/-- Frames of `chCount` channels: some samples of each, all of them there, at a positive rate. -/
structure Frame.WellFormed (chCount : UInt32) (frame : Frame ℚ) : Prop where
  channels : frame.channelCount = chCount
  covered : frame.Covered
  spc_pos : 0 < frame.spc
  rate_pos : 0 < frame.sampleRateHz

/-- No stage skips such a frame. -/
theorem Frame.WellFormed.not_skipped (hframe : frame.WellFormed chCount) (hcount : chCount ≠ 0) :
    ¬(frame.channelCount = 0 ∨ frame.samplesPerChannel = 0) := by
  rintro (h0 | h0)
  · exact hcount (hframe.channels.symm.trans h0)
  · exact hframe.spc_pos.ne' (by rw [Frame.spc, h0]; rfl)

/-- What a history holds after `frames`: the samples since the rate changed. -/
structure History.Holds (h : History) (chCount : UInt32) (frames : List (Frame ℚ)) : Prop where
  rate : ∀ last ∈ frames.getLast?, h.lastSampleRateHz = last.sampleRateHz
  count : h.lastChannelCount = chCount
  hist : h.channelHistory = (List.range chCount.toNat).map fun ch =>
    (sinceRateChange Frame.sampleRateHz frames).flatMap fun f => f.channelData ch
  total : h.ch0TotalAppended = ((sinceRateChange Frame.sampleRateHz frames).map Frame.spc).sum

theorem mapIdx_map_range (n : ℕ) (f d : ℕ → List Int16) :
    ((List.range n).map f).mapIdx (fun ch hist => hist ++ d ch) = (List.range n).map fun ch => f ch ++ d ch := by
  apply List.ext_getElem (by simp)
  intro i hi _
  simp

/-- The first frame, or the first at a new rate: the history is that of the frame alone. -/
theorem holds_alone (hcount : chCount ≠ 0) (hframe : frame.WellFormed chCount)
    (hrate : (h.noteRate frame.sampleRateHz).lastSampleRateHz = frame.sampleRateHz)
    (hempty : ((h.noteRate frame.sampleRateHz).noteChannels chCount).channelHistory =
      (List.range chCount.toNat).map fun _ => [])
    (htotal : (h.noteRate frame.sampleRateHz).ch0TotalAppended = 0) :
    (h.accumulate frame).lastSampleRateHz = frame.sampleRateHz ∧ (h.accumulate frame).lastChannelCount = chCount ∧
      (h.accumulate frame).channelHistory = (List.range chCount.toNat).map frame.channelData ∧
      (h.accumulate frame).ch0TotalAppended = frame.spc := by
  rw [History.accumulate, if_neg (hframe.not_skipped hcount), hframe.channels]
  refine ⟨?_, ?_, ?_, ?_⟩
  · simpa [History.append] using hrate
  · simp [History.append]
  · simp only [History.append, hempty, mapIdx_map_range, List.nil_append]
  · simp [History.append, htotal]

/-- One more frame. -/
theorem History.Holds.accumulate (hcount : chCount ≠ 0) (hholds : h.Holds chCount frames) (hne : frames ≠ [])
    (hframes : ∀ f ∈ frames, f.WellFormed chCount) (hframe : frame.WellFormed chCount) :
    (h.accumulate frame).Holds chCount (frames ++ [frame]) := by
  have hgetLast : frames.getLast? = some (frames.getLast hne) := List.getLast?_eq_some_getLast hne
  have hrate : h.lastSampleRateHz = (frames.getLast hne).sampleRateHz := hholds.rate _ hgetLast
  have hpos : h.lastSampleRateHz > 0 := by
    rw [hrate]
    exact (hframes _ (List.getLast_mem hne)).rate_pos
  by_cases hsame : frame.sampleRateHz = h.lastSampleRateHz
  · -- the history is kept
    have hsince : sinceRateChange Frame.sampleRateHz (frames ++ [frame]) =
        sinceRateChange Frame.sampleRateHz frames ++ [frame] := by
      rw [sinceRateChange_concat, if_pos]
      intro last hlast
      rw [hsame, ← hholds.rate last hlast]
    have hnote : h.noteChannels frame.channelCount = h := by
      rw [History.noteChannels, hframe.channels, hholds.count, if_neg (not_not.mpr rfl)]
    have haccumulate : h.accumulate frame = h.append frame := by
      rw [History.accumulate, if_neg (hframe.not_skipped hcount), History.noteRate_eq fun _ => hsame, hnote]
    rw [haccumulate]
    refine ⟨?_, hholds.count, ?_, ?_⟩
    · simpa [History.append] using hsame.symm
    · rw [hsince]
      simp only [History.append, hholds.hist, mapIdx_map_range, List.flatMap_append, List.flatMap_singleton]
    · rw [hsince]
      simp [History.append, hholds.total]
  · -- the history starts again
    have hnote : h.noteRate frame.sampleRateHz = { h.clear with lastSampleRateHz := frame.sampleRateHz } := by
      simp only [History.noteRate, if_pos hframe.rate_pos, if_pos (And.intro hpos hsame)]
    have hempty : ((h.noteRate frame.sampleRateHz).noteChannels chCount).channelHistory =
        (List.range chCount.toNat).map fun _ => [] := by
      rw [hnote, History.noteChannels_channelHistory]
      simp only [History.clear, hholds.hist, hholds.count, Nat.sub_self, List.replicate_zero, List.append_nil,
        List.map_map]
      exact List.take_of_length_le (by simp)
    obtain ⟨hrate', hch, hhist, htotal⟩ := holds_alone hcount hframe (by rw [hnote]) hempty (by rw [hnote]; rfl)
    have hsince : sinceRateChange Frame.sampleRateHz (frames ++ [frame]) = [frame] := by
      rw [sinceRateChange_concat, if_neg]
      intro h
      exact hsame ((h _ hgetLast).symm.trans hrate.symm)
    refine ⟨by simpa using hrate', hch, ?_, ?_⟩
    · rw [hhist, hsince]
      simp
    · rw [htotal, hsince]
      simp

/-- **What the history holds**, after any frames of one channel count. -/
theorem foldl_accumulate (hcount : chCount ≠ 0) (hframes : ∀ f ∈ frames, f.WellFormed chCount) (hne : frames ≠ []) :
    (frames.foldl History.accumulate {}).Holds chCount frames := by
  induction frames using List.reverseRecOn with
  | nil => exact absurd rfl hne
  | append_singleton before frame ih =>
    have hframe := hframes frame (by simp)
    rw [List.foldl_concat]
    by_cases hfirst : before = []
    · subst hfirst
      obtain ⟨hrate, hch, hhist, htotal⟩ := holds_alone (h := {}) hcount hframe
        (by simp [History.noteRate, hframe.rate_pos]) (by
          rw [History.noteChannels_channelHistory]
          simp [History.noteRate, hframe.rate_pos])
        (by simp [History.noteRate, hframe.rate_pos])
      have hsince : sinceRateChange Frame.sampleRateHz [frame] = [frame] := by simp [sinceRateChange]
      exact ⟨by simpa using hrate, hch, by simpa [hsince] using hhist, by simpa [hsince] using htotal⟩
    · have hbefore : ∀ f ∈ before, f.WellFormed chCount := fun f hf => hframes f (by simp [hf])
      exact (ih hbefore hfirst).accumulate hcount hfirst hbefore hframe

end Accumulated

/-! ## The extremes on the display -/

section Extremes

variable {decimation : DecimationStage} {chCount target : UInt32} {span : ℚ} {frames : List (Frame ℚ)}

/-- The rate of a frame after decimation. -/
def DecimationStage.rescaledRate (s : DecimationStage) (src : Frame ℚ) : ℚ :=
  src.sampleRateHz * (s.decimatedSpc src / src.spc)

/-- A decimated frame; a frame that is skipped stays as it is. -/
def DecimationStage.decimatedFrame (s : DecimationStage) (src : Frame ℚ) : Frame ℚ := (s.decimateFrame src).getD src

/-- What `MinMax` makes of a well-formed frame. -/
theorem decimateFrame_minMax (hmode : decimation.mode = .minMax) (htarget : 2 ≤ decimation.targetPoints.toNat)
    (hcount : chCount ≠ 0) {src : Frame ℚ} (hsrc : src.WellFormed chCount) :
    decimation.decimateFrame src = some (decimation.decimatedFrame src) ∧
      (decimation.decimatedFrame src).WellFormed chCount ∧
      (decimation.decimatedFrame src).sampleRateHz = decimation.rescaledRate src ∧
      (decimation.decimatedFrame src).spc = decimation.decimatedSpc src ∧
      ∀ ch < chCount.toNat, Envelope ((decimation.decimatedFrame src).channelData ch) (src.channelData ch) := by
  obtain ⟨dst, hdst⟩ : ∃ dst, decimation.decimateFrame src = some dst := by
    rw [DecimationStage.decimateFrame, if_neg (hsrc.not_skipped hcount)]
    exact ⟨_, rfl⟩
  have hframe : decimation.decimatedFrame src = dst := by rw [DecimationStage.decimatedFrame, hdst, Option.getD_some]
  have heffective : decimation.effectiveMode = .minMax := by
    rw [DecimationStage.effectiveMode, hmode]
    exact if_neg fun h => DecimationMode.noConfusion h.1
  obtain ⟨hchannels, hspc, hrate, hcovered, hdata⟩ := DecimationStage.decimateFrame_channel hdst
  have hinput : decimation.inputRate src = src.sampleRateHz := if_pos hsrc.rate_pos
  have hpos : 0 < decimation.decimatedSpc src := by
    have hspc_pos := hsrc.spc_pos
    rw [DecimationStage.decimatedSpc, heffective, Decimator.decimate, Decimator.length_minmax, List.length_replicate]
    split_ifs <;> omega
  have hrescaled : dst.sampleRateHz = decimation.rescaledRate src := by
    rw [hrate, hinput, if_pos hsrc.rate_pos, DecimationStage.rescaledRate]
  rw [hframe]
  refine ⟨hdst, ⟨?_, hcovered, ?_, ?_⟩, hrescaled, hspc, ?_⟩
  · rw [← hsrc.channels]
    exact UInt32.toNat.inj hchannels
  · rwa [hspc]
  · rw [hrescaled, DecimationStage.rescaledRate]
    have hspc_pos := hsrc.spc_pos
    have hrate_pos := hsrc.rate_pos
    positivity
  · intro ch hch
    rw [hdata ch (by rwa [Frame.channels, hsrc.channels]), heffective]
    exact Decimator.minmax_envelope htarget

/-- What is displayed of a channel that fits the window has its extremes. -/
theorem decimated_envelope (htarget : 2 ≤ target.toNat) (hist : List Int16) :
    Envelope (History.decimated target.toNat hist.length hist) hist := by
  rw [History.decimated, Nat.sub_self, List.drop_zero]
  split_ifs
  · exact Decimator.minmax_envelope htarget
  · exact .refl hist

/-- The frames that the decimation stage puts out, however it gets them. -/
theorem flatMap_process (decimation : DecimationStage) (batches : List (List (Frame ℚ))) :
    (batches.flatMap fun b => (decimation.process b).2) = batches.flatten.filterMap decimation.decimateFrame := by
  induction batches with
  | nil => rfl
  | cons b batches ih =>
    have hb : (decimation.process b).2 = b.filterMap decimation.decimateFrame := by
      unfold DecimationStage.process
      split_ifs with hempty
      · rw [List.isEmpty_iff.mp hempty]
        rfl
      · rfl
    rw [List.flatMap_cons, ih, hb, List.flatten_cons, List.filterMap_append]

/-- The display of a history that holds `frames`, and fits the window and `max_history`. -/
theorem display_holds (stage : VisualizationStage) {h : History} (hholds : h.Holds chCount frames)
    (hcount : chCount ≠ 0) (htarget : 2 ≤ stage.displayTargetPoints.toNat)
    (hwindow : h.ch0TotalAppended ≤ h.windowSamples stage.visibleTimeSpan)
    (hhistory : h.ch0TotalAppended ≤ History.maxHistory (h.windowSamples stage.visibleTimeSpan))
    (hok : (stage.finish h).1 = .ok) :
    ∃ shown, (stage.finish h).2.1 = [shown] ∧ shown.channelCount = chCount ∧
      ∀ ch < chCount.toNat,
        Envelope (shown.channelData ch)
          ((sinceRateChange Frame.sampleRateHz frames).flatMap fun f => f.channelData ch) := by
  have hw : h.windowSamples stage.visibleTimeSpan ≠ 0 := by
    intro hw
    rw [stage.finish_of_zero hw] at hok
    cases hok
  have hlen : ∀ hist ∈ h.channelHistory, hist.length = h.ch0TotalAppended := by
    rw [hholds.hist, hholds.total]
    intro hist hhist
    obtain ⟨ch, _, rfl⟩ := List.mem_map.mp hhist
    simp only [List.length_flatMap, Frame.length_channelData]
  -- nothing is trimmed
  have hsettle : (h.settle stage.visibleTimeSpan).channelHistory = h.channelHistory := by
    rw [History.settle_of_ne_zero hw, History.prune, History.trim_channelHistory]
    refine (List.map_congr_left ?_).trans (List.map_id _)
    intro hist hhist
    rw [List.rtake, Nat.sub_eq_zero_of_le (by rw [hlen hist hhist]; omega), List.drop_zero, id]
  have hne : (h.settle stage.visibleTimeSpan).channelHistory ≠ [] := by
    rw [hsettle, hholds.hist]
    simpa using fun h0 => hcount (UInt32.toNat.inj h0)
  have htake : min (h.settle stage.visibleTimeSpan).minAvailable (h.windowSamples stage.visibleTimeSpan) =
      h.ch0TotalAppended := by
    obtain ⟨hist, hhist, hleast⟩ := (History.isLeast_minAvailable hne).1
    rw [← hleast, hlen hist (hsettle ▸ hhist), min_eq_left hwindow]
  rw [stage.finish_of_ne_zero hw, VisualizationStage.output] at hok ⊢
  split_ifs at hok ⊢
  obtain ⟨shown, hshown, hchannels, -, -, hdata⟩ := History.display_channel hne hok
  rw [htake] at hdata
  refine ⟨shown, hshown, ?_, ?_⟩
  · rw [hchannels, History.lastChannelCount_settle, hholds.count]
  · intro ch hch
    have hch' : ch < (h.settle stage.visibleTimeSpan).channelHistory.length := by
      rw [hsettle, hholds.hist]
      simpa using hch
    have hmem : (h.settle stage.visibleTimeSpan).channelHistory[ch] ∈ h.channelHistory := by
      rw [← hsettle]
      exact List.getElem_mem hch'
    have henvelope := decimated_envelope htarget (h.settle stage.visibleTimeSpan).channelHistory[ch]
    rw [hlen _ hmem, ← hdata ch hch'] at henvelope
    have hget : (h.settle stage.visibleTimeSpan).channelHistory[ch] =
        (sinceRateChange Frame.sampleRateHz frames).flatMap fun f => f.channelData ch := by
      simp [hsettle, hholds.hist]
    rwa [hget] at henvelope

/-- What `MinMax` makes of well-formed frames: none is skipped, and the rate changes where the rescaled rate does. -/
theorem map_decimatedFrame (hmode : decimation.mode = .minMax) (htarget : 2 ≤ decimation.targetPoints.toNat)
    (hcount : chCount ≠ 0) (hframes : ∀ f ∈ frames, f.WellFormed chCount) :
    frames.filterMap decimation.decimateFrame = frames.map decimation.decimatedFrame ∧
      (∀ f ∈ frames.map decimation.decimatedFrame, f.WellFormed chCount) ∧
      sinceRateChange Frame.sampleRateHz (frames.map decimation.decimatedFrame) =
        (sinceRateChange decimation.rescaledRate frames).map decimation.decimatedFrame := by
  refine ⟨?_, ?_, ?_⟩
  · rw [← List.filterMap_eq_map]
    exact List.filterMap_congr fun f hf => (decimateFrame_minMax hmode htarget hcount (hframes f hf)).1
  · intro f hf
    obtain ⟨src, hsrc, rfl⟩ := List.mem_map.mp hf
    exact (decimateFrame_minMax hmode htarget hcount (hframes src hsrc)).2.1
  · exact sinceRateChange_map _ fun f hf => (decimateFrame_minMax hmode htarget hcount (hframes f hf)).2.2.1

/-- The rate and the counter of a history that holds decimated frames. -/
theorem History.Holds.of_decimated {h : History} (hholds : h.Holds chCount (frames.map decimation.decimatedFrame))
    (hmode : decimation.mode = .minMax) (htarget : 2 ≤ decimation.targetPoints.toNat) (hcount : chCount ≠ 0)
    (hframes : ∀ f ∈ frames, f.WellFormed chCount) (hne : frames ≠ []) :
    h.lastSampleRateHz = decimation.rescaledRate (frames.getLast hne) ∧
      h.ch0TotalAppended = ((sinceRateChange decimation.rescaledRate frames).map decimation.decimatedSpc).sum := by
  obtain ⟨-, -, hsince⟩ := map_decimatedFrame hmode htarget hcount hframes
  constructor
  · have hlast : (frames.map decimation.decimatedFrame).getLast? = some (decimation.decimatedFrame (frames.getLast hne)) := by
      rw [List.getLast?_map, List.getLast?_eq_some_getLast hne]
      rfl
    rw [hholds.rate _ hlast]
    exact (decimateFrame_minMax hmode htarget hcount (hframes _ (List.getLast_mem hne))).2.2.1
  · rw [hholds.total, hsince, List.map_map]
    refine congrArg List.sum (List.map_congr_left ?_)
    intro f hf
    have hmem : f ∈ frames := (sinceRateChange_suffix _ frames).subset hf
    exact (decimateFrame_minMax hmode htarget hcount (hframes f hmem)).2.2.2.1

/-- **Peaks survive the pipeline, as far as the history goes back.**  The frames are decimated in any batches, and what
comes out is fed to a fresh display stage in any batches.  When the last call puts out a frame and both its window and
`max_history` have room for the decimated samples since the rescaled rate changed, the display has, in every channel, the
minimum and the maximum of the raw samples since then, and no other values. -/
theorem displayed_extremes (inputs batches : List (List (Frame ℚ))) (batch : List (Frame ℚ))
    (hmode : decimation.mode = .minMax) (hpipeline : 2 ≤ decimation.targetPoints.toNat)
    (hdisplay : 2 ≤ target.toNat) (hne : frames ≠ []) (hframes : ∀ f ∈ frames, f.WellFormed chCount)
    (hinputs : inputs.flatten = frames)
    (hbatches : batches.flatten ++ batch = inputs.flatMap fun b => (decimation.process b).2)
    (hok : (((⟨target, span, {}, 0⟩ : VisualizationStage).run batches).process batch).1 = .ok)
    (hwindow : ((sinceRateChange decimation.rescaledRate frames).map decimation.decimatedSpc).sum ≤
      ⌊decimation.rescaledRate (frames.getLast hne) * span⌋₊)
    (hhistory : ((sinceRateChange decimation.rescaledRate frames).map decimation.decimatedSpc).sum ≤
      History.maxHistory ⌊decimation.rescaledRate (frames.getLast hne) * span⌋₊) :
    ∃ shown, (((⟨target, span, {}, 0⟩ : VisualizationStage).run batches).process batch).2.1 = [shown] ∧
      shown.channelCount = chCount ∧
      ∀ ch < chCount.toNat,
        let raw := (sinceRateChange decimation.rescaledRate frames).flatMap fun f => f.channelData ch
        (shown.channelData ch).minimum = raw.minimum ∧ (shown.channelData ch).maximum = raw.maximum ∧
          shown.channelData ch ⊆ raw := by
  rw [VisualizationStage.process_run, hbatches, flatMap_process, hinputs, VisualizationStage.process] at hok ⊢
  have hcount : chCount ≠ 0 := by
    -- without channels every frame is skipped
    rintro rfl
    have hnil : frames.filterMap decimation.decimateFrame = [] := by
      rw [List.filterMap_eq_nil_iff]
      intro f hf
      rw [DecimationStage.decimateFrame, if_pos (.inl (hframes f hf).channels)]
    rw [hnil] at hok
    cases hok
  obtain ⟨hmap, hdecimated, hsince⟩ := map_decimatedFrame hmode hpipeline hcount hframes
  rw [hmap] at hok ⊢
  have hw : ((frames.map decimation.decimatedFrame).foldl History.accumulate {}).windowSamples span ≠ 0 := by
    intro hw
    rw [VisualizationStage.finish_of_zero _ hw] at hok
    cases hok
  have hholds := foldl_accumulate hcount hdecimated (by simpa using hne)
  obtain ⟨hrate, htotal⟩ := hholds.of_decimated hmode hpipeline hcount hframes hne
  have hroom : ((frames.map decimation.decimatedFrame).foldl History.accumulate {}).ch0TotalAppended ≤
      ((frames.map decimation.decimatedFrame).foldl History.accumulate {}).windowSamples span := by
    rw [History.windowSamples_eq_floor hw, htotal, hrate]
    exact hwindow
  have hkept : ((frames.map decimation.decimatedFrame).foldl History.accumulate {}).ch0TotalAppended ≤ History.maxHistory
      (((frames.map decimation.decimatedFrame).foldl History.accumulate {}).windowSamples span) := by
    rw [History.windowSamples_eq_floor hw, htotal, hrate]
    exact hhistory
  obtain ⟨shown, hshown, hchannels, hdata⟩ :=
    display_holds ⟨target, span, {}, 0⟩ hholds hcount hdisplay hroom hkept hok
  refine ⟨shown, hshown, hchannels, ?_⟩
  intro ch hch
  have hraw : Envelope (shown.channelData ch)
      ((sinceRateChange decimation.rescaledRate frames).flatMap fun f => f.channelData ch) := by
    apply (hdata ch hch).trans
    rw [hsince, List.flatMap_map]
    exact Envelope.flatMap fun f hf =>
      (decimateFrame_minMax hmode hpipeline hcount
        (hframes f ((sinceRateChange_suffix _ frames).subset hf))).2.2.2.2 ch hch
  exact ⟨hraw.minimum_eq, hraw.maximum_eq, hraw.subset⟩

/-- A frame of one channel. -/
def oneChannel (rate : ℚ) (xs : List Int16) : Frame ℚ :=
  { (Frame.makeOwned 1 (UInt32.ofNat xs.length) : Frame ℚ) with sampleRateHz := rate, data := xs }

/-- Two frames of four samples, two of which are left of each, fed to the display one by one. -/
theorem displayed_extremes_one_by_one :
    let decimation : DecimationStage := { mode := .minMax, targetPoints := 2 }
    let frames := [oneChannel 4 [1, 7, 3, 2], oneChannel 4 [-9, 0, 4, 4]]
    let batches := [[oneChannel 2 [1, 7]], []]
    let batch := [oneChannel 2 [-9, 4]]
    ∃ shown, (((⟨3, 10, {}, 0⟩ : VisualizationStage).run batches).process batch).2.1 = [shown] ∧
      shown.channelCount = 1 ∧
      ∀ ch < (1 : UInt32).toNat,
        let raw := (sinceRateChange decimation.rescaledRate frames).flatMap fun f => f.channelData ch
        (shown.channelData ch).minimum = raw.minimum ∧ (shown.channelData ch).maximum = raw.maximum ∧
          shown.channelData ch ⊆ raw := by
  have hframes : ∀ f ∈ [oneChannel 4 [1, 7, 3, 2], oneChannel 4 [-9, 0, 4, 4]], f.WellFormed 1 := by
    intro f hf
    obtain rfl | rfl : f = oneChannel 4 [1, 7, 3, 2] ∨ f = oneChannel 4 [-9, 0, 4, 4] := by simpa using hf
    · exact ⟨rfl, by decide, by decide, by decide +kernel⟩
    · exact ⟨rfl, by decide, by decide, by decide +kernel⟩
  exact displayed_extremes [[oneChannel 4 [1, 7, 3, 2]], [oneChannel 4 [-9, 0, 4, 4]]]
    [[oneChannel 2 [1, 7]], []] [oneChannel 2 [-9, 4]] rfl (by decide) (by decide) (by simp) hframes rfl
    (by decide +kernel) (by decide +kernel) (by decide +kernel) (by decide +kernel)

/-- **A peak is lost where the rate changes**: of the samples 5 and 0, at two rates, the display shows 0, although its
window has room for both. -/
theorem peak_cleared :
    let decimation : DecimationStage := { mode := .minMax, targetPoints := 2 }
    let frames := [oneChannel 1 [5], oneChannel 2 [0]]
    let r := ({ displayTargetPoints := 2, visibleTimeSpan := 10 } : VisualizationStage).process
      (decimation.process frames).2
    r.1 = .ok ∧ ((decimation.process frames).2.map Frame.spc).sum ≤ r.2.2.history.windowSamples 10 ∧
      r.2.1.map (fun shown => (shown.channelData 0).maximum) = [((0 : Int16) : WithBot Int16)] ∧
      (frames.flatMap fun f => f.channelData 0).maximum = ((5 : Int16) : WithBot Int16) := by
  decide +kernel

end Extremes

end Grebe
