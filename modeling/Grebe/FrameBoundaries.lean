import Grebe.Lib.Boundaries
import Grebe.VisualizationLog

/-!
# Grebe.FrameBoundaries — where the frames end in the history of channel 0

For its debug dump the stage keeps the positions at which frames end in channel 0, counted from the last change of the
rate, and drops those before the history.  Counter, history and positions change at different places.

* `debugDump`: what the dump writes.
* `Frames.boundary_iff`: the positions, by the log of the channel.
* `Tracks`: counter and positions are those of the frames since the rate changed.  Every frame and every clean-up keeps
  this.
* `boundaries_exact`: after every call that has pruned the positions.
-/

namespace Grebe

open Lib Lib.Boundaries

/-! ## The dump -/

/-- The window of channel 0, what is shown of it, and where frames end in it. -/
structure DebugDump where
  windowed : List Int16
  decimated : List Int16
  boundaryOffsets : List ℕ
deriving DecidableEq

/-- `boundary_offsets`, in a window of the last `take` samples. -/
def History.boundaryOffsets (h : History) (take : ℕ) : List ℕ :=
  let winAbsStart := h.ch0TotalAppended - take
  (h.ch0FrameEnds.filter fun b => winAbsStart < b ∧ b < h.ch0TotalAppended).map (· - winAbsStart)

/-- What `process` hands to `dump_debug_csv`, if it gets that far with a request. -/
def VisualizationStage.debugDump (s : VisualizationStage) (batch : List (Frame ℚ)) (debugDumpRequested : Bool) :
    Option DebugDump :=
  let h := batch.foldl History.accumulate s.history
  let window := h.windowSamples s.visibleTimeSpan
  if window = 0 then none
  else
    let h := (h.trim (History.maxHistory window)).prune
    let take := min h.minAvailable window
    let hist := h.channelHistory.headD []
    let windowed := hist.drop (hist.length - take)
    if h.channelHistory.all List.isEmpty ∨ debugDumpRequested = false ∨ windowed = [] then none
    else some ⟨windowed, History.decimated s.displayTargetPoints.toNat take hist, h.boundaryOffsets take⟩

/-! ## The frames since the rate changed -/

namespace Frames

/-- The frames since the rate last changed, without those that are skipped, the newest first. -/
def sinceReset : List (Frame ℚ) → List (Frame ℚ)
  | [] => []
  | frame :: older =>
    if frame.Skipped then sinceReset older
    else if ChangesRate frame older then [frame]
    else frame :: sinceReset older

section Since

variable {frame : Frame ℚ} {frames older : List (Frame ℚ)} {i : ℕ}

theorem spc_pos (hskip : ¬frame.Skipped) : 0 < frame.spc :=
  Nat.pos_of_ne_zero fun h0 => hskip (.inr (UInt32.toNat.inj h0))

theorem channels_pos (hskip : ¬frame.Skipped) : ¬frame.channels ≤ 0 :=
  fun h0 => hskip (.inl (UInt32.toNat.inj (Nat.le_zero.mp h0)))

theorem spc_pos_of_mem (hframe : frame ∈ sinceReset frames) : 0 < frame.spc := by
  induction frames with
  | nil => cases hframe
  | cons f older ih =>
    unfold sinceReset at hframe
    split_ifs at hframe with hskip hchange
    · exact ih hframe
    · rw [List.mem_singleton.mp hframe]
      exact spc_pos hskip
    · obtain rfl | hframe := List.mem_cons.mp hframe
      · exact spc_pos hskip
      · exact ih hframe

@[simp] theorem length_entries (frame : Frame ℚ) (k ch : ℕ) : (frame.entries k ch).length = frame.spc := by
  rw [Frame.entries, List.length_mapIdx, Frame.length_channelData]

theorem frame_of_getElem?_entries {k ch : ℕ} {x : LogEntry} (hx : (frame.entries k ch)[i]? = some x) :
    x.frame = k := by
  rw [Frame.entries, List.getElem?_mapIdx, Option.map_eq_some_iff] at hx
  obtain ⟨_, -, rfl⟩ := hx
  rfl

/-- Channel 0 never disappears: its log has the frames since the rate changed. -/
theorem length_log_zero (frames : List (Frame ℚ)) : (log 0 frames).length = total Frame.spc (sinceReset frames) := by
  induction frames with
  | nil => rfl
  | cons frame older ih =>
    rw [log, sinceReset]
    by_cases hskip : frame.Skipped
    · rw [if_pos hskip, if_pos hskip, ih]
    · rw [if_neg hskip, if_neg hskip, if_neg (channels_pos hskip)]
      split_ifs
      · simp
      · rw [List.length_append, length_entries, ih, total_cons, Nat.add_comm]

/-- At position `i` of the log of channel 0 a new frame begins. -/
def Begins (frames : List (Frame ℚ)) (i : ℕ) : Prop :=
  0 < i ∧ ∃ x y, (log 0 frames)[i - 1]? = some x ∧ (log 0 frames)[i]? = some y ∧ x.frame ≠ y.frame

/-- The samples of one frame are in one piece, behind those of the older frames. -/
theorem begins_append {k : ℕ} (hlog : log 0 frames = log 0 older ++ frame.entries k 0) (hspc : 0 < frame.spc)
    (hk : ∀ x ∈ log 0 older, x.frame < k) : Begins frames i ↔ Begins older i ∨ 0 < i ∧ i = (log 0 older).length := by
  have hle {j : ℕ} (hj : j < (log 0 older).length) : (log 0 frames)[j]? = (log 0 older)[j]? := by
    rw [hlog, List.getElem?_append_left hj]
  have hge {j : ℕ} (hj : (log 0 older).length ≤ j) :
      (log 0 frames)[j]? = (frame.entries k 0)[j - (log 0 older).length]? := by
    rw [hlog, List.getElem?_append_right hj]
  obtain hlt | heq | hgt := lt_trichotomy i (log 0 older).length
  · -- among the older frames
    rw [Begins, hle hlt, hle (by omega), ← Begins]
    exact ⟨.inl, fun h => h.resolve_right fun h' => by omega⟩
  · -- between them
    refine ⟨fun h => .inr ⟨h.1, heq⟩, fun h => ?_⟩
    have hpos : 0 < i := h.elim And.left And.left
    have hlast : i - 1 < (log 0 older).length := by omega
    have hfirst : 0 < (frame.entries k 0).length := by rwa [length_entries]
    refine ⟨hpos, _, _, (hle hlast).trans (List.getElem?_eq_getElem hlast),
      (hge heq.ge).trans (by rw [heq, Nat.sub_self]; exact List.getElem?_eq_getElem hfirst), ?_⟩
    rw [frame_of_getElem?_entries (List.getElem?_eq_getElem hfirst)]
    exact (hk _ (List.getElem_mem hlast)).ne
  · -- in the new one
    refine iff_of_false ?_ ?_
    · rintro ⟨-, x, y, hx, hy, hne⟩
      rw [hge (by omega)] at hx hy
      exact hne ((frame_of_getElem?_entries hx).trans (frame_of_getElem?_entries hy).symm)
    · rintro (⟨-, _, y, -, hy, -⟩ | h)
      · have := (List.getElem?_eq_some_iff.mp hy).1
        omega
      · omega

/-- The frames of a log are numbered. -/
theorem frame_lt {x : LogEntry} (hx : x ∈ log 0 frames) : x.frame < frames.length := by
  obtain ⟨f, hf, -⟩ := mem_log hx
  have := (List.getElem?_eq_some_iff.mp hf).1
  rwa [List.length_reverse] at this

/-- **The end positions before the end are those at which the next frame begins.** -/
theorem boundary_iff (frames : List (Frame ℚ)) (i : ℕ) :
    i ∈ ends Frame.spc (sinceReset frames) ∧ i < total Frame.spc (sinceReset frames) ↔ Begins frames i := by
  induction frames with
  | nil => exact iff_of_false (fun h => nomatch h.1) fun h => by simp [Begins, log] at h
  | cons frame older ih =>
    by_cases hskip : frame.Skipped
    · rw [Begins, log, sinceReset, if_pos hskip, if_pos hskip]
      exact ih
    by_cases hchange : ChangesRate frame older
    · have hlog : log 0 (frame :: older) = frame.entries older.length 0 := by
        rw [log, if_neg hskip, if_neg (channels_pos hskip), if_pos hchange]
      rw [sinceReset, if_neg hskip, if_pos hchange, Begins, hlog]
      refine iff_of_false ?_ ?_
      · rintro ⟨hi, hlt⟩
        obtain hi | rfl := mem_ends_cons.mp hi
        · cases hi
        · exact absurd hlt (by simp)
      · rintro ⟨-, x, y, hx, hy, hne⟩
        exact hne ((frame_of_getElem?_entries hx).trans (frame_of_getElem?_entries hy).symm)
    · have hlog : log 0 (frame :: older) = log 0 older ++ frame.entries older.length 0 := by
        rw [log, if_neg hskip, if_neg (channels_pos hskip), if_neg hchange]
      have hpos := spc_pos hskip
      rw [begins_append hlog hpos fun x hx => frame_lt hx, ← ih, length_log_zero, sinceReset, if_neg hskip,
        if_neg hchange, mem_ends_cons, total_cons]
      constructor
      · rintro ⟨hi | rfl, hlt⟩
        · obtain heq | hlt := (le_total hi).eq_or_lt
          · exact .inr ⟨pos_of_mem_ends (fun _ => spc_pos_of_mem) hi, heq⟩
          · exact .inl ⟨hi, hlt⟩
        · exact absurd hlt (lt_irrefl _)
      · rintro (⟨hi, hlt⟩ | ⟨hi, rfl⟩)
        · exact ⟨.inl hi, by omega⟩
        · exact ⟨.inl (total_mem_ends hi), by omega⟩

end Since

end Frames

/-! ## Counter and positions -/

namespace History

section Tracks

variable {h : History} {frame : Frame ℚ} {frames older : List (Frame ℚ)} {span : ℚ}

theorem headD_channelHistory (h : History) : h.channelHistory.headD [] = h.channel 0 := by
  unfold channel
  cases h.channelHistory <;> rfl

theorem ch0Length_eq (h : History) : h.ch0Length = (h.channel 0).length :=
  congrArg List.length h.headD_channelHistory

theorem absStart_eq (h : History) : h.absStart = h.ch0TotalAppended - h.ch0Length := rfl

/-- What a frame does to the counter and the positions. -/
theorem boundaries_accumulate (hnotes : h.Notes older) (hskip : ¬frame.Skipped) :
    (h.accumulate frame).ch0TotalAppended =
        (if Frames.ChangesRate frame older then 0 else h.ch0TotalAppended) + frame.spc ∧
      (h.accumulate frame).ch0FrameEnds =
        (if Frames.ChangesRate frame older then [] else h.ch0FrameEnds) ++ [(h.accumulate frame).ch0TotalAppended] := by
  have hnote : (h.noteRate frame.sampleRateHz).ch0TotalAppended =
      (if Frames.ChangesRate frame older then 0 else h.ch0TotalAppended) ∧
      (h.noteRate frame.sampleRateHz).ch0FrameEnds =
        if Frames.ChangesRate frame older then [] else h.ch0FrameEnds := by
    have hiff : Frames.ChangesRate frame older ↔
        frame.sampleRateHz > 0 ∧ h.lastSampleRateHz > 0 ∧ frame.sampleRateHz ≠ h.lastSampleRateHz := by
      rw [hnotes.rate, Frames.ChangesRate]
    rw [noteRate]
    by_cases hpos : frame.sampleRateHz > 0
    · by_cases hchange : h.lastSampleRateHz > 0 ∧ frame.sampleRateHz ≠ h.lastSampleRateHz
      · simp only [if_pos hpos, if_pos hchange, if_pos (hiff.mpr ⟨hpos, hchange⟩)]
        exact ⟨rfl, rfl⟩
      · simp only [if_pos hpos, if_neg hchange, if_neg fun hc => hchange (hiff.mp hc).2, and_self]
    · simp only [if_neg hpos, if_neg fun hc => hpos (hiff.mp hc).1, and_self]
  rw [accumulate_of_not_skipped hskip]
  simp [append, hnote.1, hnote.2]

/-- Counter and positions belong to the frames since the rate changed; only those before the history may be missing. -/
structure Tracks (h : History) (frames : List (Frame ℚ)) : Prop extends h.Notes frames where
  total : h.ch0TotalAppended = Boundaries.total Frame.spc (Frames.sinceReset frames)
  length_le : h.ch0Length ≤ h.ch0TotalAppended
  ends : ∃ cut ≤ h.absStart, h.ch0FrameEnds = (Boundaries.ends Frame.spc (Frames.sinceReset frames)).filter (cut < ·)

/-- **Every frame moves counter, history and positions by the same.** -/
theorem Tracks.accumulate (htracks : h.Tracks older) (frame : Frame ℚ) :
    (h.accumulate frame).Tracks (frame :: older) := by
  have hnotes := htracks.toNotes.accumulate frame
  by_cases hskip : frame.Skipped
  · rw [accumulate_of_skipped hskip] at hnotes ⊢
    refine ⟨hnotes, ?_, htracks.length_le, ?_⟩
    · rw [Frames.sinceReset, if_pos hskip]
      exact htracks.total
    · rw [Frames.sinceReset, if_pos hskip]
      exact htracks.ends
  obtain ⟨htotal, hends⟩ := boundaries_accumulate htracks.toNotes hskip
  have hlength : (h.accumulate frame).ch0Length =
      (if Frames.ChangesRate frame older then 0 else h.ch0Length) + frame.spc := by
    rw [ch0Length_eq, channel_accumulate htracks.toNotes hskip, if_neg (Frames.channels_pos hskip), ch0Length_eq]
    split_ifs
    · rw [Frame.length_channelData, Nat.zero_add]
    · rw [List.length_append, Frame.length_channelData]
  have hspc := Frames.spc_pos hskip
  obtain ⟨cut, hcut, hold⟩ := htracks.ends
  have hle := htracks.length_le
  rw [absStart_eq] at hcut
  by_cases hchange : Frames.ChangesRate frame older
  · rw [if_pos hchange] at htotal hends hlength
    have hsince : Frames.sinceReset (frame :: older) = [frame] := by
      rw [Frames.sinceReset, if_neg hskip, if_pos hchange]
    refine ⟨hnotes, ?_, by omega, 0, Nat.zero_le _, ?_⟩
    · rw [htotal, hsince, total_cons, total_nil, Nat.add_comm]
    · rw [hends, htotal, hsince]
      simp [Boundaries.ends, hspc]
  · rw [if_neg hchange] at htotal hends hlength
    have hsince : Frames.sinceReset (frame :: older) = frame :: Frames.sinceReset older := by
      rw [Frames.sinceReset, if_neg hskip, if_neg hchange]
    refine ⟨hnotes, ?_, by omega, cut, ?_, ?_⟩
    · rw [htotal, hsince, total_cons, htracks.total, Nat.add_comm]
    · rw [absStart_eq]
      omega
    · have hnew : cut < frame.spc + Boundaries.total Frame.spc (Frames.sinceReset older) := by
        rw [← htracks.total]
        omega
      rw [hends, htotal, hold, hsince, Boundaries.ends, List.filter_append, total_cons, ← htracks.total, Nat.add_comm]
      rw [← htracks.total] at hnew
      simp [hnew]

/-- A clean-up drops exactly the positions up to the new start of the history. -/
theorem Tracks.prune (htracks : h.Tracks frames) (maxHistory : ℕ) :
    let h' := (h.trim maxHistory).prune
    h'.ch0FrameEnds = (Boundaries.ends Frame.spc (Frames.sinceReset frames)).filter (h'.absStart < ·) := by
  obtain ⟨cut, hcut, hends⟩ := htracks.ends
  have hstart : cut ≤ ((h.trim maxHistory).prune).absStart := by
    have htrim : ((h.trim maxHistory).prune).ch0Length = min h.ch0Length maxHistory := ch0Length_trim h maxHistory
    have htotal : ((h.trim maxHistory).prune).ch0TotalAppended = h.ch0TotalAppended := rfl
    rw [absStart_eq] at hcut ⊢
    omega
  show (h.ch0FrameEnds.dropWhile fun e => decide (e ≤ ((h.trim maxHistory).prune).absStart)) = _
  rw [hends, dropWhile_le ((ends_pairwise fun _ => Frames.spc_pos_of_mem).filter _), filter_filter_lt hstart]

theorem Tracks.settle (htracks : h.Tracks frames) (span : ℚ) : (h.settle span).Tracks frames := by
  by_cases hw : h.windowSamples span = 0
  · rwa [settle_of_zero hw]
  · refine ⟨htracks.toNotes.settle span, ch0TotalAppended_settle.trans htracks.total, ?_, _, le_rfl, ?_⟩
    · rw [settle_of_ne_zero hw]
      have htrim : ((h.trim (maxHistory (h.windowSamples span))).prune).ch0Length = _ := ch0Length_trim h _
      rw [htrim]
      exact (min_le_left _ _).trans htracks.length_le
    · rw [settle_of_ne_zero hw]
      exact htracks.prune _

theorem Tracks.foldl (htracks : h.Tracks older) (batch : List (Frame ℚ)) :
    (batch.foldl History.accumulate h).Tracks (batch.reverse ++ older) := by
  induction batch generalizing h older with
  | nil => exact htracks
  | cons frame batch ih =>
    rw [List.foldl_cons, List.reverse_cons, List.append_assoc]
    exact ih (htracks.accumulate frame)

end Tracks

end History

/-! ## Offsets in the window -/

section Offsets

variable {h : History} {frames : List (Frame ℚ)} {take : ℕ}

theorem History.minAvailable_le (h : History) : h.minAvailable ≤ h.ch0Length := by
  by_cases hne : h.channelHistory = []
  · simp [History.minAvailable, hne]
  · obtain ⟨first, rest, hcons⟩ := List.exists_cons_of_ne_nil hne
    refine (History.isLeast_minAvailable hne).2 ⟨first, by simp [hcons], ?_⟩
    rw [History.ch0Length, hcons, List.headD_cons]

/-- The offsets are those at which a frame begins, from the start of the window on. -/
theorem History.mem_boundaryOffsets (htracks : h.Tracks frames)
    (hends : h.ch0FrameEnds = (ends Frame.spc (Frames.sinceReset frames)).filter (h.absStart < ·))
    (htake : take ≤ h.ch0Length) {o : ℕ} :
    o ∈ h.boundaryOffsets take ↔ 0 < o ∧ Frames.Begins frames (h.ch0TotalAppended - take + o) := by
  have hle := htracks.length_le
  rw [← Frames.boundary_iff, ← htracks.total, History.boundaryOffsets, hends]
  simp only [List.mem_map, List.mem_filter, decide_eq_true_eq, absStart_eq]
  constructor
  · rintro ⟨b, ⟨⟨hb, -⟩, hlow, hhigh⟩, rfl⟩
    rw [Nat.add_sub_cancel' hlow.le]
    exact ⟨by omega, hb, hhigh⟩
  · rintro ⟨ho, hb, hhigh⟩
    exact ⟨_, ⟨⟨hb, decide_eq_true (by omega)⟩, by omega, hhigh⟩, by omega⟩

theorem History.boundaryOffsets_pairwise (h : History) (hends : h.ch0FrameEnds.Pairwise (· < ·)) (take : ℕ) :
    (h.boundaryOffsets take).Pairwise (· < ·) := by
  rw [History.boundaryOffsets, List.pairwise_map]
  refine (hends.filter _).imp_of_mem fun hb hb' hlt => ?_
  have hlow := of_decide_eq_true (List.mem_filter.mp hb).2
  omega

/-- In the last `take` samples of the log. -/
theorem Frames.begins_rtake (frames : List (Frame ℚ)) (take : ℕ) {o : ℕ} (ho : 0 < o) :
    Frames.Begins frames ((Frames.log 0 frames).length - take + o) ↔
      ∃ x y, ((Frames.log 0 frames).rtake take)[o - 1]? = some x ∧ ((Frames.log 0 frames).rtake take)[o]? = some y ∧
        x.frame ≠ y.frame := by
  rw [Frames.Begins, List.rtake, List.getElem?_drop, List.getElem?_drop, Nat.add_sub_assoc ho]
  exact and_iff_right (by omega)

end Offsets

namespace VisualizationStage

section Main

variable {s : VisualizationStage} {batch : List (Frame ℚ)} {d : DebugDump} {debugDumpRequested : Bool}

theorem tracks_after (target : UInt32) (span : ℚ) (calls : List VisualizationCall) :
    ((fresh target span).after calls).history.Tracks (framesOf calls) := by
  induction calls using List.reverseRecOn with
  | nil => exact ⟨⟨rfl, rfl⟩, rfl, le_rfl, 0, le_rfl, rfl⟩
  | append_singleton calls c ih =>
    rw [after_concat, framesOf_concat]
    rcases c with q | n | batch
    · exact ih
    · exact ih
    · rw [call, history_process]
      exact (ih.foldl batch).settle _

/-- The dump is made of the history that the call leaves. -/
theorem debugDump_some (hd : s.debugDump batch debugDumpRequested = some d) :
    let h := (s.process batch).2.2.history
    let take := min h.minAvailable (h.windowSamples s.visibleTimeSpan)
    d.windowed = (h.channel 0).rtake take ∧ d.boundaryOffsets = h.boundaryOffsets take := by
  intro h take
  have hsettle : h = (batch.foldl History.accumulate s.history).settle s.visibleTimeSpan := history_process s batch
  have htake : take = min h.minAvailable
      ((batch.foldl History.accumulate s.history).windowSamples s.visibleTimeSpan) := by
    show min h.minAvailable (h.windowSamples s.visibleTimeSpan) = _
    rw [hsettle, History.windowSamples_settle]
  unfold debugDump at hd
  by_cases hw : (batch.foldl History.accumulate s.history).windowSamples s.visibleTimeSpan = 0
  · rw [if_pos hw] at hd
    cases hd
  · rw [if_neg hw, ← History.settle_of_ne_zero hw, ← hsettle] at hd
    dsimp only at hd
    rw [← htake, History.headD_channelHistory] at hd
    split_ifs at hd
    cases hd
    exact ⟨rfl, rfl⟩

/-- A call with a window drops the positions before the history. -/
theorem ends_process (target : UInt32) (span : ℚ) (calls : List VisualizationCall) (batch : List (Frame ℚ))
    (hwindow : (batch.foldl History.accumulate ((fresh target span).after calls).history).windowSamples
      ((fresh target span).after calls).visibleTimeSpan ≠ 0) :
    let h := (((fresh target span).after calls).process batch).2.2.history
    h.ch0FrameEnds =
      (ends Frame.spc (Frames.sinceReset (framesOf (calls ++ [.process batch])))).filter (h.absStart < ·) := by
  intro h
  let s := (fresh target span).after calls
  have hprune := ((tracks_after target span calls).foldl batch).prune
    (History.maxHistory ((batch.foldl History.accumulate s.history).windowSamples s.visibleTimeSpan))
  have hframes : framesOf (calls ++ [.process batch]) = batch.reverse ++ framesOf calls :=
    framesOf_concat calls (.process batch)
  have hsettle : h = (batch.foldl History.accumulate s.history).settle s.visibleTimeSpan := history_process s batch
  rw [hsettle, hframes, History.settle_of_ne_zero hwindow]
  exact hprune

/-- **The frame boundaries are exact** after every call with a window, the calls before being any.  The window and the
history lie in what was counted.  The positions kept are those of the ends of frames since the rate changed that lie in
the history, in their order.  And the offsets of the dump are the positions in the window at which another frame begins. -/
theorem boundaries_exact (target : UInt32) (span : ℚ) (calls : List VisualizationCall) (batch : List (Frame ℚ))
    (hwindow : (((fresh target span).after (calls ++ [.process batch])).history).windowSamples
      ((fresh target span).after calls).visibleTimeSpan ≠ 0) (debugDumpRequested : Bool) :
    let s := (fresh target span).after calls
    let h := (s.process batch).2.2.history
    let frames := framesOf (calls ++ [.process batch])
    let take := min h.minAvailable (h.windowSamples s.visibleTimeSpan)
    let windowed := (Frames.log 0 frames).rtake take
    (take ≤ h.ch0Length ∧ h.ch0Length ≤ h.ch0TotalAppended ∧
      h.ch0TotalAppended = total Frame.spc (Frames.sinceReset frames)) ∧
    h.ch0FrameEnds.Pairwise (· < ·) ∧
    (∀ e, e ∈ h.ch0FrameEnds ↔ e ∈ ends Frame.spc (Frames.sinceReset frames) ∧
      h.ch0TotalAppended - h.ch0Length < e ∧ e ≤ h.ch0TotalAppended) ∧
    ∀ d, s.debugDump batch debugDumpRequested = some d → d.windowed = windowed.map LogEntry.value ∧
      d.boundaryOffsets.Pairwise (· < ·) ∧
      ∀ o, o ∈ d.boundaryOffsets ↔
        0 < o ∧ ∃ x y, windowed[o - 1]? = some x ∧ windowed[o]? = some y ∧ x.frame ≠ y.frame := by
  intro s h frames take windowed
  have htracks : h.Tracks frames := by
    have := tracks_after target span (calls ++ [.process batch])
    rwa [after_concat, call] at this
  have hkeeps : h.Keeps frames := by
    have := keeps_after target span (calls ++ [.process batch])
    rwa [after_concat, call] at this
  rw [after_concat, call, history_process, History.windowSamples_settle] at hwindow
  have hends : h.ch0FrameEnds = (ends Frame.spc (Frames.sinceReset frames)).filter (h.absStart < ·) :=
    ends_process target span calls batch hwindow
  have htake : take ≤ h.ch0Length := (min_le_left _ _).trans h.minAvailable_le
  have hpairwise : h.ch0FrameEnds.Pairwise (· < ·) := by
    rw [hends]
    exact (ends_pairwise fun _ => Frames.spc_pos_of_mem).filter _
  have hlog : (Frames.log 0 frames).length = h.ch0TotalAppended := (Frames.length_log_zero frames).trans htracks.total.symm
  refine ⟨⟨htake, htracks.length_le, htracks.total⟩, hpairwise, fun e => ?_, fun d hd => ?_⟩
  · rw [hends, List.mem_filter, decide_eq_true_eq, History.absStart_eq, htracks.total]
    exact and_congr_right fun he => (and_iff_left (le_total he)).symm
  · obtain ⟨hwindowed, hoffsets⟩ := debugDump_some hd
    refine ⟨?_, ?_, fun o => ?_⟩
    · rw [hwindowed, ← rtake_of_suffix (hkeeps.suffix 0) (htake.trans_eq h.ch0Length_eq)]
      simp only [windowed, List.rtake, List.length_map, List.map_drop]
    · rw [hoffsets]
      exact h.boundaryOffsets_pairwise hpairwise _
    · rw [hoffsets, History.mem_boundaryOffsets htracks hends htake]
      apply and_congr_right
      intro ho
      rw [← hlog]
      exact Frames.begins_rtake frames take ho

/-- Three samples, and two in the call with the dump: of the five the window has four, and a frame begins after two. -/
theorem boundaries_exact_two :
    let f : Frame ℚ := { (Frame.makeOwned 1 3 : Frame ℚ) with sampleRateHz := 2, data := [1, 2, 3] }
    let g : Frame ℚ := { (Frame.makeOwned 1 2 : Frame ℚ) with sampleRateHz := 2, data := [4, 5] }
    let s := (fresh 3840 2).after [.process [f]]
    s.debugDump [g] true = some ⟨[2, 3, 4, 5], [2, 3, 4, 5], [2]⟩ ∧
      (s.process [g]).2.2.history.ch0FrameEnds.Pairwise (· < ·) ∧
      ∀ o, o ∈ [2] ↔ 0 < o ∧ ∃ x y, ((Frames.log 0 [g, f]).rtake 4)[o - 1]? = some x ∧
        ((Frames.log 0 [g, f]).rtake 4)[o]? = some y ∧ x.frame ≠ y.frame := by
  intro f g s
  have hdump : s.debugDump [g] true = some ⟨[2, 3, 4, 5], [2, 3, 4, 5], [2]⟩ := by decide +kernel
  have htake : min (s.process [g]).2.2.history.minAvailable
      ((s.process [g]).2.2.history.windowSamples s.visibleTimeSpan) = 4 := by decide +kernel
  obtain ⟨-, hpairwise, -, hoffsets⟩ := boundaries_exact 3840 2 [.process [f]] [g] (by decide +kernel) true
  obtain ⟨-, -, hbegins⟩ := hoffsets _ hdump
  exact ⟨hdump, hpairwise, htake ▸ hbegins⟩

end Main

end VisualizationStage

end Grebe
