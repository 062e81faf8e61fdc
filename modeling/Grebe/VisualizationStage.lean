import Mathlib.Tactic
import Mathlib.Data.Rat.Floor
import Grebe.Lib.Deferred
import Grebe.Decimator
import Grebe.Frame
import Grebe.LinearRuntime

/-!
# Grebe.VisualizationStage — a sliding window over the frames

The stage appends the samples of its frames to a history of each channel and shows the last `rate * span` of them.  Rates
and the span are rational numbers.  What the debug dump writes is in `Grebe.FrameBoundaries`.

* `History` is what accumulates; it carries the number of its channels.  `accumulate` is one round of the loop over the
  frames, `trim` and `prune` are the clean-ups at the end of a call.
* `settle`: what a call leaves of the history.  It is `Lib.Deferrable`: `settle_accumulate`.
* `display_channel`: what a call puts out, channel by channel.
* `batching_irrelevant`: how frames are batched does not show.
-/

namespace Grebe

open Lib

/-! ## The history -/

@[ext] structure History where
  channelHistory : List (List Int16) := []
  lastSampleRateHz : ℚ := 0
  lastChannelCount : UInt32 := 0
  ch0FrameEnds : List ℕ := []
  ch0TotalAppended : ℕ := 0
  sized : channelHistory.length = lastChannelCount.toNat := by rfl

namespace History

/-- Before the first frame. -/
def empty : History := {}

section Accumulate

variable (h : History)

/-- A new rate: a different time density. -/
def clear : History where
  channelHistory := h.channelHistory.map fun _ => []
  lastSampleRateHz := h.lastSampleRateHz
  lastChannelCount := h.lastChannelCount
  sized := by rw [List.length_map, h.sized]

def noteRate (rate : ℚ) : History :=
  if rate > 0 then
    let h := if h.lastSampleRateHz > 0 ∧ rate ≠ h.lastSampleRateHz then h.clear else h
    { h with lastSampleRateHz := rate }
  else h

def resize (chCount : UInt32) : History where
  channelHistory :=
    h.channelHistory.take chCount.toNat ++ List.replicate (chCount.toNat - h.lastChannelCount.toNat) []
  lastSampleRateHz := h.lastSampleRateHz
  lastChannelCount := chCount
  ch0FrameEnds := h.ch0FrameEnds
  ch0TotalAppended := h.ch0TotalAppended
  sized := by
    rw [List.length_append, List.length_take, List.length_replicate, h.sized]
    omega

def noteChannels (chCount : UInt32) : History := if chCount ≠ h.lastChannelCount then h.resize chCount else h

def append (frame : Frame ℚ) : History where
  channelHistory := h.channelHistory.mapIdx fun ch hist => hist ++ frame.channelData ch
  lastSampleRateHz := h.lastSampleRateHz
  lastChannelCount := h.lastChannelCount
  ch0FrameEnds := h.ch0FrameEnds ++ [h.ch0TotalAppended + frame.spc]
  ch0TotalAppended := h.ch0TotalAppended + frame.spc
  sized := by rw [List.length_mapIdx, h.sized]

/-- One round of the loop over the frames. -/
def accumulate (frame : Frame ℚ) : History :=
  if frame.channelCount = 0 ∨ frame.samplesPerChannel = 0 then h
  else ((h.noteRate frame.sampleRateHz).noteChannels frame.channelCount).append frame

end Accumulate

section Settle

variable (h : History)

/-- `max_history`, a `size_t`: from a window of `2 ^ 63` samples on, twice the window is not what it is. -/
def maxHistory (window : ℕ) : ℕ := window * 2 % 2 ^ 64

/-- Keep at most `maxHistory` samples of each channel. -/
def trim (maxHistory : ℕ) : History where
  channelHistory := h.channelHistory.map fun hist =>
    if hist.length > maxHistory then hist.drop (hist.length - maxHistory) else hist
  lastSampleRateHz := h.lastSampleRateHz
  lastChannelCount := h.lastChannelCount
  ch0FrameEnds := h.ch0FrameEnds
  ch0TotalAppended := h.ch0TotalAppended
  sized := by rw [List.length_map, h.sized]

/-- `deque_abs_start` -/
def absStart : ℕ := h.ch0TotalAppended - (h.channelHistory.headD []).length

/-- Drop the frame boundaries before the start of the history. -/
def prune : History where
  channelHistory := h.channelHistory
  lastSampleRateHz := h.lastSampleRateHz
  lastChannelCount := h.lastChannelCount
  ch0FrameEnds := h.ch0FrameEnds.dropWhile (· ≤ h.absStart)
  ch0TotalAppended := h.ch0TotalAppended
  sized := h.sized

/-- The samples in the window, and zero where `process` leaves early. -/
def windowSamples (span : ℚ) : ℕ :=
  if h.lastSampleRateHz ≤ 0 ∨ h.lastChannelCount = 0 ∨ span ≤ 0 then 0 else ⌊h.lastSampleRateHz * span⌋₊

/-- What a call leaves of the history. -/
def settle (span : ℚ) : History :=
  if h.windowSamples span = 0 then h else (h.trim (maxHistory (h.windowSamples span))).prune

end Settle

/-! ## What is displayed -/

section Display

variable (h : History)

/-- The number of samples of the channel with the fewest. -/
def minAvailable : ℕ :=
  h.channelHistory.tail.foldl (fun m hist => min m hist.length) (h.channelHistory.headD []).length

/-- The last `take` samples of a channel, decimated where they are more than the display shows. -/
def decimated (target take : ℕ) (hist : List Int16) : List Int16 :=
  let windowed := hist.drop (hist.length - take)
  if windowed.length > target then Decimator.decimate windowed .minMax target else windowed

/-- The output of a call with a window of `window` samples. -/
def display (target : UInt32) (window : ℕ) : StageResult × List (Frame ℚ) :=
  let take := min h.minAvailable window
  let chDecimated := h.channelHistory.map (decimated target.toNat take)
  let decimatedSpc := UInt32.ofNat (chDecimated.headD []).length
  if decimatedSpc = 0 then (.noData, [])
  else
    let dst : Frame ℚ := .makeOwned h.lastChannelCount decimatedSpc
    (.ok, [{ dst with
      sampleRateHz := h.lastSampleRateHz
      data := concatChannels decimatedSpc.toNat 0 dst.data chDecimated }])

end Display

end History

/-! ## The stage -/

structure VisualizationStage where
  displayTargetPoints : UInt32 := 3840
  visibleTimeSpan : ℚ := 1 / 100
  history : History := .empty
  lastCoverage : ℚ := 0

namespace VisualizationStage

variable (s : VisualizationStage)

/-- `process` from the check for data on, with a window of `window` samples. -/
def output (h : History) (window : ℕ) : StageResult × List (Frame ℚ) × VisualizationStage :=
  if h.channelHistory.all List.isEmpty then (.noData, [], { s with history := h, lastCoverage := 0 })
  else
    let r := h.display s.displayTargetPoints window
    (r.1, r.2, { s with history := h, lastCoverage := min 1 (h.minAvailable / window) })

/-- `process` after the loop over the frames. -/
def finish (h : History) : StageResult × List (Frame ℚ) × VisualizationStage :=
  if h.lastSampleRateHz ≤ 0 ∨ h.lastChannelCount = 0 then (.noData, [], { s with history := h, lastCoverage := 0 })
  else if s.visibleTimeSpan ≤ 0 then (.noData, [], { s with history := h, lastCoverage := 0 })
  else
    let window := ⌊h.lastSampleRateHz * s.visibleTimeSpan⌋₊
    if window = 0 then (.noData, [], { s with history := h, lastCoverage := 0 })
    else s.output (h.trim (History.maxHistory window)).prune window

def process (batch : List (Frame ℚ)) : StageResult × List (Frame ℚ) × VisualizationStage :=
  s.finish (batch.foldl History.accumulate s.history)

/-- The stage after a call for each batch. -/
def run (batches : List (List (Frame ℚ))) : VisualizationStage :=
  batches.foldl (fun s batch => (s.process batch).2.2) s

end VisualizationStage

/-! ## Putting off the clean-ups -/

namespace History

section Deferred

variable {h g k : History} {span : ℚ} {frame : Frame ℚ}

theorem trim_channelHistory (h : History) (maxHistory : ℕ) :
    (h.trim maxHistory).channelHistory = h.channelHistory.map fun hist => hist.rtake maxHistory := by
  apply List.map_congr_left
  intro hist _
  split_ifs with hlen
  · rfl
  · rw [List.rtake, Nat.sub_eq_zero_of_le (not_lt.mp hlen), List.drop_zero]

theorem settle_of_ne_zero (hw : h.windowSamples span ≠ 0) :
    h.settle span = (h.trim (maxHistory (h.windowSamples span))).prune := by
  rw [settle, if_neg hw]

theorem settle_of_zero (hw : h.windowSamples span = 0) : h.settle span = h := by
  rw [settle, if_pos hw]

@[simp] theorem lastSampleRateHz_settle : (h.settle span).lastSampleRateHz = h.lastSampleRateHz := by
  unfold settle
  split_ifs <;> rfl

@[simp] theorem lastChannelCount_settle : (h.settle span).lastChannelCount = h.lastChannelCount := by
  unfold settle
  split_ifs <;> rfl

@[simp] theorem ch0TotalAppended_settle : (h.settle span).ch0TotalAppended = h.ch0TotalAppended := by
  unfold settle
  split_ifs <;> rfl

@[simp] theorem windowSamples_settle : (h.settle span).windowSamples span = h.windowSamples span := by
  simp only [windowSamples, lastSampleRateHz_settle, lastChannelCount_settle]

theorem windowSamples_eq_floor (hw : h.windowSamples span ≠ 0) :
    h.windowSamples span = ⌊h.lastSampleRateHz * span⌋₊ := by
  unfold windowSamples at hw ⊢
  split_ifs at hw ⊢
  · exact absurd rfl hw
  · rfl

/-- What has to agree for two histories to settle to the same one. -/
theorem settle_congr (hw : k.windowSamples span ≠ 0) (hrate : g.lastSampleRateHz = k.lastSampleRateHz)
    (hcount : g.lastChannelCount = k.lastChannelCount) (htotal : g.ch0TotalAppended = k.ch0TotalAppended)
    (hhist : (g.trim (maxHistory (k.windowSamples span))).channelHistory =
      (k.trim (maxHistory (k.windowSamples span))).channelHistory)
    (hends : g.ch0FrameEnds.dropWhile (· ≤ (k.trim (maxHistory (k.windowSamples span))).absStart) =
      k.ch0FrameEnds.dropWhile (· ≤ (k.trim (maxHistory (k.windowSamples span))).absStart)) :
    g.settle span = k.settle span := by
  have hwindow : g.windowSamples span = k.windowSamples span := by
    simp only [windowSamples, hrate, hcount]
  have hstart : (g.trim (maxHistory (k.windowSamples span))).absStart =
      (k.trim (maxHistory (k.windowSamples span))).absStart := by
    rw [absStart, absStart, hhist]
    exact congrArg (· - _) htotal
  rw [settle_of_ne_zero hw, settle_of_ne_zero (hwindow.trans_ne hw), hwindow]
  refine History.ext hhist hrate hcount ?_ htotal
  simp only [prune, hstart]
  exact hends

theorem settle_settle : (h.settle span).settle span = h.settle span := by
  by_cases hw : h.windowSamples span = 0
  · rw [settle_of_zero hw, settle_of_zero hw]
  · have hhist : ((h.settle span).trim (maxHistory (h.windowSamples span))).channelHistory =
        (h.trim (maxHistory (h.windowSamples span))).channelHistory := by
      rw [settle_of_ne_zero hw, trim_channelHistory, trim_channelHistory, prune, trim_channelHistory, List.map_map]
      apply List.map_congr_left
      intro hist _
      have h := rtake_rtake_append (maxHistory (h.windowSamples span)) hist []
      simpa only [List.append_nil, Function.comp_apply] using h
    apply settle_congr hw (by simp) (by simp) (by simp) hhist
    rw [settle_of_ne_zero hw]
    have h := dropWhile_dropWhile_append
      (p := fun e => decide (e ≤ (h.trim (maxHistory (h.windowSamples span))).absStart)) (fun _ h => h) h.ch0FrameEnds []
    simpa only [List.append_nil, prune, trim] using h

/-- A change of rate leaves no trace of what was dropped before it. -/
theorem clear_settle : (h.settle span).clear = h.clear := by
  refine History.ext ?_ (by simp [clear]) (by simp [clear]) rfl rfl
  by_cases hw : h.windowSamples span = 0
  · rw [settle_of_zero hw]
  · rw [settle_of_ne_zero hw]
    simp only [clear, prune, trim, List.map_map]
    rfl

theorem noteRate_settle {rate : ℚ} (hchange : rate > 0 ∧ h.lastSampleRateHz > 0 ∧ rate ≠ h.lastSampleRateHz) :
    (h.settle span).noteRate rate = h.noteRate rate := by
  simp only [noteRate, if_pos hchange.1, lastSampleRateHz_settle, if_pos hchange.2, clear_settle]

/-- Without a change of rate, the rate stays. -/
theorem noteRate_eq {rate : ℚ} (hsame : rate > 0 → rate = h.lastSampleRateHz) : h.noteRate rate = h := by
  unfold noteRate
  split_ifs with hpos hchange
  · exact absurd (hsame hpos) hchange.2
  · rw [hsame hpos]
  · rfl

theorem noteChannels_channelHistory (h : History) {n : UInt32} :
    (h.noteChannels n).channelHistory =
      h.channelHistory.take n.toNat ++ List.replicate (n.toNat - h.lastChannelCount.toNat) [] := by
  unfold noteChannels
  split_ifs with hn
  · rfl
  · obtain rfl : n = h.lastChannelCount := not_not.mp hn
    rw [Nat.sub_self, List.replicate_zero, List.append_nil, List.take_of_length_le h.sized.le]

@[simp] theorem lastChannelCount_noteChannels {n : UInt32} : (h.noteChannels n).lastChannelCount = n := by
  unfold noteChannels
  split_ifs with hn
  · rfl
  · exact (not_not.mp hn).symm

@[simp] theorem lastSampleRateHz_noteChannels {n : UInt32} :
    (h.noteChannels n).lastSampleRateHz = h.lastSampleRateHz := by
  unfold noteChannels
  split_ifs <;> rfl

@[simp] theorem ch0TotalAppended_noteChannels {n : UInt32} :
    (h.noteChannels n).ch0TotalAppended = h.ch0TotalAppended := by
  unfold noteChannels
  split_ifs <;> rfl

@[simp] theorem ch0FrameEnds_noteChannels {n : UInt32} : (h.noteChannels n).ch0FrameEnds = h.ch0FrameEnds := by
  unfold noteChannels
  split_ifs <;> rfl

/-- The number of samples of channel 0. -/
def ch0Length (h : History) : ℕ := (h.channelHistory.headD []).length

theorem ch0Length_trim (h : History) (maxHistory : ℕ) :
    (h.trim maxHistory).ch0Length = min h.ch0Length maxHistory := by
  rw [ch0Length, trim_channelHistory, ch0Length]
  rcases h.channelHistory with _ | ⟨hist, _⟩
  · simp
  · exact length_rtake maxHistory hist

theorem ch0Length_noteChannels (h : History) (n : UInt32) : (h.noteChannels n).ch0Length ≤ h.ch0Length := by
  rw [ch0Length, noteChannels_channelHistory, ch0Length]
  rcases h.channelHistory with _ | ⟨hist, _⟩
  · rcases n.toNat - h.lastChannelCount.toNat with _ | m
    · simp
    · simp [List.replicate_succ]
  · rcases n.toNat with _ | m
    · simp
    · simp

theorem ch0Length_append (h : History) (frame : Frame ℚ) : (h.append frame).ch0Length ≤ h.ch0Length + frame.spc := by
  show ((h.channelHistory.mapIdx fun ch hist => hist ++ frame.channelData ch).headD []).length ≤ _
  unfold ch0Length
  rcases h.channelHistory with _ | ⟨hist, _⟩
  · simp
  · simp [List.mapIdx_cons]

/-- Trimming the histories before they are extended changes nothing once they are trimmed again. -/
theorem map_rtake_mapIdx (m : ℕ) (l : List (List Int16)) (d : ℕ → List Int16) :
    ((l.map fun hist => hist.rtake m).mapIdx fun ch hist => hist ++ d ch).map (fun hist => hist.rtake m) =
      (l.mapIdx fun ch hist => hist ++ d ch).map fun hist => hist.rtake m := by
  refine List.ext_getElem? ?_
  intro i
  simp only [List.getElem?_map, List.getElem?_mapIdx, Option.map_map]
  refine congrArg (fun f => Option.map f l[i]?) (funext ?_)
  intro hist
  exact rtake_rtake_append m hist (d i)

/-- Settling before the frame is appended changes nothing once it is done after it. -/
theorem settle_append (hw : h.windowSamples span ≠ 0) (hch : frame.channelCount ≠ 0) :
    (((h.settle span).noteChannels frame.channelCount).append frame).settle span =
      ((h.noteChannels frame.channelCount).append frame).settle span := by
  have hwindow : ((h.noteChannels frame.channelCount).append frame).windowSamples span = h.windowSamples span := by
    have hcount : h.lastChannelCount ≠ 0 := by
      intro h0
      exact hw (if_pos (.inr (.inl h0)))
    simp only [windowSamples, append, lastSampleRateHz_noteChannels, lastChannelCount_noteChannels, hch, hcount]
  refine settle_congr (hwindow.trans_ne hw) (by simp [append]) (by simp [append]) (by simp [append]) ?_ ?_
  · rw [trim_channelHistory, trim_channelHistory, hwindow]
    have hlist : ((h.settle span).noteChannels frame.channelCount).channelHistory =
        (h.noteChannels frame.channelCount).channelHistory.map fun hist =>
          hist.rtake (maxHistory (h.windowSamples span)) := by
      rw [noteChannels_channelHistory, noteChannels_channelHistory, List.map_append, List.map_take, List.map_replicate,
        lastChannelCount_settle, settle_of_ne_zero hw, prune, trim_channelHistory, List.rtake_nil]
    simp only [append, hlist]
    exact map_rtake_mapIdx _ _ _
  · -- the start of the history only moves on
    have hstart : (h.trim (maxHistory (h.windowSamples span))).absStart ≤
        (((h.noteChannels frame.channelCount).append frame).trim (maxHistory (h.windowSamples span))).absStart := by
      have htrim := ch0Length_trim h (maxHistory (h.windowSamples span))
      have htrim' := ch0Length_trim ((h.noteChannels frame.channelCount).append frame) (maxHistory (h.windowSamples span))
      have happend := ch0Length_append (h.noteChannels frame.channelCount) frame
      have hnote := ch0Length_noteChannels h frame.channelCount
      have htotal :
          (((h.noteChannels frame.channelCount).append frame).trim (maxHistory (h.windowSamples span))).ch0TotalAppended =
            h.ch0TotalAppended + frame.spc := by
        simp [trim, append]
      have habs : ∀ g : History, g.absStart = g.ch0TotalAppended - g.ch0Length := fun _ => rfl
      rw [habs, habs, htotal, htrim, htrim']
      have htotal' : (h.trim (maxHistory (h.windowSamples span))).ch0TotalAppended = h.ch0TotalAppended := rfl
      omega
    rw [hwindow]
    have hends : (((h.settle span).noteChannels frame.channelCount).append frame).ch0FrameEnds =
        h.ch0FrameEnds.dropWhile (· ≤ (h.trim (maxHistory (h.windowSamples span))).absStart) ++
          [h.ch0TotalAppended + frame.spc] := by
      simp only [append, ch0FrameEnds_noteChannels, ch0TotalAppended_noteChannels, ch0TotalAppended_settle]
      rw [settle_of_ne_zero hw]
      rfl
    have hends' : ((h.noteChannels frame.channelCount).append frame).ch0FrameEnds =
        h.ch0FrameEnds ++ [h.ch0TotalAppended + frame.spc] := by
      simp [append]
    rw [hends, hends']
    exact dropWhile_dropWhile_append
      (fun e he => decide_eq_true (le_trans (of_decide_eq_true he) hstart)) _ _

/-- One frame: settling before it changes nothing once it is done after it. -/
theorem settle_accumulate (h : History) (frame : Frame ℚ) :
    ((h.settle span).accumulate frame).settle span = (h.accumulate frame).settle span := by
  by_cases hw : h.windowSamples span = 0
  · rw [settle_of_zero hw]
  by_cases hskip : frame.channelCount = 0 ∨ frame.samplesPerChannel = 0
  · rw [accumulate, accumulate, if_pos hskip, if_pos hskip, settle_settle]
  rw [accumulate, accumulate, if_neg hskip, if_neg hskip]
  by_cases hchange : frame.sampleRateHz > 0 ∧ h.lastSampleRateHz > 0 ∧ frame.sampleRateHz ≠ h.lastSampleRateHz
  · rw [noteRate_settle hchange]
  · have hrate : h.lastSampleRateHz > 0 := by
      by_contra hle
      exact hw (if_pos (.inl (not_lt.mp hle)))
    have hsame : frame.sampleRateHz > 0 → frame.sampleRateHz = h.lastSampleRateHz := by
      intro hpos
      by_contra hne
      exact hchange ⟨hpos, hrate, hne⟩
    rw [noteRate_eq hsame, noteRate_eq (by rwa [lastSampleRateHz_settle])]
    exact settle_append hw fun h0 => hskip (.inl h0)

/-- **The clean-ups of a call can be put off.** -/
theorem deferrable_settle (span : ℚ) : Deferrable accumulate fun h => h.settle span :=
  ⟨fun _ => settle_settle, settle_accumulate⟩

end Deferred

end History

/-! ## What the display shows -/

namespace History

section Shown

variable {h : History} {target : UInt32} {window : ℕ}

/-- `min_available` is the length of the shortest history. -/
theorem isLeast_minAvailable (hne : h.channelHistory ≠ []) :
    IsLeast {n | ∃ hist ∈ h.channelHistory, hist.length = n} h.minAvailable := by
  obtain ⟨first, rest, hcons⟩ := List.exists_cons_of_ne_nil hne
  have hfold : ∀ (l : List (List Int16)) (m : ℕ),
      IsLeast {n | n = m ∨ ∃ hist ∈ l, hist.length = n} (l.foldl (fun m hist => min m hist.length) m) := by
    intro l
    induction l with
    | nil => simp [IsLeast]
    | cons hist l ih =>
      intro m
      obtain ⟨hmem, hle⟩ := ih (min m hist.length)
      rw [List.foldl_cons]
      have hmin := hle (.inl rfl)
      refine ⟨?_, ?_⟩
      · rcases hmem with hmem | ⟨x, hx, hlen⟩
        · rcases min_choice m hist.length with hm | hm
          · exact .inl (hmem.trans hm)
          · exact .inr ⟨hist, by simp, (hmem.trans hm).symm⟩
        · exact .inr ⟨x, by simp [hx], hlen⟩
      · rintro n (rfl | ⟨x, hx, rfl⟩)
        · exact hmin.trans (min_le_left _ _)
        · rcases List.mem_cons.mp hx with rfl | hx
          · exact hmin.trans (min_le_right _ _)
          · exact hle (.inr ⟨x, hx, rfl⟩)
  have hleast := hfold rest first.length
  rw [minAvailable, hcons, List.tail_cons, List.headD_cons]
  convert hleast using 1
  ext n
  simp [eq_comm]

/-- A display shows no more samples of a channel than it aims at. -/
theorem length_decimated_le (target take : ℕ) (hist : List Int16) : (decimated target take hist).length ≤ target := by
  unfold decimated
  dsimp only
  split_ifs with hlong
  · rw [Decimator.decimate, Decimator.length_minmax]
    split_ifs <;> omega
  · exact not_lt.mp hlong

/-- How many samples are shown of a channel depends on the window alone. -/
theorem length_decimated_congr {take : ℕ} {hist hist' : List Int16} (hlen : take ≤ hist.length)
    (hlen' : take ≤ hist'.length) (target : ℕ) :
    (decimated target take hist).length = (decimated target take hist').length := by
  have hdrop : (hist.drop (hist.length - take)).length = (hist'.drop (hist'.length - take)).length := by
    rw [List.length_drop, List.length_drop]
    omega
  unfold decimated
  dsimp only
  by_cases hlong : (hist'.drop (hist'.length - take)).length > target
  · rw [if_pos hlong, if_pos (by rwa [hdrop])]
    exact Decimator.length_decimate_congr hdrop _ _
  · rw [if_neg hlong, if_neg (by rwa [hdrop])]
    exact hdrop

/-- **What a call puts out**: channel by channel, the last samples of the history, as many of each. -/
theorem display_channel (hne : h.channelHistory ≠ []) (hok : (h.display target window).1 = .ok) :
    ∃ shown, (h.display target window).2 = [shown] ∧ shown.channelCount = h.lastChannelCount ∧
      shown.sampleRateHz = h.lastSampleRateHz ∧ shown.dataCount = shown.channels * shown.spc ∧
      ∀ ch (hch : ch < h.channelHistory.length),
        shown.channelData ch = decimated target.toNat (min h.minAvailable window) h.channelHistory[ch] := by
  set take := min h.minAvailable window with htake
  have hroom : ∀ hist ∈ h.channelHistory, take ≤ hist.length := fun hist hhist =>
    (min_le_left _ _).trans ((isLeast_minAvailable hne).2 ⟨hist, hhist, rfl⟩)
  obtain ⟨first, rest, hcons⟩ := List.exists_cons_of_ne_nil hne
  have hfirst : first ∈ h.channelHistory := by simp [hcons]
  set chDecimated := h.channelHistory.map (decimated target.toNat take) with hdecimated
  have hhead : chDecimated.headD [] = decimated target.toNat take first := by
    rw [hdecimated, hcons, List.map_cons, List.headD_cons]
  have hcount : (UInt32.ofNat (chDecimated.headD []).length).toNat = (decimated target.toNat take first).length := by
    have hle := length_decimated_le target.toNat take first
    have hlt := target.toNat_lt
    rw [hhead, UInt32.toNat_ofNat', Nat.mod_eq_of_lt (by omega)]
  have hsame : ∀ r ∈ chDecimated, r.length = (UInt32.ofNat (chDecimated.headD []).length).toNat := by
    intro r hr
    obtain ⟨hist, hhist, rfl⟩ := List.mem_map.mp hr
    rw [hcount]
    exact length_decimated_congr (hroom hist hhist) (hroom first hfirst) _
  have hchannels : h.lastChannelCount.toNat = chDecimated.length := by
    rw [hdecimated, List.length_map, h.sized]
  unfold display at hok ⊢
  simp only [← htake, ← hdecimated] at hok ⊢
  split_ifs at hok ⊢ with hzero
  have hdata := concatChannels_flatten hsame hchannels
  refine ⟨_, rfl, rfl, rfl, ?_, ?_⟩
  · apply (congrArg List.length hdata).trans
    rw [length_flatten_of_forall hsame, ← hchannels]
    rfl
  · intro ch hch
    refine Eq.trans (channelData_of_flatten hsame ?_ ?_ (by rwa [hdecimated, List.length_map])) ?_
    · exact hdata
    · exact hchannels
    · simp [hdecimated]

end Shown

end History

/-! ## Batching -/

namespace VisualizationStage

section Batching

variable (s : VisualizationStage)

theorem windowSamples_of_pos {h : History} (hnone : ¬(h.lastSampleRateHz ≤ 0 ∨ h.lastChannelCount = 0))
    (hspan : ¬s.visibleTimeSpan ≤ 0) :
    h.windowSamples s.visibleTimeSpan = ⌊h.lastSampleRateHz * s.visibleTimeSpan⌋₊ := by
  apply if_neg
  intro h
  rcases h with hrate | hcount | h
  · exact hnone (.inl hrate)
  · exact hnone (.inr hcount)
  · exact hspan h

theorem finish_of_zero {h : History} (hw : h.windowSamples s.visibleTimeSpan = 0) :
    s.finish h = (.noData, [], { s with history := h, lastCoverage := 0 }) := by
  by_cases hnone : h.lastSampleRateHz ≤ 0 ∨ h.lastChannelCount = 0
  · rw [finish, if_pos hnone]
  by_cases hspan : s.visibleTimeSpan ≤ 0
  · rw [finish, if_neg hnone, if_pos hspan]
  · rw [s.windowSamples_of_pos hnone hspan] at hw
    rw [finish, if_neg hnone, if_neg hspan]
    exact if_pos hw

/-- With a window, a call puts out what the settled history has. -/
theorem finish_of_ne_zero {h : History} (hw : h.windowSamples s.visibleTimeSpan ≠ 0) :
    s.finish h = s.output (h.settle s.visibleTimeSpan) (h.windowSamples s.visibleTimeSpan) := by
  have hnone : ¬(h.lastSampleRateHz ≤ 0 ∨ h.lastChannelCount = 0) := by
    rintro (hrate | hcount)
    · exact hw (if_pos (.inl hrate))
    · exact hw (if_pos (.inr (.inl hcount)))
  have hspan : ¬s.visibleTimeSpan ≤ 0 := fun h => hw (if_pos (.inr (.inr h)))
  rw [History.settle_of_ne_zero hw]
  rw [s.windowSamples_of_pos hnone hspan] at hw ⊢
  rw [finish, if_neg hnone, if_neg hspan]
  exact if_neg hw

/-- A call goes by the settled history. -/
theorem finish_settle (h : History) : s.finish (h.settle s.visibleTimeSpan) = s.finish h := by
  by_cases hw : h.windowSamples s.visibleTimeSpan = 0
  · rw [History.settle_of_zero hw]
  · rw [s.finish_of_ne_zero hw, s.finish_of_ne_zero (by rwa [History.windowSamples_settle]), History.settle_settle,
      History.windowSamples_settle]

/-- The stage after a call: its settings, and the settled history. -/
theorem finish_state (h : History) :
    ∃ coverage, (s.finish h).2.2 = { s with history := h.settle s.visibleTimeSpan, lastCoverage := coverage } := by
  by_cases hw : h.windowSamples s.visibleTimeSpan = 0
  · exact ⟨0, by rw [s.finish_of_zero hw, History.settle_of_zero hw]⟩
  · rw [s.finish_of_ne_zero hw, output]
    split_ifs
    · exact ⟨0, rfl⟩
    · exact ⟨_, rfl⟩

theorem run_state (batches : List (List (Frame ℚ))) :
    ∃ coverage, s.run batches =
      { s with
        history := batches.foldl (fun h b => (b.foldl History.accumulate h).settle s.visibleTimeSpan) s.history
        lastCoverage := coverage } := by
  induction batches generalizing s with
  | nil => exact ⟨s.lastCoverage, rfl⟩
  | cons batch batches ih =>
    obtain ⟨c, hprocess⟩ := s.finish_state (batch.foldl History.accumulate s.history)
    obtain ⟨c', hrun⟩ := ih (s.process batch).2.2
    refine ⟨c', ?_⟩
    rw [run, List.foldl_cons, ← run, hrun, process, hprocess]
    rfl

/-- A call after any number of calls does what one call with all the frames does. -/
theorem process_run (batches : List (List (Frame ℚ))) (batch : List (Frame ℚ)) :
    (s.run batches).process batch = s.process (batches.flatten ++ batch) := by
  obtain ⟨c, hrun⟩ := s.run_state batches
  have hfinish : ∀ (g h : History), ({ s with history := g, lastCoverage := c } : VisualizationStage).finish h =
      s.finish h := fun _ _ => rfl
  rw [hrun, process, hfinish, process, ← s.finish_settle, ← s.finish_settle (List.foldl _ _ (_ ++ _))]
  exact congrArg _ ((History.deferrable_settle s.visibleTimeSpan).batches batches batch s.history)

end Batching

end VisualizationStage

end Grebe
