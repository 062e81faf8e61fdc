import Grebe.Lib.Deferred
import Grebe.Lib.RollingWindow
import Grebe.ProfileStats

/-!
# Grebe.Benchmark — the telemetry of the viewer

The main loop tells `Benchmark` when a frame begins and how long its phases took; each number goes into a rolling average
of its own.  Times are exact rationals, in milliseconds, and come with the calls.

* `RollingAvg.avg_foldl`: a rolling average is the mean of the last 60 values.
* `snapshot_run`: the snapshot after any calls.
* `fps_run`: frames per second, by the clock.
* `row_run`: the rows of the log.
-/

namespace Grebe

open Lib ProfileRunner

/-! ## Rolling averages -/

def AVG_WINDOW : ℕ := 60

structure RollingAvg where
  values : List ℚ := List.replicate AVG_WINDOW 0
  index : ℕ := 0
  count : ℕ := 0
  avg : ℚ := 0

namespace RollingAvg

def push (r : RollingAvg) (val : ℚ) : RollingAvg :=
  let values := r.values.set r.index val
  let count := if r.count < AVG_WINDOW then r.count + 1 else r.count
  let sum := (List.range count).foldl (fun sum i => sum + values.getD i 0) 0
  { values := values, index := (r.index + 1) % AVG_WINDOW, count := count, avg := sum / count }

/-- The mean of the last 60 values. -/
def meanOfLast (vals : List ℚ) : ℚ := (vals.rtake AVG_WINDOW).sum / (vals.rtake AVG_WINDOW).length

def window (r : RollingAvg) : RollingWindow ℚ := ⟨r.values, r.index, r.count⟩

/-- The slots hold the last of these values, and the average is theirs. -/
structure Averages (r : RollingAvg) (vals : List ℚ) : Prop where
  keeps : r.window.Keeps 0 AVG_WINDOW vals
  avg_eq : r.avg = meanOfLast vals

variable {r : RollingAvg} {vals : List ℚ}

theorem sum_range_getD (values : List ℚ) {n : ℕ} (hn : n ≤ values.length) :
    (List.range n).foldl (fun sum i => sum + values.getD i 0) 0 = (values.take n).sum := by
  have hmap : values.take n = (List.range n).map fun i => values.getD i 0 := by
    apply List.ext_getElem (by simpa using hn)
    intro i hi _
    have hi' : i < values.length := by
      rw [List.length_take] at hi
      omega
    simp [hi']
  rw [hmap, List.sum_eq_foldl, List.foldl_map]

theorem averages_empty : ({} : RollingAvg).Averages [] := ⟨.empty 0 AVG_WINDOW, by simp [meanOfLast]⟩

theorem window_push (hlen : r.values.length = AVG_WINDOW) (val : ℚ) : (r.push val).window = r.window.push val := by
  simp only [push, window, RollingWindow.push, hlen]

/-- One step: the slots in use are the last values in some order, and so is their sum. -/
theorem Averages.push (h : r.Averages vals) (val : ℚ) : (r.push val).Averages (vals ++ [val]) := by
  have hwindow := window_push h.keeps.length val
  have hkeeps : (r.push val).window.Keeps 0 AVG_WINDOW (vals ++ [val]) := by
    rw [hwindow]
    exact h.keeps.push (by decide) val
  refine ⟨hkeeps, ?_⟩
  have hperm := hkeeps.inUse_perm
  have hcount : (r.push val).count ≤ (r.push val).values.length := by
    have hle : (r.push val).count ≤ AVG_WINDOW := hkeeps.count_eq.trans_le (min_le_right ..)
    exact hle.trans_eq hkeeps.length.symm
  have hsum := sum_range_getD (r.push val).values hcount
  have hlength : (r.push val).count = ((vals ++ [val]).rtake AVG_WINDOW).length := by
    rw [← hperm.length_eq]
    exact (List.length_take_of_le hcount).symm
  rw [meanOfLast, ← hperm.sum_eq, ← hlength]
  exact congrArg (· / _) hsum

theorem Averages.foldl (h : r.Averages vals) (more : List ℚ) : (more.foldl RollingAvg.push r).Averages (vals ++ more) := by
  induction more generalizing r vals with
  | nil => rwa [List.append_nil]
  | cons val more ih =>
    rw [List.append_cons]
    exact ih (h.push val)

/-- **The rolling average is the mean of the last 60 values.** -/
theorem avg_foldl (vals : List ℚ) : (vals.foldl RollingAvg.push {}).avg = meanOfLast vals :=
  (averages_empty.foldl vals).avg_eq

theorem meanOfLast_le {vals : List ℚ} {c : ℚ} (hc : 0 ≤ c) (h : ∀ x ∈ vals, x ≤ c) : meanOfLast vals ≤ c := by
  apply div_le_of_le_mul₀ (Nat.cast_nonneg _) hc
  rw [mul_comm, ← nsmul_eq_mul]
  exact List.sum_le_card_nsmul _ _ fun x hx => h x (List.mem_of_mem_drop hx)

end RollingAvg

/-! ## The telemetry -/

section Telemetry

/-- `..._raw_`, `..._rolling_` and `..._avg_` of one phase. -/
structure Metric where
  raw : ℚ := 0
  rolling : RollingAvg := {}
  avg : ℚ := 0

def Metric.set (m : Metric) (val : ℚ) : Metric :=
  let rolling := m.rolling.push val
  { raw := val, rolling := rolling, avg := rolling.avg }

/-- `frame_...` and `fps_`. -/
structure FrameTimes where
  start : ℚ := 0
  started : Bool := false
  timeMs : ℚ := 0
  timeAvg : ℚ := 0
  fps : ℚ := 0
  rolling : RollingAvg := {}

/-- What `frame_begin` does to them. -/
def FrameTimes.begin (f : FrameTimes) (now : ℚ) : FrameTimes :=
  let f :=
    if f.started then
      let timeMs := now - f.start
      let rolling := f.rolling.push timeMs
      { f with timeMs := timeMs, rolling := rolling, timeAvg := rolling.avg, fps := perSecond rolling.avg }
    else f
  { f with start := now, started := true }

/-- What `write_log_row` writes. -/
structure LogRow where
  logFrame : UInt64
  timeS : ℚ
  frameTimeMs : ℚ
  fps : ℚ
  drainRaw : ℚ
  decimateRaw : ℚ
  uploadRaw : ℚ
  swapRaw : ℚ
  renderRaw : ℚ
  samplesRaw : ℚ
  vtxRaw : ℚ
  decimateRatioRaw : ℚ
  dataRate : ℚ

/-- An open `std::ofstream`: the rows in it, and the failbit. -/
structure LogFile where
  rows : List LogRow := []
  failed : Bool := false

structure Benchmark where
  frame : FrameTimes := {}
  drain : Metric := {}
  upload : Metric := {}
  swap : Metric := {}
  render : Metric := {}
  samples : Metric := {}
  vtx : Metric := {}
  decimate : Metric := {}
  decimateRatio : ℚ := 1
  dataRate : ℚ := 0
  logFile : Option LogFile := none
  logFrame : UInt64 := 0
  logStart : ℚ := 0

/-- `grebe::TelemetrySnapshot` -/
structure TelemetrySnapshot where
  fps : ℚ := 0
  frameTimeMs : ℚ := 0
  drainTimeMs : ℚ := 0
  uploadTimeMs : ℚ := 0
  swapTimeMs : ℚ := 0
  renderTimeMs : ℚ := 0
  decimationTimeMs : ℚ := 0
  decimationRatio : ℚ := 1
  dataRate : ℚ := 0
  samplesPerFrame : UInt32 := 0
  vertexCount : UInt32 := 0

namespace Benchmark

variable (b : Benchmark)

def frameTimeMs : ℚ := b.frame.timeMs

def frameBegin (now : ℚ) : Benchmark := { b with frame := b.frame.begin now }

def setDrainTime (ms : ℚ) : Benchmark := { b with drain := b.drain.set ms }

def setUploadTime (ms : ℚ) : Benchmark := { b with upload := b.upload.set ms }

def setSwapTime (ms : ℚ) : Benchmark := { b with swap := b.swap.set ms }

def setRenderTime (ms : ℚ) : Benchmark := { b with render := b.render.set ms }

def setSamplesPerFrame (n : UInt32) : Benchmark := { b with samples := b.samples.set n.toNat }

def setVertexCount (n : UInt32) : Benchmark := { b with vtx := b.vtx.set n.toNat }

def setDecimationTime (ms : ℚ) : Benchmark := { b with decimate := b.decimate.set ms }

def setDecimationRatio (ratio : ℚ) : Benchmark := { b with decimateRatio := ratio }

def setDataRate (samplesPerSec : ℚ) : Benchmark := { b with dataRate := samplesPerSec }

/-- `static_cast<uint32_t>` of a `double` that is not negative. -/
def toUInt32 (x : ℚ) : UInt32 := UInt32.ofNat ⌊x⌋₊

def snapshot : TelemetrySnapshot where
  fps := b.frame.fps
  frameTimeMs := b.frame.timeAvg
  drainTimeMs := b.drain.avg
  uploadTimeMs := b.upload.avg
  swapTimeMs := b.swap.avg
  renderTimeMs := b.render.avg
  decimationTimeMs := b.decimate.avg
  decimationRatio := b.decimateRatio
  dataRate := b.dataRate
  samplesPerFrame := toUInt32 b.samples.avg
  vertexCount := toUInt32 b.vtx.avg

/-- `start_logging`; `opens`: the file can be opened.  An `open` of an open file only sets the failbit. -/
def startLogging (opens : Bool) (now : ℚ) : Benchmark :=
  match b.logFile with
  | some file => { b with logFile := some { file with failed := true }, logFrame := 0, logStart := now }
  | none => if opens then { b with logFile := some {}, logFrame := 0, logStart := now } else b

def stopLogging : Benchmark := { b with logFile := none }

/-- The row of this moment. -/
def logRow (now : ℚ) : LogRow where
  logFrame := b.logFrame
  timeS := (now - b.logStart) / 1000
  frameTimeMs := b.frame.timeMs
  fps := b.frame.fps
  drainRaw := b.drain.raw
  decimateRaw := b.decimate.raw
  uploadRaw := b.upload.raw
  swapRaw := b.swap.raw
  renderRaw := b.render.raw
  samplesRaw := b.samples.raw
  vtxRaw := b.vtx.raw
  decimateRatioRaw := b.decimateRatio
  dataRate := b.dataRate

def writeLogRow (file : LogFile) (now : ℚ) : Benchmark :=
  { b with
    logFile := some (if file.failed then file else { file with rows := file.rows ++ [b.logRow now] })
    logFrame := b.logFrame + 1 }

def frameEnd (now : ℚ) : Benchmark := b.logFile.elim b fun file => b.writeLogRow file now

/-- A call, with its arguments and the clock. -/
inductive Call
  | frameBegin (now : ℚ)
  | frameEnd (now : ℚ)
  | setDrainTime (ms : ℚ)
  | setUploadTime (ms : ℚ)
  | setSwapTime (ms : ℚ)
  | setRenderTime (ms : ℚ)
  | setSamplesPerFrame (n : UInt32)
  | setVertexCount (n : UInt32)
  | setDecimationTime (ms : ℚ)
  | setDecimationRatio (ratio : ℚ)
  | setDataRate (samplesPerSec : ℚ)
  | startLogging (opens : Bool) (now : ℚ)
  | stopLogging

def call : Call → Benchmark
  | .frameBegin now => b.frameBegin now
  | .frameEnd now => b.frameEnd now
  | .setDrainTime ms => b.setDrainTime ms
  | .setUploadTime ms => b.setUploadTime ms
  | .setSwapTime ms => b.setSwapTime ms
  | .setRenderTime ms => b.setRenderTime ms
  | .setSamplesPerFrame n => b.setSamplesPerFrame n
  | .setVertexCount n => b.setVertexCount n
  | .setDecimationTime ms => b.setDecimationTime ms
  | .setDecimationRatio ratio => b.setDecimationRatio ratio
  | .setDataRate samplesPerSec => b.setDataRate samplesPerSec
  | .startLogging opens now => b.startLogging opens now
  | .stopLogging => b.stopLogging

def run (calls : List Call) : Benchmark := calls.foldl call {}

end Benchmark

end Telemetry

/-! ## After any calls -/

namespace Benchmark

section Calls

/-- The phases with a rolling average. -/
inductive Phase
  | drain
  | upload
  | swap
  | render
  | samples
  | vtx
  | decimate

def metric (b : Benchmark) : Phase → Metric
  | .drain => b.drain
  | .upload => b.upload
  | .swap => b.swap
  | .render => b.render
  | .samples => b.samples
  | .vtx => b.vtx
  | .decimate => b.decimate

/-- What a call tells about a phase. -/
def Call.value? : Phase → Call → Option ℚ
  | .drain, .setDrainTime ms => some ms
  | .upload, .setUploadTime ms => some ms
  | .swap, .setSwapTime ms => some ms
  | .render, .setRenderTime ms => some ms
  | .samples, .setSamplesPerFrame n => some n.toNat
  | .vtx, .setVertexCount n => some n.toNat
  | .decimate, .setDecimationTime ms => some ms
  | _, _ => none

def Call.begin? : Call → Option ℚ
  | .frameBegin now => some now
  | _ => none

def Call.ratio? : Call → Option ℚ
  | .setDecimationRatio ratio => some ratio
  | _ => none

def Call.rate? : Call → Option ℚ
  | .setDataRate samplesPerSec => some samplesPerSec
  | _ => none

/-- The values of a phase, in the order of the calls. -/
def values (p : Phase) (calls : List Call) : List ℚ := calls.filterMap (Call.value? p)

/-- The times at which a frame began. -/
def begins (calls : List Call) : List ℚ := calls.filterMap Call.begin?

variable {b : Benchmark} {calls : List Call}

/-- What only some of the calls change. -/
theorem run_eq_foldl {γ δ : Type} (get : Benchmark → γ) (f : Call → Option δ) (upd : γ → δ → γ)
    (hstep : ∀ b c, get (call b c) = (f c).elim (get b) (upd (get b))) (calls : List Call) :
    get (run calls) = (calls.filterMap f).foldl upd (get {}) := by
  induction calls using List.reverseRecOn with
  | nil => rfl
  | append_singleton calls c ih =>
    have hrun : run (calls ++ [c]) = call (run calls) c := by rw [run, List.foldl_append]; rfl
    rw [hrun, hstep, List.filterMap_append, List.foldl_append, ih]
    cases hc : f c <;> simp [hc]

theorem foldl_latest {γ : Type} (a : γ) (l : List γ) : l.foldl (fun _ x => x) a = l.getLast?.getD a := by
  induction l using List.reverseRecOn with
  | nil => rfl
  | append_singleton l x => simp

/-- Logging leaves the numbers alone. -/
theorem startLogging_eq (b : Benchmark) (opens : Bool) (now : ℚ) : ∃ file frame start,
    b.startLogging opens now = { b with logFile := file, logFrame := frame, logStart := start } := by
  unfold startLogging
  split
  · exact ⟨_, _, _, rfl⟩
  · split
    · exact ⟨_, _, _, rfl⟩
    · exact ⟨_, _, _, rfl⟩

theorem frameEnd_eq (b : Benchmark) (now : ℚ) : ∃ file frame,
    b.frameEnd now = { b with logFile := file, logFrame := frame } := by
  unfold frameEnd
  cases b.logFile with
  | none => exact ⟨_, _, rfl⟩
  | some file => exact ⟨_, _, rfl⟩

theorem metric_call (p : Phase) (b : Benchmark) (c : Call) :
    (call b c).metric p = (c.value? p).elim (b.metric p) (b.metric p).set := by
  cases c with
  | startLogging opens now =>
    obtain ⟨_, _, _, h⟩ := startLogging_eq b opens now
    rw [call, h]
    cases p <;> rfl
  | frameEnd now =>
    obtain ⟨_, _, h⟩ := frameEnd_eq b now
    rw [call, h]
    cases p <;> rfl
  | _ => cases p <;> rfl

/-- A phase follows its own calls. -/
theorem metric_run (p : Phase) (calls : List Call) : (run calls).metric p = (values p calls).foldl Metric.set {} := by
  have h := run_eq_foldl (fun b => b.metric p) (Call.value? p) Metric.set (metric_call p) calls
  cases p <;> exact h

theorem avg_foldl_set (vals : List ℚ) : (vals.foldl Metric.set {}).avg = RollingAvg.meanOfLast vals := by
  have hrolling : ∀ (vals : List ℚ) (m : Metric), m.avg = m.rolling.avg →
      (vals.foldl Metric.set m).avg = (vals.foldl RollingAvg.push m.rolling).avg := by
    intro vals
    induction vals with
    | nil => exact fun m h => h
    | cons val vals ih => exact fun m _ => ih (m.set val) rfl
  rw [hrolling vals {} rfl, RollingAvg.avg_foldl]

theorem frame_call (b : Benchmark) (c : Call) :
    (call b c).frame = c.begin?.elim b.frame b.frame.begin := by
  cases c with
  | startLogging opens now =>
    obtain ⟨_, _, _, h⟩ := startLogging_eq b opens now
    rw [call, h]
    rfl
  | frameEnd now =>
    obtain ⟨_, _, h⟩ := frameEnd_eq b now
    rw [call, h]
    rfl
  | _ => rfl

theorem decimateRatio_call (b : Benchmark) (c : Call) :
    (call b c).decimateRatio = c.ratio?.elim b.decimateRatio fun ratio => ratio := by
  cases c with
  | startLogging opens now =>
    obtain ⟨_, _, _, h⟩ := startLogging_eq b opens now
    rw [call, h]
    rfl
  | frameEnd now =>
    obtain ⟨_, _, h⟩ := frameEnd_eq b now
    rw [call, h]
    rfl
  | _ => rfl

theorem dataRate_call (b : Benchmark) (c : Call) :
    (call b c).dataRate = c.rate?.elim b.dataRate fun rate => rate := by
  cases c with
  | startLogging opens now =>
    obtain ⟨_, _, _, h⟩ := startLogging_eq b opens now
    rw [call, h]
    rfl
  | frameEnd now =>
    obtain ⟨_, _, h⟩ := frameEnd_eq b now
    rw [call, h]
    rfl
  | _ => rfl

/-- The frame times after frames that began at these times. -/
structure FrameTimes.Follows (f : FrameTimes) (ts : List ℚ) : Prop where
  start : f.start = ts.getLast?.getD 0
  started : f.started = ts.getLast?.isSome
  timeMs : f.timeMs = (differences ts).getLast?.getD 0
  timeAvg : f.timeAvg = f.rolling.avg
  fps : f.fps = perSecond f.rolling.avg
  rolling : f.rolling = (differences ts).foldl RollingAvg.push {}

theorem FrameTimes.Follows.begin {f : FrameTimes} {ts : List ℚ} (h : FrameTimes.Follows f ts) (now : ℚ) :
    FrameTimes.Follows (f.begin now) (ts ++ [now]) := by
  have hlast : (ts ++ [now]).getLast? = some now := List.getLast?_concat ..
  have hstarted := h.started
  have hstart := h.start
  cases hprev : ts.getLast? with
  | none =>
    -- the first frame has no frame before it
    obtain rfl : ts = [] := List.getLast?_eq_none_iff.mp hprev
    have hbegin : f.begin now = { f with start := now, started := true } := by
      rw [FrameTimes.begin, if_neg (by simp [hstarted])]
    rw [hbegin]
    exact ⟨rfl, rfl, h.timeMs, h.timeAvg, h.fps, h.rolling⟩
  | some t =>
    have hdiff := differences_concat hprev now
    rw [hprev] at hstarted hstart
    have hstart' : f.start = t := hstart
    have hbegin : f.begin now =
        { start := now, started := true, timeMs := now - t, timeAvg := (f.rolling.push (now - t)).avg
          fps := perSecond (f.rolling.push (now - t)).avg, rolling := f.rolling.push (now - t) } := by
      simp only [FrameTimes.begin, hstarted, hstart', Option.isSome_some, if_true]
    rw [hbegin]
    refine ⟨?_, ?_, ?_, rfl, rfl, ?_⟩
    · rw [hlast]; rfl
    · rw [hlast]; rfl
    · rw [hdiff, List.getLast?_concat]; rfl
    · rw [hdiff, List.foldl_append, ← h.rolling]; rfl

theorem FrameTimes.follows_foldl (ts : List ℚ) : FrameTimes.Follows (ts.foldl FrameTimes.begin {}) ts := by
  induction ts using List.reverseRecOn with
  | nil => exact ⟨rfl, rfl, rfl, rfl, rfl, rfl⟩
  | append_singleton ts now ih =>
    rw [List.foldl_append]
    exact ih.begin now

/-- The time from the sixtieth frame before the last one on, for one frame. -/
def meanFrameTime (ts : List ℚ) : ℚ :=
  (ts.getLast?.getD 0 - (ts[ts.length - 1 - AVG_WINDOW]?).getD 0) / (min (ts.length - 1) AVG_WINDOW : ℕ)

/-- The frame times of the window fill the time from its first frame to its last. -/
theorem meanOfLast_differences (ts : List ℚ) : RollingAvg.meanOfLast (differences ts) = meanFrameTime ts := by
  cases hlast : ts.getLast? with
  | none =>
    obtain rfl : ts = [] := List.getLast?_eq_none_iff.mp hlast
    simp [RollingAvg.meanOfLast, meanFrameTime, differences]
  | some t =>
    have hpos : 0 < ts.length := by
      apply List.length_pos_of_ne_nil
      rintro rfl
      cases hlast
    obtain ⟨s, hs⟩ : ∃ s, ts[ts.length - 1 - AVG_WINDOW]? = some s :=
      ⟨_, List.getElem?_eq_getElem (by omega)⟩
    have hsum := sum_drop_differences hs hlast
    have hlength := length_rtake AVG_WINDOW (differences ts)
    rw [length_differences] at hlength
    rw [RollingAvg.meanOfLast, meanFrameTime, hlength, hlast, hs, List.rtake, length_differences, hsum]
    rfl

/-- A mean of counts is a count. -/
theorem toNat_toUInt32_mean {vals : List ℚ} (h : ∀ x ∈ vals, 0 ≤ x ∧ x ≤ 4294967295) :
    (toUInt32 (RollingAvg.meanOfLast vals)).toNat = ⌊RollingAvg.meanOfLast vals⌋₊ := by
  have hle := RollingAvg.meanOfLast_le (by norm_num) fun x hx => (h x hx).2
  have hfloor : ⌊RollingAvg.meanOfLast vals⌋₊ ≤ 4294967295 := Nat.floor_le_of_le hle
  rw [toUInt32, UInt32.toNat_ofNat', Nat.mod_eq_of_lt (by omega)]

theorem count_mem_values {p : Phase} (hp : p = .samples ∨ p = .vtx) {calls : List Call} {x : ℚ}
    (hx : x ∈ values p calls) : 0 ≤ x ∧ x ≤ 4294967295 := by
  obtain ⟨c, -, hc⟩ := List.mem_filterMap.mp hx
  have hcount (n : UInt32) : (0 : ℚ) ≤ n.toNat ∧ (n.toNat : ℚ) ≤ 4294967295 := by
    have := n.toNat_lt
    exact ⟨Nat.cast_nonneg _, by exact_mod_cast (by omega : n.toNat ≤ 4294967295)⟩
  obtain rfl | rfl := hp
  all_goals
    cases c with
    | setSamplesPerFrame n => cases hc <;> exact hcount n
    | setVertexCount n => cases hc <;> exact hcount n
    | _ => cases hc

theorem follows_run (calls : List Call) : FrameTimes.Follows (run calls).frame (begins calls) := by
  rw [run_eq_foldl Benchmark.frame Call.begin? FrameTimes.begin frame_call calls]
  exact FrameTimes.follows_foldl (begins calls)

theorem avg_run (calls : List Call) : (run calls).frame.rolling.avg = meanFrameTime (begins calls) := by
  rw [(follows_run calls).rolling, RollingAvg.avg_foldl, meanOfLast_differences]

theorem decimateRatio_run (calls : List Call) :
    (run calls).decimateRatio = (calls.filterMap Call.ratio?).getLast?.getD 1 := by
  rw [run_eq_foldl decimateRatio Call.ratio? (fun _ ratio => ratio) decimateRatio_call calls, foldl_latest]

theorem dataRate_run (calls : List Call) : (run calls).dataRate = (calls.filterMap Call.rate?).getLast?.getD 0 := by
  rw [run_eq_foldl dataRate Call.rate? (fun _ rate => rate) dataRate_call calls, foldl_latest]

/-- **The snapshot after any calls**, in whatever order they came: each average is the mean of the last 60 values of its
own phase, frames per second are by the clock, from the sixtieth frame before the last one on, the ratio and the rate are
the latest ones, and the counts do not wrap. -/
theorem snapshot_run (calls : List Call) :
    (run calls).snapshot =
      { fps := perSecond (meanFrameTime (begins calls))
        frameTimeMs := meanFrameTime (begins calls)
        drainTimeMs := RollingAvg.meanOfLast (values .drain calls)
        uploadTimeMs := RollingAvg.meanOfLast (values .upload calls)
        swapTimeMs := RollingAvg.meanOfLast (values .swap calls)
        renderTimeMs := RollingAvg.meanOfLast (values .render calls)
        decimationTimeMs := RollingAvg.meanOfLast (values .decimate calls)
        decimationRatio := (calls.filterMap Call.ratio?).getLast?.getD 1
        dataRate := (calls.filterMap Call.rate?).getLast?.getD 0
        samplesPerFrame := toUInt32 (RollingAvg.meanOfLast (values .samples calls))
        vertexCount := toUInt32 (RollingAvg.meanOfLast (values .vtx calls)) } ∧
    (run calls).snapshot.samplesPerFrame.toNat = ⌊RollingAvg.meanOfLast (values .samples calls)⌋₊ ∧
    (run calls).snapshot.vertexCount.toNat = ⌊RollingAvg.meanOfLast (values .vtx calls)⌋₊ := by
  have hfollows := follows_run calls
  have hmetric (p : Phase) : ((run calls).metric p).avg = RollingAvg.meanOfLast (values p calls) := by
    rw [metric_run, avg_foldl_set]
  refine ⟨?_, ?_, ?_⟩
  · unfold snapshot
    rw [hfollows.fps, hfollows.timeAvg, avg_run, decimateRatio_run, dataRate_run, ← hmetric .drain, ← hmetric .upload,
      ← hmetric .swap, ← hmetric .render, ← hmetric .decimate, ← hmetric .samples, ← hmetric .vtx]
    rfl
  · rw [← toNat_toUInt32_mean fun x hx => count_mem_values (.inl rfl) hx, ← hmetric .samples]
    rfl
  · rw [← toNat_toUInt32_mean fun x hx => count_mem_values (.inr rfl) hx, ← hmetric .vtx]
    rfl

end Calls

/-! ## The log -/

section Log

/-- The end of a frame. -/
def Call.end? : Call → Option ℚ
  | .frameEnd now => some now
  | _ => none

/-- The log is opened or closed. -/
def Call.IsLogging : Call → Prop
  | .startLogging _ _ => True
  | .stopLogging => True
  | _ => False

/-- The number of frames that end. -/
def ends (calls : List Call) : ℕ := calls.countP fun c => c.end?.isSome

variable {b : Benchmark} {file : LogFile} {calls : List Call} {c : Call}

/-- The log is open and takes rows; the next one has this number. -/
structure Logs (b : Benchmark) (start : ℚ) (rows : List LogRow) : Prop where
  logFile : b.logFile = some { rows := rows }
  logFrame : b.logFrame = UInt64.ofNat rows.length
  logStart : b.logStart = start

variable {start : ℚ} {rows : List LogRow}

/-- One step: the end of a frame writes the row of this moment. -/
theorem Logs.call (h : b.Logs start rows) (hc : ¬ c.IsLogging) :
    (Benchmark.call b c).Logs start (rows ++ (c.end?.map b.logRow).toList) := by
  have hfile := h.logFile
  cases c with
  | frameEnd now =>
    have hcall : Benchmark.call b (.frameEnd now) = b.writeLogRow { rows := rows } now := by
      show b.frameEnd now = _
      rw [frameEnd, hfile]
      rfl
    rw [hcall]
    refine ⟨rfl, ?_, h.logStart⟩
    show b.logFrame + 1 = _
    rw [h.logFrame]
    simp [Call.end?, UInt64.ofNat_add]
  | startLogging opens now => exact absurd trivial hc
  | stopLogging => exact absurd trivial hc
  | _ =>
    show Logs _ start (rows ++ [])
    rw [List.append_nil]
    exact ⟨hfile, h.logFrame, h.logStart⟩

/-- The rows that these calls write. -/
def rowsOf (b : Benchmark) : List Call → List LogRow
  | [] => []
  | c :: calls => (c.end?.map b.logRow).toList ++ rowsOf (call b c) calls

theorem length_rowsOf (b : Benchmark) (calls : List Call) : (rowsOf b calls).length = ends calls := by
  induction calls generalizing b with
  | nil => rfl
  | cons c calls ih =>
    rw [rowsOf, List.length_append, ih, ends, ends, List.countP_cons]
    cases c.end? <;> simp [Nat.add_comm]

theorem Logs.foldl (h : b.Logs start rows) (hcalls : ∀ c ∈ calls, ¬ c.IsLogging) :
    (calls.foldl Benchmark.call b).Logs start (rows ++ rowsOf b calls) := by
  induction calls generalizing b rows with
  | nil => rwa [rowsOf, List.append_nil]
  | cons c calls ih =>
    rw [rowsOf, ← List.append_assoc]
    exact ih (h.call (hcalls c List.mem_cons_self)) fun c' hc' => hcalls c' (List.mem_cons_of_mem _ hc')

theorem getElem?_rowsOf (b : Benchmark) (xs ys : List Call) (now : ℚ) :
    (rowsOf b (xs ++ .frameEnd now :: ys))[ends xs]? = some ((xs.foldl call b).logRow now) := by
  induction xs generalizing b with
  | nil => rfl
  | cons c xs ih =>
    rw [List.cons_append, rowsOf, List.foldl_cons, ← ih (call b c), ends, List.countP_cons, ends]
    cases c.end? <;> simp

/-- The latest value of a phase. -/
theorem raw_foldl_set (vals : List ℚ) : (vals.foldl Metric.set {}).raw = vals.getLast?.getD 0 := by
  induction vals using List.reverseRecOn with
  | nil => rfl
  | append_singleton vals val =>
    rw [List.foldl_append, List.getLast?_concat]
    rfl

/-- Row `n` of a log that was opened at `start`, by the calls before it. -/
def rowAfter (calls : List Call) (n : ℕ) (start now : ℚ) : LogRow where
  logFrame := UInt64.ofNat n
  timeS := (now - start) / 1000
  frameTimeMs := (differences (begins calls)).getLast?.getD 0
  fps := perSecond (meanFrameTime (begins calls))
  drainRaw := (values .drain calls).getLast?.getD 0
  decimateRaw := (values .decimate calls).getLast?.getD 0
  uploadRaw := (values .upload calls).getLast?.getD 0
  swapRaw := (values .swap calls).getLast?.getD 0
  renderRaw := (values .render calls).getLast?.getD 0
  samplesRaw := (values .samples calls).getLast?.getD 0
  vtxRaw := (values .vtx calls).getLast?.getD 0
  decimateRatioRaw := (calls.filterMap Call.ratio?).getLast?.getD 1
  dataRate := (calls.filterMap Call.rate?).getLast?.getD 0

theorem logRow_run {calls : List Call} {n : ℕ} (hframe : (run calls).logFrame = UInt64.ofNat n)
    (hstart : (run calls).logStart = start) (now : ℚ) : (run calls).logRow now = rowAfter calls n start now := by
  have hfollows := follows_run calls
  have hmetric (p : Phase) : ((run calls).metric p).raw = (values p calls).getLast?.getD 0 := by
    rw [metric_run, raw_foldl_set]
  unfold logRow rowAfter
  rw [hfollows.fps, hfollows.timeMs, avg_run, decimateRatio_run, dataRate_run, hframe, hstart, ← hmetric .drain,
    ← hmetric .upload, ← hmetric .swap, ← hmetric .render, ← hmetric .decimate, ← hmetric .samples, ← hmetric .vtx]
  rfl

/-- **A log has a row for each frame that has ended since it was opened**, numbered from zero, with what came last before
the end of its frame. -/
theorem log_run {before calls : List Call} (start : ℚ) (hclosed : (run before).logFile = none)
    (hcalls : ∀ c ∈ calls, ¬ c.IsLogging) :
    ∃ rows, (run (before ++ .startLogging true start :: calls)).logFile = some { rows := rows } ∧
      rows.length = ends calls ∧
      ∀ xs now ys, calls = xs ++ .frameEnd now :: ys →
        rows[ends xs]? = some (rowAfter (before ++ .startLogging true start :: xs) (ends xs) start now) := by
  obtain ⟨b, hb⟩ : ∃ b, b = call (run before) (.startLogging true start) := ⟨_, rfl⟩
  have hrun (cs : List Call) : run (before ++ .startLogging true start :: cs) = cs.foldl call b := by
    rw [hb, run, List.foldl_append, List.foldl_cons]
    rfl
  have hopen : b.Logs start [] := by
    have hstart : b = { run before with logFile := some {}, logFrame := 0, logStart := start } := by
      rw [hb]
      show (run before).startLogging true start = _
      rw [startLogging, hclosed]
      rfl
    rw [hstart]
    exact ⟨rfl, rfl, rfl⟩
  refine ⟨rowsOf b calls, ?_, length_rowsOf b calls, ?_⟩
  · rw [hrun]
    exact (hopen.foldl hcalls).logFile
  · rintro xs now ys rfl
    have hxs := hopen.foldl fun c (hc : c ∈ xs) => hcalls c (List.mem_append_left _ hc)
    have hframe := hxs.logFrame
    rw [List.nil_append, length_rowsOf] at hframe
    rw [← hrun] at hxs hframe
    rw [getElem?_rowsOf, ← hrun, logRow_run hframe hxs.logStart]

/-- Two frames. -/
theorem log_run_two :
    (run [.frameBegin 0]).logFile = none ∧
    ∃ rows, (run ([.frameBegin 0] ++ .startLogging true 5 :: [.setDrainTime 2, .frameEnd 15, .frameBegin 20,
        .frameEnd 35])).logFile = some { rows := rows } ∧ rows.length = 2 ∧
      rows[1]?.map (fun row => (row.logFrame, row.drainRaw, row.frameTimeMs, row.fps)) = some (1, 2, 20, 50) := by
  have hcalls : ∀ c ∈ [Call.setDrainTime 2, .frameEnd 15, .frameBegin 20, .frameEnd 35], ¬ c.IsLogging := by
    simp [Call.IsLogging]
  have hclosed : (run [.frameBegin 0]).logFile = none := rfl
  obtain ⟨rows, hfile, hlength, hrow⟩ := log_run 5 hclosed hcalls
  have hsecond := hrow [.setDrainTime 2, .frameEnd 15, .frameBegin 20] 35 [] rfl
  refine ⟨rfl, rows, hfile, hlength, ?_⟩
  have hbegins : begins ([.frameBegin 0] ++ .startLogging true 5 :: [.setDrainTime 2, .frameEnd 15, .frameBegin 20]) =
      [0, 20] := rfl
  have hdrain : values .drain ([.frameBegin 0] ++ .startLogging true 5 :: [.setDrainTime 2, .frameEnd 15,
      .frameBegin 20]) = [2] := rfl
  have hends : ends [.setDrainTime 2, .frameEnd 15, .frameBegin 20] = 1 := rfl
  rw [hends] at hsecond
  rw [hsecond, Option.map_some, rowAfter, hbegins, hdrain]
  norm_num [differences, meanFrameTime, perSecond, AVG_WINDOW]

end Log

end Benchmark

end Grebe
