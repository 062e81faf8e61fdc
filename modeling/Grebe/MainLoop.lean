import Mathlib.Tactic
import Grebe.BufferManager
import Grebe.VisualizationStage

/-!
# Grebe.MainLoop — what the viewer draws

`run_main_loop` feeds the frames of the runtime to the visualization stage, uploads the display frame, if there is one,
promotes a complete upload and draws.  The draw commands hold the per-channel count of the display frame of this
iteration; the buffer that they are drawn from may be an earlier upload.

One step is one of these calls, or a fence.  What the loop reports and the iterations that it skips are left out, and so are
the fields of a draw command that place and color a channel.  `uploads` is history: the display frames in the order of
their uploads.

* `drawFrame_eq`: what `draw_frame` draws for each channel.
* `describes_iff`: when the draw commands describe the buffer that is drawn, in every run.
* `longer_than_drawn`: a run in which they describe a longer one.
-/

namespace Grebe

namespace BufferManager

variable (s : BufferManager)

/-- `vertex_buffer`: the vertices in the slot that is drawn. -/
def vertexBuffer : Option (List Int16) := s.drawSlot.map fun d => (s.slots d).device

def vertexCount : UInt32 := s.drawSlot.elim 0 fun d => (s.slots d).vertexCount

end BufferManager

structure DrawCommand where
  vertexCount : Int32
  firstVertex : Int32

/-- `vkCmdDraw`, with the channel whose constants were pushed before it. -/
structure DrawCall where
  channel : ℕ
  vertexCount : UInt32
  firstVertex : UInt32

/-- The vertices that are drawn. -/
def DrawCall.vertices (c : DrawCall) : List ℕ := List.range' c.firstVertex.toNat c.vertexCount.toNat

/-- Where the loop is in an iteration. -/
inductive MainLoopPc
  | input
  | swap
  | draw
deriving DecidableEq

structure MainLoop where
  /-- `app.num_channels` -/
  numChannels : UInt32
  vizStage : VisualizationStage
  buffers : BufferManager
  pc : MainLoopPc
  perChVtx : UInt32
  channelCmds : List DrawCommand
  uploads : List (Frame ℚ)

namespace MainLoop

/-! ## Steps -/

section Steps

inductive Label
  /-- the frames that `poll_output` returns -/
  | frames (batch : List (Frame ℚ))
  | swap (done : Fin 3 → ℕ)
  | setTimeSpan (span : ℚ)
  | draw
  | signal

/-- At the start of the loop. -/
def started (numChannels displayTargetPoints : UInt32) : MainLoop where
  numChannels := numChannels
  vizStage := { displayTargetPoints := displayTargetPoints }
  buffers := .created
  pc := .input
  perChVtx := 0
  channelCmds := []
  uploads := []

/-- The loop that fills the draw commands. -/
def setCommands (perChVtx : UInt32) : ℕ → UInt32 → List DrawCommand
  | 0, _ => []
  | n + 1, firstVtx => ⟨perChVtx.toInt32, firstVtx.toInt32⟩ :: setCommands perChVtx n (firstVtx + perChVtx)

/-- The loop over the channels in `draw_frame`, which counts the vertices itself. -/
def drawChannels : ℕ → UInt32 → List DrawCommand → List DrawCall
  | _, _, [] => []
  | ch, firstVertex, pc :: pcs =>
    (if pc.vertexCount > 0 then [⟨ch, pc.vertexCount.toUInt32, firstVertex⟩] else []) ++
      drawChannels (ch + 1) (firstVertex + pc.vertexCount.toUInt32) pcs

variable (s : MainLoop)

/-- `draw_frame`. -/
def drawFrame : List DrawCall :=
  if s.buffers.vertexBuffer.isSome ∧ s.buffers.vertexCount > 0 then drawChannels 0 0 s.channelCmds else []

/-- The visualization stage and the upload. -/
def stepFrames (batch : List (Frame ℚ)) : Option MainLoop :=
  let r := s.vizStage.process batch
  match r.2.1.getLast? with
  | some frame =>
    (s.buffers.upload frame.data).map fun buffers =>
      { s with
        vizStage := r.2.2
        buffers := buffers
        pc := .swap
        perChVtx := frame.samplesPerChannel
        uploads := if frame.data = [] then s.uploads else s.uploads ++ [frame] }
  | none => some { s with vizStage := r.2.2, pc := .swap, perChVtx := 0 }

def step : Label → Option MainLoop
  | .frames batch => if s.pc = .input then s.stepFrames batch else none
  | .swap done =>
    if s.pc = .swap then
      (s.buffers.stepSwap done).map fun buffers =>
        { s with
          buffers := buffers
          pc := .draw
          channelCmds := setCommands s.perChVtx s.numChannels.toNat 0 }
    else none
  | .setTimeSpan span =>
    if s.pc = .draw then some { s with vizStage := { s.vizStage with visibleTimeSpan := span } } else none
  | .draw => if s.pc = .draw then some { s with pc := .input } else none
  | .signal => (s.buffers.step .signal).map fun buffers => { s with buffers := buffers }

/-- The loop and the fences. -/
def mainLoop : Lib.Lts MainLoop Label where
  init s := ∃ numChannels displayTargetPoints, s = started numChannels displayTargetPoints
  step := step

end Steps

/-! ## What is drawn -/

section Draw

variable {s : MainLoop}

/-- Draw commands of one count are drawn one after the other, or not at all. -/
theorem drawChannels_setCommands (p : UInt32) (n ch : ℕ) (first vtx : UInt32) :
    drawChannels ch vtx (setCommands p n first) =
      if p.toInt32 > 0 then
        (List.range' ch n).map fun c => ⟨c, p, vtx + UInt32.ofNat (c - ch) * p⟩
      else [] := by
  induction n generalizing ch first vtx with
  | zero => simp [setCommands, drawChannels]
  | succ n ih =>
    rw [setCommands, drawChannels, ih]
    by_cases hp : p.toInt32 > 0
    · simp only [if_pos hp, List.range'_succ, List.map_cons, UInt32.toUInt32_toInt32, List.singleton_append]
      congr 1
      · simp
      · apply List.map_congr_left
        intro c hc
        have hle : ch + 1 ≤ c := (List.mem_range'_1.mp hc).1
        have hnext (k : UInt32) : vtx + p + k * p = vtx + (k + 1) * p := by
          rw [UInt32.add_mul, UInt32.one_mul, UInt32.add_comm (k * p) p, UInt32.add_assoc]
        rw [show c - ch = c - (ch + 1) + 1 by omega, UInt32.ofNat_add, show UInt32.ofNat 1 = 1 from rfl, hnext]
    · simp only [if_neg hp, List.append_nil]

theorem toNat_ofNat_mul {ch : ℕ} {p : UInt32} (h : ch * p.toNat < 2 ^ 32) :
    (0 + UInt32.ofNat ch * p).toNat = ch * p.toNat := by
  rw [UInt32.zero_add, ← UInt32.ofNat_toNat (x := p), ← UInt32.ofNat_mul, UInt32.toNat_ofNat', UInt32.toNat_ofNat',
    Nat.mod_eq_of_lt p.toNat_lt, Nat.mod_eq_of_lt h]

end Draw

/-! ## The uploads -/

section Uploads

variable {b b' : BufferManager} {uploads : List (Frame ℚ)}

/-- The display frame in slot `i`. -/
def InSlot (b : BufferManager) (uploads : List (Frame ℚ)) (i : Fin 3) (frame : Frame ℚ) : Prop :=
  uploads[(b.slots i).upload - 1]? = some frame ∧ (b.slots i).device = frame.data ∧
    (b.slots i).vertexCount = UInt32.ofNat frame.data.length

/-- Each upload is a display frame, and it is in the slot whole. -/
structure UploadsInv (b : BufferManager) (uploads : List (Frame ℚ)) : Prop where
  submitted : b.submitted = uploads.length
  slot : ∀ i, (b.slots i).upload ≠ 0 → (b.slots i).upload ≤ uploads.length ∧ ∃ frame, InSlot b uploads i frame

theorem UploadsInv.keep (h : UploadsInv b uploads) {l : BufferManager.Label} (hst : b.Step l b')
    (hl : ∀ data, l ≠ .upload data) : UploadsInv b' uploads := by
  obtain ⟨hsub, hslot⟩ := hst.slot_eq hl
  refine ⟨hsub.trans h.submitted, ?_⟩
  intro i hi
  obtain ⟨hup, hdev, hcount⟩ := hslot i
  rw [hup] at hi
  simp only [InSlot, hup, hdev, hcount]
  exact h.slot i hi

/-- A display frame is uploaded, if it holds samples. -/
theorem UploadsInv.upload (h : UploadsInv b uploads) {frame : Frame ℚ} (hst : b.Step (.upload frame.data) b') :
    UploadsInv b' (if frame.data = [] then uploads else uploads ++ [frame]) := by
  generalize hd : frame.data = data at hst
  rcases hst with _ | ⟨hdata, _⟩ | _ | _ | _
  case skip =>
    rw [if_pos rfl]
    exact h
  case upload =>
    rw [if_neg hdata]
    refine ⟨by simp [h.submitted], ?_⟩
    intro i hi
    by_cases hfree : i = b.findFreeSlot
    · subst hfree
      refine ⟨by simp [h.submitted], frame, ?_⟩
      simp [InSlot, h.submitted, hd]
    · simp only [InSlot, BufferManager.setSlot_other _ _ hfree] at hi ⊢
      obtain ⟨hle, g, hg, hrest⟩ := h.slot i hi
      refine ⟨by rw [List.length_append]; omega, g, ?_, hrest⟩
      rw [List.getElem?_append_left (by omega), hg]

end Uploads

/-! ## What one step does -/

section Spec

variable {s s' : MainLoop}

inductive Step (s : MainLoop) : Label → MainLoop → Prop
  /-- There is a display frame. -/
  | display {batch : List (Frame ℚ)} {frame : Frame ℚ} {buffers : BufferManager} {vizStage : VisualizationStage}
      (hpc : s.pc = .input) (hupload : s.buffers.step (.upload frame.data) = some buffers) :
      Step s (.frames batch)
        { s with
          vizStage := vizStage
          buffers := buffers
          pc := .swap
          perChVtx := frame.samplesPerChannel
          uploads := if frame.data = [] then s.uploads else s.uploads ++ [frame] }
  | noDisplay {batch : List (Frame ℚ)} {vizStage : VisualizationStage} (hpc : s.pc = .input) :
      Step s (.frames batch) { s with vizStage := vizStage, pc := .swap, perChVtx := 0 }
  | swap {done : Fin 3 → ℕ} {buffers : BufferManager} (hpc : s.pc = .swap)
      (hswap : s.buffers.step (.trySwap done) = some buffers) :
      Step s (.swap done)
        { s with
          buffers := buffers
          pc := .draw
          channelCmds := setCommands s.perChVtx s.numChannels.toNat 0 }
  | setTimeSpan {span : ℚ} {vizStage : VisualizationStage} (hpc : s.pc = .draw) :
      Step s (.setTimeSpan span) { s with vizStage := vizStage }
  | draw (hpc : s.pc = .draw) : Step s .draw { s with pc := .input }
  | signal {buffers : BufferManager} (hsignal : s.buffers.step .signal = some buffers) :
      Step s .signal { s with buffers := buffers }

theorem step_cases {l : Label} (h : s.step l = some s') : s.Step l s' := by
  rcases l with batch | done | span | _ | _
  · simp only [step, stepFrames] at h
    split_ifs at h with hpc
    split at h
    · obtain ⟨buffers, hb, rfl⟩ := Option.map_eq_some_iff.mp h
      exact .display hpc hb
    · cases h
      exact .noDisplay hpc
  · simp only [step] at h
    split_ifs at h with hpc
    obtain ⟨buffers, hb, rfl⟩ := Option.map_eq_some_iff.mp h
    exact .swap hpc hb
  · simp only [step] at h
    split_ifs at h with hpc
    cases h
    exact .setTimeSpan hpc
  · simp only [step] at h
    split_ifs at h with hpc
    cases h
    exact .draw hpc
  · obtain ⟨buffers, hb, rfl⟩ := Option.map_eq_some_iff.mp h
    exact .signal hb

/-- **The buffers of the loop are in a state that calls on a `BufferManager` reach.** -/
theorem reach_buffers (hs : mainLoop.Reachable s) : BufferManager.calls.Reachable s.buffers := by
  refine hs.invariant (I := fun s => BufferManager.calls.Reachable s.buffers) (fun t h0 => ?_)
    fun t l t' h _ hst => ?_
  · obtain ⟨n, target, rfl⟩ := h0
    exact .init rfl
  · rcases step_cases hst with ⟨_, hb⟩ | _ | ⟨_, hb⟩ | _ | _ | hb
    case display | swap | signal => exact BufferManager.reachable_step h hb
    all_goals exact h

/-- What holds between the buffers, the draw commands and the display frames. -/
structure LoopInv (s : MainLoop) : Prop where
  uploads : UploadsInv s.buffers s.uploads
  commands : s.pc = .draw → s.channelCmds = setCommands s.perChVtx s.numChannels.toNat 0

/-- **One step keeps the invariant of the loop.** -/
theorem loopInv_step {l : Label} (h : LoopInv s) (hst : s.Step l s') : LoopInv s' := by
  rcases hst with ⟨_, hb⟩ | _ | ⟨_, hb⟩ | hpc | _ | hb
  case display => exact ⟨h.uploads.upload (BufferManager.step_cases hb), fun hpc => by cases hpc⟩
  case noDisplay => exact ⟨h.uploads, fun hpc => by cases hpc⟩
  case swap => exact ⟨h.uploads.keep (BufferManager.step_cases hb) (by simp), fun _ => rfl⟩
  case setTimeSpan => exact ⟨h.uploads, h.commands⟩
  case draw => exact ⟨h.uploads, fun hpc => by cases hpc⟩
  case signal => exact ⟨h.uploads.keep (BufferManager.step_cases hb) (by simp), h.commands⟩

theorem reach_loopInv (hs : mainLoop.Reachable s) : LoopInv s := by
  refine hs.invariant (I := LoopInv) (fun t h0 => ?_) fun _ _ _ h _ hst => loopInv_step h (step_cases hst)
  obtain ⟨n, target, rfl⟩ := h0
  exact ⟨⟨rfl, fun i hi => absurd rfl hi⟩, fun hpc => by cases hpc⟩

end Spec

/-! ## The draw commands and the buffer -/

section Describes

variable {s : MainLoop}

/-- The draw commands describe display frame `frame` in slot `d`: they stay in the vertices of the slot, and channel `ch`
is drawn from the samples of channel `ch` of the frame. -/
def Describes (s : MainLoop) (d : Fin 3) (frame : Frame ℚ) : Prop :=
  s.numChannels.toNat * s.perChVtx.toNat ≤ (s.buffers.slots d).vertexCount.toNat ∧
    ∀ ch < s.numChannels.toNat, ∃ c ∈ s.drawFrame, c.channel = ch ∧
      c.vertices = List.range' (ch * s.perChVtx.toNat) s.perChVtx.toNat ∧
      ch < frame.channels ∧ c.vertices = frame.channelIndices ch

/-- **What `draw_frame` draws**, if it draws anything: the channels one after the other. -/
theorem drawFrame_eq (hs : mainLoop.Reachable s) (hpc : s.pc = .draw) (hdraw : s.drawFrame ≠ []) :
    s.buffers.drawSlot.isSome ∧ 0 < s.numChannels.toNat ∧ 0 < s.perChVtx.toNat ∧
      s.drawFrame = (List.range s.numChannels.toNat).map fun ch => ⟨ch, s.perChVtx, 0 + UInt32.ofNat ch * s.perChVtx⟩ := by
  unfold drawFrame at hdraw ⊢
  split_ifs at hdraw ⊢ with hbuf
  · rw [(reach_loopInv hs).commands hpc, drawChannels_setCommands] at hdraw ⊢
    split_ifs at hdraw ⊢ with hp
    · have hn : 0 < s.numChannels.toNat := by
        rw [Nat.pos_iff_ne_zero]
        exact fun h0 => hdraw (by simp [h0])
      have hpos : 0 < s.perChVtx.toNat := by
        rw [Nat.pos_iff_ne_zero]
        intro h0
        rw [show s.perChVtx = 0 from UInt32.toNat_inj.mp h0] at hp
        exact absurd hp (by decide)
      refine ⟨by simpa [BufferManager.vertexBuffer] using hbuf.1, hn, hpos, ?_⟩
      rw [List.range_eq_range']
      exact List.map_congr_left fun ch _ => by rw [Nat.sub_zero]
    · exact absurd rfl hdraw
  · exact absurd rfl hdraw

/-- **When the draw commands describe the buffer that is drawn.** -/
theorem describes_iff (hs : mainLoop.Reachable s) (hpc : s.pc = .draw) (hdraw : s.drawFrame ≠ []) :
    ∃ d frame, s.buffers.drawSlot = some d ∧ InSlot s.buffers s.uploads d frame ∧
      (s.Describes d frame ↔
        s.perChVtx = frame.samplesPerChannel ∧ s.numChannels ≤ frame.channelCount ∧
          s.numChannels.toNat * s.perChVtx.toNat ≤ frame.data.length % 2 ^ 32) := by
  obtain ⟨hsome, hn, hp, hcalls⟩ := drawFrame_eq hs hpc hdraw
  obtain ⟨d, hd⟩ := Option.isSome_iff_exists.mp hsome
  have hupload := ((BufferManager.reach_slotsInv (reach_buffers hs)).drawn d hd).2
  obtain ⟨-, frame, hframe⟩ := (reach_loopInv hs).uploads.slot d hupload
  refine ⟨d, frame, hd, hframe, ?_⟩
  have hcount : (s.buffers.slots d).vertexCount.toNat = frame.data.length % 2 ^ 32 := by
    rw [hframe.2.2, UInt32.toNat_ofNat']
  have hmem (c : DrawCall) : c ∈ s.drawFrame ↔
      ∃ ch < s.numChannels.toNat, (⟨ch, s.perChVtx, 0 + UInt32.ofNat ch * s.perChVtx⟩ : DrawCall) = c := by
    rw [hcalls, List.mem_map]
    simp
  rw [Describes, hcount]
  constructor
  · rintro ⟨hle, hch⟩
    -- channel 0 tells the count, the last channel the number of channels
    obtain ⟨c, -, -, hrange, -, hslice⟩ := hch 0 hn
    obtain ⟨-, -, -, -, hlast, -⟩ := hch (s.numChannels.toNat - 1) (by omega)
    have hspc : s.perChVtx.toNat = frame.spc := by
      have hlen := congrArg List.length (hrange.symm.trans hslice)
      rwa [List.length_range', Frame.channelIndices, List.length_range'] at hlen
    refine ⟨UInt32.toNat_inj.mp hspc, UInt32.le_iff_toNat_le.mpr ?_, hle⟩
    show s.numChannels.toNat ≤ frame.channels
    omega
  · rintro ⟨hspc, hchannels, hle⟩
    refine ⟨hle, fun ch hch => ⟨⟨ch, s.perChVtx, 0 + UInt32.ofNat ch * s.perChVtx⟩, (hmem _).mpr ⟨ch, hch, rfl⟩, rfl, ?_⟩⟩
    have hlt : ch * s.perChVtx.toNat < 2 ^ 32 :=
      (Nat.mul_le_mul_right _ hch.le).trans_lt (hle.trans_lt (Nat.mod_lt _ (Nat.two_pow_pos 32)))
    have hrange : (⟨ch, s.perChVtx, 0 + UInt32.ofNat ch * s.perChVtx⟩ : DrawCall).vertices =
        List.range' (ch * s.perChVtx.toNat) s.perChVtx.toNat := by
      rw [DrawCall.vertices, toNat_ofNat_mul hlt]
    refine ⟨hrange, hch.trans_le (UInt32.le_iff_toNat_le.mp hchannels), ?_⟩
    rw [hrange, hspc]
    rfl

/-- `spc` samples of one channel, at a rate that shows them all. -/
def shortFrame (spc : UInt32) : Frame ℚ := { (Frame.makeOwned 1 spc : Frame ℚ) with sampleRateHz := 1000 }

/-- What is computed of the last state of a run. -/
def observe (s : MainLoop) : MainLoopPc × UInt32 × List ℕ × UInt32 :=
  (s.pc, s.perChVtx, s.drawFrame.flatMap DrawCall.vertices, s.buffers.vertexCount)

/-- One channel of two samples, drawn from its buffer. -/
theorem describes_iff_two :
    ∃ s, mainLoop.Reachable s ∧ s.observe = (.draw, 2, [0, 1], 2) ∧
      ∃ d frame, s.buffers.drawSlot = some d ∧ InSlot s.buffers s.uploads d frame ∧
        (s.Describes d frame ↔
          s.perChVtx = frame.samplesPerChannel ∧ s.numChannels ≤ frame.channelCount ∧
            s.numChannels.toNat * s.perChVtx.toNat ≤ frame.data.length % 2 ^ 32) := by
  have hrun : (mainLoop.exec (started 1 8) [.frames [shortFrame 2], .signal, .swap fun _ => 1]).map observe =
      some (.draw, 2, [0, 1], 2) := by decide +kernel
  obtain ⟨s, hs, hobs⟩ := Option.map_eq_some_iff.mp hrun
  have hreach : mainLoop.Reachable s := Lib.Lts.reachable_of_exec _ ⟨1, 8, rfl⟩ hs
  have hdraw : s.drawFrame ≠ [] := fun h0 => by simp [observe, h0] at hobs
  exact ⟨s, hreach, hobs, describes_iff hreach (congrArg Prod.fst hobs) hdraw⟩

/-- **Three vertices are drawn from a buffer of two**: the display frame of three samples is still in transfer. -/
theorem longer_than_drawn :
    ∃ s, mainLoop.Reachable s ∧ s.observe = (.draw, 3, [0, 1, 2], 2) ∧ ∀ d frame, s.buffers.drawSlot = some d →
      ¬ s.Describes d frame := by
  have hrun : (mainLoop.exec (started 1 8) [.frames [shortFrame 2], .signal, .swap fun _ => 1, .draw,
      .frames [shortFrame 1], .swap fun _ => 1]).map (fun s => (s.observe, s.numChannels)) =
      some ((.draw, 3, [0, 1, 2], 2), 1) := by decide +kernel
  obtain ⟨s, hs, hobs⟩ := Option.map_eq_some_iff.mp hrun
  obtain ⟨hobs, hn⟩ := Prod.mk.inj hobs
  refine ⟨s, Lib.Lts.reachable_of_exec _ ⟨1, 8, rfl⟩ hs, hobs, ?_⟩
  intro d frame hd hdesc
  simp only [observe, Prod.mk.injEq] at hobs
  have hle := hdesc.1
  have hcount := hobs.2.2.2
  rw [BufferManager.vertexCount, hd] at hcount
  rw [hn, hobs.2.1, show (s.buffers.slots d).vertexCount = 2 from hcount] at hle
  exact absurd hle (by decide)

end Describes

end MainLoop

end Grebe
