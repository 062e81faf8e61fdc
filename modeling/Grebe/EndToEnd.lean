import Grebe.SgSenderIndices
import Grebe.TransportStages
import Grebe.UdpLink
import Grebe.ViewerPipeline

/-!
# Grebe.EndToEnd — from the rings of grebe-sg to the frames that grebe-viewer polls

The three parts put together: the threads of grebe-sg, a pipe or UDP between the processes, and the stages of the viewer
with what its main loop polls.

* `sendAll_eq`, `received_wire`: a list of messages through a pipe.
* `pipe_end_to_end`: in pipe mode each frame that the main loop polls is the decimation of a frame that grebe-sg sent, of
  which each channel is a block of consecutive samples that the ring accepted; in order and none twice.
* `udp_end_to_end`: over UDP the same holds of the frames that the network let through.
-/

namespace Grebe

open Lib SgSender

/-! ## Frames as messages -/

section Messages

variable {n : ℕ} {signal : ℕ → ℕ → ℕ → Int16} {s s' : SgSender n}

/-- What is sent of a frame. -/
def SentFrame.message (f : SentFrame n) : FrameHeaderV2 × List Int16 := (f.header, f.payload.map Sample.value)

/-- A message whose header tells its size. -/
structure Sized (m : FrameHeaderV2 × List Int16) : Prop where
  magic : m.1.magic = FRAME_HEADER_MAGIC
  payloadBytes : m.1.payloadBytes.toNat = 2 * m.2.length

/-- What the sender has packed into a frame. -/
structure PackedFrame (f : SentFrame n) : Prop where
  magic : f.header.magic = FRAME_HEADER_MAGIC
  channelCount : f.header.channelCount = UInt32.ofNat n
  payloadBytes : f.header.payloadBytes = UInt32.ofNat n * f.header.blockLengthSamples * 2
  payload : f.payload.length = n * f.block

theorem reach_packed (hs : (threads n signal).Reachable s) : ∀ f ∈ s.sent, PackedFrame f := by
  refine hs.invariant (I := fun s => ∀ f ∈ s.sent, PackedFrame f) (fun t h0 => ?_) fun t l t' h _ hst => ?_
  · obtain ⟨slots, pos, blockSize, -, rfl⟩ := h0
    exact nofun
  · rcases step_cases hst with _ | _ | _ | _ | _ | _ | _ | _ | _ | _ | _ | _ | _ | _ | _ | _ | _ | _
    case send b ch d hpc =>
      intro f hf
      rcases List.mem_append.mp hf with hf | hf
      · exact h f hf
      · obtain rfl := List.mem_singleton.mp hf
        exact ⟨rfl, rfl, rfl, Circular.length_load _ _ _⟩
    all_goals exact h

/-- A frame of at most eight channels is a message of its size. -/
theorem sized_message (hn : n ≤ 8) (hs : (threads n signal).Reachable s) {f : SentFrame n} (hf : f ∈ s.sent) :
    Sized f.message ∧ f.header.channelCount.toNat = n := by
  obtain ⟨hmagic, hchannels, hbytes, hpayload⟩ := reach_packed hs f hf
  have hblock : f.block ≤ 65536 := UInt32.le_iff_toNat_le.mp ((reach_blockInv hs).sent f hf).2
  have hcount : f.header.channelCount.toNat = n := by
    rw [hchannels, UInt32.toNat_ofNat', Nat.mod_eq_of_lt (by omega)]
  refine ⟨⟨hmagic, ?_⟩, hcount⟩
  have hproduct : n * f.block ≤ 8 * 65536 := Nat.mul_le_mul hn hblock
  have hblock' : f.header.blockLengthSamples.toNat = f.block := rfl
  show f.header.payloadBytes.toNat = 2 * (f.payload.map Sample.value).length
  rw [List.length_map, hpayload, hbytes, ← hchannels, UInt32.toNat_mul, UInt32.toNat_mul, hcount, hblock']
  have htwo : (2 : UInt32).toNat = 2 := rfl
  rw [htwo, Nat.mod_eq_of_lt (by omega : n * f.block < 2 ^ 32), Nat.mod_eq_of_lt (by omega), Nat.mul_comm]

end Messages

/-! ## Through a pipe -/

section Pipe

/-- The bytes of a message. -/
def messageBytes (m : FrameHeaderV2 × List Int16) : List UInt8 := frameHeader.encode m.1 ++ sample.encodeAll m.2

/-- `PipeProducer::send_frame` of one message after the other, until one fails: whether all were sent, and the bytes. -/
def sendAll (writev : ℕ → ℕ → ℤ) (stale : ℕ → List UInt8) (call : ℕ) :
    List (FrameHeaderV2 × List Int16) → Bool × List UInt8
  | [] => (true, [])
  | m :: ms =>
    let r := sendFrame writev (stale call) call m.1 (some (sample.encodeAll m.2))
    if r.ok then
      let t := sendAll writev stale r.call ms
      (t.1, r.bytes ++ t.2)
    else (false, r.bytes)

variable {ms : List (FrameHeaderV2 × List Int16)}

theorem sendAll_eq (k : WriteKernel) (stale : ℕ → List UInt8) (call : ℕ) (hms : ∀ m ∈ ms, Sized m) :
    sendAll k.count stale call ms = (true, ms.flatMap messageBytes) := by
  induction ms generalizing call with
  | nil => rfl
  | cons m ms ih =>
    have hlen : (sample.encodeAll m.2).length = m.1.payloadBytes.toNat := by
      rw [length_samples, (hms m (by simp)).payloadBytes]
    obtain ⟨hok, hbytes, -⟩ := sendFrame_eq k (stale call) call hlen
    have hrest := ih (sendFrame k.count (stale call) call m.1 (some (sample.encodeAll m.2))).call
      fun m' hm' => hms m' (by simp [hm'])
    simp only [sendAll, hok, if_true, hrest, hbytes, List.flatMap_cons]
    rfl

/-- The messages come out of the pipe one by one, whatever the counts of the kernel. -/
theorem received_wire (k : ReadKernel) (calls call : ℕ) (hms : ∀ m ∈ ms, Sized m) :
    received (PipeConsumer.receiveFrame k.count false) calls ⟨ms.flatMap messageBytes, call⟩ = ms.take calls := by
  induction calls generalizing ms call with
  | zero => rfl
  | succ calls ih =>
    cases ms with
    | nil =>
      rcases hreceive : PipeConsumer.receiveFrame k.count false ⟨[], call⟩ with ⟨_ | m, p⟩
      · simp [received, hreceive]
      · have hnone := receiveFrame_nil k false call
        rw [hreceive] at hnone
        cases hnone
    | cons m ms =>
      have hm := hms m (by simp)
      obtain ⟨call', hreceive⟩ :=
        receiveFrame_eq k false m.1 m.2 (ms.flatMap messageBytes) call hm.magic hm.payloadBytes
      have htail : ∀ m ∈ ms, Sized m := fun m' hm' => hms m' (by simp [hm'])
      have hrest := ih call' htail
      rw [List.flatMap_cons, messageBytes]
      simp only [received, hreceive, hrest, List.take_succ_cons]

end Pipe

/-! ## What the main loop polls -/

section Shown

variable {n : ℕ} {signal : ℕ → ℕ → ℕ → Int16} {sg : SgSender n}

/-- `frame` is the decimation of `f`: under its number, with each channel cut from what the ring accepted, where the frames
sent before it end. -/
def ShowsFrame (sg : SgSender n) (frame : Frame ℚ) (f : SentFrame n) : Prop :=
  frame.sequence = f.header.sequence ∧ frame.channels = n ∧
    ∃ (pre post : List (SentFrame n)) (stage : DecimationStage), sg.sent = pre ++ f :: post ∧
      ∀ ch : Fin n, total pre + f.block ≤ (sg.rings ch).accepted.length ∧
        frame.channelData ch = Decimator.decimate ((((sg.rings ch).accepted.drop (total pre)).take f.block).map Sample.value)
          stage.effectiveMode stage.targetPoints.toNat

/-- What the viewer makes of a message is the decimation of its frame. -/
theorem showsFrame_of_shows (hn : n ≤ 8) (hs : (threads n signal).Reach NoSwitch sg) {value : Double → ℚ}
    {f : SentFrame n} (hf : f ∈ sg.sent) {frame : Frame ℚ} (h : Shows value frame f.message) : ShowsFrame sg frame f := by
  obtain ⟨stage, src, hsrc, hdecimate⟩ := h
  obtain ⟨hsized, hcount⟩ := sized_message hn hs.reachable hf
  obtain ⟨hchannels, -, -, -, hdata⟩ := DecimationStage.decimateFrame_channel hdecimate
  obtain ⟨-, hsequence, -⟩ := DecimationStage.decimateFrame_framing hdecimate
  have hsrcChannels : (src.mapRate value).channels = n := by
    show src.channelCount.toNat = n
    rw [hsrc.channelCount]
    exact hcount
  have hspc : (src.mapRate value).spc = f.block := by
    show src.samplesPerChannel.toNat = f.block
    rw [hsrc.samplesPerChannel]
    rfl
  have hsamples : (src.mapRate value).data = f.payload.map Sample.value := hsrc.data
  have hcovered : (src.mapRate value).Covered := by
    rw [Frame.Covered, hsrcChannels, hspc, Frame.dataCount, hsamples, List.length_map,
      (reach_packed hs.reachable f hf).payload]
  obtain ⟨pre, post, hsent⟩ := List.append_of_mem hf
  refine ⟨hsequence.trans hsrc.sequence, hchannels.trans hsrcChannels, pre, post, stage, hsent, fun ch => ?_⟩
  obtain ⟨hslice, hle⟩ := slice_eq hs hsent ch
  have hch : ch.val < (src.mapRate value).channels := hsrcChannels ▸ ch.isLt
  refine ⟨hle, ?_⟩
  rw [hdata ch hch, (src.mapRate value).channelData_eq hcovered hch, hspc, hsamples, ← hslice, SentFrame.slice,
    List.map_take, List.map_drop]

/-- The frames polled are decimations of frames sent, if they are of messages that are some of theirs. -/
theorem shown_of_messages (hn : n ≤ 8) (hs : (threads n signal).Reach NoSwitch sg) {value : Double → ℚ}
    {polled : List (Frame ℚ)} {frames : List (SentFrame n)} (hframes : ∀ f ∈ frames, f ∈ sg.sent)
    (h : List.SublistForall₂ (Shows value) polled (frames.map SentFrame.message)) :
    List.SublistForall₂ (ShowsFrame sg) polled frames := by
  rw [List.sublistForall₂_map_right_iff] at h
  obtain ⟨shown, hshown, hsub⟩ := List.sublistForall₂_iff.mp h
  refine List.sublistForall₂_iff.mpr ⟨shown, ?_, hsub⟩
  have hmem : ∀ f ∈ shown, f ∈ sg.sent := fun f hf => hframes f (hsub.subset hf)
  clear h hsub
  induction hshown with
  | nil => exact .nil
  | cons hframe _ ih =>
    exact .cons (showsFrame_of_shows hn hs (hmem _ (by simp)) hframe) (ih fun f hf => hmem f (by simp [hf]))

end Shown

/-! ## The two transports -/

section Transports

variable {n : ℕ} {signal : ℕ → ℕ → ℕ → Int16} {sg : SgSender n} {value : Double → ℚ} {s : LinearRuntime (Frame ℚ)}

/-- The adapter of a viewer that reads what grebe-sg has written into the pipe. -/
def pipeAdapter (w : WriteKernel) (stale : ℕ → List UInt8) (sg : SgSender n) : DataSourceAdapter PipeEnd :=
  .over ⟨(sendAll w.count stale 0 (sg.sent.map SentFrame.message)).2, 0⟩

theorem sized_sent (hn : n ≤ 8) (hsg : (threads n signal).Reachable sg) : ∀ m ∈ sg.sent.map SentFrame.message, Sized m := by
  intro m hm
  obtain ⟨f, hf, rfl⟩ := List.mem_map.mp hm
  exact (sized_message hn hsg hf).1

/-- What is in the pipe. -/
theorem transport_pipeAdapter (hn : n ≤ 8) (hsg : (threads n signal).Reachable sg) (w : WriteKernel)
    (stale : ℕ → List UInt8) :
    (pipeAdapter w stale sg).source.transport = ⟨(sg.sent.map SentFrame.message).flatMap messageBytes, 0⟩ :=
  congrArg (fun r : Bool × List UInt8 => PipeEnd.mk r.2 0) (sendAll_eq w stale 0 (sized_sent hn hsg))

/-- What the main loop polls of what was written into the pipe. -/
theorem polled_pipe (hn : n ≤ 8) (hsg : (threads n signal).Reach NoSwitch sg) (w : WriteKernel) (r : ReadKernel)
    (stale : ℕ → List UInt8) (hs : (LinearRuntime.runtime viewerStages).Reach
      (Viewing (PipeConsumer.receiveFrame r.count false) (pipeAdapter w stale sg) value) s) :
    List.SublistForall₂ (ShowsFrame sg) (s.polled viewerStages) sg.sent := by
  have hpolled := polled_messages rfl hs
  rw [transport_pipeAdapter hn hsg.reachable, received_wire r _ _ (sized_sent hn hsg.reachable)] at hpolled
  exact shown_of_messages hn hsg (fun f hf => hf) (sublistForall₂_trans_sublist hpolled (List.take_sublist _ _))

/-- The viewer can poll the first frame. -/
theorem exists_polled_pipe (hn : n ≤ 8) (hpos : n ≠ 0) (hsg : (threads n signal).Reachable sg) (hsent : sg.sent ≠ [])
    (w : WriteKernel) (r : ReadKernel) (stale : ℕ → List UInt8) (value : Double → ℚ) :
    ∃ s, (LinearRuntime.runtime viewerStages).Reach
        (Viewing (PipeConsumer.receiveFrame r.count false) (pipeAdapter w stale sg) value) s ∧
      (s.polled viewerStages).length = 1 := by
  obtain ⟨f, rest, hsent⟩ := List.exists_cons_of_ne_nil hsent
  have hf : f ∈ sg.sent := by simp [hsent]
  obtain ⟨hsized, hcount⟩ := sized_message hn hsg hf
  have hblock := ((reach_blockInv hsg).sent f hf).1
  obtain ⟨call, hreceive⟩ := receiveFrame_eq r false f.header f.message.2
    ((rest.map SentFrame.message).flatMap messageBytes) 0 hsized.magic hsized.payloadBytes
  have hfirst : PipeConsumer.receiveFrame r.count false (pipeAdapter w stale sg).source.transport =
      (some f.message, ⟨(rest.map SentFrame.message).flatMap messageBytes, call⟩) := by
    rw [transport_pipeAdapter hn hsg, hsent, List.map_cons, List.flatMap_cons]
    exact hreceive
  refine exists_polled rfl hfirst ⟨fun hzero => ?_, fun hzero => ?_⟩
  · have hnat : f.header.channelCount.toNat = 0 := congrArg UInt32.toNat hzero
    exact hpos (hcount.symm.trans hnat)
  · rw [show f.header.blockLengthSamples = 0 from hzero] at hblock
    exact absurd hblock (by decide)

/-- **Pipe mode, end to end.**  Take any run of grebe-sg without a switch of the source, in whatever pieces the kernel takes
and yields the bytes of the pipe, and any run of the viewer on them, with any losses in its queues and any changes of its
settings: all frames are written whole, and each frame that the main loop polls is the decimation of one of them, each
channel of a block of consecutive samples that its ring accepted; in the order in which they were sent, and none twice. -/
theorem pipe_end_to_end (hn : n ≤ 8) (hsg : (threads n signal).Reach NoSwitch sg) (w : WriteKernel) (r : ReadKernel)
    (stale : ℕ → List UInt8) (hs : (LinearRuntime.runtime viewerStages).Reach
      (Viewing (PipeConsumer.receiveFrame r.count false) (pipeAdapter w stale sg) value) s) :
    (sendAll w.count stale 0 (sg.sent.map SentFrame.message)).1 = true ∧
      List.SublistForall₂ (ShowsFrame sg) (s.polled viewerStages) sg.sent := by
  have hsent := sendAll_eq w stale 0 (sized_sent hn hsg.reachable)
  exact ⟨by rw [hsent], polled_pipe hn hsg w r stale hs⟩

/-- Two frames of two channels. -/
theorem exists_two_frames : ∃ sg : SgSender 2, (threads 2 fun _ _ i => Int16.ofNat i).Reach NoSwitch sg ∧
    sg.sent.length = 2 := by
  have hrun : ((Lib.Lts.execIn NoSwitch (threads 2 fun _ _ i => Int16.ofNat i) (started 5 (by decide) 2)
      (round 6 5 20)).map fun sg => sg.sent.length) = some 2 := by decide +kernel
  obtain ⟨sg, hsg, hlen⟩ := Option.map_eq_some_iff.mp hrun
  exact ⟨sg, .execIn (.init ⟨5, by decide, 2, by decide, rfl⟩) hsg, hlen⟩

/-- The first of two frames is polled, a byte at a time on either side of the pipe. -/
theorem pipe_end_to_end_two : ∃ (sg : SgSender 2) (s : LinearRuntime (Frame ℚ)),
    sg.sent.length = 2 ∧ (s.polled viewerStages).length = 1 ∧
      (sendAll bytewiseWrites.count (fun _ => []) 0 (sg.sent.map SentFrame.message)).1 = true ∧
      List.SublistForall₂ (ShowsFrame sg) (s.polled viewerStages) sg.sent := by
  obtain ⟨sg, hsg, hlen⟩ := exists_two_frames
  have hsent : sg.sent ≠ [] := List.ne_nil_of_length_pos (by omega)
  obtain ⟨s, hs, hpolled⟩ := exists_polled_pipe (by decide) (by decide) hsg.reachable hsent bytewiseWrites bytewiseReads
    (fun _ => []) fun _ => 0
  obtain ⟨hok, hshown⟩ := pipe_end_to_end (by decide) hsg bytewiseWrites bytewiseReads (fun _ => []) hs
  exact ⟨sg, s, hlen, hpolled, hok, hshown⟩

/-- `UdpConsumer::receive_frame`; a call that waits for ever, or ends the program, is taken for one that fails. -/
def udpReceive (c : UdpReceiver) : Option (FrameHeaderV2 × List Int16) × UdpReceiver :=
  match c.receiveFrame with
  | (some true, c) => (some (c.header, c.payload.samples), c)
  | (_, c) => (none, c)

theorem received_udp (calls : ℕ) (c : UdpReceiver) :
    received udpReceive calls c = (UdpReceiver.run calls c).1.map fun frame => (frame.1, frame.2.samples) := by
  induction calls generalizing c with
  | zero => rfl
  | succ calls ih =>
    rcases hreceive : c.receiveFrame with ⟨_ | _ | _, c'⟩
    all_goals simp [received, UdpReceiver.run, udpReceive, hreceive, ih]

/-- What the sender does with a producer: `send_frame` and `flush`, for each frame. -/
def sendOps (frames : List (SentFrame n)) : List Sender.Op :=
  frames.flatMap fun f => [.sendFrame f.header (some (sample.encodeAll f.message.2)), .flush]

/-- A frame that a datagram has room for. -/
def FitsDatagram (maxDatagram : ℕ) (f : SentFrame n) : Prop := 64 + f.header.payloadBytes.toNat ≤ maxDatagram

instance (maxDatagram : ℕ) : DecidablePred (FitsDatagram (n := n) maxDatagram) :=
  fun _ => inferInstanceAs (Decidable (_ ≤ _))

variable {maxDatagram : ℕ} {frames : List (SentFrame n)}

theorem sendOps_valid (hframes : ∀ f ∈ frames, Sized f.message) : ∀ op ∈ sendOps frames, op.Valid ∧ op.Framed := by
  intro op hop
  obtain ⟨f, hf, hop⟩ := List.mem_flatMap.mp hop
  obtain ⟨hmagic, hbytes⟩ := hframes f hf
  have hbytes' : f.header.payloadBytes.toNat = 2 * f.message.2.length := hbytes
  rcases List.mem_pair.mp hop with rfl | rfl
  · refine ⟨fun _ => ⟨_, rfl, ?_⟩, hmagic, ?_⟩
    · rw [length_samples, hbytes']
    · rw [hbytes']
      exact dvd_mul_right _ _
  · exact ⟨trivial, trivial⟩

/-- The frames that are sent are those that a datagram has room for. -/
theorem framesOf_sendOps (hframes : ∀ f ∈ frames, Sized f.message) :
    UdpLink.framesOf true maxDatagram (sendOps frames) =
      (frames.filter fun f => FitsDatagram maxDatagram f).map fun f => (f.header, ⟨f.message.2, []⟩) := by
  induction frames with
  | nil => rfl
  | cons f frames ih =>
    have hbytes : f.header.payloadBytes.toNat = 2 * f.message.2.length := (hframes f (by simp)).payloadBytes
    have hrest := ih fun g hg => hframes g (by simp [hg])
    have hdecode := sample.decodeAll_encodeAll f.message.2 []
    rw [List.append_nil] at hdecode
    have hframe : (Sender.Op.sendFrame f.header (some (sample.encodeAll f.message.2))).frame true maxDatagram =
        if FitsDatagram maxDatagram f then some (f.header, ⟨f.message.2, []⟩) else none := by
      rw [Sender.Op.frame, hbytes, Nat.mul_div_cancel_left _ Nat.two_pos, Option.getD_some, hdecode]
      simp [FitsDatagram, hbytes]
    rw [UdpLink.framesOf] at hrest ⊢
    rw [sendOps, List.flatMap_cons, List.filterMap_append]
    show List.filterMap _ [_, _] ++ List.filterMap _ (sendOps frames) = _
    rw [hrest, List.filterMap_cons, hframe]
    by_cases hfit : FitsDatagram maxDatagram f
    · rw [if_pos hfit, List.filter_cons_of_pos (by simpa using hfit), List.map_cons]
      rfl
    · rw [if_neg hfit, List.filter_cons_of_neg (by simpa using hfit)]
      rfl

/-- After each frame the producer holds nothing back. -/
theorem after_sendOps {burst : ℕ} (K : SendKernel burst) (hframes : ∀ f ∈ frames, Sized f.message) {done : List Sender.Op}
    {p : Sender} (hp : Sender.After burst true maxDatagram done p) (hcount : p.producer.batchCount = 0) :
    ∃ q, Sender.run K p (sendOps frames) = some q ∧ Sender.After burst true maxDatagram (done ++ sendOps frames) q ∧
      q.producer.batchCount = 0 := by
  induction frames generalizing done p with
  | nil => exact ⟨p, rfl, by rwa [sendOps, List.flatMap_nil, List.append_nil], hcount⟩
  | cons f frames ih =>
    have hvalid : (Sender.Op.sendFrame f.header (some (sample.encodeAll f.message.2))).Valid :=
      (sendOps_valid hframes _ (by simp [sendOps])).1
    obtain ⟨q, hsend, hq⟩ := Sender.after_step K hvalid hp
    obtain ⟨t, hflush, ht, hcount'⟩ := UdpLink.after_flush K hq
    obtain ⟨u, hrest, hu, hlast⟩ := ih (fun g hg => hframes g (by simp [hg])) ht hcount'
    refine ⟨u, ?_, ?_, hlast⟩
    · rw [sendOps, List.flatMap_cons]
      show Sender.run K p (_ :: _ :: sendOps frames) = some u
      rw [Sender.run, List.foldlM_cons, hsend]
      show List.foldlM (Sender.step K) q (_ :: sendOps frames) = some u
      rw [List.foldlM_cons, hflush]
      exact hrest
    · rw [List.append_assoc, List.append_assoc] at hu
      exact hu

/-- What is received of frames that are sent over UDP: those that the network lets through of the ones that fit. -/
theorem udp_received (burst m : ℕ) (K : SendKernel (max burst 1)) (hframes : ∀ f ∈ frames, Sized f.message)
    (hlimit : maxDatagram ≤ recvBufSize) :
    ∃ net, Sender.run K (Sender.create true maxDatagram burst) (sendOps frames) = some net ∧
      ∀ route recvfrom recvmmsg, UdpLink.Yields m recvfrom recvmmsg (deliver route (net.wire.filterMap id)) →
        ∀ header payload allocated calls,
          received udpReceive calls (UdpReceiver.create m header payload allocated recvfrom recvmmsg) =
            ((deliver route (frames.filter fun f => FitsDatagram maxDatagram f)).take calls).map SentFrame.message := by
  obtain ⟨net, hrun, hnet, hcount⟩ := after_sendOps K hframes (Sender.after_create true maxDatagram burst) rfl
  rw [List.nil_append] at hnet
  refine ⟨net, hrun, ?_⟩
  intro route recvfrom recvmmsg hyields header payload allocated calls
  obtain ⟨hlength, hdelivered⟩ := UdpLink.delivered hnet (sendOps_valid hframes) hlimit
  rw [hcount, Nat.add_zero] at hlength
  rw [hlength, List.take_length, framesOf_sendOps hframes] at hdelivered
  rw [received_udp, hdelivered route m recvfrom recvmmsg hyields header payload allocated, deliver_map, List.map_take,
    List.map_take, List.map_map]
  rfl

/-- **UDP, end to end.**  Take any run of grebe-sg without a switch of the source, its frames sent over UDP with any burst
size and any kernel that does not fail, whatever the network loses, repeats and reorders, and any run of the viewer on what
arrives, in batches or not: each frame that the main loop polls is the decimation of a frame that had room in a datagram,
in the order in which these arrived; each channel of a block of consecutive samples that its ring accepted. -/
theorem udp_end_to_end (burst m : ℕ) (hn : n ≤ 8) (hsg : (threads n signal).Reach NoSwitch sg)
    (K : SendKernel (max burst 1)) (hlimit : maxDatagram ≤ recvBufSize) :
    ∃ net, Sender.run K (Sender.create true maxDatagram burst) (sendOps sg.sent) = some net ∧
      ∀ route recvfrom recvmmsg, UdpLink.Yields m recvfrom recvmmsg (deliver route (net.wire.filterMap id)) →
        ∀ header payload allocated s, (LinearRuntime.runtime viewerStages).Reach
            (Viewing udpReceive (.over (UdpReceiver.create m header payload allocated recvfrom recvmmsg)) value) s →
          List.SublistForall₂ (ShowsFrame sg) (s.polled viewerStages)
            (deliver route (sg.sent.filter fun f => FitsDatagram maxDatagram f)) := by
  have hsized : ∀ f ∈ sg.sent, Sized f.message := fun f hf => (sized_message hn hsg.reachable hf).1
  obtain ⟨net, hrun, hreceived⟩ := udp_received burst m K hsized hlimit
  refine ⟨net, hrun, ?_⟩
  intro route recvfrom recvmmsg hyields header payload allocated s hs
  have hpolled := polled_messages rfl hs
  have htransport : (DataSourceAdapter.over (UdpReceiver.create m header payload allocated recvfrom recvmmsg)).source.transport =
      UdpReceiver.create m header payload allocated recvfrom recvmmsg := rfl
  rw [htransport, hreceived route recvfrom recvmmsg hyields header payload allocated, List.map_take] at hpolled
  have hshown : List.SublistForall₂ (Shows value) (s.polled viewerStages)
      ((deliver route (sg.sent.filter fun f => FitsDatagram maxDatagram f)).map SentFrame.message) :=
    sublistForall₂_trans_sublist hpolled (List.take_sublist _ _)
  exact shown_of_messages hn hsg (fun f hf => (List.mem_filter.mp (mem_of_mem_deliver hf)).1) hshown

/-- The two frames over UDP. -/
theorem udp_end_to_end_two : ∃ sg : SgSender 2, sg.sent.length = 2 ∧
    ∃ net, Sender.run (Sender.oneByOne 1) (Sender.create true 1400 1) (sendOps sg.sent) = some net ∧
      ∀ route recvfrom recvmmsg, UdpLink.Yields 1 recvfrom recvmmsg (deliver route (net.wire.filterMap id)) →
        ∀ header payload allocated s, (LinearRuntime.runtime viewerStages).Reach
            (Viewing udpReceive (.over (UdpReceiver.create 1 header payload allocated recvfrom recvmmsg)) fun _ => 0) s →
          List.SublistForall₂ (ShowsFrame sg) (s.polled viewerStages)
            (deliver route (sg.sent.filter fun f => FitsDatagram 1400 f)) := by
  obtain ⟨sg, hsg, hlen⟩ := exists_two_frames
  exact ⟨sg, hlen, udp_end_to_end 1 1 (by decide) hsg (Sender.oneByOne 1) (by decide)⟩

end Transports

end Grebe
