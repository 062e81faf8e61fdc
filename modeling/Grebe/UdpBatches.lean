import Mathlib.Tactic
import Grebe.UdpReceive

/-!
# Grebe.UdpBatches — when batches yield what single calls yield

A payload of an odd size is copied past the end of its vector, and one of a single byte to a null pointer where the
vector is fresh: in `receive_batch` always, in `receive_single` unless the caller's vector has storage.

* `Agree`: what the calls of the two modes have to have in common.
* `run_crashed`: a payload for a null pointer ends a run in batch mode, sooner or later.
* `batch_eq_single_iff`: the modes agree exactly if no accepted datagram has an odd payload; `batch_crashes` is a pair of
  datagrams on which they do not.
-/

namespace Grebe

open Lib

namespace UdpReceiver

/-! ## The end of a run -/

section Crash

variable {s : UdpReceiver}

/-- What a call in batch mode has before it: the frames in the queue, and the datagrams to come. -/
def ahead (s : UdpReceiver) (socket : List (Received (List (List UInt8)))) : ℕ :=
  s.recvQueue.length + (UdpConsumer.arrivals socket).flatten.length

/-- A payload for a null pointer is among what `recvmmsg` will take. -/
def NullAhead (socket : List (Received (List (List UInt8)))) : Prop :=
  ∃ d ∈ (UdpConsumer.arrivals socket).flatten, UdpConsumer.nullCopy d = true

/-- One call on the way to it: it ends the program, or hands out a frame and has less before it. -/
theorem receiveBatch_null {socket : List (Received (List (List UInt8)))} (h : Serving { s with recvmmsg := socket })
    (hburst : s.burstSize > 1) (hnull : NullAhead socket) :
    (receiveBatch socket s).1 = none ∧ (receiveBatch socket s).2.crashed = true ∨
      (receiveBatch socket s).1 = some true ∧ Serving (receiveBatch socket s).2 ∧
        (receiveBatch socket s).2.burstSize > 1 ∧ NullAhead (receiveBatch socket s).2.recvmmsg ∧
        ahead (receiveBatch socket s).2 (receiveBatch socket s).2.recvmmsg < ahead s socket := by
  induction socket generalizing s with
  | nil =>
    obtain ⟨d, hd, -⟩ := hnull
    cases hd
  | cons event socket ih =>
    have hrunning : Running s := h.congr rfl rfl rfl rfl rfl rfl rfl
    rcases hqueue : s.recvQueue with _ | ⟨front, queue⟩
    · rw [receiveBatch.eq_def, if_neg hrunning.notClosed, hqueue]
      dsimp only
      rw [if_neg hrunning.hasSock]
      rcases event with datagrams | _ | _
      · have hfit := h.groups hburst datagrams List.mem_cons_self
        dsimp only
        by_cases hhere : ∃ d ∈ datagrams, UdpConsumer.nullCopy d = true
        · have hcrashed := parseBatch_crashed hrunning hburst hfit hhere
          rw [if_pos hcrashed]
          exact .inl ⟨rfl, hcrashed⟩
        · have hcopy : ∀ d ∈ datagrams, UdpConsumer.nullCopy d = false := fun d hd =>
            Bool.eq_false_of_not_eq_true fun hd' => hhere ⟨d, hd, hd'⟩
          obtain ⟨t, hbatch, ht, hburst', hqueue', hrecvfrom⟩ := parseBatch_spec hrunning hburst hqueue hfit hcopy
          have hnext : Serving { t with recvmmsg := socket } :=
            h.next (ht.congr rfl rfl rfl rfl rfl rfl rfl) hburst' (hrecvfrom ▸ List.Subset.refl _)
              (List.subset_cons_self _ _)
          have hlater : NullAhead socket := by
            obtain ⟨d, hd, hd'⟩ := hnull
            rw [UdpConsumer.arrivals, List.flatten_cons, List.mem_append] at hd
            exact ⟨d, hd.resolve_left fun hmem => hhere ⟨d, hmem, hd'⟩, hd'⟩
          have hless : ahead t socket ≤ ahead s (.got datagrams :: socket) := by
            have hframes := List.length_filterMap_le frameOf datagrams
            simp only [ahead, hqueue, hqueue', UdpConsumer.arrivals, List.flatten_cons, List.length_append,
              List.length_nil]
            omega
          rw [hbatch, if_neg (by simp [ht.crashed])]
          rcases ih hnext (hburst' ▸ hburst) hlater with hstop | ⟨hret, hs, hb, hn, hlt⟩
          · exact .inl hstop
          · exact .inr ⟨hret, hs, hb, hn, hlt.trans_le hless⟩
      · have hcalled : Serving { s.called with recvmmsg := socket } :=
          h.next ((running_called hrunning hqueue).congr rfl rfl rfl rfl rfl rfl rfl) rfl (List.Subset.refl _)
            (List.subset_cons_self _ _)
        exact ih hcalled hburst hnull
      · exact absurd List.mem_cons_self h.recvmmsg
    · rw [receiveBatch_front _ hrunning.notClosed hqueue]
      refine .inr ⟨rfl, h.next (h.congr rfl rfl rfl rfl rfl rfl rfl) rfl (List.Subset.refl _) (List.Subset.refl _), hburst,
        hnull, ?_⟩
      simp only [ahead, hqueue, List.length_cons]
      omega

/-- **A payload for a null pointer ends a run in batch mode.** -/
theorem run_crashed (h : Serving s) (hburst : s.burstSize > 1) (hnull : NullAhead s.recvmmsg) :
    ∃ calls, (run calls s).2.crashed = true := by
  induction hm : ahead s s.recvmmsg using Nat.strong_induction_on generalizing s with
  | _ m ih =>
    have hcall : s.receiveFrame = receiveBatch s.recvmmsg s := if_pos hburst
    rcases receiveBatch_null h hburst hnull with ⟨hnone, hcrashed⟩ | ⟨hret, hs, hb, hn, hlt⟩
    · refine ⟨1, ?_⟩
      rw [run, hcall, show receiveBatch s.recvmmsg s = (none, (receiveBatch s.recvmmsg s).2) from Prod.ext hnone rfl]
      exact hcrashed
    · obtain ⟨calls, hcalls⟩ := ih _ (hm ▸ hlt) hs hb hn rfl
      refine ⟨calls + 1, ?_⟩
      rw [run, hcall, show receiveBatch s.recvmmsg s = (some true, (receiveBatch s.recvmmsg s).2) from Prod.ext hret rfl]
      exact hcalls

end Crash

/-! ## Batches -/

section Batches

/-- Both receivers return the same in the first `calls` calls: the frames of `datagrams`, in order and each once, every
payload copied into its vector.  Neither program has ended, and the batches come to the kernel only when the queue is
empty. -/
structure Agree (batch single : UdpReceiver) (datagrams : List (List UInt8)) (calls : ℕ) : Prop where
  same : (run calls batch).1 = (run calls single).1
  frames : (run calls batch).1 = (datagrams.filterMap frameOf).take calls
  copied : ∀ frame ∈ (run calls batch).1, frame.2.past = []
  batchLives : (run calls batch).2.crashed = false
  singleLives : (run calls single).2.crashed = false
  queuedAtCall : ∀ queued ∈ (run calls batch).2.queuedAtCall, queued = 0

variable {recvfrom : List (Received (List UInt8))} {recvmmsg : List (Received (List (List UInt8)))}

/-- Where no datagram ends the program, the frames of both modes are those of the datagrams. -/
theorem batch_eq_single {n : ℕ} (hn : n > 1) (header header' : FrameHeaderV2) (payload payload' : PayloadVector)
    (allocated allocated' : Bool) (hsingle : .error ∉ recvfrom) (hbatch : .error ∉ recvmmsg)
    (hgroups : ∀ datagrams ∈ UdpConsumer.arrivals recvmmsg, 1 ≤ datagrams.length ∧ datagrams.length ≤ n)
    (hsame : (UdpConsumer.arrivals recvmmsg).flatten = UdpConsumer.arrivals recvfrom)
    (hcopies : ∀ d ∈ UdpConsumer.arrivals recvfrom, UdpConsumer.nullCopy d = false) (calls : ℕ) :
    ((run calls (create n header payload allocated recvfrom recvmmsg)).1 =
        ((UdpConsumer.arrivals recvfrom).filterMap frameOf).take calls ∧
      Running (run calls (create n header payload allocated recvfrom recvmmsg)).2) ∧
    (run calls (create 1 header' payload' allocated' recvfrom recvmmsg)).1 =
        ((UdpConsumer.arrivals recvfrom).filterMap frameOf).take calls ∧
      Running (run calls (create 1 header' payload' allocated' recvfrom recvmmsg)).2 := by
  have hmany := ready_create header payload allocated hsingle hbatch (fun _ g hg => (hgroups g hg).2)
    (by rw [if_pos hn, hsame]; exact hcopies)
  have hone := ready_create (n := 1) header' payload' allocated' hsingle hbatch (by omega)
    (by rw [if_neg (by omega)]; exact hcopies)
  have hpending : (create n header payload allocated recvfrom recvmmsg).pending =
      (UdpConsumer.arrivals recvfrom).filterMap frameOf := by
    have hburst : (create n header payload allocated recvfrom recvmmsg).burstSize > 1 := by
      rw [burstSize_create]
      omega
    rw [pending, if_pos hburst]
    show [] ++ (UdpConsumer.arrivals recvmmsg).flatten.filterMap frameOf = _
    rw [List.nil_append, hsame]
  have hpending' : (create 1 header' payload' allocated' recvfrom recvmmsg).pending =
      (UdpConsumer.arrivals recvfrom).filterMap frameOf := if_neg (by rw [burstSize_create]; omega)
  obtain ⟨hrun, hready⟩ := run_spec hmany calls
  obtain ⟨hrun', hready'⟩ := run_spec hone calls
  rw [hpending] at hrun
  rw [hpending'] at hrun'
  exact ⟨⟨hrun, hready.toRunning⟩, hrun', hready'.toRunning⟩

/-- **When batches yield what single calls yield.**  However `recvmmsg` groups the datagrams, wherever the calls on the
socket time out and whatever the caller's variables and the buffers hold: the two modes agree in every number of calls if
and only if every accepted datagram has a payload of whole samples, or one that is not all there. -/
theorem batch_eq_single_iff {n : ℕ} (hn : n > 1) (header header' : FrameHeaderV2) (payload payload' : PayloadVector)
    (allocated allocated' : Bool) (hsingle : .error ∉ recvfrom) (hbatch : .error ∉ recvmmsg)
    (hgroups : ∀ datagrams ∈ UdpConsumer.arrivals recvmmsg, 1 ≤ datagrams.length ∧ datagrams.length ≤ n)
    (hsame : (UdpConsumer.arrivals recvmmsg).flatten = UdpConsumer.arrivals recvfrom) :
    (∀ calls, Agree (create n header payload allocated recvfrom recvmmsg)
        (create 1 header' payload' allocated' recvfrom recvmmsg) (UdpConsumer.arrivals recvfrom) calls) ↔
      ∀ d ∈ UdpConsumer.arrivals recvfrom, UdpConsumer.accepts d = true → WholeSamples (UdpConsumer.buffered d) := by
  have hrun := batch_eq_single hn header header' payload payload' allocated allocated' hsingle hbatch hgroups hsame
  constructor
  · intro hagree
    -- batch mode would come to a payload for a null pointer
    have hcopies : ∀ d ∈ UdpConsumer.arrivals recvfrom, UdpConsumer.nullCopy d = false := by
      by_contra hnull
      simp only [not_forall, Bool.not_eq_false, exists_prop] at hnull
      have hserving := serving_create header payload allocated hsingle hbatch fun _ g hg => (hgroups g hg).2
      obtain ⟨calls, hcrashed⟩ := run_crashed hserving (by rw [burstSize_create]; omega)
        (show NullAhead recvmmsg by rwa [NullAhead, hsame])
      rw [(hagree calls).batchLives] at hcrashed
      cases hcrashed
    intro d hd haccepts
    have hframe := frameOf_headed (accepts_iff.mp haccepts)
    -- and so it has returned the frame of `d` with what is behind its vector
    have hall := hagree ((UdpConsumer.arrivals recvfrom).filterMap frameOf).length
    have hpast := hall.copied _ (by
      rw [hall.frames, List.take_length]
      exact List.mem_filterMap.mpr ⟨d, hd, hframe⟩)
    exact (past_announced (accepts_iff.mp haccepts).1).mp hpast
  · intro hwhole calls
    have hcopies : ∀ d ∈ UdpConsumer.arrivals recvfrom, UdpConsumer.nullCopy d = false :=
      fun d hd => nullCopy_of_wholeSamples (hwhole d hd)
    obtain ⟨⟨hframes, hmany⟩, hframes', hone⟩ := hrun hcopies calls
    refine ⟨hframes.trans hframes'.symm, hframes, ?_, hmany.crashed, hone.crashed, hmany.queuedAtCall⟩
    intro frame hframe
    rw [hframes] at hframe
    obtain ⟨d, hd, hfound⟩ := List.mem_filterMap.mp (List.mem_of_mem_take hframe)
    have hheaded := headed_of_frameOf hfound
    obtain rfl := Option.some.inj ((frameOf_headed hheaded).symm.trans hfound)
    exact (past_announced hheaded.1).mpr (hwhole d hd (accepts_iff.mpr hheaded))

/-- A datagram with a header that announces `payloadBytes`, and the bytes that follow it. -/
def datagramOf (payloadBytes : UInt32) (rest : List UInt8) : List UInt8 :=
  frameHeader.encode { payloadBytes := payloadBytes } ++ rest

theorem headed_datagramOf (n : UInt32) (rest : List UInt8) : Headed (datagramOf n rest) := by
  refine ⟨?_, ?_⟩
  · rw [datagramOf, List.length_append, frameHeader.length_encode]
    exact Nat.le_add_right _ _
  · rw [datagramOf, frameHeader.decode_encode]

theorem wholeSamples_datagramOf (n : UInt32) (rest : List UInt8) :
    WholeSamples (datagramOf n rest) ↔ n.toNat % 2 = 0 ∨ rest.length < n.toNat := by
  rw [WholeSamples, datagramOf, frameHeader.decode_encode, List.length_append, frameHeader.length_encode]
  simp only [Nat.add_lt_add_iff_left]

theorem buffered_datagramOf {n : UInt32} {rest : List UInt8} (h : rest.length ≤ 8) :
    UdpConsumer.buffered (datagramOf n rest) = datagramOf n rest := by
  apply List.take_of_length_le
  rw [datagramOf, List.length_append, frameHeader.length_encode]
  have hwidth : frameHeader.width + 8 ≤ recvBufSize := by decide
  omega

/-- Two batches: a frame with its payload, one that is too short and one that is cut; one of an even size with more behind
it, after a batch that is no frame at all. -/
def twoBatches : List (Received (List (List UInt8))) :=
  [.timeout, .got [datagramOf 2 [1, 0], [7], datagramOf 5 [9, 9, 9]], .got [List.replicate 64 0], .timeout,
    .got [datagramOf 4 [5, 0, 6, 8, 3]]]

theorem batch_eq_single_two :
    Agree (create 3 {} .clear false ((UdpConsumer.arrivals twoBatches).flatten.map .got) twoBatches)
      (create 1 {} .clear true ((UdpConsumer.arrivals twoBatches).flatten.map .got) twoBatches)
      (UdpConsumer.arrivals ((UdpConsumer.arrivals twoBatches).flatten.map .got)) 4 := by
  refine (batch_eq_single_iff (by decide) {} {} .clear .clear false true ?_ ?_ ?_ rfl).mpr ?_ 4
  · simp
  · simp [twoBatches]
  · simp [twoBatches, UdpConsumer.arrivals]
  · intro d hd haccepts
    have hcases : d = datagramOf 2 [1, 0] ∨ d = [7] ∨ d = datagramOf 5 [9, 9, 9] ∨ d = List.replicate 64 0 ∨
        d = datagramOf 4 [5, 0, 6, 8, 3] := by
      simpa [twoBatches, UdpConsumer.arrivals] using hd
    obtain rfl | rfl | rfl | rfl | rfl := hcases
    · rw [buffered_datagramOf (by decide), wholeSamples_datagramOf]
      exact .inl rfl
    · exact absurd haccepts (by decide)
    · rw [buffered_datagramOf (by decide), wholeSamples_datagramOf]
      exact .inr (by decide)
    · exact absurd haccepts (by decide +kernel)
    · rw [buffered_datagramOf (by decide), wholeSamples_datagramOf]
      exact .inl rfl

/-- A header that announces two bytes, and these. -/
def evenMessage : List UInt8 := datagramOf 2 [1, 0]

/-- A header that announces one byte, and that byte. -/
def oneByte : List UInt8 := datagramOf 1 [7]

/-- Single calls return both frames: the first leaves the caller's vector with storage. -/
theorem run_single_both {s : UdpReceiver} (h : Running s) (hburst : s.burstSize = 1)
    (hrecvfrom : s.recvfrom = [.got evenMessage, .got oneByte]) : (run 2 s).1.length = 2 := by
  have hsamples : (frameOf evenMessage).map (fun frame => frame.2.samples) = some [1] := by decide +kernel
  have hcopy : UdpConsumer.nullCopy evenMessage = false := by decide +kernel
  obtain ⟨first, hfirst, hone⟩ := Option.map_eq_some_iff.mp hsamples
  obtain ⟨second, hsecond⟩ := Option.isSome_iff_exists.mp (by decide +kernel : (frameOf oneByte).isSome = true)
  obtain ⟨t, hcall, ht, hburst', hrecvfrom', -, -, hallocated⟩ :=
    receiveSingle_frame [.got oneByte] h (by simp [hcopy]) hfirst
  obtain ⟨u, hcall', -⟩ := receiveSingle_frame [] ht (by simp [hallocated, hone]) hsecond
  have hnow : s.receiveFrame = (some true, t) := by
    rw [receiveFrame, hrecvfrom, hburst, if_neg (by decide), hcall]
  have hnext : t.receiveFrame = (some true, u) := by
    rw [receiveFrame, hrecvfrom', hburst', hburst, if_neg (by decide), hcall']
  rw [run, hnow]
  dsimp only
  rw [run, hnext]
  rfl

/-- A batch of both ends the program. -/
theorem run_batch_crashed {s : UdpReceiver} (h : Running s) (hburst : s.burstSize = 2) (hqueue : s.recvQueue = [])
    (hrecvmmsg : s.recvmmsg = [.got [evenMessage, oneByte]]) : (run 2 s).1 = [] ∧ (run 2 s).2.crashed = true := by
  have hcrashed : ((s.called.recvdAll [evenMessage, oneByte]).parseBatch [evenMessage, oneByte].length).crashed = true :=
    parseBatch_crashed h (by rw [hburst]; decide) (by rw [hburst]; exact le_rfl) ⟨oneByte, by simp, by decide +kernel⟩
  have hcall : ∃ t : UdpReceiver, s.receiveFrame = (none, t) ∧ t.crashed = true := by
    rw [receiveFrame, hburst, if_pos (by decide), hrecvmmsg, receiveBatch.eq_def, if_neg h.notClosed, hqueue]
    dsimp only
    rw [if_neg h.hasSock, if_pos hcrashed]
    exact ⟨_, rfl, hcrashed⟩
  obtain ⟨t, hcall, ht⟩ := hcall
  rw [run, hcall]
  exact ⟨rfl, ht⟩

/-- **Batches lose frames.**  Of the same two datagrams `receive_single` returns both, where `receive_batch` returns
neither and ends the program. -/
theorem batch_crashes :
    (run 2 (create 1 {} .clear false [.got evenMessage, .got oneByte] [.got [evenMessage, oneByte]])).1.length = 2 ∧
      (run 2 (create 2 {} .clear false [.got evenMessage, .got oneByte] [.got [evenMessage, oneByte]])).1 = [] ∧
      (run 2 (create 2 {} .clear false [.got evenMessage, .got oneByte]
        [.got [evenMessage, oneByte]])).2.crashed = true := by
  have hrunning (n : ℕ) (hn : n ≤ 2) : Running (create n {} .clear false [.got evenMessage, .got oneByte]
      [.got [evenMessage, oneByte]]) := by
    refine (serving_create {} .clear false (by simp) (by simp) fun hmany g hg => ?_).toRunning
    obtain rfl : g = [evenMessage, oneByte] := by simpa [UdpConsumer.arrivals] using hg
    exact hmany
  exact ⟨run_single_both (hrunning 1 (by decide)) (burstSize_create ..) rfl,
    run_batch_crashed (hrunning 2 le_rfl) (burstSize_create ..) rfl rfl⟩

end Batches

end UdpReceiver

end Grebe
