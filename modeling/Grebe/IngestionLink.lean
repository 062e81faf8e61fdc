import Grebe.EndToEnd
import Grebe.IngestionThread

/-!
# Grebe.IngestionLink — the ingestion thread behind grebe-sg

The ingestion thread with a transport as its source, at whose other end grebe-sg sends its frames.

* `frames_received`: the thread reads the messages of the transport.
* `gaps_counted`: where it reads some of numbered messages, in their order, the gaps that it reports are those that it has
  not read between the first and the last.
* `pipe_ingested`: over a pipe there are no gaps, and each ring gets fronts of consecutive blocks of what the ring at the
  other end has accepted.
* `udp_gaps`: over UDP the gaps are the frames that the network has lost, or that no datagram had room for.
-/

namespace Grebe

open Lib

/-! ## The source -/

namespace IngestionThread

section Transport

variable {σ : Type} {n : ℕ} {receive : σ → Option (FrameHeaderV2 × List Int16) × σ} {transport : σ}

/-- `TransportSource`, as the thread uses it. -/
def transportDataSource (receive : σ → Option (FrameHeaderV2 × List Int16) × σ) : IDataSource (TransportSource σ) where
  readFrame := TransportSource.readFrame receive
  sampleRateHz src := src.sampleRate

/-- The buffer of a message. -/
def bufferOf (m : FrameHeaderV2 × List Int16) : FrameBuffer where
  sequence := m.1.sequence
  producerTsNs := m.1.producerTsNs
  channelCount := m.1.channelCount
  samplesPerChannel := m.1.blockLengthSamples
  data := m.2

/-- The thread behind a transport. -/
def behind (n : ℕ) (receive : σ → Option (FrameHeaderV2 × List Int16) × σ) (transport : σ) :
    Lts (IngestionThread (TransportSource σ) n) (Label n) :=
  threads n (transportDataSource receive) { transport, started := true }

theorem readFrame_ok {src src' : TransportSource σ} {frame frame' : FrameBuffer} (hstarted : src.started = true)
    (hread : src.readFrame receive frame = (.ok, frame', src')) :
    ∃ m, receive src.transport = (some m, src'.transport) ∧ frame' = bufferOf m ∧ src'.started = true := by
  unfold TransportSource.readFrame at hread
  rw [if_neg (by simp [hstarted])] at hread
  rcases hreceive : receive src.transport with ⟨_ | m, transport⟩
  · rw [hreceive] at hread
    cases hread
  · rw [hreceive] at hread
    cases hread
    exact ⟨m, rfl, rfl, hstarted⟩

theorem readFrame_noData {src src' : TransportSource σ} {frame frame' : FrameBuffer} :
    src.readFrame receive frame ≠ (.noData, frame', src') := by
  intro hread
  unfold TransportSource.readFrame at hread
  split_ifs at hread
  · cases hread
  · split at hread <;> cases hread

/-- Where the thread is in the messages of the transport. -/
structure Reading (receive : σ → Option (FrameHeaderV2 × List Int16) × σ) (transport : σ)
    (s : IngestionThread (TransportSource σ) n) : Prop where
  frames : s.frames = (Grebe.received receive s.frames.length transport).map bufferOf
  started : s.pc ≠ .exited → s.source.started = true
  rest : s.pc ≠ .exited → ∀ k, Grebe.received receive (s.frames.length + k) transport =
    Grebe.received receive s.frames.length transport ++ Grebe.received receive k s.source.transport

/-- A step that reads nothing. -/
theorem Reading.of_eq {s s' : IngestionThread (TransportSource σ) n} (h : Reading receive transport s)
    (hframes : s'.frames = s.frames) (hsource : s'.source = s.source) (hpc : s.pc ≠ .exited ∨ s'.pc = .exited) :
    Reading receive transport s' := by
  have hon : s'.pc ≠ .exited → s.pc ≠ .exited := fun hne => hpc.resolve_right hne
  refine ⟨by rw [hframes]; exact h.frames, fun hne => ?_, fun hne => ?_⟩
  · rw [hsource]
    exact h.started (hon hne)
  · rw [hframes, hsource]
    exact h.rest (hon hne)

theorem reading_step {s s' : IngestionThread (TransportSource σ) n} {l : Label n} (h : Reading receive transport s)
    (hst : s.step (transportDataSource receive) l = some s') : Reading receive transport s' := by
  rcases step_cases hst with
    hpc | hpc | ⟨hpc, hread⟩ | ⟨hpc, hread⟩ | hpc | ⟨hpc, -⟩ | ⟨hpc, -⟩ | ⟨hpc, -⟩ | hpc | hpc | _ | _ | _
  case receive frame next =>
    have hne : s.pc ≠ .exited := by simp [hpc]
    obtain ⟨m, hreceive, rfl, hstarted⟩ := readFrame_ok (h.started hne) hread
    have hnext (k : ℕ) : Grebe.received receive (s.frames.length + 1 + k) transport =
        Grebe.received receive s.frames.length transport ++ m :: Grebe.received receive k next.transport := by
      rw [Nat.add_assoc, Nat.add_comm 1 k, h.rest hne (k + 1), Grebe.received, hreceive]
    have hlength (frame : FrameBuffer) : (s.frames ++ [frame]).length = s.frames.length + 1 := by simp
    have hone : Grebe.received receive (s.frames.length + 1) transport =
        Grebe.received receive s.frames.length transport ++ [m] := hnext 0
    refine ⟨?_, fun _ => hstarted, fun _ k => ?_⟩
    · show s.frames ++ [bufferOf m] = _
      show _ = (Grebe.received receive (s.frames ++ [bufferOf m]).length transport).map bufferOf
      rw [hlength, hone, List.map_append, ← h.frames]
      rfl
    · show Grebe.received receive ((s.frames ++ [bufferOf m]).length + k) transport =
        Grebe.received receive (s.frames ++ [bufferOf m]).length transport ++ _
      rw [hlength, hnext, hone, List.append_assoc]
      rfl
  case wait => exact absurd hread readFrame_noData
  case halt => exact h.of_eq rfl rfl (.inr rfl)
  case leave => exact ⟨h.frames, fun hne => absurd rfl hne, fun hne => absurd rfl hne⟩
  case look => exact h.of_eq rfl rfl (.inl (by simp [hpc]))
  case done => exact h.of_eq rfl rfl (.inl (by simp [hpc]))
  case skip => exact h.of_eq rfl rfl (.inl (by simp [hpc]))
  case push => exact h.of_eq rfl rfl (.inl (by simp [hpc]))
  case pushed => exact h.of_eq rfl rfl (.inl (by simp [hpc]))
  case dropped => exact h.of_eq rfl rfl (.inl (by simp [hpc]))
  case stop => exact ⟨h.frames, h.started, h.rest⟩
  case pop => exact ⟨h.frames, h.started, h.rest⟩
  case discard => exact ⟨h.frames, h.started, h.rest⟩

/-- **The thread reads the messages of the transport**, one after the other. -/
theorem frames_received {s : IngestionThread (TransportSource σ) n} (hs : (behind n receive transport).Reachable s) :
    s.frames = (Grebe.received receive s.frames.length transport).map bufferOf := by
  have hreading : Reading receive transport s := by
    refine hs.invariant (I := Reading receive transport) (fun t h0 => ?_) fun _ _ _ h _ hst => reading_step h hst
    obtain ⟨slots, pos, counted, rfl⟩ := h0
    exact ⟨rfl, fun _ => rfl, fun _ k => congrArg (Grebe.received receive · transport) (Nat.zero_add k)⟩
  exact hreading.frames

/-- The thread reads the first message. -/
theorem exists_read {m : FrameHeaderV2 × List Int16} (h : Grebe.received receive 1 transport = [m]) :
    ∃ s, (behind n receive transport).Reachable s ∧ s.frames = [bufferOf m] := by
  obtain ⟨next, hreceive⟩ : ∃ next, receive transport = (some m, next) := by
    unfold Grebe.received at h
    split at h
    · cases h
    · rename_i m' next hreceive
      exact ⟨next, by rw [hreceive, (List.cons.inj h).1]⟩
  obtain ⟨start, hstart⟩ : ∃ start : IngestionThread (TransportSource σ) n,
      start = { source := { transport, started := true }, rings := fun _ => .new 1 Nat.one_pos,
                dropCounters := fun _ => if true then some {} else none } := ⟨_, rfl⟩
  have hinit : (behind n receive transport).Reachable start :=
    .init ⟨fun _ => 1, fun _ => Nat.one_pos, fun _ => true, hstart⟩
  have hlook : (behind n receive transport).step start .thread = some { start with pc := .read } := by
    subst hstart
    rfl
  obtain ⟨src, hsrc⟩ : ∃ src, start.source.readFrame receive start.frame = (.ok, bufferOf m, src) := by
    subst hstart
    simp only [TransportSource.readFrame, hreceive, Bool.true_eq_false, if_false]
    exact ⟨_, rfl⟩
  have hread : (behind n receive transport).step { start with pc := .read } .thread =
      some ({ start with pc := .read }.received (transportDataSource receive) (bufferOf m) src) := by
    simp only [behind, threads, step, stepThread, transportDataSource, hsrc]
  have hframes : start.frames = [] := by rw [hstart]
  exact ⟨_, (hinit.step trivial hlook).step trivial hread, by simp [received, hframes]⟩

/-- The number of a message is its place. -/
def Numbered (ms : List (FrameHeaderV2 × List Int16)) : Prop :=
  ∀ (i : ℕ) (m : FrameHeaderV2 × List Int16), ms[i]? = some m → m.1.sequence.toNat = i

theorem Numbered.rising {ms : List (FrameHeaderV2 × List Int16)} (h : Numbered ms) :
    ms.Pairwise fun m m' => m.1.sequence < m'.1.sequence := by
  rw [List.pairwise_iff_getElem]
  intro i j hi hj hlt
  rw [UInt64.lt_iff_toNat_lt, h i _ (List.getElem?_eq_getElem hi), h j _ (List.getElem?_eq_getElem hj)]
  exact hlt

/-- **The gaps are what was left out.**  Where the thread has read some of numbered messages, in their order, the gaps that
it reports are those messages that it has not read, from the first that it has read to the last. -/
theorem gaps_counted {ms shown pre mid post : List (FrameHeaderV2 × List Int16)}
    {s : IngestionThread (TransportSource σ) n} (hs : (behind n receive transport).Reachable s)
    (hnumbered : Numbered ms) (hframes : s.frames = shown.map bufferOf)
    (hshown : shown.Sublist ms) (hms : ms = pre ++ mid ++ post) (hfirst : mid.head? = shown.head?)
    (hlast : mid.getLast? = shown.getLast?) : s.sequenceGaps.toNat + shown.length = mid.length := by
  have hinv := reach_gapInv hs
  rw [hinv.published]
  rcases List.eq_nil_or_concat' shown with rfl | ⟨front, b, hb⟩
  · obtain rfl : mid = [] := by simpa using hfirst
    rw [(hinv.none_read hframes).2]
    rfl
  · obtain ⟨a, ha⟩ : ∃ a, shown.head? = some a := by
      rw [← Option.ne_none_iff_exists', ne_eq, List.head?_eq_none_iff, hb]
      simp
    have hblast : shown.getLast? = some b := by simp [hb]
    rw [ha] at hfirst
    rw [hblast] at hlast
    have hpos : 0 < mid.length := List.length_pos_of_mem (List.mem_of_getLast? hlast)
    have hanum : a.1.sequence.toNat = pre.length := by
      apply hnumbered
      rw [hms, List.append_assoc, List.getElem?_append_right le_rfl, Nat.sub_self, ← List.head?_eq_getElem?,
        List.head?_append, hfirst]
      rfl
    have hbnum : b.1.sequence.toNat = pre.length + (mid.length - 1) := by
      apply hnumbered
      rw [hms, List.append_assoc, List.getElem?_append_right (Nat.le_add_right _ _), Nat.add_sub_cancel_left,
        List.getElem?_append_left (by omega), ← List.getLast?_eq_getElem?, hlast]
    have hrising : Rising s.frames := by
      rw [Rising, hframes, List.pairwise_map]
      exact hnumbered.rising.sublist hshown
    have hgaps := hinv.gaps hrising (bufferOf a) (bufferOf b) (by rw [hframes, List.head?_map, ha]; rfl)
      (by rw [hframes, List.getLast?_map, hblast]; rfl)
    have hacount : (bufferOf a).sequence.toNat = pre.length := hanum
    have hbcount : (bufferOf b).sequence.toNat = pre.length + (mid.length - 1) := hbnum
    rw [hframes, List.length_map, hacount, hbcount] at hgaps
    omega

end Transport

end IngestionThread

/-! ## The frames of grebe-sg -/

namespace SgSender

section Numbers

variable {n : ℕ} {signal : ℕ → ℕ → ℕ → Int16} {s s' : SgSender n}

theorem number_cases {l : Label} (hst : s.Step signal l s') :
    (s'.sent = s.sent ∧ s'.sequence = s.sequence) ∨
      ∃ f, s'.sent = s.sent ++ [f] ∧ f.header.sequence = s.sequence ∧ s'.sequence = s.sequence + 1 := by
  rcases hst with _ | _ | _ | _ | _ | _ | _ | _ | _ | _ | _ | _ | _ | _ | _ | _ | _ | _
  case send => exact .inr ⟨_, rfl, rfl, rfl⟩
  all_goals exact .inl ⟨rfl, rfl⟩

/-- The frames are numbered as they are sent. -/
structure NumberInv (s : SgSender n) : Prop where
  next : s.sequence = UInt64.ofNat s.sent.length
  sent : ∀ (i : ℕ) (f : SentFrame n), s.sent[i]? = some f → f.header.sequence = UInt64.ofNat i

theorem reach_numberInv (hs : (threads n signal).Reachable s) : NumberInv s := by
  refine hs.invariant (I := NumberInv) (fun t h0 => ?_) fun t _ t' h _ hst => ?_
  · obtain ⟨slots, pos, blockSize, -, rfl⟩ := h0
    exact ⟨rfl, by simp [started]⟩
  · rcases number_cases (step_cases hst) with ⟨hsent, hnext⟩ | ⟨f, hsent, hf, hnext⟩
    · refine ⟨by rw [hnext, hsent, h.next], fun i f hi => ?_⟩
      rw [hsent] at hi
      exact h.sent i f hi
    · refine ⟨?_, fun i g hi => ?_⟩
      · rw [hnext, hsent, h.next, List.length_append, List.length_singleton, UInt64.ofNat_add]
        rfl
      · rw [hsent] at hi
        rcases Nat.lt_trichotomy i t.sent.length with hlt | rfl | hgt
        · rw [List.getElem?_append_left hlt] at hi
          exact h.sent i g hi
        · rw [List.getElem?_concat_length] at hi
          obtain rfl := Option.some.inj hi
          rw [hf, h.next]
        · rw [List.getElem?_eq_none (by simp; omega)] at hi
          cases hi

theorem numbered_sent (hs : (threads n signal).Reachable s) (hcount : s.sent.length ≤ 2 ^ 64) :
    IngestionThread.Numbered (s.sent.map SentFrame.message) := by
  intro i m hi
  rw [List.getElem?_map] at hi
  obtain ⟨f, hf, rfl⟩ := Option.map_eq_some_iff.mp hi
  have hlt : i < s.sent.length := (List.getElem?_eq_some_iff.mp hf).1
  show f.header.sequence.toNat = i
  rw [(reach_numberInv hs).sent i f hf, UInt64.toNat_ofNat', Nat.mod_eq_of_lt (by omega)]

/-- The blocks of the first frames are the first samples that the ring accepted. -/
theorem slices_flatten (hs : (threads n signal).Reach NoSwitch s) {pre post : List (SentFrame n)}
    (hsent : s.sent = pre ++ post) (ch : Fin n) :
    (pre.map fun f => f.slice ch).flatten = (s.rings ch).accepted.take (total pre) := by
  induction pre using List.reverseRecOn generalizing post with
  | nil => simp [total]
  | append_singleton pre f ih =>
    have hsplit : s.sent = pre ++ f :: post := by rw [hsent, List.append_assoc, List.singleton_append]
    have htotal : total (pre ++ [f]) = total pre + f.block := by simp [total]
    rw [List.map_append, List.flatten_append, List.map_singleton, List.flatten_singleton, ih hsplit,
      (slice_eq hs hsplit ch).1, htotal, List.take_add]

end Numbers

end SgSender

/-! ## The two transports -/

section Links

open IngestionThread

variable {n : ℕ} {signal : ℕ → ℕ → ℕ → Int16} {sg : SgSender n}

/-- What a frame of grebe-sg has for a ring is its block of that channel. -/
theorem offered_message (hn : n ≤ 8) (hs : (SgSender.threads n signal).Reachable sg) {f : SentFrame n} (hf : f ∈ sg.sent)
    (ch : Fin n) : IngestionThread.offered n (bufferOf f.message) ch = (f.slice ch).map Sample.value := by
  obtain ⟨-, hchannels, -, hpayload⟩ := reach_packed hs f hf
  have hcount : chCount n (bufferOf f.message) = n := by
    show (if f.header.channelCount ≤ UInt32.ofNat n then f.header.channelCount else UInt32.ofNat n).toNat = n
    rw [hchannels, ite_self, UInt32.toNat_ofNat', Nat.mod_eq_of_lt (by omega)]
  have hfit : ch.val * f.block + f.block ≤ n * f.block := by
    rw [← Nat.succ_mul]
    exact Nat.mul_le_mul_right _ ch.isLt
  have hdata : InData (bufferOf f.message) ch := by
    show ch.val * f.block + f.block ≤ (f.payload.map Sample.value).length
    rw [List.length_map, hpayload]
    exact hfit
  rw [IngestionThread.offered, if_pos ⟨by rw [hcount]; exact ch.isLt, hdata⟩, SentFrame.slice, List.map_take, List.map_drop]
  rfl

/-- **Over a pipe.**  Take any run of grebe-sg without a switch of the source, its frames through a pipe, in whatever pieces
the kernel takes and yields them, and any run of an ingestion thread at the other end: it reads the frames that were sent,
without a gap, and each ring gets, in order, fronts of consecutive blocks of samples that the ring at the other end has
accepted. -/
theorem pipe_ingested (hn : n ≤ 8) (hsg : (SgSender.threads n signal).Reach SgSender.NoSwitch sg)
    (hcount : sg.sent.length ≤ 2 ^ 64) (w : WriteKernel) (r : ReadKernel) (stale : ℕ → List UInt8)
    {s : IngestionThread (TransportSource PipeEnd) n}
    (hs : (behind n (PipeConsumer.receiveFrame r.count false)
      ⟨(sendAll w.count stale 0 (sg.sent.map SentFrame.message)).2, 0⟩).Reachable s) :
    s.frames = (sg.sent.take s.frames.length).map (fun f => bufferOf f.message) ∧ s.sequenceGaps = 0 ∧
      ∀ ch : Fin n, TakesFronts (s.rings ch).accepted (s.offers ch) ∧
        (s.offers ch).flatten <+: (sg.rings ch).accepted.map Sample.value := by
  have hsized : ∀ m ∈ sg.sent.map SentFrame.message, Sized m := by
    intro m hm
    obtain ⟨f, hf, rfl⟩ := List.mem_map.mp hm
    exact (sized_message hn hsg.reachable hf).1
  have hread := frames_received hs
  rw [sendAll_eq w stale 0 hsized, received_wire r _ _ hsized] at hread
  have hframes : s.frames = (sg.sent.take s.frames.length).map (fun f => bufferOf f.message) := by
    rw [← List.map_take, List.map_map] at hread
    exact hread
  refine ⟨hframes, ?_, fun ch => ⟨(reach_booksInv hs ch).fronts, ?_⟩⟩
  · have hsplit : sg.sent.map SentFrame.message = [] ++ (sg.sent.map SentFrame.message).take s.frames.length ++
        (sg.sent.map SentFrame.message).drop s.frames.length := (List.take_append_drop _ _).symm
    have hcounted := gaps_counted hs (SgSender.numbered_sent hsg.reachable hcount) hread (List.take_sublist _ _) hsplit
      rfl rfl
    have hzero : s.sequenceGaps.toNat = 0 := by omega
    exact UInt64.toNat_inj.mp hzero
  · obtain ⟨pre, hpre, hoffers⟩ : ∃ pre, pre <+: sg.sent ∧
        s.offers ch = pre.map fun f => IngestionThread.offered n (bufferOf f.message) ch := by
      obtain ⟨count, hread⟩ : ∃ count, s.frames = (sg.sent.take count).map fun f => bufferOf f.message := ⟨_, hframes⟩
      rw [IngestionThread.offers, hread]
      split_ifs
      · exact ⟨_, List.take_prefix _ _, List.map_map⟩
      · refine ⟨(sg.sent.take count).dropLast, (List.dropLast_prefix _).trans (List.take_prefix _ _), ?_⟩
        rw [← List.map_dropLast, List.map_map]
        rfl
    obtain ⟨post, hsent⟩ := hpre
    have hblocks : s.offers ch = (pre.map fun f => f.slice ch).map (List.map Sample.value) := by
      rw [hoffers, List.map_map]
      exact List.map_congr_left fun f hf => offered_message hn hsg.reachable (by rw [← hsent]; simp [hf]) ch
    rw [hblocks, ← List.map_flatten, SgSender.slices_flatten hsg hsent.symm ch]
    exact (List.take_prefix _ _).map _

/-- **Over UDP.**  Take any run of grebe-sg, its frames sent over UDP with any burst size and any kernel that does not fail,
whatever a network loses that neither repeats nor reorders, and any run of an ingestion thread on what arrives, in batches
or not: the gaps that it reports are the frames that it has not read, from the first that it has read to the last. -/
theorem udp_gaps {k maxDatagram : ℕ} (burst m : ℕ) (hn : n ≤ 8) (hsg : (SgSender.threads n signal).Reachable sg)
    (hcount : sg.sent.length ≤ 2 ^ 64) (K : SendKernel (max burst 1)) (hlimit : maxDatagram ≤ recvBufSize) :
    ∃ net, Sender.run K (Sender.create true maxDatagram burst) (sendOps sg.sent) = some net ∧
      ∀ route recvfrom recvmmsg, route.Pairwise (· < ·) →
        UdpLink.Yields m recvfrom recvmmsg (deliver route (net.wire.filterMap id)) →
          ∀ header payload allocated s,
            (behind k udpReceive (UdpReceiver.create m header payload allocated recvfrom recvmmsg)).Reachable s →
            ∃ shown : List (SentFrame n), shown.Sublist (sg.sent.filter fun f => FitsDatagram maxDatagram f) ∧
              s.frames = shown.map (fun f => bufferOf f.message) ∧
              ∀ pre mid post, sg.sent = pre ++ mid ++ post → mid.head? = shown.head? → mid.getLast? = shown.getLast? →
                s.sequenceGaps.toNat + shown.length = mid.length := by
  have hsized : ∀ f ∈ sg.sent, Sized f.message := fun f hf => (sized_message hn hsg hf).1
  obtain ⟨net, hrun, hreceived⟩ := udp_received burst m K hsized hlimit
  refine ⟨net, hrun, ?_⟩
  intro route recvfrom recvmmsg hrising hyields header payload allocated s hs
  have hread := frames_received hs
  rw [hreceived route recvfrom recvmmsg hyields header payload allocated, List.map_map] at hread
  have hsub := (List.take_sublist s.frames.length _).trans
    (deliver_sublist hrising (sg.sent.filter fun f => FitsDatagram maxDatagram f))
  refine ⟨_, hsub, hread, ?_⟩
  intro pre mid post hsent hfirst hlast
  have hcounted := gaps_counted hs (SgSender.numbered_sent hsg hcount)
    (hread.trans List.map_map.symm) ((hsub.trans List.filter_sublist).map SentFrame.message)
    (by rw [hsent, List.map_append, List.map_append]) (by rw [List.head?_map, List.head?_map, hfirst])
    (by rw [List.getLast?_map, List.getLast?_map, hlast])
  rwa [List.length_map, List.length_map] at hcounted

/-- The first of two frames is read, a byte at a time on either side of the pipe. -/
theorem pipe_ingested_two : ∃ (sg : SgSender 2) (s : IngestionThread (TransportSource PipeEnd) 2),
    sg.sent.length = 2 ∧ s.frames.length = 1 ∧ s.sequenceGaps = 0 ∧
      ∀ ch : Fin 2, TakesFronts (s.rings ch).accepted (s.offers ch) ∧
        (s.offers ch).flatten <+: (sg.rings ch).accepted.map Sample.value := by
  obtain ⟨sg, hsg, hlen⟩ := exists_two_frames
  obtain ⟨f, g, hsent⟩ := List.length_eq_two.mp hlen
  have hsized : ∀ m ∈ sg.sent.map SentFrame.message, Sized m := by
    intro m hm
    obtain ⟨f, hf, rfl⟩ := List.mem_map.mp hm
    exact (sized_message (by decide) hsg.reachable hf).1
  have hfirst : received (PipeConsumer.receiveFrame bytewiseReads.count false) 1
      ⟨(sendAll bytewiseWrites.count (fun _ => []) 0 (sg.sent.map SentFrame.message)).2, 0⟩ = [f.message] := by
    rw [sendAll_eq bytewiseWrites _ 0 hsized, received_wire bytewiseReads _ _ hsized, hsent]
    rfl
  obtain ⟨s, hs, hframes⟩ := exists_read hfirst
  obtain ⟨-, hgaps, hrings⟩ :=
    pipe_ingested (by decide) hsg (by rw [hlen]; decide) bytewiseWrites bytewiseReads (fun _ => []) hs
  exact ⟨sg, s, hlen, by rw [hframes]; rfl, hgaps, hrings⟩

/-- The two frames over UDP. -/
theorem udp_gaps_two : ∃ sg : SgSender 2, sg.sent.length = 2 ∧
    ∃ net, Sender.run (Sender.oneByOne 1) (Sender.create true 1400 1) (sendOps sg.sent) = some net ∧
      ∀ route recvfrom recvmmsg, route.Pairwise (· < ·) →
        UdpLink.Yields 1 recvfrom recvmmsg (deliver route (net.wire.filterMap id)) →
          ∀ header payload allocated (s : IngestionThread _ 2),
            (behind 2 udpReceive (UdpReceiver.create 1 header payload allocated recvfrom recvmmsg)).Reachable s →
              ∃ shown : List (SentFrame 2), shown.Sublist (sg.sent.filter fun f => FitsDatagram 1400 f) ∧
                s.frames = shown.map (fun f => bufferOf f.message) ∧
                ∀ pre mid post, sg.sent = pre ++ mid ++ post → mid.head? = shown.head? →
                  mid.getLast? = shown.getLast? → s.sequenceGaps.toNat + shown.length = mid.length := by
  obtain ⟨sg, hsg, hlen⟩ := exists_two_frames
  exact ⟨sg, hlen, udp_gaps 1 1 (by decide) hsg.reachable (by rw [hlen]; decide) (Sender.oneByOne 1) (by decide)⟩

end Links

end Grebe
