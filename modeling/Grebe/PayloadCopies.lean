import Grebe.TransportStages
import Grebe.UdpBatches

/-!
# Grebe.PayloadCopies — what the receivers write behind a payload vector

All three receivers give the vector room for `payload_bytes / 2` samples and then copy `payload_bytes` bytes into it.
Where that is no room at all, the copy goes to a null pointer, unless the vector has storage from before: in the pipe the
`read` fails and nothing is written, the others crash.

* `receiveInto`: `receive_frame` of the pipe once more, with the vector and what `read` leaves there when it fails;
  `receiveInto_eq` compares it with `receiveFrame`.
* `no_byte_past_iff`: nothing is written past the end exactly if `payload_bytes` is even or the payload is not all there,
  or by that `read`.
-/

namespace Grebe

open Lib

/-! ## The pipe -/

section Pipe

/-- `read_all` of `len` bytes: what it puts into the buffer, also when it fails. -/
def readInto (read : ℕ → ℕ → ℕ → ℤ) (p : PipeEnd) (len : ℕ) : List UInt8 × PipeEnd :=
  if _h : len > 0 then
    let n := read p.call len p.input.length
    if _hn : n ≤ 0 then ([], { p with call := p.call + 1 })
    else
      let r := readInto read ⟨p.input.drop n.toNat, p.call + 1⟩ (len - n.toNat)
      (p.input.take n.toNat ++ r.1, r.2)
  else ([], p)
termination_by len
decreasing_by
  have : 0 < n.toNat := by omega
  omega

/-- The vector after `bytes` have been read to its start, byte for byte. -/
def PayloadVector.overwrite (v : PayloadVector) (bytes : List UInt8) : PayloadVector where
  samples :=
    let room := 2 * v.samples.length
    sample.decodeAll v.samples.length (bytes.take room ++ (sample.encodeAll v.samples).drop bytes.length)
  past := bytes.drop (2 * v.samples.length)

/-- `PipeConsumer::receive_frame` with the caller's vector, which is `allocated` or not; the header when it succeeds. -/
def PipeConsumer.receiveInto (read : ℕ → ℕ → ℕ → ℤ) (p : PipeEnd) (payload : PayloadVector) (allocated : Bool) :
    Option FrameHeaderV2 × PayloadVector × PipeEnd :=
  match readAll read p frameHeader.width with
  | (none, p) => (none, payload, p)
  | (some head, p) =>
    let header := frameHeader.decode head
    if header.magic ≠ FRAME_HEADER_MAGIC then (none, payload, p)
    else if header.nullCopy allocated then (none, payload.resize 0, { p with call := p.call + 1 })
    else if header.payloadBytes > 0 then
      let payload := payload.resize (header.payloadBytes.toNat / 2)
      let (bytes, p) := readInto read p header.payloadBytes.toNat
      (if bytes.length = header.payloadBytes.toNat then some header else none, payload.overwrite bytes, p)
    else (some header, .clear, p)

variable (k : ReadKernel)

/-- One `read` of `readInto` and of `read_all`: the end of the stream, or a first piece. -/
theorem read_cases (p : PipeEnd) {len : ℕ} (h0 : len > 0) :
    p.input = [] ∧ k.count p.call len p.input.length ≤ 0 ∨
      ∃ n : ℕ, k.count p.call len p.input.length = n ∧ 0 < n ∧ n ≤ len ∧ n ≤ p.input.length := by
  have hle := k.le_available p.call len p.input.length
  have hlen := k.le_len p.call len p.input.length
  by_cases hn : k.count p.call len p.input.length ≤ 0
  · refine .inl ⟨?_, hn⟩
    by_contra hne
    have hpos := k.pos p.call len p.input.length h0 (List.length_pos_of_ne_nil hne)
    omega
  · obtain ⟨n, hcount⟩ : ∃ n : ℕ, k.count p.call len p.input.length = n :=
      ⟨_, (Int.toNat_of_nonneg (by omega)).symm⟩
    exact .inr ⟨n, hcount, by omega, by omega, by omega⟩

/-- Whatever the counts, the buffer gets the next `len` bytes, or all that there are. -/
theorem readInto_eq (p : PipeEnd) (len : ℕ) : (readInto k.count p len).1 = p.input.take len := by
  induction hm : len using Nat.strong_induction_on generalizing p len with
  | _ m ih =>
    subst hm
    unfold readInto
    by_cases h0 : len > 0
    · rw [dif_pos h0]
      obtain ⟨hempty, hn⟩ | ⟨n, hcount, hpos, hle, -⟩ := read_cases k p h0
      · simp only [dif_pos hn]
        rw [hempty, List.take_nil]
      · have hn : ¬ (n : ℤ) ≤ 0 := by omega
        have hrest := ih (len - n) (by omega) ⟨p.input.drop n, p.call + 1⟩ (len - n) rfl
        simp only [hcount, dif_neg hn, Int.toNat_natCast, hrest]
        rw [← List.take_add, Nat.add_sub_cancel' hle]
    · obtain rfl : len = 0 := by omega
      rfl

/-- `read_all` succeeds when the buffer is full. -/
theorem readAll_eq_readInto (p : PipeEnd) (len : ℕ) :
    readAll k.count p len =
      (if (readInto k.count p len).1.length = len then some (readInto k.count p len).1 else none,
        (readInto k.count p len).2) := by
  induction hm : len using Nat.strong_induction_on generalizing p len with
  | _ m ih =>
    subst hm
    rw [readAll, readInto]
    by_cases h0 : len > 0
    · rw [dif_pos h0, dif_pos h0]
      obtain ⟨-, hn⟩ | ⟨n, hcount, hpos, hle, havailable⟩ := read_cases k p h0
      · simp only [dif_pos hn, List.length_nil, if_neg (Nat.ne_of_lt h0)]
      · have hn : ¬ (n : ℤ) ≤ 0 := by omega
        have hrest := ih (len - n) (by omega) ⟨p.input.drop n, p.call + 1⟩ (len - n) rfl
        simp only [hcount, dif_neg hn, Int.toNat_natCast, hrest, List.length_append, List.length_take_of_le havailable]
        by_cases hfull : (readInto k.count ⟨p.input.drop n, p.call + 1⟩ (len - n)).1.length = len - n
        · rw [if_pos hfull, if_pos (by omega), Option.map_some]
        · rw [if_neg hfull, if_neg (by omega), Option.map_none]
    · obtain rfl : len = 0 := by omega
      rfl

theorem length_resize (v : PayloadVector) (n : ℕ) : (v.resize n).samples.length = n := by
  rw [PayloadVector.resize, List.length_append, List.length_take, List.length_replicate]
  omega

/-- A vector of half as many samples is overwritten whole. -/
theorem samples_overwrite (v : PayloadVector) {n : ℕ} {bytes : List UInt8} (h : bytes.length = n) :
    ((v.resize (n / 2)).overwrite bytes).samples = sample.decodeAll (n / 2) bytes := by
  have hroom : 2 * (n / 2) ≤ bytes.length := by omega
  have hover : (sample.encodeAll (v.resize (n / 2)).samples).drop bytes.length = [] := by
    apply List.drop_eq_nil_of_le
    rw [length_samples, length_resize]
    exact hroom
  unfold PayloadVector.overwrite
  dsimp only
  rw [hover, length_resize, List.append_nil, ← width_sample, UdpReceiver.readsWidth_sample.decodeAll_take _ le_rfl]

/-- With the samples alone it is `receiveFrame`. -/
theorem receiveInto_eq (p : PipeEnd) (payload : PayloadVector) (allocated : Bool) :
    PipeConsumer.receiveFrame k.count allocated p =
      let r := PipeConsumer.receiveInto k.count p payload allocated
      (r.1.map fun header => (header, r.2.1.samples), r.2.2) := by
  unfold PipeConsumer.receiveFrame PipeConsumer.receiveInto
  rcases readAll k.count p frameHeader.width with ⟨_ | head, q⟩
  · rfl
  dsimp only
  generalize frameHeader.decode head = header
  by_cases hmagic : header.magic ≠ FRAME_HEADER_MAGIC
  · rw [if_pos hmagic, if_pos hmagic]
    rfl
  rw [if_neg hmagic, if_neg hmagic]
  by_cases hnull : header.nullCopy allocated = true
  · rw [if_pos hnull, if_pos hnull]
    rfl
  rw [if_neg hnull, if_neg hnull]
  by_cases h0 : header.payloadBytes > 0
  · rw [if_pos h0, if_pos h0, readAll_eq_readInto]
    by_cases hfull : (readInto k.count q header.payloadBytes.toNat).1.length = header.payloadBytes.toNat
    · simp only [if_pos hfull, Option.map_some, samples_overwrite payload hfull]
    · simp only [if_neg hfull, Option.map_none]
  · rw [if_neg h0, if_neg h0]
    rfl

end Pipe

/-! ## What is written past the end -/

section Past

/-- In the pipe. -/
theorem past_receiveInto (k : ReadKernel) (p : PipeEnd) (payload : PayloadVector) (allocated : Bool)
    (h : Headed p.input) :
    (PipeConsumer.receiveInto k.count p payload allocated).2.1.past = [] ↔
      WholeSamples p.input ∨ (frameHeader.decode p.input).nullCopy allocated = true := by
  obtain ⟨call, hread⟩ := readAll_eq k h.1
  have hdecode : frameHeader.decode (p.input.take frameHeader.width) = frameHeader.decode p.input :=
    UdpReceiver.readsWidth_frameHeader p.input
  have hlen := h.1
  unfold PipeConsumer.receiveInto WholeSamples
  rw [hread]
  dsimp only
  rw [hdecode, if_neg (not_not.mpr h.2)]
  by_cases hnull : (frameHeader.decode p.input).nullCopy allocated = true
  · rw [if_pos hnull]
    exact iff_of_true rfl (.inr hnull)
  rw [if_neg hnull, or_iff_left hnull]
  generalize (frameHeader.decode p.input).payloadBytes = n
  by_cases h0 : n > 0
  · rw [if_pos h0]
    dsimp only
    rw [PayloadVector.overwrite, length_resize, readInto_eq, UdpReceiver.past_eq_nil_iff (List.length_take_le ..),
      List.length_take, List.length_drop]
    omega
  · rw [if_neg h0, eq_zero_of_not_pos h0]
    exact iff_of_true rfl (.inl rfl)

end Past

section Main

open UdpReceiver

/-- In `receive_single`. -/
theorem past_receiveSingle {s : UdpReceiver} {datagram : List UInt8} (socket : List (Received (List UInt8)))
    (hcrashed : s.crashed = false) (hclosed : s.closed = false) (hsock : s.sock = true)
    (hbuf : s.recvBuf.length = recvBufSize) (h : Headed (UdpConsumer.buffered datagram)) :
    ((receiveSingle (.got datagram :: socket) s).2.crashed = false ∧
        (receiveSingle (.got datagram :: socket) s).2.payload.past = []) ↔
      WholeSamples (UdpConsumer.buffered datagram) := by
  have hbytes : (s.recvd datagram).recvBuf = UdpConsumer.buffered datagram ++ s.recvBuf.drop datagram.length :=
    fill_eq hbuf datagram
  rw [receiveSingle.eq_def, if_neg (by simp [hclosed, hsock])]
  dsimp only
  rw [received_length hbuf]
  by_cases hnull : UdpConsumer.nullCopy datagram = true ∧ s.allocated = false
  · obtain ⟨header, hparse⟩ := parseInto_crashed hbytes hnull.1 hnull.2
    rw [hparse]
    refine iff_of_false (fun hlives => ?_) fun hwhole => ?_
    · cases hlives.1
    · rw [nullCopy_of_wholeSamples fun _ => hwhole] at hnull
      exact Bool.false_ne_true hnull.1
  · obtain ⟨header, payload, allocated, count, hparse, hframe⟩ := parseInto_eq hbytes hnull
    rw [frameOf_headed h] at hparse hframe
    have hpayload : payload = announced (frameHeader.decode (UdpConsumer.buffered datagram))
        ((UdpConsumer.buffered datagram).drop frameHeader.width) := congrArg Prod.snd (hframe _ rfl).1
    rw [hparse]
    show s.crashed = false ∧ payload.past = [] ↔ _
    rw [hpayload, and_iff_right hcrashed]
    exact past_announced h.1

/-- What `receive_batch` queues, if no datagram ends the program. -/
theorem recvQueue_parseBatch {s : UdpReceiver} {datagrams : List (List UInt8)} (hcrashed : s.crashed = false)
    (hbufs : ∀ i < datagrams.length, (s.recvBufs i).length = recvBufSize)
    (hcopy : ∀ d ∈ datagrams, UdpConsumer.nullCopy d = false) :
    ((s.recvdAll datagrams).parseBatch datagrams.length).crashed = false ∧
      ((s.recvdAll datagrams).parseBatch datagrams.length).recvQueue = s.recvQueue ++ datagrams.filterMap frameOf := by
  obtain ⟨count, hfold⟩ := foldl_parseSlot (s := s.recvdAll datagrams) hcrashed (slotHolds_recvdAll hbufs) le_rfl
    (by rwa [List.take_length])
  rw [parseBatch, hfold, List.take_length]
  exact ⟨hcrashed, rfl⟩

/-- In `receive_batch`. -/
theorem past_parseBatch {s : UdpReceiver} {datagrams : List (List UInt8)} (hcrashed : s.crashed = false)
    (hbufs : ∀ i < datagrams.length, (s.recvBufs i).length = recvBufSize) (hqueue : s.recvQueue = []) :
    (((s.recvdAll datagrams).parseBatch datagrams.length).crashed = false ∧
        ∀ frame ∈ ((s.recvdAll datagrams).parseBatch datagrams.length).recvQueue, frame.2.past = []) ↔
      ∀ datagram ∈ datagrams, Headed (UdpConsumer.buffered datagram) →
        WholeSamples (UdpConsumer.buffered datagram) := by
  by_cases hnull : ∃ d ∈ datagrams, UdpConsumer.nullCopy d = true
  · have hdone : ((s.recvdAll datagrams).parseBatch datagrams.length).crashed = true :=
      crashed_foldl (s := s.recvdAll datagrams) hcrashed (slotHolds_recvdAll hbufs) le_rfl (by rwa [List.take_length])
    refine iff_of_false (fun hlives => ?_) fun hall => ?_
    · rw [hdone] at hlives
      cases hlives.1
    · obtain ⟨d, hd, hd'⟩ := hnull
      rw [nullCopy_of_wholeSamples fun haccepts => hall d hd (accepts_iff.mp haccepts)] at hd'
      cases hd'
  have hcopy : ∀ d ∈ datagrams, UdpConsumer.nullCopy d = false := fun d hd =>
    Bool.eq_false_of_not_eq_true fun hd' => hnull ⟨d, hd, hd'⟩
  obtain ⟨hlives, hframes⟩ := recvQueue_parseBatch hcrashed hbufs hcopy
  rw [hqueue, List.nil_append] at hframes
  simp only [hlives, hframes, List.mem_filterMap, forall_exists_index, and_imp, true_and]
  constructor
  · intro hall datagram hmem hheaded
    exact (past_announced hheaded.1).mp (hall _ datagram hmem (frameOf_headed hheaded))
  · intro hall frame datagram hmem hframe
    have hheaded := headed_of_frameOf hframe
    obtain rfl := Option.some.inj ((frameOf_headed hheaded).symm.trans hframe)
    exact (past_announced hheaded.1).mpr (hall datagram hmem hheaded)

/-- **Nothing is written past the end of a payload vector exactly if the payload is a whole number of samples, or not
all there**, or in the pipe of a single byte for a vector without storage.  In the pipe whatever is read at a time; in
`receive_single` and in `receive_batch`, where a copy to a null pointer counts as well, for every datagram and whatever
the buffers held. -/
theorem no_byte_past_iff (k : ReadKernel) (p : PipeEnd) (payload : PayloadVector) (allocated : Bool)
    (single batch : UdpReceiver) (datagram : List UInt8) (socket : List (Received (List UInt8)))
    (datagrams : List (List UInt8)) :
    (Headed p.input → ((PipeConsumer.receiveInto k.count p payload allocated).2.1.past = [] ↔
        WholeSamples p.input ∨ (frameHeader.decode p.input).nullCopy allocated = true)) ∧
      (single.crashed = false → single.closed = false → single.sock = true → single.recvBuf.length = recvBufSize →
        Headed (UdpConsumer.buffered datagram) →
        (((receiveSingle (.got datagram :: socket) single).2.crashed = false ∧
            (receiveSingle (.got datagram :: socket) single).2.payload.past = []) ↔
          WholeSamples (UdpConsumer.buffered datagram))) ∧
      (batch.crashed = false → (∀ i < datagrams.length, (batch.recvBufs i).length = recvBufSize) →
        batch.recvQueue = [] →
        ((((batch.recvdAll datagrams).parseBatch datagrams.length).crashed = false ∧
            ∀ frame ∈ ((batch.recvdAll datagrams).parseBatch datagrams.length).recvQueue, frame.2.past = []) ↔
          ∀ datagram ∈ datagrams, Headed (UdpConsumer.buffered datagram) →
            WholeSamples (UdpConsumer.buffered datagram))) :=
  ⟨past_receiveInto k p payload allocated, past_receiveSingle socket, past_parseBatch⟩

/-- A header that announces three bytes, and these. -/
def oddMessage : List UInt8 := datagramOf 3 [5, 0, 7]

theorem recvBufs_create (i : ℕ) (hi : i < 1) :
    ((create 2 {} .clear false [] []).recvBufs i).length = recvBufSize := by
  show (if i < 2 ∧ 2 > 1 then List.replicate recvBufSize 0 else []).length = recvBufSize
  rw [if_pos ⟨by omega, by decide⟩, List.length_replicate]

/-- **All three receivers write a byte past the end** of a payload of three bytes. -/
theorem odd_byte_past :
    (PipeConsumer.receiveInto bytewiseReads.count ⟨oddMessage, 0⟩ .clear false).2.1.past ≠ [] ∧
      (receiveSingle [.got oddMessage] (create 1 {} .clear false [] [])).2.payload.past ≠ [] ∧
      ∃ frame ∈ (((create 2 {} .clear false [] []).recvdAll [oddMessage]).parseBatch 1).recvQueue,
        frame.2.past ≠ [] := by
  have hheaded : Headed oddMessage := headed_datagramOf 3 [5, 0, 7]
  have hodd : ¬ WholeSamples oddMessage :=
    fun h => absurd ((wholeSamples_datagramOf 3 [5, 0, 7]).mp h) (by decide)
  have hplace : (frameHeader.decode oddMessage).nullCopy false = false := by decide +kernel
  have hcopy : UdpConsumer.nullCopy oddMessage = false := by decide +kernel
  have hpast : (frameOf oddMessage).map (fun frame => frame.2.past) = some [7] := by decide +kernel
  obtain ⟨frame, hframe, hseven⟩ := Option.map_eq_some_iff.mp hpast
  have hne : frame.2.past ≠ [] := by rw [hseven]; exact List.cons_ne_nil 7 []
  refine ⟨?_, ?_, frame, ?_, hne⟩
  · refine mt (past_receiveInto bytewiseReads ⟨oddMessage, 0⟩ .clear false hheaded).mp (not_or_intro hodd ?_)
    rw [hplace]
    exact Bool.false_ne_true
  · have hrunning : Running (create 1 {} .clear false [] []) :=
      (serving_create {} .clear false (by simp) (by simp) fun _ g hg => absurd hg List.not_mem_nil).toRunning
    obtain ⟨t, hcall, -, -, -, -, hpair, -⟩ := receiveSingle_frame [] hrunning (by simp [hcopy]) hframe
    rw [hcall, show t.payload = frame.2 from congrArg Prod.snd hpair]
    exact hne
  · have hqueue := (@recvQueue_parseBatch (create 2 {} .clear false [] []) [oddMessage] rfl recvBufs_create
      (by simp [hcopy])).2
    show frame ∈ (((create 2 {} .clear false [] []).recvdAll [oddMessage]).parseBatch [oddMessage].length).recvQueue
    rw [hqueue]
    exact List.mem_append_right _ (List.mem_filterMap.mpr ⟨oddMessage, List.mem_singleton_self _, hframe⟩)

theorem no_byte_past_even :
    (PipeConsumer.receiveInto bytewiseReads.count ⟨evenMessage, 0⟩ .clear false).2.1.past = [] ∧
      ((receiveSingle [.got evenMessage] (create 1 {} .clear false [] [])).2.crashed = false ∧
        (receiveSingle [.got evenMessage] (create 1 {} .clear false [] [])).2.payload.past = []) ∧
      (((create 2 {} .clear false [] []).recvdAll [evenMessage]).parseBatch 1).crashed = false ∧
        ∀ frame ∈ (((create 2 {} .clear false [] []).recvdAll [evenMessage]).parseBatch 1).recvQueue,
          frame.2.past = [] := by
  have hheaded : Headed evenMessage := headed_datagramOf 2 [1, 0]
  have heven : WholeSamples evenMessage := (wholeSamples_datagramOf 2 [1, 0]).mpr (.inl rfl)
  have hbuffered : UdpConsumer.buffered evenMessage = evenMessage := buffered_datagramOf (by decide)
  obtain ⟨hpipe, hsingle, hbatch⟩ := no_byte_past_iff bytewiseReads ⟨evenMessage, 0⟩ .clear false
    (create 1 {} .clear false [] []) (create 2 {} .clear false [] []) evenMessage [] [evenMessage]
  refine ⟨(hpipe hheaded).mpr (.inl heven), ?_, ?_⟩
  · exact (hsingle rfl rfl rfl List.length_replicate (hbuffered.symm ▸ hheaded)).mpr (hbuffered.symm ▸ heven)
  · apply (hbatch rfl recvBufs_create rfl).mpr
    intro datagram hmem _
    obtain rfl := List.mem_singleton.mp hmem
    exact hbuffered.symm ▸ heven

end Main

end Grebe
