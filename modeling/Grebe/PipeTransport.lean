import Mathlib.Tactic
import Grebe.Contracts

/-!
# Grebe.PipeTransport — frames over a pipe, in whatever pieces the kernel takes

`send_frame` hands header and payload to `writev` until all is written, advancing its two iovecs in place; `read_all`
calls `read` until it has all the bytes it asked for.  A system call is a function of the number of the call and of what
it is offered, so that every sequence of counts is some such function:

* `WriteKernel`, `ReadKernel` carry what a blocking pipe guarantees of the counts;
* `sendFrame_eq`, `readAll_eq`: with these, every loop ends, and the counts do not show in what was transferred;
* `receiveFrame_stream`: `receive_frame` takes a whole message off the front of a stream, or fails; `receiveFrame_eq`
  is the case of a frame that was encoded.
-/

namespace Grebe

open Lib

/-! ## `writev` -/

section Write

/-- The two iovecs of `send_frame`, each the bytes it still covers, and how many are passed. -/
structure Iovecs where
  iov0 : List UInt8
  iov1 : List UInt8
  iovcnt : ℕ

/-- What `writev` is offered. -/
def Iovecs.offered : Iovecs → List UInt8
  | ⟨_, _, 0⟩ => []
  | ⟨iov0, _, 1⟩ => iov0
  | ⟨iov0, iov1, _⟩ => iov0 ++ iov1

/-- The inner loop: drop the iovecs that `adv` bytes complete. -/
def Iovecs.skip (iov0 iov1 : List UInt8) : ℕ → ℕ → Iovecs × ℕ
  | 0, adv => (⟨iov0, iov1, 0⟩, adv)
  | iovcnt + 1, adv =>
    if adv ≥ iov0.length then skip iov1 iov1 iovcnt (adv - iov0.length) else (⟨iov0, iov1, iovcnt + 1⟩, adv)

/-- Advance the iovecs past `n` written bytes. -/
def Iovecs.advance (v : Iovecs) (n : ℕ) : Iovecs :=
  let r := skip v.iov0 v.iov1 v.iovcnt n
  if r.1.iovcnt > 0 ∧ r.2 > 0 then { r.1 with iov0 := r.1.iov0.drop r.2 } else r.1

/-- The outcome of a send: whether it succeeded, the bytes the kernel took, and the number of the next call. -/
structure Sent where
  ok : Bool
  bytes : List UInt8
  call : ℕ
deriving DecidableEq

/-- The outer loop of `send_frame`; a count that is not positive ends it. -/
def sendLoop (writev : ℕ → ℕ → ℤ) (total call written : ℕ) (v : Iovecs) : Sent :=
  if _h : written < total then
    let n := writev call v.offered.length
    if hn : n ≤ 0 then ⟨false, [], call + 1⟩
    else
      let r := sendLoop writev total (call + 1) (written + n.toNat) (v.advance n.toNat)
      { r with bytes := v.offered.take n.toNat ++ r.bytes }
  else ⟨true, [], call⟩
termination_by total - written
decreasing_by
  have : 0 < n.toNat := by omega
  omega

/-- `PipeProducer::send_frame`; `payload` is what the pointer leads to, if it is not null, and `stale` is in the second
iovec when it is not set up. -/
def sendFrame (writev : ℕ → ℕ → ℤ) (stale : List UInt8) (call : ℕ) (header : FrameHeaderV2)
    (payload : Option (List UInt8)) : Sent :=
  let head := frameHeader.encode header
  match payload with
  | some bytes =>
    if header.payloadBytes > 0 then
      let body := bytes.take header.payloadBytes.toNat
      sendLoop writev (head.length + header.payloadBytes.toNat) call 0 ⟨head, body, 2⟩
    else sendLoop writev head.length call 0 ⟨head, stale, 1⟩
  | none => sendLoop writev head.length call 0 ⟨head, stale, 1⟩

/-- A kernel whose every `writev` takes at least one of the bytes it is offered, and no more than them. -/
structure WriteKernel where
  count : ℕ → ℕ → ℤ
  pos : ∀ call offered, 0 < offered → 1 ≤ count call offered
  le : ∀ call offered, count call offered ≤ offered

/-- **Advancing in place.**  After `n` bytes the iovecs offer what is left. -/
theorem offered_advance {v : Iovecs} {n : ℕ} (hcnt : v.iovcnt ≤ 2) (hn : n ≤ v.offered.length) :
    (v.advance n).offered = v.offered.drop n ∧ (v.advance n).iovcnt ≤ 2 := by
  obtain ⟨a, b, c⟩ := v
  obtain rfl | rfl | rfl : c = 0 ∨ c = 1 ∨ c = 2 := by
    simp only at hcnt
    omega
  · simp [Iovecs.advance, Iovecs.skip, Iovecs.offered]
  · -- the last iovec: done, or shortened
    simp only [Iovecs.offered] at hn
    by_cases ha : n ≥ a.length
    · obtain rfl : n = a.length := by omega
      simp [Iovecs.advance, Iovecs.skip, Iovecs.offered]
    · by_cases h0 : n > 0
      · simp [Iovecs.advance, Iovecs.skip, Iovecs.offered, ha, h0]
      · obtain rfl : n = 0 := by omega
        simp [Iovecs.advance, Iovecs.skip, Iovecs.offered, ha]
  · simp only [Iovecs.offered, List.length_append] at hn
    by_cases ha : n ≥ a.length
    · -- the header is out, and perhaps a part of the payload
      have hdrop : (a ++ b).drop n = b.drop (n - a.length) := by
        rw [List.drop_append, List.drop_of_length_le ha, List.nil_append]
      by_cases hb : n - a.length ≥ b.length
      · simp [Iovecs.advance, Iovecs.skip, Iovecs.offered, ha, hb, hdrop]
      · by_cases h0 : n - a.length > 0
        · simp [Iovecs.advance, Iovecs.skip, Iovecs.offered, ha, hb, h0, hdrop]
        · have hz : n - a.length = 0 := by omega
          simp only [hz] at hb hdrop
          simp [Iovecs.advance, Iovecs.skip, Iovecs.offered, ha, hb, hz, hdrop]
    · -- within the header
      have hdrop : (a ++ b).drop n = a.drop n ++ b := by
        rw [List.drop_append_of_le_length (by omega)]
      by_cases h0 : n > 0
      · simp [Iovecs.advance, Iovecs.skip, Iovecs.offered, ha, h0, hdrop]
      · obtain rfl : n = 0 := by omega
        simp [Iovecs.advance, Iovecs.skip, Iovecs.offered, ha]

/-- Whatever the counts, the loop ends, after no more calls than there are bytes, with all of them written in order. -/
theorem sendLoop_eq (k : WriteKernel) {total call written : ℕ} {v : Iovecs} (hcnt : v.iovcnt ≤ 2)
    (hv : written + v.offered.length = total) :
    (sendLoop k.count total call written v).ok = true ∧
      (sendLoop k.count total call written v).bytes = v.offered ∧
      (sendLoop k.count total call written v).call ≤ call + v.offered.length := by
  induction hm : total - written using Nat.strong_induction_on generalizing call written v with
  | _ m ih =>
    unfold sendLoop
    by_cases hlt : written < total
    · have hpos := k.pos call v.offered.length (by omega)
      have hle := k.le call v.offered.length
      have hn : ¬ k.count call v.offered.length ≤ 0 := by omega
      obtain ⟨n, hcount⟩ : ∃ n : ℕ, k.count call v.offered.length = n := ⟨_, (Int.toNat_of_nonneg (by omega)).symm⟩
      rw [hcount] at hpos hle hn
      obtain ⟨hoff, hcnt'⟩ := offered_advance (n := n) hcnt (by omega)
      have hlen : (v.advance n).offered.length = v.offered.length - n := by rw [hoff, List.length_drop]
      obtain ⟨hok, hbytes, hcall⟩ := @ih (total - (written + n)) (by omega) (call + 1) (written + n) (v.advance n) hcnt'
        (by omega) rfl
      rw [dif_pos hlt]
      simp only [hcount, dif_neg hn, Int.toNat_natCast]
      exact ⟨hok, by rw [hbytes, hoff, List.take_append_drop], by omega⟩
    · have hnil : v.offered = [] := List.length_eq_zero_iff.mp (by omega)
      rw [dif_neg hlt, hnil]
      exact ⟨rfl, rfl, le_rfl⟩

/-- **`send_frame` under any chunking**: it succeeds, after no more calls than there are bytes, and writes the header and
then the payload. -/
theorem sendFrame_eq (k : WriteKernel) (stale : List UInt8) (call : ℕ) {header : FrameHeaderV2} {payload : List UInt8}
    (hlen : payload.length = header.payloadBytes.toNat) :
    (sendFrame k.count stale call header (some payload)).ok = true ∧
      (sendFrame k.count stale call header (some payload)).bytes = frameHeader.encode header ++ payload ∧
      (sendFrame k.count stale call header (some payload)).call ≤
        call + (frameHeader.encode header ++ payload).length := by
  by_cases h0 : header.payloadBytes > 0
  · have htake : payload.take header.payloadBytes.toNat = payload := List.take_of_length_le hlen.le
    simp only [sendFrame, if_pos h0, htake]
    exact sendLoop_eq k (v := ⟨_, _, 2⟩) le_rfl (by simp [Iovecs.offered, hlen])
  · have hzero : header.payloadBytes = 0 := eq_zero_of_not_pos h0
    obtain rfl : payload = [] := List.length_eq_zero_iff.mp (by rw [hlen, hzero]; rfl)
    simp only [sendFrame, if_neg h0, List.append_nil]
    exact sendLoop_eq k (v := ⟨_, _, 1⟩) (by simp) (by simp [Iovecs.offered])

end Write

/-! ## `read` -/

section Read

/-- The reading end of a pipe: the bytes not yet read, and the number of the next call.  Its writer has closed the other
end, so that after the last byte a read yields zero. -/
structure PipeEnd where
  input : List UInt8
  call : ℕ
deriving DecidableEq

/-- `read_all` of `len` bytes; a count that is not positive ends it without success. -/
def readAll (read : ℕ → ℕ → ℕ → ℤ) (p : PipeEnd) (len : ℕ) : Option (List UInt8) × PipeEnd :=
  if _h : len > 0 then
    let n := read p.call len p.input.length
    if _hn : n ≤ 0 then (none, { p with call := p.call + 1 })
    else
      let r := readAll read ⟨p.input.drop n.toNat, p.call + 1⟩ (len - n.toNat)
      (r.1.map fun bytes => p.input.take n.toNat ++ bytes, r.2)
  else (some [], p)
termination_by len
decreasing_by
  have : 0 < n.toNat := by omega
  omega

/-- `PipeConsumer::receive_frame` into a vector that is `allocated` or not.  The vector has room for `payload_bytes / 2`
samples; an odd byte more is read past its end.  A `read` to a null pointer fails and takes nothing. -/
def PipeConsumer.receiveFrame (read : ℕ → ℕ → ℕ → ℤ) (allocated : Bool) (p : PipeEnd) :
    Option (FrameHeaderV2 × List Int16) × PipeEnd :=
  match readAll read p frameHeader.width with
  | (none, p) => (none, p)
  | (some head, p) =>
    let header := frameHeader.decode head
    if header.magic ≠ FRAME_HEADER_MAGIC then (none, p)
    else if header.nullCopy allocated then (none, { p with call := p.call + 1 })
    else if header.payloadBytes > 0 then
      match readAll read p header.payloadBytes.toNat with
      | (none, p) => (none, p)
      | (some body, p) => (some (header, sample.decodeAll (header.payloadBytes.toNat / 2) body), p)
    else (some (header, []), p)

/-- A kernel whose every `read` yields at least one byte while there is one, at most what is asked for and there, and
zero at the end of the stream. -/
structure ReadKernel where
  count : ℕ → ℕ → ℕ → ℤ
  pos : ∀ call len available, 0 < len → 0 < available → 1 ≤ count call len available
  le_len : ∀ call len available, count call len available ≤ len
  le_available : ∀ call len available, count call len available ≤ available

variable (k : ReadKernel)

/-- Whatever the counts, `read_all` gets the next `len` bytes when the stream has them. -/
theorem readAll_eq {p : PipeEnd} {l : ℕ} (hlen : l ≤ p.input.length) :
    ∃ call, readAll k.count p l = (some (p.input.take l), ⟨p.input.drop l, call⟩) := by
  induction hm : l using Nat.strong_induction_on generalizing p l with
  | _ m ih =>
    subst hm
    unfold readAll
    by_cases h0 : l > 0
    · have hpos := k.pos p.call l p.input.length h0 (by omega)
      have hle := k.le_len p.call l p.input.length
      obtain ⟨n, hcount⟩ : ∃ n : ℕ, k.count p.call l p.input.length = n :=
        ⟨_, (Int.toNat_of_nonneg (by omega)).symm⟩
      rw [hcount] at hpos hle
      have hn : ¬ (n : ℤ) ≤ 0 := by omega
      obtain ⟨call, hrest⟩ := @ih (l - n) (by omega) ⟨p.input.drop n, p.call + 1⟩ (l - n)
        (by rw [List.length_drop]; omega) rfl
      refine ⟨call, ?_⟩
      rw [dif_pos h0]
      simp only [hcount, dif_neg hn, Int.toNat_natCast, hrest, Option.map_some, List.drop_drop]
      have hsum : n + (l - n) = l := by omega
      rw [hsum, ← List.take_add, hsum]
    · obtain rfl : l = 0 := by omega
      exact ⟨p.call, by simp⟩

/-- At the end of a stream that is too short, `read_all` fails. -/
theorem readAll_short {p : PipeEnd} {len : ℕ} (hlen : p.input.length < len) : (readAll k.count p len).1 = none := by
  induction hm : len using Nat.strong_induction_on generalizing p len with
  | _ m ih =>
    subst hm
    unfold readAll
    have hle := k.le_available p.call len p.input.length
    by_cases hn : k.count p.call len p.input.length ≤ 0
    · rw [dif_pos (by omega)]
      simp only [dif_pos hn]
    · obtain ⟨n, hcount⟩ : ∃ n : ℕ, k.count p.call len p.input.length = n :=
        ⟨_, (Int.toNat_of_nonneg (by omega)).symm⟩
      rw [hcount] at hle hn
      have hrest := @ih (len - n) (by omega) ⟨p.input.drop n, p.call + 1⟩ (len - n)
        (by rw [List.length_drop]; omega) rfl
      rw [dif_pos (by omega)]
      simp only [hcount, dif_neg hn, Int.toNat_natCast, hrest, Option.map_none]

/-- What `read_all` gets is as long as what it is asked for. -/
theorem length_readAll {p q : PipeEnd} {l : ℕ} {bytes : List UInt8} (h : readAll k.count p l = (some bytes, q)) :
    bytes.length = l := by
  rcases le_or_gt l p.input.length with hle | hlt
  · obtain ⟨call, hread⟩ := readAll_eq k hle
    obtain rfl : p.input.take l = bytes := by simpa using (congrArg Prod.fst hread).symm.trans (congrArg Prod.fst h)
    rw [List.length_take, min_eq_left hle]
  · have hshort := readAll_short k hlt
    rw [h] at hshort
    cases hshort

/-- The message at the front of the stream is whole: a header with the right magic, and the payload it announces, for
which there is a place to read it to. -/
def wholeMessage (allocated : Bool) (input : List UInt8) : Bool :=
  let header := frameHeader.decode (input.take frameHeader.width)
  frameHeader.width + header.payloadBytes.toNat ≤ input.length ∧ header.magic = FRAME_HEADER_MAGIC ∧
    header.nullCopy allocated = false

/-- The samples that are read from the bytes after a header. -/
def FrameHeaderV2.samples (header : FrameHeaderV2) (bytes : List UInt8) : List Int16 :=
  sample.decodeAll (header.payloadBytes.toNat / 2) (bytes.take header.payloadBytes.toNat)

/-- A header with its samples, if the bytes after it are as many as it announces and a fresh vector has a place for
them. -/
def FrameHeaderV2.withSamples (header : FrameHeaderV2) (bytes : List UInt8) : Option (FrameHeaderV2 × List Int16) :=
  if header.payloadBytes.toNat ≤ bytes.length ∧ header.nullCopy false = false then some (header, header.samples bytes)
  else none

/-- What a stream has at its front for a fresh vector: a header and samples, or no message. -/
def message (input : List UInt8) : Option (FrameHeaderV2 × List Int16) :=
  let header := frameHeader.decode (input.take frameHeader.width)
  if wholeMessage false input then some (header, header.samples (input.drop frameHeader.width)) else none

theorem message_append {head rest : List UInt8} (hhead : head.length = frameHeader.width) :
    message (head ++ rest) =
      if (frameHeader.decode head).magic = FRAME_HEADER_MAGIC then (frameHeader.decode head).withSamples rest
      else none := by
  unfold message wholeMessage FrameHeaderV2.withSamples
  rw [List.take_left' hhead, List.drop_left' hhead, List.length_append, hhead]
  by_cases hmagic : (frameHeader.decode head).magic = FRAME_HEADER_MAGIC
  · simp only [hmagic, if_true, true_and, decide_eq_true_eq, Nat.add_le_add_iff_left]
  · rw [if_neg hmagic, if_neg fun h => hmagic (of_decide_eq_true h).2.1]

/-- **`receive_frame` of any stream**: it takes a whole message off the front, or fails. -/
theorem receiveFrame_stream (allocated : Bool) (p : PipeEnd) :
    let header := frameHeader.decode (p.input.take frameHeader.width)
    if wholeMessage allocated p.input then
      ∃ call, PipeConsumer.receiveFrame k.count allocated p =
        (some (header, header.samples (p.input.drop frameHeader.width)),
          ⟨p.input.drop (frameHeader.width + header.payloadBytes.toNat), call⟩)
    else (PipeConsumer.receiveFrame k.count allocated p).1 = none := by
  unfold wholeMessage PipeConsumer.receiveFrame FrameHeaderV2.samples
  generalize hheader : frameHeader.decode (p.input.take frameHeader.width) = header
  simp only [decide_eq_true_eq]
  by_cases hhead : frameHeader.width ≤ p.input.length
  · obtain ⟨call, hread⟩ := readAll_eq k (p := p) hhead
    rw [hread]
    dsimp only
    rw [hheader]
    by_cases hmagic : header.magic = FRAME_HEADER_MAGIC
    · rw [if_neg (not_not.mpr hmagic)]
      by_cases hnull : header.nullCopy allocated = true
      · rw [if_pos hnull, if_neg fun h => by simp [hnull] at h]
      have hplace : header.nullCopy allocated = false := Bool.eq_false_of_not_eq_true hnull
      rw [if_neg hnull]
      by_cases h0 : header.payloadBytes > 0
      · rw [if_pos h0]
        by_cases hbody : header.payloadBytes.toNat ≤ (p.input.drop frameHeader.width).length
        · obtain ⟨call', hread'⟩ := readAll_eq k (p := ⟨p.input.drop frameHeader.width, call⟩) hbody
          rw [List.length_drop] at hbody
          rw [if_pos ⟨by omega, hmagic, hplace⟩, hread']
          exact ⟨call', by rw [List.drop_drop]⟩
        · have hshort := readAll_short k (p := ⟨p.input.drop frameHeader.width, call⟩) (not_le.mp hbody)
          rw [List.length_drop] at hbody
          rw [if_neg fun h => hbody (by omega)]
          split
          · rfl
          · rename_i hsome
            rw [hsome] at hshort
            cases hshort
      · have hzero : header.payloadBytes = 0 := eq_zero_of_not_pos h0
        rw [if_neg h0, if_pos ⟨by rw [hzero]; exact hhead, hmagic, hplace⟩, hzero]
        exact ⟨call, rfl⟩
    · rw [if_pos hmagic, if_neg fun h => hmagic h.2.1]
  · have hshort := readAll_short k (p := p) (not_le.mp hhead)
    rw [if_neg fun h => hhead (by omega)]
    split
    · rfl
    · rename_i hsome
      rw [hsome] at hshort
      cases hshort

/-- **A frame that is there is read back**: the header, and the samples of its payload. -/
theorem receiveFrame_eq (allocated : Bool) (header : FrameHeaderV2) (samples : List Int16) (rest : List UInt8)
    (call : ℕ) (hmagic : header.magic = FRAME_HEADER_MAGIC) (hlen : header.payloadBytes.toNat = 2 * samples.length) :
    ∃ call', PipeConsumer.receiveFrame k.count allocated
        ⟨frameHeader.encode header ++ sample.encodeAll samples ++ rest, call⟩ =
      (some (header, samples), ⟨rest, call'⟩) := by
  have hwidth : (frameHeader.encode header).length = frameHeader.width := frameHeader.length_encode header
  have hbody : (sample.encodeAll samples).length = header.payloadBytes.toNat := by rw [length_samples, hlen]
  have hdecode : frameHeader.decode (frameHeader.encode header) = header := by
    have h := frameHeader.decode_encode header []
    rwa [List.append_nil] at h
  have hsamples : header.samples (sample.encodeAll samples ++ rest) = samples := by
    have h := sample.decodeAll_encodeAll samples []
    rw [List.append_nil] at h
    rw [FrameHeaderV2.samples, List.take_left' hbody, hlen, Nat.mul_div_cancel_left _ Nat.two_pos, h]
  have hstream := receiveFrame_stream k allocated
    ⟨frameHeader.encode header ++ (sample.encodeAll samples ++ rest), call⟩
  have heven : header.payloadBytes.toNat % 2 = 0 := by omega
  have hwhole : wholeMessage allocated (frameHeader.encode header ++ (sample.encodeAll samples ++ rest)) = true := by
    simp only [wholeMessage, List.take_left' hwidth, hdecode, hmagic, List.length_append, hwidth, hbody,
      nullCopy_of_even allocated heven, decide_eq_true_eq]
    exact ⟨by omega, trivial, trivial⟩
  dsimp only at hstream
  rw [if_pos hwhole, List.take_left' hwidth, List.drop_left' hwidth, hdecode, hsamples, ← List.drop_drop,
    List.drop_left' hwidth, List.drop_left' hbody] at hstream
  rw [List.append_assoc]
  exact hstream

/-- At the end of the stream there is no frame. -/
theorem receiveFrame_nil (allocated : Bool) (call : ℕ) :
    (PipeConsumer.receiveFrame k.count allocated ⟨[], call⟩).1 = none :=
  receiveFrame_stream k allocated ⟨[], call⟩

/-- The headers of the first whole messages of a stream, at most `n`, for a reader with a fresh vector for each. -/
def heads : ℕ → List UInt8 → List FrameHeaderV2
  | 0, _ => []
  | n + 1, input =>
    if wholeMessage false input then
      let header := frameHeader.decode (input.take frameHeader.width)
      header :: heads n (input.drop (frameHeader.width + header.payloadBytes.toNat))
    else []

/-- **A run hands out the messages at the front of the stream**, in order, whatever the kernel does. -/
theorem received_pipe (n : ℕ) (p : PipeEnd) :
    (received (PipeConsumer.receiveFrame k.count false) n p).map (fun r => (r.1, r.2.length)) =
      (heads n p.input).map fun header => (header, payloadSamples header header.payloadBytes.toNat) := by
  induction n generalizing p with
  | zero => rfl
  | succ n ih =>
    have hstep := receiveFrame_stream k false p
    by_cases hwhole : wholeMessage false p.input
    · rw [if_pos hwhole] at hstep
      obtain ⟨call, hreceive⟩ := hstep
      simp only [received, hreceive, heads, if_pos hwhole, List.map_cons, ih, FrameHeaderV2.samples,
        Codec.length_decodeAll, payloadSamples, le_refl, if_true]
    · rw [if_neg hwhole] at hstep
      rcases hreceive : PipeConsumer.receiveFrame k.count false p with ⟨_ | frame, p'⟩
      · simp [received, hreceive, heads, hwhole]
      · rw [hreceive] at hstep
        cases hstep

end Read

end Grebe
