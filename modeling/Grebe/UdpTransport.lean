import Mathlib.Tactic
import Grebe.Contracts

/-!
# Grebe.UdpTransport — frames in datagrams

`UdpConsumer` takes datagrams off its socket, skips those that are no frame and hands out the others, one at a time
(`receiveSingle`) or through a queue that one `recvmmsg` fills (`receiveBatch`).  What the calls on the socket yield is
input to the model, and where it ends the consumer is closed; closing it earlier only cuts the run short.

* `extract`: the frame of one datagram.  A payload that is not all there is left out, and the header keeps its counts.
* `nullCopy`: a payload of one byte goes to a null pointer, which ends the program; here it ends the run.
* `arrivals`: the datagrams that a run comes to, with `received_eq`: the frames received are theirs, in order.
-/

namespace Grebe

open Lib

/-- What a call on the socket yields. -/
inductive Received (β : Type)
  | got (b : β)
  | timeout
  | error

/-- The size of a receive buffer; `recvfrom` cuts longer datagrams. -/
def recvBufSize : ℕ := 65536

/-- What is in the receive buffer of a datagram. -/
def UdpConsumer.buffered (datagram : List UInt8) : List UInt8 := datagram.take recvBufSize

/-- One datagram in the receive buffer: `none` when it is skipped.  An odd byte of the payload is copied past the end of
the vector. -/
def UdpConsumer.extract (datagram : List UInt8) : Option (FrameHeaderV2 × List Int16) :=
  let buf := UdpConsumer.buffered datagram
  if buf.length < frameHeader.width then none
  else
    let header := frameHeader.decode buf
    if header.magic ≠ FRAME_HEADER_MAGIC then none
    else
      let payloadAvailable := buf.length - frameHeader.width
      if header.payloadBytes > 0 ∧ payloadAvailable ≥ header.payloadBytes.toNat then
        some (header, sample.decodeAll (header.payloadBytes.toNat / 2) (buf.drop frameHeader.width))
      else some (header, [])

/-- The datagram has a payload that is copied to a null pointer, into a vector that is fresh as that of
`TransportSource::read_frame` and that of `receive_batch`. -/
def UdpConsumer.nullCopy (datagram : List UInt8) : Bool :=
  let buf := UdpConsumer.buffered datagram
  let header := frameHeader.decode buf
  frameHeader.width + header.payloadBytes.toNat ≤ buf.length ∧ header.magic = FRAME_HEADER_MAGIC ∧
    header.nullCopy false = true

/-- The socket is what its calls will yield, `recvfrom` where `burst_size_` is one and `recvmmsg` where it is more. -/
structure UdpConsumer where
  burstSize : ℕ := 1
  recvQueue : List (FrameHeaderV2 × List Int16) := []
  recvfrom : List (Received (List UInt8)) := []
  recvmmsg : List (Received (List (List UInt8))) := []

namespace UdpConsumer

/-! ## Receiving -/

section Receive

/-- The loop of `receive_single`: the frame, and what is left of the socket; nothing is left to a program that has
ended. -/
def receiveSingle : List (Received (List UInt8)) →
    Option (FrameHeaderV2 × List Int16) × List (Received (List UInt8))
  | [] => (none, [])
  | .timeout :: socket => receiveSingle socket
  | .error :: socket => (none, socket)
  | .got datagram :: socket =>
    if nullCopy datagram then (none, [])
    else
      match extract datagram with
      | some frame => (some frame, socket)
      | none => receiveSingle socket

/-- The loop of `receive_batch`: the frame, and what is left of the queue and the socket. -/
def receiveBatch : List (FrameHeaderV2 × List Int16) → List (Received (List (List UInt8))) →
    Option (FrameHeaderV2 × List Int16) × List (FrameHeaderV2 × List Int16) × List (Received (List (List UInt8)))
  | front :: queue, socket => (some front, queue, socket)
  | [], [] => (none, [], [])
  | [], .timeout :: socket => receiveBatch [] socket
  | [], .error :: socket => (none, [], socket)
  | [], .got datagrams :: socket =>
    if datagrams.any nullCopy then (none, [], []) else receiveBatch (datagrams.filterMap extract) socket

def receiveFrame (c : UdpConsumer) : Option (FrameHeaderV2 × List Int16) × UdpConsumer :=
  if c.burstSize > 1 then
    let r := receiveBatch c.recvQueue c.recvmmsg
    (r.1, { c with recvQueue := r.2.1, recvmmsg := r.2.2 })
  else
    let r := receiveSingle c.recvfrom
    (r.1, { c with recvfrom := r.2 })

end Receive

/-! ## What arrives -/

section Arrivals

/-- What the calls yield before one fails. -/
def arrivals {β : Type} : List (Received β) → List β
  | [] => []
  | .timeout :: socket => arrivals socket
  | .error :: _ => []
  | .got b :: socket => b :: arrivals socket

/-- What `receive_single` comes to before the program ends. -/
def singles (socket : List (Received (List UInt8))) : List (List UInt8) :=
  (arrivals socket).takeWhile fun datagram => !nullCopy datagram

/-- What `receive_batch` comes to before the program ends: no datagram of the batch in which it does. -/
def batches (socket : List (Received (List (List UInt8)))) : List (List UInt8) :=
  ((arrivals socket).takeWhile fun datagrams => !datagrams.any nullCopy).flatten

/-- The datagrams that the consumer comes to. -/
def datagrams (c : UdpConsumer) : List (List UInt8) :=
  if c.burstSize > 1 then batches c.recvmmsg else singles c.recvfrom

/-- The frames that are to come. -/
def pending (c : UdpConsumer) : List (FrameHeaderV2 × List Int16) :=
  if c.burstSize > 1 then c.recvQueue ++ c.datagrams.filterMap extract else c.datagrams.filterMap extract

theorem receiveSingle_eq (socket : List (Received (List UInt8))) :
    (receiveSingle socket).1 = ((singles socket).filterMap extract).head? ∧
      ((receiveSingle socket).1 ≠ none →
        (singles (receiveSingle socket).2).filterMap extract = ((singles socket).filterMap extract).tail) := by
  induction socket with
  | nil => exact ⟨rfl, fun _ => rfl⟩
  | cons event socket ih =>
    rcases event with datagram | _ | _
    · by_cases hnull : nullCopy datagram = true
      · simp only [receiveSingle, singles, arrivals, List.takeWhile_cons, hnull]
        exact ⟨rfl, fun h => absurd rfl h⟩
      have hcopy : nullCopy datagram = false := Bool.eq_false_of_not_eq_true hnull
      rcases h : extract datagram with _ | frame
      · simpa [receiveSingle, singles, arrivals, hcopy, h] using ih
      · simp [receiveSingle, singles, arrivals, hcopy, h]
    · exact ih
    · exact ⟨rfl, fun h => absurd rfl h⟩

theorem receiveBatch_eq (queue : List (FrameHeaderV2 × List Int16)) (socket : List (Received (List (List UInt8)))) :
    (receiveBatch queue socket).1 = (queue ++ (batches socket).filterMap extract).head? ∧
      ((receiveBatch queue socket).1 ≠ none →
        (receiveBatch queue socket).2.1 ++ (batches (receiveBatch queue socket).2.2).filterMap extract =
          (queue ++ (batches socket).filterMap extract).tail) := by
  induction socket generalizing queue with
  | nil =>
    rcases queue with _ | ⟨front, queue⟩
    · exact ⟨rfl, fun _ => rfl⟩
    · exact ⟨rfl, fun _ => rfl⟩
  | cons event socket ih =>
    rcases queue with _ | ⟨front, queue⟩
    · rcases event with datagrams | _ | _
      · by_cases hnull : datagrams.any nullCopy = true
        · simp only [receiveBatch, batches, arrivals, List.takeWhile_cons, hnull]
          exact ⟨rfl, fun h => absurd rfl h⟩
        have hcopy : datagrams.any nullCopy = false := Bool.eq_false_of_not_eq_true hnull
        have hbatch : batches (.got datagrams :: socket) = datagrams ++ batches socket := by
          rw [batches, arrivals, List.takeWhile_cons_of_pos (by rw [hcopy]; rfl), List.flatten_cons, batches]
        rw [receiveBatch, if_neg hnull, hbatch, List.filterMap_append, List.nil_append]
        exact ih _
      · exact ih []
      · exact ⟨rfl, fun h => absurd rfl h⟩
    · exact ⟨rfl, fun _ => rfl⟩

/-- One call hands out the next frame. -/
theorem receiveFrame_eq (c : UdpConsumer) :
    (receiveFrame c).1 = c.pending.head? ∧
      ((receiveFrame c).1 ≠ none → (receiveFrame c).2.pending = c.pending.tail) := by
  by_cases h : c.burstSize > 1
  · simp only [receiveFrame, pending, datagrams, if_pos h]
    exact receiveBatch_eq c.recvQueue c.recvmmsg
  · simp only [receiveFrame, pending, datagrams, if_neg h]
    exact receiveSingle_eq c.recvfrom

/-- **A run hands out the frames of the datagrams it comes to**, in order, whatever timeouts and bad datagrams lie
between them and however `recvmmsg` groups them. -/
theorem received_eq (n : ℕ) (c : UdpConsumer) : received receiveFrame n c = c.pending.take n := by
  induction n generalizing c with
  | zero => simp [received]
  | succ n ih =>
    obtain ⟨hhead, htail⟩ := receiveFrame_eq c
    rcases hcall : receiveFrame c with ⟨_ | frame, c'⟩
    · have hnil : c.pending = [] := List.head?_eq_none_iff.mp (by rw [← hhead, hcall])
      simp [received, hcall, hnil]
    · rw [hcall] at hhead htail
      obtain ⟨rest, hcons⟩ : ∃ rest, c.pending = frame :: rest := List.head?_eq_some_iff.mp hhead.symm
      have hrest : c'.pending = rest := by
        have h := htail (by simp)
        rwa [hcons, List.tail_cons] at h
      simp only [received, hcall, ih, hrest, hcons, List.take_succ_cons]

/-- A datagram that is not skipped. -/
def accepts (datagram : List UInt8) : Bool :=
  frameHeader.width ≤ (buffered datagram).length ∧ (frameHeader.decode (buffered datagram)).magic = FRAME_HEADER_MAGIC

/-- The frame of an accepted datagram has its header, and the samples of a payload that is all there. -/
theorem extract_eq (datagram : List UInt8) :
    (extract datagram).map (fun r => (r.1, r.2.length)) =
      if accepts datagram then
        some (frameHeader.decode (buffered datagram),
          payloadSamples (frameHeader.decode (buffered datagram)) ((buffered datagram).length - frameHeader.width))
      else none := by
  unfold extract accepts payloadSamples
  generalize buffered datagram = buf
  simp only [decide_eq_true_eq, ne_eq]
  generalize frameHeader.decode buf = header
  by_cases hlen : buf.length < frameHeader.width
  · have hskip : ¬(frameHeader.width ≤ buf.length ∧ header.magic = FRAME_HEADER_MAGIC) :=
      fun h => absurd h.1 (not_le.mpr hlen)
    rw [if_pos hlen, if_neg hskip]
    rfl
  rw [if_neg hlen]
  by_cases hmagic : header.magic = FRAME_HEADER_MAGIC
  · have hframe : frameHeader.width ≤ buf.length ∧ header.magic = FRAME_HEADER_MAGIC := ⟨not_lt.mp hlen, hmagic⟩
    rw [if_neg (not_not.mpr hmagic), if_pos hframe]
    by_cases hfit : header.payloadBytes.toNat ≤ buf.length - frameHeader.width
    · by_cases h0 : header.payloadBytes > 0
      · have hpayload : header.payloadBytes > 0 ∧ buf.length - frameHeader.width ≥ header.payloadBytes.toNat :=
          ⟨h0, hfit⟩
        rw [if_pos hpayload, if_pos hfit, Option.map_some, Codec.length_decodeAll]
      · have hzero : header.payloadBytes = 0 := eq_zero_of_not_pos h0
        simp [hzero]
    · have hcut : ¬(header.payloadBytes > 0 ∧ buf.length - frameHeader.width ≥ header.payloadBytes.toNat) :=
        fun h => hfit h.2
      rw [if_neg hcut, if_neg hfit]
      rfl
  · have hskip : ¬(frameHeader.width ≤ buf.length ∧ header.magic = FRAME_HEADER_MAGIC) := fun h => hmagic h.2
    rw [if_pos hmagic, if_neg hskip]
    rfl

theorem filterMap_extract (ds : List (List UInt8)) :
    (ds.filterMap extract).map (fun r => (r.1, r.2.length)) =
      (ds.filter accepts).map fun d => (frameHeader.decode (buffered d),
        payloadSamples (frameHeader.decode (buffered d)) ((buffered d).length - frameHeader.width)) := by
  induction ds with
  | nil => rfl
  | cons d ds ih =>
    have hd := extract_eq d
    rcases hextract : extract d with _ | frame
    · rcases haccepts : accepts d with _ | _
      · rw [List.filterMap_cons_none hextract, List.filter_cons_of_neg (by simp [haccepts]), ih]
      · simp [hextract, haccepts] at hd
    · rcases haccepts : accepts d with _ | _
      · simp [hextract, haccepts] at hd
      · rw [hextract, haccepts, Option.map_some, if_pos rfl] at hd
        rw [List.filterMap_cons_some hextract, List.filter_cons_of_pos haccepts, List.map_cons, List.map_cons, ih,
          Option.some.inj hd]

end Arrivals

end UdpConsumer

end Grebe
