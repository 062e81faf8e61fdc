import Mathlib.Tactic
import Grebe.Lib.Codec

/-!
# Grebe.Contracts — the frame header on the wire

`FrameHeaderV2` is sent as its 64 bytes in memory, on a little-endian machine: the fields are naturally aligned, so
there is no padding.  The payload follows as `int16_t` samples, channel after channel.

A `double` is kept as its bit pattern: the transport copies it, and compares it with zero.
-/

namespace Grebe

/-- A `double`, as its bits. -/
structure Double where
  bits : UInt64
deriving DecidableEq

/-- `x > 0.0`: the sign bit is clear, and the value is neither zero nor a NaN. -/
def Double.pos (x : Double) : Bool := 0 < x.bits && x.bits ≤ 0x7FF0000000000000

/-- `x ≤ 0.0`: a zero or a negative number. -/
def Double.nonPos (x : Double) : Bool :=
  x.bits = 0 || 0x8000000000000000 ≤ x.bits && x.bits ≤ 0xFFF0000000000000

/-- `x ≥ 100e6` -/
def Double.highRate (x : Double) : Bool := 0x4197D78400000000 ≤ x.bits && x.bits ≤ 0x7FF0000000000000

theorem Double.nonPos_of_pos {x : Double} (h : x.pos = true) : x.nonPos = false := by
  simp only [Double.pos, Double.nonPos, Bool.and_eq_true, decide_eq_true_eq, Bool.or_eq_false_iff, Bool.and_eq_false_iff,
    decide_eq_false_iff_not, UInt64.le_iff_toNat_le, UInt64.lt_iff_toNat_lt] at h ⊢
  obtain ⟨hlow, hhigh⟩ := h
  have hne : x.bits ≠ 0 := by
    intro hzero
    rw [hzero] at hlow
    exact lt_irrefl _ hlow
  have hsign : (0x7FF0000000000000 : UInt64).toNat < (0x8000000000000000 : UInt64).toNat := by decide
  exact ⟨hne, .inl (by omega)⟩

/-- `0.0` -/
instance : Zero Double := ⟨⟨0⟩⟩

theorem eq_zero_of_not_pos {x : UInt32} (h : ¬x > 0) : x = 0 := by
  by_contra hne
  exact h (UInt32.pos_iff_ne_zero.mpr hne)

def FRAME_HEADER_MAGIC : UInt32 := 0x32484647

structure FrameHeaderV2 where
  magic : UInt32 := FRAME_HEADER_MAGIC
  headerBytes : UInt32 := 64
  sequence : UInt64 := 0
  producerTsNs : UInt64 := 0
  channelCount : UInt32 := 0
  blockLengthSamples : UInt32 := 0
  payloadBytes : UInt32 := 0
  headerCrc32c : UInt32 := 0
  sampleRateHz : Double := 0
  sgDropsTotal : UInt64 := 0
  firstSampleIndex : UInt64 := 0
deriving DecidableEq

section Layout

open Lib

def u32 : Codec UInt32 := .le 4 UInt32.toNat UInt32.ofNat (fun x => x.toNat_lt) fun _ => UInt32.ofNat_toNat

def u64 : Codec UInt64 := .le 8 UInt64.toNat UInt64.ofNat (fun x => x.toNat_lt) fun _ => UInt64.ofNat_toNat

def double : Codec Double := u64.map Double.bits Double.mk fun _ => rfl

/-- One sample of the payload. -/
def sample : Codec Int16 :=
  .le 2 (fun x => x.toUInt16.toNat) (fun n => (UInt16.ofNat n).toInt16) (fun x => x.toUInt16.toNat_lt) fun _ => by
    rw [UInt16.ofNat_toNat, Int16.toInt16_toUInt16]

/-- The layout of `FrameHeaderV2`: its fields in their order. -/
def frameHeader : Codec FrameHeaderV2 :=
  (u32.prod (u32.prod (u64.prod (u64.prod (u32.prod (u32.prod (u32.prod (u32.prod (double.prod
    (u64.prod u64)))))))))).map
    (fun h => (h.magic, h.headerBytes, h.sequence, h.producerTsNs, h.channelCount, h.blockLengthSamples,
      h.payloadBytes, h.headerCrc32c, h.sampleRateHz, h.sgDropsTotal, h.firstSampleIndex))
    (fun (magic, headerBytes, sequence, producerTsNs, channelCount, blockLengthSamples, payloadBytes, headerCrc32c,
      sampleRateHz, sgDropsTotal, firstSampleIndex) =>
      { magic, headerBytes, sequence, producerTsNs, channelCount, blockLengthSamples, payloadBytes, headerCrc32c,
        sampleRateHz, sgDropsTotal, firstSampleIndex })
    fun _ => rfl

@[simp] theorem width_frameHeader : frameHeader.width = 64 := rfl

@[simp] theorem width_sample : sample.width = 2 := rfl

@[simp] theorem length_frameHeader (h : FrameHeaderV2) : (frameHeader.encode h).length = 64 :=
  frameHeader.length_encode h

theorem length_samples (xs : List Int16) : (sample.encodeAll xs).length = 2 * xs.length :=
  sample.length_encodeAll xs

/-- The magic is spelled `GFH2`. -/
example : (frameHeader.encode {}).take 4 = [71, 70, 72, 50] := by decide

end Layout

/-! ## Consumers -/

section Consumer

variable {σ : Type}

/-- What the first `n` calls of an `ITransportConsumer::receive_frame` hand out, up to the first that fails. -/
def received (receive : σ → Option (FrameHeaderV2 × List Int16) × σ) : ℕ → σ → List (FrameHeaderV2 × List Int16)
  | 0, _ => []
  | n + 1, t =>
    match receive t with
    | (none, _) => []
    | (some frame, t) => frame :: received receive n t

/-- The payload is copied to a null pointer: there is a byte of it, but the vector is resized to no sample, and it has no
storage from before, which is `allocated`. -/
def FrameHeaderV2.nullCopy (header : FrameHeaderV2) (allocated : Bool) : Bool :=
  header.payloadBytes > 0 ∧ header.payloadBytes.toNat / 2 = 0 ∧ allocated = false

theorem nullCopy_iff {header : FrameHeaderV2} {allocated : Bool} :
    header.nullCopy allocated = true ↔ header.payloadBytes.toNat = 1 ∧ allocated = false := by
  have hpos : header.payloadBytes > 0 ↔ 0 < header.payloadBytes.toNat := Iff.rfl
  rw [FrameHeaderV2.nullCopy, decide_eq_true_eq, hpos, ← and_assoc]
  exact and_congr_left fun _ => by omega

theorem nullCopy_of_even {header : FrameHeaderV2} (allocated : Bool) (h : header.payloadBytes.toNat % 2 = 0) :
    header.nullCopy allocated = false := by
  rw [← Bool.not_eq_true, nullCopy_iff]
  omega

/-- How many samples the payload of a message has, when `available` bytes follow its header. -/
def payloadSamples (header : FrameHeaderV2) (available : ℕ) : ℕ :=
  if header.payloadBytes.toNat ≤ available then header.payloadBytes.toNat / 2 else 0

/-- The counts of a message are within its payload. -/
def CountsFit (header : FrameHeaderV2) (available : ℕ) : Prop :=
  header.channelCount.toNat * header.blockLengthSamples.toNat ≤ payloadSamples header available

instance (header : FrameHeaderV2) (available : ℕ) : Decidable (CountsFit header available) :=
  inferInstanceAs (Decidable (_ ≤ _))

end Consumer

end Grebe
