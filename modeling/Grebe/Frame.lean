import Mathlib.Tactic

/-!
# Grebe.Frame — blocks of samples between the stages

A `Frame` carries its counts and, apart from them, its samples: nothing ties the length of `data` to the counts, and the
code that reads the samples relies on `Frame.Covered`.  The rate is a parameter: its bit pattern on the wire, a rational
number in the stages that compute with it.

Who owns the samples of a frame is the subject of `Grebe.FrameOwnership`: a `Frame` here is its value.
-/

namespace Grebe

variable {ρ : Type}

/-- `FrameBuffer`, what a data source fills. -/
structure FrameBuffer where
  sequence : UInt64 := 0
  producerTsNs : UInt64 := 0
  channelCount : UInt32 := 0
  samplesPerChannel : UInt32 := 0
  data : List Int16 := []
deriving DecidableEq

structure Frame (ρ : Type) where
  sequence : UInt64
  producerTsNs : UInt64
  channelCount : UInt32
  samplesPerChannel : UInt32
  sampleRateHz : ρ
  firstSampleIndex : UInt64
  flags : UInt32
  data : List Int16
deriving DecidableEq

namespace Frame

variable [Zero ρ]

/-- `make_owned`: zeroed samples, and the other fields at their defaults. -/
def makeOwned (channels samplesPerCh : UInt32) : Frame ρ where
  sequence := 0
  producerTsNs := 0
  channelCount := channels
  samplesPerChannel := samplesPerCh
  sampleRateHz := 0
  firstSampleIndex := 0
  flags := 0
  data := List.replicate (channels.toNat * samplesPerCh.toNat) 0

/-- `from_frame_buffer`; the legacy buffer has no rate. -/
def fromFrameBuffer (fb : FrameBuffer) : Frame ρ where
  sequence := fb.sequence
  producerTsNs := fb.producerTsNs
  channelCount := fb.channelCount
  samplesPerChannel := fb.samplesPerChannel
  sampleRateHz := 0
  firstSampleIndex := 0
  flags := 0
  data := fb.data

omit [Zero ρ]

variable (f : Frame ρ)

def dataCount : ℕ := f.data.length

/-- The number of channels, and of samples of each. -/
def channels : ℕ := f.channelCount.toNat

def spc : ℕ := f.samplesPerChannel.toNat

/-- The indices of the samples of channel `ch` in `data`. -/
def channelIndices (ch : ℕ) : List ℕ := List.range' (ch * f.spc) f.spc

/-- The samples of channel `ch`; an index outside `data` reads an arbitrary value, here zero. -/
def channelData (ch : ℕ) : List Int16 := (f.channelIndices ch).map fun i => f.data.getD i 0

/-- The samples cover the counts. -/
def Covered : Prop := f.channels * f.spc ≤ f.dataCount

instance : Decidable f.Covered := inferInstanceAs (Decidable (_ ≤ _))

@[simp] theorem length_channelData (ch : ℕ) : (f.channelData ch).length = f.spc := by
  simp [channelData, channelIndices]

theorem mem_channelIndices {ch i : ℕ} : i ∈ f.channelIndices ch ↔ ch * f.spc ≤ i ∧ i < (ch + 1) * f.spc := by
  rw [channelIndices, List.mem_range'_1, Nat.succ_mul]

/-- **The channels of a covered frame lie in its samples**, and of no other frame. -/
theorem covered_iff : f.Covered ↔ ∀ ch < f.channels, ∀ i ∈ f.channelIndices ch, i < f.dataCount := by
  constructor
  · intro h ch hch i hi
    have hmul : (ch + 1) * f.spc ≤ f.channels * f.spc := Nat.mul_le_mul_right _ hch
    exact lt_of_lt_of_le ((f.mem_channelIndices.mp hi).2.trans_le hmul) h
  · intro h
    by_contra hlt
    have hlt' : f.dataCount < f.channels * f.spc := not_le.mp hlt
    -- the last index of the last channel is read
    have hpos : 0 < f.channels ∧ 0 < f.spc := by
      constructor <;> exact Nat.pos_of_ne_zero fun h0 => by simp [h0] at hlt'
    have hlast : f.channels * f.spc = (f.channels - 1 + 1) * f.spc := by rw [Nat.sub_add_cancel hpos.1]
    have hmem : f.channels * f.spc - 1 ∈ f.channelIndices (f.channels - 1) := by
      rw [mem_channelIndices, ← hlast, Nat.sub_one_mul]
      omega
    have := h _ (Nat.sub_lt hpos.1 Nat.one_pos) _ hmem
    omega

/-- In a covered frame `channelData` is a slice of the samples. -/
theorem channelData_eq (h : f.Covered) {ch : ℕ} (hch : ch < f.channels) :
    f.channelData ch = (f.data.drop (ch * f.spc)).take f.spc := by
  have hmul : (ch + 1) * f.spc ≤ f.data.length := le_trans (Nat.mul_le_mul_right _ hch) h
  rw [Nat.succ_mul] at hmul
  apply List.ext_getElem (by simp; omega)
  intro i hi hi'
  rw [length_channelData] at hi
  have hlt : ch * f.spc + i < f.data.length := by omega
  simp [channelData, channelIndices, List.getElem?_eq_getElem hlt]

end Frame

/-! ## Channels one after the other -/

section Concat

/-- `memcpy` of samples to `dst + off`. -/
def memcpy (dst : List Int16) (off : ℕ) (src : List Int16) : List Int16 :=
  dst.take off ++ src ++ dst.drop (off + src.length)

/-- The loop that copies the result of channel `ch` to `dst + ch * spc`. -/
def concatChannels (spc : ℕ) : ℕ → List Int16 → List (List Int16) → List Int16
  | _, dst, [] => dst
  | ch, dst, result :: results => concatChannels spc (ch + 1) (memcpy dst (ch * spc) result) results

variable {spc : ℕ} {results : List (List Int16)}

theorem length_flatten_of_forall (h : ∀ r ∈ results, r.length = spc) :
    results.flatten.length = results.length * spc := by
  rw [List.length_flatten, List.map_congr_left h, List.map_const', List.sum_replicate, smul_eq_mul]

theorem concatChannels_eq (h : ∀ r ∈ results, r.length = spc) {ch : ℕ} {dst : List Int16}
    (hdst : dst.length = (ch + results.length) * spc) :
    concatChannels spc ch dst results = dst.take (ch * spc) ++ results.flatten := by
  induction results generalizing ch dst with
  | nil =>
    rw [List.length_nil, Nat.add_zero] at hdst
    simp [concatChannels, ← hdst]
  | cons result results ih =>
    have hresult : result.length = spc := h result (by simp)
    have hroom : ch * spc + spc ≤ dst.length := by
      rw [hdst, List.length_cons, ← Nat.succ_mul]
      exact Nat.mul_le_mul_right _ (by omega)
    have htake : (dst.take (ch * spc)).length = ch * spc := by
      rw [List.length_take]
      omega
    have hlen : (memcpy dst (ch * spc) result).length = (ch + 1 + results.length) * spc := by
      have hsame : (ch + 1 + results.length) * spc = dst.length := by
        rw [hdst, List.length_cons]
        congr 1
        omega
      rw [hsame, memcpy, List.length_append, List.length_append, htake, List.length_drop, hresult]
      omega
    rw [concatChannels, ih (fun r hr => h r (by simp [hr])) hlen, memcpy, List.flatten_cons, ← List.append_assoc,
      Nat.succ_mul, List.take_left' (by rw [List.length_append, htake, hresult])]

/-- Results of the one length that there is room for end up one after the other. -/
theorem concatChannels_flatten (h : ∀ r ∈ results, r.length = spc) {n : ℕ} (hn : n = results.length) :
    concatChannels spc 0 (List.replicate (n * spc) 0) results = results.flatten := by
  rw [concatChannels_eq h (by rw [List.length_replicate, hn, Nat.zero_add]), Nat.zero_mul, List.take_zero,
    List.nil_append]

/-- Slice `ch` of results of one length is result `ch`. -/
theorem take_drop_flatten (h : ∀ r ∈ results, r.length = spc) {ch : ℕ} (hch : ch < results.length) :
    (results.flatten.drop (ch * spc)).take spc = results[ch] := by
  have hsplit : results.flatten = (results.take ch).flatten ++ (results[ch] ++ (results.drop (ch + 1)).flatten) := by
    rw [← List.flatten_cons, ← List.drop_eq_getElem_cons hch, ← List.flatten_append, List.take_append_drop]
  have hbefore : (results.take ch).flatten.length = ch * spc := by
    have htake : ∀ r ∈ results.take ch, r.length = spc := fun r hr => h r (List.mem_of_mem_take hr)
    rw [length_flatten_of_forall htake, List.length_take, min_eq_left hch.le]
  rw [hsplit, List.drop_left' hbefore, List.take_left' (h _ (List.getElem_mem hch))]

/-- The channels of a frame whose samples are so concatenated. -/
theorem channelData_of_flatten {f : Frame ρ} (h : ∀ r ∈ results, r.length = f.spc) (hdata : f.data = results.flatten)
    (hchannels : f.channels = results.length) {ch : ℕ} (hch : ch < results.length) :
    f.channelData ch = results[ch] := by
  have hcovered : f.Covered := by
    rw [Frame.Covered, Frame.dataCount, hdata, length_flatten_of_forall h, hchannels]
  rw [f.channelData_eq hcovered (by omega), hdata, take_drop_flatten h hch]

end Concat

end Grebe
