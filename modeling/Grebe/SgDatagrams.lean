import Grebe.SgOptions
import Grebe.SgSenderIndices
import Grebe.UdpProducer

/-!
# Grebe.SgDatagrams — the frames of grebe-sg in UDP mode

At the start the block size is capped so that a frame fits a datagram.  The GUI thread stores a block length that the
user selects as it is, and `send_frame` refuses a frame that is too large, which ends the sender.

* `udpThreads`: the threads of `Grebe.SgSender` from a start of `Grebe.SgOptions`, with the answers of `send_frame`.
* `sent_fits_iff`: in every run, a frame fits if and only if its block is within the cap.
* `datagrams_fit`: so all do in the runs whose selections are; `oversized_selection` is one in which a selection is not.
-/

namespace Grebe

open Lib

/-- The block lengths of the combo box. -/
def blockOptions : List UInt32 := [1024, 2048, 4096, 8192, 16384, 65536]

theorem blockOptions_le : ∀ b ∈ blockOptions, b.toNat ≤ 65536 := by
  have hall : blockOptions.all (fun b => b.toNat ≤ 65536) = true := by decide +kernel
  intro b hb
  exact of_decide_eq_true (List.all_eq_true.mp hall b hb)

/-- What `UdpProducer::send_frame` returns, where `ok` tells whether the socket takes the datagram. -/
def sendFrameResult (maxDatagramSize : ℕ) (header : FrameHeaderV2) (ok : Bool) : Bool :=
  ok && decide (64 + header.payloadBytes.toNat ≤ maxDatagramSize)

/-- So it does without batches, as grebe-sg uses it. -/
theorem returned_sendFrame {burst : ℕ} (K : SendKernel burst) {s : Sender} (hburst : s.producer.burstSize ≤ 1)
    (header : FrameHeaderV2) (payload : Bool) :
    ∃ t, s.sendFrame K header payload = some t ∧
      t.returned = s.returned ++ [sendFrameResult s.producer.maxDatagramSize header s.producer.sock] := by
  unfold Sender.sendFrame sendFrameResult
  by_cases hsock : s.producer.sock = false
  · exact ⟨_, if_pos hsock, by simp [Sender.ret, hsock]⟩
  rw [if_neg hsock]
  rw [Bool.not_eq_false] at hsock
  by_cases hlarge : 64 + header.payloadBytes.toNat > s.producer.maxDatagramSize
  · exact ⟨_, if_pos hlarge, by simp [Sender.ret, hsock, hlarge]⟩
  · rw [if_neg hlarge, if_neg (not_lt.mpr hburst)]
    refine ⟨_, rfl, ?_⟩
    simp [Sender.sendScatterGather, not_lt.mpr (K.sent s.calls), Sender.ret, Sender.took, hsock, not_lt.mp hlarge]

namespace SgSender

variable {opts : SgOptions} {signal : ℕ → ℕ → ℕ → Int16}

/-! ## Steps -/

section Steps

variable (opts : SgOptions) (signal : ℕ → ℕ → ℕ → Int16) (s : SgSender opts.numChannels.toNat)

/-- What `send_frame` returns in the next step of the sender. -/
def answer (ok : Bool) (nowNs : UInt64) (rate : Double) : Bool :=
  match s.sender with
  | .drops blockSize _ sgDrops =>
    sendFrameResult opts.datagramSize.toNat (s.frameHeader blockSize sgDrops nowNs rate) ok
  | _ => ok

def udpStep : Label → Option (SgSender opts.numChannels.toNat)
  | .setBlockSize blockSize =>
    if blockSize ∈ blockOptions then s.step signal (.setBlockSize blockSize) else none
  | .sender ok nowNs rate => s.step signal (.sender (s.answer opts ok nowNs rate) nowNs rate)
  | l => s.step signal l

/-- grebe-sg in UDP mode, started with `opts`. -/
def udpThreads : Lts (SgSender opts.numChannels.toNat) Label where
  init s := ∃ pos, s = started (opts.ringSize + 1).toNat pos opts.blockSize
  step s := s.udpStep opts signal

/-- A selection in the GUI is within the cap. -/
def WithinCap (_ : SgSender opts.numChannels.toNat) : Label → Prop
  | .setBlockSize blockSize => blockSize ≤ opts.maxBlock
  | _ => True

instance (s : SgSender opts.numChannels.toNat) : DecidablePred (s.WithinCap opts)
  | .setBlockSize blockSize => inferInstanceAs (Decidable (blockSize ≤ opts.maxBlock))
  | .batch _ | .source | .switchSource | .stop | .sender .. => inferInstanceAs (Decidable True)

end Steps

/-! ## Frames -/

section Frames

variable {s s' : SgSender opts.numChannels.toNat} {l : Label}

/-- A step is one of the threads, and a selection is one of the options. -/
theorem udpStep_cases (hst : s.udpStep opts signal l = some s') :
    ∃ l', s.Step signal l' s' ∧ (∀ b, l' = .setBlockSize b → l = .setBlockSize b ∧ b ∈ blockOptions) := by
  have hother : ∀ l', s.step signal l' = some s' → (∀ b, l' ≠ .setBlockSize b) →
      ∃ l', s.Step signal l' s' ∧ ∀ b, l' = .setBlockSize b → l = .setBlockSize b ∧ b ∈ blockOptions :=
    fun _ h hno => ⟨_, step_cases h, fun b hb => absurd hb (hno b)⟩
  rcases l with len | _ | _ | blockSize | _ | ⟨ok, nowNs, rate⟩
  · exact hother (.batch len) hst (fun _ => nofun)
  · exact hother .source hst (fun _ => nofun)
  · exact hother .switchSource hst (fun _ => nofun)
  · rw [udpStep] at hst
    split_ifs at hst with hblock
    refine ⟨_, step_cases hst, ?_⟩
    rintro b ⟨⟩
    exact ⟨rfl, hblock⟩
  · exact hother .stop hst (fun _ => nofun)
  · exact hother (.sender (s.answer opts ok nowNs rate) nowNs rate) hst (fun _ => nofun)

/-- The block sizes in the state are within a bound, and every frame is of such a size. -/
structure Blocks (P : UInt32 → Prop) (s : SgSender opts.numChannels.toNat) : Prop where
  blockSize : P s.blockSize
  sender : ∀ b ∈ s.sender.blockSize, P b
  sent : ∀ f ∈ s.sent, P f.header.blockLengthSamples ∧
    f.header.payloadBytes = opts.numChannels * f.header.blockLengthSamples * 2

theorem Blocks.step {P : UInt32 → Prop} (h : s.Blocks P) (hl : ∀ b, l = .setBlockSize b → P b)
    (hst : s.Step signal l s') : s'.Blocks P := by
  have hpc : ∀ {pc : SenderPc}, s.sender = pc → ∀ b ∈ pc.blockSize, P b := fun hpc => hpc ▸ h.sender
  rcases hst with _ | _ | _ | _ | _ | _ | _ | _ | _ | hat | hat | hat | hat | hat | hat | hat | hat | hat
  case setBlockSize => exact ⟨hl _ rfl, h.sender, h.sent⟩
  case halt | wait => exact ⟨h.blockSize, nofun, h.sent⟩
  case look =>
    refine ⟨h.blockSize, ?_, h.sent⟩
    rintro b ⟨⟩
    exact h.blockSize
  case check | ready | pop | popped | drops =>
    have hkeep := hpc hat
    exact ⟨h.blockSize, hkeep, h.sent⟩
  case send ok nowNs rate blockSize ch sgDrops =>
    refine ⟨h.blockSize, by cases ok <;> nofun, ?_⟩
    intro f hf
    rcases List.mem_append.mp hf with hf | hf
    · exact h.sent f hf
    · rw [List.mem_singleton.mp hf]
      refine ⟨hpc hat blockSize rfl, ?_⟩
      show UInt32.ofNat opts.numChannels.toNat * blockSize * 2 = opts.numChannels * blockSize * 2
      rw [UInt32.ofNat_toNat]
  all_goals exact ⟨h.blockSize, h.sender, h.sent⟩

/-- Where the block size starts, and what is selected, is where the frames get their sizes from. -/
theorem reach_blocks {P : UInt32 → Prop} (hstart : P opts.blockSize)
    {C : SgSender opts.numChannels.toNat → Label → Prop}
    (hselect : ∀ t b, C t (.setBlockSize b) → b ∈ blockOptions → P b) (hs : (udpThreads opts signal).Reach C s) :
    s.Blocks P := by
  refine hs.invariant (I := Blocks P) (fun t h0 => ?_) fun t l t' h hC hst => ?_
  · obtain ⟨pos, rfl⟩ := h0
    exact ⟨hstart, nofun, fun f hf => nomatch hf⟩
  · obtain ⟨l', hst', hselected⟩ := udpStep_cases hst
    refine h.step ?_ hst'
    intro b hb
    obtain ⟨rfl, hoption⟩ := hselected b hb
    exact hselect t b hC hoption

end Frames

/-! ## Datagrams -/

section Datagrams

variable {stod : String → Option Double} {disk : String → FileCalls × GrbFile} {args : List String}
  {s s' : SgSender opts.numChannels.toNat}

/-- **A frame fits its datagram if and only if its block is within the cap**, in every run. -/
theorem sent_fits_iff (hstart : mainOptions stod disk args = .ok opts) (hudp : opts.transport = "udp")
    (hs : (udpThreads opts signal).Reachable s) {f : SentFrame opts.numChannels.toNat} (hf : f ∈ s.sent) :
    64 + f.header.payloadBytes.toNat ≤ opts.datagramSize.toNat ↔ f.header.blockLengthSamples ≤ opts.maxBlock := by
  obtain ⟨hvalid, hcap⟩ := SgOptions.mainOptions_valid hstart
  have hblocks : s.Blocks fun b => b.toNat ≤ 65536 := by
    refine reach_blocks ?_ (fun _ b _ hb => ?_) hs
    · exact (UInt32.le_iff_toNat_le.mp (hcap hudp)).trans (SgOptions.maxBlock_le hvalid)
    · exact blockOptions_le b hb
  obtain ⟨hblock, hbytes⟩ := hblocks.sent f hf
  rw [hbytes]
  exact SgOptions.fits_iff hvalid hblock

/-- Where the sender ends: at a stop request, or at an answer of `send_frame`. -/
theorem stopped_cases {ok : Bool} {nowNs : UInt64} {rate : Double} (hst : s.stepSender ok nowNs rate = some s')
    (hstopped : s'.sender = .stopped) :
    s.sender = .head ∧ s.stopRequested = true ∨
      ok = false ∧ ∃ blockSize ch sgDrops, s.sender = .drops blockSize ch sgDrops := by
  unfold stepSender at hst
  split at hst
  · rename_i hpc
    cases hst
    by_cases hstop : s.stopRequested = true
    · exact .inl ⟨hpc, hstop⟩
    · simp [hstop] at hstopped
  · split_ifs at hst
    all_goals
      cases hst
      simp at hstopped
  · split_ifs at hst
    all_goals
      cases hst
      simp at hstopped
  · rename_i blockSize ch sgDrops hpc
    split_ifs at hst with hch hok
    · cases hst
      simp at hstopped
    · cases hst
      simp at hstopped
    · exact .inr ⟨Bool.not_eq_true ok ▸ hok, blockSize, ch, sgDrops, hpc⟩
  · cases hst

/-- **No frame is too large while the selections are within the cap.**  From any accepted command line in UDP mode, in
every run whose selected block lengths are at most `max_block`, every frame fits a datagram, and where the socket takes
the datagrams the sender ends for a stop request only. -/
theorem datagrams_fit (hstart : mainOptions stod disk args = .ok opts) (hudp : opts.transport = "udp")
    (hs : (udpThreads opts signal).Reach (fun s => s.WithinCap opts) s) :
    (∀ f ∈ s.sent, 64 + f.header.payloadBytes.toNat ≤ opts.datagramSize.toNat) ∧
      ∀ nowNs rate s', (udpThreads opts signal).step s (.sender true nowNs rate) = some s' → s'.sender = .stopped →
        s.sender = .head ∧ s.stopRequested = true := by
  obtain ⟨hvalid, hcap⟩ := SgOptions.mainOptions_valid hstart
  have hblocks : s.Blocks fun b => b ≤ opts.maxBlock := reach_blocks (hcap hudp) (fun _ _ hC _ => hC) hs
  have hfits : ∀ b ≤ opts.maxBlock, 64 + (opts.numChannels * b * 2).toNat ≤ opts.datagramSize.toNat := by
    intro b hb
    have hsmall := (UInt32.le_iff_toNat_le.mp hb).trans (SgOptions.maxBlock_le hvalid)
    exact (SgOptions.fits_iff hvalid hsmall).mpr hb
  refine ⟨?_, ?_⟩
  · intro f hf
    obtain ⟨hblock, hbytes⟩ := hblocks.sent f hf
    rw [hbytes]
    exact hfits _ hblock
  · intro nowNs rate s' hst hstopped
    rcases stopped_cases (show s.stepSender (s.answer opts true nowNs rate) nowNs rate = some s' from hst) hstopped with
      hstop | ⟨hrefused, b, ch, sgDrops, hpc⟩
    · exact hstop
    · -- the frame would be too large
      have hblock : b ≤ opts.maxBlock := hblocks.sender b (by rw [hpc]; rfl)
      have hbytes : (s.frameHeader b sgDrops nowNs rate).payloadBytes = opts.numChannels * b * 2 := by
        show UInt32.ofNat opts.numChannels.toNat * b * 2 = _
        rw [UInt32.ofNat_toNat]
      simp only [answer, hpc, sendFrameResult, hbytes, Bool.true_and, decide_eq_false_iff_not] at hrefused
      exact absurd (hfits b hblock) hrefused

/-- `--transport=udp` and a small ring: 668 samples fit. -/
def smallRing : SgOptions := { transport := "udp", ringSize := 2048, blockSize := 668 }

theorem smallRing_pos : 0 < (smallRing.ringSize + 1).toNat := by decide +kernel

theorem mainOptions_smallRing :
    mainOptions (fun _ => none) (fun _ => (⟨true, true, true⟩, ⟨[], by decide⟩)) ["--transport=udp", "--ring-size=2K"] =
      .ok smallRing := by
  decide +kernel

/-- One channel produces a block, and the sender sends it. -/
def sendOne (len : ℕ) : List Label :=
  [Label.batch len] ++ List.replicate 3 Label.source ++ List.replicate 7 (Label.sender true 0 0)

/-- A block of 668 samples. -/
theorem datagrams_fit_one :
    ∃ s : SgSender smallRing.numChannels.toNat, s.sent.length = 1 ∧
      (∀ f ∈ s.sent, 64 + f.header.payloadBytes.toNat ≤ smallRing.datagramSize.toNat) ∧
      ∀ nowNs rate s', (udpThreads smallRing fun _ _ i => Int16.ofNat i).step s (.sender true nowNs rate) = some s' →
        s'.sender = .stopped → s.sender = .head ∧ s.stopRequested = true := by
  have hrun : ((Lib.Lts.execIn (fun s => s.WithinCap smallRing) (udpThreads smallRing fun _ _ i => Int16.ofNat i)
      (started (smallRing.ringSize + 1).toNat smallRing_pos smallRing.blockSize)
      (sendOne 668)).map fun s => s.sent.length) = some 1 := by decide +kernel
  obtain ⟨s, hs, hlen⟩ := Option.map_eq_some_iff.mp hrun
  have hreach : (udpThreads smallRing fun _ _ i => Int16.ofNat i).Reach (fun s => s.WithinCap smallRing) s :=
    .execIn (.init ⟨smallRing_pos, rfl⟩) hs
  exact ⟨s, hlen, datagrams_fit mainOptions_smallRing rfl hreach⟩

/-- **The shortest block length of the combo box is too long for a datagram**: the frame is refused, and the sender has
ended although the socket takes everything. -/
theorem oversized_selection :
    ∃ opts, mainOptions (fun _ => none) (fun _ => (⟨true, true, true⟩, ⟨[], by decide⟩))
        ["--transport=udp", "--ring-size=2K"] = .ok opts ∧ opts.transport = "udp" ∧
      ∃ s, (udpThreads opts fun _ _ i => Int16.ofNat i).Reachable s ∧ s.sender = .stopped ∧
        ∃ f ∈ s.sent, opts.datagramSize.toNat < 64 + f.header.payloadBytes.toNat := by
  have hrun : ((udpThreads smallRing fun _ _ i => Int16.ofNat i).exec
      (started (smallRing.ringSize + 1).toNat smallRing_pos smallRing.blockSize)
      (.setBlockSize 1024 :: sendOne 1024)).map
      (fun s => (s.sender, s.sent.map fun f => 64 + f.header.payloadBytes.toNat)) = some (.stopped, [2112]) := by
    decide +kernel
  obtain ⟨s, hs, hends⟩ := Option.map_eq_some_iff.mp hrun
  obtain ⟨hstopped, hsent⟩ := Prod.mk.inj hends
  obtain ⟨f, hf, hbytes⟩ := List.map_eq_singleton_iff.mp hsent
  refine ⟨smallRing, mainOptions_smallRing, rfl, s, Lib.Lts.reachable_of_exec _ ⟨smallRing_pos, rfl⟩ hs, hstopped, f,
    ?_, ?_⟩
  · rw [hf]
    exact List.mem_singleton_self f
  · rw [hbytes]
    decide

end Datagrams

end SgSender

end Grebe
