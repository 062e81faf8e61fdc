import Grebe.SgDatagrams

/-!
# Grebe.SgBuffers — the buffers of the sender of grebe-sg

`channel_buf` and `payload` have room for 65536 samples of each channel.  No block length of the GUI is larger, and the
cap of UDP mode is lower; in pipe mode `--block-size` is taken as it is.

* `mainThreads`: the threads of `Grebe.SgSender` as `main` starts them, with either transport.
* `Inside`, `Exact`: what a pop writes, and what a frame says of its payload.
* `buffers_iff`: both hold in every run exactly if the block size is at most 65536, or too large for a ring, or there are
  no rings.
-/

namespace Grebe

open Lib

/-- `MAX_BLOCK` -/
def MAX_BLOCK : UInt32 := 65536

namespace SgSender

variable {opts : SgOptions} {memory : ℕ → ℕ → Bool} {signal : ℕ → ℕ → ℕ → Int16}

/-! ## Steps -/

section Steps

variable (opts : SgOptions) (memory : ℕ → ℕ → Bool) (signal : ℕ → ℕ → ℕ → Int16)
  (s : SgSender opts.numChannels.toNat)

/-- In pipe mode the transport answers as it likes. -/
def mainStep : Label → Option (SgSender opts.numChannels.toNat)
  | .sender ok nowNs rate =>
    s.step signal (.sender (if opts.transport = "udp" then s.answer opts ok nowNs rate else ok) nowNs rate)
  | l => s.udpStep opts signal l

/-- grebe-sg, started with `opts`: once its rings are constructed. -/
def mainThreads : Lts (SgSender opts.numChannels.toNat) Label where
  init s := opts.ringsConstructed memory = true ∧ ∃ pos, s = started (opts.ringSize + 1).toNat pos opts.blockSize
  step s := s.mainStep opts signal

/-- In UDP mode these are the threads of before. -/
theorem mainThreads_udp (hudp : opts.transport = "udp") (hrings : opts.ringsConstructed memory = true) :
    mainThreads opts memory signal = udpThreads opts signal := by
  have hstep : mainStep opts signal = udpStep opts signal := by
    funext s l
    cases l
    case sender => simp only [mainStep, udpStep, if_pos hudp]
    all_goals rfl
  simp only [mainThreads, udpThreads, hstep, hrings, true_and]

theorem mainStep_cases {s s' : SgSender opts.numChannels.toNat} {l : Label} (hst : s.mainStep opts signal l = some s') :
    ∃ l', s.Step signal l' s' ∧ ∀ b, l' = .setBlockSize b → b ∈ blockOptions := by
  cases l
  all_goals simp only [mainStep] at hst
  case sender ok nowNs rate => exact ⟨_, step_cases hst, fun _ h => nomatch h⟩
  all_goals
    obtain ⟨l', hl', hselected⟩ := udpStep_cases hst
    exact ⟨l', hl', fun b hb => (hselected b hb).2⟩

end Steps

/-! ## Buffers -/

section Buffers

variable {n : ℕ} (s : SgSender n)

/-- The samples that `payload` has room for, in the arithmetic of the code. -/
def payloadRoom (n : ℕ) : UInt32 := MAX_BLOCK * UInt32.ofNat n

/-- A pop, and the copy of what it yields, write inside `channel_buf` and `payload`. -/
def Inside : Prop :=
  ∀ b (ch : Fin n), s.sender = .pop b ch →
    ((s.rings ch).popBulk b.toNat).1.length ≤ MAX_BLOCK.toNat ∧
      ch * b.toNat + ((s.rings ch).popBulk b.toNat).1.length ≤ (payloadRoom n).toNat

/-- The header of a frame about to be sent has the size of its payload, which is in the buffer. -/
def Exact : Prop :=
  ∀ b ch sgDrops nowNs rate, s.sender = .drops b ch sgDrops →
    (s.frameHeader b sgDrops nowNs rate).payloadBytes.toNat = n * b.toNat * 2 ∧
      (s.frameHeader b sgDrops nowNs rate).payloadBytes.toNat ≤ 2 * (payloadRoom n).toNat

theorem toNat_payloadRoom (hn : n ≤ 8) : (payloadRoom n).toNat = 65536 * n := by
  rw [payloadRoom, UInt32.toNat_mul, UInt32.toNat_ofNat', Nat.mod_eq_of_lt (by omega : n < 2 ^ 32)]
  show 65536 * n % 2 ^ 32 = _
  rw [Nat.mod_eq_of_lt (by omega)]

variable {s}

/-- A block of at most 65536 samples. -/
theorem inside_of_le (hn : n ≤ 8) (h : ∀ b ch, s.sender = .pop b ch → b.toNat ≤ 65536) : s.Inside := by
  intro b ch hpc
  have hb := h b ch hpc
  have hlen : ((s.rings ch).popBulk b.toNat).1.length ≤ b.toNat := by
    rw [RingBuffer.length_popBulk]
    exact Nat.min_le_left ..
  have hrow : (ch + 1) * b.toNat ≤ n * 65536 := Nat.mul_le_mul ch.isLt hb
  rw [Nat.add_one_mul ch.val] at hrow
  rw [toNat_payloadRoom hn]
  refine ⟨hlen.trans hb, ?_⟩
  omega

theorem exact_of_le (hn : n ≤ 8) (h : ∀ b ch sgDrops, s.sender = .drops b ch sgDrops → b.toNat ≤ 65536) : s.Exact := by
  intro b ch sgDrops nowNs rate hpc
  have hprod : n * b.toNat ≤ n * 65536 := Nat.mul_le_mul_left n (h b ch sgDrops hpc)
  have hbytes : (s.frameHeader b sgDrops nowNs rate).payloadBytes.toNat = n * b.toNat * 2 := by
    show (UInt32.ofNat n * b * 2).toNat = _
    rw [UInt32.toNat_mul, UInt32.toNat_mul, UInt32.toNat_ofNat', Nat.mod_eq_of_lt (by omega : n < 2 ^ 32),
      show (2 : UInt32).toNat = 2 from rfl, Nat.mod_eq_of_lt (by omega : n * b.toNat < 2 ^ 32),
      Nat.mod_eq_of_lt (by omega)]
  rw [hbytes, toNat_payloadRoom hn]
  exact ⟨rfl, by omega⟩

end Buffers

/-! ## Runs that stay inside -/

section Small

variable {s s' : SgSender opts.numChannels.toNat} {l : Label}

/-- A ring of `slots` slots never holds a block of `b`. -/
def TooLarge (slots : ℕ) (b : UInt32) : Prop := slots - 1 < b.toNat

/-- The sender gets past the first ring with small blocks only. -/
structure SmallBlocks (slots : ℕ) (s : SgSender opts.numChannels.toNat) : Prop where
  rings : ∀ ch, (s.rings ch).slots = slots
  blockSize : s.blockSize.toNat ≤ 65536 ∨ TooLarge slots s.blockSize
  check : ∀ b ch, s.sender = .check b ch → b.toNat ≤ 65536 ∨ TooLarge slots b ∧ ch = 0
  pop : ∀ b ch, s.sender = .pop b ch → b.toNat ≤ 65536
  drops : ∀ b ch sgDrops, s.sender = .drops b ch sgDrops → b.toNat ≤ 65536

theorem SmallBlocks.congr {slots : ℕ} {t : SgSender opts.numChannels.toNat} (h : s.SmallBlocks slots)
    (hrings : ∀ ch, (t.rings ch).slots = (s.rings ch).slots) (hblock : t.blockSize = s.blockSize)
    (hsender : t.sender = s.sender) : t.SmallBlocks slots where
  rings ch := (hrings ch).trans (h.rings ch)
  blockSize := hblock ▸ h.blockSize
  check := hsender ▸ h.check
  pop := hsender ▸ h.pop
  drops := hsender ▸ h.drops

theorem slots_setRing (s : SgSender opts.numChannels.toNat) {ch : Fin opts.numChannels.toNat} {ring : RingBuffer Sample}
    (h : ring.slots = (s.rings ch).slots) (c : Fin opts.numChannels.toNat) :
    ((s.setRing ch ring).rings c).slots = (s.rings c).slots := by
  by_cases hc : c = ch
  · subst hc
    rw [setRing_self, h]
  · rw [setRing_other _ _ hc]

theorem smallBlocks_step {slots : ℕ} (hn : 1 ≤ opts.numChannels.toNat) (h : s.SmallBlocks slots)
    (hl : ∀ b, l = .setBlockSize b → b.toNat ≤ 65536) (hst : s.Step signal l s') : s'.SmallBlocks slots := by
  rcases hst with _ | _ | _ | _ | _ | _ | _ | _ | _ | _ | _ | hpc | ⟨hpc, hsize⟩ | ⟨hpc, hch⟩ | hpc | hpc | hpc | hpc
  case push => exact h.congr (slots_setRing s (show (RingBuffer.pushBulk _ _).2.slots = _ from rfl)) rfl rfl
  case flush => exact h.congr (slots_setRing s (show (RingBuffer.discardBulk _ _).2.slots = _ from rfl)) rfl rfl
  case setBlockSize => exact ⟨h.rings, .inl (hl _ rfl), h.check, h.pop, h.drops⟩
  case halt | wait => exact ⟨h.rings, h.blockSize, nofun, nofun, nofun⟩
  case look =>
    refine ⟨h.rings, h.blockSize, ?_, nofun, nofun⟩
    rintro b ch ⟨⟩
    exact h.blockSize.imp_right fun hlarge => ⟨hlarge, rfl⟩
  case check ok nowNs rate b ch =>
    -- the first ring has held the block
    have hsmall : b.toNat ≤ 65536 := by
      obtain hsmall | ⟨hlarge, -⟩ := h.check b ch hpc
      · exact hsmall
      · have hcap := (s.rings ch).size_le_capacity
        rw [RingBuffer.capacity, h.rings ch] at hcap
        exact absurd (hsize.trans hcap) (not_le.mpr hlarge)
    refine ⟨h.rings, h.blockSize, ?_, nofun, nofun⟩
    rintro b' ch' ⟨⟩
    exact .inl hsmall
  case ready ok nowNs rate b ch =>
    refine ⟨h.rings, h.blockSize, nofun, ?_, nofun⟩
    rintro b' ch' ⟨⟩
    obtain hsmall | ⟨-, rfl⟩ := h.check b ch hpc
    · exact hsmall
    · omega
  case pop ok nowNs rate b ch =>
    have hslots := slots_setRing s (show ((s.rings ch).popBulk b.toNat).2.slots = (s.rings ch).slots from rfl)
    refine ⟨fun c => (hslots c).trans (h.rings c), h.blockSize, nofun, ?_, nofun⟩
    rintro b' ch' ⟨⟩
    exact h.pop b ch hpc
  case popped ok nowNs rate b ch hch =>
    refine ⟨h.rings, h.blockSize, nofun, nofun, ?_⟩
    rintro b' ch' sgDrops ⟨⟩
    exact h.pop b ch hpc
  case drops ok nowNs rate b ch sgDrops sgDrops' =>
    refine ⟨h.rings, h.blockSize, nofun, nofun, ?_⟩
    rintro b' ch' sgDrops'' ⟨⟩
    exact h.drops b ch sgDrops hpc
  case send ok nowNs rate b ch sgDrops =>
    cases ok
    · exact ⟨h.rings, h.blockSize, nofun, nofun, nofun⟩
    · exact ⟨h.rings, h.blockSize, nofun, nofun, nofun⟩
  all_goals exact h.congr (fun _ => rfl) rfl rfl

end Small

/-! ## A run that leaves them -/

section Large

variable (opts memory signal)

/-- The source fills ring after ring with a block. -/
theorem reach_filled (hrings : opts.ringsConstructed memory = true)
    (hroom : opts.blockSize.toNat < (opts.ringSize + 1).toNat) {k : ℕ} (hk : k ≤ opts.numChannels.toNat) :
    ∃ s, (mainThreads opts memory signal).Reachable s ∧ s.source = .push opts.blockSize.toNat k ∧ s.sender = .head ∧
      s.blockSize = opts.blockSize ∧ s.stopRequested = false ∧
      (∀ ch, ch.val < k → opts.blockSize.toNat ≤ (s.rings ch).size) ∧
      ∀ ch, k ≤ ch.val → opts.blockSize.toNat ≤ (s.rings ch).free := by
  have hpos : 0 < (opts.ringSize + 1).toNat := (Nat.zero_le _).trans_lt hroom
  induction k with
  | zero =>
    have hst : (mainThreads opts memory signal).step (started (opts.ringSize + 1).toNat hpos opts.blockSize)
        (.batch opts.blockSize.toNat) =
        some { started (opts.ringSize + 1).toNat hpos opts.blockSize with
          source := .push opts.blockSize.toNat 0 } := rfl
    refine ⟨_, .step (.init ⟨hrings, hpos, rfl⟩) trivial hst, rfl, rfl, rfl, rfl, fun ch hch => absurd hch (Nat.not_lt_zero _),
      fun ch _ => ?_⟩
    show opts.blockSize.toNat ≤ (opts.ringSize + 1).toNat - 1 - 0
    omega
  | succ k ih =>
    obtain ⟨s, hs, hsource, hsender, hblock, hstop, hfull, hfree⟩ := ih (by omega)
    have hlt : k < opts.numChannels.toNat := hk
    let c : Fin opts.numChannels.toNat := ⟨k, hlt⟩
    let r := (s.rings c).pushBulk (s.batchOf signal opts.blockSize.toNat k)
    let t : SgSender opts.numChannels.toNat := { s.setRing c r.2 with
      source := .record opts.blockSize.toNat k r.1
      lost := Function.update s.lost c (s.lost c ++ (s.batchOf signal opts.blockSize.toNat k).drop r.1) }
    have hpush : (mainThreads opts memory signal).step s .source = some t := by
      show s.stepSource signal = _
      rw [stepSource, hsource]
      exact dif_pos hlt
    obtain ⟨dropped, hrecord⟩ : ∃ dropped, (mainThreads opts memory signal).step t .source =
        some { t with source := .push opts.blockSize.toNat (k + 1), dropped := dropped } := ⟨_, rfl⟩
    refine ⟨_, .step (.step hs trivial hpush) trivial hrecord, rfl, hsender, hblock, hstop, fun ch hch => ?_,
      fun ch hch => ?_⟩
    · show _ ≤ ((s.setRing c r.2).rings ch).size
      by_cases hc : ch = c
      · subst hc
        rw [setRing_self, RingBuffer.size_pushBulk]
        show _ ≤ _ + min (s.batchOf signal opts.blockSize.toNat k).length (s.rings c).free
        rw [length_batchOf, min_eq_left (hfree c le_rfl)]
        exact Nat.le_add_left _ _
      · have hne : ch.val ≠ k := fun heq => hc (Fin.ext heq)
        rw [setRing_other _ _ hc]
        exact hfull ch (by omega)
    · have hc : ch ≠ c := fun heq => by
        rw [heq] at hch
        exact absurd hch (Nat.not_succ_le_self k)
      show _ ≤ ((s.setRing c r.2).rings ch).free
      rw [setRing_other _ _ hc]
      exact hfree ch (by omega)

/-- Then the sender finds a block in every ring. -/
theorem reach_checked (hrings : opts.ringsConstructed memory = true)
    (hroom : opts.blockSize.toNat < (opts.ringSize + 1).toNat) {k : ℕ} (hk : k ≤ opts.numChannels.toNat) :
    ∃ s, (mainThreads opts memory signal).Reachable s ∧ s.sender = .check opts.blockSize k ∧
      ∀ ch, opts.blockSize.toNat ≤ (s.rings ch).size := by
  induction k with
  | zero =>
    obtain ⟨s, hs, -, hsender, hblock, hstop, hfull, -⟩ := reach_filled opts memory signal hrings hroom le_rfl
    have hst : (mainThreads opts memory signal).step s (.sender true 0 0) =
        some { s with sender := .check opts.blockSize 0 } := by
      show s.stepSender _ 0 0 = _
      rw [stepSender, hsender]
      dsimp only
      rw [hstop, hblock]
      rfl
    exact ⟨_, .step hs trivial hst, rfl, fun ch => hfull ch ch.isLt⟩
  | succ k ih =>
    obtain ⟨s, hs, hsender, hfull⟩ := ih (by omega)
    have hlt : k < opts.numChannels.toNat := hk
    have hst : (mainThreads opts memory signal).step s (.sender true 0 0) =
        some { s with sender := .check opts.blockSize (k + 1) } := by
      show s.stepSender _ 0 0 = _
      rw [stepSender, hsender]
      dsimp only
      rw [dif_pos hlt, if_neg (not_lt.mpr (hfull ⟨k, hlt⟩))]
    exact ⟨_, .step hs trivial hst, rfl, hfull⟩

/-- **And pops it**, however large it is. -/
theorem reach_pop (hrings : opts.ringsConstructed memory = true)
    (hroom : opts.blockSize.toNat < (opts.ringSize + 1).toNat) :
    ∃ s, (mainThreads opts memory signal).Reachable s ∧ s.sender = .pop opts.blockSize 0 ∧
      ∀ ch, opts.blockSize.toNat ≤ (s.rings ch).size := by
  obtain ⟨s, hs, hsender, hfull⟩ := reach_checked opts memory signal hrings hroom le_rfl
  have hst : (mainThreads opts memory signal).step s (.sender true 0 0) = some { s with sender := .pop opts.blockSize 0 } := by
    show s.stepSender _ 0 0 = _
    rw [stepSender, hsender]
    exact dif_neg (Nat.lt_irrefl _)
  exact ⟨_, .step hs trivial hst, rfl, hfull⟩

end Large

section Main

variable {stod : String → Option Double} {disk : String → FileCalls × GrbFile} {args : List String}

/-- The pop overruns `channel_buf`. -/
theorem not_inside_of_pop {n : ℕ} {s : SgSender n} {b : UInt32} (hn : 0 < n) (hlarge : 65536 < b.toNat)
    (hpc : s.sender = .pop b 0) (hfull : ∀ ch, b.toNat ≤ (s.rings ch).size) : ¬ s.Inside := by
  intro hin
  have hpop := (hin b ⟨0, hn⟩ hpc).1
  rw [RingBuffer.length_popBulk, min_eq_left (hfull _)] at hpop
  exact absurd hpop (not_le.mpr hlarge)

/-- **The sender stays in its buffers, and its headers are exact, exactly if the block size is at most 65536, or larger
than what a ring can hold, or the rings cannot be constructed**: from every accepted command line and file, with either
transport, in every run. -/
theorem buffers_iff (hstart : mainOptions stod disk args = .ok opts) (memory : ℕ → ℕ → Bool)
    (signal : ℕ → ℕ → ℕ → Int16) :
    (∀ s, (mainThreads opts memory signal).Reachable s → s.Inside ∧ s.Exact) ↔
      opts.blockSize.toNat ≤ 65536 ∨ (opts.ringSize + 1).toNat - 1 < opts.blockSize.toNat ∨
        opts.ringsConstructed memory = false := by
  obtain ⟨hvalid, -⟩ := SgOptions.mainOptions_valid hstart
  obtain ⟨hone, height⟩ := hvalid.channels
  constructor
  · intro hall
    by_contra hlarge
    obtain ⟨hblock, hroom, hrings⟩ : ¬ opts.blockSize.toNat ≤ 65536 ∧
        ¬ (opts.ringSize + 1).toNat - 1 < opts.blockSize.toNat ∧ ¬ opts.ringsConstructed memory = false := by
      simpa only [not_or] using hlarge
    obtain ⟨s, hs, hpc, hfull⟩ := reach_pop opts memory signal (by simpa using hrings)
      (show opts.blockSize.toNat < _ by omega)
    exact not_inside_of_pop hone (by omega) hpc hfull (hall s hs).1
  · intro hblock s hs
    have hsmall : s.SmallBlocks (opts.ringSize + 1).toNat := by
      refine hs.invariant (I := SmallBlocks (opts.ringSize + 1).toNat) (fun t h0 => ?_) fun t l t' h _ hst => ?_
      · obtain ⟨hrings, pos, rfl⟩ := h0
        have hstarted : opts.blockSize.toNat ≤ 65536 ∨ TooLarge (opts.ringSize + 1).toNat opts.blockSize := by
          rcases hblock with hle | hlarge | hnone
          · exact .inl hle
          · exact .inr hlarge
          · rw [hrings] at hnone
            cases hnone
        exact ⟨fun _ => rfl, hstarted, nofun, nofun, nofun⟩
      · obtain ⟨l', hst', hselected⟩ := mainStep_cases opts signal hst
        exact smallBlocks_step hone h (fun b hb => blockOptions_le b (hselected b hb)) hst'
    exact ⟨inside_of_le height hsmall.pop, exact_of_le height hsmall.drops⟩

/-- **A block of 100000 samples in pipe mode**: the rings of the default size hold it, and the pop writes it into the
65536 samples of `channel_buf`. -/
theorem channelBuf_overrun :
    ∃ opts, startUp (fun _ => none) (fun _ => (⟨true, true, true⟩, ⟨[], by decide⟩)) (fun _ _ => true)
        ["--block-size=100000"] = .ok opts ∧
      ∃ s, (mainThreads opts (fun _ _ => true) fun _ _ i => Int16.ofNat i).Reachable s ∧ ¬ s.Inside := by
  refine ⟨{ blockSize := 100000 }, by decide +kernel, ?_⟩
  obtain ⟨s, hs, hpc, hfull⟩ := reach_pop { blockSize := 100000 } (fun _ _ => true) (fun _ _ i => Int16.ofNat i)
    (by decide +kernel) (by decide +kernel)
  exact ⟨s, hs, not_inside_of_pop (by decide +kernel) (by decide +kernel) hpc hfull⟩

/-- Without any option. -/
theorem buffers_default :
    mainOptions (fun _ => none) (fun _ => (⟨true, true, true⟩, ⟨[], by decide⟩)) [] = .ok {} ∧
      ∀ s, (mainThreads {} (fun _ _ => true) fun _ _ i => Int16.ofNat i).Reachable s → s.Inside ∧ s.Exact := by
  have hstart : mainOptions (fun _ => none) (fun _ => (⟨true, true, true⟩, ⟨[], by decide⟩)) [] = .ok {} := rfl
  exact ⟨hstart, (buffers_iff hstart (fun _ _ => true) fun _ _ i => Int16.ofNat i).mpr (.inl (by decide +kernel))⟩

end Main

end SgSender

end Grebe
