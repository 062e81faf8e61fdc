import Mathlib.Tactic
import Grebe.Contracts
import Grebe.RingBuffer

/-!
# Grebe.SgSender — the rings of grebe-sg between the source and the sender

A source (the generator or the file reader) produces batches and pushes each one channel by channel; what does not fit a
ring is dropped.  `sender_thread_func` checks that every ring holds a block, pops a block of each into its payload,
and hands the payload to the transport.  When the user switches the source, the GUI thread stops it, discards what the
rings hold, and starts the new one; the sender runs on.

One step is one call on a ring, or one access to an atomic.  The bytes that the transport sends are left out, and so is
what the GUI does besides.  A sample carries, as history, the number of its source and its index among the samples of
its channel; `lost`, `current` and `sent` are history as well.
-/

namespace Grebe

open Lib

/-- A sample, with where it comes from. -/
structure Sample where
  value : Int16 := 0
  source : ℕ := 0
  index : ℕ := 0
deriving DecidableEq

/-- Where the source thread is, or the GUI thread that has stopped it. -/
inductive SourcePc
  | idle
  /-- before the push of a batch of `len` samples into ring `ch` -/
  | push (len ch : ℕ)
  /-- before it counts the samples that ring `ch` dropped -/
  | record (len ch pushed : ℕ)
  /-- in `flush_rings`, before ring `ch` -/
  | flush (ch : ℕ)
deriving DecidableEq

/-- Where `sender_thread_func` is. -/
inductive SenderPc
  | head
  | check (blockSize : UInt32) (ch : ℕ)
  | pop (blockSize : UInt32) (ch : ℕ)
  /-- adding up the drop counters -/
  | drops (blockSize : UInt32) (ch : ℕ) (sgDrops : UInt64)
  | stopped
deriving DecidableEq

/-- A frame handed to `send_frame`; `popped` is what was popped of each ring for it. -/
structure SentFrame (n : ℕ) where
  header : FrameHeaderV2
  payload : List Sample
  popped : Fin n → List Sample

/-- grebe-sg with `n` channels. -/
structure SgSender (n : ℕ) where
  rings : Fin n → RingBuffer Sample
  dropped : Fin n → UInt64
  blockSize : UInt32
  stopRequested : Bool
  source : SourcePc
  /-- the number of the source, and how many samples of each channel it has pushed -/
  sources : ℕ
  produced : ℕ
  sender : SenderPc
  payload : ℕ → Sample
  sequence : UInt64
  totalSamplesSent : UInt64
  lost : Fin n → List Sample
  current : Fin n → List Sample
  sent : List (SentFrame n)

namespace SgSender

variable {n : ℕ}

/-! ## Steps -/

section Steps

inductive Label
  /-- The source begins a batch. -/
  | batch (len : ℕ)
  /-- The source, or the GUI thread in its place, goes on. -/
  | source
  /-- The GUI thread stops the source to switch to another one. -/
  | switchSource
  | setBlockSize (blockSize : UInt32)
  | stop
  /-- The sender goes on; when it sends, at `nowNs` and with the rate of the moment, `send_frame` returns `ok`. -/
  | sender (ok : Bool) (nowNs : UInt64) (rate : Double)

/-- At the start of the threads, with rings of `slots` slots. -/
def started (slots : ℕ) (pos : 0 < slots) (blockSize : UInt32) : SgSender n where
  rings _ := .new slots pos
  dropped _ := 0
  blockSize := blockSize
  stopRequested := false
  source := .idle
  sources := 0
  produced := 0
  sender := .head
  payload _ := {}
  sequence := 0
  totalSamplesSent := 0
  lost _ := []
  current _ := []
  sent := []

/-- The options of the GUI. -/
def ValidBlock (blockSize : UInt32) : Prop := 1 ≤ blockSize ∧ blockSize ≤ 65536

instance : DecidablePred ValidBlock := fun _ => inferInstanceAs (Decidable (_ ∧ _))

variable (signal : ℕ → ℕ → ℕ → Int16) (s : SgSender n)

/-- The next `len` samples of channel `ch`. -/
def batchOf (len ch : ℕ) : List Sample :=
  (List.range' s.produced len).map fun i => ⟨signal s.sources ch i, s.sources, i⟩

def setRing (ch : Fin n) (ring : RingBuffer Sample) : SgSender n := { s with rings := Function.update s.rings ch ring }

/-- The loop over the channels that pushes a batch, and `flush_rings`. -/
def stepSource : Option (SgSender n) :=
  match s.source with
  | .idle => none
  | .push len ch =>
    if h : ch < n then
      let batch := s.batchOf signal len ch
      let r := (s.rings ⟨ch, h⟩).pushBulk batch
      some { s.setRing ⟨ch, h⟩ r.2 with
        source := .record len ch r.1
        lost := Function.update s.lost ⟨ch, h⟩ (s.lost ⟨ch, h⟩ ++ batch.drop r.1) }
    else some { s with source := .idle, produced := s.produced + len }
  | .record len ch pushed =>
    some { s with
      source := .push len (ch + 1)
      dropped := fun c => if c.val = ch ∧ pushed < len then s.dropped c + UInt64.ofNat (len - pushed) else s.dropped c }
  | .flush ch =>
    if h : ch < n then
      let ring := s.rings ⟨ch, h⟩
      some { s.setRing ⟨ch, h⟩ (ring.discardBulk ring.capacity).2 with source := .flush (ch + 1) }
    else some { s with source := .idle, sources := s.sources + 1, produced := 0 }

/-- The header of the frame that is sent. -/
def frameHeader (blockSize : UInt32) (sgDrops nowNs : UInt64) (rate : Double) : FrameHeaderV2 where
  sequence := s.sequence
  producerTsNs := nowNs
  channelCount := UInt32.ofNat n
  blockLengthSamples := blockSize
  payloadBytes := UInt32.ofNat n * blockSize * 2
  sampleRateHz := rate
  sgDropsTotal := sgDrops
  firstSampleIndex := s.totalSamplesSent

/-- `sender_thread_func`. -/
def stepSender (ok : Bool) (nowNs : UInt64) (rate : Double) : Option (SgSender n) :=
  match s.sender with
  | .head => some { s with sender := if s.stopRequested then .stopped else .check s.blockSize 0 }
  | .check blockSize ch =>
    if h : ch < n then
      some { s with sender := if (s.rings ⟨ch, h⟩).size < blockSize.toNat then .head else .check blockSize (ch + 1) }
    else some { s with sender := .pop blockSize 0 }
  | .pop blockSize ch =>
    if h : ch < n then
      let r := (s.rings ⟨ch, h⟩).popBulk blockSize.toNat
      some { s.setRing ⟨ch, h⟩ r.2 with
        sender := .pop blockSize (ch + 1)
        payload := Circular.store s.payload (ch * blockSize.toNat) r.1
        current := Function.update s.current ⟨ch, h⟩ r.1 }
    else some { s with sender := .drops blockSize 0 0 }
  | .drops blockSize ch sgDrops =>
    if h : ch < n then some { s with sender := .drops blockSize (ch + 1) (sgDrops + s.dropped ⟨ch, h⟩) }
    else
      some { s with
        sender := if ok then .head else .stopped
        stopRequested := s.stopRequested || !ok
        sequence := s.sequence + 1
        totalSamplesSent := s.totalSamplesSent + blockSize.toUInt64
        sent := s.sent ++ [⟨s.frameHeader blockSize sgDrops nowNs rate,
          Circular.load s.payload 0 (n * blockSize.toNat), s.current⟩] }
  | .stopped => none

def step : Label → Option (SgSender n)
  | .batch len => if s.source = .idle then some { s with source := .push len 0 } else none
  | .source => s.stepSource signal
  | .switchSource => if s.source = .idle then some { s with source := .flush 0 } else none
  | .setBlockSize blockSize => if ValidBlock blockSize then some { s with blockSize := blockSize } else none
  | .stop => some { s with stopRequested := true }
  | .sender ok nowNs rate => s.stepSender ok nowNs rate

/-- grebe-sg with `n` channels, whose source number `k` has the sample `signal k ch i` at index `i` of channel `ch`. -/
def threads (n : ℕ) (signal : ℕ → ℕ → ℕ → Int16) : Lts (SgSender n) Label where
  init s := ∃ slots pos blockSize, ValidBlock blockSize ∧ s = started slots pos blockSize
  step s := s.step signal

end Steps

/-! ## What a step does, said once -/

section Spec

variable {signal : ℕ → ℕ → ℕ → Int16} {s s' : SgSender n}

@[simp] theorem setRing_self (s : SgSender n) (ch : Fin n) (ring : RingBuffer Sample) :
    (s.setRing ch ring).rings ch = ring :=
  Function.update_self ..

theorem setRing_other (s : SgSender n) {c ch : Fin n} (ring : RingBuffer Sample) (h : c ≠ ch) :
    (s.setRing ch ring).rings c = s.rings c :=
  Function.update_of_ne h ..

@[simp] theorem length_batchOf (len ch : ℕ) : (s.batchOf signal len ch).length = len := by
  simp [batchOf]

/-- What one step does. -/
inductive Step (signal : ℕ → ℕ → ℕ → Int16) (s : SgSender n) : Label → SgSender n → Prop
  | batch {len : ℕ} (hpc : s.source = .idle) : Step signal s (.batch len) { s with source := .push len 0 }
  | push {len : ℕ} {ch : Fin n} (hpc : s.source = .push len ch) :
      Step signal s .source
        { s.setRing ch ((s.rings ch).pushBulk (s.batchOf signal len ch)).2 with
          source := .record len ch (min len (s.rings ch).free)
          lost := Function.update s.lost ch
            (s.lost ch ++ (s.batchOf signal len ch).drop (min len (s.rings ch).free)) }
  | pushed {len ch : ℕ} (hpc : s.source = .push len ch) (hch : n ≤ ch) :
      Step signal s .source { s with source := .idle, produced := s.produced + len }
  | record {len ch pushed : ℕ} {dropped : Fin n → UInt64} (hpc : s.source = .record len ch pushed) :
      Step signal s .source { s with source := .push len (ch + 1), dropped := dropped }
  | switchSource (hpc : s.source = .idle) : Step signal s .switchSource { s with source := .flush 0 }
  | flush {ch : Fin n} (hpc : s.source = .flush ch) :
      Step signal s .source
        { s.setRing ch ((s.rings ch).discardBulk (s.rings ch).capacity).2 with source := .flush (ch + 1) }
  | flushed {ch : ℕ} (hpc : s.source = .flush ch) (hch : n ≤ ch) :
      Step signal s .source { s with source := .idle, sources := s.sources + 1, produced := 0 }
  | setBlockSize {blockSize : UInt32} (hblock : ValidBlock blockSize) :
      Step signal s (.setBlockSize blockSize) { s with blockSize := blockSize }
  | stop : Step signal s .stop { s with stopRequested := true }
  | halt {ok : Bool} {nowNs : UInt64} {rate : Double} (hpc : s.sender = .head) :
      Step signal s (.sender ok nowNs rate) { s with sender := .stopped }
  | look {ok : Bool} {nowNs : UInt64} {rate : Double} (hpc : s.sender = .head) :
      Step signal s (.sender ok nowNs rate) { s with sender := .check s.blockSize 0 }
  /-- A ring holds too little. -/
  | wait {ok : Bool} {nowNs : UInt64} {rate : Double} {blockSize : UInt32} {ch : ℕ}
      (hpc : s.sender = .check blockSize ch) : Step signal s (.sender ok nowNs rate) { s with sender := .head }
  /-- Ring `ch` holds a block. -/
  | check {ok : Bool} {nowNs : UInt64} {rate : Double} {blockSize : UInt32} {ch : Fin n}
      (hpc : s.sender = .check blockSize ch) (hsize : blockSize.toNat ≤ (s.rings ch).size) :
      Step signal s (.sender ok nowNs rate) { s with sender := .check blockSize (ch + 1) }
  /-- All rings held a block. -/
  | ready {ok : Bool} {nowNs : UInt64} {rate : Double} {blockSize : UInt32} {ch : ℕ}
      (hpc : s.sender = .check blockSize ch) (hch : n ≤ ch) :
      Step signal s (.sender ok nowNs rate) { s with sender := .pop blockSize 0 }
  | pop {ok : Bool} {nowNs : UInt64} {rate : Double} {blockSize : UInt32} {ch : Fin n}
      (hpc : s.sender = .pop blockSize ch) :
      Step signal s (.sender ok nowNs rate)
        { s.setRing ch ((s.rings ch).popBulk blockSize.toNat).2 with
          sender := .pop blockSize (ch + 1)
          payload := Circular.store s.payload (ch * blockSize.toNat) ((s.rings ch).popBulk blockSize.toNat).1
          current := Function.update s.current ch ((s.rings ch).popBulk blockSize.toNat).1 }
  | popped {ok : Bool} {nowNs : UInt64} {rate : Double} {blockSize : UInt32} {ch : ℕ}
      (hpc : s.sender = .pop blockSize ch) (hch : n ≤ ch) :
      Step signal s (.sender ok nowNs rate) { s with sender := .drops blockSize 0 0 }
  | drops {ok : Bool} {nowNs : UInt64} {rate : Double} {blockSize : UInt32} {ch : ℕ} {sgDrops sgDrops' : UInt64}
      (hpc : s.sender = .drops blockSize ch sgDrops) :
      Step signal s (.sender ok nowNs rate) { s with sender := .drops blockSize (ch + 1) sgDrops' }
  | send {ok : Bool} {nowNs : UInt64} {rate : Double} {blockSize : UInt32} {ch : ℕ} {sgDrops : UInt64}
      (hpc : s.sender = .drops blockSize ch sgDrops) :
      Step signal s (.sender ok nowNs rate)
        { s with
          sender := if ok then .head else .stopped
          stopRequested := s.stopRequested || !ok
          sequence := s.sequence + 1
          totalSamplesSent := s.totalSamplesSent + blockSize.toUInt64
          sent := s.sent ++ [⟨s.frameHeader blockSize sgDrops nowNs rate,
            Circular.load s.payload 0 (n * blockSize.toNat), s.current⟩] }

theorem step_cases {l : Label} (h : s.step signal l = some s') : s.Step signal l s' := by
  rcases l with len | _ | _ | blockSize | _ | ⟨ok, nowNs, rate⟩
  · simp only [step] at h
    split_ifs at h with hpc
    cases h
    exact .batch hpc
  · simp only [step, stepSource] at h
    split at h
    · cases h
    · rename_i len ch hpc
      split_ifs at h with hch
      · cases h
        have hpc' : s.source = .push len (⟨ch, hch⟩ : Fin n) := hpc
        have hst : s.Step signal .source _ := .push hpc'
        simpa only [RingBuffer.pushBulk, length_batchOf] using hst
      · cases h
        exact .pushed hpc (not_lt.mp hch)
    · rename_i hpc
      cases h
      exact .record hpc
    · rename_i ch hpc
      split_ifs at h with hch
      · cases h
        have hpc' : s.source = .flush (⟨ch, hch⟩ : Fin n) := hpc
        exact .flush hpc'
      · cases h
        exact .flushed hpc (not_lt.mp hch)
  · simp only [step] at h
    split_ifs at h with hpc
    cases h
    exact .switchSource hpc
  · simp only [step] at h
    split_ifs at h with hblock
    cases h
    exact .setBlockSize hblock
  · cases h
    exact .stop
  · simp only [step, stepSender] at h
    split at h
    · rename_i hpc
      split_ifs at h with hstop
      · cases h
        exact .halt hpc
      · cases h
        exact .look hpc
    · rename_i blockSize ch hpc
      split_ifs at h with hch hsize
      · cases h
        exact .wait hpc
      · cases h
        have hpc' : s.sender = .check blockSize (⟨ch, hch⟩ : Fin n) := hpc
        exact .check hpc' (not_lt.mp hsize)
      · cases h
        exact .ready hpc (not_lt.mp hch)
    · rename_i blockSize ch hpc
      split_ifs at h with hch
      · cases h
        have hpc' : s.sender = .pop blockSize (⟨ch, hch⟩ : Fin n) := hpc
        exact .pop hpc'
      · cases h
        exact .popped hpc (not_lt.mp hch)
    · rename_i blockSize ch sgDrops hpc
      by_cases hch : ch < n
      · rw [dif_pos hch] at h
        cases h
        exact .drops hpc
      · rw [dif_neg hch] at h
        cases h
        exact .send hpc
    · cases h

end Spec

end SgSender

end Grebe
