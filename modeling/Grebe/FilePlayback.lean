import Grebe.GrbFile
import Grebe.Lib.Cycle
import Grebe.Lib.Lts

/-!
# Grebe.FilePlayback — the thread of a `FileReader`

The thread takes batch after batch from the mapped file and offers each to the rings, channel by channel.  At the end of
the file it starts again, or ends.  Other threads pause it, stop it and turn the looping on and off at any time.

* `Playback`: the thread, with what it has offered to each ring as history.  What a ring takes of a block only shows in
  how long the thread sleeps; the rings and the clock are left out.
* `stepThread_cases`: what a step of the thread does.
* `playback_inside_iff`: every block lies in the mapped file if and only if the file has room for the channels played.  The
  constructor compares with the announced size in 64 bits, which may have wrapped around.
* `playback_exact`: what a ring is offered is its channel over and over.
-/

namespace Grebe

open Lib

/-! ## Blocks -/

/-- A channel of a file, by the layout: channel after channel, behind the header. -/
def GrbFile.channel (file : GrbFile) (ch : ℕ) : List Int16 :=
  let n := (GrbFileHeader.load file.bytes).totalSamples.toNat
  (List.range n).map fun k => sample.decode (file.bytes.drop (32 + 2 * (ch * n + k)))

/-- What a ring is offered: `len` samples of its channel, from sample `pos` on. -/
structure Block where
  pos : ℕ
  len : ℕ
deriving DecidableEq

namespace FileReader

section Blocks

variable (r : FileReader)

/-- `batch_size` -/
def batchSize : UInt64 := if r.header.sampleRateHz.highRate then 65536 else 4096

/-- The samples of a block of channel `ch`, each within the mapping or no sample. -/
def blockReads (ch : ℕ) (b : Block) : List (Option Int16) := (List.range' b.pos b.len).map (r.read (UInt32.ofNat ch))

/-- A block lies within the mapping. -/
def Inside (ch : ℕ) (b : Block) : Prop := none ∉ r.blockReads ch b

/-- The samples of a block. -/
def samples (ch : ℕ) (b : Block) : List Int16 := (r.blockReads ch b).filterMap id

/-- A channel of the file. -/
def channel (ch : ℕ) : List Int16 := r.samples ch ⟨0, r.header.totalSamples.toNat⟩

/-- The channels that have a ring. -/
def played (rings : ℕ) : ℕ := min r.header.channelCount.toNat rings

end Blocks

end FileReader

/-! ## Steps -/

/-- Where the thread is. -/
inductive PlaybackPc
  /-- before it looks whether it has to stop -/
  | head
  /-- before it looks whether it is paused -/
  | checkPause
  /-- before it takes a batch -/
  | take
  /-- before the batch is pushed into ring `ch` -/
  | push (thisBatch : UInt64) (ch : ℕ)
  | ended
deriving DecidableEq

/-- The thread of a file reader, and what it shares with the other threads. -/
structure Playback where
  paused : Bool
  looping : Bool
  stopRequested : Bool
  pc : PlaybackPc
  readPos : UInt64
  cumulativeSamples : UInt64
  totalSamplesRead : UInt64
  offered : ℕ → List Block

namespace Playback

section Steps

inductive Label
  | setPaused (paused : Bool)
  | setLooping (looping : Bool)
  | stop
  /-- The thread goes on. -/
  | thread
deriving DecidableEq

/-- After `start`. -/
def started (paused looping : Bool) : Playback where
  paused := paused
  looping := looping
  stopRequested := false
  pc := .head
  readPos := 0
  cumulativeSamples := 0
  totalSamplesRead := 0
  offered _ := []

variable (r : FileReader) (batchSize : UInt64) (rings : ℕ) (s : Playback)

/-- `thread_func` -/
def stepThread : Option Playback :=
  match s.pc with
  | .head => some { s with pc := if s.stopRequested then .ended else .checkPause }
  | .checkPause => some { s with pc := if s.paused then .head else .take }
  | .take =>
    let remainingInFile := r.header.totalSamples - s.readPos
    if remainingInFile = 0 then
      if s.looping then some { s with readPos := 0, pc := .push (min batchSize r.header.totalSamples) 0 }
      else some { s with pc := .ended }
    else some { s with pc := .push (min batchSize remainingInFile) 0 }
  | .push thisBatch ch =>
    if ch < r.header.channelCount.toNat ∧ ch < rings then
      some { s with
        offered := Function.update s.offered ch (s.offered ch ++ [⟨s.readPos.toNat, thisBatch.toNat⟩])
        pc := .push thisBatch (ch + 1) }
    else
      some { s with
        readPos := s.readPos + thisBatch
        cumulativeSamples := s.cumulativeSamples + thisBatch
        totalSamplesRead := s.cumulativeSamples + thisBatch
        pc := .head }
  | .ended => none

def step : Label → Option Playback
  | .setPaused paused => some { s with paused := paused }
  | .setLooping looping => some { s with looping := looping }
  | .stop => some { s with stopRequested := true }
  | .thread => s.stepThread r batchSize rings

/-- The thread of `r` with `rings` rings and batches of `batchSize` samples. -/
def playback (r : FileReader) (batchSize : UInt64) (rings : ℕ) : Lts Playback Label where
  init s := ∃ paused looping, s = started paused looping
  step s := s.step r batchSize rings

end Steps

end Playback

/-! ## Where the blocks lie -/

namespace FileReader

section Reads

variable {r : FileReader} {ch : ℕ} {b : Block}

theorem inside_iff : r.Inside ch b ↔ ∀ k, b.pos ≤ k → k < b.pos + b.len → (r.read (UInt32.ofNat ch) k).isSome := by
  simp only [Inside, blockReads, List.mem_map, List.mem_range'_1, not_exists, not_and, and_imp,
    Option.isSome_iff_ne_none, ne_eq]

/-- `ch_base[ch]`, in a file in which the channels before it fit. -/
theorem toNat_chBase (hsize : r.mappedSize.toNat < 2 ^ 63) (hch : ch < 2 ^ 32)
    (hfits : 32 + 2 * (ch * r.header.totalSamples.toNat) ≤ r.mappedSize.toNat) :
    (r.chBase (UInt32.ofNat ch)).toNat = ch * r.header.totalSamples.toNat := by
  rw [chBase, UInt64.toNat_mul, UInt32.toNat_toUInt64, UInt32.toNat_ofNat', Nat.mod_eq_of_lt hch,
    Nat.mod_eq_of_lt (by omega)]

/-- A sample is in the mapping if the file is long enough, where the channels before it fit. -/
theorem isSome_read_iff (hsize : r.mappedSize.toNat < 2 ^ 63) (hch : ch < 2 ^ 32)
    (hfits : 32 + 2 * (ch * r.header.totalSamples.toNat) ≤ r.mappedSize.toNat) (k : ℕ) :
    (r.read (UInt32.ofNat ch) k).isSome ↔
      32 + 2 * (ch * r.header.totalSamples.toNat + k + 1) ≤ r.mappedSize.toNat := by
  rw [read, toNat_chBase hsize hch hfits, sampleData, GrbFileHeader.size_eq]
  split_ifs with hin
  · exact iff_of_true rfl hin
  · exact iff_of_false Bool.false_ne_true hin

/-- A block of a channel that fits. -/
theorem inside_of_fits (hsize : r.mappedSize.toNat < 2 ^ 63) (hch : ch < 2 ^ 32)
    (hfits : 32 + 2 * ((ch + 1) * r.header.totalSamples.toNat) ≤ r.mappedSize.toNat)
    (hb : b.pos + b.len ≤ r.header.totalSamples.toNat) : r.Inside ch b := by
  rw [Nat.add_one_mul ch] at hfits
  apply inside_iff.mpr
  intro k _ hk
  rw [isSome_read_iff hsize hch (by omega)]
  omega

/-- What the constructor leaves behind. -/
theorem new_ok {path : String} {calls : FileCalls} {file : GrbFile} (hnew : new path calls file = .ok r) :
    r.mappedSize.toNat = file.bytes.length ∧ 32 ≤ file.bytes.length ∧ file.bytes.length < 2 ^ 63 ∧
      r.header.channelCount.toNat ≤ 8 ∧ r.mapped = file.bytes ∧ r.header = .load file.bytes := by
  obtain ⟨-, hlen, hvalid, rfl⟩ := new_ok_iff.mp hnew
  exact ⟨file.toNat_mappedSize, hlen, file.size_lt, hvalid.channels.2, rfl, rfl⟩

theorem length_samples (hin : r.Inside ch b) : (r.samples ch b).length = b.len := by
  have hall : (r.samples ch b).length = (r.blockReads ch b).length := by
    refine List.filterMap_length_eq_length.mpr fun x hx => Option.isSome_iff_ne_none.mpr ?_
    rintro rfl
    exact hin hx
  rw [hall, blockReads, List.length_map, List.length_range']

theorem samples_eq_map (hin : r.Inside ch ⟨0, r.header.totalSamples.toNat⟩)
    (hb : b.pos + b.len ≤ r.header.totalSamples.toNat) :
    r.samples ch b = (List.range' b.pos b.len).map fun k => (r.read (UInt32.ofNat ch) k).getD 0 := by
  rw [samples, blockReads, List.filterMap_map, ← List.filterMap_eq_map']
  apply List.filterMap_congr
  intro k hk
  rw [List.mem_range'_1] at hk
  obtain ⟨x, hx⟩ := Option.isSome_iff_exists.mp (inside_iff.mp hin k (Nat.zero_le k) (by dsimp only; omega))
  rw [Function.comp_apply, hx, id_eq, Option.getD_some]

theorem length_channel (hin : r.Inside ch ⟨0, r.header.totalSamples.toNat⟩) :
    (r.channel ch).length = r.header.totalSamples.toNat :=
  length_samples hin

/-- Each channel is where the layout has it. -/
theorem channel_eq {path : String} {calls : FileCalls} {file : GrbFile} (hnew : new path calls file = .ok r)
    (hch : ch < 2 ^ 32) (hfits : 32 + 2 * ((ch + 1) * r.header.totalSamples.toNat) ≤ file.bytes.length) :
    r.channel ch = file.channel ch := by
  obtain ⟨hsize, -, hmax, -, hmapped, hheader⟩ := new_ok hnew
  rw [← hsize] at hmax hfits
  have hin : r.Inside ch ⟨0, r.header.totalSamples.toNat⟩ := inside_of_fits hmax hch hfits (Nat.zero_add _).le
  rw [Nat.add_one_mul ch] at hfits
  rw [channel, samples_eq_map hin (Nat.zero_add _).le, GrbFile.channel, ← hheader, List.range_eq_range']
  apply List.map_congr_left
  intro k hk
  have hlt : k < r.header.totalSamples.toNat := (List.mem_range'_1.mp hk).2.trans_eq (Nat.zero_add _)
  rw [read, toNat_chBase hmax hch (by omega), sampleData, GrbFileHeader.size_eq, if_pos (by omega), hmapped,
    Option.getD_some]

/-- A block is a piece of its channel. -/
theorem samples_eq (hin : r.Inside ch ⟨0, r.header.totalSamples.toNat⟩)
    (hb : b.pos + b.len ≤ r.header.totalSamples.toNat) : r.samples ch b = ((r.channel ch).drop b.pos).take b.len := by
  rw [channel, samples_eq_map hin hb, samples_eq_map hin (Nat.zero_add _).le, ← List.map_drop, ← List.map_take,
    List.drop_range', List.take_range'_of_length_ge (by dsimp only; omega), Nat.zero_add, Nat.mul_one]

end Reads

end FileReader

namespace Playback

section Bounds

variable {r : FileReader} {batchSize : UInt64} {rings : ℕ} {s s' : Playback} {l : Label}

/-- No block crosses the end of a channel, and only the channels with a ring are read. -/
structure Bounded (r : FileReader) (rings : ℕ) (s : Playback) : Prop where
  readPos : s.readPos.toNat ≤ r.header.totalSamples.toNat
  batch : ∀ b ch, s.pc = .push b ch → s.readPos.toNat + b.toNat ≤ r.header.totalSamples.toNat
  block : ∀ c, ∀ b ∈ s.offered c, c < r.played rings ∧ b.pos + b.len ≤ r.header.totalSamples.toNat

theorem bounded_started (paused looping : Bool) : Bounded r rings (started paused looping) where
  readPos := Nat.zero_le _
  batch _ _ h := nomatch h
  block _ _ h := nomatch h

theorem lt_played_iff {ch : ℕ} : ch < r.header.channelCount.toNat ∧ ch < rings ↔ ch < r.played rings :=
  Nat.lt_min.symm

theorem toNat_min (a b : UInt64) : (min a b).toNat = min a.toNat b.toNat := by
  show (if a ≤ b then a else b).toNat = _
  split_ifs with hab
  · exact (min_eq_left (UInt64.le_iff_toNat_le.mp hab)).symm
  · exact (min_eq_right (not_le.mp (mt UInt64.le_iff_toNat_le.mpr hab)).le).symm

/-- **What a step of the thread does.**  A batch is taken where the last one ended, or at the start if that was the end
of the file. -/
theorem stepThread_cases (hpos : s.readPos.toNat ≤ r.header.totalSamples.toNat)
    (hst : s.stepThread r batchSize rings = some s') :
    (∃ pc, (pc = .ended → s.stopRequested = true) ∧ (∀ b ch, s.pc ≠ .push b ch ∧ pc ≠ .push b ch) ∧
        s' = { s with pc := pc }) ∨
      (s.pc = .take ∧ s.readPos = r.header.totalSamples ∧ s.looping = false ∧ s' = { s with pc := .ended }) ∨
      (∃ pos b, s.pc = .take ∧
        (pos = s.readPos ∧ s.readPos.toNat < r.header.totalSamples.toNat ∨
          pos = 0 ∧ s.readPos = r.header.totalSamples) ∧
        b.toNat = min batchSize.toNat (r.header.totalSamples.toNat - pos.toNat) ∧
        s' = { s with readPos := pos, pc := .push b 0 }) ∨
      (∃ b ch, s.pc = .push b ch ∧ ch < r.played rings ∧
        s' = { s with
          offered := Function.update s.offered ch (s.offered ch ++ [⟨s.readPos.toNat, b.toNat⟩])
          pc := .push b (ch + 1) }) ∨
      ∃ b ch, s.pc = .push b ch ∧ r.played rings ≤ ch ∧
        s' = { s with
          readPos := s.readPos + b
          cumulativeSamples := s.cumulativeSamples + b
          totalSamplesRead := s.cumulativeSamples + b
          pc := .head } := by
  unfold stepThread at hst
  cases hpc : s.pc with
  | head =>
    simp only [hpc, Option.some.injEq] at hst
    refine .inl ⟨_, ?_, fun b ch => ?_, hst.symm⟩
    · intro h
      by_contra hstop
      rw [if_neg hstop] at h
      cases h
    · refine ⟨nofun, ?_⟩
      split_ifs <;> nofun
  | checkPause =>
    simp only [hpc, Option.some.injEq] at hst
    refine .inl ⟨_, ?_, fun b ch => ?_, hst.symm⟩
    · split_ifs <;> nofun
    · refine ⟨nofun, ?_⟩
      split_ifs <;> nofun
  | take =>
    have hleft : (r.header.totalSamples - s.readPos).toNat = r.header.totalSamples.toNat - s.readPos.toNat :=
      UInt64.toNat_sub_of_le _ _ (UInt64.le_iff_toNat_le.mpr hpos)
    have hend : r.header.totalSamples - s.readPos = 0 ↔ s.readPos = r.header.totalSamples := by
      rw [← UInt64.toNat_inj, ← UInt64.toNat_inj, hleft, UInt64.toNat_zero]
      omega
    simp only [hpc, hend] at hst
    split_ifs at hst with hat hloop
    · refine .inr (.inr (.inl ⟨0, _, rfl, .inr ⟨rfl, hat⟩, ?_, (Option.some.inj hst).symm⟩))
      rw [toNat_min]
      rfl
    · exact .inr (.inl ⟨rfl, hat, Bool.eq_false_iff.mpr hloop, (Option.some.inj hst).symm⟩)
    · refine .inr (.inr (.inl ⟨_, _, rfl, .inl ⟨rfl, ?_⟩, ?_, (Option.some.inj hst).symm⟩))
      · exact lt_of_le_of_ne hpos fun heq => hat (UInt64.toNat_inj.mp heq)
      · rw [toNat_min, hleft]
  | push b ch =>
    simp only [hpc, lt_played_iff] at hst
    split_ifs at hst with hch
    · exact .inr (.inr (.inr (.inl ⟨b, ch, rfl, hch, (Option.some.inj hst).symm⟩)))
    · exact .inr (.inr (.inr (.inr ⟨b, ch, rfl, not_lt.mp hch, (Option.some.inj hst).symm⟩)))
  | ended =>
    rw [hpc] at hst
    cases hst

theorem isSome_stepThread (hpc : s.pc ≠ .ended) (r : FileReader) (batchSize : UInt64) (rings : ℕ) :
    (s.stepThread r batchSize rings).isSome := by
  unfold stepThread
  cases hs : s.pc with
  | head | checkPause => rfl
  | take =>
    dsimp only
    split_ifs <;> rfl
  | push b ch =>
    dsimp only
    split_ifs <;> rfl
  | ended => exact absurd hs hpc

/-- A batch ends in the file. -/
theorem toNat_add_batch {b : UInt64} (h : s.readPos.toNat + b.toNat ≤ r.header.totalSamples.toNat) :
    (s.readPos + b).toNat = s.readPos.toNat + b.toNat := by
  have hlt := r.header.totalSamples.toNat_lt
  rw [UInt64.toNat_add, Nat.mod_eq_of_lt (by omega)]

/-- A block that a ring has been offered was there before, or has been pushed. -/
theorem mem_offered {offered : ℕ → List Block} {c ch : ℕ} {b bl : Block}
    (h : bl ∈ Function.update offered ch (offered ch ++ [b]) c) : bl ∈ offered c ∨ c = ch ∧ bl = b := by
  by_cases hc : c = ch
  · subst hc
    rw [Function.update_self, List.mem_append, List.mem_singleton] at h
    exact h.imp_right fun hbl => ⟨rfl, hbl⟩
  · rw [Function.update_of_ne hc] at h
    exact .inl h

theorem bounded_thread (h : Bounded r rings s) (hst : s.stepThread r batchSize rings = some s') :
    Bounded r rings s' := by
  obtain ⟨pc, -, hpc, rfl⟩ | ⟨-, -, -, rfl⟩ | ⟨pos, b, -, hpos, hb, rfl⟩ | ⟨b, ch, hpc, hch, rfl⟩ |
    ⟨b, ch, hpc, -, rfl⟩ := stepThread_cases h.readPos hst
  · exact ⟨h.readPos, fun b ch hpush => absurd hpush (hpc b ch).2, h.block⟩
  · exact ⟨h.readPos, fun _ _ hpush => (nomatch hpush), h.block⟩
  · have hle : pos.toNat ≤ r.header.totalSamples.toNat := by
      obtain ⟨rfl, hlt⟩ | ⟨rfl, -⟩ := hpos
      · exact hlt.le
      · exact Nat.zero_le _
    refine ⟨hle, ?_, h.block⟩
    intro b' ch hpush
    obtain ⟨rfl, -⟩ := PlaybackPc.push.inj hpush
    show pos.toNat + b.toNat ≤ _
    omega
  · refine ⟨h.readPos, fun b' ch' hpush => ?_, fun c bl hbl => ?_⟩
    · obtain ⟨rfl, -⟩ := PlaybackPc.push.inj hpush
      exact h.batch b ch hpc
    · obtain hold | ⟨rfl, rfl⟩ := mem_offered hbl
      · exact h.block c bl hold
      · exact ⟨hch, h.batch b c hpc⟩
  · refine ⟨?_, fun _ _ hpush => (nomatch hpush), h.block⟩
    show (s.readPos + b).toNat ≤ _
    rw [toNat_add_batch (h.batch b ch hpc)]
    exact h.batch b ch hpc

theorem bounded_step (h : Bounded r rings s) (hst : s.step r batchSize rings l = some s') : Bounded r rings s' := by
  cases l with
  | thread => exact bounded_thread h hst
  | setPaused paused => cases hst; exact ⟨h.readPos, h.batch, h.block⟩
  | setLooping looping => cases hst; exact ⟨h.readPos, h.batch, h.block⟩
  | stop => cases hst; exact ⟨h.readPos, h.batch, h.block⟩

theorem reach_bounded (h : (playback r batchSize rings).Reachable s) : Bounded r rings s := by
  refine h.invariant (I := Bounded r rings) ?_ fun _ _ _ hs _ hst => bounded_step hs hst
  rintro _ ⟨paused, looping, rfl⟩
  exact bounded_started paused looping

end Bounds

/-! ## Without looking outside the file -/

section Outside

variable {path : String} {calls : FileCalls} {file : GrbFile} {r : FileReader} {batchSize : UInt64} {rings : ℕ}
  {s : Playback}

/-- A block within a channel that is played, from a file with room for it. -/
theorem inside_of_fits (hsize : r.mappedSize.toNat < 2 ^ 63) (hcount : r.header.channelCount.toNat ≤ 8)
    (hfits : 32 + 2 * (r.played rings * r.header.totalSamples.toNat) ≤ r.mappedSize.toNat) {c : ℕ} {b : Block}
    (hc : c < r.played rings) (hb : b.pos + b.len ≤ r.header.totalSamples.toNat) : r.Inside c b := by
  have hle : r.played rings ≤ r.header.channelCount.toNat := Nat.min_le_left ..
  have hmul : (c + 1) * r.header.totalSamples.toNat ≤ r.played rings * r.header.totalSamples.toNat :=
    Nat.mul_le_mul_right _ hc
  exact FileReader.inside_of_fits hsize (by omega) (by omega) hb

/-- The batch is pushed into ring after ring. -/
theorem reach_push (h : (playback r batchSize rings).Reachable s) {b : UInt64} (hpc : s.pc = .push b 0) {ch : ℕ}
    (hch : ch ≤ r.played rings) :
    ∃ s', (playback r batchSize rings).Reachable s' ∧ s'.pc = .push b ch ∧ s'.readPos = s.readPos ∧
      s'.paused = s.paused ∧ s'.stopRequested = s.stopRequested ∧
      ∀ c < ch, ⟨s.readPos.toNat, b.toNat⟩ ∈ s'.offered c := by
  induction ch with
  | zero => exact ⟨s, h, hpc, rfl, rfl, rfl, fun c hc => absurd hc (Nat.not_lt_zero c)⟩
  | succ ch ih =>
    obtain ⟨s', hs', hpc', hpos, hpaused, hstop, hin⟩ := ih (by omega)
    have hst : (playback r batchSize rings).step s' .thread = some { s' with
        offered := Function.update s'.offered ch (s'.offered ch ++ [⟨s'.readPos.toNat, b.toNat⟩])
        pc := .push b (ch + 1) } := by
      simp only [playback, step, stepThread, hpc']
      exact if_pos (lt_played_iff.mpr hch)
    refine ⟨_, .step hs' trivial hst, rfl, hpos, hpaused, hstop, ?_⟩
    intro c hc
    show _ ∈ Function.update s'.offered ch _ c
    by_cases hcch : c = ch
    · subst hcch
      rw [Function.update_self, hpos]
      exact List.mem_append_right _ (List.mem_singleton.mpr rfl)
    · rw [Function.update_of_ne hcch]
      exact hin c (by omega)

/-- One round of the thread, unpaused and before the end of the file. -/
theorem reach_round (h : (playback r batchSize rings).Reachable s) (hpc : s.pc = .head) (hpaused : s.paused = false)
    (hstop : s.stopRequested = false) (hlt : s.readPos.toNat < r.header.totalSamples.toNat) :
    ∃ s', (playback r batchSize rings).Reachable s' ∧ s'.pc = .head ∧ s'.paused = false ∧ s'.stopRequested = false ∧
      s'.readPos.toNat = s.readPos.toNat + min batchSize.toNat (r.header.totalSamples.toNat - s.readPos.toNat) ∧
      ∀ c < r.played rings,
        ⟨s.readPos.toNat, min batchSize.toNat (r.header.totalSamples.toNat - s.readPos.toNat)⟩ ∈ s'.offered c := by
  have hleft : (r.header.totalSamples - s.readPos).toNat = r.header.totalSamples.toNat - s.readPos.toNat :=
    UInt64.toNat_sub_of_le _ _ (UInt64.le_iff_toNat_le.mpr hlt.le)
  have hne : r.header.totalSamples - s.readPos ≠ 0 := by
    rw [ne_eq, ← UInt64.toNat_inj, hleft, UInt64.toNat_zero]
    omega
  -- it looks whether it has to stop and whether it is paused, and takes a batch
  have hhead : (playback r batchSize rings).step s .thread = some { s with pc := .checkPause } := by
    simp [playback, step, stepThread, hpc, hstop]
  have hcheck : (playback r batchSize rings).step { s with pc := .checkPause } .thread =
      some { s with pc := .take } := by
    simp [playback, step, stepThread, hpaused]
  have htake : (playback r batchSize rings).step { s with pc := .take } .thread =
      some { s with pc := .push (min batchSize (r.header.totalSamples - s.readPos)) 0 } := by
    simp only [playback, step, stepThread]
    exact if_neg hne
  obtain ⟨s', hs', hpc', hpos, hpaused', hstop', hin⟩ :=
    reach_push (.step (.step (.step h trivial hhead) trivial hcheck) trivial htake) rfl le_rfl
  have hbatch : (min batchSize (r.header.totalSamples - s.readPos)).toNat =
      min batchSize.toNat (r.header.totalSamples.toNat - s.readPos.toNat) := by rw [toNat_min, hleft]
  have hend := (reach_bounded hs').batch _ _ hpc'
  have hst : (playback r batchSize rings).step s' .thread = some { s' with
      readPos := s'.readPos + min batchSize (r.header.totalSamples - s.readPos)
      cumulativeSamples := s'.cumulativeSamples + min batchSize (r.header.totalSamples - s.readPos)
      totalSamplesRead := s'.cumulativeSamples + min batchSize (r.header.totalSamples - s.readPos)
      pc := .head } := by
    simp only [playback, step, stepThread, hpc', lt_played_iff]
    exact if_neg (Nat.lt_irrefl _)
  refine ⟨_, .step hs' trivial hst, rfl, hpaused'.trans hpaused, hstop'.trans hstop, ?_, ?_⟩
  · show (s'.readPos + _).toNat = _
    rw [toNat_add_batch hend, hbatch, hpos]
  · rw [hbatch] at hin
    exact hin

/-- **Unpaused, the thread comes to the last sample of every channel.** -/
theorem reach_last (hB : 0 < batchSize.toNat) (h : (playback r batchSize rings).Reachable s) (hpc : s.pc = .head)
    (hpaused : s.paused = false) (hstop : s.stopRequested = false)
    (hlt : s.readPos.toNat < r.header.totalSamples.toNat) {c : ℕ} (hc : c < r.played rings) :
    ∃ s', (playback r batchSize rings).Reachable s' ∧
      ∃ b ∈ s'.offered c, b.pos < r.header.totalSamples.toNat ∧ b.pos + b.len = r.header.totalSamples.toNat := by
  induction hleft : r.header.totalSamples.toNat - s.readPos.toNat using Nat.strong_induction_on generalizing s with
  | _ left ih =>
    obtain ⟨s', hs', hpc', hpaused', hstop', hpos, hin⟩ := reach_round h hpc hpaused hstop hlt
    by_cases hend : r.header.totalSamples.toNat - s.readPos.toNat ≤ batchSize.toNat
    · refine ⟨s', hs', _, hin c hc, hlt, ?_⟩
      dsimp only
      omega
    · exact ih _ (by omega) hs' hpc' hpaused' hstop' (by omega) rfl

theorem batchSize_pos (r : FileReader) : 0 < r.batchSize.toNat := by
  unfold FileReader.batchSize
  split_ifs <;> decide

/-- The first channel that does not fit. -/
theorem exists_first {size n : ℕ} (T : ℕ) (h0 : 32 ≤ size) (h : size < 32 + 2 * (n * T)) :
    ∃ c < n, 32 + 2 * (c * T) ≤ size ∧ size < 32 + 2 * ((c + 1) * T) := by
  induction n with
  | zero => omega
  | succ n ih =>
    by_cases hn : size < 32 + 2 * (n * T)
    · obtain ⟨c, hc, hle, hlt⟩ := ih hn
      exact ⟨c, by omega, hle, hlt⟩
    · exact ⟨n, Nat.lt_succ_self n, not_lt.mp hn, h⟩

/-- **The thread stays inside the mapped file exactly if the file has room for the channels that are played**, as many
samples of each as the header says.  With a ring for every channel that is the size that the header announces. -/
theorem playback_inside_iff (hnew : FileReader.new path calls file = .ok r) (rings : ℕ) :
    (∀ s, (playback r r.batchSize rings).Reachable s → ∀ c, ∀ b ∈ s.offered c, r.Inside c b) ↔
      32 + 2 * (r.played rings * r.header.totalSamples.toNat) ≤ file.bytes.length := by
  obtain ⟨hsize, hlen, hmax, hcount, -⟩ := FileReader.new_ok hnew
  rw [← hsize] at hlen hmax ⊢
  constructor
  · intro hall
    by_contra hshort
    obtain ⟨c, hc, hle, hlt⟩ := exists_first _ hlen (not_le.mp hshort)
    rw [Nat.add_one_mul c] at hlt
    obtain ⟨s, hs, b, hb, hpos, hend⟩ := reach_last (batchSize_pos r) (.init ⟨false, true, rfl⟩) rfl rfl rfl
      (show 0 < _ by omega) hc
    have hc8 : c < 8 := hc.trans_le ((Nat.min_le_left ..).trans hcount)
    have hlast := FileReader.inside_iff.mp (hall s hs c b hb) (b.pos + b.len - 1) (by omega) (by omega)
    rw [FileReader.isSome_read_iff hmax (by omega) hle] at hlast
    omega
  · intro hfits s hs c b hb
    obtain ⟨hc, hle⟩ := (reach_bounded hs).block c b hb
    exact inside_of_fits hmax hcount hfits hc hle

/-- A file without a sample whose header announces `2 ^ 63` of them, `2 ^ 64` bytes. -/
def wrapping : GrbFile :=
  ⟨[71, 82, 66, 49, 1, 0, 0, 0, 1, 0, 0, 0, 0, 0, 0, 0, 0, 0, 0, 0, 0, 0, 240, 63, 0, 0, 0, 0, 0, 0, 0, 128], by decide⟩

/-- **The thread reads outside the mapped file**: the announced size is zero in 64 bits, so the constructor takes the
file, and the first batch is 4096 samples behind its end. -/
theorem reads_outside :
    ∃ r s, FileReader.new "wrapping.grb" ⟨true, true, true⟩ wrapping = .ok r ∧
      (playback r r.batchSize 1).Reachable s ∧ s.offered 0 = [⟨0, 4096⟩] ∧ ¬ r.Inside 0 ⟨0, 4096⟩ := by
  refine ⟨⟨"wrapping.grb", wrapping.bytes, wrapping.mappedSize, .load wrapping.bytes⟩, _, ?_,
    Lts.reachable_of_exec (List.replicate 4 .thread) ⟨false, true, rfl⟩ rfl, rfl, ?_⟩
  · rfl
  · refine not_not.mpr (List.mem_map.mpr ⟨0, ?_, rfl⟩)
    exact List.mem_range'_1.mpr (by decide)

/-- A file with a single sample, 5. -/
def oneSample : GrbFile :=
  ⟨[71, 82, 66, 49, 1, 0, 0, 0, 1, 0, 0, 0, 0, 0, 0, 0, 0, 0, 0, 0, 0, 0, 240, 63, 1, 0, 0, 0, 0, 0, 0, 0, 5, 0],
    by decide⟩

/-- `oneSample`, opened. -/
def oneReader : FileReader := ⟨"one.grb", oneSample.bytes, oneSample.mappedSize, .load oneSample.bytes⟩

theorem reads_inside_one :
    FileReader.new "one.grb" ⟨true, true, true⟩ oneSample = .ok oneReader ∧
      ∀ s, (playback oneReader oneReader.batchSize 1).Reachable s → ∀ c, ∀ b ∈ s.offered c, oneReader.Inside c b := by
  have hnew : FileReader.new "one.grb" ⟨true, true, true⟩ oneSample = .ok oneReader := rfl
  exact ⟨hnew, (playback_inside_iff hnew 1).mpr (by decide)⟩

end Outside

/-! ## Sample for sample -/

section Exact

variable {r : FileReader} {batchSize : UInt64} {rings : ℕ} {s s' : Playback} {l : Label}

/-- How far a channel is ahead of the whole batches: its share of the one that is being pushed. -/
def ahead (s : Playback) (c : ℕ) : ℕ :=
  match s.pc with
  | .push b ch => if c < ch then b.toNat else 0
  | _ => 0

theorem ahead_of_not_push (h : ∀ b ch, s.pc ≠ .push b ch) (c : ℕ) : s.ahead c = 0 := by
  unfold ahead
  split
  · exact absurd ‹_› (h _ _)
  · rfl

theorem ahead_of_push {b : UInt64} {ch : ℕ} (h : s.pc = .push b ch) (c : ℕ) :
    s.ahead c = if c < ch then b.toNat else 0 := by
  rw [ahead, h]

/-- What ring `c` has been offered. -/
def stream (r : FileReader) (s : Playback) (c : ℕ) : List Int16 := (s.offered c).flatMap (r.samples c)

/-- **After whole batches of `n` samples** every ring has been offered its channel over and over. -/
structure Exact (r : FileReader) (rings n : ℕ) (s : Playback) : Prop where
  pos : n % r.header.totalSamples.toNat = s.readPos.toNat % r.header.totalSamples.toNat
  cumulative : s.cumulativeSamples = UInt64.ofNat n
  read : s.totalSamplesRead = UInt64.ofNat n
  batch : ∀ b ch, s.pc = .push b ch → 0 < b.toNat
  stream : ∀ c < r.played rings, s.stream r c = cycle (r.channel c) 0 (n + s.ahead c)
  nonempty : ∀ c, ∀ b ∈ s.offered c, 0 < b.len

theorem exact_started (paused looping : Bool) : Exact r rings 0 (started paused looping) where
  pos := rfl
  cumulative := rfl
  read := rfl
  batch _ _ h := nomatch h
  stream _ _ := rfl
  nonempty _ _ h := nomatch h

/-- A block that is pushed goes on where the stream ended. -/
theorem cycle_push {c n : ℕ} {b : UInt64}
    (hin : r.Inside c ⟨0, r.header.totalSamples.toNat⟩)
    (hpos : n % r.header.totalSamples.toNat = s.readPos.toNat % r.header.totalSamples.toNat) (hb : 0 < b.toNat)
    (hle : s.readPos.toNat + b.toNat ≤ r.header.totalSamples.toNat) :
    cycle (r.channel c) 0 (n + b.toNat) = cycle (r.channel c) 0 n ++ r.samples c ⟨s.readPos.toNat, b.toNat⟩ := by
  have hlen : (r.channel c).length = r.header.totalSamples.toNat := FileReader.length_channel hin
  have hfits : s.readPos.toNat + b.toNat ≤ (r.channel c).length := hle.trans_eq hlen.symm
  rw [cycle_add, Nat.zero_add, ← cycle_mod _ n, hlen, hpos, Nat.mod_eq_of_lt (by omega), cycle_of_fits hfits,
    FileReader.samples_eq hin hle]

/-- The ring that is pushed into gets its share of the batch, and the others have theirs or wait for it. -/
theorem stream_push {c ch n : ℕ} {b : UInt64} (hin : r.Inside c ⟨0, r.header.totalSamples.toNat⟩)
    (hs : Bounded r rings s) (h : Exact r rings n s) (hpc : s.pc = .push b ch) (hc : c < r.played rings) :
    (Function.update s.offered ch (s.offered ch ++ [⟨s.readPos.toNat, b.toNat⟩]) c).flatMap (r.samples c) =
      cycle (r.channel c) 0 (n + if c < ch + 1 then b.toNat else 0) := by
  have hold := h.stream c hc
  rw [ahead_of_push hpc] at hold
  by_cases hcch : c = ch
  · subst hcch
    rw [if_neg (Nat.lt_irrefl c), Nat.add_zero] at hold
    rw [Function.update_self, List.flatMap_append, List.flatMap_singleton, if_pos (Nat.lt_succ_self c),
      cycle_push hin h.pos (h.batch b c hpc) (hs.batch b c hpc), ← hold, stream]
  · have hiff : c < ch + 1 ↔ c < ch := by omega
    rw [Function.update_of_ne hcch, ← stream, hold]
    simp only [hiff]

theorem exact_thread (hT : 0 < r.header.totalSamples.toNat) (hB : 0 < batchSize.toNat)
    (hin : ∀ c < r.played rings, r.Inside c ⟨0, r.header.totalSamples.toNat⟩) (hs : Bounded r rings s) {n : ℕ}
    (h : Exact r rings n s) (hst : s.stepThread r batchSize rings = some s') : ∃ n', Exact r rings n' s' := by
  obtain ⟨pc, -, hpc, rfl⟩ | ⟨htake, -, -, rfl⟩ | ⟨pos, b, htake, hpos, hb, rfl⟩ |
    ⟨b, ch, hpc, hch, rfl⟩ | ⟨b, ch, hpc, hch, rfl⟩ := stepThread_cases hs.readPos hst
  · refine ⟨n, h.pos, h.cumulative, h.read, fun b ch hpush => absurd hpush (hpc b ch).2, ?_, h.nonempty⟩
    intro c hc
    have hkeep : ahead { s with pc := pc } c = s.ahead c := by
      rw [ahead_of_not_push fun b ch => (hpc b ch).2, ahead_of_not_push fun b ch => (hpc b ch).1]
    exact hkeep ▸ h.stream c hc
  · refine ⟨n, h.pos, h.cumulative, h.read, fun _ _ hpush => (nomatch hpush), ?_, h.nonempty⟩
    intro c hc
    have hkeep : ahead { s with pc := .ended } c = s.ahead c := by
      rw [ahead, ahead, htake]
    exact hkeep ▸ h.stream c hc
  · have hmod : s.readPos.toNat % r.header.totalSamples.toNat = pos.toNat % r.header.totalSamples.toNat := by
      obtain ⟨rfl, -⟩ | ⟨rfl, hend⟩ := hpos
      · rfl
      · rw [hend, Nat.mod_self, UInt64.toNat_zero, Nat.zero_mod]
    have hlt : pos.toNat < r.header.totalSamples.toNat := by
      obtain ⟨rfl, hlt⟩ | ⟨rfl, -⟩ := hpos
      · exact hlt
      · exact hT
    refine ⟨n, h.pos.trans hmod, h.cumulative, h.read, fun b' ch hpush => ?_, fun c hc => ?_, h.nonempty⟩
    · obtain ⟨rfl, -⟩ := PlaybackPc.push.inj hpush
      omega
    · have hkeep : ahead { s with readPos := pos, pc := .push b 0 } c = s.ahead c := by
        rw [ahead_of_push rfl, if_neg (Nat.not_lt_zero c), ahead, htake]
      exact hkeep ▸ h.stream c hc
  · have hpos := h.batch b ch hpc
    refine ⟨n, h.pos, h.cumulative, h.read, fun b' ch' hpush => ?_, fun c hc => ?_, fun c bl hbl => ?_⟩
    · obtain ⟨rfl, -⟩ := PlaybackPc.push.inj hpush
      exact hpos
    · rw [ahead_of_push rfl]
      exact stream_push (hin c hc) hs h hpc hc
    · obtain hold | ⟨rfl, rfl⟩ := mem_offered hbl
      · exact h.nonempty c bl hold
      · exact hpos
  · have hcount : s.cumulativeSamples + b = UInt64.ofNat (n + b.toNat) := by
      rw [UInt64.ofNat_add, UInt64.ofNat_toNat, h.cumulative]
    refine ⟨n + b.toNat, ?_, hcount, hcount, fun _ _ hpush => (nomatch hpush), fun c hc => ?_, h.nonempty⟩
    · show _ = (s.readPos + b).toNat % _
      rw [toNat_add_batch (hs.batch b ch hpc), Nat.add_mod, h.pos, ← Nat.add_mod]
    · have hold := h.stream c hc
      rw [ahead_of_push hpc, if_pos (hc.trans_le hch)] at hold
      exact hold

theorem exact_step (hT : 0 < r.header.totalSamples.toNat) (hB : 0 < batchSize.toNat)
    (hin : ∀ c < r.played rings, r.Inside c ⟨0, r.header.totalSamples.toNat⟩) (hs : Bounded r rings s) {n : ℕ}
    (h : Exact r rings n s) (hst : s.step r batchSize rings l = some s') : ∃ n', Exact r rings n' s' := by
  cases l with
  | thread => exact exact_thread hT hB hin hs h hst
  | setPaused paused =>
    cases hst
    exact ⟨n, h.pos, h.cumulative, h.read, h.batch, h.stream, h.nonempty⟩
  | setLooping looping =>
    cases hst
    exact ⟨n, h.pos, h.cumulative, h.read, h.batch, h.stream, h.nonempty⟩
  | stop =>
    cases hst
    exact ⟨n, h.pos, h.cumulative, h.read, h.batch, h.stream, h.nonempty⟩

theorem reach_exact (hT : 0 < r.header.totalSamples.toNat) (hB : 0 < batchSize.toNat)
    (hin : ∀ c < r.played rings, r.Inside c ⟨0, r.header.totalSamples.toNat⟩)
    (hs : (playback r batchSize rings).Reachable s) : ∃ n, Exact r rings n s := by
  refine hs.invariant_of (I := fun s => ∃ n, Exact r rings n s) (fun _ => reach_bounded) ?_ ?_
  · rintro _ ⟨paused, looping, rfl⟩
    exact ⟨0, exact_started paused looping⟩
  · rintro s l s' hb ⟨n, hn⟩ - hst
    exact exact_step hT hB hin hb hn hst

/-- The thread ends when it is told to, or at the end of the file. -/
theorem ended_cases (hs : Bounded r rings s) {n : ℕ} (h : Exact r rings n s)
    (hst : s.stepThread r batchSize rings = some s') (hend : s'.pc = .ended) :
    s.stopRequested = true ∨ s.looping = false ∧ r.header.totalSamples.toNat ∣ n := by
  obtain ⟨pc, hpc, -, rfl⟩ | ⟨-, hat, hlooping, rfl⟩ | ⟨pos, b, -, -, -, rfl⟩ | ⟨b, ch, -, -, rfl⟩ |
    ⟨b, ch, -, -, rfl⟩ := stepThread_cases hs.readPos hst
  · exact .inl (hpc hend)
  · refine .inr ⟨hlooping, Nat.dvd_of_mod_eq_zero ?_⟩
    rw [h.pos, hat, Nat.mod_self]
  · cases hend
  · cases hend
  · cases hend

end Exact

section Main

variable {path : String} {calls : FileCalls} {file : GrbFile} {r : FileReader} {s : Playback}

/-- **A ring is offered its channel of the file over and over.**  With `n` samples in whole batches, which the counter
tells in its 64 bits, every ring that already has its share of the next batch is ahead by that batch.  Every block has a
sample and lies in the file, and the thread ends only when it is told to, or after whole rounds with the looping off. -/
theorem playback_exact (hnew : FileReader.new path calls file = .ok r) (hT : 1 ≤ r.header.totalSamples.toNat)
    (hfits : r.header.announced ≤ file.bytes.length) {batchSize : UInt64} (hB : 0 < batchSize) (rings : ℕ)
    (hs : (playback r batchSize rings).Reachable s) :
    ∃ n, s.totalSamplesRead = UInt64.ofNat n ∧
      (∀ c < r.played rings, (file.channel c).length = r.header.totalSamples.toNat ∧
        s.stream r c = cycle (file.channel c) 0 (n + s.ahead c)) ∧
      (∀ c, ∀ b ∈ s.offered c, 0 < b.len ∧ b.pos + b.len ≤ r.header.totalSamples.toNat ∧ r.Inside c b) ∧
      ∀ s', s.step r batchSize rings .thread = some s' → s'.pc = .ended →
        s.stopRequested = true ∨ s.looping = false ∧ r.header.totalSamples.toNat ∣ n := by
  obtain ⟨hsize, -, hmax, hcount, -⟩ := FileReader.new_ok hnew
  have hle : r.played rings ≤ r.header.channelCount.toNat := Nat.min_le_left ..
  have hmul {c : ℕ} (hc : c < r.played rings) : (c + 1) * r.header.totalSamples.toNat ≤
      r.header.channelCount.toNat * r.header.totalSamples.toNat := Nat.mul_le_mul_right _ (hc.trans_le hle)
  unfold GrbFileHeader.announced at hfits
  have hroom {c : ℕ} (hc : c < r.played rings) :
      32 + 2 * ((c + 1) * r.header.totalSamples.toNat) ≤ file.bytes.length := by
    have := hmul hc
    omega
  have hin {c : ℕ} (hc : c < r.played rings) {b : Block} (hb : b.pos + b.len ≤ r.header.totalSamples.toNat) :
      r.Inside c b := by
    refine FileReader.inside_of_fits ?_ (by omega) ?_ hb
    · rwa [hsize]
    · rw [hsize]
      exact hroom hc
  have hbounded := reach_bounded hs
  obtain ⟨n, hn⟩ := reach_exact hT (UInt64.lt_iff_toNat_lt.mp hB) (fun c hc => hin hc (Nat.zero_add _).le) hs
  refine ⟨n, hn.read, fun c hc => ?_, fun c b hb => ?_, fun s' hst hend => ended_cases hbounded hn hst hend⟩
  · rw [← FileReader.channel_eq hnew (by omega) (hroom hc)]
    exact ⟨FileReader.length_channel (hin hc (Nat.zero_add _).le), hn.stream c hc⟩
  · obtain ⟨hc, hb'⟩ := hbounded.block c b hb
    exact ⟨hn.nonempty c b hb, hb', hin hc hb'⟩

/-- A file with three samples of two channels. -/
def twoChannels : GrbFile :=
  ⟨[71, 82, 66, 49, 1, 0, 0, 0, 2, 0, 0, 0, 0, 0, 0, 0, 0, 0, 0, 0, 0, 0, 240, 63, 3, 0, 0, 0, 0, 0, 0, 0,
    1, 0, 2, 0, 3, 0, 4, 0, 5, 0, 6, 0], by decide⟩

/-- `twoChannels`, opened. -/
def twoReader : FileReader := ⟨"two.grb", twoChannels.bytes, twoChannels.mappedSize, .load twoChannels.bytes⟩

/-- Batches of two samples, into the second round of the file. -/
theorem playback_exact_two :
    ∃ s, (playback twoReader 2 2).exec (started false true) (List.replicate 18 .thread) = some s ∧
      s.stream twoReader 0 = [1, 2, 3, 1, 2] ∧ s.stream twoReader 1 = [4, 5, 6, 4, 5] ∧
      ∃ n, s.totalSamplesRead = UInt64.ofNat n ∧
        ∀ c < twoReader.played 2, s.stream twoReader c = cycle (twoChannels.channel c) 0 (n + s.ahead c) := by
  obtain ⟨s, hs, hfirst, hsecond⟩ : ∃ s,
      (playback twoReader 2 2).exec (started false true) (List.replicate 18 .thread) = some s ∧
        s.stream twoReader 0 = [1, 2, 3, 1, 2] ∧ s.stream twoReader 1 = [4, 5, 6, 4, 5] := ⟨_, rfl, rfl, rfl⟩
  have hnew : FileReader.new "two.grb" ⟨true, true, true⟩ twoChannels = .ok twoReader := rfl
  obtain ⟨n, hread, hstream, -⟩ := playback_exact hnew (by decide) (by decide) (by decide : (0 : UInt64) < 2) 2
    (Lts.reachable_of_exec _ ⟨false, true, rfl⟩ hs)
  exact ⟨s, hs, hfirst, hsecond, n, hread, fun c hc => (hstream c hc).2⟩

end Main

end Playback

end Grebe
