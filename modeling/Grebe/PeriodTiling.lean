import Grebe.Lib.Cycle
import Grebe.WaveformUtils

/-!
# Grebe.PeriodTiling — samples from a period, over and over

What the embedded source and the generator of grebe-sg have in common: a channel keeps one period of its waveform, and a
batch is filled by copying from it, in chunks that end with the batch or with the period.

* `tileLoop`: the loop over the chunks.
* `tileLoop_eq`: from a position in the period it ends, and what it copies is the period over and over.
-/

namespace Grebe

open Lib

/-- A period, and where the next sample is. -/
structure ChannelState where
  periodBuf : List Int16 := []
  periodLen : ℕ := 0
  periodPos : ℕ := 0
deriving DecidableEq

def noiseBufSize : ℕ := 1048576

/-- A frequency that is at least 1 Hz. -/
theorem clamped_pos (frequency : ℚ) : 0 < if frequency < 1 then 1 else frequency := by
  split_ifs with h
  · exact one_pos
  · exact one_pos.trans_le (not_lt.mp h)

namespace ChannelState

section Defs

variable (cs : ChannelState)

/-- The length that a waveform has when the others have `periodLen`. -/
def lengthFor (type : WaveformType) (periodLen : ℕ) : ℕ := if type = .whiteNoise then noiseBufSize else periodLen

/-- The period of a waveform in the place of the old one; `signal len i` is sample `i` of one of length `len`. -/
def withPeriod (signal : ℕ → ℕ → Int16) (len : ℕ) : ChannelState :=
  { cs with periodBuf := (List.range len).map (signal len), periodLen := len }

/-- `while (remaining > 0)`; `none`: it reads outside the period, or does not end within `fuel` rounds.  Behind the end
of the period the difference wraps around, and the chunk starts outside. -/
def tileLoop : ℕ → ChannelState → ℕ → Option (List Int16 × ChannelState)
  | _, cs, 0 => some ([], cs)
  | 0, _, _ + 1 => none
  | fuel + 1, cs, remaining + 1 =>
    let chunk := min (remaining + 1) (cs.periodLen - cs.periodPos)
    if cs.periodPos ≤ cs.periodLen ∧ cs.periodPos + chunk ≤ cs.periodBuf.length then
      let pos := cs.periodPos + chunk
      let cs' := { cs with periodPos := if cs.periodLen ≤ pos then 0 else pos }
      (tileLoop fuel cs' (remaining + 1 - chunk)).map fun r => ((cs.periodBuf.drop cs.periodPos).take chunk ++ r.1, r.2)
    else none

/-- `n` samples further. -/
def advance (n : ℕ) : ChannelState := { cs with periodPos := (cs.periodPos + n) % cs.periodLen }

/-- There is a period, and the position is in it. -/
structure Ready : Prop where
  length : cs.periodBuf.length = cs.periodLen
  pos : cs.periodPos < cs.periodLen

end Defs

section Tile

variable {cs : ChannelState}

@[simp] theorem advance_periodBuf (n : ℕ) : (cs.advance n).periodBuf = cs.periodBuf := rfl

theorem lengthFor_pos (type : WaveformType) {periodLen : ℕ} (h : 0 < periodLen) : 0 < lengthFor type periodLen := by
  unfold lengthFor
  split_ifs
  · decide
  · exact h

theorem Ready.advance (h : cs.Ready) (n : ℕ) : (cs.advance n).Ready :=
  ⟨h.length, Nat.mod_lt _ (Nat.zero_lt_of_lt h.pos)⟩

theorem advance_add (m n : ℕ) : (cs.advance m).advance n = cs.advance (m + n) := by
  simp [ChannelState.advance, Nat.add_assoc]

theorem Ready.advance_zero (h : cs.Ready) : cs.advance 0 = cs := by
  rw [ChannelState.advance, Nat.add_zero, Nat.mod_eq_of_lt h.pos]

/-- A chunk that ends with the period starts it again. -/
theorem advance_chunk {n : ℕ} (h : cs.periodPos + n ≤ cs.periodLen) :
    { cs with periodPos := if cs.periodLen ≤ cs.periodPos + n then 0 else cs.periodPos + n } = cs.advance n := by
  unfold advance
  split_ifs with hend
  · rw [le_antisymm h hend, Nat.mod_self]
  · rw [Nat.mod_eq_of_lt (not_le.mp hend)]

/-- The stretch behind a chunk. -/
theorem cycle_advance (h : cs.periodBuf.length = cs.periodLen) (m n : ℕ) :
    cycle cs.periodBuf (cs.advance m).periodPos n = cycle cs.periodBuf (cs.periodPos + m) n := by
  rw [advance, ← h, cycle_mod]

/-- **The loop ends and copies exactly what is missing**: each round takes at least a sample, up to the end of the
batch or of the period. -/
theorem tileLoop_eq (h : cs.Ready) {fuel remaining : ℕ} (hfuel : remaining ≤ fuel) :
    tileLoop fuel cs remaining = some (cycle cs.periodBuf cs.periodPos remaining, cs.advance remaining) := by
  induction fuel generalizing cs remaining with
  | zero =>
    obtain rfl := Nat.le_zero.mp hfuel
    rw [tileLoop, cycle_zero, h.advance_zero]
  | succ fuel ih =>
    cases remaining with
    | zero => rw [tileLoop, cycle_zero, h.advance_zero]
    | succ remaining =>
      have hpos := h.pos
      unfold tileLoop
      generalize hchunk : min (remaining + 1) (cs.periodLen - cs.periodPos) = chunk
      have hfits : cs.periodPos + chunk ≤ cs.periodLen := by omega
      have hsplit : remaining + 1 = chunk + (remaining + 1 - chunk) := by omega
      have hcopied : (cs.periodBuf.drop cs.periodPos).take chunk = cycle cs.periodBuf cs.periodPos chunk :=
        (cycle_of_fits (hfits.trans_eq h.length.symm)).symm
      dsimp only
      rw [if_pos ⟨hpos.le, hfits.trans_eq h.length.symm⟩, advance_chunk hfits, ih (h.advance chunk) (by omega),
        Option.map_some, hcopied, advance_periodBuf, cycle_advance h.length, advance_add, ← cycle_add, ← hsplit]

end Tile

end ChannelState

end Grebe
