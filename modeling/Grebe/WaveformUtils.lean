import Mathlib.Algebra.Order.Round
import Mathlib.Tactic

/-!
# Grebe.WaveformUtils — the length of a period

Rates and frequencies are exact rationals.  The value of a sine at a sample is a parameter.
-/

namespace Grebe

inductive WaveformType
  | sine
  | square
  | sawtooth
  | whiteNoise
  | chirp
deriving DecidableEq

namespace WaveformUtils

section Periods

/-- `std::round`, half away from zero. -/
def roundHalfAway (x : ℚ) : ℤ := if 0 ≤ x then round x else -round (-x)

def computeFrequency (sampleRate : ℚ) : ℚ := max 180 (3 * sampleRate / 1000000)

/-- The conversion of a negative quotient is undefined; it is zero here. -/
def computePeriodLength (sampleRate frequency : ℚ) : ℕ := max 1 (roundHalfAway (sampleRate / frequency)).toNat

/-- `generate_sine_period`; `sine len ch numChannels i` is the sample at the phase of `i`. -/
def generateSinePeriod (sine : ℕ → UInt32 → UInt32 → ℕ → Int16) (sampleRate : ℚ) (ch numChannels : UInt32) :
    List Int16 :=
  let periodLen := computePeriodLength sampleRate (computeFrequency sampleRate)
  (List.range periodLen).map (sine periodLen ch numChannels)

end Periods

section Lengths

variable {sampleRate frequency : ℚ}

theorem computePeriodLength_pos (sampleRate frequency : ℚ) : 0 < computePeriodLength sampleRate frequency :=
  Nat.one_pos.trans_le (le_max_left ..)

@[simp] theorem length_generateSinePeriod (sine : ℕ → UInt32 → UInt32 → ℕ → Int16) (sampleRate : ℚ)
    (ch numChannels : UInt32) : (generateSinePeriod sine sampleRate ch numChannels).length =
      computePeriodLength sampleRate (computeFrequency sampleRate) := by
  rw [generateSinePeriod, List.length_map, List.length_range]

/-- A period has one sample if the quotient rounds to less than two. -/
theorem computePeriodLength_eq_one (h : 0 ≤ sampleRate / frequency) :
    computePeriodLength sampleRate frequency = 1 ↔ sampleRate / frequency < 3 / 2 := by
  rw [computePeriodLength, roundHalfAway, if_pos h, max_eq_left_iff, Int.toNat_le, ← Int.lt_add_one_iff, round_eq,
    Int.floor_lt]
  constructor <;> intro hlt <;> push_cast at * <;> linarith

/-- A period has two samples or more if the quotient rounds to their number. -/
theorem computePeriodLength_eq_iff (h : 0 ≤ sampleRate / frequency) {n : ℕ} (hn : 2 ≤ n) :
    computePeriodLength sampleRate frequency = n ↔
      (n : ℚ) - 1 / 2 ≤ sampleRate / frequency ∧ sampleRate / frequency < n + 1 / 2 := by
  have hround : computePeriodLength sampleRate frequency = n ↔ round (sampleRate / frequency) = (n : ℤ) := by
    rw [computePeriodLength, roundHalfAway, if_pos h]
    omega
  rw [hround, round_eq_iff, Set.mem_Ico, Int.cast_natCast]

end Lengths

end WaveformUtils

end Grebe
