import Mathlib.Tactic
import Mathlib.Algebra.Order.Floor.Semiring

/-!
# Lib.Interpolate — a sequence between its members

`interpolate f x` joins the members of a sequence by straight lines.

* `interpolate_natCast`: at a number it is the member.
* `interpolate_mono`: of a sequence that grows it grows too, across the members.

The library names no program.
-/

namespace Lib

universe u

variable {K : Type u} [Field K] [LinearOrder K] [IsStrictOrderedRing K] [FloorSemiring K]

/-- The value at `x` on the line between the members next to it. -/
def interpolate (f : ℕ → K) (x : K) : K := f ⌊x⌋₊ * (1 - (x - ⌊x⌋₊)) + f (⌊x⌋₊ + 1) * (x - ⌊x⌋₊)

section Interpolate

variable {f : ℕ → K} {x y : K}

theorem interpolate_natCast (f : ℕ → K) (n : ℕ) : interpolate f (n : K) = f n := by
  rw [interpolate, Nat.floor_natCast, sub_self, sub_zero, mul_one, mul_zero, add_zero]

omit [IsStrictOrderedRing K] in
/-- It is a member, and a part of the way to the next. -/
theorem interpolate_eq (f : ℕ → K) (x : K) :
    interpolate f x = f ⌊x⌋₊ + (f (⌊x⌋₊ + 1) - f ⌊x⌋₊) * (x - ⌊x⌋₊) := by
  unfold interpolate
  ring

theorem floor_le_interpolate (hf : Monotone f) (hx : 0 ≤ x) : f ⌊x⌋₊ ≤ interpolate f x := by
  have hstep : 0 ≤ f (⌊x⌋₊ + 1) - f ⌊x⌋₊ := sub_nonneg.mpr (hf (Nat.le_succ _))
  have hpart : 0 ≤ x - ⌊x⌋₊ := sub_nonneg.mpr (Nat.floor_le hx)
  rw [interpolate_eq]
  exact le_add_of_nonneg_right (mul_nonneg hstep hpart)

theorem interpolate_le_succ (hf : Monotone f) : interpolate f x ≤ f (⌊x⌋₊ + 1) := by
  have hstep : 0 ≤ f (⌊x⌋₊ + 1) - f ⌊x⌋₊ := sub_nonneg.mpr (hf (Nat.le_succ _))
  have hpart : x - ⌊x⌋₊ ≤ 1 := by
    have := Nat.lt_floor_add_one x
    linarith
  calc interpolate f x = f ⌊x⌋₊ + (f (⌊x⌋₊ + 1) - f ⌊x⌋₊) * (x - ⌊x⌋₊) := interpolate_eq f x
    _ ≤ f ⌊x⌋₊ + (f (⌊x⌋₊ + 1) - f ⌊x⌋₊) * 1 := by gcongr
    _ = f (⌊x⌋₊ + 1) := by ring

/-- **A sequence that grows, grows between its members**: within a step along the line, and else past a member. -/
theorem interpolate_mono (hf : Monotone f) (hx : 0 ≤ x) (hxy : x ≤ y) : interpolate f x ≤ interpolate f y := by
  obtain heq | hlt := (Nat.floor_mono hxy).eq_or_lt
  · have hstep : 0 ≤ f (⌊y⌋₊ + 1) - f ⌊y⌋₊ := sub_nonneg.mpr (hf (Nat.le_succ _))
    rw [interpolate_eq, interpolate_eq, heq]
    gcongr
  · calc interpolate f x ≤ f (⌊x⌋₊ + 1) := interpolate_le_succ hf
      _ ≤ f ⌊y⌋₊ := hf hlt
      _ ≤ interpolate f y := floor_le_interpolate hf (hx.trans hxy)

theorem zero_le_interpolate (hf : Monotone f) (hx : 0 ≤ x) : f 0 ≤ interpolate f x :=
  (hf (Nat.zero_le _)).trans (floor_le_interpolate hf hx)

theorem interpolate_le {n : ℕ} (hf : Monotone f) (hx : 0 ≤ x) (hn : x ≤ n) : interpolate f x ≤ f n :=
  (interpolate_mono hf hx hn).trans_eq (interpolate_natCast f n)

end Interpolate

end Lib
