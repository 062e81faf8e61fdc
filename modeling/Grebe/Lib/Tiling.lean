import Mathlib.Tactic

/-!
# Lib.Tiling — an interval cut into consecutive pieces

* `Tiles c m lo hi`: the cuts `c 0 < c 1 < ⋯ < c m` lead from `lo` to `hi`, so that no piece is empty.
* `Tiles.existsUnique`: every place of the interval lies in exactly one piece.

The library names no program.
-/

namespace Lib

/-- `m` non-empty pieces of `[lo, hi)`, piece `b` from `c b` to `c (b + 1)`. -/
structure Tiles (c : ℕ → ℕ) (m lo hi : ℕ) : Prop where
  first : c 0 = lo
  last : c m = hi
  lt : ∀ b < m, c b < c (b + 1)

namespace Tiles

variable {c c' : ℕ → ℕ} {m lo hi b b' i : ℕ}

theorem congr (h : Tiles c m lo hi) (heq : ∀ b ≤ m, c' b = c b) : Tiles c' m lo hi where
  first := by rw [heq 0 (Nat.zero_le m), h.first]
  last := by rw [heq m le_rfl, h.last]
  lt b hb := by
    rw [heq b hb.le, heq (b + 1) hb]
    exact h.lt b hb

theorem mono (h : Tiles c m lo hi) (hb : b ≤ b') (hm : b' ≤ m) : c b ≤ c b' := by
  induction b', hb using Nat.le_induction with
  | base => exact le_rfl
  | succ b' _ ih => exact (ih (by omega)).trans (h.lt b' hm).le

theorem le_hi (h : Tiles c m lo hi) (hb : b ≤ m) : c b ≤ hi := by
  rw [← h.last]
  exact h.mono hb le_rfl

/-- The places up to a cut are in the pieces up to there. -/
theorem exists_piece (h : Tiles c m lo hi) (hlo : lo ≤ i) (k : ℕ) (hi' : i < c k) : ∃ b < k, c b ≤ i ∧ i < c (b + 1) := by
  induction k with
  | zero =>
    rw [h.first] at hi'
    omega
  | succ k ih =>
    rcases lt_or_ge i (c k) with hlt | hge
    · obtain ⟨b, hb, hpiece⟩ := ih hlt
      exact ⟨b, by omega, hpiece⟩
    · exact ⟨k, k.lt_succ_self, hge, hi'⟩

/-- **Every place lies in exactly one piece.** -/
theorem existsUnique (h : Tiles c m lo hi) (hlo : lo ≤ i) (hhi : i < hi) : ∃! b, b < m ∧ c b ≤ i ∧ i < c (b + 1) := by
  obtain ⟨b, hb, hle, hlt⟩ := h.exists_piece hlo m (by rwa [h.last])
  refine ⟨b, ⟨hb, hle, hlt⟩, ?_⟩
  rintro b' ⟨hb', hle', hlt'⟩
  -- of two pieces the earlier one ends before the later one begins
  rcases lt_trichotomy b b' with hcase | hcase | hcase
  · have : c (b + 1) ≤ c b' := h.mono hcase hb'.le
    omega
  · exact hcase.symm
  · have : c (b' + 1) ≤ c b := h.mono hcase hb.le
    omega

end Tiles

end Lib
