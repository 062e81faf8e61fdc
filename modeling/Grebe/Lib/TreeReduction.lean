import Mathlib.Tactic
import Grebe.Lib.Envelope

/-!
# Lib.TreeReduction — one value of an array by halving it

* `halve op stride s`: entry `i` below the stride takes entry `i + stride` in; all entries move at once.
* `treeReduce op stride s`: halving with the stride, half of it, and so on down to one.
* `isLeast_treeReduce`: with `min`, the first entry ends as the least of the entries below twice the first stride, if that
  is a power of two.
* `treeReduce_min_lanes`, `treeReduce_max_lanes`: the reduction of the running extremes of lanes that cover a list.

The library names no program.
-/

namespace Lib

universe u

variable {α : Type u}

/-- One step of the reduction; every entry reads what was there before it. -/
def halve (op : α → α → α) (stride : ℕ) (s : ℕ → α) : ℕ → α := fun i => if i < stride then op (s i) (s (i + stride)) else s i

/-- The steps with the strides `stride`, `stride / 2`, … , `1`. -/
def treeReduce (op : α → α → α) (stride : ℕ) (s : ℕ → α) : ℕ → α :=
  if 0 < stride then treeReduce op (stride / 2) (halve op stride s) else s
termination_by stride

variable [LinearOrder α] {s : ℕ → α} {stride : ℕ} {v : α}

/-- No step loses the least entry: halving leaves it among the first `stride`. -/
theorem isLeast_halve (h : IsLeast (s '' Set.Iio (stride + stride)) v) :
    IsLeast (halve min stride s '' Set.Iio stride) v := by
  obtain ⟨⟨i, hi, rfl⟩, hle⟩ := h
  have hall : ∀ j < stride + stride, s i ≤ s j := fun j hj => hle ⟨j, hj, rfl⟩
  constructor
  · rcases lt_or_ge i stride with hlt | hge
    · refine ⟨i, hlt, ?_⟩
      rw [halve, if_pos hlt, min_eq_left (hall (i + stride) (by omega))]
    · have hi' : i < stride + stride := hi
      refine ⟨i - stride, ?_, ?_⟩
      · change i - stride < stride
        omega
      · rw [halve, if_pos (by omega), show i - stride + stride = i by omega,
          min_eq_right (hall (i - stride) (by omega))]
  · rintro _ ⟨j, hj, rfl⟩
    have hj' : j < stride := hj
    rw [halve, if_pos hj']
    exact le_min (hall j (by omega)) (hall (j + stride) (by omega))

/-- **The first entry ends as the least one.** -/
theorem isLeast_treeReduce (k : ℕ) (h : IsLeast (s '' Set.Iio (2 ^ (k + 1))) v) : treeReduce min (2 ^ k) s 0 = v := by
  induction k generalizing s with
  | zero =>
    have hone : IsLeast (s '' Set.Iio (1 + 1)) v := h
    obtain ⟨⟨i, hi, hv⟩, -⟩ := isLeast_halve hone
    have hi' : i < 1 := hi
    rw [show i = 0 by omega] at hv
    rw [treeReduce.eq_def, if_pos (by decide), treeReduce.eq_def, if_neg (by decide)]
    exact hv
  | succ k ih =>
    have hpow : 2 ^ (k + 1 + 1) = 2 ^ (k + 1) + 2 ^ (k + 1) := by ring
    rw [hpow] at h
    have hhalf : 2 ^ (k + 1) / 2 = 2 ^ k := by
      rw [pow_succ]
      exact Nat.mul_div_cancel _ (by decide)
    rw [treeReduce.eq_def, if_pos (Nat.two_pow_pos _), hhalf]
    exact ih (isLeast_halve h)

/-! ## Lanes -/

section Lanes

variable {lane : ℕ → List α} {all : List α}

/-- The least of the running minima of the lanes, each from the same start value, is the running minimum of all items. -/
theorem isLeast_lanes {count : ℕ} (hcount : 0 < count) (top : α) (hsub : ∀ lid < count, lane lid ⊆ all)
    (hcover : ∀ v ∈ all, ∃ lid < count, v ∈ lane lid) :
    IsLeast ((fun lid => (lane lid).foldl min top) '' Set.Iio count) (all.foldl min top) := by
  have hle : ∀ lid < count, all.foldl min top ≤ (lane lid).foldl min top := by
    intro lid hlid
    rcases foldl_min_eq_or_mem (lane lid) top with h | h
    · rw [h]
      exact foldl_min_le_init all top
    · exact foldl_min_le all top _ (hsub lid hlid h)
  constructor
  · rcases foldl_min_eq_or_mem all top with h | h
    · -- no item is below the start value, nor is any of lane `0`
      refine ⟨0, hcount, le_antisymm ?_ (hle 0 hcount)⟩
      rw [h]
      exact foldl_min_le_init (lane 0) top
    · obtain ⟨lid, hlid, hmem⟩ := hcover _ h
      exact ⟨lid, hlid, le_antisymm (foldl_min_le (lane lid) top _ hmem) (hle lid hlid)⟩
  · rintro _ ⟨lid, hlid, rfl⟩
    exact hle lid hlid

/-- **Lanes that cover the items, then the tree: the running minimum of all items.** -/
theorem treeReduce_min_lanes (k : ℕ) (top : α) (hsub : ∀ lid < 2 ^ (k + 1), lane lid ⊆ all)
    (hcover : ∀ v ∈ all, ∃ lid < 2 ^ (k + 1), v ∈ lane lid) :
    treeReduce min (2 ^ k) (fun lid => (lane lid).foldl min top) 0 = all.foldl min top :=
  isLeast_treeReduce k (isLeast_lanes (Nat.two_pow_pos _) top hsub hcover)

theorem treeReduce_max_lanes (k : ℕ) (bot : α) (hsub : ∀ lid < 2 ^ (k + 1), lane lid ⊆ all)
    (hcover : ∀ v ∈ all, ∃ lid < 2 ^ (k + 1), v ∈ lane lid) :
    treeReduce max (2 ^ k) (fun lid => (lane lid).foldl max bot) 0 = all.foldl max bot :=
  treeReduce_min_lanes (α := αᵒᵈ) k bot hsub hcover

end Lanes

end Lib
