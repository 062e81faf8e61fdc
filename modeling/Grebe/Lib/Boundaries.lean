import Mathlib.Tactic

/-!
# Lib.Boundaries — where the blocks of a stream end

Blocks follow one another; a list of them has the newest first.  `ends` are the positions at which they end, counted
from the beginning of the oldest, in the order of the stream.

* `ends_pairwise`: of blocks that are not empty they increase strictly.
* `dropWhile_le`: of such positions, to drop the first ones up to a bound is to keep those above it.

The library names no program.
-/

namespace Lib.Boundaries

universe u

section Ends

variable {α : Type u} (len : α → ℕ)

def total (blocks : List α) : ℕ := (blocks.map len).sum

def ends : List α → List ℕ
  | [] => []
  | b :: older => ends older ++ [total len (b :: older)]

variable {len} {blocks older : List α} {b : α}

@[simp] theorem total_nil : total len [] = 0 := rfl

@[simp] theorem total_cons : total len (b :: older) = len b + total len older := by
  rw [total, List.map_cons, List.sum_cons, ← total]

theorem mem_ends_cons {e : ℕ} : e ∈ ends len (b :: older) ↔ e ∈ ends len older ∨ e = len b + total len older := by
  rw [ends, List.mem_append, List.mem_singleton, total_cons]

theorem le_total {e : ℕ} (he : e ∈ ends len blocks) : e ≤ total len blocks := by
  induction blocks with
  | nil => cases he
  | cons b older ih =>
    rw [total_cons]
    obtain he | rfl := mem_ends_cons.mp he
    · exact (ih he).trans (Nat.le_add_left ..)
    · exact le_rfl

/-- The last one ends at the end. -/
theorem total_mem_ends (h : 0 < total len blocks) : total len blocks ∈ ends len blocks := by
  cases blocks with
  | nil => cases h
  | cons b older => exact mem_ends_cons.mpr (.inr total_cons)

theorem pos_of_mem_ends (hpos : ∀ b ∈ blocks, 0 < len b) {e : ℕ} (he : e ∈ ends len blocks) : 0 < e := by
  induction blocks with
  | nil => cases he
  | cons b older ih =>
    obtain ⟨hb, holder⟩ := List.forall_mem_cons.mp hpos
    obtain he | rfl := mem_ends_cons.mp he
    · exact ih holder he
    · exact Nat.add_pos_left hb _

theorem ends_pairwise (hpos : ∀ b ∈ blocks, 0 < len b) : (ends len blocks).Pairwise (· < ·) := by
  induction blocks with
  | nil => exact .nil
  | cons b older ih =>
    obtain ⟨hb, holder⟩ := List.forall_mem_cons.mp hpos
    rw [ends, List.pairwise_append]
    refine ⟨ih holder, List.pairwise_singleton _ _, ?_⟩
    intro e he e' he'
    rw [List.mem_singleton.mp he', total_cons]
    exact (le_total he).trans_lt (Nat.lt_add_of_pos_left hb)

end Ends

section Increasing

variable {l : List ℕ}

/-- In an increasing list the first items up to a bound are all up to it. -/
theorem dropWhile_le (h : l.Pairwise (· < ·)) (c : ℕ) : l.dropWhile (· ≤ c) = l.filter (c < ·) := by
  induction l with
  | nil => rfl
  | cons x l ih =>
    obtain ⟨hx, hl⟩ := List.pairwise_cons.mp h
    by_cases hc : x ≤ c
    · rw [List.dropWhile_cons_of_pos (by simpa using hc), List.filter_cons_of_neg (by simpa using hc), ih hl]
    · have hall : ∀ y ∈ x :: l, c < y := by
        intro y hy
        obtain rfl | hy := List.mem_cons.mp hy
        · exact not_le.mp hc
        · exact (not_le.mp hc).trans (hx y hy)
      rw [List.dropWhile_cons_of_neg (by simpa using hc), List.filter_eq_self.mpr (by simpa using hall)]

/-- The larger of two bounds counts. -/
theorem filter_filter_lt {c c' : ℕ} (h : c ≤ c') (l : List ℕ) :
    (l.filter (c < ·)).filter (c' < ·) = l.filter (c' < ·) := by
  rw [List.filter_filter]
  apply List.filter_congr
  intro x _
  simp only [Bool.and_eq_left_iff_imp, decide_eq_true_eq]
  omega

end Increasing

end Lib.Boundaries
