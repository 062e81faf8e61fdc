import Mathlib.Tactic
import Mathlib.Data.List.DropRight
import Mathlib.Order.OrderDual

/-!
# Lib.SlidingMin — the minimum of a sliding window by a monotone deque

`slideMin v w q i` lets index `i` into the deque `q`: the back loses the indices whose value is not below `v i`, and the
front the one that leaves the window of `w` indices.

* `SlidingMin v w n q`: `q` belongs to the window before `n`: its indices lie in the window, index and value increase,
  and each value of the window has one of the deque at or below it.
* `SlidingMin.slide`, `slidingMin_run`: one step, and all steps from the empty deque.
* `SlidingMin.front`: the front is an index of a least value.
* `slideMax`, `SlidingMax`: the same for the maximum, in the dual order.

The library names no program.
-/

namespace Lib

universe u

variable {α : Type u} [LinearOrder α]

section Slide

/-- Index `i` enters the deque for the minimum. -/
def slideMin (v : ℕ → α) (w : ℕ) (q : List ℕ) (i : ℕ) : List ℕ :=
  match q.rdropWhile (fun j => v i ≤ v j) ++ [i] with
  | [] => []
  | front :: rest => if front + w ≤ i then rest else front :: rest

/-- Index `i` enters the deque for the maximum. -/
def slideMax (v : ℕ → α) (w : ℕ) (q : List ℕ) (i : ℕ) : List ℕ :=
  match q.rdropWhile (fun j => v j ≤ v i) ++ [i] with
  | [] => []
  | front :: rest => if front + w ≤ i then rest else front :: rest

/-- The indices `j < n` with `n ≤ j + w` are the window before `n`. -/
structure SlidingMin (v : ℕ → α) (w n : ℕ) (q : List ℕ) : Prop where
  within : ∀ j ∈ q, j < n ∧ n ≤ j + w
  increasing : q.Pairwise fun j k => j < k ∧ v j < v k
  covers : ∀ j < n, n ≤ j + w → ∃ k ∈ q, j ≤ k ∧ v k ≤ v j

end Slide

section Steps

variable {v : ℕ → α} {w n : ℕ} {q : List ℕ}

/-- In a deque of increasing values, the back loses exactly the values not below `a`. -/
theorem mem_rdropWhile {R : ℕ → ℕ → Prop} (hq : q.Pairwise fun j k => R j k ∧ v j < v k) (a : α) (j : ℕ) :
    j ∈ q.rdropWhile (fun j => a ≤ v j) ↔ j ∈ q ∧ v j < a := by
  induction q using List.reverseRecOn with
  | nil => simp
  | append_singleton q x ih =>
    obtain ⟨hq, -, hlast⟩ := List.pairwise_append.mp hq
    rw [List.rdropWhile_concat]
    split_ifs with hx
    · have hx : a ≤ v x := of_decide_eq_true hx
      rw [ih hq, List.mem_append, List.mem_singleton]
      refine and_congr_left fun hlt => (or_iff_left ?_).symm
      rintro rfl
      exact absurd hlt (not_lt.mpr hx)
    · have hx : v x < a := not_le.mp fun h => hx (decide_eq_true h)
      refine (and_iff_left_of_imp ?_).symm
      intro hj
      rcases List.mem_append.mp hj with hj | hj
      · exact ((hlast j hj x (by simp)).2).trans hx
      · rwa [List.mem_singleton.mp hj]

theorem slidingMin_nil (v : ℕ → α) (w : ℕ) : SlidingMin v w 0 [] :=
  ⟨by simp, .nil, by simp⟩

/-- The back of the deque makes room for the new index. -/
theorem SlidingMin.push (h : SlidingMin v w n q) :
    (∀ j ∈ q.rdropWhile (fun j => v n ≤ v j) ++ [n], j < n + 1 ∧ n ≤ j + w) ∧
    (q.rdropWhile (fun j => v n ≤ v j) ++ [n]).Pairwise (fun j k => j < k ∧ v j < v k) ∧
    ∀ j < n + 1, n + 1 ≤ j + w → ∃ k ∈ q.rdropWhile (fun j => v n ≤ v j) ++ [n], j ≤ k ∧ v k ≤ v j := by
  have hmem := mem_rdropWhile h.increasing (v n)
  refine ⟨fun j hj => ?_, ?_, fun j hj hw => ?_⟩
  · rcases List.mem_append.mp hj with hj | hj
    · obtain ⟨hlt, hw⟩ := h.within j ((hmem j).mp hj).1
      exact ⟨Nat.lt_succ_of_lt hlt, hw⟩
    · rw [List.mem_singleton.mp hj]
      exact ⟨Nat.lt_succ_self n, Nat.le_add_right n w⟩
  · refine List.pairwise_append.mpr ⟨h.increasing.sublist ?_, List.pairwise_singleton _ _, fun j hj k hk => ?_⟩
    · exact (List.rdropWhile_prefix _ _).sublist
    · rw [List.mem_singleton.mp hk]
      obtain ⟨hj, hlt⟩ := (hmem j).mp hj
      exact ⟨(h.within j hj).1, hlt⟩
  · by_cases hjn : j = n
    · exact ⟨n, by simp, hjn.le, by rw [hjn]⟩
    · obtain ⟨k, hk, hjk, hle⟩ := h.covers j (by omega) (by omega)
      rcases lt_or_ge (v k) (v n) with hlt | hge
      · exact ⟨k, List.mem_append_left _ ((hmem k).mpr ⟨hk, hlt⟩), hjk, hle⟩
      · exact ⟨n, by simp, by omega, hge.trans hle⟩

/-- **One step of the window.**  At most the front leaves it. -/
theorem SlidingMin.slide (h : SlidingMin v w n q) : SlidingMin v w (n + 1) (slideMin v w q n) := by
  obtain ⟨hwithin, hincreasing, hcovers⟩ := h.push
  unfold slideMin
  split
  case h_1 heq => simp at heq
  case h_2 front rest heq =>
    rw [heq] at hwithin hincreasing hcovers
    obtain ⟨hfront, hrest⟩ := List.pairwise_cons.mp hincreasing
    have hlast : ∀ k ∈ rest, n + 1 ≤ k + w := by
      intro k hk
      have := (hwithin front (by simp)).2
      have := (hfront k hk).1
      omega
    split_ifs with hout
    · refine ⟨fun k hk => ⟨(hwithin k (by simp [hk])).1, hlast k hk⟩, hrest, ?_⟩
      intro j hj hwj
      obtain ⟨k, hk, hjk, hle⟩ := hcovers j hj hwj
      rcases List.mem_cons.mp hk with rfl | hk
      · omega
      · exact ⟨k, hk, hjk, hle⟩
    · refine ⟨fun k hk => ⟨(hwithin k hk).1, ?_⟩, hincreasing, hcovers⟩
      rcases List.mem_cons.mp hk with rfl | hk
      · omega
      · exact hlast k hk

theorem slidingMin_run (n : ℕ) : SlidingMin v w n ((List.range n).foldl (slideMin v w) []) := by
  induction n with
  | zero => exact slidingMin_nil v w
  | succ n ih =>
    rw [List.range_succ, List.foldl_append]
    exact ih.slide

/-- The deque of a window that is not empty has a front. -/
theorem SlidingMin.ne_nil (h : SlidingMin v w n q) (hw : 0 < w) (hn : 0 < n) : q ≠ [] := by
  obtain ⟨k, hk, -, -⟩ := h.covers (n - 1) (by omega) (by omega)
  exact List.ne_nil_of_mem hk

/-- **The front of the deque** is an index of a least value of the window. -/
theorem SlidingMin.front (h : SlidingMin v w n q) (hw : 0 < w) (hn : 0 < n) (d : ℕ) :
    (q.headD d < n ∧ n ≤ q.headD d + w) ∧ ∀ j < n, n ≤ j + w → v (q.headD d) ≤ v j := by
  obtain ⟨front, rest, rfl⟩ := List.exists_cons_of_ne_nil (h.ne_nil hw hn)
  refine ⟨h.within front (by simp), ?_⟩
  intro j hj hwj
  obtain ⟨k, hk, -, hle⟩ := h.covers j hj hwj
  rcases List.mem_cons.mp hk with rfl | hk
  · exact hle
  · exact ((List.pairwise_cons.mp h.increasing).1 k hk).2.le.trans hle

end Steps

/-! ## The maximum -/

section Max

variable {v : ℕ → α} {w n : ℕ} {q : List ℕ}

/-- The deque of the maximum is the one of the minimum in the dual order. -/
abbrev SlidingMax (v : ℕ → α) (w n : ℕ) (q : List ℕ) : Prop := SlidingMin (fun i => OrderDual.toDual (v i)) w n q

theorem slideMax_eq (v : ℕ → α) (w : ℕ) : slideMax v w = slideMin (fun i => OrderDual.toDual (v i)) w := rfl

theorem slidingMax_run (n : ℕ) : SlidingMax v w n ((List.range n).foldl (slideMax v w) []) := by
  rw [slideMax_eq]
  exact slidingMin_run n

theorem SlidingMax.front (h : SlidingMax v w n q) (hw : 0 < w) (hn : 0 < n) (d : ℕ) :
    (q.headD d < n ∧ n ≤ q.headD d + w) ∧ ∀ j < n, n ≤ j + w → v j ≤ v (q.headD d) :=
  SlidingMin.front h hw hn d

end Max

end Lib
