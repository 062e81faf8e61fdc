import Mathlib.Tactic
import Mathlib.Data.List.GetD

/-!
# Lib.BinarySearch — sorted lists without duplicates, and the search in them

* `unique`: of equal neighbours the first stays; a sorted list becomes strictly increasing.
* `lowerBound xs x first count`: the search among the `count` items from `first` on; `binarySearch` looks whether the
  item found is `x`.
* `binarySearch_iff`: in a sorted list the search finds exactly the items of the list.

The library names no program.
-/

namespace Lib

universe u

section Unique

variable {α : Type u} [DecidableEq α]

def unique : List α → List α
  | [] => []
  | [x] => [x]
  | x :: y :: l => if x = y then unique (y :: l) else x :: unique (y :: l)

theorem mem_unique (x : α) (l : List α) : x ∈ unique l ↔ x ∈ l := by
  fun_induction unique l with
  | case1 => rfl
  | case2 => rfl
  | case3 y l ih =>
    rw [ih]
    simp
  | case4 y z l hne ih => simp only [List.mem_cons, ih]

/-- Without duplicates, a sorted list increases strictly. -/
theorem pairwise_unique [LinearOrder α] {l : List α} (h : l.Pairwise (· ≤ ·)) : (unique l).Pairwise (· < ·) := by
  fun_induction unique l with
  | case1 => exact .nil
  | case2 => exact List.pairwise_singleton _ _
  | case3 y l ih => exact ih (List.pairwise_cons.mp h).2
  | case4 x y l hne ih =>
    obtain ⟨hx, htail⟩ := List.pairwise_cons.mp h
    refine List.pairwise_cons.mpr ⟨?_, ih htail⟩
    intro z hz
    have hxy : x < y := lt_of_le_of_ne (hx y (by simp)) hne
    rcases List.mem_cons.mp ((mem_unique z _).mp hz) with rfl | hz
    · exact hxy
    · exact hxy.trans_le ((List.pairwise_cons.mp htail).1 z hz)

end Unique

section Search

variable {α : Type u} [LinearOrder α]

/-- The first of the `count` items from `first` on that is not below `x`. -/
def lowerBound (xs : List α) (x : α) (first count : ℕ) : ℕ :=
  if count = 0 then first
  else
    let step := count / 2
    if xs.getD (first + step) x < x then lowerBound xs x (first + step + 1) (count - (step + 1))
    else lowerBound xs x first step
termination_by count

def binarySearch (xs : List α) (x : α) : Bool :=
  match xs[lowerBound xs x 0 xs.length]? with
  | none => false
  | some y => ¬ x < y

variable {xs : List α} {x : α}

/-- **What the search returns**: everything before it is below `x`, nothing from it on. -/
theorem lowerBound_spec (hxs : xs.Pairwise (· ≤ ·)) (first count : ℕ) (hcount : first + count ≤ xs.length)
    (hbelow : ∀ i < first, xs.getD i x < x) (habove : ∀ i, first + count ≤ i → x ≤ xs.getD i x) :
    (∀ i < lowerBound xs x first count, xs.getD i x < x) ∧ ∀ i, lowerBound xs x first count ≤ i → x ≤ xs.getD i x := by
  have hmono : ∀ i j, i ≤ j → j < xs.length → xs.getD i x ≤ xs.getD j x := by
    intro i j hij hj
    rw [List.getD_eq_getElem _ _ hj, List.getD_eq_getElem _ _ (hij.trans_lt hj)]
    rcases hij.eq_or_lt with rfl | hlt
    · exact le_rfl
    · exact List.pairwise_iff_getElem.mp hxs i j _ hj hlt
  fun_induction lowerBound xs x first count with
  | case1 first => exact ⟨hbelow, habove⟩
  | case2 first count hpos step hlt ih =>
    refine ih (by omega) ?_ fun i hi => habove i (by omega)
    intro i hi
    exact (hmono i (first + step) (by omega) (by omega)).trans_lt hlt
  | case3 first count hpos step hge ih =>
    apply ih (by omega) hbelow
    intro i hi
    by_cases hlen : i < xs.length
    · exact (not_lt.mp hge).trans (hmono _ i hi hlen)
    · rw [List.getD_eq_default _ _ (not_lt.mp hlen)]

/-- **The search in a sorted list** finds its items, and no others. -/
theorem binarySearch_iff (hxs : xs.Pairwise (· ≤ ·)) : binarySearch xs x = true ↔ x ∈ xs := by
  obtain ⟨hbelow, habove⟩ := lowerBound_spec (x := x) hxs 0 xs.length (by omega) (by simp) fun i hi => by
    rw [List.getD_eq_default _ _ (by omega)]
  unfold binarySearch
  constructor
  · intro h
    split at h
    case h_1 => cases h
    case h_2 y hy =>
      obtain ⟨hlt, rfl⟩ := List.getElem?_eq_some_iff.mp hy
      have hle := habove _ le_rfl
      rw [List.getD_eq_getElem _ _ hlt] at hle
      rw [le_antisymm hle (not_lt.mp (of_decide_eq_true h))]
      exact List.getElem_mem hlt
  · intro hmem
    obtain ⟨i, hi, rfl⟩ := List.getElem_of_mem hmem
    have hle : lowerBound xs xs[i] 0 xs.length ≤ i := by
      by_contra hlt
      have := hbelow i (not_le.mp hlt)
      rw [List.getD_eq_getElem _ _ hi] at this
      exact lt_irrefl _ this
    have hlen := hle.trans_lt hi
    rw [List.getElem?_eq_getElem hlen]
    refine decide_eq_true (not_lt.mpr ?_)
    rcases hle.eq_or_lt with heq | hlt
    · simp only [heq, le_refl]
    · exact List.pairwise_iff_getElem.mp hxs _ i hlen hi hlt

end Search

end Lib
