import Mathlib.Data.List.Sort
import Grebe.Lib.Interpolate

/-!
# Grebe.ProfileStats — the statistics of a profile

`compute_stats` sorts the values of a metric and reads its percentiles between two of them; `derive_fps_stats` turns the
frame times into frames per second, percentile by percentile from the other end.  The numbers are exact rationals here.
`none` is a read outside the sorted vector.

* `percentile_eq`: a percentile is the sorted values, interpolated.
* `stats_ordered`: of positive frame times both are ordered, and the same for every order of the times.
-/

namespace Grebe

open Lib

structure MetricStats where
  avg : ℚ := 0
  min : ℚ := 0
  max : ℚ := 0
  p50 : ℚ := 0
  p95 : ℚ := 0
  p99 : ℚ := 0
deriving DecidableEq

/-- The statistics are in their order. -/
structure MetricStats.Ordered (s : MetricStats) : Prop where
  min_le : s.min ≤ s.p50
  p50_le : s.p50 ≤ s.p95
  p95_le : s.p95 ≤ s.p99
  p99_le : s.p99 ≤ s.max
  min_le_avg : s.min ≤ s.avg
  avg_le_max : s.avg ≤ s.max

namespace ProfileRunner

/-! ## Statistics -/

section Stats

/-- `std::sort` -/
def sort (values : List ℚ) : List ℚ := values.mergeSort (· ≤ ·)

/-- `percentile` of the one and `percentile_ms` of the other. -/
def percentile (sorted : List ℚ) (p : ℚ) : Option ℚ := do
  let idx := p * (sorted.length - 1 : ℕ)
  let lo := ⌊idx⌋₊
  let hi := min (lo + 1) (sorted.length - 1)
  let frac := idx - lo
  let atLo ← sorted[lo]?
  let atHi ← sorted[hi]?
  some (atLo * (1 - frac) + atHi * frac)

/-- `sum / sorted.size()` -/
def average (sorted : List ℚ) : ℚ := sorted.foldl (· + ·) 0 / sorted.length

/-- `compute_stats` -/
def computeStats (values : List ℚ) : Option MetricStats :=
  if values = [] then some {}
  else do
    let sorted := sort values
    let min ← sorted.head?
    let max ← sorted.getLast?
    let p50 ← percentile sorted (50 / 100)
    let p95 ← percentile sorted (95 / 100)
    let p99 ← percentile sorted (99 / 100)
    some { avg := average sorted, min := min, max := max, p50 := p50, p95 := p95, p99 := p99 }

/-- `1000.0 / ms`, or zero -/
def perSecond (ms : ℚ) : ℚ := if ms > 0 then 1000 / ms else 0

/-- `derive_fps_stats` -/
def deriveFpsStats (frameMsValues : List ℚ) : Option MetricStats :=
  if frameMsValues = [] then some {}
  else do
    let sorted := sort frameMsValues
    let first ← sorted.head?
    let last ← sorted.getLast?
    let msP50 ← percentile sorted (50 / 100)
    let msP05 ← percentile sorted (5 / 100)
    let msP01 ← percentile sorted (1 / 100)
    some { avg := perSecond (average sorted), min := perSecond last, max := perSecond first, p50 := perSecond msP50,
           p95 := perSecond msP05, p99 := perSecond msP01 }

end Stats

/-! ## Percentiles -/

section Percentiles

variable {sorted values : List ℚ} {p q : ℚ}

/-- The sorted values, the last one for ever. -/
def clamped (sorted : List ℚ) (i : ℕ) : ℚ := sorted.getD (min i (sorted.length - 1)) 0

theorem getElem?_clamped (hne : sorted ≠ []) (i : ℕ) :
    sorted[min i (sorted.length - 1)]? = some (clamped sorted i) := by
  have hlen : 0 < sorted.length := List.length_pos_of_ne_nil hne
  have hi : min i (sorted.length - 1) < sorted.length := by omega
  rw [clamped, List.getD_eq_getElem?_getD, List.getElem?_eq_getElem hi, Option.getD_some]

theorem clamped_mono (h : sorted.Pairwise (· ≤ ·)) (hne : sorted ≠ []) : Monotone (clamped sorted) := by
  intro i j hij
  obtain ⟨hi, hati⟩ := List.getElem?_eq_some_iff.mp (getElem?_clamped hne i)
  obtain ⟨hj, hatj⟩ := List.getElem?_eq_some_iff.mp (getElem?_clamped hne j)
  rw [← hati, ← hatj]
  obtain heq | hlt := (show min i (sorted.length - 1) ≤ min j (sorted.length - 1) by omega).eq_or_lt
  · simp only [heq, le_refl]
  · exact List.pairwise_iff_getElem.mp h _ _ hi hj hlt

theorem head?_eq (hne : sorted ≠ []) : sorted.head? = some (clamped sorted 0) := by
  rw [← getElem?_clamped hne, Nat.zero_min, List.head?_eq_getElem?]

theorem getLast?_eq (hne : sorted ≠ []) : sorted.getLast? = some (clamped sorted (sorted.length - 1)) := by
  rw [← getElem?_clamped hne, min_self, List.getLast?_eq_getElem?]

/-- A percentile, between two of the sorted values. -/
def between (sorted : List ℚ) (p : ℚ) : ℚ := interpolate (clamped sorted) (p * (sorted.length - 1 : ℕ))

/-- **A percentile is read between two of the sorted values**, none of them outside. -/
theorem percentile_eq (hne : sorted ≠ []) (h0 : 0 ≤ p) (h1 : p ≤ 1) :
    percentile sorted p = some (between sorted p) := by
  have hidx : 0 ≤ p * (sorted.length - 1 : ℕ) := by positivity
  have hle : p * (sorted.length - 1 : ℕ) ≤ (sorted.length - 1 : ℕ) := mul_le_of_le_one_left (Nat.cast_nonneg _) h1
  have hlo : ⌊p * (sorted.length - 1 : ℕ)⌋₊ ≤ sorted.length - 1 := Nat.floor_le_of_le hle
  have hatlo := getElem?_clamped hne ⌊p * (sorted.length - 1 : ℕ)⌋₊
  rw [min_eq_left hlo] at hatlo
  simp only [percentile, hatlo, getElem?_clamped hne, Option.bind_eq_bind, Option.bind_some]
  rfl

/-- Where the percentiles lie, in their order. -/
theorem between_mono (h : sorted.Pairwise (· ≤ ·)) (hne : sorted ≠ []) (h0 : 0 ≤ p) (hpq : p ≤ q) :
    between sorted p ≤ between sorted q := by
  apply interpolate_mono (clamped_mono h hne) (by positivity)
  gcongr

theorem first_le_between (h : sorted.Pairwise (· ≤ ·)) (hne : sorted ≠ []) (h0 : 0 ≤ p) :
    clamped sorted 0 ≤ between sorted p :=
  zero_le_interpolate (clamped_mono h hne) (by positivity)

theorem between_le_last (h : sorted.Pairwise (· ≤ ·)) (hne : sorted ≠ []) (h0 : 0 ≤ p) (h1 : p ≤ 1) :
    between sorted p ≤ clamped sorted (sorted.length - 1) :=
  interpolate_le (clamped_mono h hne) (by positivity) (mul_le_of_le_one_left (Nat.cast_nonneg _) h1)

/-- **The average lies between the first and the last.** -/
theorem average_mem (h : sorted.Pairwise (· ≤ ·)) (hne : sorted ≠ []) :
    clamped sorted 0 ≤ average sorted ∧ average sorted ≤ clamped sorted (sorted.length - 1) := by
  have hpos : (0 : ℚ) < sorted.length := by exact_mod_cast List.length_pos_of_ne_nil hne
  have hsum : average sorted = sorted.sum / sorted.length := by rw [average, ← List.sum_eq_foldl]
  have hmem : ∀ x ∈ sorted, clamped sorted 0 ≤ x ∧ x ≤ clamped sorted (sorted.length - 1) := by
    intro x hx
    obtain ⟨i, hi, rfl⟩ := List.mem_iff_getElem.mp hx
    have hat : clamped sorted i = sorted[i] := by
      have hmin : min i (sorted.length - 1) = i := by omega
      have hget := getElem?_clamped hne i
      rw [hmin, List.getElem?_eq_getElem hi] at hget
      exact (Option.some.inj hget).symm
    rw [← hat]
    exact ⟨clamped_mono h hne (Nat.zero_le _), clamped_mono h hne (by omega)⟩
  rw [hsum, le_div_iff₀ hpos, div_le_iff₀ hpos, mul_comm, mul_comm _ (sorted.length : ℚ), ← nsmul_eq_mul,
    ← nsmul_eq_mul]
  exact ⟨List.card_nsmul_le_sum _ _ fun x hx => (hmem x hx).1, List.sum_le_card_nsmul _ _ fun x hx => (hmem x hx).2⟩

end Percentiles

/-! ## Order -/

section Order

variable {values values' : List ℚ}

theorem pairwise_sort (values : List ℚ) : (sort values).Pairwise (· ≤ ·) := List.pairwise_mergeSort' (· ≤ ·) values

theorem sort_ne_nil (hne : values ≠ []) : sort values ≠ [] := by
  intro hnil
  have hperm : (sort values).Perm values := List.mergeSort_perm ..
  rw [hnil] at hperm
  exact hne (List.nil_perm.mp hperm)

/-- The sorted vector does not tell in what order the values came. -/
theorem sort_perm (h : values'.Perm values) : sort values' = sort values := by
  apply List.Perm.eq_of_pairwise' (pairwise_sort values') (pairwise_sort values)
  exact (List.mergeSort_perm ..).trans (h.trans (List.mergeSort_perm ..).symm)

/-- `compute_stats` of some values reads nothing outside the vector. -/
theorem computeStats_eq (hne : values ≠ []) :
    computeStats values = some
      { avg := average (sort values), min := clamped (sort values) 0
        max := clamped (sort values) ((sort values).length - 1)
        p50 := between (sort values) (50 / 100), p95 := between (sort values) (95 / 100)
        p99 := between (sort values) (99 / 100) } := by
  have hsort := sort_ne_nil hne
  rw [computeStats, if_neg hne]
  simp only [head?_eq hsort, getLast?_eq hsort, percentile_eq hsort (by norm_num : (0 : ℚ) ≤ 50 / 100) (by norm_num),
    percentile_eq hsort (by norm_num : (0 : ℚ) ≤ 95 / 100) (by norm_num),
    percentile_eq hsort (by norm_num : (0 : ℚ) ≤ 99 / 100) (by norm_num), Option.bind_eq_bind, Option.bind_some]

theorem deriveFpsStats_eq (hne : values ≠ []) :
    deriveFpsStats values = some
      { avg := perSecond (average (sort values))
        min := perSecond (clamped (sort values) ((sort values).length - 1))
        max := perSecond (clamped (sort values) 0)
        p50 := perSecond (between (sort values) (50 / 100)), p95 := perSecond (between (sort values) (5 / 100))
        p99 := perSecond (between (sort values) (1 / 100)) } := by
  have hsort := sort_ne_nil hne
  rw [deriveFpsStats, if_neg hne]
  simp only [head?_eq hsort, getLast?_eq hsort, percentile_eq hsort (by norm_num : (0 : ℚ) ≤ 50 / 100) (by norm_num),
    percentile_eq hsort (by norm_num : (0 : ℚ) ≤ 5 / 100) (by norm_num),
    percentile_eq hsort (by norm_num : (0 : ℚ) ≤ 1 / 100) (by norm_num), Option.bind_eq_bind, Option.bind_some]

theorem clamped_pos (hne : values ≠ []) (hpos : ∀ x ∈ values, 0 < x) (i : ℕ) : 0 < clamped (sort values) i := by
  have hperm : (sort values).Perm values := List.mergeSort_perm ..
  exact hpos _ (hperm.mem_iff.mp (List.mem_of_getElem? (getElem?_clamped (sort_ne_nil hne) i)))

/-- The longer a frame takes, the fewer come in a second. -/
theorem perSecond_anti {a b : ℚ} (ha : 0 < a) (hab : a ≤ b) : perSecond b ≤ perSecond a := by
  rw [perSecond, perSecond, if_pos ha, if_pos (ha.trans_le hab)]
  gcongr

/-- **The statistics of positive frame times are in their order**, both of the times and of the frames per second, no
index is outside, and the order of the times does not matter. -/
theorem stats_ordered (hne : values ≠ []) (hpos : ∀ x ∈ values, 0 < x) :
    ∃ ms fps, computeStats values = some ms ∧ deriveFpsStats values = some fps ∧ ms.Ordered ∧ fps.Ordered ∧
      fps.avg = 1000 / ms.avg ∧
      ∀ values', values'.Perm values → computeStats values' = some ms ∧ deriveFpsStats values' = some fps := by
  have hsorted := pairwise_sort values
  have hsort := sort_ne_nil hne
  have hfirst := clamped_pos hne hpos 0
  obtain ⟨havg, havg'⟩ := average_mem hsorted hsort
  have hbetween {p : ℚ} (h0 : 0 ≤ p) : 0 < between (sort values) p :=
    hfirst.trans_le (first_le_between hsorted hsort h0)
  refine ⟨_, _, computeStats_eq hne, deriveFpsStats_eq hne, ?_, ?_, ?_, ?_⟩
  · exact ⟨first_le_between hsorted hsort (by norm_num), between_mono hsorted hsort (by norm_num) (by norm_num),
      between_mono hsorted hsort (by norm_num) (by norm_num), between_le_last hsorted hsort (by norm_num) (by norm_num),
      havg, havg'⟩
  · -- from the other end
    refine ⟨?_, ?_, ?_, ?_, ?_, ?_⟩
    · exact perSecond_anti (hbetween (by norm_num)) (between_le_last hsorted hsort (by norm_num) (by norm_num))
    · exact perSecond_anti (hbetween (by norm_num)) (between_mono hsorted hsort (by norm_num) (by norm_num))
    · exact perSecond_anti (hbetween (by norm_num)) (between_mono hsorted hsort (by norm_num) (by norm_num))
    · exact perSecond_anti hfirst (first_le_between hsorted hsort (by norm_num))
    · exact perSecond_anti (hfirst.trans_le havg) havg'
    · exact perSecond_anti hfirst havg
  · exact if_pos (hfirst.trans_le havg)
  · intro values' hperm
    have hne' : values' ≠ [] := fun hnil => hne (List.nil_perm.mp (hnil ▸ hperm))
    rw [computeStats_eq hne', deriveFpsStats_eq hne', sort_perm hperm]
    exact ⟨rfl, rfl⟩

/-- Three frame times. -/
theorem stats_ordered_three :
    ∃ ms fps, computeStats [20, 10, 40] = some ms ∧ deriveFpsStats [20, 10, 40] = some fps ∧ ms.Ordered ∧
      fps.Ordered ∧ fps.avg = 1000 / ms.avg ∧ ∀ values', values'.Perm [20, 10, 40] →
        computeStats values' = some ms ∧ deriveFpsStats values' = some fps :=
  stats_ordered (by decide) (by decide)

end Order

end ProfileRunner

end Grebe
