import Mathlib.Tactic
import Mathlib.Data.List.MinMax
import Mathlib.Data.Rat.Floor
import Grebe.Lib.Tiling
import Grebe.Decimator
import Grebe.DecimatorBounds

/-!
# Grebe.LttbSelection — which points `lttb` selects

`lttbAt` is the loop of `Decimator::lttb` over the rationals, with every read of the input by index and every division
checked: `none` is a read outside of the input or a division by zero.

* `tiles_lttbStart`: the inner buckets are not empty and tile what is left of the first and the last sample.
* `lttbAt_eq`: no read and no division fails, and the result is the list function of `Grebe.Decimator`.
* `lttbAt_selects`: the result is a subsequence of exactly the requested size, from the first sample to the last, and the
  point of each bucket is the first one with the largest triangle.
-/

namespace Grebe.Decimator

/-! ## The loop -/

section Loop

/-- `data[i]` as a number. -/
def read (data : List Int16) (i : ℕ) : Option ℚ := data[i]?.map fun v => (v.toInt : ℚ)

def divide (x y : ℚ) : Option ℚ := if y = 0 then none else some (x / y)

/-- The sums over the next bucket: `sum_x`, `sum_y` and `count`. -/
def sumLoop (data : List Int16) (stop i : ℕ) (sumX sumY count : ℚ) : Option (ℚ × ℚ × ℚ) :=
  if i < stop then
    (read data i).bind fun y => sumLoop data stop (i + 1) (sumX + i) (sumY + y) (count + 1)
  else some (sumX, sumY, count)
termination_by stop - i

/-- `next_avg_x` and `next_avg_y` -/
def nextAvgAt (data : List Int16) (bucketSize : ℚ) (numBuckets b : ℕ) : Option (ℚ × ℚ) :=
  if b + 1 < numBuckets then
    let nextStart := lttbStart bucketSize (b + 1)
    let nextEnd := min (lttbStart bucketSize (b + 2)) (data.length - 1)
    (sumLoop data nextEnd nextStart 0 0 0).bind fun r =>
      (if r.2.2 > 0 then divide r.1 r.2.2 else some (nextStart : ℚ)).bind fun nextAvgX =>
        (if r.2.2 > 0 then divide r.2.1 r.2.2 else read data nextStart).map fun nextAvgY => (nextAvgX, nextAvgY)
  else (read data (data.length - 1)).map fun y => (((data.length - 1 : ℕ) : ℚ), y)

/-- The search for the largest triangle: `max_area` and `best_idx`. -/
def areaLoop (data : List Int16) (prev next : ℚ × ℚ) (stop i : ℕ) (maxArea : ℚ) (bestIdx : ℕ) : Option ℕ :=
  if i < stop then
    (read data i).bind fun cy =>
      let area := |prev.1 * (cy - next.2) + i * (next.2 - prev.2) + next.1 * (prev.2 - cy)|
      if area > maxArea then areaLoop data prev next stop (i + 1) area i
      else areaLoop data prev next stop (i + 1) maxArea bestIdx
  else some bestIdx
termination_by stop - i

/-- `count` buckets from bucket `b` on, `prev` the point selected before. -/
def lttbLoop (data : List Int16) (bucketSize : ℚ) (numBuckets : ℕ) : ℕ → ℕ → ℚ × ℚ → Option (List Int16)
  | 0, _, _ => some []
  | count + 1, b, prev =>
    let bucketStart := lttbStart bucketSize b
    let bucketEnd := min (lttbStart bucketSize (b + 1)) (data.length - 1)
    (nextAvgAt data bucketSize numBuckets b).bind fun next =>
      (areaLoop data prev next bucketEnd bucketStart (-1) bucketStart).bind fun bestIdx =>
        data[bestIdx]?.bind fun v =>
          (lttbLoop data bucketSize numBuckets count (b + 1) (bestIdx, v.toInt)).map fun output => v :: output

/-- `Decimator::lttb`, its arithmetic exact. -/
def lttbAt (input : SampleVector) (target : UInt32) : Option (List Int16) :=
  if target.toNat < 3 then some []
  else if input.size ≤ target.toNat then some input.data
  else
    let numBuckets := target.toNat - 2
    input.data[0]?.bind fun v0 =>
      (divide ((input.size - 2 : ℕ) : ℚ) numBuckets).bind fun bucketSize =>
        (lttbLoop input.data bucketSize numBuckets numBuckets 0 (0, v0.toInt)).bind fun output =>
          input.data[input.size - 1]?.map fun vLast => v0 :: output ++ [vLast]

end Loop

/-! ## The buckets -/

section Buckets

variable {n numBuckets : ℕ}

theorem lttbStart_zero (bucketSize : ℚ) : lttbStart bucketSize 0 = 1 := by simp [lttbStart]

/-- A bucket that is wider than one sample has one. -/
theorem lttbStart_lt {bucketSize : ℚ} (h : 1 ≤ bucketSize) (b : ℕ) :
    lttbStart bucketSize b < lttbStart bucketSize (b + 1) := by
  have hnonneg : 0 ≤ (b : ℚ) * bucketSize := mul_nonneg (Nat.cast_nonneg b) (by linarith)
  have hle : (b : ℚ) * bucketSize + (1 : ℕ) ≤ ((b + 1 : ℕ) : ℚ) * bucketSize := by
    push_cast
    linarith
  have hfloor := Nat.floor_le_floor hle
  rw [Nat.floor_add_natCast hnonneg] at hfloor
  rw [lttbStart, lttbStart]
  omega

/-- **The inner buckets tile what is left of the first and the last sample**, and none is empty. -/
theorem tiles_lttbStart (hpos : 0 < numBuckets) (hn : numBuckets + 2 ≤ n) :
    Lib.Tiles (lttbStart (((n - 2 : ℕ) : ℚ) / numBuckets)) numBuckets 1 (n - 1) where
  first := lttbStart_zero _
  last := by
    have hne : (numBuckets : ℚ) ≠ 0 := Nat.cast_ne_zero.mpr hpos.ne'
    rw [lttbStart, mul_div_cancel₀ _ hne, Nat.floor_natCast]
    omega
  lt b _ := by
    have hcast : (0 : ℚ) < numBuckets := Nat.cast_pos.mpr hpos
    refine lttbStart_lt ?_ b
    rw [one_le_div hcast, Nat.cast_le]
    omega

end Buckets

/-! ## One bucket -/

section Bucket

variable {data : List Int16} {prev next : ℚ × ℚ} {bucketSize sumX sumY count maxArea : ℚ} {numBuckets start stop i b p : ℕ}

theorem divide_of_pos {x y : ℚ} (h : 0 < y) : divide x y = some (x / y) := if_neg h.ne'

theorem read_of_lt (h : i < data.length) : read data i = some (value data i) := by
  rw [read, Lib.getElem?_of_lt 0 h]
  rfl

/-- The average of the points from `start` up to `stop`. -/
def averagePoint (data : List Int16) (start stop : ℕ) : ℚ × ℚ :=
  ((∑ j ∈ Finset.Ico start stop, (j : ℚ)) / (stop - start : ℕ),
    (∑ j ∈ Finset.Ico start stop, value data j) / (stop - start : ℕ))

/-- The third corner of the triangles over bucket `b`: the average of the next bucket, or the last point. -/
def nextPoint (data : List Int16) (bucketSize : ℚ) (numBuckets b : ℕ) : ℚ × ℚ :=
  if b + 1 < numBuckets then averagePoint data (lttbStart bucketSize (b + 1)) (lttbStart bucketSize (b + 2))
  else ((data.length - 1 : ℕ), value data (data.length - 1))

/-- Point `i` is the first one from `start` up to `stop` with the largest triangle. -/
structure LargestTriangle (data : List Int16) (prev : ℕ) (next : ℚ × ℚ) (start stop i : ℕ) : Prop where
  start_le : start ≤ i
  lt_stop : i < stop
  largest : ∀ j, start ≤ j → j < stop → area data prev next j ≤ area data prev next i
  first : ∀ j, start ≤ j → j < i → area data prev next j < area data prev next i

theorem sumLoop_eq (h : stop ≤ data.length) :
    sumLoop data stop i sumX sumY count =
      some (sumX + ∑ j ∈ Finset.Ico i stop, (j : ℚ), sumY + ∑ j ∈ Finset.Ico i stop, value data j,
        count + (stop - i : ℕ)) := by
  induction hk : stop - i generalizing i sumX sumY count with
  | zero =>
    rw [sumLoop.eq_def, if_neg (by omega), Finset.Ico_eq_empty (by omega)]
    simp
  | succ k ih =>
    have hlt : i < stop := by omega
    rw [sumLoop.eq_def, if_pos hlt, read_of_lt (by omega), Option.bind_some, ih (by omega),
      Finset.sum_eq_sum_Ico_succ_bot hlt, Finset.sum_eq_sum_Ico_succ_bot hlt]
    push_cast
    simp only [add_assoc, add_comm, add_left_comm]

/-- The search is the fold over the places of the bucket. -/
theorem areaLoop_eq (h : stop ≤ data.length) (best : ℕ) :
    areaLoop data (p, value data p) next stop i maxArea best =
      some ((List.range' i (stop - i)).foldl
        (fun (best : ℚ × ℕ) i => if area data p next i > best.1 then (area data p next i, i) else best)
        (maxArea, best)).2 := by
  induction hk : stop - i generalizing i maxArea best with
  | zero =>
    rw [areaLoop.eq_def, if_neg (by omega)]
    rfl
  | succ k ih =>
    rw [areaLoop.eq_def, if_pos (by omega), read_of_lt (by omega), Option.bind_some, List.range'_succ, List.foldl_cons]
    by_cases hgt : area data p next i > maxArea
    · rw [if_pos hgt]
      exact (if_pos hgt).trans (ih i (by omega))
    · rw [if_neg hgt]
      exact (if_neg hgt).trans (ih best (by omega))

/-- Where a place of a bucket is in the list of its places. -/
theorem idxOf_range' (hi : start ≤ i) (hi' : i < stop) : (List.range' start (stop - start)).idxOf i = i - start := by
  have hlt : i - start < (List.range' start (stop - start)).length := by
    rw [List.length_range']
    omega
  have hget := (List.nodup_range' : (List.range' start (stop - start)).Nodup).idxOf_getElem (i - start) hlt
  rwa [List.getElem_range', Nat.one_mul, Nat.add_sub_cancel' hi] at hget

/-- **The search finds the first of the largest triangles.** -/
theorem largestTriangle_bestIdx (hlt : start < stop) :
    LargestTriangle data p next start stop (bestIdx data p next (List.range' start (stop - start)) start) := by
  have hlow : ∀ j ∈ List.range' start (stop - start), (-1 : ℚ) < area data p next j := by
    intro j _
    have : 0 ≤ area data p next j := abs_nonneg _
    linarith
  have hbest := Lib.foldl_argmax (area data p next) (List.range' start (stop - start)) start hlow
  have hmem : ∀ j, j ∈ List.range' start (stop - start) ↔ start ≤ j ∧ j < stop := by
    intro j
    rw [List.mem_range'_1]
    omega
  obtain ⟨i, hi⟩ : ∃ i, List.argmax (area data p next) (List.range' start (stop - start)) = some i := by
    apply Option.ne_none_iff_exists'.mp
    intro hnone
    have hnil := List.argmax_eq_none.mp hnone
    rw [List.range'_eq_nil_iff] at hnil
    omega
  rw [hi] at hbest
  rw [bestIdx, hbest]
  change LargestTriangle data p next start stop i
  obtain ⟨hin, hmax, hfirst⟩ := List.mem_argmax_iff.mp hi
  refine ⟨((hmem i).mp hin).1, ((hmem i).mp hin).2, fun j hj hj' => hmax j ((hmem j).mpr ⟨hj, hj'⟩), ?_⟩
  intro j hj hji
  have hstop := ((hmem i).mp hin).2
  have hjin := (hmem j).mpr ⟨hj, by omega⟩
  -- an equal triangle further left would have been found first
  by_contra hcon
  have hidx := hfirst j hjin (not_lt.mp hcon)
  rw [idxOf_range' (by omega) hstop, idxOf_range' hj (by omega)] at hidx
  omega

end Bucket

/-! ## The selected points -/

section Selection

variable {data : List Int16} {bucketSize : ℚ} {numBuckets count b p : ℕ}

/-- Within the input the bounds of the buckets are not clamped. -/
theorem lttbBucket_eq (ht : Lib.Tiles (lttbStart bucketSize) numBuckets 1 (data.length - 1)) (hb : b < numBuckets) :
    lttbBucket data bucketSize b =
      List.range' (lttbStart bucketSize b) (lttbStart bucketSize (b + 1) - lttbStart bucketSize b) := by
  rw [lttbBucket, Nat.min_eq_left (ht.le_hi hb)]

theorem lttbStart_le (ht : Lib.Tiles (lttbStart bucketSize) numBuckets 1 (data.length - 1)) (hb : b ≤ numBuckets) :
    lttbStart bucketSize b ≤ data.length := by
  have := ht.le_hi hb
  omega

/-- **No average reads outside of the input or divides by zero.** -/
theorem nextAvgAt_eq (ht : Lib.Tiles (lttbStart bucketSize) numBuckets 1 (data.length - 1)) (hdata : 0 < data.length)
    (b : ℕ) : nextAvgAt data bucketSize numBuckets b = some (nextPoint data bucketSize numBuckets b) := by
  rw [nextAvgAt, nextPoint]
  by_cases hmore : b + 1 < numBuckets
  · have hlt := ht.lt (b + 1) hmore
    have hcount : (0 : ℚ) < (lttbStart bucketSize (b + 2) - lttbStart bucketSize (b + 1) : ℕ) := by
      rw [Nat.cast_pos]
      exact Nat.sub_pos_of_lt hlt
    have hend : min (lttbStart bucketSize (b + 2)) (data.length - 1) = lttbStart bucketSize (b + 2) :=
      Nat.min_eq_left (ht.le_hi hmore)
    have hsum : sumLoop data (lttbStart bucketSize (b + 2)) (lttbStart bucketSize (b + 1)) 0 0 0 = some (_, _, _) :=
      sumLoop_eq (lttbStart_le ht hmore)
    rw [if_pos hmore, if_pos hmore]
    simp only [hend, hsum, Option.bind_some, zero_add, gt_iff_lt, hcount, if_true, divide_of_pos hcount,
      Option.map_some]
    rfl
  · rw [if_neg hmore, if_neg hmore, read_of_lt (by omega)]
    rfl

/-- The third corner as `Grebe.Decimator` has it. -/
theorem nextAvg_eq (ht : Lib.Tiles (lttbStart bucketSize) numBuckets 1 (data.length - 1)) (b : ℕ) :
    nextAvg data bucketSize numBuckets b = nextPoint data bucketSize numBuckets b := by
  rw [nextAvg, nextPoint]
  by_cases hmore : b + 1 < numBuckets
  · have hlt := ht.lt (b + 1) hmore
    have hcount : (0 : ℚ) < (lttbStart bucketSize (b + 2) - lttbStart bucketSize (b + 1) : ℕ) := by
      rw [Nat.cast_pos]
      exact Nat.sub_pos_of_lt hlt
    have hsum : ∀ (f : ℕ → ℚ) (start stop : ℕ),
        ∑ j ∈ Finset.Ico start stop, f j = ((List.range' start (stop - start)).map f).sum := fun _ _ _ => rfl
    rw [if_pos hmore, if_pos hmore, averagePoint, hsum, hsum]
    simp only [lttbBucket_eq ht hmore, List.length_range', gt_iff_lt, hcount, if_true]
    simp only [List.bind_eq_flatMap, List.pure_def, ← List.map_eq_flatMap, List.map_map]
    rfl
  · rw [if_neg hmore, if_neg hmore]

/-- Each selected point is the first of the largest triangles of its bucket. -/
theorem best_of_bucket (ht : Lib.Tiles (lttbStart bucketSize) numBuckets 1 (data.length - 1)) (hb : b < numBuckets)
    (p : ℕ) :
    LargestTriangle data p (nextPoint data bucketSize numBuckets b) (lttbStart bucketSize b)
      (lttbStart bucketSize (b + 1))
      (bestIdx data p (nextAvg data bucketSize numBuckets b) (lttbBucket data bucketSize b) (lttbStart bucketSize b)) := by
  rw [nextAvg_eq ht, lttbBucket_eq ht hb]
  exact largestTriangle_bestIdx (ht.lt b hb)

/-- **The loop reads inside of the input** and selects what the list function selects. -/
theorem lttbLoop_eq (ht : Lib.Tiles (lttbStart bucketSize) numBuckets 1 (data.length - 1)) (hdata : 0 < data.length)
    (hb : b + count ≤ numBuckets) :
    lttbLoop data bucketSize numBuckets count b (p, value data p) =
      some ((lttbSelect data bucketSize numBuckets count b p).map fun i => data.getD i 0) := by
  induction count generalizing b p with
  | zero => rfl
  | succ count ih =>
    have hbest := best_of_bucket ht (by omega) p (b := b)
    have hend : min (lttbStart bucketSize (b + 1)) (data.length - 1) = lttbStart bucketSize (b + 1) :=
      Nat.min_eq_left (ht.le_hi (by omega))
    have harea : areaLoop data (p, value data p) (nextPoint data bucketSize numBuckets b) (lttbStart bucketSize (b + 1))
        (lttbStart bucketSize b) (-1) (lttbStart bucketSize b) = some (bestIdx data p
          (nextAvg data bucketSize numBuckets b) (lttbBucket data bucketSize b) (lttbStart bucketSize b)) := by
      rw [nextAvg_eq ht, lttbBucket_eq ht (by omega)]
      exact areaLoop_eq (lttbStart_le ht (by omega)) _
    unfold lttbSelect
    generalize bestIdx data p (nextAvg data bucketSize numBuckets b) (lttbBucket data bucketSize b)
      (lttbStart bucketSize b) = best at hbest harea
    have hin : best < data.length := hbest.lt_stop.trans_le (lttbStart_le ht (by omega))
    unfold lttbLoop
    simp only [nextAvgAt_eq ht hdata, hend, harea, Option.bind_some, Lib.getElem?_of_lt 0 hin]
    exact congrArg _ (ih (by omega))

/-- The points selected from bucket `b` on, and the one before them. -/
theorem lttbSelect_chosen (ht : Lib.Tiles (lttbStart bucketSize) numBuckets 1 (data.length - 1))
    (hb : b + count ≤ numBuckets) (k : ℕ) (hk : k < count) :
    ∃ prev i, (p :: lttbSelect data bucketSize numBuckets count b p)[k]? = some prev ∧
      (p :: lttbSelect data bucketSize numBuckets count b p)[k + 1]? = some i ∧
      LargestTriangle data prev (nextPoint data bucketSize numBuckets (b + k)) (lttbStart bucketSize (b + k))
        (lttbStart bucketSize (b + k + 1)) i := by
  induction count generalizing b p k with
  | zero => omega
  | succ count ih =>
    have hbest := best_of_bucket ht (by omega) p (b := b)
    unfold lttbSelect
    generalize bestIdx data p (nextAvg data bucketSize numBuckets b) (lttbBucket data bucketSize b)
      (lttbStart bucketSize b) = best at hbest
    cases k with
    | zero => exact ⟨p, best, rfl, rfl, hbest⟩
    | succ k =>
      have hnext := ih (b := b + 1) (p := best) (by omega) k (by omega)
      rw [show b + 1 + k = b + (k + 1) by omega] at hnext
      exact hnext

/-- They lie in their buckets, one after the other. -/
theorem lttbSelect_sorted (ht : Lib.Tiles (lttbStart bucketSize) numBuckets 1 (data.length - 1))
    (hb : b + count ≤ numBuckets) :
    (∀ i ∈ lttbSelect data bucketSize numBuckets count b p,
        lttbStart bucketSize b ≤ i ∧ i < lttbStart bucketSize (b + count)) ∧
      (lttbSelect data bucketSize numBuckets count b p).Pairwise (· < ·) := by
  induction count generalizing b p with
  | zero => exact ⟨fun i hi => absurd hi List.not_mem_nil, List.Pairwise.nil⟩
  | succ count ih =>
    have hbest := best_of_bucket ht (by omega) p (b := b)
    unfold lttbSelect
    generalize bestIdx data p (nextAvg data bucketSize numBuckets b) (lttbBucket data bucketSize b)
      (lttbStart bucketSize b) = best at hbest
    obtain ⟨hrange, hsorted⟩ := ih (b := b + 1) (p := best) (by omega)
    rw [show b + 1 + count = b + (count + 1) by omega] at hrange
    have hfirst := hbest.start_le
    have hlast := hbest.lt_stop
    have hle : lttbStart bucketSize (b + 1) ≤ lttbStart bucketSize (b + (count + 1)) := ht.mono (by omega) hb
    constructor
    · intro i hi
      obtain rfl | hi := List.mem_cons.mp hi
      · omega
      · have := hrange i hi
        omega
    · refine List.pairwise_cons.mpr ⟨?_, hsorted⟩
      intro i hi
      have := hrange i hi
      omega

end Selection

/-! ## The whole run -/

section Run

variable {input : SampleVector} {target : UInt32}

/-- `bucket_size` -/
def lttbBucketSize (input : SampleVector) (target : UInt32) : ℚ :=
  ((input.size - 2 : ℕ) : ℚ) / (target.toNat - 2 : ℕ)

/-- The places of the selected points. -/
def lttbIndices (input : SampleVector) (target : UInt32) : List ℕ :=
  0 :: lttbSelect input.data (lttbBucketSize input target) (target.toNat - 2) (target.toNat - 2) 0 0 ++ [input.size - 1]

theorem tiles_input (htarget : 3 ≤ target.toNat) (hn : target.toNat < input.size) :
    Lib.Tiles (lttbStart (lttbBucketSize input target)) (target.toNat - 2) 1 (input.size - 1) :=
  tiles_lttbStart (by omega) (by omega)

/-- **No read and no division fails**, and the points are those at the selected places. -/
theorem lttbAt_eq (htarget : 3 ≤ target.toNat) (hn : target.toNat < input.size) :
    lttbAt input target = some ((lttbIndices input target).map fun i => input.data.getD i 0) := by
  have ht := tiles_input htarget hn
  have hsize : target.toNat < input.data.length := hn
  have hdivide : divide ((input.size - 2 : ℕ) : ℚ) (target.toNat - 2 : ℕ) = some (lttbBucketSize input target) := by
    apply divide_of_pos
    rw [Nat.cast_pos]
    omega
  have hfirst : input.data[0]? = some (input.data.getD 0 0) := Lib.getElem?_of_lt 0 (by omega)
  have hlast : input.data[input.size - 1]? = some (input.data.getD (input.size - 1) 0) :=
    Lib.getElem?_of_lt 0 (Nat.sub_lt (by omega) Nat.one_pos)
  have hloop : lttbLoop input.data (lttbBucketSize input target) (target.toNat - 2) (target.toNat - 2) 0
      (0, (input.data.getD 0 0).toInt) = some ((lttbSelect input.data (lttbBucketSize input target) (target.toNat - 2)
        (target.toNat - 2) 0 0).map fun i => input.data.getD i 0) :=
    lttbLoop_eq ht (by omega) (by omega)
  rw [lttbAt, if_neg (by omega), if_neg (by omega)]
  simp only [hdivide, hfirst, hlast, hloop, Option.bind_some, Option.map_some]
  rw [lttbIndices, List.map_append, List.map_cons]
  rfl

/-- While it is exact, `lttb` of `Grebe.Decimator` is the loop. -/
theorem lttbAt_refines (input : SampleVector) (target : UInt32) :
    lttbAt input target = some (lttb input.data target.toNat) := by
  by_cases htarget : target.toNat < 3
  · rw [lttbAt, lttb, if_pos htarget, if_pos htarget]
  by_cases hn : input.size ≤ target.toNat
  · have hn' : input.data.length ≤ target.toNat := hn
    rw [lttbAt, lttb, if_neg htarget, if_neg htarget, if_pos hn, if_pos hn']
  have hn' : ¬input.data.length ≤ target.toNat := hn
  rw [lttbAt_eq (by omega) (by omega), lttb, if_neg htarget, if_neg hn']
  rfl

/-- Increasing indices strictly between the first and the last, with these two. -/
theorem ends_sorted {n : ℕ} {selected : List ℕ} (hn : 1 < n) (hrange : ∀ i ∈ selected, 1 ≤ i ∧ i < n - 1)
    (hsorted : selected.Pairwise (· < ·)) :
    (0 :: selected ++ [n - 1]).Pairwise (· < ·) ∧ ∀ i ∈ 0 :: selected ++ [n - 1], i < n := by
  constructor
  · rw [List.pairwise_append, List.pairwise_cons]
    refine ⟨⟨fun i hi => (hrange i hi).1, hsorted⟩, List.pairwise_singleton _ _, ?_⟩
    intro i hi j hj
    obtain rfl := List.mem_singleton.mp hj
    obtain rfl | hi := List.mem_cons.mp hi
    · omega
    · exact (hrange i hi).2
  · intro i hi
    rw [List.mem_append, List.mem_cons, List.mem_singleton] at hi
    obtain (rfl | hi) | rfl := hi
    · omega
    · have := hrange i hi
      omega
    · omega

/-- **`lttb` selects a subsequence of exactly the requested size.**  It goes from the first sample to the last; in between
it has one point for each bucket, the first one with the largest triangle over the point before and the average of the
next bucket. -/
theorem lttbAt_selects (input : SampleVector) (target : UInt32) (htarget : 3 ≤ target.toNat)
    (hn : target.toNat < input.size) :
    let n := input.size
    let numBuckets := target.toNat - 2
    let start := lttbStart (lttbBucketSize input target)
    (start 0 = 1 ∧ start numBuckets = n - 1 ∧ ∀ b < numBuckets, start b < start (b + 1)) ∧
      (∀ i, 1 ≤ i → i < n - 1 → ∃! b, b < numBuckets ∧ start b ≤ i ∧ i < start (b + 1)) ∧
      ∃ indices : List ℕ, lttbAt input target = some (indices.map fun i => input.data.getD i 0) ∧
        indices.length = target.toNat ∧ indices.Pairwise (· < ·) ∧ (∀ i ∈ indices, i < n) ∧
        indices[0]? = some 0 ∧ indices[target.toNat - 1]? = some (n - 1) ∧
        ∀ b < numBuckets, ∃ prev i, indices[b]? = some prev ∧ indices[b + 1]? = some i ∧
          LargestTriangle input.data prev (nextPoint input.data (lttbBucketSize input target) numBuckets b) (start b)
            (start (b + 1)) i := by
  intro n numBuckets start
  have hbuckets : numBuckets = target.toNat - 2 := rfl
  have ht : Lib.Tiles start numBuckets 1 (n - 1) := tiles_input htarget hn
  refine ⟨⟨ht.first, ht.last, ht.lt⟩, fun i hi hi' => ht.existsUnique hi hi', lttbIndices input target,
    lttbAt_eq htarget hn, ?_⟩
  have hcount : 0 + numBuckets ≤ numBuckets := by omega
  have hlength := length_lttbSelect input.data (lttbBucketSize input target) numBuckets numBuckets 0 0
  have hlast : start (0 + numBuckets) = n - 1 := by rw [Nat.zero_add, ht.last]
  obtain ⟨hrange, hsorted⟩ := lttbSelect_sorted (p := 0) ht hcount
  have hchosen := lttbSelect_chosen (p := 0) ht hcount
  rw [lttbIndices, ← hbuckets]
  generalize lttbSelect input.data (lttbBucketSize input target) numBuckets numBuckets 0 0 = selected
    at hlength hrange hsorted hchosen
  have hrange' : ∀ i ∈ selected, 1 ≤ i ∧ i < n - 1 := by
    intro i hi
    obtain ⟨hle, hlt⟩ := hrange i hi
    exact ⟨ht.first ▸ hle, hlast ▸ hlt⟩
  have hcons : (0 :: selected).length = numBuckets + 1 := by rw [List.length_cons, hlength]
  obtain ⟨hincreasing, hinside⟩ := ends_sorted (n := n) (by omega) hrange' hsorted
  refine ⟨?_, hincreasing, hinside, rfl, ?_, ?_⟩
  · rw [List.length_append, hcons, List.length_singleton]
    omega
  · rw [List.getElem?_append_right (by omega), hcons, show target.toNat - 1 - (numBuckets + 1) = 0 by omega]
    rfl
  · intro b hb
    have hb' := hchosen b hb
    rw [Nat.zero_add] at hb'
    rwa [List.getElem?_append_left (by omega), List.getElem?_append_left (by omega)]

/-- Five samples, four of them kept; the first of the two buckets looks at the average of the other one. -/
theorem lttbAt_selects_five : ∃ indices : List ℕ,
    lttbAt fiveSamples 4 = some (indices.map fun i => fiveSamples.data.getD i 0) ∧ indices.length = 4 ∧
      ∃ prev i, indices[0]? = some prev ∧ indices[1]? = some i ∧
        LargestTriangle fiveSamples.data prev (nextPoint fiveSamples.data (lttbBucketSize fiveSamples 4) 2 0)
          (lttbStart (lttbBucketSize fiveSamples 4) 0) (lttbStart (lttbBucketSize fiveSamples 4) 1) i := by
  obtain ⟨-, -, indices, heq, hlength, -, -, -, -, hchosen⟩ := lttbAt_selects fiveSamples 4 (by decide) (by decide)
  exact ⟨indices, heq, hlength, hchosen 0 (by decide)⟩

end Run

end Grebe.Decimator
