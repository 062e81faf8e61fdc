import Mathlib.Tactic
import Grebe.Lib.Envelope
import Grebe.Lib.Tiling
import Grebe.Decimator

/-!
# Grebe.DecimatorBounds — `minmax` with the machine arithmetic of its bucket bounds

`Grebe.Decimator` cuts the buckets at `b * n / numBuckets` and hands each bucket over as a list.  Here the product is
taken modulo `2 ^ 64`, as `size_t` does, the length is the wrapping difference of the two bounds, and the loops of both
paths read the input by index; a read outside of it gives `none`.

* `boundsAt_eq`: the three loops of the SSE2 path stay inside the input exactly if the bucket does, and then find what
  the scalar loop finds.
* `stop64_lt_start64`: where the product wraps, a bucket ends before it starts.
* `minmax64_eq_scalar_iff`: the two paths agree exactly as long as `n * numBuckets` does not wrap.
* `minmax64_exact`: then the buckets tile the input and the output is the exact envelope of each.
* `minmax64_refines`: then the list functions of `Grebe.Decimator` are what the machine computes.
-/

namespace Grebe.Decimator

/-! ## The input and the bounds -/

section Sizes

/-- `std::vector<int16_t>::max_size()`: half of `PTRDIFF_MAX` bytes. -/
def maxSize : ℕ := (2 ^ 63 - 1) / 2

/-- A `std::vector<int16_t>`. -/
structure SampleVector where
  data : List Int16
  size_le : data.length ≤ maxSize

/-- `std::vector::size` -/
def SampleVector.size (input : SampleVector) : ℕ := input.data.length

theorem SampleVector.size_lt (input : SampleVector) : input.size < 2 ^ 63 :=
  input.size_le.trans_lt (by decide)

/-- `start`: the product is one of `size_t`. -/
def start64 (n numBuckets b : ℕ) : ℕ := b * n % 2 ^ 64 / numBuckets

/-- `end`: `b + 1` is still one of `uint32_t`. -/
def stop64 (n numBuckets b : ℕ) : ℕ := (b + 1) % 2 ^ 32 * n % 2 ^ 64 / numBuckets

/-- `len`: the difference wraps. -/
def len64 (start stop : ℕ) : ℕ := (2 ^ 64 + stop - start) % 2 ^ 64

end Sizes

/-! ## The loops -/

section Loops

/-- `data[ptr + i]` for `i` up to `stop`: the scalar loop and the scalar tail. -/
def scanLoop (data : List Int16) (ptr stop i : ℕ) (lo hi : Int16) : Option (Int16 × Int16) :=
  if i < stop then
    match data[ptr + i]? with
    | none => none
    | some v => scanLoop data ptr stop (i + 1) (lower lo v) (upper hi v)
  else some (lo, hi)
termination_by stop - i

/-- Sixteen samples an iteration; both loads are within the input, or the result is `none`. -/
def loop16At (data : List Int16) (ptr len i : ℕ) (vmin vmax : M128) : Option (ℕ × M128 × M128) :=
  if i + 15 < len then
    if ptr + i + 16 ≤ data.length then
      let v0 := loadu (data.drop (ptr + i))
      let v1 := loadu (data.drop (ptr + i + 8))
      loop16At data ptr len (i + 16) (lanewise min (lanewise min vmin v0) v1) (lanewise max (lanewise max vmax v0) v1)
    else none
  else some (i, vmin, vmax)
termination_by len - i

/-- Eight samples an iteration. -/
def loop8At (data : List Int16) (ptr len i : ℕ) (vmin vmax : M128) : Option (ℕ × M128 × M128) :=
  if i + 7 < len then
    if ptr + i + 8 ≤ data.length then
      let v := loadu (data.drop (ptr + i))
      loop8At data ptr len (i + 8) (lanewise min vmin v) (lanewise max vmax v)
    else none
  else some (i, vmin, vmax)
termination_by len - i

/-- The bounds of `len` samples from `ptr` on, with SSE2. -/
def boundsAt (data : List Int16) (ptr len : ℕ) : Option (Int16 × Int16) :=
  (loop16At data ptr len 0 (set1 Int16.maxValue) (set1 Int16.minValue)).bind fun r =>
    (loop8At data ptr len r.1 r.2.1 r.2.2).bind fun r =>
      scanLoop data ptr len r.1 (hminEpi16 r.2.1) (hmaxEpi16 r.2.2)

/-- Bucket `b` of the scalar path. -/
def bucketScalar (input : SampleVector) (numBuckets b : ℕ) : Option (Int16 × Int16) :=
  scanLoop input.data 0 (stop64 input.size numBuckets b) (start64 input.size numBuckets b) Int16.maxValue Int16.minValue

/-- Bucket `b` of the SSE2 path. -/
def bucketSimd (input : SampleVector) (numBuckets b : ℕ) : Option (Int16 × Int16) :=
  let start := start64 input.size numBuckets b
  boundsAt input.data start (len64 start (stop64 input.size numBuckets b))

/-- The loop over the buckets: `count` of them from `b` on. -/
def bucketLoop (bounds : ℕ → Option (Int16 × Int16)) : ℕ → ℕ → Option (List Int16)
  | 0, _ => some []
  | count + 1, b =>
    (bounds b).bind fun r => (bucketLoop bounds count (b + 1)).map fun output => r.1 :: r.2 :: output

/-- `Decimator::minmax_scalar` -/
def minmaxScalar64 (input : SampleVector) (target : UInt32) : Option (List Int16) :=
  if target.toNat < 2 then some []
  else if input.size ≤ target.toNat then some input.data
  else
    let numBuckets := target.toNat / 2
    bucketLoop (bucketScalar input numBuckets) numBuckets 0

/-- `Decimator::minmax` with SSE2. -/
def minmax64 (input : SampleVector) (target : UInt32) : Option (List Int16) :=
  if target.toNat < 2 then some []
  else if input.size ≤ target.toNat then some input.data
  else
    let numBuckets := target.toNat / 2
    bucketLoop (bucketSimd input numBuckets) numBuckets 0

end Loops

/-! ## What the loops of one bucket find -/

section Bucket

variable {data : List Int16} {ptr start stop len i : ℕ} {lo hi : Int16} {vmin vmax : M128}

/-- The samples from `i` up to `stop`. -/
def span (data : List Int16) (i stop : ℕ) : List Int16 := (data.drop i).take (stop - i)

theorem span_self (i : ℕ) : span data i i = [] := by simp [span]

theorem length_span (h : stop ≤ data.length) : (span data i stop).length = stop - i := by
  rw [span, List.length_take, List.length_drop]
  omega

/-- A span is a shorter one and what follows it. -/
theorem span_append {k : ℕ} (h : i ≤ k) (h' : k ≤ stop) : span data i stop = span data i k ++ span data k stop := by
  have hsum : stop - i = (k - i) + (stop - k) := by omega
  rw [span, hsum, List.take_add, List.drop_drop, show i + (k - i) = k by omega]
  rfl

theorem span_succ (h : i < stop) (h' : stop ≤ data.length) : span data i stop = data[i] :: span data (i + 1) stop := by
  rw [span, List.drop_eq_getElem_cons (by omega), show stop - i = (stop - (i + 1)) + 1 by omega, List.take_succ_cons]
  rfl

theorem scanLoop_of_le (h : ptr + stop ≤ data.length) :
    scanLoop data ptr stop i lo hi =
      some ((span data (ptr + i) (ptr + stop)).foldl lower lo, (span data (ptr + i) (ptr + stop)).foldl upper hi) := by
  induction hk : stop - i generalizing i lo hi with
  | zero =>
    rw [scanLoop.eq_def, if_neg (by omega), span, show ptr + stop - (ptr + i) = 0 by omega]
    rfl
  | succ k ih =>
    have hi' : ptr + i < data.length := by omega
    rw [scanLoop.eq_def, if_pos (by omega), List.getElem?_eq_getElem hi', span_succ (by omega) h]
    exact ih (by omega)

/-- A loop that has to leave the input fails. -/
theorem scanLoop_of_lt (hi' : i < stop) (h : data.length < ptr + stop) : scanLoop data ptr stop i lo hi = none := by
  induction hk : stop - i generalizing i lo hi with
  | zero => omega
  | succ k ih =>
    rw [scanLoop.eq_def, if_pos hi']
    cases hread : data[ptr + i]? with
    | none => rfl
    | some v =>
      obtain ⟨hlt, -⟩ := List.getElem?_eq_some_iff.mp hread
      exact ih (by omega) (by omega)

/-- The scalar bounds of a span are its least and its greatest sample. -/
theorem span_extremes (hlt : i < stop) (hstop : stop ≤ data.length) :
    IsLeast (Lib.between data i stop) (boundsScalar (span data i stop)).1 ∧
      IsGreatest (Lib.between data i stop) (boundsScalar (span data i stop)).2 := by
  have hmem : ∀ v, v ∈ span data i stop ↔ v ∈ Lib.between data i stop := fun v => Lib.mem_take_drop
  have hne : span data i stop ≠ [] := by
    rw [← List.length_pos_iff, length_span hstop]
    omega
  obtain ⟨hlo, hhi⟩ := boundsScalar_extremes (span data i stop) hne
  rw [List.minimum_eq_coe_iff] at hlo
  rw [List.maximum_eq_coe_iff] at hhi
  exact ⟨⟨(hmem _).mp hlo.1, fun v hv => hlo.2 v ((hmem v).mpr hv)⟩,
    (hmem _).mp hhi.1, fun v hv => hhi.2 v ((hmem v).mpr hv)⟩

/-- The samples before `i` are in the registers. -/
structure Scanned (data : List Int16) (ptr len i : ℕ) (vmin vmax : M128) : Prop where
  le_len : i ≤ len
  le_length : ptr + i ≤ data.length
  min_eq : hminEpi16 vmin = (span data ptr (ptr + i)).foldl min Int16.maxValue
  max_eq : hmaxEpi16 vmax = (span data ptr (ptr + i)).foldl max Int16.minValue

theorem scanned_zero (h : ptr ≤ data.length) :
    Scanned data ptr len 0 (set1 Int16.maxValue) (set1 Int16.minValue) where
  le_len := Nat.zero_le len
  le_length := h
  min_eq := by
    rw [Nat.add_zero, span_self]
    rfl
  max_eq := by
    rw [Nat.add_zero, span_self]
    rfl

/-- One load takes eight more samples in. -/
theorem Scanned.load (h : Scanned data ptr len i vmin vmax) (hlen : i + 8 ≤ len) (hmem : ptr + i + 8 ≤ data.length) :
    Scanned data ptr len (i + 8) (lanewise min vmin (loadu (data.drop (ptr + i))))
      (lanewise max vmax (loadu (data.drop (ptr + i)))) := by
  have hload : 8 ≤ (data.drop (ptr + i)).length := by
    rw [List.length_drop]
    omega
  have hspan : span data ptr (ptr + (i + 8)) = span data ptr (ptr + i) ++ (data.drop (ptr + i)).take 8 := by
    rw [span_append (k := ptr + i) (by omega) (by omega)]
    congr 1
    rw [span, show ptr + (i + 8) - (ptr + i) = 8 by omega]
  refine ⟨hlen, hmem, ?_, ?_⟩
  · rw [hspan, List.foldl_append, foldl_take_eight min hload, ← h.min_eq]
    exact hreduce_lanewise min vmin _
  · rw [hspan, List.foldl_append, foldl_take_eight max hload, ← h.max_eq]
    exact hreduce_lanewise max vmax _

/-- A loop of loads fails only if the bucket leaves the input. -/
theorem loop16At_cases (h : Scanned data ptr len i vmin vmax) :
    (loop16At data ptr len i vmin vmax = none ∧ data.length < ptr + len) ∨
      ∃ i' vmin' vmax', loop16At data ptr len i vmin vmax = some (i', vmin', vmax') ∧
        Scanned data ptr len i' vmin' vmax' := by
  induction hk : len - i using Nat.strong_induction_on generalizing i vmin vmax with
  | _ k ih =>
    rw [loop16At.eq_def]
    by_cases hmore : i + 15 < len
    · rw [if_pos hmore]
      by_cases hmem : ptr + i + 16 ≤ data.length
      · rw [if_pos hmem]
        have hnext := (h.load (by omega) (by omega)).load (by omega) (by omega)
        exact ih (len - (i + 16)) (by omega) hnext rfl
      · rw [if_neg hmem]
        exact .inl ⟨rfl, by omega⟩
    · rw [if_neg hmore]
      exact .inr ⟨i, vmin, vmax, rfl, h⟩

theorem loop8At_cases (h : Scanned data ptr len i vmin vmax) :
    (loop8At data ptr len i vmin vmax = none ∧ data.length < ptr + len) ∨
      ∃ i' vmin' vmax', loop8At data ptr len i vmin vmax = some (i', vmin', vmax') ∧
        Scanned data ptr len i' vmin' vmax' := by
  induction hk : len - i using Nat.strong_induction_on generalizing i vmin vmax with
  | _ k ih =>
    rw [loop8At.eq_def]
    by_cases hmore : i + 7 < len
    · rw [if_pos hmore]
      by_cases hmem : ptr + i + 8 ≤ data.length
      · rw [if_pos hmem]
        exact ih (len - (i + 8)) (by omega) (h.load (by omega) hmem) rfl
      · rw [if_neg hmem]
        exact .inl ⟨rfl, by omega⟩
    · rw [if_neg hmore]
      exact .inr ⟨i, vmin, vmax, rfl, h⟩

/-- **The three loops read the bucket, all of it and nothing else**, and find its scalar bounds. -/
theorem boundsAt_eq (hptr : ptr ≤ data.length) :
    boundsAt data ptr len =
      if ptr + len ≤ data.length then some (boundsScalar (span data ptr (ptr + len))) else none := by
  have hzero : Scanned data ptr len 0 (set1 Int16.maxValue) (set1 Int16.minValue) := scanned_zero hptr
  unfold boundsAt
  rcases loop16At_cases hzero with ⟨hnone, hlt⟩ | ⟨i, vmin, vmax, hsome, hscan⟩
  · rw [hnone, if_neg (by omega)]
    rfl
  rw [hsome, Option.bind_some]
  rcases loop8At_cases hscan with ⟨hnone, hlt⟩ | ⟨i, vmin, vmax, hsome, hscan⟩
  · rw [hnone, if_neg (by omega)]
    rfl
  have hle := hscan.le_len
  have hmem := hscan.le_length
  rw [hsome, Option.bind_some]
  by_cases h : ptr + len ≤ data.length
  · rw [if_pos h, scanLoop_of_le h, hscan.min_eq, hscan.max_eq, lower_eq_min, upper_eq_max, ← List.foldl_append,
      ← List.foldl_append, ← span_append (by omega) (by omega), boundsScalar, lower_eq_min, upper_eq_max]
  · rw [if_neg h]
    exact scanLoop_of_lt (by omega) (by omega)

end Bucket

/-! ## The bounds of the buckets -/

section Bounds

variable {n m b start stop : ℕ}

theorem stop64_eq (hb : b < m) (hm : m < 2 ^ 32) : stop64 n m b = start64 n m (b + 1) := by
  have hsucc : (b + 1) % 2 ^ 32 = b + 1 := Nat.mod_eq_of_lt (by omega)
  rw [stop64, start64, hsucc]

theorem start64_eq (hb : b ≤ m) (hwrap : n * m < 2 ^ 64) : start64 n m b = bucketStart n m b := by
  have hlt : b * n < 2 ^ 64 := by
    calc b * n ≤ m * n := Nat.mul_le_mul_right n hb
      _ = n * m := Nat.mul_comm m n
      _ < 2 ^ 64 := hwrap
  rw [start64, bucketStart, Nat.mod_eq_of_lt hlt]

/-- Wrapped or not, a bucket starts within the input. -/
theorem start64_le (hb : b ≤ m) : start64 n m b ≤ n := by
  rcases Nat.eq_zero_or_pos m with rfl | hm
  · rw [start64, Nat.div_zero]
    exact Nat.zero_le n
  · calc start64 n m b ≤ b * n / m := Nat.div_le_div_right (Nat.mod_le _ _)
      _ ≤ m * n / m := Nat.div_le_div_right (Nat.mul_le_mul_right n hb)
      _ = n := Nat.mul_div_cancel_left n hm

theorem len64_of_le (h : start ≤ stop) (hstop : stop < 2 ^ 64) : len64 start stop = stop - start := by
  unfold len64
  omega

theorem len64_of_lt (h : stop < start) (hstart : start < 2 ^ 64) : start + len64 start stop = 2 ^ 64 + stop := by
  unfold len64
  omega

/-- As long as the largest product does not wrap, the buckets tile the input. -/
theorem tiles_start64 (hm : 0 < m) (hmn : m ≤ n) (hwrap : n * m < 2 ^ 64) : Lib.Tiles (start64 n m) m 0 n := by
  have htiles : Lib.Tiles (bucketStart n m) m 0 n :=
    ⟨bucketStart_zero n m, bucketStart_last n hm, fun b _ => bucketStart_lt hm hmn b⟩
  exact htiles.congr fun b hb => start64_eq hb hwrap

/-- **Where the product first wraps, a bucket ends before it starts.** -/
theorem stop64_lt_start64 (hn : n < 2 ^ 63) (hm : m < 2 ^ 31) (hmn : m ≤ n) (hwrap : 2 ^ 64 ≤ n * m) :
    ∃ b < m, stop64 n m b < start64 n m b := by
  have hpos : 0 < m := by
    rcases Nat.eq_zero_or_pos m with rfl | h
    · omega
    · exact h
  -- the last bucket whose first product is below `2 ^ 64`
  have hlt : (2 ^ 64 - 1) / n * n < 2 ^ 64 := by
    have := Nat.div_mul_le_self (2 ^ 64 - 1) n
    omega
  have hge : 2 ^ 64 ≤ ((2 ^ 64 - 1) / n + 1) * n := by
    have := Nat.lt_mul_div_succ (2 ^ 64 - 1) (show 0 < n by omega)
    rw [Nat.mul_comm] at this
    omega
  have hb : (2 ^ 64 - 1) / n < m := by
    by_contra hcon
    have := Nat.mul_le_mul_right n (Nat.le_of_not_lt hcon)
    rw [Nat.mul_comm m n] at this
    omega
  generalize (2 ^ 64 - 1) / n = b at hlt hge hb
  refine ⟨b, hb, ?_⟩
  rw [stop64_eq hb (by omega), start64, start64]
  have hsucc : (b + 1) * n = b * n + n := Nat.succ_mul b n
  rw [hsucc] at hge ⊢
  generalize b * n = p at hlt hge
  -- the wrapped product is smaller by more than `m`
  have hmod : (p + n) % 2 ^ 64 = p + n - 2 ^ 64 := by omega
  rw [hmod, Nat.mod_eq_of_lt hlt]
  calc (p + n - 2 ^ 64) / m < (p + n - 2 ^ 64) / m + 1 := Nat.lt_succ_self _
    _ = (p + n - 2 ^ 64 + m) / m := (Nat.add_div_right _ hpos).symm
    _ ≤ p / m := Nat.div_le_div_right (by omega)

end Bounds

/-! ## The loop over the buckets -/

section BucketLoop

variable {bounds : ℕ → Option (Int16 × Int16)} {f : ℕ → Int16 × Int16} {count b : ℕ}

theorem bucketLoop_eq_some (h : ∀ k, b ≤ k → k < b + count → bounds k = some (f k)) :
    bucketLoop bounds count b = some ((List.range' b count).flatMap fun k => [(f k).1, (f k).2]) := by
  induction count generalizing b with
  | zero => rfl
  | succ count ih =>
    rw [bucketLoop, h b le_rfl (by omega), Option.bind_some, ih fun k hk hk' => h k (by omega) (by omega),
      List.range'_succ]
    rfl

/-- One bucket that fails is enough. -/
theorem bucketLoop_eq_none {k : ℕ} (hk : b ≤ k) (hk' : k < b + count) (h : bounds k = none) :
    bucketLoop bounds count b = none := by
  induction count generalizing b with
  | zero => omega
  | succ count ih =>
    unfold bucketLoop
    rcases Nat.eq_or_lt_of_le hk with rfl | hlt
    · rw [h]
      rfl
    · rw [ih (by omega) (by omega)]
      cases bounds b <;> rfl

end BucketLoop

/-! ## The two paths -/

section Paths

variable {input : SampleVector} {target : UInt32} {m b : ℕ}

/-- The samples of bucket `b`. -/
def bucketSpan (input : SampleVector) (m b : ℕ) : List Int16 :=
  span input.data (start64 input.size m b) (stop64 input.size m b)

/-- Wrapped or not, the scalar path stays inside the input. -/
theorem bucketScalar_eq (hm : m < 2 ^ 31) (hb : b < m) :
    bucketScalar input m b = some (boundsScalar (bucketSpan input m b)) := by
  have hstop : stop64 input.size m b ≤ input.size := by
    rw [stop64_eq hb (by omega)]
    exact start64_le hb
  rw [bucketScalar, scanLoop_of_le (by rwa [Nat.zero_add]), Nat.zero_add, Nat.zero_add]
  rfl

/-- A bucket that ends where it starts or later is read by both paths alike. -/
theorem bucketSimd_eq (hm : m < 2 ^ 31) (hb : b < m) (hle : start64 input.size m b ≤ stop64 input.size m b) :
    bucketSimd input m b = some (boundsScalar (bucketSpan input m b)) := by
  have hsize := input.size_lt
  have hstop : stop64 input.size m b ≤ input.size := by
    rw [stop64_eq hb (by omega)]
    exact start64_le hb
  have hsum : start64 input.size m b + len64 (start64 input.size m b) (stop64 input.size m b) =
      stop64 input.size m b := by
    rw [len64_of_le hle (by omega)]
    omega
  have hstart : start64 input.size m b ≤ input.data.length := start64_le hb.le
  rw [bucketSimd, boundsAt_eq hstart, hsum]
  exact if_pos hstop

/-- A bucket that ends before it starts takes the SSE2 path out of the input. -/
theorem bucketSimd_wrapped (hb : b < m) (hlt : stop64 input.size m b < start64 input.size m b) :
    bucketSimd input m b = none := by
  have hsize := input.size_lt
  have hstart : start64 input.size m b ≤ input.size := start64_le hb.le
  have hsum := len64_of_lt hlt (by omega)
  have hout : ¬start64 input.size m b + len64 (start64 input.size m b) (stop64 input.size m b) ≤ input.data.length := by
    rw [hsum]
    change ¬2 ^ 64 + stop64 input.size m b ≤ input.size
    omega
  rw [bucketSimd, boundsAt_eq hstart, if_neg hout]

theorem numBuckets_lt (target : UInt32) : target.toNat / 2 < 2 ^ 31 := by
  have := target.toNat_lt
  omega

/-- The output of the scalar path, wrapped or not. -/
theorem minmaxScalar64_eq (htarget : 2 ≤ target.toNat) (hn : target.toNat < input.size) :
    minmaxScalar64 input target = some ((List.range (target.toNat / 2)).flatMap fun b =>
      [(boundsScalar (bucketSpan input (target.toNat / 2) b)).1,
        (boundsScalar (bucketSpan input (target.toNat / 2) b)).2]) := by
  rw [minmaxScalar64, if_neg (by omega), if_neg (by omega), List.range_eq_range']
  exact bucketLoop_eq_some fun b _ hb => bucketScalar_eq (numBuckets_lt target) (by omega)

theorem minmax64_eq (htarget : 2 ≤ target.toNat) (hn : target.toNat < input.size)
    (hwrap : input.size * (target.toNat / 2) < 2 ^ 64) :
    minmax64 input target = minmaxScalar64 input target := by
  have hm := numBuckets_lt target
  have htiles := tiles_start64 (by omega) (by omega) hwrap
  rw [minmaxScalar64_eq htarget hn, minmax64, if_neg (by omega), if_neg (by omega), List.range_eq_range']
  refine bucketLoop_eq_some fun b _ hb => bucketSimd_eq hm (by omega) ?_
  rw [stop64_eq (by omega) (by omega)]
  exact (htiles.lt b (by omega)).le

theorem minmax64_wrapped (hn : target.toNat < input.size) (hwrap : 2 ^ 64 ≤ input.size * (target.toNat / 2)) :
    minmax64 input target = none := by
  obtain ⟨b, hb, hlt⟩ := stop64_lt_start64 input.size_lt (numBuckets_lt target) (by omega) hwrap
  rw [minmax64, if_neg (by omega), if_neg (by omega)]
  exact bucketLoop_eq_none (Nat.zero_le b) (by omega) (bucketSimd_wrapped hb hlt)

/-- **The two paths agree exactly as long as the largest product of the bounds does not wrap.** -/
theorem minmax64_eq_scalar_iff (input : SampleVector) (target : UInt32) :
    minmax64 input target = minmaxScalar64 input target ↔
      target.toNat < 2 ∨ input.size ≤ target.toNat ∨ input.size * (target.toNat / 2) < 2 ^ 64 := by
  by_cases htarget : target.toNat < 2
  · rw [minmax64, minmaxScalar64, if_pos htarget, if_pos htarget]
    exact iff_of_true rfl (.inl htarget)
  by_cases hn : input.size ≤ target.toNat
  · rw [minmax64, minmaxScalar64, if_neg htarget, if_neg htarget, if_pos hn, if_pos hn]
    exact iff_of_true rfl (.inr (.inl hn))
  constructor
  · intro heq
    by_contra hcon
    have hwrap : 2 ^ 64 ≤ input.size * (target.toNat / 2) := by
      rw [not_or, not_or] at hcon
      exact Nat.le_of_not_lt hcon.2.2
    rw [minmax64_wrapped (by omega) hwrap, minmaxScalar64_eq (by omega) (by omega)] at heq
    cases heq
  · rintro (hcon | hcon | hwrap)
    · exact absurd hcon htarget
    · exact absurd hcon hn
    · exact minmax64_eq (by omega) (by omega) hwrap

/-- `2 ^ 34` samples of silence, 32 GiB. -/
def silence : SampleVector where
  data := List.replicate (2 ^ 34) 0
  size_le := by
    rw [List.length_replicate]
    decide

/-- With the largest target, the SSE2 path leaves the input and the scalar path does not. -/
theorem minmax64_silence :
    minmax64 silence 4294967295 = none ∧ ∃ output, minmaxScalar64 silence 4294967295 = some output := by
  have hsize : silence.size = 2 ^ 34 := List.length_replicate ..
  have htarget : (4294967295 : UInt32).toNat = 2 ^ 32 - 1 := rfl
  refine ⟨minmax64_wrapped ?_ ?_, _, minmaxScalar64_eq ?_ ?_⟩ <;> rw [htarget]
  · rw [hsize]
    decide
  · rw [hsize]
    decide
  · decide
  · rw [hsize]
    decide

/-- **The exact envelope.**  While no product wraps, the buckets tile the input, their lengths differ by one at most, and
both paths give the minimum and the maximum of each; an input that is short enough is left as it is. -/
theorem minmax64_exact (input : SampleVector) (target : UInt32) (htarget : 2 ≤ target.toNat) :
    (input.size ≤ target.toNat →
      minmaxScalar64 input target = some input.data ∧ minmax64 input target = some input.data) ∧
    (target.toNat < input.size → input.size * (target.toNat / 2) < 2 ^ 64 →
      let n := input.size
      let m := target.toNat / 2
      (∀ b < m, start64 n m b = b * n / m ∧ stop64 n m b = (b + 1) * n / m ∧ start64 n m b < stop64 n m b ∧
        stop64 n m b = start64 n m (b + 1) ∧
        (stop64 n m b - start64 n m b = n / m ∨ stop64 n m b - start64 n m b = n / m + 1)) ∧
      (∀ i < n, ∃! b, b < m ∧ start64 n m b ≤ i ∧ i < stop64 n m b) ∧
      ∃ output, minmaxScalar64 input target = some output ∧ minmax64 input target = some output ∧
        Lib.PairEnvelope input.data output (start64 n m) m ∧
        output.minimum = input.data.minimum ∧ output.maximum = input.data.maximum) := by
  constructor
  · intro hn
    constructor
    · rw [minmaxScalar64, if_neg (by omega), if_pos hn]
    · rw [minmax64, if_neg (by omega), if_pos hn]
  intro hn hwrap n m
  have hm : m < 2 ^ 31 := numBuckets_lt target
  have hpos : 0 < m := by
    change 0 < target.toNat / 2
    omega
  have htiles : Lib.Tiles (start64 n m) m 0 n := tiles_start64 hpos (by omega) hwrap
  have hstop : ∀ b < m, stop64 n m b = start64 n m (b + 1) := fun b hb => stop64_eq hb (by omega)
  have hstart : ∀ b ≤ m, start64 n m b = bucketStart n m b := fun b hb => start64_eq hb hwrap
  refine ⟨?_, ?_, ?_⟩
  · intro b hb
    have hlength := bucketLength_cases n hpos b
    have hlt := htiles.lt b hb
    rw [← hstart b hb.le, ← hstart (b + 1) hb] at hlength
    rw [hstop b hb]
    exact ⟨hstart b hb.le, hstart (b + 1) hb, hlt, rfl, hlength⟩
  · intro i hi
    obtain ⟨b, ⟨hb, hle, hlt⟩, huniq⟩ := htiles.existsUnique (Nat.zero_le i) hi
    refine ⟨b, ⟨hb, hle, by rwa [hstop b hb]⟩, ?_⟩
    rintro b' ⟨hb', hle', hlt'⟩
    exact huniq b' ⟨hb', hle', by rwa [← hstop b' hb']⟩
  · have hbuckets : ∀ b < m, IsLeast (Lib.between input.data (start64 n m b) (start64 n m (b + 1)))
          (boundsScalar (bucketSpan input m b)).1 ∧
        IsGreatest (Lib.between input.data (start64 n m b) (start64 n m (b + 1)))
          (boundsScalar (bucketSpan input m b)).2 := by
      intro b hb
      rw [bucketSpan, show input.size = n from rfl, hstop b hb]
      exact span_extremes (htiles.lt b hb) (htiles.le_hi hb)
    have hpairs := Lib.pairEnvelope_flatMap (fun b hb => (hbuckets b hb).1) fun b hb => (hbuckets b hb).2
    have henv := hpairs.envelope htiles
    exact ⟨_, minmaxScalar64_eq htarget hn, (minmax64_eq htarget hn hwrap).trans (minmaxScalar64_eq htarget hn), hpairs,
      henv.minimum_eq, henv.maximum_eq⟩

/-- Five samples for two buckets. -/
def fiveSamples : SampleVector := ⟨[3, -1, 4, 1, -5], by decide⟩

theorem minmax64_exact_five :
    ∃ output, minmaxScalar64 fiveSamples 4 = some output ∧ minmax64 fiveSamples 4 = some output ∧
      Lib.PairEnvelope fiveSamples.data output (start64 5 2) 2 := by
  obtain ⟨-, -, output, hscalar, hsimd, hpairs, -, -⟩ :=
    (minmax64_exact fiveSamples 4 (by decide)).2 (by decide) (by decide)
  exact ⟨output, hscalar, hsimd, hpairs⟩

/-- While no product wraps, the functions of `Grebe.Decimator` are the ones of the machine. -/
theorem minmaxScalar64_refines (hwrap : input.size * (target.toNat / 2) < 2 ^ 64) :
    minmaxScalar64 input target = some (minmaxScalar input.data target.toNat) := by
  by_cases htarget : target.toNat < 2
  · rw [minmaxScalar64, minmaxScalar, minmaxWith, if_pos htarget, if_pos htarget]
  by_cases hn : input.size ≤ target.toNat
  · have hn' : input.data.length ≤ target.toNat := hn
    rw [minmaxScalar64, minmaxScalar, minmaxWith, if_neg htarget, if_neg htarget, if_pos hn, if_pos hn']
  have hn' : ¬input.data.length ≤ target.toNat := hn
  rw [minmaxScalar64_eq (by omega) (by omega), minmaxScalar, minmaxWith, if_neg htarget, if_neg hn', Option.some_inj]
  apply List.flatMap_congr
  intro b hb
  have hb := List.mem_range.mp hb
  have hm := numBuckets_lt target
  have hspan : bucketSpan input (target.toNat / 2) b =
      Lib.cut input.data (bucketStart input.data.length (target.toNat / 2)) b := by
    rw [bucketSpan, stop64_eq hb (by omega), start64_eq hb.le hwrap, start64_eq hb hwrap]
    rfl
  rw [hspan]

theorem minmax64_refines (hwrap : input.size * (target.toNat / 2) < 2 ^ 64) :
    minmax64 input target = some (minmax input.data target.toNat) := by
  rw [minmax_eq_scalar, ← minmaxScalar64_refines hwrap]
  by_cases htarget : target.toNat < 2
  · rw [minmaxScalar64, minmax64, if_pos htarget, if_pos htarget]
  by_cases hn : input.size ≤ target.toNat
  · rw [minmaxScalar64, minmax64, if_neg htarget, if_neg htarget, if_pos hn, if_pos hn]
  · exact minmax64_eq (by omega) (by omega) hwrap

end Paths

end Grebe.Decimator
