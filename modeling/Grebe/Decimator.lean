import Mathlib.Tactic
import Mathlib.Data.Rat.Floor
import Grebe.Lib.Envelope

/-!
# Grebe.Decimator — fewer samples for the same span

* `minmaxScalar`: the minimum and the maximum of each of `target / 2` buckets.
* `minmax`: the same with SSE2, sixteen and then eight samples at a time, a horizontal reduction and a scalar tail.  A
  register is a function of the lane; `minmax_eq_scalar` says that the two agree.
* `lttb`: largest triangle three buckets, its `double` arithmetic over the rationals.
* `bucketLength_cases`: the lengths of the buckets of `minmax`.
* `minmax_envelope`: `minmax` keeps the extremes of its input and invents no sample.

Bucket bounds and lengths are natural numbers: with 32-bit bucket numbers, the 64-bit products of the source wrap for no
input shorter than `2 ^ 32` samples.
-/

namespace Grebe

/-- `int16_t` has the order of the integers. -/
instance instLinearOrderInt16 : LinearOrder Int16 where
  le_refl _ := Int16.le_refl _
  le_trans _ _ _ := Int16.le_trans
  le_antisymm _ _ := Int16.le_antisymm
  le_total _ _ := Int16.le_total ..
  lt_iff_le_not_ge a b := by
    rw [Int16.not_le]
    exact ⟨fun h => ⟨Int16.le_of_lt h, h⟩, fun h => h.2⟩
  toDecidableLE := inferInstance
  toDecidableLT := inferInstance
  toDecidableEq := inferInstance

theorem le_maxValue (x : Int16) : x ≤ Int16.maxValue := Int16.le_maxValue x

theorem minValue_le (x : Int16) : Int16.minValue ≤ x := Int16.minValue_le x

inductive DecimationMode
  | none
  | minMax
  | lttb
deriving DecidableEq

namespace Decimator

/-! ## Buckets -/

section Buckets

/-- Where bucket `b` of `numBuckets` starts in `n` samples. -/
def bucketStart (n numBuckets b : ℕ) : ℕ := b * n / numBuckets

/-- The pairs of all buckets; `bounds` finds the minimum and the maximum of one. -/
def minmaxWith (bounds : List Int16 → Int16 × Int16) (input : List Int16) (target : ℕ) : List Int16 :=
  if target < 2 then []
  else if input.length ≤ target then input
  else
    (List.range (target / 2)).flatMap fun b =>
      let r := bounds (Lib.cut input (bucketStart input.length (target / 2)) b)
      [r.1, r.2]

end Buckets

/-! ## The scalar path -/

section Scalar

def lower (lo v : Int16) : Int16 := if v < lo then v else lo

def upper (hi v : Int16) : Int16 := if v > hi then v else hi

def boundsScalar (bucket : List Int16) : Int16 × Int16 :=
  (bucket.foldl lower Int16.maxValue, bucket.foldl upper Int16.minValue)

def minmaxScalar : List Int16 → ℕ → List Int16 := minmaxWith boundsScalar

theorem lower_eq_min : lower = min := by
  ext lo v
  rcases lt_or_ge v lo with h | h
  · rw [lower, if_pos h, min_eq_right h.le]
  · rw [lower, if_neg (not_lt.mpr h), min_eq_left h]

theorem upper_eq_max : upper = max := by
  ext hi v
  rcases lt_or_ge hi v with h | h
  · rw [upper, if_pos h, max_eq_right h.le]
  · rw [upper, if_neg (not_lt.mpr h), max_eq_left h]

end Scalar

/-! ## The SSE2 path -/

section Simd

/-- `__m128i` as eight `int16_t` lanes. -/
abbrev M128 := Fin 8 → Int16

/-- `_mm_set1_epi16` -/
def set1 (x : Int16) : M128 := fun _ => x

/-- `_mm_loadu_si128` of the first eight samples. -/
def loadu (xs : List Int16) : M128 := fun lane => xs.getD lane 0

/-- `_mm_min_epi16` and `_mm_max_epi16`, lane by lane. -/
def lanewise (op : Int16 → Int16 → Int16) (v w : M128) : M128 := fun lane => op (v lane) (w lane)

/-- `_MM_SHUFFLE`: where the four results come from, the last argument first. -/
def mmShuffle (z y x w : Fin 4) : Fin 4 → Fin 4 := ![w, x, y, z]

/-- `_mm_shuffle_epi32`: pairs of lanes move together. -/
def shuffleEpi32 (v : M128) (sel : Fin 4 → Fin 4) : M128 :=
  ![v ⟨2 * sel 0, by omega⟩, v ⟨2 * sel 0 + 1, by omega⟩, v ⟨2 * sel 1, by omega⟩, v ⟨2 * sel 1 + 1, by omega⟩,
    v ⟨2 * sel 2, by omega⟩, v ⟨2 * sel 2 + 1, by omega⟩, v ⟨2 * sel 3, by omega⟩, v ⟨2 * sel 3 + 1, by omega⟩]

/-- `_mm_shufflelo_epi16`: the lower four lanes. -/
def shuffleloEpi16 (v : M128) (sel : Fin 4 → Fin 4) : M128 :=
  ![v ⟨sel 0, by omega⟩, v ⟨sel 1, by omega⟩, v ⟨sel 2, by omega⟩, v ⟨sel 3, by omega⟩, v 4, v 5, v 6, v 7]

/-- `_mm_shufflehi_epi16`: the upper four lanes. -/
def shufflehiEpi16 (v : M128) (sel : Fin 4 → Fin 4) : M128 :=
  ![v 0, v 1, v 2, v 3, v ⟨4 + sel 0, by omega⟩, v ⟨4 + sel 1, by omega⟩, v ⟨4 + sel 2, by omega⟩,
    v ⟨4 + sel 3, by omega⟩]

/-- `hmin_epi16` and `hmax_epi16`. -/
def hreduce (op : Int16 → Int16 → Int16) (v : M128) : Int16 :=
  let v := lanewise op v (shufflehiEpi16 (shuffleEpi32 v (mmShuffle 1 0 3 2)) (mmShuffle 1 0 3 2))
  let v := lanewise op v (shuffleloEpi16 v (mmShuffle 1 0 3 2))
  let v := lanewise op v (shuffleloEpi16 v (mmShuffle 0 1 0 1))
  v 0

def hminEpi16 : M128 → Int16 := hreduce min

def hmaxEpi16 : M128 → Int16 := hreduce max

/-- The loop over sixteen samples: the register and the samples left; every iteration takes some of the fuel. -/
def loop16 (op : Int16 → Int16 → Int16) : ℕ → M128 → List Int16 → M128 × List Int16
  | 0, v, xs => (v, xs)
  | fuel + 1, v, xs =>
    if 16 ≤ xs.length then
      loop16 op fuel (lanewise op (lanewise op v (loadu xs)) (loadu (xs.drop 8))) (xs.drop 16)
    else (v, xs)

/-- The loop over eight samples. -/
def loop8 (op : Int16 → Int16 → Int16) : ℕ → M128 → List Int16 → M128 × List Int16
  | 0, v, xs => (v, xs)
  | fuel + 1, v, xs =>
    if 8 ≤ xs.length then loop8 op fuel (lanewise op v (loadu xs)) (xs.drop 8) else (v, xs)

/-- One bound of a bucket: `op` on registers, then the horizontal reduction, then `step` on the samples left. -/
def boundSimd (op step : Int16 → Int16 → Int16) (init : Int16) (bucket : List Int16) : Int16 :=
  let r := loop16 op bucket.length (set1 init) bucket
  let r := loop8 op r.2.length r.1 r.2
  r.2.foldl step (hreduce op r.1)

def boundsSimd (bucket : List Int16) : Int16 × Int16 :=
  (boundSimd min lower Int16.maxValue bucket, boundSimd max upper Int16.minValue bucket)

/-- `Decimator::minmax` with SSE2. -/
def minmax : List Int16 → ℕ → List Int16 := minmaxWith boundsSimd

variable (op : Int16 → Int16 → Int16)

/-- Which lanes the shuffles bring together: all eight, each once. -/
theorem hreduce_eq (v : M128) :
    hreduce op v = op (op (op (v 0) (v 4)) (op (v 2) (v 6))) (op (op (v 1) (v 5)) (op (v 3) (v 7))) := rfl

theorem take_eight {xs : List Int16} (h : 8 ≤ xs.length) : xs.take 8 = List.ofFn (loadu xs) := by
  apply List.ext_getElem (by rw [List.length_take, List.length_ofFn, min_eq_left h])
  intro i hi _
  have hlt : i < xs.length := by
    rw [List.length_take] at hi
    omega
  rw [List.getElem_take, List.getElem_ofFn]
  simp [loadu, List.getElem?_eq_getElem hlt]

variable [Std.Commutative op] [Std.Associative op]

/-- Register operations commute with the horizontal reduction. -/
theorem hreduce_lanewise (v w : M128) : hreduce op (lanewise op v w) = op (hreduce op v) (hreduce op w) := by
  simp only [hreduce_eq, lanewise]
  ac_rfl

theorem foldl_take_eight {xs : List Int16} (h : 8 ≤ xs.length) (a : Int16) :
    (xs.take 8).foldl op a = op a (hreduce op (loadu xs)) := by
  have hlanes : ∀ v : M128, List.ofFn v = [v 0, v 1, v 2, v 3, v 4, v 5, v 6, v 7] := fun _ => rfl
  rw [take_eight h, hlanes, hreduce_eq]
  simp only [List.foldl_cons, List.foldl_nil]
  ac_rfl

/-- The reduction of the register, folded over the samples left, is the same before and after the loop. -/
theorem loop8_fold (fuel : ℕ) (v : M128) (xs : List Int16) :
    (loop8 op fuel v xs).2.foldl op (hreduce op (loop8 op fuel v xs).1) = xs.foldl op (hreduce op v) := by
  induction fuel generalizing v xs with
  | zero => rfl
  | succ fuel ih =>
    by_cases h : 8 ≤ xs.length
    · rw [loop8, if_pos h, ih, hreduce_lanewise, ← foldl_take_eight op h, ← List.foldl_append, List.take_append_drop]
    · rw [loop8, if_neg h]

theorem loop16_fold (fuel : ℕ) (v : M128) (xs : List Int16) :
    (loop16 op fuel v xs).2.foldl op (hreduce op (loop16 op fuel v xs).1) = xs.foldl op (hreduce op v) := by
  induction fuel generalizing v xs with
  | zero => rfl
  | succ fuel ih =>
    by_cases h : 16 ≤ xs.length
    · have h' : 8 ≤ (xs.drop 8).length := by
        rw [List.length_drop]
        omega
      rw [loop16, if_pos h, ih, hreduce_lanewise, hreduce_lanewise, ← foldl_take_eight op (by omega : 8 ≤ xs.length),
        ← foldl_take_eight op h', ← List.foldl_append, ← List.foldl_append,
        show xs.drop 16 = (xs.drop 8).drop 8 by rw [List.drop_drop], List.take_append_drop, List.take_append_drop]
    · rw [loop16, if_neg h]

theorem boundSimd_eq [Std.IdempotentOp op] (init : Int16) (bucket : List Int16) :
    boundSimd op op init bucket = bucket.foldl op init := by
  have hset : hreduce op (set1 init) = init := by
    simp only [hreduce_eq, set1, Std.IdempotentOp.idempotent]
  rw [boundSimd, loop8_fold, loop16_fold, hset]

theorem boundsSimd_eq_scalar : boundsSimd = boundsScalar := by
  funext bucket
  rw [boundsSimd, boundsScalar, lower_eq_min, upper_eq_max, boundSimd_eq, boundSimd_eq]

/-- **The SSE2 path computes what the scalar path does**, for every input and target. -/
theorem minmax_eq_scalar (input : List Int16) (target : ℕ) : minmax input target = minmaxScalar input target := by
  rw [minmax, minmaxScalar, boundsSimd_eq_scalar]

end Simd

/-! ## Largest triangle three buckets -/

section Lttb

variable (input : List Int16)

/-- `data[i]` as a number. -/
def value (i : ℕ) : ℚ := (input.getD i 0).toInt

/-- Where bucket `b` of width `bucketSize` starts; the first sample is in no bucket. -/
def lttbStart (bucketSize : ℚ) (b : ℕ) : ℕ := 1 + ⌊b * bucketSize⌋₊

/-- The samples of bucket `b`; the last one is in no bucket either. -/
def lttbBucket (bucketSize : ℚ) (b : ℕ) : List ℕ :=
  let start := lttbStart bucketSize b
  List.range' start (min (lttbStart bucketSize (b + 1)) (input.length - 1) - start)

/-- The average of the next bucket, or the last point. -/
def nextAvg (bucketSize : ℚ) (numBuckets b : ℕ) : ℚ × ℚ :=
  if b + 1 < numBuckets then
    let next := lttbBucket input bucketSize (b + 1)
    let nextStart := lttbStart bucketSize (b + 1)
    let count : ℚ := next.length
    (if count > 0 then (next.map fun i => (i : ℚ)).sum / count else nextStart,
      if count > 0 then (next.map (value input)).sum / count else value input nextStart)
  else ((input.length - 1 : ℕ), value input (input.length - 1))

/-- Twice the area of the triangle over the previous point, point `i` and the next average. -/
def area (prev : ℕ) (next : ℚ × ℚ) (i : ℕ) : ℚ :=
  let cy := value input i
  |prev * (cy - next.2) + i * (next.2 - value input prev) + next.1 * (value input prev - cy)|

/-- The first point of the bucket with the largest area. -/
def bestIdx (prev : ℕ) (next : ℚ × ℚ) (bucket : List ℕ) (bucketStart : ℕ) : ℕ :=
  (bucket.foldl
    (fun (best : ℚ × ℕ) i => if area input prev next i > best.1 then (area input prev next i, i) else best)
    (-1, bucketStart)).2

/-- The points selected in `count` buckets from bucket `b` on. -/
def lttbSelect (bucketSize : ℚ) (numBuckets : ℕ) : ℕ → ℕ → ℕ → List ℕ
  | 0, _, _ => []
  | count + 1, b, prev =>
    let best := bestIdx input prev (nextAvg input bucketSize numBuckets b) (lttbBucket input bucketSize b)
      (lttbStart bucketSize b)
    best :: lttbSelect bucketSize numBuckets count (b + 1) best

/-- `Decimator::lttb`, its arithmetic exact. -/
def lttb (target : ℕ) : List Int16 :=
  if target < 3 then []
  else if input.length ≤ target then input
  else
    let numBuckets := target - 2
    let bucketSize := ((input.length - 2 : ℕ) : ℚ) / numBuckets
    (0 :: lttbSelect input bucketSize numBuckets numBuckets 0 0 ++ [input.length - 1]).map fun i => input.getD i 0

theorem length_lttbSelect (bucketSize : ℚ) (numBuckets count b prev : ℕ) :
    (lttbSelect input bucketSize numBuckets count b prev).length = count := by
  induction count generalizing b prev with
  | zero => rfl
  | succ count ih => rw [lttbSelect, List.length_cons, ih]

/-- How many samples `lttb` leaves, whatever they are. -/
theorem length_lttb (target : ℕ) :
    (lttb input target).length =
      if target < 3 then 0 else if input.length ≤ target then input.length else target := by
  unfold lttb
  split_ifs
  · rfl
  · rfl
  · simp only [List.length_map, List.length_append, List.length_cons, List.length_nil, length_lttbSelect]
    omega

end Lttb

/-! ## The modes -/

section Modes

def passthrough (input : List Int16) : List Int16 := input

def decimate (input : List Int16) (mode : DecimationMode) (target : ℕ) : List Int16 :=
  match mode with
  | .minMax => minmax input target
  | .lttb => lttb input target
  | .none => passthrough input

end Modes

/-! ## The envelope -/

section Envelope

variable {input : List Int16} {target m b : ℕ}

theorem bucketStart_zero (n m : ℕ) : bucketStart n m 0 = 0 := by simp [bucketStart]

theorem bucketStart_le (n m b : ℕ) : bucketStart n m b ≤ bucketStart n m (b + 1) :=
  Nat.div_le_div_right (Nat.mul_le_mul_right n (Nat.le_succ b))

theorem bucketStart_last (n : ℕ) {m : ℕ} (hm : 0 < m) : bucketStart n m m = n := Nat.mul_div_cancel_left n hm

/-- With at least as many samples as buckets, no bucket is empty. -/
theorem bucketStart_lt {n m : ℕ} (hm : 0 < m) (hn : m ≤ n) (b : ℕ) : bucketStart n m b < bucketStart n m (b + 1) := by
  have hadd : (b * n + m) / m = b * n / m + 1 := Nat.add_div_right _ hm
  have hle : (b * n + m) / m ≤ (b + 1) * n / m := Nat.div_le_div_right (by rw [Nat.succ_mul]; omega)
  unfold bucketStart
  omega

theorem bucket_ne_nil (hm : 0 < target / 2) (hn : target < input.length) (hb : b < target / 2) :
    Lib.cut input (bucketStart input.length (target / 2)) b ≠ [] := by
  have hle : bucketStart input.length (target / 2) (b + 1) ≤ input.length := by
    have h := Nat.div_le_div_right (c := target / 2) (Nat.mul_le_mul_right input.length hb)
    exact h.trans (bucketStart_last _ hm).le
  have hlt := bucketStart_lt (n := input.length) hm (by omega) b
  rw [← List.length_pos_iff, Lib.length_cut hle]
  omega

/-- **The buckets of `minmax` have two lengths.** -/
theorem bucketLength_cases (n : ℕ) (hm : 0 < m) (b : ℕ) :
    bucketStart n m (b + 1) - bucketStart n m b = n / m ∨
      bucketStart n m (b + 1) - bucketStart n m b = n / m + 1 := by
  -- the remainder of `n` moves a bound by one at most
  have hstart : ∀ b, bucketStart n m b = b * (n / m) + b * (n % m) / m := by
    intro b
    have hn : b * n = b * (n % m) + m * (b * (n / m)) := by
      conv_lhs => rw [← Nat.div_add_mod n m]
      ring
    rw [bucketStart, hn, Nat.add_mul_div_left _ _ hm, Nat.add_comm]
  have hstep : (b + 1) * (n % m) / m ≤ b * (n % m) / m + 1 := by
    rw [← Nat.add_div_right _ hm, Nat.succ_mul]
    exact Nat.div_le_div_right (Nat.add_le_add_left (Nat.mod_lt n hm).le _)
  have hmono : b * (n % m) / m ≤ (b + 1) * (n % m) / m :=
    Nat.div_le_div_right (Nat.mul_le_mul_right _ (Nat.le_succ b))
  rw [hstart, hstart, Nat.succ_mul b (n / m)]
  generalize b * (n / m) = x
  generalize n / m = q
  omega

/-- The places of the two entries of a bucket, in 32 bits. -/
theorem toNat_entry {b : UInt32} (hb : b.toNat * 2 + 1 < 2 ^ 32) :
    (b * 2).toNat = b.toNat * 2 ∧ (b * 2 + 1).toNat = b.toNat * 2 + 1 := by
  have hmul : (b * 2).toNat = b.toNat * 2 := by
    rw [UInt32.toNat_mul]
    exact Nat.mod_eq_of_lt (show b.toNat * 2 < 2 ^ 32 by omega)
  refine ⟨hmul, ?_⟩
  rw [UInt32.toNat_add, hmul]
  exact Nat.mod_eq_of_lt hb

/-- The pairs of the output, as a reader of its entries finds them. -/
theorem getD_pairs (f g : ℕ → Int16) (hb : b < m) :
    ((List.range m).flatMap fun b => [f b, g b]).getD (b * 2) 0 = f b ∧
      ((List.range m).flatMap fun b => [f b, g b]).getD (b * 2 + 1) 0 = g b := by
  obtain ⟨hlo, hhi⟩ := Lib.getElem?_pairs f g hb
  rw [List.getD_eq_getElem?_getD, List.getD_eq_getElem?_getD, Nat.mul_comm, hlo, hhi]
  exact ⟨rfl, rfl⟩

/-- The bounds that `minmax` finds in a bucket are its extremes. -/
theorem boundsScalar_extremes (bucket : List Int16) (hne : bucket ≠ []) :
    bucket.minimum = (boundsScalar bucket).1 ∧ bucket.maximum = (boundsScalar bucket).2 := by
  rw [boundsScalar, lower_eq_min, upper_eq_max, List.minimum_eq_coe_iff,
    List.maximum_eq_coe_iff]
  exact ⟨⟨Lib.foldl_min_mem hne fun x _ => le_maxValue x, Lib.foldl_min_le bucket _⟩,
    Lib.foldl_max_mem hne fun x _ => minValue_le x, Lib.le_foldl_max bucket _⟩

/-- **`minmax` keeps the extremes of its input and invents no sample.** -/
theorem minmax_envelope (htarget : 2 ≤ target) : Lib.Envelope (minmax input target) input := by
  rw [minmax_eq_scalar, minmaxScalar, minmaxWith, if_neg (by omega)]
  by_cases hn : input.length ≤ target
  · rw [if_pos hn]
    exact .refl input
  · have hm : 0 < target / 2 := by omega
    rw [if_neg hn]
    have hwhole : (List.range (target / 2)).flatMap (Lib.cut input (bucketStart input.length (target / 2))) = input := by
      rw [Lib.flatMap_cut input (bucketStart_zero _ _) (bucketStart_le _ _), bucketStart_last _ hm, List.take_length]
    have hbuckets := Lib.Envelope.flatMap (l := List.range (target / 2))
      (f := fun b => [(boundsScalar (Lib.cut input (bucketStart input.length (target / 2)) b)).1,
        (boundsScalar (Lib.cut input (bucketStart input.length (target / 2)) b)).2])
      (g := Lib.cut input (bucketStart input.length (target / 2))) fun b hb => by
        rw [boundsScalar, lower_eq_min, upper_eq_max]
        exact Lib.envelope_running (bucket_ne_nil hm (by omega) (List.mem_range.mp hb)) (fun x _ => le_maxValue x)
          fun x _ => minValue_le x
    rwa [hwhole] at hbuckets

/-- How many samples `minmax` leaves, whatever they are. -/
theorem length_minmax (input : List Int16) (target : ℕ) :
    (minmax input target).length =
      if target < 2 then 0 else if input.length ≤ target then input.length else 2 * (target / 2) := by
  unfold minmax minmaxWith
  split_ifs
  · rfl
  · rfl
  · simp [List.length_flatMap, Nat.mul_comm]

/-- How many samples are left of `n`. -/
def decimatedLength (mode : DecimationMode) (target n : ℕ) : ℕ :=
  match mode with
  | .none => n
  | .minMax => if target < 2 then 0 else if n ≤ target then n else 2 * (target / 2)
  | .lttb => if target < 3 then 0 else if n ≤ target then n else target

theorem length_decimate (input : List Int16) (mode : DecimationMode) (target : ℕ) :
    (decimate input mode target).length = decimatedLength mode target input.length := by
  cases mode with
  | none => rfl
  | minMax => exact length_minmax input target
  | lttb => exact length_lttb input target

/-- No mode adds samples. -/
theorem length_decimate_le (input : List Int16) (mode : DecimationMode) (target : ℕ) :
    (decimate input mode target).length ≤ input.length := by
  rw [length_decimate]
  cases mode <;> simp only [decimatedLength]
  · exact le_rfl
  · split_ifs <;> omega
  · split_ifs <;> omega

/-- How many samples are left depends on how many there were. -/
theorem length_decimate_congr {input input' : List Int16} (h : input.length = input'.length) (mode : DecimationMode)
    (target : ℕ) : (decimate input mode target).length = (decimate input' mode target).length := by
  rw [length_decimate, length_decimate, h]

end Envelope

end Decimator

end Grebe
