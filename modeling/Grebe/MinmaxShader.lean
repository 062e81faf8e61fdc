import Mathlib.Tactic
import Grebe.Lib.Envelope
import Grebe.Lib.Tiling
import Grebe.Lib.TreeReduction
import Grebe.Decimator
import Grebe.DecimatorBounds

/-!
# Grebe.MinmaxShader — the decimation on the GPU

One workgroup of `minmax_decimate.comp` handles one bucket.  Its 256 invocations run in lock step between barriers: each
takes every 256th sample of the bucket, and the halving of the shared arrays leaves the two extremes in their first
entries.  `uint` is `UInt32`, which wraps as the shader's does; a `for` loop has fuel, and `none` says that it ran out.

* `tiles_bucketStart`: the buckets tile the samples, and no product or sum of their bounds wraps.
* `workgroup_eq`: a workgroup finds the extremes of its bucket as long as `i += 256` does not wrap.
* `strideLoop_hangs`: where it does, the first invocation starts over and never ends.
* `exact_iff`: `decimate` is the exact envelope for every number of buckets, except for a single bucket of more than
  `2 ^ 32 - 256` samples.
-/

namespace Grebe.MinmaxShader

open Grebe.Decimator (SampleVector)

/-! ## The shader -/

section Shader

/-- `base_size` -/
def baseSize (totalSamples numBuckets : UInt32) : UInt32 := totalSamples / numBuckets

/-- `remainder` -/
def remainder (totalSamples numBuckets : UInt32) : UInt32 :=
  totalSamples - baseSize totalSamples numBuckets * numBuckets

/-- `bucket_start` -/
def bucketStart (totalSamples numBuckets bucketId : UInt32) : UInt32 :=
  let r := remainder totalSamples numBuckets
  bucketId * baseSize totalSamples numBuckets + if r < bucketId then r else bucketId

/-- `bucket_size` -/
def bucketSize (totalSamples numBuckets bucketId : UInt32) : UInt32 :=
  baseSize totalSamples numBuckets + if bucketId < remainder totalSamples numBuckets then 1 else 0

/-- `for (uint i = lid; i < bucket_size; i += 256)`, from `i` on, with `local_min` and `local_max`. -/
def strideLoop (samples : List ℤ) (start size : UInt32) : ℕ → UInt32 → ℤ × ℤ → Option (ℤ × ℤ)
  | 0, _, _ => none
  | fuel + 1, i, (localMin, localMax) =>
    if i < size then
      let idx := start + i
      let val := samples.getD idx.toNat 0
      strideLoop samples start size fuel (i + 256) (min localMin val, max localMax val)
    else some (localMin, localMax)

/-- The values of `i` for which the body of that loop runs. -/
def visited (size : UInt32) : ℕ → UInt32 → List UInt32
  | 0, _ => []
  | fuel + 1, i => if i < size then i :: visited size fuel (i + 256) else []

/-- What invocation `lid` has at the first barrier. -/
def invocation (samples : List ℤ) (start size : UInt32) (fuel lid : ℕ) : Option (ℤ × ℤ) :=
  strideLoop samples start size fuel lid.toUInt32 (32767, -32768)

/-- A workgroup: what its first invocation writes once all have passed the barriers. -/
def workgroup (samples : List ℤ) (totalSamples numBuckets : UInt32) (fuel : ℕ) (bucketId : UInt32) : Option (ℤ × ℤ) :=
  let start := bucketStart totalSamples numBuckets bucketId
  let size := bucketSize totalSamples numBuckets bucketId
  if (List.range 256).all fun lid => (invocation samples start size fuel lid).isSome then
    let sMin := fun lid => ((invocation samples start size fuel lid).getD (0, 0)).1
    let sMax := fun lid => ((invocation samples start size fuel lid).getD (0, 0)).2
    some (Lib.treeReduce min 128 sMin 0, Lib.treeReduce max 128 sMax 0)
  else none

/-- The workgroups of a dispatch, one after the other in any order; each writes its two entries of `result`. -/
def dispatch (samples : List ℤ) (totalSamples numBuckets : UInt32) (fuel : ℕ) :
    List UInt32 → (UInt32 → ℤ) → Option (UInt32 → ℤ)
  | [], result => some result
  | bucketId :: order, result =>
    if bucketId ≥ numBuckets then dispatch samples totalSamples numBuckets fuel order result
    else
      (workgroup samples totalSamples numBuckets fuel bucketId).bind fun r =>
        dispatch samples totalSamples numBuckets fuel order
          (Function.update (Function.update result (bucketId * 2) r.1) (bucketId * 2 + 1) r.2)

end Shader

/-! ## The call -/

section Call

/-- `ComputeDecimator::decimate`; `result` is what the output buffer held before. -/
def decimate (rawSamples : SampleVector) (numBuckets : UInt32) (fuel : ℕ) (order : List UInt32) (result : UInt32 → ℤ) :
    Option (List Int16) :=
  if rawSamples.data = [] ∨ numBuckets = 0 then some []
  else
    let samples := rawSamples.data.map Int16.toInt
    (dispatch samples rawSamples.size.toUInt32 numBuckets fuel order result).map fun result =>
      (List.range (numBuckets * 2).toNat).map fun i => Int16.ofInt (result i.toUInt32)

/-- The workgroups that a dispatch starts. -/
def IsDispatchOrder (numBuckets : UInt32) (order : List UInt32) : Prop :=
  order.Perm ((List.range numBuckets.toNat).map Nat.toUInt32)

end Call

/-! ## The bounds of the buckets -/

section Bounds

variable {totalSamples numBuckets bucketId : UInt32} {n m b : ℕ}

/-- Where bucket `b` of `m` starts, without a bound on the numbers. -/
def startNat (n m b : ℕ) : ℕ := b * (n / m) + min b (n % m)

/-- **The buckets tile the samples.** -/
theorem tiles_startNat (hm : 0 < m) (hmn : m ≤ n) : Lib.Tiles (startNat n m) m 0 n where
  first := by simp [startNat]
  last := by
    rw [startNat, Nat.min_eq_right (Nat.mod_lt n hm).le]
    exact Nat.div_add_mod n m
  lt b _ := by
    have hbase : 0 < n / m := Nat.div_pos hmn hm
    rw [startNat, startNat, Nat.succ_mul]
    omega

theorem startNat_succ (n m b : ℕ) : startNat n m (b + 1) = startNat n m b + (n / m + if b < n % m then 1 else 0) := by
  rw [startNat, startNat, Nat.succ_mul]
  split_ifs <;> omega

/-- The largest bucket is the first one. -/
theorem mul_baseSize_le (hb : b ≤ m) : b * (n / m) ≤ n :=
  (Nat.mul_le_mul_right _ hb).trans (Nat.mul_div_le n m)

theorem baseSize_toNat : (baseSize totalSamples numBuckets).toNat = totalSamples.toNat / numBuckets.toNat :=
  UInt32.toNat_div ..

theorem remainder_toNat : (remainder totalSamples numBuckets).toNat = totalSamples.toNat % numBuckets.toNat := by
  have hn := totalSamples.toNat_lt
  have hmul : (baseSize totalSamples numBuckets * numBuckets).toNat =
      totalSamples.toNat / numBuckets.toNat * numBuckets.toNat := by
    rw [UInt32.toNat_mul, baseSize_toNat, Nat.mod_eq_of_lt]
    exact (Nat.div_mul_le_self _ _).trans_lt hn
  have hle : baseSize totalSamples numBuckets * numBuckets ≤ totalSamples := by
    rw [UInt32.le_iff_toNat_le, hmul]
    exact Nat.div_mul_le_self _ _
  rw [remainder, UInt32.toNat_sub_of_le _ _ hle, hmul, Nat.mod_eq_sub_div_mul]

theorem bucketStart_toNat (hm : 0 < numBuckets.toNat) (hb : bucketId.toNat ≤ numBuckets.toNat)
    (hmn : numBuckets.toNat ≤ totalSamples.toNat) :
    (bucketStart totalSamples numBuckets bucketId).toNat =
      startNat totalSamples.toNat numBuckets.toNat bucketId.toNat := by
  have hn := totalSamples.toNat_lt
  have hmul := mul_baseSize_le (n := totalSamples.toNat) hb
  have hle := (tiles_startNat hm hmn).le_hi hb
  have hmin : (if remainder totalSamples numBuckets < bucketId then remainder totalSamples numBuckets
      else bucketId).toNat = min bucketId.toNat (totalSamples.toNat % numBuckets.toNat) := by
    rw [← remainder_toNat]
    split_ifs with h
    · rw [UInt32.lt_iff_toNat_lt] at h
      omega
    · rw [UInt32.lt_iff_toNat_lt] at h
      omega
  unfold startNat at hle ⊢
  rw [bucketStart, UInt32.toNat_add, UInt32.toNat_mul, hmin, baseSize_toNat, Nat.mod_eq_of_lt (by omega), Nat.mod_eq_of_lt (by omega)]

theorem bucketSize_toNat (hm : 0 < numBuckets.toNat) (hb : bucketId.toNat < numBuckets.toNat)
    (hmn : numBuckets.toNat ≤ totalSamples.toNat) :
    (bucketSize totalSamples numBuckets bucketId).toNat =
      startNat totalSamples.toNat numBuckets.toNat (bucketId.toNat + 1) -
        startNat totalSamples.toNat numBuckets.toNat bucketId.toNat := by
  have hn := totalSamples.toNat_lt
  have hle := (tiles_startNat hm hmn).le_hi (show bucketId.toNat + 1 ≤ numBuckets.toNat from hb)
  rw [startNat_succ] at hle ⊢
  rw [bucketSize, UInt32.toNat_add, baseSize_toNat, Nat.add_sub_cancel_left, apply_ite UInt32.toNat]
  have hiff : bucketId < remainder totalSamples numBuckets ↔
      bucketId.toNat < totalSamples.toNat % numBuckets.toNat := by
    rw [UInt32.lt_iff_toNat_lt, remainder_toNat]
  simp only [hiff]
  change (_ + if _ then 1 else 0) % 2 ^ 32 = _
  rw [Nat.mod_eq_of_lt (by omega)]

end Bounds

/-! ## The loop of an invocation -/

section Loop

variable {samples : List ℤ} {start size i : UInt32} {fuel k : ℕ}

theorem toNat_toUInt32 {n : ℕ} (h : n < 2 ^ 32) : n.toUInt32.toNat = n := UInt32.toNat_ofNat_of_lt' h

theorem toNat_add_stride (h : i.toNat + 256 < 2 ^ 32) : (i + 256).toNat = i.toNat + 256 := by
  rw [UInt32.toNat_add]
  exact Nat.mod_eq_of_lt h

/-- As long as `i += 256` does not wrap, the loop ends and folds the samples that it has visited. -/
theorem strideLoop_eq (hsize : size.toNat ≤ 2 ^ 32 - 256) (hk : size.toNat ≤ i.toNat + 256 * k) (r : ℤ × ℤ) :
    strideLoop samples start size (k + 1) i r =
      some (((visited size (k + 1) i).map fun i => samples.getD (start + i).toNat 0).foldl min r.1,
        ((visited size (k + 1) i).map fun i => samples.getD (start + i).toNat 0).foldl max r.2) := by
  induction k generalizing i r with
  | zero =>
    have hlt : ¬i < size := by
      rw [UInt32.lt_iff_toNat_lt]
      omega
    rw [strideLoop, if_neg hlt, visited, if_neg hlt]
    rfl
  | succ k ih =>
    by_cases hlt : i < size
    · have hlt' := UInt32.lt_iff_toNat_lt.mp hlt
      have hnext := toNat_add_stride (show i.toNat + 256 < 2 ^ 32 by omega)
      rw [strideLoop, if_pos hlt, visited, if_pos hlt]
      exact ih (by omega) _
    · rw [strideLoop, if_neg hlt, visited, if_neg hlt]
      rfl

/-- An invocation visits every 256th place from its own number on. -/
theorem mem_visited (hsize : size.toNat ≤ 2 ^ 32 - 256) (hk : size.toNat ≤ i.toNat + 256 * k) (j : UInt32) :
    j ∈ visited size (k + 1) i ↔ j.toNat < size.toNat ∧ ∃ q, j.toNat = i.toNat + 256 * q := by
  induction k generalizing i with
  | zero =>
    have hlt : ¬i < size := by
      rw [UInt32.lt_iff_toNat_lt]
      omega
    rw [visited, if_neg hlt]
    apply iff_of_false List.not_mem_nil
    rintro ⟨hj, q, hq⟩
    omega
  | succ k ih =>
    by_cases hlt : i < size
    · have hlt' := UInt32.lt_iff_toNat_lt.mp hlt
      have hnext := toNat_add_stride (show i.toNat + 256 < 2 ^ 32 by omega)
      rw [visited, if_pos hlt, List.mem_cons, ih (by omega), hnext]
      constructor
      · rintro (rfl | ⟨hj, q, hq⟩)
        · exact ⟨hlt', 0, by omega⟩
        · exact ⟨hj, q + 1, by omega⟩
      · rintro ⟨hj, q, hq⟩
        rcases Nat.eq_zero_or_pos q with rfl | hpos
        · exact .inl (UInt32.toNat_inj.mp (by omega))
        · exact .inr ⟨hj, q - 1, by omega⟩
    · rw [visited, if_neg hlt]
      rw [UInt32.lt_iff_toNat_lt] at hlt
      apply iff_of_false List.not_mem_nil
      rintro ⟨hj, q, hq⟩
      omega

theorem lt_of_mem_visited {j : UInt32} (h : j ∈ visited size fuel i) : j.toNat < size.toNat := by
  induction fuel generalizing i with
  | zero => exact absurd h List.not_mem_nil
  | succ fuel ih =>
    unfold visited at h
    split_ifs at h with hlt
    · obtain rfl | h := List.mem_cons.mp h
      · exact UInt32.lt_iff_toNat_lt.mp hlt
      · exact ih h
    · exact absurd h List.not_mem_nil

/-- **Where `i += 256` wraps, the first invocation never ends**: from `2 ^ 32 - 256` on it starts over. -/
theorem strideLoop_hangs (hsize : 2 ^ 32 - 256 < size.toNat) (hi : i.toNat % 256 = 0) (fuel : ℕ) (r : ℤ × ℤ) :
    strideLoop samples start size fuel i r = none := by
  induction fuel generalizing i r with
  | zero => rfl
  | succ fuel ih =>
    have hlt := i.toNat_lt
    have hbody : i < size := by
      rw [UInt32.lt_iff_toNat_lt]
      omega
    rw [strideLoop, if_pos hbody]
    refine ih ?_ _
    rw [UInt32.toNat_add]
    change (i.toNat + 256) % 2 ^ 32 % 256 = 0
    omega

end Loop

/-! ## A workgroup -/

section Workgroup

variable {samples : List ℤ} {start size totalSamples numBuckets bucketId : UInt32} {k lid : ℕ} {v : ℤ}

/-- The samples of an invocation are those of the bucket at its places. -/
theorem mem_lane (hsize : size.toNat ≤ 2 ^ 32 - 256) (hk : size.toNat ≤ 256 * k)
    (hin : start.toNat + size.toNat ≤ samples.length) (hlength : samples.length < 2 ^ 32) (hlid : lid < 256) :
    v ∈ (visited size (k + 1) lid.toUInt32).map (fun i => samples.getD (start + i).toNat 0) ↔
      ∃ j < size.toNat, j % 256 = lid ∧ samples[start.toNat + j]? = some v := by
  have hlid' : lid.toUInt32.toNat = lid := toNat_toUInt32 (by omega)
  have hread : ∀ j : UInt32, j.toNat < size.toNat →
      samples[start.toNat + j.toNat]? = some (samples.getD (start + j).toNat 0) := by
    intro j hj
    rw [UInt32.toNat_add, Nat.mod_eq_of_lt (by omega), List.getD_eq_getElem?_getD,
      List.getElem?_eq_getElem (by omega), Option.getD_some]
  rw [List.mem_map]
  constructor
  · rintro ⟨j, hj, rfl⟩
    obtain ⟨hlt, q, hq⟩ := (mem_visited hsize (by omega) j).mp hj
    exact ⟨j.toNat, hlt, by omega, hread j hlt⟩
  · rintro ⟨j, hlt, hmod, hv⟩
    have hj : j.toUInt32.toNat = j := toNat_toUInt32 (by omega)
    refine ⟨j.toUInt32, (mem_visited hsize (by omega) _).mpr ⟨by omega, j / 256, by omega⟩, ?_⟩
    have := hread j.toUInt32 (by omega)
    rw [hj, hv] at this
    exact (Option.some_inj.mp this).symm

/-- The samples of the bucket. -/
def bucketValues (samples : List ℤ) (start size : UInt32) : List ℤ := (samples.drop start.toNat).take size.toNat

theorem mem_bucketValues :
    v ∈ bucketValues samples start size ↔ ∃ j < size.toNat, samples[start.toNat + j]? = some v := by
  simp only [bucketValues, List.mem_iff_getElem?, List.getElem?_take, List.getElem?_drop]
  constructor
  · rintro ⟨j, hj⟩
    split_ifs at hj with hlt
    exact ⟨j, hlt, hj⟩
  · rintro ⟨j, hlt, hj⟩
    exact ⟨j, by rw [if_pos hlt, hj]⟩

/-- The samples of invocation `lid`. -/
def lane (samples : List ℤ) (start size : UInt32) (k lid : ℕ) : List ℤ :=
  (visited size (k + 1) lid.toUInt32).map fun i => samples.getD (start + i).toNat 0

/-- **A workgroup finds the running extremes of its bucket.** -/
theorem workgroup_eq (hsize : (bucketSize totalSamples numBuckets bucketId).toNat ≤ 2 ^ 32 - 256)
    (hk : (bucketSize totalSamples numBuckets bucketId).toNat ≤ 256 * k)
    (hin : (bucketStart totalSamples numBuckets bucketId).toNat + (bucketSize totalSamples numBuckets bucketId).toNat ≤
      samples.length) (hlength : samples.length < 2 ^ 32) :
    workgroup samples totalSamples numBuckets (k + 1) bucketId =
      some ((bucketValues samples (bucketStart totalSamples numBuckets bucketId)
          (bucketSize totalSamples numBuckets bucketId)).foldl min 32767,
        (bucketValues samples (bucketStart totalSamples numBuckets bucketId)
          (bucketSize totalSamples numBuckets bucketId)).foldl max (-32768)) := by
  unfold workgroup
  generalize bucketStart totalSamples numBuckets bucketId = start at hin
  generalize bucketSize totalSamples numBuckets bucketId = size at hsize hk hin
  have hloop : ∀ lid, invocation samples start size (k + 1) lid =
      some ((lane samples start size k lid).foldl min 32767, (lane samples start size k lid).foldl max (-32768)) :=
    fun lid => strideLoop_eq hsize (by omega) _
  have hsub : ∀ lid < 2 ^ (7 + 1), lane samples start size k lid ⊆ bucketValues samples start size := by
    intro lid hlid v hv
    obtain ⟨j, hj, -, hread⟩ := (mem_lane hsize hk hin hlength hlid).mp hv
    exact mem_bucketValues.mpr ⟨j, hj, hread⟩
  have hcover : ∀ v ∈ bucketValues samples start size, ∃ lid < 2 ^ (7 + 1), v ∈ lane samples start size k lid := by
    intro v hv
    obtain ⟨j, hj, hread⟩ := mem_bucketValues.mp hv
    have hlid : j % 256 < 256 := Nat.mod_lt j (by decide)
    exact ⟨j % 256, hlid, (mem_lane hsize hk hin hlength hlid).mpr ⟨j, hj, rfl, hread⟩⟩
  have hall : ((List.range 256).all fun lid => (invocation samples start size (k + 1) lid).isSome) = true := by
    rw [List.all_eq_true]
    intro lid _
    rw [hloop]
    rfl
  dsimp only
  rw [if_pos hall]
  simp only [hloop, Option.getD_some]
  rw [← Lib.treeReduce_min_lanes 7 32767 hsub hcover, ← Lib.treeReduce_max_lanes 7 (-32768) hsub hcover]
  rfl

end Workgroup

/-! ## A dispatch -/

section Dispatch

variable {samples : List ℤ} {totalSamples numBuckets : UInt32} {fuel : ℕ} {order : List UInt32}
  {f : UInt32 → ℤ × ℤ} {b b' : UInt32}

/-- Each workgroup writes its own two entries, whatever the order. -/
theorem dispatch_eq (hrun : ∀ b ∈ order, b < numBuckets ∧ workgroup samples totalSamples numBuckets fuel b = some (f b))
    (hnodup : order.Nodup) (hentry : ∀ b ∈ order, b.toNat * 2 + 1 < 2 ^ 32) (result : UInt32 → ℤ) :
    ∃ result', dispatch samples totalSamples numBuckets fuel order result = some result' ∧
      (∀ b ∈ order, result' (b * 2) = (f b).1 ∧ result' (b * 2 + 1) = (f b).2) ∧
      ∀ key, (∀ b ∈ order, key ≠ b * 2 ∧ key ≠ b * 2 + 1) → result' key = result key := by
  induction order generalizing result with
  | nil => exact ⟨result, rfl, fun b hb => absurd hb List.not_mem_nil, fun _ _ => rfl⟩
  | cons b order ih =>
    obtain ⟨hb, hgroup⟩ := hrun b List.mem_cons_self
    obtain ⟨hnotin, hnodup⟩ := List.nodup_cons.mp hnodup
    obtain ⟨result', hdispatch, hwritten, hkept⟩ :=
      ih (fun b' hb' => hrun b' (List.mem_cons_of_mem _ hb')) hnodup
        (fun b' hb' => hentry b' (List.mem_cons_of_mem _ hb'))
        (Function.update (Function.update result (b * 2) (f b).1) (b * 2 + 1) (f b).2)
    obtain ⟨heven, hodd⟩ := Decimator.toNat_entry (hentry b List.mem_cons_self)
    have hne : b * 2 ≠ b * 2 + 1 := by
      intro h
      have := congrArg UInt32.toNat h
      omega
    -- the entries of the other workgroups are different ones
    have hother : ∀ b' ∈ order, ∀ key, key = b * 2 ∨ key = b * 2 + 1 → key ≠ b' * 2 ∧ key ≠ b' * 2 + 1 := by
      intro b' hb' key hkey
      obtain ⟨heven', hodd'⟩ := Decimator.toNat_entry (hentry b' (List.mem_cons_of_mem _ hb'))
      have hbb : b.toNat ≠ b'.toNat := fun h => hnotin (UInt32.toNat_inj.mp h ▸ hb')
      have hkey' : key.toNat = b.toNat * 2 ∨ key.toNat = b.toNat * 2 + 1 := by
        obtain rfl | rfl := hkey
        · exact .inl heven
        · exact .inr hodd
      constructor
      · rintro rfl
        omega
      · rintro rfl
        omega
    refine ⟨result', ?_, ?_, ?_⟩
    · rw [dispatch, if_neg (UInt32.not_le.mpr hb), hgroup, Option.bind_some, hdispatch]
    · intro b' hb'
      obtain rfl | hb' := List.mem_cons.mp hb'
      · rw [hkept _ fun b'' hb'' => hother b'' hb'' _ (.inl rfl), hkept _ fun b'' hb'' => hother b'' hb'' _ (.inr rfl),
          Function.update_self, Function.update_of_ne hne, Function.update_self]
        exact ⟨rfl, rfl⟩
      · exact hwritten b' hb'
    · intro key hkey
      obtain ⟨hkeven, hkodd⟩ := hkey b List.mem_cons_self
      rw [hkept key fun b' hb' => hkey b' (List.mem_cons_of_mem _ hb'), Function.update_of_ne hkodd,
        Function.update_of_ne hkeven]

/-- One workgroup that hangs is enough. -/
theorem dispatch_none (hb : b ∈ order) (hlt : b < numBuckets)
    (hgroup : workgroup samples totalSamples numBuckets fuel b = none) (result : UInt32 → ℤ) :
    dispatch samples totalSamples numBuckets fuel order result = none := by
  induction order generalizing result with
  | nil => exact absurd hb List.not_mem_nil
  | cons b' order ih =>
    unfold dispatch
    obtain rfl | hb := List.mem_cons.mp hb
    · rw [if_neg (UInt32.not_le.mpr hlt), hgroup]
      rfl
    · split_ifs
      · exact ih hb result
      · cases workgroup samples totalSamples numBuckets fuel b' with
        | none => rfl
        | some r => exact ih hb _

end Dispatch

/-! ## The envelope -/

section Envelope

open Grebe.Decimator (boundsScalar span lower_eq_min upper_eq_max span_extremes minmaxScalar64 minmaxScalar64_refines
  minmax_eq_scalar length_minmax minmax_envelope)

variable {input : SampleVector} {numBuckets : UInt32}

theorem toInt_min (a b : Int16) : (min a b).toInt = min a.toInt b.toInt := by
  rcases le_total a b with h | h
  · rw [min_eq_left h, min_eq_left (Int16.le_iff_toInt_le.mp h)]
  · rw [min_eq_right h, min_eq_right (Int16.le_iff_toInt_le.mp h)]

theorem toInt_max (a b : Int16) : (max a b).toInt = max a.toInt b.toInt := by
  rcases le_total a b with h | h
  · rw [max_eq_right h, max_eq_right (Int16.le_iff_toInt_le.mp h)]
  · rw [max_eq_left h, max_eq_left (Int16.le_iff_toInt_le.mp h)]

/-- The extremes are the same before and after the conversion to `int`. -/
theorem boundsScalar_toInt (bucket : List Int16) :
    (bucket.map Int16.toInt).foldl min 32767 = (boundsScalar bucket).1.toInt ∧
      (bucket.map Int16.toInt).foldl max (-32768) = (boundsScalar bucket).2.toInt := by
  have hmin : ∀ (xs : List Int16) (a : Int16), (xs.map Int16.toInt).foldl min a.toInt = (xs.foldl min a).toInt := by
    intro xs
    induction xs with
    | nil => exact fun a => rfl
    | cons x xs ih =>
      intro a
      rw [List.map_cons, List.foldl_cons, ← toInt_min, ih, List.foldl_cons]
  have hmax : ∀ (xs : List Int16) (a : Int16), (xs.map Int16.toInt).foldl max a.toInt = (xs.foldl max a).toInt := by
    intro xs
    induction xs with
    | nil => exact fun a => rfl
    | cons x xs ih =>
      intro a
      rw [List.map_cons, List.foldl_cons, ← toInt_max, ih, List.foldl_cons]
  rw [boundsScalar, lower_eq_min, upper_eq_max]
  exact ⟨hmin bucket Int16.maxValue, hmax bucket Int16.minValue⟩

/-- The largest bucket is short enough for `i += 256` unless it is the only one. -/
theorem bucketSize_le {totalSamples bucketId : UInt32} (hm : 2 * numBuckets.toNat < totalSamples.toNat)
    (hb : bucketId.toNat < numBuckets.toNat) (h : numBuckets ≠ 1 ∨ totalSamples.toNat ≤ 2 ^ 32 - 256) :
    (bucketSize totalSamples numBuckets bucketId).toNat ≤ 2 ^ 32 - 256 := by
  have hn := totalSamples.toNat_lt
  rw [bucketSize_toNat (by omega) hb (by omega), startNat_succ, Nat.add_sub_cancel_left]
  rcases Nat.lt_or_ge numBuckets.toNat 2 with hone | htwo
  · have hone' : numBuckets.toNat = 1 := by omega
    have hshort : totalSamples.toNat ≤ 2 ^ 32 - 256 := by
      refine h.resolve_left fun hne => hne ?_
      exact UInt32.toNat_inj.mp hone'
    rw [hone', Nat.div_one, Nat.mod_one]
    simpa using hshort
  · have hhalf : totalSamples.toNat / numBuckets.toNat ≤ totalSamples.toNat / 2 := Nat.div_le_div_left htwo (by decide)
    split_ifs <;> omega

/-- No index computation of the workgroup wraps. -/
structure NoWrap (totalSamples numBuckets bucketId : UInt32) : Prop where
  remainder_sub : (baseSize totalSamples numBuckets).toNat * numBuckets.toNat ≤ totalSamples.toNat
  start_mul : bucketId.toNat * (baseSize totalSamples numBuckets).toNat < 2 ^ 32
  start_add : bucketId.toNat * (baseSize totalSamples numBuckets).toNat +
    min bucketId.toNat (remainder totalSamples numBuckets).toNat < 2 ^ 32
  size_add : (baseSize totalSamples numBuckets).toNat +
    (if bucketId < remainder totalSamples numBuckets then 1 else 0) < 2 ^ 32
  /-- `bucket_start + i`, which is also the place of a sample -/
  idx_add : ∀ fuel, ∀ lid < 256, ∀ i ∈ visited (bucketSize totalSamples numBuckets bucketId) fuel lid.toUInt32,
    (bucketStart totalSamples numBuckets bucketId).toNat + i.toNat < totalSamples.toNat
  /-- `i += 256` -/
  stride_add : ∀ fuel, ∀ lid < 256, ∀ i ∈ visited (bucketSize totalSamples numBuckets bucketId) fuel lid.toUInt32,
    i.toNat + 256 < 2 ^ 32
  /-- `lid + stride`, which is also the place of a shared entry -/
  shared_add : ∀ stride ≤ 128, ∀ lid < stride, lid + stride < 256
  /-- `bucket_id * 2 + 1` -/
  entry_add : bucketId.toNat * 2 + 1 < 2 ^ 32

/-- Where bucket `b` starts, for a call with these samples. -/
def start (input : SampleVector) (numBuckets : UInt32) (b : ℕ) : ℕ :=
  (bucketStart input.size.toUInt32 numBuckets b.toUInt32).toNat

/-- What `decimate` promises: an exact envelope that agrees with the one of the CPU on the size and the extremes. -/
structure Exact (input : SampleVector) (numBuckets : UInt32) : Prop where
  noWrap : ∀ bucketId < numBuckets, NoWrap input.size.toUInt32 numBuckets bucketId
  tiles : numBuckets ≠ 0 → Lib.Tiles (start input numBuckets) numBuckets.toNat 0 input.size
  sizes : ∀ b < numBuckets.toNat,
    let size := (bucketSize input.size.toUInt32 numBuckets b.toUInt32).toNat
    start input numBuckets b + size = start input numBuckets (b + 1) ∧
      (size = input.size / numBuckets.toNat ∨ size = input.size / numBuckets.toNat + 1)
  output : ∃ fuel output cpu,
    (∀ order result, IsDispatchOrder numBuckets order → decimate input numBuckets fuel order result = some output) ∧
      Lib.PairEnvelope input.data output (start input numBuckets) numBuckets.toNat ∧
      minmaxScalar64 input (numBuckets * 2) = some cpu ∧ output.length = cpu.length ∧
      output.minimum = cpu.minimum ∧ output.maximum = cpu.maximum

theorem mem_order {order : List UInt32} (h : IsDispatchOrder numBuckets order) (b : UInt32) :
    b ∈ order ↔ b < numBuckets := by
  have hlt := numBuckets.toNat_lt
  rw [h.mem_iff, List.mem_map, UInt32.lt_iff_toNat_lt]
  constructor
  · rintro ⟨k, hk, rfl⟩
    have hk := List.mem_range.mp hk
    rwa [toNat_toUInt32 (by omega)]
  · intro hb
    exact ⟨b.toNat, List.mem_range.mpr hb, UInt32.toNat_inj.mp (toNat_toUInt32 (by omega))⟩

theorem nodup_order {order : List UInt32} (h : IsDispatchOrder numBuckets order) : order.Nodup := by
  have hlt := numBuckets.toNat_lt
  rw [h.nodup_iff]
  apply List.nodup_range.map_on
  intro k hk k' hk' heq
  have hk := List.mem_range.mp hk
  have hk' := List.mem_range.mp hk'
  have := congrArg UInt32.toNat heq
  rwa [toNat_toUInt32 (by omega), toNat_toUInt32 (by omega)] at this

theorem start_eq (hn : input.size < 2 ^ 32) (hm : 2 * numBuckets.toNat < input.size) (hpos : 0 < numBuckets.toNat)
    {b : ℕ} (hb : b ≤ numBuckets.toNat) : start input numBuckets b = startNat input.size numBuckets.toNat b := by
  have hlt := numBuckets.toNat_lt
  have hsize : input.size.toUInt32.toNat = input.size := toNat_toUInt32 hn
  have hb' : b.toUInt32.toNat = b := toNat_toUInt32 (by omega)
  rw [start, bucketStart_toNat hpos (by omega) (by omega), hsize, hb']

theorem size_eq (hn : input.size < 2 ^ 32) (hm : 2 * numBuckets.toNat < input.size) {b : ℕ}
    (hb : b < numBuckets.toNat) :
    (bucketSize input.size.toUInt32 numBuckets b.toUInt32).toNat =
      startNat input.size numBuckets.toNat (b + 1) - startNat input.size numBuckets.toNat b := by
  have hlt := numBuckets.toNat_lt
  have hsize : input.size.toUInt32.toNat = input.size := toNat_toUInt32 hn
  have hb' : b.toUInt32.toNat = b := toNat_toUInt32 (by omega)
  rw [bucketSize_toNat (by omega) (by omega) (by omega), hsize, hb']

theorem tiles_start (hn : input.size < 2 ^ 32) (hm : 2 * numBuckets.toNat < input.size) (hpos : 0 < numBuckets.toNat) :
    Lib.Tiles (start input numBuckets) numBuckets.toNat 0 input.size :=
  (tiles_startNat hpos (by omega)).congr fun _ hb => start_eq hn hm hpos hb

/-- The bucket of a workgroup goes up to the start of the next one. -/
theorem bucket_call (hn : input.size < 2 ^ 32) (hm : 2 * numBuckets.toNat < input.size) {b : UInt32}
    (hb : b < numBuckets) :
    (bucketStart input.size.toUInt32 numBuckets b).toNat = start input numBuckets b.toNat ∧
      (bucketSize input.size.toUInt32 numBuckets b).toNat =
        start input numBuckets (b.toNat + 1) - start input numBuckets b.toNat := by
  have hb' := UInt32.lt_iff_toNat_lt.mp hb
  have hround : b.toNat.toUInt32 = b := UInt32.toNat_inj.mp (toNat_toUInt32 b.toNat_lt)
  constructor
  · rw [start, hround]
  · rw [start_eq hn hm (by omega) hb', start_eq hn hm (by omega) hb'.le, ← size_eq hn hm hb', hround]

/-- One workgroup, for a call. -/
theorem workgroup_call (hn : input.size < 2 ^ 32) (hm : 2 * numBuckets.toNat < input.size)
    (h : numBuckets ≠ 1 ∨ input.size ≤ 2 ^ 32 - 256) {b : UInt32} (hb : b < numBuckets) :
    workgroup (input.data.map Int16.toInt) input.size.toUInt32 numBuckets (2 ^ 24 + 1) b =
      some ((boundsScalar (span input.data (start input numBuckets b.toNat) (start input numBuckets (b.toNat + 1)))).1.toInt,
        (boundsScalar (span input.data (start input numBuckets b.toNat)
          (start input numBuckets (b.toNat + 1)))).2.toInt) := by
  have hb' := UInt32.lt_iff_toNat_lt.mp hb
  have hsize : input.size.toUInt32.toNat = input.size := toNat_toUInt32 hn
  have hlength : (input.data.map Int16.toInt).length = input.size := List.length_map ..
  have hle := bucketSize_le (by rwa [hsize]) hb' (by rwa [hsize])
  have htiles := tiles_start hn hm (by omega)
  have hlast := htiles.le_hi (show b.toNat + 1 ≤ numBuckets.toNat from hb')
  have hlt := htiles.lt b.toNat hb'
  obtain ⟨hstart, hbucket⟩ := bucket_call hn hm hb
  have hvalues : bucketValues (input.data.map Int16.toInt) (bucketStart input.size.toUInt32 numBuckets b)
      (bucketSize input.size.toUInt32 numBuckets b) =
        (span input.data (start input numBuckets b.toNat) (start input numBuckets (b.toNat + 1))).map Int16.toInt := by
    rw [bucketValues, span, hstart, hbucket, List.map_take, List.map_drop]
  rw [workgroup_eq hle (by omega) (by rw [hstart, hbucket, hlength]; omega) (by omega), hvalues,
    (boundsScalar_toInt _).1, (boundsScalar_toInt _).2]

/-- **What a call returns**, in whatever order the workgroups run. -/
theorem decimate_eq (hn : input.size < 2 ^ 32) (hm : 2 * numBuckets.toNat < input.size) (hpos : 0 < numBuckets.toNat)
    (h : numBuckets ≠ 1 ∨ input.size ≤ 2 ^ 32 - 256) {order : List UInt32} (horder : IsDispatchOrder numBuckets order)
    (result : UInt32 → ℤ) :
    decimate input numBuckets (2 ^ 24 + 1) order result = some ((List.range numBuckets.toNat).flatMap fun b =>
      [(boundsScalar (span input.data (start input numBuckets b) (start input numBuckets (b + 1)))).1,
        (boundsScalar (span input.data (start input numBuckets b) (start input numBuckets (b + 1)))).2]) := by
  have hlt := numBuckets.toNat_lt
  have hsome : ¬(input.data = [] ∨ numBuckets = 0) := by
    rintro (hnil | rfl)
    · have hzero : input.size = 0 := by rw [SampleVector.size, hnil, List.length_nil]
      omega
    · exact absurd hpos (by decide)
  have hentry : ∀ b ∈ order, b.toNat * 2 + 1 < 2 ^ 32 := by
    intro b hb
    have := UInt32.lt_iff_toNat_lt.mp ((mem_order horder b).mp hb)
    omega
  obtain ⟨result', hdispatch, hwritten, -⟩ := dispatch_eq
    (fun b hb => ⟨(mem_order horder b).mp hb, workgroup_call hn hm h ((mem_order horder b).mp hb)⟩)
    (nodup_order horder) hentry result
  have hcount : (numBuckets * 2).toNat = 2 * numBuckets.toNat := by
    rw [UInt32.toNat_mul, Nat.mul_comm]
    exact Nat.mod_eq_of_lt (show 2 * numBuckets.toNat < 2 ^ 32 by omega)
  rw [decimate, if_neg hsome]
  dsimp only
  rw [hdispatch, Option.map_some, hcount, Lib.map_range_pairs]
  congr 1
  apply List.flatMap_congr
  intro b hb
  have hb := List.mem_range.mp hb
  have hb' : b.toUInt32.toNat = b := toNat_toUInt32 (by omega)
  obtain ⟨heven, hodd⟩ := Decimator.toNat_entry (b := b.toUInt32) (by omega)
  have hkey : (2 * b).toUInt32 = b.toUInt32 * 2 := by
    rw [← UInt32.toNat_inj, toNat_toUInt32 (by omega), heven, hb', Nat.mul_comm]
  have hkey' : (2 * b + 1).toUInt32 = b.toUInt32 * 2 + 1 := by
    rw [← UInt32.toNat_inj, toNat_toUInt32 (by omega), hodd, hb', Nat.mul_comm]
  obtain ⟨hlo, hhi⟩ := hwritten b.toUInt32 ((mem_order horder _).mpr (UInt32.lt_iff_toNat_lt.mpr (by omega)))
  rw [hkey, hkey', hlo, hhi, hb', Int16.ofInt_toInt, Int16.ofInt_toInt]

/-- **A single bucket that is too long**: the first invocation never ends, and neither does the call. -/
theorem decimate_hangs (hn : input.size < 2 ^ 32) (hlong : 2 ^ 32 - 256 < input.size) (fuel : ℕ) {order : List UInt32}
    (horder : IsDispatchOrder 1 order) (result : UInt32 → ℤ) : decimate input 1 fuel order result = none := by
  have hsize : input.size.toUInt32.toNat = input.size := toNat_toUInt32 hn
  have hbucket : (bucketSize input.size.toUInt32 1 0).toNat = input.size := by
    rw [bucketSize_toNat (by decide) (by decide) (by rw [hsize]; change 1 ≤ input.size; omega), hsize]
    change startNat input.size 1 (0 + 1) - startNat input.size 1 0 = input.size
    simp [startNat, Nat.mod_one]
  have hsome : ¬(input.data = [] ∨ (1 : UInt32) = 0) := by
    rintro (hnil | hzero)
    · have hzero : input.size = 0 := by rw [SampleVector.size, hnil, List.length_nil]
      omega
    · exact absurd hzero (by decide)
  have hgroup : workgroup (input.data.map Int16.toInt) input.size.toUInt32 1 fuel 0 = none := by
    have hlane : invocation (input.data.map Int16.toInt) (bucketStart input.size.toUInt32 1 0)
        (bucketSize input.size.toUInt32 1 0) fuel 0 = none :=
      strideLoop_hangs (by omega) (by decide) fuel _
    have hall : ¬((List.range 256).all fun lid => (invocation (input.data.map Int16.toInt)
        (bucketStart input.size.toUInt32 1 0) (bucketSize input.size.toUInt32 1 0) fuel lid).isSome) = true := by
      rw [List.all_eq_true]
      intro hcon
      have := hcon 0 (by decide)
      rw [hlane] at this
      cases this
    unfold workgroup
    exact if_neg hall
  rw [decimate, if_neg hsome]
  dsimp only
  rw [dispatch_none ((mem_order horder 0).mpr (by decide)) (by decide) hgroup]
  rfl

theorem noWrap_of (hn : input.size < 2 ^ 32) (hm : 2 * numBuckets.toNat < input.size)
    (h : numBuckets ≠ 1 ∨ input.size ≤ 2 ^ 32 - 256) {b : UInt32} (hb : b < numBuckets) :
    NoWrap input.size.toUInt32 numBuckets b := by
  have hb' := UInt32.lt_iff_toNat_lt.mp hb
  have hsize : input.size.toUInt32.toNat = input.size := toNat_toUInt32 hn
  have hle := bucketSize_le (by rwa [hsize]) hb' (by rwa [hsize])
  obtain ⟨hstart, hbucket⟩ := bucket_call hn hm hb
  have htiles := tiles_start hn hm (by omega)
  have hlast := htiles.le_hi (show b.toNat + 1 ≤ numBuckets.toNat from hb')
  have hnat := (tiles_startNat (show 0 < numBuckets.toNat by omega) (show numBuckets.toNat ≤ input.size by omega)).le_hi
    (show b.toNat + 1 ≤ numBuckets.toNat from hb')
  rw [startNat_succ, startNat] at hnat
  have hbase := (Nat.le_add_right _ _).trans hnat
  constructor
  case remainder_sub =>
    rw [baseSize_toNat]
    exact Nat.div_mul_le_self _ _
  case start_mul =>
    rw [baseSize_toNat, hsize]
    omega
  case start_add =>
    rw [baseSize_toNat, remainder_toNat, hsize]
    omega
  case size_add =>
    have hiff : b < remainder input.size.toUInt32 numBuckets ↔ b.toNat < input.size % numBuckets.toNat := by
      rw [UInt32.lt_iff_toNat_lt, remainder_toNat, hsize]
    simp only [hiff]
    rw [baseSize_toNat, hsize]
    omega
  case idx_add =>
    intro fuel lid _ i hi
    have := lt_of_mem_visited hi
    omega
  case stride_add =>
    intro fuel lid _ i hi
    have := lt_of_mem_visited hi
    omega
  case shared_add =>
    intro stride hstride lid hlid
    omega
  case entry_add => omega

/-- The scalar path with as many buckets: its products do not wrap, and it keeps the extremes. -/
theorem minmaxScalar64_call (hn : input.size < 2 ^ 32) (hm : 2 * numBuckets.toNat < input.size)
    (hpos : 0 < numBuckets.toNat) :
    ∃ cpu, minmaxScalar64 input (numBuckets * 2) = some cpu ∧ cpu.length = 2 * numBuckets.toNat ∧
      Lib.Envelope cpu input.data := by
  have hlt := numBuckets.toNat_lt
  have hcount : (numBuckets * 2).toNat = 2 * numBuckets.toNat := by
    rw [UInt32.toNat_mul, Nat.mul_comm]
    exact Nat.mod_eq_of_lt (show 2 * numBuckets.toNat < 2 ^ 32 by omega)
  have hhalf : (numBuckets * 2).toNat / 2 = numBuckets.toNat := by omega
  have hwrap : input.size * ((numBuckets * 2).toNat / 2) < 2 ^ 64 := by
    rw [hhalf]
    calc input.size * numBuckets.toNat ≤ 2 ^ 32 * numBuckets.toNat := Nat.mul_le_mul_right _ hn.le
      _ < 2 ^ 32 * 2 ^ 32 := Nat.mul_lt_mul_of_pos_left hlt (by decide)
      _ = 2 ^ 64 := by norm_num
  have hlength : 2 * numBuckets.toNat < input.data.length := hm
  refine ⟨_, minmaxScalar64_refines hwrap, ?_, ?_⟩
  · rw [← minmax_eq_scalar, length_minmax, if_neg (by omega), if_neg (by omega), hhalf]
  · rw [← minmax_eq_scalar]
    exact minmax_envelope (by omega)

theorem exact_of (hn : input.size < 2 ^ 32) (hm : 2 * numBuckets.toNat < input.size)
    (h : numBuckets ≠ 1 ∨ input.size ≤ 2 ^ 32 - 256) : Exact input numBuckets := by
  constructor
  case noWrap => exact fun b hb => noWrap_of hn hm h hb
  case tiles =>
    intro hne
    refine tiles_start hn hm (Nat.pos_of_ne_zero fun hzero => hne ?_)
    exact UInt32.toNat_inj.mp hzero
  case sizes =>
    intro b hb size
    have hlt := (tiles_start hn hm (by omega)).lt b hb
    have hsize : size = startNat input.size numBuckets.toNat (b + 1) - startNat input.size numBuckets.toNat b :=
      size_eq hn hm hb
    rw [start_eq hn hm (by omega) hb.le, start_eq hn hm (by omega) (show b + 1 ≤ _ from hb)] at hlt ⊢
    refine ⟨by omega, ?_⟩
    rw [hsize, startNat_succ, Nat.add_sub_cancel_left]
    split_ifs
    · exact .inr rfl
    · exact .inl rfl
  case output =>
    rcases Nat.eq_zero_or_pos numBuckets.toNat with hzero | hpos
    · obtain rfl : numBuckets = 0 := UInt32.toNat_inj.mp hzero
      have hnone : ∀ b < (0 : UInt32).toNat, False := fun b hb => absurd hb (Nat.not_lt_zero b)
      exact ⟨0, [], [], fun _ _ _ => if_pos (.inr rfl),
        ⟨rfl, fun b hb => (hnone b hb).elim, fun b hb => (hnone b hb).elim⟩, rfl, rfl, rfl, rfl⟩
    · have htiles := tiles_start hn hm hpos
      have hpairs := Lib.pairEnvelope_flatMap
        (fun b hb => (span_extremes (htiles.lt b hb) (htiles.le_hi (show b + 1 ≤ _ from hb))).1)
        fun b hb => (span_extremes (htiles.lt b hb) (htiles.le_hi (show b + 1 ≤ _ from hb))).2
      have henv := hpairs.envelope htiles
      obtain ⟨cpu, hcpu, hlength, hcpuEnv⟩ := minmaxScalar64_call hn hm hpos
      exact ⟨_, _, cpu, fun order result horder => decimate_eq hn hm hpos h horder result, hpairs, hcpu,
        hpairs.length_eq.trans hlength.symm, henv.minimum_eq.trans hcpuEnv.minimum_eq.symm,
        henv.maximum_eq.trans hcpuEnv.maximum_eq.symm⟩

theorem not_exact (hn : input.size < 2 ^ 32) (hlong : 2 ^ 32 - 256 < input.size) : ¬Exact input 1 := by
  intro hexact
  obtain ⟨fuel, output, -, hrun, -⟩ := hexact.output
  have horder : IsDispatchOrder 1 [0] := List.Perm.refl _
  have := hrun [0] (fun _ => 0) horder
  rw [decimate_hangs hn hlong fuel horder] at this
  cases this

/-- **The GPU's envelope is exact** for every number of buckets, except for a single bucket of more than `2 ^ 32 - 256`
samples. -/
theorem exact_iff (input : SampleVector) (numBuckets : UInt32) (hn : input.size < 2 ^ 32)
    (hm : 2 * numBuckets.toNat < input.size) :
    Exact input numBuckets ↔ numBuckets ≠ 1 ∨ input.size ≤ 2 ^ 32 - 256 := by
  refine ⟨?_, exact_of hn hm⟩
  intro hexact
  by_contra hcon
  rw [not_or, not_not] at hcon
  obtain ⟨rfl, hlong⟩ := hcon
  exact not_exact hn (by omega) hexact

theorem exact_iff_five : Exact Decimator.fiveSamples 2 :=
  (exact_iff Decimator.fiveSamples 2 (by decide) (by decide)).mpr (.inl (by decide))

/-- `2 ^ 32 - 1` samples of silence. -/
def longSilence : SampleVector where
  data := List.replicate (2 ^ 32 - 1) 0
  size_le := by
    rw [List.length_replicate]
    decide

/-- With a single bucket for them, the call never returns. -/
theorem not_exact_longSilence :
    ¬Exact longSilence 1 ∧ ∀ fuel result, decimate longSilence 1 fuel [0] result = none := by
  have hsize : longSilence.size = 2 ^ 32 - 1 := List.length_replicate ..
  exact ⟨not_exact (by omega) (by omega), fun fuel result =>
    decimate_hangs (by omega) (by omega) fuel (List.Perm.refl _) result⟩

end Envelope

end Grebe.MinmaxShader
