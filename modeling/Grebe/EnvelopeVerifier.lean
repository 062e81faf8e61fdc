import Mathlib.Tactic
import Grebe.Lib.SlidingMin
import Grebe.Lib.BinarySearch
import Grebe.Decimator

/-!
# Grebe.EnvelopeVerifier — the check of decimated data against the period it came from

For a periodic signal the minimum and the maximum of a bucket are those of some window of the period, as long as the
bucket.  `buildWindowSet` lists these pairs for one length, and `verify` looks every pair of the decimated data up among
those of the two lengths that a bucket can have, with a tolerance of one step either way.

* `mem_buildWindowSet`: the set has the extremes of every cyclic window of its length.
* `verify_minmax`: the check raises no false alarm on what `minmax` makes of consecutive samples of the signal.

Counts are natural numbers: those of the source have 32 bits, and none of its products and sums wraps for a target of 32
bits.  `matchRate` is the exact quotient.
-/

namespace Grebe

open Lib

structure EnvelopeResult where
  totalBuckets : ℕ
  matchedBuckets : ℕ
  /-- -1: not verifiable -/
  matchRate : ℚ
deriving DecidableEq

namespace EnvelopeVerifier

/-- `uint32_t` has the order of the natural numbers. -/
scoped instance instLinearOrderUInt32 : LinearOrder UInt32 where
  le_refl _ := UInt32.le_refl _
  le_trans _ _ _ := UInt32.le_trans
  le_antisymm _ _ := UInt32.le_antisymm
  le_total _ _ := UInt32.le_total ..
  lt_iff_le_not_ge a b := by
    rw [UInt32.not_le]
    exact ⟨fun h => ⟨UInt32.le_of_lt h, h⟩, fun h => h.2⟩
  toDecidableLE := inferInstance
  toDecidableLT := inferInstance
  toDecidableEq := inferInstance

/-! ## Windows of a period -/

section Windows

def packPair (lo hi : Int16) : UInt32 := (lo.toUInt16.toUInt32 <<< 16) ||| hi.toUInt16.toUInt32

variable (period : List Int16) (w : ℕ)

/-- `n` samples of the repeated period, from sample `s` on. -/
def cyclic (s n : ℕ) : List Int16 := (List.range n).map fun i => period.getD ((s + i) % period.length) 0

/-- `buf`: the period, and its beginning once more. -/
def extended : List Int16 :=
  (List.range (period.length + w - 1)).map fun i => period.getD (i % period.length) 0

/-- One iteration of the loop over `buf`, for one of the two deques and its results: `slide` lets index `i` in.  The two
halves of the loop share nothing. -/
def extremeStep (slide : List ℕ → ℕ → List ℕ) (buf : List Int16) (r : List ℕ × List Int16) (i : ℕ) :
    List ℕ × List Int16 :=
  let dq := slide r.1 i
  (dq, if w - 1 ≤ i then r.2.set (i + 1 - w) (buf.getD (dq.headD 0) 0) else r.2)

/-- `wmins` or `wmaxs` after the loop. -/
def windowExtremes (slide : List ℕ → ℕ → List ℕ) (buf : List Int16) : List Int16 :=
  ((List.range (period.length + w - 1)).foldl (extremeStep w slide buf) ([], List.replicate period.length 0)).2

def buildWindowSet : List UInt32 :=
  if w = 0 ∨ period.length = 0 then []
  else if period.length ≤ w then
    let first := period.getD 0 0
    [packPair (period.tail.foldl Decimator.lower first) (period.tail.foldl Decimator.upper first)]
  else
    let buf := extended period w
    let wmins := windowExtremes period w (slideMin (fun i => buf.getD i 0) w) buf
    let wmaxs := windowExtremes period w (slideMax (fun i => buf.getD i 0) w) buf
    unique (((List.range period.length).map fun s => packPair (wmins.getD s 0) (wmaxs.getD s 0)).mergeSort (· ≤ ·))

end Windows

end EnvelopeVerifier

/-! ## The verifier -/

/-- The period, if one is set, and the window sets built for it so far. -/
structure EnvelopeVerifier where
  periodBuf : Option (List Int16)
  cache : ℕ → Option (List UInt32)
  cached : ∀ bs set, cache bs = some set → set = EnvelopeVerifier.buildWindowSet (periodBuf.getD []) bs

namespace EnvelopeVerifier

section Verify

def setPeriod (period : List Int16) : EnvelopeVerifier where
  periodBuf := some period
  cache _ := none
  cached := nofun

def clear : EnvelopeVerifier where
  periodBuf := none
  cache _ := none
  cached := nofun

variable (v : EnvelopeVerifier)

def isReady : Bool := (v.periodBuf.getD []).length > 0

/-- One round of `ensure_bucket_sizes`. -/
def ensureBucketSize (bs : ℕ) : EnvelopeVerifier :=
  if bs = 0 ∨ (v.cache bs).isSome then v
  else
    { v with
      cache := Function.update v.cache bs (some (buildWindowSet (v.periodBuf.getD []) bs))
      cached := fun bs' set h => by
        by_cases hbs : bs' = bs
        · rw [hbs, Function.update_self, Option.some.injEq] at h
          rw [hbs, h]
        · rw [Function.update_of_ne hbs] at h
          exact v.cached bs' set h }

def ensureBucketSizes (bs1 bs2 : ℕ) : EnvelopeVerifier := (v.ensureBucketSize bs1).ensureBucketSize bs2

/-- The pair with `lo` and `hi` changed by `dl` and `dh`, if both fit, is in one of the sets. -/
def matchedWith (set1 set2 : List UInt32) (lo hi : Int16) (dl dh : ℤ) : Bool :=
  let tlo := lo.toInt + dl
  let thi := hi.toInt + dh
  if tlo < -32768 ∨ tlo > 32767 then false
  else if thi < -32768 ∨ thi > 32767 then false
  else
    let packed := packPair (Int16.ofInt tlo) (Int16.ofInt thi)
    binarySearch set1 packed || binarySearch set2 packed

/-- The two loops over the neighbours of a pair; they end with the first match. -/
def matched (set1 set2 : List UInt32) (lo hi : Int16) : Bool :=
  [-1, 0, 1].any fun dl => [-1, 0, 1].any fun dh => matchedWith set1 set2 lo hi dl dh

/-- `verify`: the verifier after it, and the result. -/
def verify (decimated : List Int16) (numBuckets chRaw : ℕ) : EnvelopeVerifier × EnvelopeResult :=
  if v.isReady = false ∨ numBuckets = 0 ∨ chRaw = 0 then (v, ⟨numBuckets, 0, -1⟩)
  else
    let baseBs := if chRaw / numBuckets = 0 then 1 else chRaw / numBuckets
    let altBs := baseBs + 1
    let v := v.ensureBucketSizes baseBs altBs
    let set1 := (v.cache baseBs).getD []
    let set2 := (v.cache altBs).getD []
    let matchedBuckets := (List.range numBuckets).countP fun b =>
      matched set1 set2 (decimated.getD (b * 2) 0) (decimated.getD (b * 2 + 1) 0)
    (v, ⟨numBuckets, matchedBuckets, matchedBuckets / numBuckets⟩)

end Verify

/-! ## Windows -/

section Cyclic

variable {period : List Int16} {s n w : ℕ}

@[simp] theorem length_cyclic (period : List Int16) (s n : ℕ) : (cyclic period s n).length = n := by
  simp [cyclic]

theorem mem_cyclic {x : Int16} : x ∈ cyclic period s n ↔ ∃ i < n, period.getD ((s + i) % period.length) 0 = x := by
  simp [cyclic]

/-- Whole periods can be left out. -/
theorem cyclic_mod (period : List Int16) (s n : ℕ) : cyclic period (s % period.length) n = cyclic period s n := by
  simp [cyclic]

/-- A piece of the repeated period is one too. -/
theorem cut_cyclic {c : ℕ → ℕ} {b : ℕ} (hc : c (b + 1) ≤ n) :
    Lib.cut (cyclic period s n) c b = cyclic period (s + c b) (c (b + 1) - c b) := by
  refine List.ext_getElem ?_ fun i hi hi' => ?_
  · rw [Lib.length_cut (by rwa [length_cyclic]), length_cyclic]
  · simp [Lib.cut, cyclic, Nat.add_assoc]

/-- A window as long as the period has all its samples. -/
theorem mem_cyclic_of_le (hp : 0 < period.length) (hw : period.length ≤ w) {x : Int16} :
    x ∈ cyclic period s w ↔ x ∈ period := by
  rw [mem_cyclic]
  constructor
  · rintro ⟨i, -, rfl⟩
    have hlt := Nat.mod_lt (s + i) hp
    rw [List.getD_eq_getElem _ _ hlt]
    exact List.getElem_mem hlt
  · intro hx
    obtain ⟨k, hk, rfl⟩ := List.getElem_of_mem hx
    -- the first index from `s` on that is `k` in the period
    refine ⟨(k + (period.length - s % period.length)) % period.length, (Nat.mod_lt _ hp).trans_le hw, ?_⟩
    have hs : s % period.length < period.length := Nat.mod_lt s hp
    have hmod : (s + (k + (period.length - s % period.length)) % period.length) % period.length = k := by
      have hsum : s + (k + (period.length - s % period.length)) = k + period.length * (s / period.length + 1) := by
        have := Nat.div_add_mod s period.length
        rw [Nat.mul_add_one]
        omega
      rw [Nat.add_mod_mod, hsum, Nat.add_mul_mod_self_left, Nat.mod_eq_of_lt hk]
    rw [hmod, List.getD_eq_getElem _ _ hk]

theorem getD_extended {i : ℕ} (hi : i < period.length + w - 1) :
    (extended period w).getD i 0 = period.getD (i % period.length) 0 := by
  rw [List.getD_eq_getElem _ _ (by simpa [extended] using hi)]
  simp [extended]

/-- The window of length `w` from index `s` of the buffer on. -/
theorem cyclic_eq_extended (hs : s < period.length) :
    cyclic period s w = (List.range w).map fun i => (extended period w).getD (s + i) 0 := by
  apply List.map_congr_left
  intro i hi
  rw [getD_extended]
  have := List.mem_range.mp hi
  omega

end Cyclic

section Extremes

variable {period : List Int16} {s w : ℕ} {lo hi : Int16}

/-- The deque and the number of results of one half of the loop. -/
theorem extremeStep_run (period : List Int16) (w : ℕ) (slide : List ℕ → ℕ → List ℕ) (buf : List Int16) (n : ℕ) :
    ((List.range n).foldl (extremeStep w slide buf) ([], List.replicate period.length 0)).1 =
        (List.range n).foldl slide [] ∧
      ((List.range n).foldl (extremeStep w slide buf) ([], List.replicate period.length 0)).2.length =
        period.length := by
  induction n with
  | zero => exact ⟨rfl, List.length_replicate ..⟩
  | succ n ih =>
    obtain ⟨hdq, hlen⟩ := ih
    rw [List.range_succ, List.foldl_append, List.foldl_append]
    refine ⟨congrArg (slide · n) hdq, ?_⟩
    rw [List.foldl_cons, List.foldl_nil, extremeStep]
    dsimp only
    split_ifs
    · rw [List.length_set, hlen]
    · exact hlen

/-- **The loop over the buffer.**  When the front of the deque is best in the window that ends before `n`, for each `n`,
the results are best in theirs. -/
theorem extremes_run (period : List Int16) {slide : List ℕ → ℕ → List ℕ} {buf : List Int16}
    (le : Int16 → Int16 → Prop)
    (hfront : ∀ n, 0 < n → let front := ((List.range n).foldl slide []).headD 0
      (front < n ∧ n ≤ front + w) ∧ ∀ j < n, n ≤ j + w → le (buf.getD front 0) (buf.getD j 0)) (n : ℕ) :
    let r := (List.range n).foldl (extremeStep w slide buf) ([], List.replicate period.length 0)
    ∀ s < period.length, 0 < s + w → s + w ≤ n → (∃ j < w, r.2.getD s 0 = buf.getD (s + j) 0) ∧
      ∀ j < w, le (r.2.getD s 0) (buf.getD (s + j) 0) := by
  induction n with
  | zero => exact fun s _ hpos hle => absurd hle (by omega)
  | succ n ih =>
    intro r s hs hpos hle
    obtain ⟨hdq, hlen⟩ := extremeStep_run period w slide buf n
    have hr : r = extremeStep w slide buf
        ((List.range n).foldl (extremeStep w slide buf) ([], List.replicate period.length 0)) n := by
      change (List.range (n + 1)).foldl _ _ = _
      rw [List.range_succ, List.foldl_append]
      rfl
    rw [hr]
    generalize (List.range n).foldl (extremeStep w slide buf) ([], List.replicate period.length 0) = r at hdq hlen ih
    simp only [extremeStep]
    by_cases hnew : s + w = n + 1
    · -- the window that ends with the new index
      obtain ⟨⟨hlt, hge⟩, hbest⟩ := hfront (n + 1) (Nat.succ_pos n)
      rw [List.range_succ, List.foldl_append, List.foldl_cons, List.foldl_nil, ← hdq] at hlt hge hbest
      have hset : (if w - 1 ≤ n then r.2.set (n + 1 - w) (buf.getD ((slide r.1 n).headD 0) 0) else r.2).getD s 0 =
          buf.getD ((slide r.1 n).headD 0) 0 := by
        rw [if_pos (by omega), show n + 1 - w = s by omega, List.getD_eq_getElem _ _ (by rw [List.length_set]; omega),
          List.getElem_set_self]
      rw [hset]
      refine ⟨⟨(slide r.1 n).headD 0 - s, by omega, ?_⟩, fun j hj => hbest (s + j) (by omega) (by omega)⟩
      rw [Nat.add_sub_cancel' (by omega)]
    · have hold : (if w - 1 ≤ n then r.2.set (n + 1 - w) (buf.getD ((slide r.1 n).headD 0) 0) else r.2).getD s 0 =
          r.2.getD s 0 := by
        split_ifs
        · rw [List.getD_eq_getElem?_getD, List.getElem?_set_ne (by omega), ← List.getD_eq_getElem?_getD]
        · rfl
      rw [hold]
      exact ih s hs hpos (by omega)

theorem wmins_eq (hw : 0 < w) (hs : s < period.length) (hlo : (cyclic period s w).minimum = lo) :
    (windowExtremes period w (slideMin (fun i => (extended period w).getD i 0) w) (extended period w)).getD s 0 = lo := by
  have hdone := extremes_run period (· ≤ ·)
    (fun n hn => (slidingMin_run (v := fun i => (extended period w).getD i 0) n).front hw hn 0) (period.length + w - 1)
  obtain ⟨⟨j, hj, hmem⟩, hle⟩ := hdone s hs (by omega) (by omega)
  rw [cyclic_eq_extended hs, List.minimum_eq_coe_iff, List.mem_map] at hlo
  obtain ⟨⟨k, hk, rfl⟩, hleast⟩ := hlo
  exact le_antisymm (hle k (List.mem_range.mp hk)) (hmem ▸ hleast _ (List.mem_map_of_mem (List.mem_range.mpr hj)))

theorem wmaxs_eq (hw : 0 < w) (hs : s < period.length) (hhi : (cyclic period s w).maximum = hi) :
    (windowExtremes period w (slideMax (fun i => (extended period w).getD i 0) w) (extended period w)).getD s 0 = hi := by
  have hdone := extremes_run period (fun a b => b ≤ a)
    (fun n hn => (slidingMax_run (v := fun i => (extended period w).getD i 0) n).front hw hn 0) (period.length + w - 1)
  obtain ⟨⟨j, hj, hmem⟩, hle⟩ := hdone s hs (by omega) (by omega)
  rw [cyclic_eq_extended hs, List.maximum_eq_coe_iff, List.mem_map] at hhi
  obtain ⟨⟨k, hk, rfl⟩, hgreatest⟩ := hhi
  exact le_antisymm (hmem ▸ hgreatest _ (List.mem_map_of_mem (List.mem_range.mpr hj))) (hle k (List.mem_range.mp hk))

end Extremes


/-! ## The window sets -/

section WindowSet

variable {period : List Int16} {s w : ℕ} {lo hi : Int16}

/-- The set of a length increases strictly. -/
theorem pairwise_buildWindowSet (period : List Int16) (w : ℕ) : (buildWindowSet period w).Pairwise (· < ·) := by
  unfold buildWindowSet
  split_ifs
  · exact .nil
  · exact List.pairwise_singleton _ _
  · refine pairwise_unique ((List.pairwise_mergeSort ?_ ?_ _).imp of_decide_eq_true)
    · intro a b c hab hbc
      exact decide_eq_true ((of_decide_eq_true hab).trans (of_decide_eq_true hbc))
    · intro a b
      simpa using le_total a b

/-- It is sorted, for the search in it. -/
theorem sorted_buildWindowSet (period : List Int16) (w : ℕ) : (buildWindowSet period w).Pairwise (· ≤ ·) :=
  (pairwise_buildWindowSet period w).imp le_of_lt

/-- **The set of a length has the extremes of every cyclic window of that length.** -/
theorem mem_buildWindowSet (hp : 0 < period.length) (hw : 0 < w) (hlo : (cyclic period s w).minimum = lo)
    (hhi : (cyclic period s w).maximum = hi) : packPair lo hi ∈ buildWindowSet period w := by
  unfold buildWindowSet
  rw [if_neg (by omega)]
  split_ifs with hle
  · -- the window has all samples of the period
    simp only [List.minimum_eq_coe_iff, mem_cyclic_of_le hp hle] at hlo
    simp only [List.maximum_eq_coe_iff, mem_cyclic_of_le hp hle] at hhi
    rw [← List.minimum_eq_coe_iff] at hlo
    rw [← List.maximum_eq_coe_iff] at hhi
    obtain ⟨x, xs, rfl⟩ := List.exists_cons_of_ne_nil (List.length_pos_iff.mp hp)
    rw [Lib.minimum_cons_eq_foldl, WithTop.coe_eq_coe] at hlo
    rw [Lib.maximum_cons_eq_foldl, WithBot.coe_eq_coe] at hhi
    rw [List.mem_singleton, Decimator.lower_eq_min, Decimator.upper_eq_max, ← hlo, ← hhi]
    rfl
  · rw [mem_unique, List.mem_mergeSort, List.mem_map]
    have hs := Nat.mod_lt s hp
    rw [← cyclic_mod] at hlo hhi
    exact ⟨s % period.length, List.mem_range.mpr hs, by rw [wmins_eq hw hs hlo, wmaxs_eq hw hs hhi]⟩

end WindowSet

/-! ## The check of decimated data -/

section Check

variable {period input : List Int16} {v : EnvelopeVerifier} {n m b t : ℕ}

/-- An exact pair matches. -/
theorem matched_of_mem {set1 set2 : List UInt32} {lo hi : Int16} (h1 : set1.Pairwise (· ≤ ·))
    (h2 : set2.Pairwise (· ≤ ·)) (hmem : packPair lo hi ∈ set1 ∨ packPair lo hi ∈ set2) :
    matched set1 set2 lo hi = true := by
  have hzero : matchedWith set1 set2 lo hi 0 0 = true := by
    have hlo := lo.toInt_lt
    have hlo' := lo.le_toInt
    have hhi := hi.toInt_lt
    have hhi' := hi.le_toInt
    unfold matchedWith
    simp only [add_zero, Int16.ofInt_toInt]
    rw [if_neg (by omega), if_neg (by omega)]
    simpa [binarySearch_iff h1, binarySearch_iff h2] using hmem
  simp [matched, hzero]

@[simp] theorem ensureBucketSize_periodBuf (bs : ℕ) : (v.ensureBucketSize bs).periodBuf = v.periodBuf := by
  unfold ensureBucketSize
  split_ifs <;> rfl

theorem ensureBucketSize_self {bs : ℕ} (hpos : 0 < bs) : ((v.ensureBucketSize bs).cache bs).isSome = true := by
  unfold ensureBucketSize
  split_ifs with h
  · exact h.resolve_left hpos.ne'
  · simp

theorem ensureBucketSize_keeps {bs : ℕ} (bs' : ℕ) (h : (v.cache bs).isSome = true) :
    ((v.ensureBucketSize bs').cache bs).isSome = true := by
  unfold ensureBucketSize
  split_ifs
  · exact h
  · dsimp only
    by_cases hbs : bs = bs'
    · rw [hbs, Function.update_self]
      rfl
    · rw [Function.update_of_ne hbs]
      exact h

/-- A set in the cache is the one of the period. -/
theorem cache_eq (hv : v.periodBuf = some period) {bs : ℕ} (h : (v.cache bs).isSome = true) :
    (v.cache bs).getD [] = buildWindowSet period bs := by
  obtain ⟨set, hset⟩ := Option.isSome_iff_exists.mp h
  rw [hset, Option.getD_some, v.cached bs set hset, hv, Option.getD_some]

theorem ensureBucketSizes_cache {bs1 bs2 : ℕ} (h1 : 0 < bs1) (h2 : 0 < bs2) (hv : v.periodBuf = some period) :
    ((v.ensureBucketSizes bs1 bs2).cache bs1).getD [] = buildWindowSet period bs1 ∧
      ((v.ensureBucketSizes bs1 bs2).cache bs2).getD [] = buildWindowSet period bs2 := by
  have hperiod : (v.ensureBucketSizes bs1 bs2).periodBuf = some period := by simp [ensureBucketSizes, hv]
  exact ⟨cache_eq hperiod (ensureBucketSize_keeps bs2 (ensureBucketSize_self h1)),
    cache_eq hperiod (ensureBucketSize_self h2)⟩

/-- Bucket `b` of consecutive samples of the signal. -/
theorem matched_bucket (hp : 0 < period.length) (s : ℕ) (ht : 2 ≤ t) (hn : t < n) (hb : b < t / 2) :
    matched (buildWindowSet period (n / (t / 2))) (buildWindowSet period (n / (t / 2) + 1))
      ((Decimator.minmax (cyclic period s n) t).getD (b * 2) 0)
      ((Decimator.minmax (cyclic period s n) t).getD (b * 2 + 1) 0) = true := by
  have hm : 0 < t / 2 := by omega
  have hlt := Decimator.bucketStart_lt (n := n) hm (by omega) b
  have hend : Decimator.bucketStart n (t / 2) (b + 1) ≤ n :=
    (Nat.div_le_div_right (Nat.mul_le_mul_right n hb)).trans (Decimator.bucketStart_last n hm).le
  rw [Decimator.minmax_eq_scalar, Decimator.minmaxScalar, Decimator.minmaxWith, if_neg (by omega),
    if_neg (by rw [length_cyclic]; omega), length_cyclic, (Decimator.getD_pairs _ _ hb).1, (Decimator.getD_pairs _ _ hb).2, cut_cyclic hend]
  have hw : 0 < Decimator.bucketStart n (t / 2) (b + 1) - Decimator.bucketStart n (t / 2) b := by omega
  obtain ⟨hlo, hhi⟩ := Decimator.boundsScalar_extremes (cyclic period (s + Decimator.bucketStart n (t / 2) b)
    (Decimator.bucketStart n (t / 2) (b + 1) - Decimator.bucketStart n (t / 2) b))
    (List.ne_nil_of_length_pos (by rwa [length_cyclic]))
  have hmem := mem_buildWindowSet hp hw hlo hhi
  apply matched_of_mem (sorted_buildWindowSet _ _) (sorted_buildWindowSet _ _)
  rcases Decimator.bucketLength_cases n hm b with h | h
  · exact .inl (h ▸ hmem)
  · exact .inr (h ▸ hmem)

/-- **No false alarm.**  Whatever `minmax` makes of consecutive samples of the periodic signal matches in every bucket. -/
theorem verify_minmax (hp : 0 < period.length) (hv : v.periodBuf = some period) (s : ℕ) (ht : 2 ≤ t) (hn : t < n) :
    (v.verify (Decimator.minmax (cyclic period s n) t) (t / 2) n).2 = ⟨t / 2, t / 2, 1⟩ := by
  have hm : 0 < t / 2 := by omega
  have hbase : 0 < n / (t / 2) := Nat.div_pos (by omega) hm
  have hready : v.isReady = true := by simpa [isReady, hv] using hp
  obtain ⟨hset1, hset2⟩ := ensureBucketSizes_cache (v := v) hbase (Nat.succ_pos (n / (t / 2))) hv
  unfold verify
  rw [if_neg (by rw [hready]; simp; omega)]
  simp only [if_neg hbase.ne', hset1, hset2]
  have hcount : (List.range (t / 2)).countP (fun b => matched (buildWindowSet period (n / (t / 2)))
      (buildWindowSet period (n / (t / 2) + 1)) ((Decimator.minmax (cyclic period s n) t).getD (b * 2) 0)
      ((Decimator.minmax (cyclic period s n) t).getD (b * 2 + 1) 0)) = t / 2 := by
    rw [List.countP_eq_length.mpr fun b hb => matched_bucket hp s ht hn (List.mem_range.mp hb), List.length_range]
  rw [hcount, div_self (by exact_mod_cast hm.ne')]

/-- Seven samples from the second on of a period of two, in two buckets of three and four. -/
theorem verify_minmax_seven :
    ((setPeriod [3, -1]).verify (Decimator.minmax (cyclic [3, -1] 1 7) 4) 2 7).2 = ⟨2, 2, 1⟩ :=
  verify_minmax (by decide) rfl 1 (by decide) (by decide)

end Check

end EnvelopeVerifier

end Grebe
