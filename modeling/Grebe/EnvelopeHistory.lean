import Mathlib.Tactic
import Mathlib.Data.Set.Card
import Grebe.Lib.BinarySearch
import Grebe.EnvelopeVerifier
import Grebe.WindowSet

/-!
# Grebe.EnvelopeHistory — what `verify` counts, whatever was called before

`verify32` is `verify` with its 32-bit counts: the entries of bucket `b` are read at `b * 2` and `b * 2 + 1`, a product and
a sum of `uint32_t`.

* `packPair_inj`: a packed pair stands for one pair.
* `matched_iff`: a bucket matches if some window of one of the two lengths is within one step of it, both ways.
* `periodBuf_run`: after any calls the verifier has the last period set, if it was not cleared since.
* `verify32_counts_iff`: then it counts exactly the plausible buckets, for every output of up to `2 ^ 31` buckets and for
  no larger number.
-/

namespace Grebe.EnvelopeVerifier

open Lib

/-! ## The calls -/

section Calls

inductive Call
  | setPeriod (period : List Int16)
  | clear
  | verify (decimated : List Int16) (numBuckets chRaw : UInt32)

/-- `EnvelopeVerifier::verify` -/
def verify32 (v : EnvelopeVerifier) (decimated : List Int16) (numBuckets chRaw : UInt32) :
    EnvelopeVerifier × EnvelopeResult :=
  if v.isReady = false ∨ numBuckets = 0 ∨ chRaw = 0 then (v, ⟨numBuckets.toNat, 0, -1⟩)
  else
    let baseBs := if chRaw.toNat / numBuckets.toNat = 0 then 1 else chRaw.toNat / numBuckets.toNat
    let altBs := baseBs + 1
    let v := v.ensureBucketSizes baseBs altBs
    let set1 := (v.cache baseBs).getD []
    let set2 := (v.cache altBs).getD []
    let matchedBuckets := (List.range numBuckets.toNat).countP fun b =>
      matched set1 set2 (decimated.getD (b.toUInt32 * 2).toNat 0) (decimated.getD (b.toUInt32 * 2 + 1).toNat 0)
    (v, ⟨numBuckets.toNat, matchedBuckets, matchedBuckets / numBuckets.toNat⟩)

def call (v : EnvelopeVerifier) : Call → EnvelopeVerifier
  | .setPeriod period => setPeriod period
  | .clear => clear
  | .verify decimated numBuckets chRaw => (v.verify32 decimated numBuckets chRaw).1

/-- A new verifier is a cleared one. -/
def run (calls : List Call) : EnvelopeVerifier := calls.foldl call clear

def periodAfter (period : Option (List Int16)) : Call → Option (List Int16)
  | .setPeriod period => some period
  | .clear => none
  | .verify _ _ _ => period

/-- The period that was set last, if it was not cleared since. -/
def currentPeriod (calls : List Call) : Option (List Int16) := calls.foldl periodAfter none

end Calls

/-! ## What it is for -/

section Purpose

/-- Some cyclic window of length `w` has its minimum within one step of `lo` and its maximum within one of `hi`. -/
def Near (period : List Int16) (w : ℕ) (lo hi : Int16) : Prop :=
  ∃ s < period.length, ∃ lo' hi' : Int16, (cyclic period s w).minimum = lo' ∧ (cyclic period s w).maximum = hi' ∧
    |lo'.toInt - lo.toInt| ≤ 1 ∧ |hi'.toInt - hi.toInt| ≤ 1

/-- A bucket of `r / m` samples or one more could have these extremes. -/
def Plausible (period : List Int16) (r m : ℕ) (lo hi : Int16) : Prop :=
  Near period (max 1 (r / m)) lo hi ∨ Near period (max 1 (r / m) + 1) lo hi

/-- The number of plausible buckets of an output. -/
noncomputable def plausibleBuckets (period : List Int16) (r m : ℕ) (decimated : List Int16) : ℕ :=
  { b | b < m ∧ Plausible period r m (decimated.getD (2 * b) 0) (decimated.getD (2 * b + 1) 0) }.ncard

end Purpose

/-! ## Packed pairs -/

section Pack

variable {lo hi lo' hi' : Int16}

theorem packPair_toNat (lo hi : Int16) : (packPair lo hi).toNat = lo.toUInt16.toNat * 2 ^ 16 + hi.toUInt16.toNat := by
  have hlo := lo.toUInt16.toNat_lt
  have hhi := hi.toUInt16.toNat_lt
  have hshift : (lo.toUInt16.toUInt32 <<< 16).toNat = lo.toUInt16.toNat <<< 16 := by
    rw [UInt32.toNat_shiftLeft, UInt16.toNat_toUInt32]
    change lo.toUInt16.toNat <<< 16 % 2 ^ 32 = _
    rw [Nat.shiftLeft_eq]
    omega
  rw [packPair, UInt32.toNat_or, hshift, UInt16.toNat_toUInt32, ← Nat.shiftLeft_add_eq_or_of_lt hhi, Nat.shiftLeft_eq]

/-- **A packed pair stands for one pair.** -/
theorem packPair_inj : packPair lo hi = packPair lo' hi' ↔ lo = lo' ∧ hi = hi' := by
  refine ⟨?_, fun ⟨h, h'⟩ => by rw [h, h']⟩
  intro h
  have hnat := congrArg UInt32.toNat h
  rw [packPair_toNat, packPair_toNat] at hnat
  have hhi := hi.toUInt16.toNat_lt
  have hhi' := hi'.toUInt16.toNat_lt
  have hinj : ∀ x y : Int16, x.toUInt16.toNat = y.toUInt16.toNat → x = y := by
    intro x y hxy
    rw [← Int16.toInt16_toUInt16 x, UInt16.toNat_inj.mp hxy, Int16.toInt16_toUInt16]
  exact ⟨hinj lo lo' (by omega), hinj hi hi' (by omega)⟩

end Pack

/-! ## One bucket -/

section Bucket

variable {period : List Int16} {set1 set2 : List UInt32} {lo hi lo' hi' : Int16} {dl dh : ℤ} {w r m : ℕ}

/-- A neighbour that does not fit is left out, so that nothing wraps. -/
theorem matchedWith_iff (h1 : set1.Pairwise (· ≤ ·)) (h2 : set2.Pairwise (· ≤ ·)) :
    matchedWith set1 set2 lo hi dl dh = true ↔ ∃ lo' hi' : Int16, lo'.toInt = lo.toInt + dl ∧ hi'.toInt = hi.toInt + dh ∧
      (packPair lo' hi' ∈ set1 ∨ packPair lo' hi' ∈ set2) := by
  unfold matchedWith
  dsimp only
  constructor
  · intro h
    split_ifs at h with hlo hhi
    refine ⟨Int16.ofInt (lo.toInt + dl), Int16.ofInt (hi.toInt + dh), ?_, ?_, ?_⟩
    · exact Int16.toInt_ofInt_of_le (by omega) (by omega)
    · exact Int16.toInt_ofInt_of_le (by omega) (by omega)
    · rwa [Bool.or_eq_true, binarySearch_iff h1, binarySearch_iff h2] at h
  · rintro ⟨lo', hi', hlo, hhi, hmem⟩
    have hlo1 := lo'.le_toInt
    have hlo2 := lo'.toInt_lt
    have hhi1 := hi'.le_toInt
    have hhi2 := hi'.toInt_lt
    rw [if_neg (by omega), if_neg (by omega), ← hlo, ← hhi, Int16.ofInt_toInt, Int16.ofInt_toInt, Bool.or_eq_true,
      binarySearch_iff h1, binarySearch_iff h2]
    exact hmem

/-- The nine neighbours are those within one step both ways. -/
theorem matched_iff (h1 : set1.Pairwise (· ≤ ·)) (h2 : set2.Pairwise (· ≤ ·)) :
    matched set1 set2 lo hi = true ↔ ∃ lo' hi' : Int16, |lo'.toInt - lo.toInt| ≤ 1 ∧ |hi'.toInt - hi.toInt| ≤ 1 ∧
      (packPair lo' hi' ∈ set1 ∨ packPair lo' hi' ∈ set2) := by
  have hstep : ∀ d : ℤ, d ∈ [-1, 0, 1] ↔ |d| ≤ 1 := by
    intro d
    rw [abs_le]
    simp only [List.mem_cons, List.not_mem_nil, or_false]
    omega
  simp only [matched, List.any_eq_true, hstep, matchedWith_iff h1 h2]
  constructor
  · rintro ⟨dl, hdl, dh, hdh, lo', hi', hlo, hhi, hmem⟩
    exact ⟨lo', hi', by rwa [hlo, add_sub_cancel_left], by rwa [hhi, add_sub_cancel_left], hmem⟩
  · rintro ⟨lo', hi', hlo, hhi, hmem⟩
    exact ⟨_, hlo, _, hhi, lo', hi', by ring, by ring, hmem⟩

/-- Membership in the set of a length, up to one step. -/
theorem near_iff (hp : 0 < period.length) (hw : 0 < w) :
    Near period w lo hi ↔ ∃ lo' hi' : Int16, |lo'.toInt - lo.toInt| ≤ 1 ∧ |hi'.toInt - hi.toInt| ≤ 1 ∧
      packPair lo' hi' ∈ buildWindowSet period w := by
  constructor
  · rintro ⟨s, -, lo', hi', hlo, hhi, hlo', hhi'⟩
    exact ⟨lo', hi', hlo', hhi', mem_buildWindowSet hp hw hlo hhi⟩
  · rintro ⟨lo', hi', hlo', hhi', hmem⟩
    obtain ⟨s, hs, lo'', hi'', hlo, hhi, heq⟩ := exists_window hp hw hmem
    obtain ⟨rfl, rfl⟩ := packPair_inj.mp heq
    exact ⟨s, hs, lo', hi', hlo, hhi, hlo', hhi'⟩

/-- **A bucket matches if it is plausible.** -/
theorem matched_bucket_iff (hp : 0 < period.length) (r m : ℕ) :
    matched (buildWindowSet period (max 1 (r / m))) (buildWindowSet period (max 1 (r / m) + 1)) lo hi = true ↔
      Plausible period r m lo hi := by
  rw [matched_iff (sorted_buildWindowSet _ _) (sorted_buildWindowSet _ _), Plausible, near_iff hp (by omega),
    near_iff hp (by omega)]
  constructor
  · rintro ⟨lo', hi', hlo, hhi, hmem | hmem⟩
    · exact .inl ⟨lo', hi', hlo, hhi, hmem⟩
    · exact .inr ⟨lo', hi', hlo, hhi, hmem⟩
  · rintro (⟨lo', hi', hlo, hhi, hmem⟩ | ⟨lo', hi', hlo, hhi, hmem⟩)
    · exact ⟨lo', hi', hlo, hhi, .inl hmem⟩
    · exact ⟨lo', hi', hlo, hhi, .inr hmem⟩

end Bucket

/-! ## All calls -/

section History

variable {v : EnvelopeVerifier} {calls : List Call} {period : List Int16} {m r : UInt32}

theorem verify32_periodBuf (v : EnvelopeVerifier) (decimated : List Int16) (m r : UInt32) :
    (v.verify32 decimated m r).1.periodBuf = v.periodBuf := by
  unfold verify32
  by_cases hguard : v.isReady = false ∨ m = 0 ∨ r = 0
  · rw [if_pos hguard]
  · rw [if_neg hguard]
    simp [ensureBucketSizes]

/-- **After any calls the verifier has the current period.** -/
theorem periodBuf_run (calls : List Call) : (run calls).periodBuf = currentPeriod calls := by
  induction calls using List.reverseRecOn with
  | nil => rfl
  | append_singleton calls c ih =>
    rw [run, currentPeriod, List.foldl_concat, List.foldl_concat]
    cases c with
    | setPeriod period => rfl
    | clear => rfl
    | verify decimated m r => exact (verify32_periodBuf _ decimated m r).trans ih

/-- What `verify` counts depends on the current period only: the cache never changes the answer. -/
theorem verify32_eq (hv : v.periodBuf = some period) (hp : 0 < period.length) (hm : 0 < m) (hr : 0 < r)
    (decimated : List Int16) :
    (v.verify32 decimated m r).2.matchedBuckets = (List.range m.toNat).countP fun b =>
      matched (buildWindowSet period (max 1 (r.toNat / m.toNat))) (buildWindowSet period (max 1 (r.toNat / m.toNat) + 1))
        (decimated.getD (b.toUInt32 * 2).toNat 0) (decimated.getD (b.toUInt32 * 2 + 1).toNat 0) := by
  have hready : v.isReady = true := by simpa [isReady, hv] using hp
  have hbase : (if r.toNat / m.toNat = 0 then 1 else r.toNat / m.toNat) = max 1 (r.toNat / m.toNat) := by
    generalize r.toNat / m.toNat = q
    split_ifs <;> omega
  have hpos : 0 < max 1 (r.toNat / m.toNat) := lt_max_of_lt_left Nat.one_pos
  obtain ⟨hset1, hset2⟩ := ensureBucketSizes_cache hpos (Nat.succ_pos (max 1 (r.toNat / m.toNat))) hv
  have hguard : ¬(v.isReady = false ∨ m = 0 ∨ r = 0) := by
    rintro (h | rfl | rfl)
    · rw [hready] at h
      cases h
    · exact absurd hm (lt_irrefl _)
    · exact absurd hr (lt_irrefl _)
  unfold verify32
  rw [if_neg hguard]
  simp only [hbase, hset1, hset2]

theorem toNat_index {b : ℕ} (hb : b < 2 ^ 31) :
    (b.toUInt32 * 2).toNat = 2 * b ∧ (b.toUInt32 * 2 + 1).toNat = 2 * b + 1 := by
  have hround : b.toUInt32.toNat = b := UInt32.toNat_ofNat_of_lt' (show b < 2 ^ 32 by omega)
  obtain ⟨heven, hodd⟩ := Decimator.toNat_entry (show b.toUInt32.toNat * 2 + 1 < 2 ^ 32 by omega)
  rw [heven, hodd, hround, Nat.mul_comm]
  exact ⟨rfl, rfl⟩

/-- A count over a list of numbers is the size of a set of numbers. -/
theorem countP_eq_ncard {f : ℕ → Bool} {P : ℕ → Prop} {n : ℕ} (h : ∀ b < n, f b = true ↔ P b) :
    (List.range n).countP f = { b | b < n ∧ P b }.ncard := by
  have hset : { b | b < n ∧ P b } = ↑((Finset.range n).filter fun b => f b = true) := by
    ext b
    rw [Finset.coe_filter, Set.mem_ofPred_eq, Set.mem_ofPred_eq, Finset.mem_range]
    exact and_congr_right fun hb => (h b hb).symm
  rw [hset, Set.ncard_coe_finset, List.countP_eq_length_filter, Finset.card_def, Finset.filter_val, Finset.range_val,
    Multiset.range, Multiset.filter_coe, Multiset.coe_card]
  simp only [Bool.decide_eq_true]

/-- Up to `2 ^ 31` buckets every entry is read at its place. -/
theorem verify32_counts (hv : v.periodBuf = some period) (hp : 0 < period.length) (hm : 0 < m) (hr : 0 < r)
    (hle : m.toNat ≤ 2 ^ 31) (decimated : List Int16) :
    (v.verify32 decimated m r).2.matchedBuckets = plausibleBuckets period r.toNat m.toNat decimated := by
  rw [verify32_eq hv hp hm hr, plausibleBuckets]
  apply countP_eq_ncard
  intro b hb
  obtain ⟨heven, hodd⟩ := toNat_index (b := b) (by omega)
  rw [heven, hodd]
  exact matched_bucket_iff hp r.toNat m.toNat

/-- Up to there `verify` of `Grebe.EnvelopeVerifier` is what the machine computes. -/
theorem verify32_refines (hle : m.toNat ≤ 2 ^ 31) (v : EnvelopeVerifier) (decimated : List Int16) (r : UInt32) :
    v.verify32 decimated m r = v.verify decimated m.toNat r.toNat := by
  have hzero : ∀ x : UInt32, x = 0 ↔ x.toNat = 0 := fun x => UInt32.toNat_inj.symm
  have hiff : (v.isReady = false ∨ m = 0 ∨ r = 0) ↔ v.isReady = false ∨ m.toNat = 0 ∨ r.toNat = 0 := by
    rw [hzero m, hzero r]
  rw [verify32, verify]
  by_cases hguard : v.isReady = false ∨ m.toNat = 0 ∨ r.toNat = 0
  · rw [if_pos hguard, if_pos (hiff.mpr hguard)]
  · rw [if_neg hguard, if_neg fun h => hguard (hiff.mp h)]
    have hindex : ∀ b < m.toNat, (b.toUInt32 * 2).toNat = b * 2 ∧ (b.toUInt32 * 2 + 1).toNat = b * 2 + 1 := by
      intro b hb
      rw [Nat.mul_comm b 2]
      exact toNat_index (by omega)
    dsimp only
    rw [List.countP_congr fun b hb => by
      rw [(hindex b (List.mem_range.mp hb)).1, (hindex b (List.mem_range.mp hb)).2]]

/-- An output of `m` buckets: these extremes in the first `2 ^ 31`, and impossible ones from there on. -/
def wrappedOutput (lo hi : Int16) (m : ℕ) : List Int16 :=
  (List.range (2 * m)).map fun i =>
    if i < 2 ^ 32 then (if i % 2 = 0 then lo else hi) else if i % 2 = 0 then Int16.maxValue else Int16.minValue

theorem length_wrappedOutput (lo hi : Int16) (m : ℕ) : (wrappedOutput lo hi m).length = 2 * m := by
  simp [wrappedOutput]

theorem getD_wrappedOutput {lo hi : Int16} {k i : ℕ} (hi' : i < 2 * k) :
    (wrappedOutput lo hi k).getD i 0 =
      if i < 2 ^ 32 then (if i % 2 = 0 then lo else hi) else if i % 2 = 0 then Int16.maxValue else Int16.minValue := by
  rw [List.getD_eq_getElem _ _ (by rwa [length_wrappedOutput])]
  simp [wrappedOutput]

/-- No window has its least sample above its greatest. -/
theorem not_plausible_extremes (period : List Int16) (r m : ℕ) : ¬Plausible period r m Int16.maxValue Int16.minValue := by
  have hnear : ∀ w, ¬Near period w Int16.maxValue Int16.minValue := by
    rintro w ⟨s, -, lo, hi, hlo, hhi, hlo', hhi'⟩
    rw [List.minimum_eq_coe_iff] at hlo
    rw [List.maximum_eq_coe_iff] at hhi
    have hle := Int16.le_iff_toInt_le.mp (hlo.2 hi hhi.1)
    have hmax : Int16.maxValue.toInt = 32767 := rfl
    have hmin : Int16.minValue.toInt = -32768 := rfl
    rw [hmax, abs_le] at hlo'
    rw [hmin, abs_le] at hhi'
    omega
  rintro (h | h)
  · exact hnear _ h
  · exact hnear _ h

/-- Where the product wraps, the entries of an earlier bucket are read. -/
theorem read_wrappedOutput (hm : 2 ^ 31 < m.toNat) (lo hi : Int16) {b : ℕ} (hb : b < m.toNat) :
    (wrappedOutput lo hi m.toNat).getD (b.toUInt32 * 2).toNat 0 = lo ∧
      (wrappedOutput lo hi m.toNat).getD (b.toUInt32 * 2 + 1).toNat 0 = hi := by
  have hmlt := m.toNat_lt
  have hround : b.toUInt32.toNat = b := UInt32.toNat_ofNat_of_lt' (show b < 2 ^ 32 by omega)
  have heven : (b.toUInt32 * 2).toNat = b * 2 % 2 ^ 32 := by
    rw [UInt32.toNat_mul, hround]
    rfl
  have hodd : (b.toUInt32 * 2 + 1).toNat = b * 2 % 2 ^ 32 + 1 := by
    rw [UInt32.toNat_add, heven]
    exact Nat.mod_eq_of_lt (show b * 2 % 2 ^ 32 + 1 < 2 ^ 32 by omega)
  rw [heven, hodd, getD_wrappedOutput (by omega), getD_wrappedOutput (by omega), if_pos (by omega), if_pos (by omega),
    if_pos (by omega), if_neg (by omega)]
  exact ⟨rfl, rfl⟩

/-- Not every bucket of that output is plausible. -/
theorem plausibleBuckets_lt (hm : 2 ^ 31 < m.toNat) (period : List Int16) (r : ℕ) (lo hi : Int16) :
    plausibleBuckets period r m.toNat (wrappedOutput lo hi m.toNat) < m.toNat := by
  have hsub : { b | b < m.toNat ∧ Plausible period r m.toNat ((wrappedOutput lo hi m.toNat).getD (2 * b) 0)
      ((wrappedOutput lo hi m.toNat).getD (2 * b + 1) 0) } ⊂ ↑(Finset.range m.toNat) := by
    refine ⟨fun b hb => Finset.mem_coe.mpr (Finset.mem_range.mpr hb.1), ?_⟩
    intro hcon
    obtain ⟨-, hbad⟩ := hcon (Finset.mem_coe.mpr (Finset.mem_range.mpr hm))
    rw [getD_wrappedOutput (by omega), getD_wrappedOutput (by omega), if_neg (by omega), if_pos (by omega),
      if_neg (by omega), if_neg (by omega)] at hbad
    exact not_plausible_extremes _ _ _ hbad
  have hcard := Set.ncard_lt_ncard hsub (Finset.finite_toSet _)
  rwa [Set.ncard_coe_finset, Finset.card_range] at hcard

/-- **Beyond `2 ^ 31` buckets the count is wrong**: it takes the entries of earlier buckets for those of later ones. -/
theorem verify32_wrapped (hv : v.periodBuf = some period) (hp : 0 < period.length) (hm : 2 ^ 31 < m.toNat) (hr : 0 < r)
    {lo hi : Int16} (hpair : Plausible period r.toNat m.toNat lo hi) :
    (v.verify32 (wrappedOutput lo hi m.toNat) m r).2.matchedBuckets ≠
      plausibleBuckets period r.toNat m.toNat (wrappedOutput lo hi m.toNat) := by
  have hpos : 0 < m := UInt32.lt_iff_toNat_lt.mpr (by change 0 < m.toNat; omega)
  have hall : ∀ b ∈ List.range m.toNat, matched (buildWindowSet period (max 1 (r.toNat / m.toNat)))
      (buildWindowSet period (max 1 (r.toNat / m.toNat) + 1))
      ((wrappedOutput lo hi m.toNat).getD (b.toUInt32 * 2).toNat 0)
      ((wrappedOutput lo hi m.toNat).getD (b.toUInt32 * 2 + 1).toNat 0) = true := by
    intro b hb
    obtain ⟨hlo, hhi⟩ := read_wrappedOutput hm lo hi (List.mem_range.mp hb)
    rw [hlo, hhi]
    exact (matched_bucket_iff hp r.toNat m.toNat).mpr hpair
  rw [verify32_eq hv hp hpos hr, List.countP_eq_length.mpr hall, List.length_range]
  exact (plausibleBuckets_lt hm period r.toNat lo hi).ne'

/-- Some pair is plausible: that of any window. -/
theorem exists_plausible_pair (hp : 0 < period.length) (r m : ℕ) : ∃ lo hi, Plausible period r m lo hi := by
  have hw : 0 < max 1 (r / m) := lt_max_of_lt_left Nat.one_pos
  obtain ⟨lo, hi, hlo, hhi⟩ := exists_extremes hw period 0
  exact ⟨lo, hi, .inl ⟨0, hp, lo, hi, hlo, hhi, by simp, by simp⟩⟩

/-- **`verify` counts exactly the plausible buckets**, whatever was set, cleared and verified before, for every output of
up to `2 ^ 31` buckets and for no larger number. -/
theorem verify32_counts_iff (calls : List Call) (period : List Int16) (hcur : currentPeriod calls = some period)
    (hp : 0 < period.length) (m r : UInt32) (hm : 0 < m) (hr : 0 < r) :
    (∀ decimated : List Int16, decimated.length = 2 * m.toNat →
      ((run calls).verify32 decimated m r).2.matchedBuckets = plausibleBuckets period r.toNat m.toNat decimated) ↔
        m.toNat ≤ 2 ^ 31 := by
  have hv : (run calls).periodBuf = some period := (periodBuf_run calls).trans hcur
  constructor
  · intro hexact
    by_contra hcon
    obtain ⟨lo, hi, hpair⟩ := exists_plausible_pair hp r.toNat m.toNat
    exact verify32_wrapped hv hp (by omega) hr hpair (hexact _ (length_wrappedOutput lo hi m.toNat))
  · intro hle decimated _
    exact verify32_counts hv hp hm hr hle decimated

theorem verify32_counts_iff_second :
    ((run [.setPeriod [3, -1], .verify [3, 3] 1 1, .setPeriod [0, 5]]).verify32 [0, 5, 1, 1] 2 7).2.matchedBuckets =
      plausibleBuckets [0, 5] 7 2 [0, 5, 1, 1] :=
  (verify32_counts_iff [.setPeriod [3, -1], .verify [3, 3] 1 1, .setPeriod [0, 5]] [0, 5] rfl (by decide) 2 7 (by decide)
    (by decide)).mpr (by decide) [0, 5, 1, 1] rfl

/-- With `2 ^ 31 + 1` buckets the last one is read at the entries of the first. -/
theorem verify32_last_bucket :
    ((run [.setPeriod [0]]).verify32 (wrappedOutput 0 0 (2 ^ 31 + 1)) 2147483649 1).2.matchedBuckets ≠
      plausibleBuckets [0] 1 (2 ^ 31 + 1) (wrappedOutput 0 0 (2 ^ 31 + 1)) := by
  have hzero : Plausible [0] 1 (2 ^ 31 + 1) 0 0 := .inl ⟨0, by decide, 0, 0, by decide, by decide, by decide, by decide⟩
  exact verify32_wrapped (m := 2147483649) (r := 1) rfl (by decide) (by decide) (by decide) hzero

end History

end Grebe.EnvelopeVerifier
