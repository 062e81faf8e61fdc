import Grebe.EnvelopeHistory
import Grebe.Frame

/-!
# Grebe.ProfileEnvelope — the envelope score of a frame

A profile takes the samples of a frame for the least and the greatest of buckets, and asks the verifier of each channel
how many of these pairs it can match.  A block that is no longer than the target passes the decimation unchanged: its
pairs are just consecutive samples, and the score tells how well they pass for extremes.

* `runEnvelopeVerification`: the score, and the verifiers after it.
* `pairPasses_iff`: which pairs of consecutive samples pass, by the samples of the source.
* `passed_score_iff`: when the score of such a block is full.
-/

namespace Grebe

open Lib

/-- `grebe::DecimationAlgorithm` -/
inductive DecimationAlgorithm
  | none
  | minMax
  | lttb
deriving DecidableEq

namespace ProfileRunner

open EnvelopeVerifier

/-! ## The score -/

section Score

/-- One round of the loop over the channels: the verifier after it, and the match rate if there is one. -/
def verifyChannel (v : EnvelopeVerifier) (chDecimated : List Int16) (numBuckets chRaw : UInt32) :
    EnvelopeVerifier × Option ℚ :=
  if v.isReady = false then (v, .none)
  else if chRaw = 0 then (v, .none)
  else
    let r := v.verify32 chDecimated numBuckets chRaw
    (r.1, if r.2.matchRate ≥ 0 then some r.2.matchRate else .none)

/-- `total_match / verified_channels` -/
def averageMatch (rates : List ℚ) : ℚ := if rates = [] then -1 else rates.sum / rates.length

/-- `run_envelope_verification` -/
def runEnvelopeVerification (envelopeVerifiers : List EnvelopeVerifier) (channelCount : UInt32) (frameData : List Int16)
    (perChVtx rawSamples : UInt32) (decAlgo : DecimationAlgorithm) (perChRaw : Option (List UInt32)) :
    List EnvelopeVerifier × ℚ :=
  if decAlgo ≠ .minMax ∨ perChVtx = 0 ∨ rawSamples = 0 then (envelopeVerifiers, -1)
  else if perChRaw.getD [] = [] then (envelopeVerifiers, -1)
  else
    let numBuckets := perChVtx / 2
    if numBuckets = 0 then (envelopeVerifiers, -1)
    else if envelopeVerifiers.length ≠ channelCount.toNat then (envelopeVerifiers, -1)
    else
      let results := envelopeVerifiers.mapIdx fun ch v =>
        verifyChannel v (frameData.drop (ch * perChVtx.toNat)) numBuckets ((perChRaw.getD []).getD ch 0)
      (results.map (·.1), averageMatch (results.filterMap (·.2)))

/-- A source: a period, and the phase at the beginning of the block. -/
structure PeriodicSource where
  period : List Int16
  phase : ℕ

/-- What the pipeline makes of `n` samples of each source in `MinMax` mode. -/
def pipelineFrame (sources : List PeriodicSource) (n target : ℕ) : List Int16 :=
  (sources.map fun source => Decimator.decimate (cyclic source.period source.phase n) .minMax target).flatten

end Score

/-! ## Pairs of consecutive samples -/

section Pairs

variable {period : List Int16} {lo hi : Int16} {w n k : ℕ}

/-- Sample `k` of the repeated period. -/
def sampleAt (period : List Int16) (k : ℕ) : ℤ := (period.getD (k % period.length) 0).toInt

/-- `w` consecutive samples from `s` on have `lo` and `hi` for their extremes, up to one step. -/
def WindowNear (period : List Int16) (w s : ℕ) (lo hi : ℤ) : Prop :=
  (∀ i < w, lo - 1 ≤ sampleAt period (s + i) ∧ sampleAt period (s + i) ≤ hi + 1) ∧
    (∃ i < w, sampleAt period (s + i) ≤ lo + 1) ∧ ∃ i < w, hi - 1 ≤ sampleAt period (s + i)

/-- The samples `k` and `k + 1` pass for the extremes of a bucket of a block of `n`: the second is at least the first,
or one less; or it is two less, and the value between them comes twice in a row.  A block of three is one bucket, and
some three or four samples have to have these extremes. -/
def PairPasses (period : List Int16) (n k : ℕ) : Prop :=
  let x := sampleAt period k
  let y := sampleAt period (k + 1)
  if n = 3 then ∃ s, WindowNear period 3 s x y ∨ WindowNear period 4 s x y
  else x ≤ y + 1 ∨ x = y + 2 ∧ ∃ s, sampleAt period s = y + 1 ∧ sampleAt period (s + 1) = y + 1

theorem mem_cyclic_sampleAt {s : ℕ} {x : Int16} (hx : x ∈ cyclic period s w) :
    ∃ i < w, sampleAt period (s + i) = x.toInt := by
  obtain ⟨i, hi, rfl⟩ := mem_cyclic.mp hx
  exact ⟨i, hi, rfl⟩

theorem sampleAt_mem_cyclic (period : List Int16) (s : ℕ) {i : ℕ} (hi : i < w) :
    ∃ x ∈ cyclic period s w, sampleAt period (s + i) = x.toInt :=
  ⟨_, mem_cyclic.mpr ⟨i, hi, rfl⟩, rfl⟩

/-- The extremes of a window, by its samples. -/
theorem near_iff_window (hp : 0 < period.length) (hw : 0 < w) :
    Near period w lo hi ↔ ∃ s, WindowNear period w s lo.toInt hi.toInt := by
  constructor
  · rintro ⟨s, -, lo', hi', hmin, hmax, hlo, hhi⟩
    obtain ⟨hlomem, hleast⟩ := List.minimum_eq_coe_iff.mp hmin
    obtain ⟨himem, hgreatest⟩ := List.maximum_eq_coe_iff.mp hmax
    rw [abs_le] at hlo hhi
    refine ⟨s, fun i hi => ?_, ?_, ?_⟩
    · obtain ⟨x, hx, heq⟩ := sampleAt_mem_cyclic period s hi
      have hge := Int16.le_iff_toInt_le.mp (hleast x hx)
      have hle := Int16.le_iff_toInt_le.mp (hgreatest x hx)
      omega
    · obtain ⟨i, hi, heq⟩ := mem_cyclic_sampleAt hlomem
      exact ⟨i, hi, by omega⟩
    · obtain ⟨i, hi, heq⟩ := mem_cyclic_sampleAt himem
      exact ⟨i, hi, by omega⟩
  · rintro ⟨s, hall, ⟨i, hi, hlo⟩, ⟨j, hj, hhi⟩⟩
    obtain ⟨lo', hi', hmin, hmax⟩ := exists_extremes hw period s
    obtain ⟨hlomem, hleast⟩ := List.minimum_eq_coe_iff.mp hmin
    obtain ⟨himem, hgreatest⟩ := List.maximum_eq_coe_iff.mp hmax
    refine ⟨s % period.length, Nat.mod_lt s hp, lo', hi', ?_, ?_, abs_le.mpr ?_, abs_le.mpr ?_⟩
    · rwa [cyclic_mod]
    · rwa [cyclic_mod]
    · obtain ⟨x, hx, heq⟩ := sampleAt_mem_cyclic period s hi
      obtain ⟨k, hk, heq'⟩ := mem_cyclic_sampleAt hlomem
      have hle := Int16.le_iff_toInt_le.mp (hleast x hx)
      have := hall k hk
      omega
    · obtain ⟨x, hx, heq⟩ := sampleAt_mem_cyclic period s hj
      obtain ⟨k, hk, heq'⟩ := mem_cyclic_sampleAt himem
      have hge := Int16.le_iff_toInt_le.mp (hgreatest x hx)
      have := hall k hk
      omega

/-- The buckets of a block that is not of three samples have two of them, or three. -/
theorem bucketSize_eq (hn : 2 ≤ n) (hne : n ≠ 3) : n / (n / 2) = 2 :=
  Nat.div_eq_of_lt_le (by omega) (by omega)

/-- A window with these extremes is not far from the pair, and the pair itself is one if it does not fall by more than
one. -/
theorem windowNear_pair_iff (hw : w = 2 ∨ w = 3) (h : ∃ s, WindowNear period w s (sampleAt period k)
    (sampleAt period (k + 1))) : sampleAt period k ≤ sampleAt period (k + 1) + 1 ∨
      sampleAt period k = sampleAt period (k + 1) + 2 ∧
        ∃ s, sampleAt period s = sampleAt period (k + 1) + 1 ∧ sampleAt period (s + 1) = sampleAt period (k + 1) + 1 := by
  obtain ⟨s, hall, -, -⟩ := h
  have hfirst := hall 0 (by omega)
  have hsecond := hall 1 (by omega)
  rw [Nat.add_zero] at hfirst
  by_cases hle : sampleAt period k ≤ sampleAt period (k + 1) + 1
  · exact .inl hle
  · exact .inr ⟨by omega, s, by omega, by omega⟩

/-- **A pair of consecutive samples is plausible exactly if it passes.** -/
theorem pairPasses_iff (hp : 0 < period.length) (hn : 2 ≤ n) (k : ℕ) :
    Plausible period n (n / 2) (period.getD (k % period.length) 0) (period.getD ((k + 1) % period.length) 0) ↔
      PairPasses period n k := by
  unfold PairPasses
  by_cases hthree : n = 3
  · subst hthree
    rw [if_pos rfl, Plausible, near_iff_window hp (by decide), near_iff_window hp (by decide), ← exists_or]
    rfl
  · rw [if_neg hthree, Plausible, bucketSize_eq hn hthree, near_iff_window hp (by decide),
      near_iff_window hp (by decide)]
    constructor
    · rintro (h | h)
      · exact windowNear_pair_iff (.inl rfl) h
      · exact windowNear_pair_iff (.inr rfl) h
    · intro h
      left
      change ∃ s, WindowNear period 2 s (sampleAt period k) (sampleAt period (k + 1))
      have htwo {P : ℕ → Prop} (h0 : P 0) (h1 : P 1) : ∀ i < 2, P i := by
        intro i hi
        interval_cases i
        · exact h0
        · exact h1
      obtain hle | ⟨hfalls, s, hs, hs'⟩ := h
      · refine ⟨k, htwo ⟨?_, ?_⟩ ⟨?_, ?_⟩, ⟨0, by decide, ?_⟩, 1, by decide, ?_⟩ <;>
          rw [Nat.add_zero] <;> omega
      · refine ⟨s, htwo ⟨?_, ?_⟩ ⟨?_, ?_⟩, ⟨0, by decide, ?_⟩, 1, by decide, ?_⟩ <;>
          rw [Nat.add_zero] <;> omega

end Pairs

/-! ## One channel -/

section Channel

variable {v : EnvelopeVerifier} {source : PeriodicSource} {decimated : List Int16} {n : UInt32}

/-- The entries are the samples of the block. -/
def IsBlock (source : PeriodicSource) (n : ℕ) (decimated : List Int16) : Prop :=
  ∀ i < n, decimated.getD i 0 = source.period.getD ((source.phase + i) % source.period.length) 0

theorem countP_range_eq_iff {f : ℕ → Bool} {P : ℕ → Prop} {m : ℕ} (h : ∀ b < m, f b = true ↔ P b) :
    (List.range m).countP f = m ↔ ∀ b < m, P b := by
  have hlen : (List.range m).countP f = m ↔ (List.range m).countP f = (List.range m).length := by
    rw [List.length_range]
  rw [hlen, List.countP_eq_length]
  simp only [List.mem_range]
  exact forall₂_congr h

/-- **The rate of a channel is full if all pairs of the block pass.** -/
theorem verifyChannel_block (hready : v.isReady = true) (hv : v.periodBuf = some source.period) (hn : 2 ≤ n.toNat)
    (hblock : IsBlock source n.toNat decimated) :
    ∃ rate, (verifyChannel v decimated (n / 2) n).2 = some rate ∧ 0 ≤ rate ∧ rate ≤ 1 ∧
      (rate = 1 ↔ ∀ b < n.toNat / 2, PairPasses source.period n.toNat (source.phase + 2 * b)) := by
  have hp : 0 < source.period.length := by simpa [isReady, hv] using hready
  have hm : (n / 2).toNat = n.toNat / 2 := UInt32.toNat_div n 2
  have hmpos : 0 < n / 2 := by
    rw [UInt32.lt_iff_toNat_lt, hm, UInt32.toNat_zero]
    omega
  have hnpos : 0 < n := by
    rw [UInt32.lt_iff_toNat_lt, UInt32.toNat_zero]
    omega
  have hguard : ¬(v.isReady = false ∨ n / 2 = 0 ∨ n = 0) := by
    rintro (h | h | h)
    · rw [hready] at h
      cases h
    · exact hmpos.ne' h
    · exact hnpos.ne' h
  have hlt := n.toNat_lt
  -- the matched buckets are those whose pair passes
  have hcount := verify32_eq hv hp hmpos hnpos decimated
  rw [hm] at hcount
  have hpass : ∀ b < n.toNat / 2,
      matched (buildWindowSet source.period (max 1 (n.toNat / (n.toNat / 2))))
          (buildWindowSet source.period (max 1 (n.toNat / (n.toNat / 2)) + 1))
          (decimated.getD (b.toUInt32 * 2).toNat 0) (decimated.getD (b.toUInt32 * 2 + 1).toNat 0) = true ↔
        PairPasses source.period n.toNat (source.phase + 2 * b) := by
    intro b hb
    obtain ⟨heven, hodd⟩ := toNat_index (b := b) (by omega)
    rw [heven, hodd, matched_bucket_iff hp, hblock _ (by omega), hblock _ (by omega), ← Nat.add_assoc]
    exact pairPasses_iff hp hn _
  have hrate : (v.verify32 decimated (n / 2) n).2.matchRate =
      ((v.verify32 decimated (n / 2) n).2.matchedBuckets : ℚ) / (n.toNat / 2 : ℕ) := by
    unfold verify32
    rw [if_neg hguard, ← hm]
  generalize (v.verify32 decimated (n / 2) n).2.matchedBuckets = matchedBuckets at hcount hrate
  have hpos : (0 : ℚ) < (n.toNat / 2 : ℕ) := by
    rw [UInt32.lt_iff_toNat_lt, hm] at hmpos
    exact_mod_cast hmpos
  have hle : matchedBuckets ≤ n.toNat / 2 := by
    rw [hcount]
    exact List.countP_le_length.trans_eq List.length_range
  have hnonneg : (0 : ℚ) ≤ matchedBuckets / (n.toNat / 2 : ℕ) := by positivity
  refine ⟨matchedBuckets / (n.toNat / 2 : ℕ), ?_, hnonneg, (div_le_one hpos).mpr (by exact_mod_cast hle), ?_⟩
  · rw [verifyChannel, if_neg (by rw [hready]; decide), if_neg hnpos.ne']
    dsimp only
    rw [hrate, if_pos hnonneg]
  · rw [div_eq_one_iff_eq hpos.ne', Nat.cast_inj, hcount]
    exact countP_range_eq_iff hpass

end Channel

/-! ## The frame -/

section Frames

variable {verifiers : List EnvelopeVerifier} {sources : List PeriodicSource} {source : PeriodicSource}
  {channelCount n rawSamples : UInt32} {target ch : ℕ} {rates : List ℚ}

theorem sum_le_length (hle : ∀ r ∈ rates, r ≤ 1) : rates.sum ≤ rates.length := by
  have h := List.sum_le_card_nsmul rates 1 hle
  rwa [nsmul_one] at h

theorem sum_eq_length_iff (hle : ∀ r ∈ rates, r ≤ 1) : rates.sum = rates.length ↔ ∀ r ∈ rates, r = 1 := by
  induction rates with
  | nil => simp
  | cons r rates ih =>
    obtain ⟨hr, hrates⟩ := List.forall_mem_cons.mp hle
    have hsum := sum_le_length hrates
    rw [List.sum_cons, List.length_cons, Nat.cast_add_one, List.forall_mem_cons, ← ih hrates]
    constructor
    · intro h
      exact ⟨by linarith, by linarith⟩
    · rintro ⟨rfl, h⟩
      linarith

/-- An average of rates is skipped or full if all are full. -/
theorem averageMatch_iff (hbounds : ∀ r ∈ rates, 0 ≤ r ∧ r ≤ 1) :
    averageMatch rates = -1 ∨ averageMatch rates = 1 ↔ ∀ r ∈ rates, r = 1 := by
  unfold averageMatch
  by_cases hne : rates = []
  · simp [hne]
  · have hlen : (0 : ℚ) < rates.length := by exact_mod_cast List.length_pos_of_ne_nil hne
    have haverage : 0 ≤ rates.sum / rates.length := div_nonneg (List.sum_nonneg fun r hr => (hbounds r hr).1) hlen.le
    rw [if_neg hne, or_iff_right (by linarith), div_eq_one_iff_eq hlen.ne',
      sum_eq_length_iff fun r hr => (hbounds r hr).2]

/-- **A block no longer than the target passes unchanged.** -/
theorem isBlock_pipelineFrame {n : ℕ} (hn : 2 ≤ n) (htarget : n ≤ target) (hsource : sources[ch]? = some source) :
    IsBlock source n ((pipelineFrame sources n target).drop (ch * n)) := by
  have hpassed (source : PeriodicSource) : Decimator.decimate (cyclic source.period source.phase n) .minMax target =
      cyclic source.period source.phase n := by
    rw [Decimator.decimate, Decimator.minmax, Decimator.minmaxWith, if_neg (by omega), if_pos]
    rwa [length_cyclic]
  obtain ⟨hch, rfl⟩ := List.getElem?_eq_some_iff.mp hsource
  have hlen : ∀ r ∈ sources.map (fun source => cyclic source.period source.phase n), r.length = n := by simp
  have hslice := take_drop_flatten hlen (show ch < _ by simpa using hch)
  intro i hi
  rw [pipelineFrame, List.map_congr_left fun source _ => hpassed source, List.getD_eq_getElem?_getD,
    ← List.getElem?_take_of_lt hi, hslice]
  simp [cyclic, hi]

/-- The rates of the channels that are verified. -/
theorem verifyChannel_some {v : EnvelopeVerifier} {decimated : List Int16} {numBuckets chRaw : UInt32} {rate : ℚ}
    (h : (verifyChannel v decimated numBuckets chRaw).2 = some rate) : v.isReady = true := by
  by_contra hready
  rw [verifyChannel, if_pos (by simpa using hready)] at h
  cases h

/-- The rates of a frame of which every channel has `n` samples. -/
def matchRates (verifiers : List EnvelopeVerifier) (frameData : List Int16) (n : UInt32) : List ℚ :=
  (verifiers.mapIdx fun ch v => verifyChannel v (frameData.drop (ch * n.toNat)) (n / 2) n).filterMap (·.2)

theorem mem_matchRates {frameData : List Int16} {rate : ℚ} : rate ∈ matchRates verifiers frameData n ↔
    ∃ (ch : ℕ) (v : EnvelopeVerifier), verifiers[ch]? = some v ∧
      (verifyChannel v (frameData.drop (ch * n.toNat)) (n / 2) n).2 = some rate := by
  simp only [matchRates, List.mem_filterMap, List.mem_mapIdx]
  constructor
  · rintro ⟨_, ⟨ch, hch, rfl⟩, hrate⟩
    exact ⟨ch, _, List.getElem?_eq_getElem hch, hrate⟩
  · rintro ⟨ch, v, hv, hrate⟩
    obtain ⟨hch, rfl⟩ := List.getElem?_eq_some_iff.mp hv
    exact ⟨_, ⟨ch, hch, rfl⟩, hrate⟩

/-- A frame that a guard skips. -/
theorem score_of_guarded (hguard : rawSamples = 0 ∨ channelCount = 0 ∨ verifiers.length ≠ channelCount.toNat)
    (frameData : List Int16) (perChVtx n : UInt32) :
    (runEnvelopeVerification verifiers channelCount frameData perChVtx rawSamples .minMax
      (some (List.replicate channelCount.toNat n))).2 = -1 := by
  obtain hraw | rfl | hverifiers := hguard
  · rw [runEnvelopeVerification, if_pos (.inr (.inr hraw))]
  · rw [runEnvelopeVerification, if_pos (show (some (List.replicate _ n)).getD [] = [] from rfl), ite_self]
  · unfold runEnvelopeVerification
    simp only [if_pos hverifiers, ite_self]

/-- Behind the guards the score is the average of the rates. -/
theorem score_of_unguarded (frameData : List Int16) (hn : 2 ≤ n.toNat) (hraw : rawSamples ≠ 0)
    (hcount : channelCount ≠ 0) (hverifiers : verifiers.length = channelCount.toNat) :
    (runEnvelopeVerification verifiers channelCount frameData n rawSamples .minMax
      (some (List.replicate channelCount.toNat n))).2 = averageMatch (matchRates verifiers frameData n) := by
  have hzero : n ≠ 0 := by
    rintro rfl
    exact absurd hn (by decide)
  have hbuckets : n / 2 ≠ 0 := by
    intro h
    have := congrArg UInt32.toNat h
    rw [UInt32.toNat_div, UInt32.toNat_zero, show (2 : UInt32).toNat = 2 from rfl] at this
    omega
  have hraws : List.replicate channelCount.toNat n ≠ [] := by
    rw [Ne, List.replicate_eq_nil_iff]
    exact fun h => hcount (UInt32.toNat.inj h)
  rw [runEnvelopeVerification, if_neg (by simp [hzero, hraw]), Option.getD_some, if_neg hraws]
  dsimp only
  rw [if_neg hbuckets, if_neg (not_not.mpr hverifiers), matchRates]
  apply congrArg (fun results => averageMatch (List.filterMap Prod.snd results))
  apply List.ext_getElem (by simp)
  intro ch hch _
  have hlt : ch < channelCount.toNat := by
    rw [List.length_mapIdx] at hch
    omega
  simp [hlt]

/-- **When the score of an undecimated frame is full.**  A block of `n` samples of each source is within the target, and
every verifier that has a period has that of its source.  Then the frame is skipped or has a full score exactly if a guard
skips it, or the pairs of every channel that is verified pass for extremes. -/
theorem passed_score_iff (hn : 2 ≤ n.toNat) (htarget : n.toNat ≤ target)
    (hsources : sources.length = channelCount.toNat)
    (hperiod : ∀ (ch : ℕ) v source, verifiers[ch]? = some v → sources[ch]? = some source → v.isReady = true →
      v.periodBuf = some source.period) :
    (let score := (runEnvelopeVerification verifiers channelCount (pipelineFrame sources n.toNat target) n rawSamples
      .minMax (some (List.replicate channelCount.toNat n))).2
     score = -1 ∨ score = 1) ↔
      rawSamples = 0 ∨ verifiers.length ≠ channelCount.toNat ∨
      ∀ (ch : ℕ) v source, verifiers[ch]? = some v → sources[ch]? = some source → v.isReady = true →
        ∀ b < n.toNat / 2, PairPasses source.period n.toNat (source.phase + 2 * b) := by
  by_cases hguard : rawSamples = 0 ∨ channelCount = 0 ∨ verifiers.length ≠ channelCount.toNat
  · apply iff_of_true (.inl (score_of_guarded hguard _ n n))
    obtain hraw | rfl | hverifiers := hguard
    · exact .inl hraw
    · by_cases hnone : verifiers = []
      · exact .inr (.inr fun ch v source hv => by simp [hnone] at hv)
      · exact .inr (.inl (List.length_pos_of_ne_nil hnone).ne')
    · exact .inr (.inl hverifiers)
  obtain ⟨hraw, hcount, hverifiers⟩ : rawSamples ≠ 0 ∧ channelCount ≠ 0 ∧ verifiers.length = channelCount.toNat := by
    simpa only [not_or, not_not] using hguard
  have hblock (ch : ℕ) (v source) (hv : verifiers[ch]? = some v) (hsource : sources[ch]? = some source)
      (hready : v.isReady = true) := verifyChannel_block hready (hperiod ch v source hv hsource hready) hn
        (isBlock_pipelineFrame hn htarget hsource)
  have hrates : ∀ rate ∈ matchRates verifiers (pipelineFrame sources n.toNat target) n,
      ∃ (ch : ℕ) (v : EnvelopeVerifier) (source : PeriodicSource), verifiers[ch]? = some v ∧
        sources[ch]? = some source ∧ v.isReady = true ∧ (0 ≤ rate ∧ rate ≤ 1) ∧
        (rate = 1 ↔ ∀ b < n.toNat / 2, PairPasses source.period n.toNat (source.phase + 2 * b)) := by
    intro rate hrate
    obtain ⟨ch, v, hv, hrate⟩ := mem_matchRates.mp hrate
    have hready := verifyChannel_some hrate
    have hch : ch < sources.length := by
      rw [hsources, ← hverifiers]
      exact (List.getElem?_eq_some_iff.mp hv).1
    have hsource := List.getElem?_eq_getElem hch
    obtain ⟨_, hrate', hnonneg, hle, hiff⟩ := hblock ch v _ hv hsource hready
    obtain rfl := Option.some.inj (hrate'.symm.trans hrate)
    exact ⟨ch, v, _, hv, hsource, hready, ⟨hnonneg, hle⟩, hiff⟩
  dsimp only
  rw [score_of_unguarded _ hn hraw hcount hverifiers, or_iff_right hraw, or_iff_right (not_not.mpr hverifiers),
    averageMatch_iff fun rate hrate => ?_]
  · constructor
    · intro hall ch v source hv hsource hready
      obtain ⟨rate, hrate, -, -, hiff⟩ := hblock ch v source hv hsource hready
      exact hiff.mp (hall rate (mem_matchRates.mpr ⟨ch, v, hv, hrate⟩))
    · intro hall rate hrate
      obtain ⟨ch, v, source, hv, hsource, hready, -, hiff⟩ := hrates rate hrate
      exact hiff.mpr (hall ch v source hv hsource hready)
  · obtain ⟨_, _, _, _, _, _, hbounds, _⟩ := hrates rate hrate
    exact hbounds

/-- A square wave, and a block that begins with its fall. -/
def falling : PeriodicSource := ⟨[100, 0], 0⟩

/-- **A block of two samples has a score of zero**: 100 and 0 are no extremes of a window. -/
theorem undecimated_score_zero :
    (runEnvelopeVerification [setPeriod falling.period] 1 (pipelineFrame [falling] 2 3840) 2 2 .minMax (some [2])).2 =
      0 := by
  decide +kernel

/-- The same wave, from its rise on. -/
theorem passed_score_rising :
    let score := (runEnvelopeVerification [setPeriod falling.period] 1 (pipelineFrame [⟨falling.period, 1⟩] 2 3840) 2 2
      .minMax (some [2])).2
    score = -1 ∨ score = 1 := by
  refine (passed_score_iff (show 2 ≤ (2 : UInt32).toNat by decide) (show (2 : UInt32).toNat ≤ 3840 by decide) rfl
    ?_).mpr (.inr (.inr ?_))
  · rintro (_ | ch) v source hv hsource -
    · cases hv
      cases hsource
      rfl
    · cases hv
  · rintro (_ | ch) v source hv hsource - b hb
    · cases hsource
      obtain rfl : b = 0 := Nat.lt_one_iff.mp hb
      exact .inl (by decide)
    · cases hv

end Frames

end ProfileRunner

end Grebe
