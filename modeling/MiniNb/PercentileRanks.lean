import MiniNb.PercentileAccuracy

/-!
# Percentiles of one sample

A greater percentile is never reported with a smaller value, and the hundredth
one is the greatest sample. The bucket a percentile is taken from does not
always hold the promised share of the samples: the threshold is rounded down,
so when it is not exact and a running count meets it, one sample is missing.
-/

namespace PercentileRanks

open MiniNb ExactDouble RankCounting SampleSummary BucketCounts Interpolation Percentiles
open PercentileAccuracy

universe u
variable {K : Type u} [Field K] [LinearOrder K] [IsStrictOrderedRing K]

section Values
variable {xs : List K} {k k' : Nat} {stop stop' : Stop} {m M : K}

omit [IsStrictOrderedRing K] in
theorem StopsAt.same_counts (stops : StopsAt xs k stop) (stops' : StopsAt xs k' stop')
    (same : stop.bucket = stop'.bucket) : stop = stop' := by
  have hleft : stop.left = stop'.left := by rw [stops.left_eq, stops'.left_eq, same]
  have hright : stop.right = stop'.right := by rw [stops.right_eq, stops'.right_eq, same]
  cases stop
  cases stop'
  exact (Stop.mk.injEq ..).mpr ⟨same, hleft, hright⟩

/-- In one bucket, a greater threshold gives a greater result. -/
theorem valueIn_threshold_mono (stop : Stop) (h : m ≤ M) (hk : k ≤ k') :
    valueIn stop k m M ≤ valueIn stop k' m M := by
  rcases Nat.lt_or_ge stop.bucket (nbHistogramBounds K).length with hb | hb
  · rw [valueIn_inner hb, valueIn_inner hb]
    exact clampTo_mono h h (le_refl m) (le_refl M) (mix_mono (lowerBound_lt hb) (fraction_mono hk))
  · rw [valueIn_last hb, valueIn_last hb]

/-- The scan for all values stops in the bucket of the greatest one. -/
theorem valueIn_all (stops : StopsAt xs xs.length stop) (hleft : stop.left < xs.length)
    (h : m ≤ M) (hM : M ∈ xs) : valueIn stop xs.length m M = M := by
  have hright : stop.right = xs.length := by
    have hle : below xs (stop.bucket + 1) ≤ xs.length := List.countP_le_length
    have reached := stops.reached
    rw [stops.right_eq] at reached ⊢
    omega
  rcases Nat.lt_or_ge stop.bucket (nbHistogramBounds K).length with hb | hb
  · rw [valueIn_inner hb, rawValue, hright, fraction_full hleft, mix_one]
    apply clampTo_of_le h
    have hall := List.countP_eq_length.mp (stops.right_eq.symm.trans hright) M hM
    have hbucket : bucketOf M < stop.bucket + 1 := of_decide_eq_true hall
    rw [bucketOf_lt_succ_iff stops.bucket_le, boundaryAt_fin hb] at hbucket
    exact hbucket
  · exact valueIn_last hb _ _ _

end Values

variable [FloorSemiring K]

theorem thresholdOf_mono (n : Nat) {p q : K} (hpq : p ≤ q) : thresholdOf n p ≤ thresholdOf n q :=
  Nat.floor_mono (mul_le_mul_of_nonneg_left hpq (Nat.cast_nonneg n))

theorem thresholdOf_one (n : Nat) : thresholdOf n (1 : K) = n := by
  rw [thresholdOf, mul_one, Nat.floor_natCast]

section Collection
variable {hist : NbHistogram K} {xs : List K} {p q : K}

theorem collected_monotone (h : Collected hist xs) (hpq : p ≤ q) (atMost : q ≤ 1)
    (enough : 1 ≤ thresholdOf xs.length p) :
    nbHistogramPercentile hist (.fin p) ≤ nbHistogramPercentile hist (.fin q) := by
  obtain ⟨m, hm, hmin, least⟩ := h.min_eq
  obtain ⟨M, hM, hmax, greatest⟩ := h.max_eq
  have atMostP := le_trans hpq atMost
  have hk := thresholdOf_mono xs.length hpq
  have enoughQ := le_trans enough hk
  obtain ⟨stop, _, stops, hleft, hvalue⟩ := percentile_located h atMostP enough hmin hmax
  obtain ⟨stop', _, stops', hleft', hvalue'⟩ := percentile_located h atMost enoughQ hmin hmax
  have hp := order_statistic_exists atMostP enough
  have hq := order_statistic_exists atMost enoughQ
  have hbucket := stops.bucket_eq hleft hp
  have hbucket' := stops'.bucket_eq hleft' hq
  have hle : stop.bucket ≤ stop'.bucket := by
    rw [← hbucket, ← hbucket']
    exact rank_mono _ (sorted_le_sorted xs (Nat.sub_le_sub_right hk 1) hq)
  rw [hvalue, hvalue', Dbl.fin_le_fin]
  rcases Nat.lt_or_eq_of_le hle with hlt | same
  · -- The values lie in their buckets, and these are in order.
    have hmem := (sorted_perm xs).mem_iff.mp (List.getElem_mem hp)
    have hmem' := (sorted_perm xs).mem_iff.mp (List.getElem_mem hq)
    have inP := bucketOf_valueIn stops enough hbucket (least _ hmem) (greatest _ hmem)
    have inQ := bucketOf_valueIn stops' enoughQ hbucket' (least _ hmem') (greatest _ hmem')
    rw [← inP, ← inQ] at hlt
    exact le_of_rank_lt hlt
  · rw [StopsAt.same_counts stops stops' same]
    exact valueIn_threshold_mono stop' (greatest m hm) hk

theorem collected_maximum (h : Collected hist xs) :
    nbHistogramPercentile hist (.fin 1) = hist.max := by
  obtain ⟨m, hm, hmin, _⟩ := h.min_eq
  obtain ⟨M, hM, hmax, greatest⟩ := h.max_eq
  have hpos : 1 ≤ xs.length := List.length_pos_of_mem hm
  obtain ⟨stop, _, stops, hleft, hvalue⟩ := percentile_located h (le_refl (1 : K))
    (by rwa [thresholdOf_one]) hmin hmax
  rw [thresholdOf_one] at stops hleft hvalue
  rw [hvalue, hmax, valueIn_all stops hleft (greatest m hm) hM]

end Collection

/-- Percentiles are monotone as long as the threshold is positive, and end at the maximum. -/
theorem percentile_monotone (power : Int) {samples : List K} (nonneg : ∀ x ∈ samples, 0 ≤ x)
    (nonempty : samples ≠ []) :
    (∀ p q : K, p ≤ q → q ≤ 1 → 1 ≤ thresholdOf samples.length p →
      nbHistogramPercentile (histogramOf power samples) (.fin p) ≤
        nbHistogramPercentile (histogramOf power samples) (.fin q)) ∧
    nbHistogramPercentile (histogramOf power samples) (.fin 1) =
      (histogramOf power samples).max := by
  have collected := collected_histogramOf power nonneg nonempty
  refine ⟨?_, collected_maximum collected⟩
  intro p q hpq atMost enough
  exact collected_monotone collected hpq atMost (by rwa [length_scaledValues])

theorem percentile_monotone_three :
    nbHistogramPercentile (histogramOf 0 threeSamples) (.fin (1 / 3 : ℚ)) ≤
        nbHistogramPercentile (histogramOf 0 threeSamples) (.fin (2 / 3)) ∧
      nbHistogramPercentile (histogramOf 0 threeSamples) (.fin (1 : ℚ)) =
        (histogramOf 0 threeSamples).max := by
  have nonneg : ∀ x ∈ threeSamples, 0 ≤ x := by decide +kernel
  have nonempty : threeSamples ≠ [] := by decide
  have enough : 1 ≤ thresholdOf threeSamples.length (1 / 3 : ℚ) := by decide +kernel
  -- With the samples still in sight, the comparison would be computed instead of looked up.
  generalize threeSamples = samples at *
  obtain ⟨monotone, maximum⟩ := percentile_monotone 0 nonneg nonempty
  exact ⟨monotone _ _ (by decide +kernel) (by decide +kernel) enough, maximum⟩

/-- The scan stops in a bucket up to which there is at least the share `p` of
all counted operations. -/
def Covers (hist : NbHistogram K) (p : K) : Prop :=
  ∃ stop, percentileStop hist (.fin p) = some stop ∧
    p * (hist.size : K) ≤ ((hist.buckets.toList.take (stop.bucket + 1)).sum : Nat)

omit [IsStrictOrderedRing K] in
theorem stop_reached {hist : NbHistogram K} (total : hist.buckets.toList.sum = hist.size) {p : K}
    (atMost : ⌊(hist.size : K) * p⌋₊ ≤ hist.size) :
    ∃ stop, percentileStop hist (.fin p) = some stop ∧
      ReachedAt hist.buckets.toList ⌊(hist.size : K) * p⌋₊ stop.bucket := by
  have enough : ⌊(hist.size : K) * p⌋₊ ≤ hist.buckets.toList.sum := by rwa [total]
  obtain ⟨j, hscan, reached⟩ := percentileScan_reached (buckets_ne_nil hist) enough
  exact ⟨_, hscan, reached⟩

/-- A share is covered when it is whole, or its whole part is not met exactly. -/
theorem share_covered_iff {counters : List Nat} {x : K} (hx : 0 ≤ x) {j : Nat}
    (h : ReachedAt counters ⌊x⌋₊ j) :
    x ≤ ((counters.take (j + 1)).sum : Nat) ↔ (⌊x⌋₊ : K) = x ∨
      ∀ b < counters.length, (counters.take (b + 1)).sum ≠ ⌊x⌋₊ := by
  have reached := h.reached
  constructor
  · intro covered
    by_contra missed
    simp only [not_or, not_forall, not_not, exists_prop] at missed
    rw [h.eq_iff.mpr missed.2] at covered
    exact missed.1 (le_antisymm (Nat.floor_le hx) covered)
  · rintro (whole | none_meets)
    · rw [← whole]
      exact Nat.cast_le.mpr reached
    · have hne := none_meets j h.bound
      have hsucc : ⌊x⌋₊ + 1 ≤ (counters.take (j + 1)).sum := by omega
      have hcast : ((⌊x⌋₊ + 1 : Nat) : K) ≤ ((counters.take (j + 1)).sum : Nat) :=
        Nat.cast_le.mpr hsucc
      rw [Nat.cast_add, Nat.cast_one] at hcast
      exact le_trans (le_of_lt (Nat.lt_floor_add_one x)) hcast

omit [FloorSemiring K] in
/-- A running count is the number of samples up to a boundary. -/
theorem running_eq (power : Int) {samples : List (Dbl K)} (nonneg : ∀ x ∈ samples, 0 ≤ x) {b : Nat}
    (hb : b < nbHistogramBucketsCount) :
    ((histogramAfter power samples).buckets.toList.take (b + 1)).sum =
      samples.countP (fun x => decide (scaled power x ≤ boundaryAt b)) := by
  obtain ⟨summary, positive⟩ := histogramAfter_summarizes power nonneg
  have hle : b ≤ nbHistogramBoundaries.length := by
    rw [nbHistogramBucketsCount] at hb
    omega
  have counters : ∀ i (hi : i < (histogramAfter power samples).buckets.toList.length),
      (histogramAfter power samples).buckets.toList[i] =
        (samples.map (scaled power)).countP (fun x => decide ((bucketIndex x).val = i)) := by
    intro i hi
    have hlt : i < nbHistogramBucketsCount := by rwa [Vector.length_toList] at hi
    have counter := summary.bucket_eq ⟨i, hlt⟩
    simp only [Fin.ext_iff] at counter
    rw [Vector.getElem_toList]
    exact counter
  rw [sum_take_counters counters (by rwa [Vector.length_toList]), List.countP_map]
  apply List.countP_congr
  intro x hx
  have hscaled := positive _ (List.mem_map_of_mem hx)
  simp only [Function.comp_apply, decide_eq_true_eq, bucketIndex_lt_succ_iff hle hscaled]

/-- A percentile covers its share exactly when the share is a whole number of
samples, or no boundary has just the whole part of it at or below itself. -/
theorem covers_iff (power : Int) {samples : List (Dbl K)} (nonneg : ∀ x ∈ samples, 0 ≤ x) {p : K}
    (hp : 0 < p) (atMost : p ≤ 1) :
    Covers (histogramAfter power samples) p ↔
      (⌊(samples.length : K) * p⌋₊ : K) = samples.length * p ∨
      ∀ b < nbHistogramBucketsCount,
        samples.countP (fun x => decide (scaled power x ≤ boundaryAt b)) ≠
          ⌊(samples.length : K) * p⌋₊ := by
  have summary := (histogramAfter_summarizes power nonneg).1
  have hsize : (histogramAfter power samples).size = samples.length := by
    rw [summary.size_eq, List.length_map]
  have share : 0 ≤ (samples.length : K) * p := mul_nonneg (Nat.cast_nonneg _) (le_of_lt hp)
  obtain ⟨stop, hstop, reached⟩ := stop_reached summary.buckets_sum
    (thresholdOf_le atMost (histogramAfter power samples).size)
  rw [hsize] at reached
  have hiff := share_covered_iff share reached
  rw [Vector.length_toList] at hiff
  have condition : (∀ b < nbHistogramBucketsCount,
      ((histogramAfter power samples).buckets.toList.take (b + 1)).sum ≠
        ⌊(samples.length : K) * p⌋₊) ↔ ∀ b < nbHistogramBucketsCount,
      samples.countP (fun x => decide (scaled power x ≤ boundaryAt b)) ≠
        ⌊(samples.length : K) * p⌋₊ :=
    forall₂_congr fun b hb => by rw [running_eq power nonneg hb]
  rw [condition] at hiff
  rw [← hiff, Covers, hsize, mul_comm p]
  constructor
  · rintro ⟨stop', hstop', covered⟩
    cases hstop.symm.trans hstop'
    exact covered
  · intro covered
    exact ⟨stop, hstop, covered⟩

def twoSamples : List (Dbl ℚ) := [.fin (1 / 1000000), .fin (3 / 1000000)]

/-- Half of two samples is one sample. -/
theorem covers_half_of_two :
    Covers (histogramAfter 6 twoSamples) (1 / 2) ↔
      (⌊(twoSamples.length : ℚ) * (1 / 2)⌋₊ : ℚ) = twoSamples.length * (1 / 2) ∨
      ∀ b < nbHistogramBucketsCount,
        twoSamples.countP (fun x => decide (scaled 6 x ≤ boundaryAt b)) ≠
          ⌊(twoSamples.length : ℚ) * (1 / 2)⌋₊ :=
  covers_iff 6 (by decide +kernel) (by decide +kernel) (by decide +kernel)

/-- The 95th percentile of two operations is taken from the bucket of the faster one. -/
theorem not_covers_two_samples :
    percentileStop (histogramAfter 6 twoSamples) (.fin (19 / 20)) = some ⟨0, 0, 1⟩ ∧
      ¬ Covers (histogramAfter 6 twoSamples) (19 / 20) := by
  have hstop : percentileStop (histogramAfter 6 twoSamples) (.fin (19 / 20)) = some ⟨0, 0, 1⟩ := by
    decide +kernel
  refine ⟨hstop, ?_⟩
  rintro ⟨stop, hstop', covered⟩
  cases hstop.symm.trans hstop'
  exact absurd covered (by decide +kernel)

end PercentileRanks
