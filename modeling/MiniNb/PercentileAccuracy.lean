import MiniNb.Percentiles
import Mathlib.Data.Rat.Floor

/-!
# How far a percentile can be trusted

Two results about the reported percentiles of finite samples, computed exactly:
the bucket of the result is that of the order statistic it stands for; samples
that are never smaller never give a smaller percentile.
-/

namespace PercentileAccuracy

open MiniNb ExactDouble RankCounting BucketCounts Interpolation Percentiles

universe u
variable {K : Type u} [Field K] [LinearOrder K] [IsStrictOrderedRing K] [FloorSemiring K]

omit [LinearOrder K] [IsStrictOrderedRing K] [FloorSemiring K] in
theorem length_scaledValues (power : Int) (samples : List K) :
    (scaledValues power samples).length = samples.length := List.length_map _

/-- The percentile `p` lies in the bucket of `x`, both before the clamp and behind it. -/
structure InBucketOf (hist : NbHistogram K) (p : Dbl K) (x : K) : Prop where
  interpolated : ∃ stop, percentileStop hist p = some stop ∧
    bucketIndex (interpolate (percentileThreshold hist p) stop : Dbl K) = bucketIndex (.fin x)
  clamped : bucketIndex (nbHistogramPercentile hist p) = bucketIndex (.fin x)

section Collection
variable {hist : NbHistogram K} {xs : List K} {p : K}

/-- With a positive threshold the result is a number of the bucket of an order
statistic, computed from the running counts there. -/
theorem percentile_located (h : Collected hist xs) (atMost : p ≤ 1)
    (enough : 1 ≤ thresholdOf xs.length p) {m M : K} (hmin : hist.min = .fin m)
    (hmax : hist.max = .fin M) :
    ∃ stop, percentileStop hist (.fin p) = some stop ∧
      StopsAt xs (thresholdOf xs.length p) stop ∧ stop.left < thresholdOf xs.length p ∧
      nbHistogramPercentile hist (.fin p) = .fin (valueIn stop (thresholdOf xs.length p) m M) := by
  obtain ⟨stop, hstop, stops⟩ := percentileStop_collected h atMost
  have hleft := stops.left_lt enough
  have filled := Nat.lt_of_lt_of_le hleft stops.reached
  exact ⟨stop, hstop, stops, hleft, percentile_eq h hmin hmax hstop stops filled (fun _ => hleft)⟩

theorem order_statistic_exists (atMost : p ≤ 1) (enough : 1 ≤ thresholdOf xs.length p) :
    thresholdOf xs.length p - 1 < (sorted xs).length := by
  have hle := thresholdOf_le atMost xs.length
  rw [length_sorted]
  omega

theorem percentile_bucket (h : Collected hist xs) (atMost : p ≤ 1)
    (enough : 1 ≤ thresholdOf xs.length p) (hk : thresholdOf xs.length p - 1 < (sorted xs).length) :
    InBucketOf hist (.fin p) (sorted xs)[thresholdOf xs.length p - 1] := by
  obtain ⟨m, _, hmin, least⟩ := h.min_eq
  obtain ⟨M, _, hmax, greatest⟩ := h.max_eq
  obtain ⟨stop, hstop, stops, hleft, hvalue⟩ := percentile_located h atMost enough hmin hmax
  have hbucket := stops.bucket_eq hleft hk
  have hmem : (sorted xs)[thresholdOf xs.length p - 1] ∈ xs :=
    (sorted_perm xs).mem_iff.mp (List.getElem_mem hk)
  constructor
  · refine ⟨stop, hstop, Fin.ext ?_⟩
    rw [percentileThreshold_eq h, bucketIndex_interpolate stops enough, bucketIndex_fin, hbucket]
  · apply Fin.ext
    rw [hvalue, bucketIndex_fin, bucketIndex_fin, hbucket]
    exact bucketOf_valueIn stops enough hbucket (least _ hmem) (greatest _ hmem)

end Collection

/-- The percentile `p` falls into the bucket of the `k`-th smallest sample,
where `k` is the threshold. -/
theorem percentile_in_bucket (power : Int) {samples : List K} (nonneg : ∀ x ∈ samples, 0 ≤ x)
    (nonempty : samples ≠ []) {p : K} (atMost : p ≤ 1)
    (enough : 1 ≤ thresholdOf samples.length p) :
    ∃ h : thresholdOf samples.length p - 1 < (sorted (scaledValues power samples)).length,
      InBucketOf (histogramOf power samples) (.fin p)
        (sorted (scaledValues power samples))[thresholdOf samples.length p - 1] := by
  have collected := collected_histogramOf power nonneg nonempty
  have hlen := length_scaledValues power samples
  have enough' : 1 ≤ thresholdOf (scaledValues power samples).length p := by rwa [hlen]
  have hk := order_statistic_exists atMost enough'
  have hbucket := percentile_bucket collected atMost enough' hk
  simp only [hlen] at hk hbucket
  exact ⟨hk, hbucket⟩

def threeSamples : List ℚ := [3, 1, 2]

theorem percentile_in_bucket_three :
    ∃ h : thresholdOf threeSamples.length (1 / 2 : ℚ) - 1 < (sorted (scaledValues 0 threeSamples)).length,
      InBucketOf (histogramOf 0 threeSamples) (.fin (1 / 2))
        (sorted (scaledValues 0 threeSamples))[thresholdOf threeSamples.length (1 / 2 : ℚ) - 1] :=
  percentile_in_bucket 0 (by decide +kernel) (by decide) (by decide +kernel) (by decide +kernel)

section Dominance
variable {a b : List K}

omit [IsStrictOrderedRing K] [FloorSemiring K] in
/-- Values that are pointwise at most others are at least as many in the first buckets. -/
theorem below_dominated (dominated : List.Forall₂ (· ≤ ·) (sorted a) (sorted b)) (c : Nat) :
    below b c ≤ below a c := by
  rw [← below_perm (sorted_perm a), ← below_perm (sorted_perm b)]
  exact countP_le_of_dominated (downClosed_rank_lt _ c) dominated

omit [Field K] [IsStrictOrderedRing K] [FloorSemiring K] in
theorem exists_le_of_dominated (dominated : List.Forall₂ (· ≤ ·) (sorted a) (sorted b)) {y : K}
    (hy : y ∈ b) : ∃ x ∈ a, x ≤ y := by
  obtain ⟨i, hi, rfl⟩ := List.getElem_of_mem ((sorted_perm b).mem_iff.mpr hy)
  have hi' : i < (sorted a).length := by rwa [dominated.length_eq]
  exact ⟨(sorted a)[i], (sorted_perm a).mem_iff.mp (List.getElem_mem hi'), dominated.get hi' hi⟩

omit [Field K] [IsStrictOrderedRing K] [FloorSemiring K] in
theorem exists_ge_of_dominated (dominated : List.Forall₂ (· ≤ ·) (sorted a) (sorted b)) {x : K}
    (hx : x ∈ a) : ∃ y ∈ b, x ≤ y := by
  obtain ⟨i, hi, rfl⟩ := List.getElem_of_mem ((sorted_perm a).mem_iff.mpr hx)
  have hi' : i < (sorted b).length := by rwa [← dominated.length_eq]
  exact ⟨(sorted b)[i], (sorted_perm b).mem_iff.mp (List.getElem_mem hi'), dominated.get hi hi'⟩

omit [FloorSemiring K] in
/-- In one bucket, fewer values before it and up to it give a greater result. -/
theorem valueIn_mono {stop stop' : Stop} {k : Nat} {m M m' M' : K}
    (same : stop.bucket = stop'.bucket) (hl : stop'.left ≤ stop.left) (hr : stop'.right ≤ stop.right)
    (hk : stop.left < k) (hk' : k ≤ stop'.right) (h : m ≤ M) (h' : m' ≤ M') (hm : m ≤ m')
    (hM : M ≤ M') : valueIn stop k m M ≤ valueIn stop' k m' M' := by
  rcases Nat.lt_or_ge stop'.bucket (nbHistogramBounds K).length with hb | hb
  · rw [valueIn_inner (same ▸ hb), valueIn_inner hb]
    apply clampTo_mono h h' hm hM
    simp only [rawValue, same]
    exact mix_mono (lowerBound_lt hb) (fraction_antitone hl hr hk hk')
  · rw [valueIn_last (same ▸ hb), valueIn_last hb]
    exact hM

theorem collected_dominated {histA histB : NbHistogram K} (hA : Collected histA a)
    (hB : Collected histB b) (dominated : List.Forall₂ (· ≤ ·) (sorted a) (sorted b)) {p : K}
    (atMost : p ≤ 1) (enough : 1 ≤ thresholdOf a.length p) :
    nbHistogramPercentile histA (.fin p) ≤ nbHistogramPercentile histB (.fin p) := by
  have hlen : b.length = a.length := by
    rw [← length_sorted b, ← length_sorted a, dominated.length_eq]
  have enoughB : 1 ≤ thresholdOf b.length p := by rwa [hlen]
  obtain ⟨m, hm, hmin, least⟩ := hA.min_eq
  obtain ⟨M, hmemM, hmax, greatest⟩ := hA.max_eq
  obtain ⟨m', hm', hmin', least'⟩ := hB.min_eq
  obtain ⟨M', _, hmax', greatest'⟩ := hB.max_eq
  obtain ⟨stop, _, stops, hleft, hvalue⟩ := percentile_located hA atMost enough hmin hmax
  obtain ⟨stop', _, stops', hleft', hvalue'⟩ := percentile_located hB atMost enoughB hmin' hmax'
  rw [hlen] at stops' hleft' hvalue'
  have hk : thresholdOf a.length p - 1 < (sorted a).length := order_statistic_exists atMost enough
  have hk' : thresholdOf a.length p - 1 < (sorted b).length := by rwa [← dominated.length_eq]
  have hbucket := stops.bucket_eq hleft hk
  have hbucket' := stops'.bucket_eq hleft' hk'
  have hle : stop.bucket ≤ stop'.bucket := by
    rw [← hbucket, ← hbucket']
    exact rank_mono _ (dominated.get hk hk')
  rw [hvalue, hvalue']
  rcases Nat.lt_or_eq_of_le hle with hlt | same
  · -- The values lie in their buckets, and these are in order.
    have hmem := (sorted_perm a).mem_iff.mp (List.getElem_mem hk)
    have hmem' := (sorted_perm b).mem_iff.mp (List.getElem_mem hk')
    have inA := bucketOf_valueIn stops enough hbucket (least _ hmem) (greatest _ hmem)
    have inB := bucketOf_valueIn stops' enough hbucket' (least' _ hmem') (greatest' _ hmem')
    rw [← inA, ← inB] at hlt
    exact le_of_rank_lt hlt
  · obtain ⟨x, hx, hxm⟩ := exists_le_of_dominated dominated hm'
    obtain ⟨y, hy, hMy⟩ := exists_ge_of_dominated dominated hmemM
    have hM : M ≤ M' := le_trans hMy (greatest' y hy)
    have hl : stop'.left ≤ stop.left := by
      rw [stops'.left_eq, stops.left_eq, same]
      exact below_dominated dominated _
    have hr : stop'.right ≤ stop.right := by
      rw [stops'.right_eq, stops.right_eq, same]
      exact below_dominated dominated _
    exact valueIn_mono same hl hr hleft stops'.reached (greatest m hm) (greatest' m' hm')
      (le_trans (least x hx) hxm) hM

end Dominance

omit [FloorSemiring K] in
theorem sorted_scaledValues (power : Int) (samples : List K) :
    sorted (scaledValues power samples) = scaledValues power (sorted samples) := by
  apply sorted_map
  intro x y
  exact (mul_le_mul_iff_left₀ (pow10_pos power)).symm

/-- Samples that are never smaller, rank by rank, never give a smaller percentile. -/
theorem percentile_dominated (power : Int) {a b : List K} (nonnegA : ∀ x ∈ a, 0 ≤ x)
    (nonnegB : ∀ x ∈ b, 0 ≤ x) (nonempty : a ≠ [])
    (dominated : List.Forall₂ (· ≤ ·) (sorted a) (sorted b)) {p : K} (atMost : p ≤ 1)
    (enough : 1 ≤ thresholdOf a.length p) :
    nbHistogramPercentile (histogramOf power a) (.fin p) ≤
      nbHistogramPercentile (histogramOf power b) (.fin p) := by
  have nonempty' : b ≠ [] := by
    rintro rfl
    have hlen := dominated.length_eq
    simp only [length_sorted, List.length_nil, List.length_eq_zero_iff] at hlen
    exact nonempty hlen
  have scaledDominated : List.Forall₂ (· ≤ ·) (sorted (scaledValues power a))
      (sorted (scaledValues power b)) := by
    rw [sorted_scaledValues, sorted_scaledValues]
    refine List.forall₂_map_left_iff.mpr (List.forall₂_map_right_iff.mpr (dominated.imp ?_))
    intro x y hxy
    exact mul_le_mul_of_nonneg_right hxy (le_of_lt (pow10_pos power))
  apply collected_dominated (collected_histogramOf power nonnegA nonempty)
    (collected_histogramOf power nonnegB nonempty') scaledDominated atMost
  rwa [length_scaledValues]

/-- Pointwise at least the sorted samples of `threeSamples`. -/
def slowerSamples : List ℚ := [2, 7, 2]

theorem percentile_dominated_three :
    List.Forall₂ (· ≤ ·) (sorted threeSamples) (sorted slowerSamples) ∧
      nbHistogramPercentile (histogramOf 0 threeSamples) (.fin (1 / 2)) ≤
        nbHistogramPercentile (histogramOf 0 slowerSamples) (.fin (1 / 2)) := by
  have hsorted : sorted threeSamples = [1, 2, 3] := by decide +kernel
  have hsorted' : sorted slowerSamples = [2, 2, 7] := by decide +kernel
  have dominated : List.Forall₂ (· ≤ ·) (sorted threeSamples) (sorted slowerSamples) := by
    rw [hsorted, hsorted']
    decide +kernel
  have nonneg : ∀ x ∈ threeSamples, 0 ≤ x := by decide +kernel
  have nonneg' : ∀ x ∈ slowerSamples, 0 ≤ x := by decide +kernel
  have nonempty : threeSamples ≠ [] := by decide
  have enough : 1 ≤ thresholdOf threeSamples.length (1 / 2 : ℚ) := by decide +kernel
  -- With the samples still in sight, the comparison would be computed instead of looked up.
  generalize threeSamples = a at *
  generalize slowerSamples = b at *
  exact ⟨dominated, percentile_dominated 0 nonneg nonneg' nonempty dominated
    (by decide +kernel) enough⟩

end PercentileAccuracy
