import MiniNb.BucketCounts
import MiniNb.Interpolation
import Mathlib.Algebra.Order.BigOperators.Group.List

/-!
# What a percentile says about the samples

The scan of `nb_histogram_percentile` stops in the bucket where the running
count reaches the threshold `k`. For `k ≥ 1` this is the bucket of the `k`-th
smallest sample, it is not empty, and neither the interpolation nor the clamp
leaves it. For `k = 0` the scan stops in the first bucket, empty or not, and an
empty one makes the interpolation divide zero by zero.
-/

namespace Percentiles

open MiniNb ExactDouble RankCounting BucketCounts Interpolation

universe u
variable {K : Type u} [Field K] [LinearOrder K]

/-- Where a scan for the threshold `k` stops among the values `xs`. -/
structure StopsAt (xs : List K) (k : Nat) (stop : Stop) : Prop where
  bucket_le : stop.bucket ≤ nbHistogramBoundaries.length
  left_eq : stop.left = below xs stop.bucket
  right_eq : stop.right = below xs (stop.bucket + 1)
  reached : k ≤ stop.right
  first : 0 < stop.bucket → stop.left < k

/-- The scan stops at the first running count that is not below the threshold. -/
theorem percentileScan_stops {k : Nat} (cs : List Nat) (b count : Nat) (nonempty : cs ≠ [])
    (enough : k ≤ count + cs.sum) :
    ∃ j, j < cs.length ∧
      percentileScan k b count cs =
        some ⟨b + j, count + (cs.take j).sum, count + (cs.take (j + 1)).sum⟩ ∧
      k ≤ count + (cs.take (j + 1)).sum ∧ (0 < j → count + (cs.take j).sum < k) := by
  induction cs generalizing b count with
  | nil => exact absurd rfl nonempty
  | cons c rest ih =>
    by_cases here : k ≤ count + c
    · refine ⟨0, by simp, ?_, by simpa using here, by simp⟩
      simp [percentileScan, here]
    · have more : k ≤ count + c + rest.sum := by
        simpa [Nat.add_assoc] using enough
      have nonempty' : rest ≠ [] := by
        rintro rfl
        simp at more
        omega
      obtain ⟨j, hj, hscan, reached, first⟩ := ih (b + 1) (count + c) nonempty' more
      refine ⟨j + 1, by simpa using hj, ?_, ?_, ?_⟩
      · simp only [percentileScan, if_neg here, hscan, List.take_succ_cons, List.sum_cons,
          Nat.add_assoc, Nat.add_comm 1 j]
      · simpa [Nat.add_assoc] using reached
      · intro _
        cases j with
        | zero => simpa using here
        | succ j => simpa [Nat.add_assoc] using first (Nat.succ_pos j)

/-- Index `j` is where the running counts first reach `k`. -/
structure ReachedAt (counters : List Nat) (k j : Nat) : Prop where
  bound : j < counters.length
  reached : k ≤ (counters.take (j + 1)).sum
  first : 0 < j → (counters.take j).sum < k

/-- Exactly `k` is reached there if and only if some running count is `k`. -/
theorem ReachedAt.eq_iff {counters : List Nat} {k j : Nat} (h : ReachedAt counters k j) :
    (counters.take (j + 1)).sum = k ↔
      ∃ b, b < counters.length ∧ (counters.take (b + 1)).sum = k := by
  have mono : Monotone fun i => (counters.take i).sum := List.monotone_sum_take counters
  constructor
  · intro heq
    exact ⟨j, h.bound, heq⟩
  · rintro ⟨b, _, hb⟩
    apply le_antisymm _ h.reached
    rcases Nat.lt_or_ge b j with before | behind
    · have hmono : (counters.take (b + 1)).sum ≤ (counters.take j).sum := mono before
      have hfirst := h.first (Nat.zero_lt_of_lt before)
      omega
    · rw [← hb]
      exact mono (Nat.succ_le_succ behind)

theorem percentileScan_reached {k : Nat} {counters : List Nat} (nonempty : counters ≠ [])
    (enough : k ≤ counters.sum) :
    ∃ j, percentileScan k 0 0 counters =
        some ⟨j, (counters.take j).sum, (counters.take (j + 1)).sum⟩ ∧ ReachedAt counters k j := by
  have enough' : k ≤ 0 + counters.sum := by rwa [Nat.zero_add]
  obtain ⟨j, hj, hscan, reached, first⟩ := percentileScan_stops counters 0 0 nonempty enough'
  simp only [Nat.zero_add] at hscan reached first
  exact ⟨j, hscan, hj, reached, first⟩

omit [Field K] [LinearOrder K] in
theorem buckets_ne_nil (hist : NbHistogram K) : hist.buckets.toList ≠ [] := by
  apply List.ne_nil_of_length_pos
  rw [Vector.length_toList]
  exact bucketsCount_pos

theorem scan_collected {hist : NbHistogram K} {xs : List K} (h : Collected hist xs) {k : Nat}
    (hk : k ≤ xs.length) :
    ∃ stop, percentileScan k 0 0 hist.buckets.toList = some stop ∧ StopsAt xs k stop := by
  obtain ⟨j, hscan, hj, reached, first⟩ :=
    percentileScan_reached (buckets_ne_nil hist) (h.total.symm ▸ hk)
  rw [Vector.length_toList] at hj
  rw [h.running (Nat.le_of_lt hj)] at hscan first
  rw [h.running hj] at hscan reached
  have hle : j ≤ nbHistogramBoundaries.length := by
    rw [nbHistogramBucketsCount] at hj
    omega
  exact ⟨_, hscan, hle, rfl, rfl, reached, first⟩

theorem StopsAt.left_lt {xs : List K} {k : Nat} {stop : Stop} (stops : StopsAt xs k stop)
    (hk : 1 ≤ k) : stop.left < k := by
  rcases Nat.eq_zero_or_pos stop.bucket with hzero | hpos
  · rw [stops.left_eq, hzero, below_zero]
    exact hk
  · exact stops.first hpos

/-- With a threshold `k ≥ 1` the scan stops in the bucket of the `k`-th smallest value. -/
theorem StopsAt.bucket_eq {xs : List K} {k : Nat} {stop : Stop} (stops : StopsAt xs k stop)
    (hleft : stop.left < k) (hk : k - 1 < (sorted xs).length) :
    bucketOf (sorted xs)[k - 1] = stop.bucket := by
  rw [bucketOf_sorted_iff, ← stops.left_eq, ← stops.right_eq]
  have reached := stops.reached
  omega

/-- The result of the percentile before it is clamped, in a bucket with a finite
upper boundary. -/
def rawValue (stop : Stop) (k : Nat) (upper : K) : K :=
  mix (lowerBound K stop.bucket) upper (fraction K stop.left stop.right k)

/-- The result of the percentile, as a number. In the last bucket the
interpolation is infinite, so the clamp returns the greatest value. -/
def valueIn (stop : Stop) (k : Nat) (m M : K) : K :=
  match (nbHistogramBounds K)[stop.bucket]? with
  | some upper => clampTo m M (rawValue stop k upper)
  | none => M

theorem valueIn_inner {stop : Stop} (hb : stop.bucket < (nbHistogramBounds K).length) (k : Nat)
    (m M : K) : valueIn stop k m M =
      clampTo m M (rawValue stop k (nbHistogramBounds K)[stop.bucket]) := by
  simp only [valueIn, List.getElem?_eq_getElem hb]

theorem valueIn_last {stop : Stop} (hb : (nbHistogramBounds K).length ≤ stop.bucket) (k : Nat)
    (m M : K) : valueIn stop k m M = M := by
  simp only [valueIn, List.getElem?_eq_none hb]

variable [IsStrictOrderedRing K]

/-- In a bucket that is not empty, `scale` is a quotient of numbers. -/
theorem scale_eq {stop : Stop} (filled : stop.left < stop.right) (k : Nat) :
    (Dbl.ofNat (k - stop.left) / Dbl.ofNat (stop.right - stop.left) : Dbl K) =
      .fin (fraction K stop.left stop.right k) := by
  apply Dbl.fin_div_fin
  rw [Nat.cast_ne_zero]
  omega

theorem interpolate_fin {stop : Stop} {k : Nat} (hb : stop.bucket < (nbHistogramBounds K).length)
    (filled : stop.left < stop.right) :
    interpolate k stop = Dbl.fin (rawValue stop k (nbHistogramBounds K)[stop.bucket]) := by
  simp only [interpolate, scale_eq filled, lowerBoundary_fin (Nat.le_of_lt hb), boundaryAt_fin hb,
    Dbl.fin_sub_fin, Dbl.fin_mul_fin, Dbl.fin_add_fin, rawValue, mix]

theorem interpolate_last {stop : Stop} {k : Nat} (hb : stop.bucket = nbHistogramBoundaries.length)
    (hleft : stop.left < k) (hright : k ≤ stop.right) :
    interpolate k stop = (.posInf : Dbl K) := by
  have filled : stop.left < stop.right := Nat.lt_of_lt_of_le hleft hright
  have hlower : lowerBoundary stop.bucket = Dbl.fin (lowerBound K stop.bucket) :=
    lowerBoundary_fin (by simp [hb])
  have hupper : boundaryAt stop.bucket = (.posInf : Dbl K) := by rw [hb, boundaryAt_last]
  simp only [interpolate, scale_eq filled, hlower, hupper, Dbl.posInf_sub_fin,
    Dbl.posInf_mul_fin (fraction_pos hleft hright), Dbl.fin_add_posInf]

omit [Field K] [IsStrictOrderedRing K] in
theorem clampResult_fin {hist : NbHistogram K} {m M : K} (hmin : hist.min = .fin m)
    (hmax : hist.max = .fin M) (r : K) : clampResult hist (.fin r) = .fin (clampTo m M r) := by
  simp only [clampResult, hmin, hmax, Dbl.fin_lt_fin, clampTo]
  split
  · rfl
  · split
    · rfl
    · rfl

omit [Field K] [IsStrictOrderedRing K] in
theorem clampResult_posInf {hist : NbHistogram K} {m M : K} (hmin : hist.min = .fin m)
    (hmax : hist.max = .fin M) : clampResult hist .posInf = .fin M := by
  simp [clampResult, hmin, hmax]

section Value
variable {hist : NbHistogram K} {xs : List K} {k : Nat} {stop : Stop} {m M : K}

omit [IsStrictOrderedRing K] in
theorem valueIn_bounds (h : m ≤ M) (stop : Stop) (k : Nat) :
    m ≤ valueIn stop k m M ∧ valueIn stop k m M ≤ M := by
  rcases Nat.lt_or_ge stop.bucket (nbHistogramBounds K).length with hb | hb
  · rw [valueIn_inner hb]
    exact ⟨le_clampTo h _, clampTo_le h _⟩
  · rw [valueIn_last hb]
    exact ⟨h, le_refl M⟩

omit [IsStrictOrderedRing K] in
/-- A clamp between bounds around a value of the same bucket does not leave the bucket. -/
theorem bucketOf_clampTo {x r : K} {b : Nat} (hr : bucketOf r = b) (hx : bucketOf x = b)
    (hm : m ≤ x) (hM : x ≤ M) : bucketOf (clampTo m M r) = b := by
  unfold clampTo
  split
  · rename_i hlt
    exact (rank_eq_of_le_of_le (le_of_lt hlt) hm (hr.trans hx.symm)).trans hx
  · split
    · rename_i hlt
      exact (rank_eq_of_le_of_le hM (le_of_lt hlt) (hx.trans hr.symm)).trans hr
    · exact hr

theorem bucketOf_rawValue (hb : stop.bucket < (nbHistogramBounds K).length)
    (hleft : stop.left < k) (hright : k ≤ stop.right) :
    bucketOf (rawValue stop k (nbHistogramBounds K)[stop.bucket]) = stop.bucket :=
  bucketOf_of_between hb (lt_mix (lowerBound_lt hb) (fraction_pos hleft hright))
    (mix_le (lowerBound_lt hb) (fraction_le_one hright))

/-- The interpolation stays in the bucket of the scan, also where it is infinite. -/
theorem bucketIndex_interpolate (stops : StopsAt xs k stop) (hk : 1 ≤ k) :
    (bucketIndex (interpolate k stop : Dbl K)).val = stop.bucket := by
  have hleft := stops.left_lt hk
  rcases Nat.lt_or_eq_of_le stops.bucket_le with hb | hb
  · have hb' : stop.bucket < (nbHistogramBounds K).length := by rwa [bounds_length]
    rw [interpolate_fin hb' (Nat.lt_of_lt_of_le hleft stops.reached), bucketIndex_fin]
    exact bucketOf_rawValue hb' hleft stops.reached
  · rw [interpolate_last hb hleft stops.reached, bucketIndex_posInf, hb]

theorem bucketOf_valueIn (stops : StopsAt xs k stop) (hk : 1 ≤ k) {x : K}
    (hx : bucketOf x = stop.bucket) (hm : m ≤ x) (hM : x ≤ M) :
    bucketOf (valueIn stop k m M) = stop.bucket := by
  have hle := stops.bucket_le
  rw [← bounds_length K] at hle
  rcases Nat.lt_or_eq_of_le hle with hb | hb
  · rw [valueIn_inner hb]
    exact bucketOf_clampTo (bucketOf_rawValue hb (stops.left_lt hk) stops.reached) hx hm hM
  · rw [valueIn_last hb.ge]
    have hmono : bucketOf x ≤ bucketOf M := rank_mono _ hM
    have hlast : bucketOf M ≤ (nbHistogramBounds K).length := rank_le_length _ M
    omega

variable [FloorSemiring K]

/-- The threshold of the percentile `p` among `n` samples. -/
def thresholdOf (n : Nat) (p : K) : Nat := ⌊(n : K) * p⌋₊

theorem thresholdOf_le {p : K} (hp : p ≤ 1) (n : Nat) : thresholdOf n p ≤ n :=
  Nat.floor_le_of_le (mul_le_of_le_one_right (Nat.cast_nonneg n) hp)

omit [IsStrictOrderedRing K] in
theorem percentileThreshold_eq (h : Collected hist xs) (p : K) :
    percentileThreshold hist (.fin p) = thresholdOf xs.length p := by
  rw [percentileThreshold, h.size_eq]
  rfl

/-- Every scan for a percentile up to 1 stops. -/
theorem percentileStop_collected (h : Collected hist xs) {p : K} (hp : p ≤ 1) :
    ∃ stop, percentileStop hist (.fin p) = some stop ∧
      StopsAt xs (thresholdOf xs.length p) stop := by
  rw [percentileStop, percentileThreshold_eq h]
  exact scan_collected h (thresholdOf_le hp xs.length)

theorem percentile_eq (h : Collected hist xs) {p : K} (hmin : hist.min = .fin m)
    (hmax : hist.max = .fin M) (hstop : percentileStop hist (.fin p) = some stop)
    (stops : StopsAt xs (thresholdOf xs.length p) stop) (filled : stop.left < stop.right)
    (last : stop.bucket = nbHistogramBoundaries.length → stop.left < thresholdOf xs.length p) :
    nbHistogramPercentile hist (.fin p) = .fin (valueIn stop (thresholdOf xs.length p) m M) := by
  simp only [nbHistogramPercentile, hstop, percentileThreshold_eq h]
  rcases Nat.lt_or_eq_of_le stops.bucket_le with hb | hb
  · have hb' : stop.bucket < (nbHistogramBounds K).length := by rwa [bounds_length]
    rw [interpolate_fin hb' filled, clampResult_fin hmin hmax, valueIn_inner hb']
  · have hb' : (nbHistogramBounds K).length ≤ stop.bucket := by rw [bounds_length, hb]
    rw [interpolate_last hb (last hb) stops.reached, clampResult_posInf hmin hmax, valueIn_last hb']

end Value

end Percentiles
