import MiniNb.Percentiles
import MiniNb.RoundedHistogram
import Mathlib.Data.Rat.Floor

/-!
# When a percentile is well defined

The result of `nb_histogram_percentile` in double precision, for any rounding,
any `pow` and any samples. The scan compares counters only, so the single value
that rounding decides is the threshold. A positive threshold stops the scan in
a bucket with samples, or not at all; the threshold zero stops it in the first
bucket, empty or not. The clamp then returns a value between the least and the
greatest sample unless the interpolation divided zero by zero, or every sample
was scaled to an undefined value.
-/

namespace PercentileSafety

open MiniNb ExactDouble RoundedDouble SampleSummary Percentiles

universe u
variable {K : Type u} [Field K] [LinearOrder K] [IsStrictOrderedRing K]
variable (R : Rounding K) (pow : Int → Dbl K) (power : Int)

/-- The value by which a sample is classified. -/
def scaledRounded (x : K) : Dbl K := R.mul (.fin x) (pow power)

/-- A new histogram after one `nb_histogram_add` for each of the samples. -/
def histogramRounded (samples : List K) : NbHistogram K :=
  samples.foldl (fun hist x => nbHistogramAddRounded R pow hist (.fin x)) (freshHistogram power)

/-- What the scan and the clamp see of the classified values. -/
structure Tally (hist : NbHistogram K) (vs : List (Dbl K)) : Prop where
  size_eq : hist.size = vs.length
  total : hist.buckets.toList.sum = vs.length
  bucket_eq : ∀ i, hist.buckets[i] = vs.countP (fun v => decide (bucketIndex v = i))
  min_ne : hist.min ≠ .nan
  max_ne : hist.max ≠ .nan
  min_le : ∀ v ∈ vs, v ≠ .nan → hist.min ≤ v
  le_max : ∀ v ∈ vs, v ≠ .nan → v ≤ hist.max
  none_counted : (∀ v ∈ vs, v = .nan) → hist.min = .posInf ∧ hist.max = 0

theorem tally_fresh : Tally (freshHistogram power : NbHistogram K) [] where
  size_eq := rfl
  total := by simp [freshHistogram, nbHistogramClear]
  bucket_eq i := by simp [freshHistogram, nbHistogramClear]
  min_ne := nofun
  max_ne := nofun
  min_le := by simp
  le_max := by simp
  none_counted _ := ⟨rfl, rfl⟩

variable {R pow power} {hist : NbHistogram K} {vs : List (Dbl K)}

/-- All but the two sums are what the classified value makes of them. -/
theorem addRounded_eq (hist : NbHistogram K) (val : Dbl K) :
    nbHistogramAddRounded R pow hist val =
      { record hist (R.mul val (pow hist.power)) with
        sum := R.add hist.sum (R.mul val (pow hist.power))
        sumsq := R.add hist.sumsq
          (R.mul (R.mul val (pow hist.power)) (R.mul val (pow hist.power))) } := rfl

/-- An undefined value changes neither the least nor the greatest one. -/
theorem Tally.add (h : Tally hist vs) (val : Dbl K) :
    Tally (nbHistogramAddRounded R pow hist val) (vs ++ [R.mul val (pow hist.power)]) := by
  rw [addRounded_eq]
  generalize R.mul val (pow hist.power) = v
  constructor
  · dsimp only [record]
    rw [h.size_eq, List.length_append]
    rfl
  · dsimp only
    rw [record_buckets_sum, h.total, List.length_append]
    rfl
  · intro i
    dsimp only
    rw [record_bucket, h.bucket_eq, List.countP_append]
    simp
  · dsimp only [record]
    split
    · rename_i below
      rintro rfl
      exact below
    · exact h.min_ne
  · dsimp only [record]
    split
    · rename_i above
      rintro rfl
      exact Dbl.not_lt_nan _ above
    · exact h.max_ne
  · intro w hw number
    dsimp only [record]
    rcases List.mem_append.mp hw with hw | hw
    · split
      · rename_i below
        exact Dbl.dbl_le_trans (Dbl.dbl_le_of_lt below) (h.min_le w hw number)
      · exact h.min_le w hw number
    · rw [List.mem_singleton.mp hw] at number ⊢
      split
      · exact Dbl.dbl_le_refl number
      · rename_i above
        exact Dbl.dbl_le_of_not_lt number h.min_ne above
  · intro w hw number
    dsimp only [record]
    rcases List.mem_append.mp hw with hw | hw
    · split
      · rename_i above
        exact Dbl.dbl_le_trans (h.le_max w hw number) (Dbl.dbl_le_of_lt above)
      · exact h.le_max w hw number
    · rw [List.mem_singleton.mp hw] at number ⊢
      split
      · exact Dbl.dbl_le_refl number
      · rename_i below
        exact Dbl.dbl_le_of_not_lt h.max_ne number below
  · intro undefined
    have hnan : v = .nan := undefined v (List.mem_append_right _ List.mem_cons_self)
    obtain ⟨hmin, hmax⟩ := h.none_counted fun w hw => undefined w (List.mem_append_left _ hw)
    dsimp only [record]
    rw [hnan, hmin, hmax]
    exact ⟨rfl, rfl⟩

variable (R pow power) in
theorem tally_histogramRounded (samples : List K) :
    Tally (histogramRounded R pow power samples) (samples.map (scaledRounded R pow power)) ∧
      (histogramRounded R pow power samples).power = power := by
  induction samples using List.reverseRecOn with
  | nil => exact ⟨tally_fresh power, rfl⟩
  | append_singleton samples x ih =>
    obtain ⟨tally, same⟩ := ih
    have step : Tally (nbHistogramAddRounded R pow (histogramRounded R pow power samples) (.fin x))
        (_ ++ [R.mul (.fin x) (pow (histogramRounded R pow power samples).power)]) :=
      tally.add (.fin x)
    rw [histogramRounded, List.foldl_append, List.map_append]
    rw [same] at step
    exact ⟨step, same⟩

/-- The least value is at most the greatest one exactly when some value is defined. -/
theorem Tally.ordered_iff (h : Tally hist vs) : hist.min ≤ hist.max ↔ ∃ v ∈ vs, v ≠ .nan := by
  constructor
  · intro ordered
    by_contra undefined
    push Not at undefined
    obtain ⟨hmin, hmax⟩ := h.none_counted undefined
    rw [hmin, hmax] at ordered
    exact ordered
  · rintro ⟨v, hv, number⟩
    exact Dbl.dbl_le_trans (h.min_le v hv number) (h.le_max v hv number)

/-- The first bucket holds the values that are not above one, undefined ones among them. -/
theorem bucketIndex_zero_iff (v : Dbl K) : (bucketIndex v).val = 0 ↔ ¬ (.fin 1 : Dbl K) < v := by
  have least : ∀ n ∈ nbHistogramBoundaries, 1 ≤ n := by decide +kernel
  rw [BucketCounts.bucketIndex_eq_countP, List.countP_eq_zero]
  constructor
  · intro none_below above
    have one_mem : (1 : K) ∈ nbHistogramBounds K :=
      List.mem_map.mpr ⟨1, by decide, Nat.cast_one⟩
    exact none_below 1 one_mem (decide_eq_true above)
  · intro not_above b hb below
    obtain ⟨n, hn, rfl⟩ := List.mem_map.mp hb
    have one_le : (.fin 1 : Dbl K) ≤ .fin (n : K) := Nat.one_le_cast.mpr (least n hn)
    exact not_above (Dbl.dbl_lt_of_le_of_lt one_le (of_decide_eq_true below))

theorem percentileScan_beyond {k : Nat} (cs : List Nat) (b count : Nat)
    (short : count + cs.sum < k) : percentileScan k b count cs = none := by
  induction cs generalizing b count with
  | nil => rfl
  | cons c rest ih =>
    rw [List.sum_cons, ← Nat.add_assoc] at short
    rw [percentileScan, if_neg (by omega)]
    exact ih (b + 1) (count + c) short

/-- The scan for the threshold `k` stops here. -/
structure Stops (hist : NbHistogram K) (k : Nat) (stop : Stop) : Prop where
  bucket_le : stop.bucket ≤ nbHistogramBoundaries.length
  reached : k ≤ stop.right
  right_le : stop.right ≤ hist.size
  left_lt : 1 ≤ k → stop.left < k
  at_zero : k = 0 → stop.bucket = 0 ∧ stop.left = 0 ∧
    stop.right = (hist.buckets.toList.take 1).sum

theorem Tally.scan (h : Tally hist vs) (k : Nat) :
    percentileScan k 0 0 hist.buckets.toList = none ∨
      ∃ stop, percentileScan k 0 0 hist.buckets.toList = some stop ∧ Stops hist k stop := by
  rcases Nat.lt_or_ge vs.length k with beyond | enough
  · refine Or.inl (percentileScan_beyond _ 0 0 ?_)
    rw [h.total]
    omega
  · obtain ⟨j, hscan, hj, reached, first⟩ :=
      percentileScan_reached (buckets_ne_nil hist) (h.total.symm ▸ enough)
    rw [Vector.length_toList, nbHistogramBucketsCount] at hj
    have hle : j ≤ nbHistogramBoundaries.length := by omega
    refine Or.inr ⟨_, hscan, hle, reached, ?_, ?_, ?_⟩
    · rw [h.size_eq, ← h.total]
      exact List.Sublist.sum_le_sum (List.take_sublist _ _) (fun _ _ => Nat.zero_le _)
    · intro positive
      rcases Nat.eq_zero_or_pos j with rfl | behind
      · exact positive
      · exact first behind
    · rintro rfl
      rcases Nat.eq_zero_or_pos j with rfl | behind
      · refine ⟨rfl, ?_, ?_⟩
        · rw [List.take_zero, List.sum_nil]
        · rw [Nat.zero_add]
      · exact absurd (first behind) (Nat.not_lt_zero _)

/-- The counter of the first bucket. -/
theorem Tally.first_pos_iff (h : Tally hist vs) :
    0 < (hist.buckets.toList.take 1).sum ↔ ∃ v ∈ vs, ¬ (.fin 1 : Dbl K) < v := by
  have counter : (hist.buckets.toList.take 1).sum =
      hist.buckets[(⟨0, bucketsCount_pos⟩ : Fin nbHistogramBucketsCount)] := by
    have first : 0 < hist.buckets.toList.length := by
      rw [Vector.length_toList]
      exact bucketsCount_pos
    rw [show 1 = 0 + 1 from rfl, List.take_succ_eq_append_getElem first, List.take_zero,
      List.nil_append, List.sum_singleton, Vector.getElem_toList]
    rfl
  rw [counter, h.bucket_eq, List.countP_pos_iff]
  simp only [decide_eq_true_eq, Fin.ext_iff, bucketIndex_zero_iff]

section Result

omit [LinearOrder K] [IsStrictOrderedRing K] in
theorem bounds_pos : 0 < (nbHistogramBounds K).length := by simp [nbHistogramBoundaries]

theorem lowerBound_nonneg {b : Nat} (hb : b ≤ (nbHistogramBounds K).length) :
    0 ≤ BucketCounts.lowerBound K b := by
  induction b with
  | zero => exact le_refl (0 : K)
  | succ b ih =>
    rw [BucketCounts.lowerBound_succ hb]
    exact le_trans (ih (Nat.le_of_succ_le hb)) (le_of_lt (BucketCounts.lowerBound_lt hb))

/-- The width of a bucket, which is infinite for the last one. -/
theorem width_nonneg {b : Nat} (hb : b ≤ (nbHistogramBounds K).length) :
    0 ≤ (boundaryAt b - lowerBoundary b : Dbl K) := by
  rw [BucketCounts.lowerBoundary_fin hb]
  rcases Nat.lt_or_eq_of_le hb with inner | last
  · rw [BucketCounts.boundaryAt_fin inner, Dbl.fin_sub_fin]
    exact sub_nonneg.mpr (le_of_lt (BucketCounts.lowerBound_lt inner))
  · have infinite : boundaryAt b = (Dbl.posInf : Dbl K) := by
      rw [last, bounds_length, BucketCounts.boundaryAt_last]
    rw [infinite, Dbl.posInf_sub_fin]
    trivial

omit [IsStrictOrderedRing K] in
theorem first_width : R.sub (boundaryAt 0) (lowerBoundary 0) = .fin 1 := by
  rw [Rounding.sub, BucketCounts.boundaryAt_fin bounds_pos, BucketCounts.bounds_first bounds_pos,
    BucketCounts.lowerBoundary_fin (Nat.zero_le _), BucketCounts.lowerBound, Dbl.fin_sub_fin,
    sub_zero, Rounding.apply, Rounding.one]

/-- In a bucket that is not empty the interpolation is defined. -/
theorem interpolate_ne_nan {k : Nat} {stop : Stop} (stops : Stops hist k stop)
    (range : R.ofNat hist.size < .fin (2 ^ 64)) (filled : k = 0 → 0 < stop.right) :
    interpolateRounded R k stop ≠ .nan := by
  have hb : stop.bucket ≤ (nbHistogramBounds K).length :=
    le_of_le_of_eq stops.bucket_le (bounds_length K).symm
  have counted : R.ofNat (stop.right - stop.left) < .fin (2 ^ 64) :=
    Dbl.dbl_lt_of_le_of_lt
      (Rounding.ofNat_mono (Nat.le_trans (Nat.sub_le _ _) stops.right_le)) range
  have reached := stops.reached
  apply Dbl.ne_nan_of_nonneg
  apply Rounding.apply_nonneg
  apply Dbl.add_nonneg
  · rw [BucketCounts.lowerBoundary_fin hb]
    exact lowerBound_nonneg hb
  apply Rounding.apply_nonneg
  rcases Nat.eq_zero_or_pos k with rfl | positive
  · -- The bucket is the first one, whose width is finite, and the share is zero.
    obtain ⟨bucket, left, _⟩ := stops.at_zero rfl
    have right := filled rfl
    rw [bucket, first_width, Nat.zero_sub, Rounding.share_zero (by omega) counted]
    exact le_of_eq (one_mul (0 : K)).symm
  · have left := stops.left_lt positive
    obtain ⟨share, hshare, share_pos⟩ :=
      Rounding.share_fin (show 1 ≤ k - stop.left by omega)
        (show k - stop.left ≤ stop.right - stop.left by omega) counted
    rw [hshare]
    exact Dbl.mul_fin_nonneg (Rounding.apply_nonneg (width_nonneg hb)) share_pos

/-- Of a result that is defined the clamp makes one between the bounds. -/
theorem clamp_within (h : Tally hist vs) (ordered : hist.min ≤ hist.max) {r : Dbl K}
    (number : r ≠ .nan) :
    hist.min ≤ clampResult hist r ∧ clampResult hist r ≤ hist.max := by
  rw [clampResult]
  split
  · exact ⟨Dbl.dbl_le_refl h.min_ne, ordered⟩
  · rename_i above
    have least := Dbl.dbl_le_of_not_lt number h.min_ne above
    split
    · exact ⟨ordered, Dbl.dbl_le_refl h.max_ne⟩
    · rename_i below
      exact ⟨least, Dbl.dbl_le_of_not_lt h.max_ne number below⟩

variable [FloorSemiring K]

/-- A percentile is computed without dividing by zero or wrapping below zero,
and lies between the least and the greatest sample. -/
structure WellDefined (R : Rounding K) (hist : NbHistogram K) (p : Dbl K) : Prop where
  divisor : ∀ stop, percentileStopRounded R hist p = some stop → stop.right - stop.left ≠ 0
  no_underflow : ∀ stop, percentileStopRounded R hist p = some stop →
    stop.left ≤ percentileThresholdRounded R hist p
  min_le : hist.min ≤ nbHistogramPercentileRounded R hist p
  le_max : nbHistogramPercentileRounded R hist p ≤ hist.max

theorem Tally.defined (h : Tally hist vs) (range : R.ofNat hist.size < .fin (2 ^ 64))
    {p : Dbl K} (filled : percentileThresholdRounded R hist p = 0 →
      0 < (hist.buckets.toList.take 1).sum) (ordered : hist.min ≤ hist.max) :
    WellDefined R hist p := by
  generalize hk : percentileThresholdRounded R hist p = k at filled
  have stop_eq : percentileStopRounded R hist p = percentileScan k 0 0 hist.buckets.toList := by
    rw [percentileStopRounded, hk]
  rcases h.scan k with none_ | ⟨stop, hstop, stops⟩
  · rw [none_] at stop_eq
    have result : nbHistogramPercentileRounded R hist p = hist.max := by
      rw [nbHistogramPercentileRounded, stop_eq]
    refine ⟨?_, ?_, ?_, ?_⟩
    · intro stop hstop
      cases stop_eq.symm.trans hstop
    · intro stop hstop
      cases stop_eq.symm.trans hstop
    · rw [result]
      exact ordered
    · rw [result]
      exact Dbl.dbl_le_refl h.max_ne
  · rw [hstop] at stop_eq
    have result : nbHistogramPercentileRounded R hist p =
        clampResult hist (interpolateRounded R k stop) := by
      rw [nbHistogramPercentileRounded, stop_eq, hk]
    have filled' : k = 0 → 0 < stop.right := by
      intro zero
      rw [(stops.at_zero zero).2.2]
      exact filled zero
    have reached := stops.reached
    obtain ⟨least, greatest⟩ := clamp_within h ordered (interpolate_ne_nan stops range filled')
    rw [← result] at least greatest
    refine ⟨?_, ?_, least, greatest⟩
    · intro stop' hstop'
      cases stop_eq.symm.trans hstop'
      rcases Nat.eq_zero_or_pos k with zero | positive
      · obtain ⟨_, left, _⟩ := stops.at_zero zero
        have right := filled' zero
        omega
      · have left := stops.left_lt positive
        omega
    · intro stop' hstop'
      cases stop_eq.symm.trans hstop'
      rw [hk]
      rcases Nat.eq_zero_or_pos k with zero | positive
      · rw [(stops.at_zero zero).2.1]
        exact Nat.zero_le _
      · exact Nat.le_of_lt (stops.left_lt positive)

theorem Tally.defined_iff (h : Tally hist vs) (range : R.ofNat hist.size < .fin (2 ^ 64))
    (p : Dbl K) : WellDefined R hist p ↔
      (1 ≤ percentileThresholdRounded R hist p ∨ ∃ v ∈ vs, ¬ (.fin 1 : Dbl K) < v) ∧
        ∃ v ∈ vs, v ≠ .nan := by
  rw [← h.ordered_iff, ← h.first_pos_iff]
  constructor
  · intro defined
    refine ⟨?_, Dbl.dbl_le_trans defined.min_le defined.le_max⟩
    rcases Nat.eq_zero_or_pos (percentileThresholdRounded R hist p) with zero | positive
    · rcases h.scan 0 with none_ | ⟨stop, hstop, stops⟩
      · obtain ⟨first, rest, hbuckets⟩ := List.exists_cons_of_ne_nil (buckets_ne_nil hist)
        rw [hbuckets, percentileScan, if_pos (Nat.zero_le _)] at none_
        cases none_
      · have divisor := defined.divisor stop (by rw [percentileStopRounded, zero, hstop])
        obtain ⟨_, left, right⟩ := stops.at_zero rfl
        exact Or.inr (by omega)
    · exact Or.inl positive
  · rintro ⟨enough | filled, ordered⟩
    · exact h.defined range (fun zero => by omega) ordered
    · exact h.defined range (fun _ => filled) ordered

/-- A percentile is well defined exactly when its threshold, a double product
rounded down, is positive or some sample falls into the first bucket, and not
every sample is scaled to an undefined value. The number of samples, converted
to a double, is in the range of `size_t`. -/
theorem wellDefined_iff (R : Rounding K) (pow : Int → Dbl K) (power : Int) (samples : List K)
    (range : R.ofNat samples.length < .fin (2 ^ 64)) (p : K) :
    WellDefined R (histogramRounded R pow power samples) (.fin p) ↔
      (1 ≤ (R.mul (R.ofNat samples.length) (.fin p)).toNat ∨
        ∃ x ∈ samples, ¬ (.fin 1 : Dbl K) < scaledRounded R pow power x) ∧
      ∃ x ∈ samples, scaledRounded R pow power x ≠ .nan := by
  obtain ⟨tally, _⟩ := tally_histogramRounded R pow power samples
  have size : (histogramRounded R pow power samples).size = samples.length := by
    rw [tally.size_eq, List.length_map]
  rw [tally.defined_iff (size ▸ range), percentileThresholdRounded, size]
  simp only [List.mem_map, exists_exists_and_eq_and]

end Result

/-- What `pow(10, e)` is for the powers of ten that are doubles. -/
def exactPow (e : Int) : Dbl ℚ := .fin (pow10 e)

/-- The double next to one third, whose product with three is rounded to one. -/
def third : ℚ := 6004799503160661 / 2 ^ 54

theorem wellDefined_three_samples :
    WellDefined binary64 (histogramRounded binary64 exactPow 0 [3, 3, 3]) (.fin third) ↔
      (1 ≤ ((binary64 : Rounding ℚ).mul ((binary64 : Rounding ℚ).ofNat 3) (.fin third)).toNat ∨
        ∃ x ∈ [(3 : ℚ), 3, 3], ¬ (.fin 1 : Dbl ℚ) < scaledRounded binary64 exactPow 0 x) ∧
      ∃ x ∈ [(3 : ℚ), 3, 3], scaledRounded binary64 exactPow 0 x ≠ .nan :=
  wellDefined_iff binary64 exactPow 0 [3, 3, 3] (by decide +kernel) third

/-- The double next to one twentieth. -/
def twentieth : ℚ := 3602879701896397 / 2 ^ 56

/-- One sample in the third bucket: the fifth percentile is the quotient of zero by zero. -/
theorem not_wellDefined_one_sample :
    nbHistogramPercentileRounded binary64 (histogramRounded binary64 exactPow 0 [3])
        (.fin twentieth) = .nan ∧
      ¬ WellDefined binary64 (histogramRounded binary64 exactPow 0 [3]) (.fin twentieth) := by
  refine ⟨by decide +kernel, ?_⟩
  intro defined
  have hstop : percentileStopRounded binary64 (histogramRounded binary64 exactPow 0 [3])
      (.fin twentieth) = some ⟨0, 0, 0⟩ := by
    decide +kernel
  exact defined.divisor _ hstop rfl

end PercentileSafety
