import MiniNb.PercentileAccuracy

/-!
# The error of a reported percentile

The percentile that is printed is not an order statistic of the samples, but a
number of the same bucket. The buckets are one unit wide up to four and grow by
at most a quarter from there on, up to the last boundary before the one that
stands for infinity. Apart from the rounding of doubles, this bounds the error
for every set of samples: by one unit below four, by a quarter of the smaller of
the two numbers above.
-/

namespace PercentileError

open MiniNb ExactDouble RankCounting BucketCounts Percentiles PercentileAccuracy

universe u

/-- The last boundary that is a latency. -/
def lastLatency : Nat := 9 * 10 ^ 9

/-- How far the next boundary can be from one. -/
structure Fine (lower upper : Nat) : Prop where
  small : lower < 4 → upper ≤ lower + 1
  large : 4 ≤ lower → 4 * upper ≤ 5 * lower

theorem boundaries_fine :
    nbHistogramBoundaries.IsChain (fun a b => a < lastLatency → Fine a b) := by
  have steps : nbHistogramBoundaries.IsChain (fun a b =>
      a < lastLatency → (a < 4 → b ≤ a + 1) ∧ (4 ≤ a → 4 * b ≤ 5 * a)) := by
    decide +kernel
  exact steps.imp fun a b step below => ⟨(step below).1, (step below).2⟩

variable {K : Type u} [Field K] [LinearOrder K]

/-- Two numbers that a reader of the report may take for each other. -/
structure Close (x y : K) : Prop where
  small : x ≤ 4 → x ≤ y + 1 ∧ y ≤ x + 1
  large : 4 < x → x ≤ (lastLatency : K) → 4 * x ≤ 5 * y ∧ 4 * y ≤ 5 * x

variable [IsStrictOrderedRing K]

/-- Numbers between the same two boundaries. -/
theorem close_between {lower upper : Nat} (fine : lower < lastLatency → Fine lower upper)
    {x y : K} (hlower : (lower : K) < x) (hlower' : (lower : K) < y) (hupper : x ≤ (upper : K))
    (hupper' : y ≤ (upper : K)) : Close x y := by
  have step : ∀ {bound : Nat}, x ≤ (bound : K) → lower < bound := by
    intro bound hx
    exact_mod_cast lt_of_lt_of_le hlower hx
  constructor
  · intro hx
    have hlt : lower < 4 := step (by exact_mod_cast hx)
    have width : (upper : K) ≤ lower + 1 := by
      exact_mod_cast (fine (by rw [lastLatency]; omega)).small hlt
    constructor
    · linarith
    · linarith
  · intro hx hlast
    have fine' := fine (step hlast)
    have hge : 4 ≤ lower := by
      by_contra hlt
      have width : upper ≤ 4 := (fine'.small (by omega)).trans (by omega)
      have : x ≤ 4 := hupper.trans (by exact_mod_cast width)
      exact absurd hx (not_lt_of_ge this)
    have width : 4 * (upper : K) ≤ 5 * lower := by exact_mod_cast fine'.large hge
    constructor
    · linarith
    · linarith

/-- Behind the last latency nothing is promised. -/
theorem close_beyond {lower : Nat} (beyond : lastLatency ≤ lower) {x : K} (y : K)
    (hlower : (lower : K) < x) : Close x y := by
  have hlast : (lastLatency : K) < x := lt_of_le_of_lt (by exact_mod_cast beyond) hlower
  have hfour : (4 : K) < lastLatency := by
    rw [lastLatency]
    norm_num
  constructor
  · intro hx
    exact absurd (hfour.trans hlast) (not_lt_of_ge hx)
  · intro _ hx
    exact absurd hlast (not_lt_of_ge hx)

omit [LinearOrder K] [IsStrictOrderedRing K] in
theorem bounds_getElem {b : Nat} (hb : b < nbHistogramBoundaries.length) :
    (nbHistogramBounds K)[b]? = some (nbHistogramBoundaries[b] : K) := by
  rw [nbHistogramBounds, List.getElem?_map, List.getElem?_eq_getElem hb]
  rfl

theorem lower_lt {x : K} {b : Nat} (hb : b < nbHistogramBoundaries.length)
    (h : bucketOf x = b + 1) : (nbHistogramBoundaries[b] : K) < x := by
  have hlower := lower_lt_of_bucketOf (by rwa [bounds_length]) h
  rwa [lowerBound, bounds_getElem hb, Option.getD_some] at hlower

theorem le_upper {x : K} {b : Nat} (hb : b < nbHistogramBoundaries.length)
    (h : bucketOf x = b) : x ≤ (nbHistogramBoundaries[b] : K) := by
  have hb' : b < (nbHistogramBounds K).length := by rwa [bounds_length]
  have hupper := le_of_bucketOf hb' h
  have heq := bounds_getElem (K := K) hb
  rw [List.getElem?_eq_getElem hb', Option.some_inj] at heq
  rwa [heq] at hupper

theorem boundaries_ne_nil : nbHistogramBoundaries ≠ [] := by simp [nbHistogramBoundaries]

theorem boundaries_last {b : Nat} (hb : b < nbHistogramBoundaries.length)
    (last : b + 1 = nbHistogramBoundaries.length) : lastLatency ≤ nbHistogramBoundaries[b] := by
  have hlast : lastLatency ≤ nbHistogramBoundaries.getLast boundaries_ne_nil := by decide +kernel
  rw [List.getLast_eq_getElem] at hlast
  have hidx : nbHistogramBoundaries.length - 1 = b := by omega
  simpa only [hidx] using hlast

/-- Numbers of one bucket are close to each other. -/
theorem close_of_bucket {x y : K} (hx : 0 ≤ x) (hy : 0 ≤ y) (same : bucketOf y = bucketOf x) :
    Close x y := by
  have hle := bucketOf_le x
  cases h : bucketOf x with
  | zero =>
    have hx1 := (bucketOf_eq_zero_iff x).mp h
    have hy1 := (bucketOf_eq_zero_iff y).mp (same.trans h)
    constructor
    · intro _
      constructor
      · linarith
      · linarith
    · intro hlarge
      linarith
  | succ b =>
    rw [h] at same hle
    have hlower := lower_lt hle h
    rcases Nat.lt_or_eq_of_le hle with inner | last
    · have fine := List.isChain_iff_getElem.mp boundaries_fine b inner
      exact close_between fine hlower (lower_lt hle same) (le_upper inner h) (le_upper inner same)
    · exact close_beyond (boundaries_last hle last) y hlower

variable [FloorSemiring K]

/-- The percentile `p` of collected values is a number close to one of them. -/
theorem collected_close {hist : NbHistogram K} {xs : List K} {p : K} (h : Collected hist xs)
    (atMost : p ≤ 1) (enough : 1 ≤ thresholdOf xs.length p) :
    ∃ y, nbHistogramPercentile hist (.fin p) = .fin y ∧
      ∃ hk : thresholdOf xs.length p - 1 < (sorted xs).length,
        Close (sorted xs)[thresholdOf xs.length p - 1] y := by
  have hk := order_statistic_exists atMost enough
  obtain ⟨m, hm, hmin, least⟩ := h.min_eq
  obtain ⟨M, _, hmax, greatest⟩ := h.max_eq
  obtain ⟨stop, _, stops, hleft, hvalue⟩ := percentile_located h atMost enough hmin hmax
  refine ⟨_, hvalue, hk, ?_⟩
  have hmem := (sorted_perm xs).mem_iff.mp (List.getElem_mem hk)
  have hbucket := stops.bucket_eq hleft hk
  have inBucket := bucketOf_valueIn stops enough hbucket (least _ hmem) (greatest _ hmem)
  have lower := (valueIn_bounds (greatest m hm) stop (thresholdOf xs.length p)).1
  exact close_of_bucket (h.nonneg _ hmem) ((h.nonneg m hm).trans lower)
    (inBucket.trans hbucket.symm)

/-- The percentile `p` of any samples is a number close to the `k`-th smallest
of them, where `k` is the threshold. -/
theorem percentile_error (power : Int) {samples : List K} (nonneg : ∀ x ∈ samples, 0 ≤ x)
    (nonempty : samples ≠ []) {p : K} (atMost : p ≤ 1)
    (enough : 1 ≤ thresholdOf samples.length p) :
    ∃ y, nbHistogramPercentile (histogramOf power samples) (.fin p) = .fin y ∧
      ∃ h : thresholdOf samples.length p - 1 < (sorted (scaledValues power samples)).length,
        Close (sorted (scaledValues power samples))[thresholdOf samples.length p - 1] y := by
  have collected := collected_histogramOf power nonneg nonempty
  have hlen := length_scaledValues power samples
  rw [← hlen] at enough ⊢
  exact collected_close collected atMost enough

theorem percentile_error_three :
    ∃ y, nbHistogramPercentile (histogramOf 0 threeSamples) (.fin (1 / 2)) = .fin y ∧
      ∃ h : thresholdOf threeSamples.length (1 / 2 : ℚ) - 1 <
          (sorted (scaledValues 0 threeSamples)).length,
        Close (sorted (scaledValues 0 threeSamples))[thresholdOf threeSamples.length (1 / 2 : ℚ) - 1]
          y :=
  percentile_error 0 (by decide +kernel) (by decide) (by decide +kernel) (by decide +kernel)

end PercentileError
