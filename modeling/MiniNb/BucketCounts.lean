import MiniNb.RankCounting
import MiniNb.SampleSummary

/-!
# Counters and ranks

The bucket of a finite value is its rank among the finite boundaries, that is
the number of boundaries below it. The counters of a histogram of finite
samples are therefore the numbers of samples of each rank, and running counts
are the numbers of samples whose rank is below a bound.
-/

namespace BucketCounts

open MiniNb ExactDouble RankCounting SampleSummary

universe u
variable {K : Type u} [Field K] [LinearOrder K]

/-- The bucket of a finite value. -/
def bucketOf (x : K) : Nat := rank (nbHistogramBounds K) x

theorem bucketOf_le (x : K) : bucketOf x ≤ nbHistogramBoundaries.length := by
  rw [← bounds_length K]
  exact rank_le_length (nbHistogramBounds K) x

/-- The number of values in the buckets before `b`. -/
def below (xs : List K) (b : Nat) : Nat := xs.countP (fun x => decide (bucketOf x < b))

theorem below_zero (xs : List K) : below xs 0 = 0 := by simp [below]

theorem below_count (xs : List K) : below xs nbHistogramBucketsCount = xs.length := by
  apply List.countP_eq_length.mpr
  intro x _
  have hle := bucketOf_le x
  exact decide_eq_true (by rw [nbHistogramBucketsCount]; omega)

theorem below_perm {xs ys : List K} (perm : xs.Perm ys) (b : Nat) : below xs b = below ys b :=
  perm.countP_eq _

/-- The bucket of an order statistic is where the running count passes its index. -/
theorem bucketOf_sorted_iff (xs : List K) {i b : Nat} (hi : i < (sorted xs).length) :
    bucketOf (sorted xs)[i] = b ↔ below xs b ≤ i ∧ i < below xs (b + 1) := by
  have hrank := rank_sorted_eq_iff (b := b) (nbHistogramBounds K) xs hi
  simp only [← Nat.lt_succ_iff (n := b)] at hrank
  exact hrank

/-- Bucket `mid` is what the search loop has to find in a table of `n`
boundaries. The loop finds it in the entries `0` to `n - 2` alone, so a list
that ends there is enough for it, and nothing that follows them matters. -/
structure Classifies (table : List (Dbl K)) (val : Dbl K) (mid : Nat) : Prop where
  counts : mid = (table.take (table.length - 1)).countP (fun b => decide (b < val))
  scans : mid = (table.take (table.length - 1)).findIdx (fun b => !decide (b < val))
  found : ∀ entries : List (Dbl K), table.take (table.length - 1) <+: entries →
    ∀ fuel, table.length ≤ fuel → searchLoop entries val fuel 0 (table.length - 1) = some mid

omit [Field K] in
theorem classifies_increasing {table : List (Dbl K)} (nonempty : table ≠ [])
    (increasing : table.Pairwise (· < ·)) (val : Dbl K) :
    Classifies table val
      ((table.take (table.length - 1)).countP (fun b => decide (b < val))) where
  counts := rfl
  scans := by
    refine countP_eq_findIdx (increasing.take.imp ?_)
    intro a b hab hb
    exact decide_eq_true (Dbl.dbl_lt_trans hab (of_decide_eq_true hb))
  found := by
    intro entries longer fuel enough
    have hpos := List.length_pos_iff.mpr nonempty
    have hlen : (table.take (table.length - 1)).length = table.length - 1 := by
      rw [List.length_take]
      omega
    have down := BucketSearch.downward_of_increasing (fun _ _ _ => Dbl.dbl_lt_trans)
      (increasing.take (i := table.length - 1)) val
    have short : (table.take (table.length - 1)).length < fuel := by omega
    have found := BucketSearch.searchLoop_eq_countP down short
    rw [hlen] at found
    exact BucketSearch.searchLoop_prefix longer found

variable [IsStrictOrderedRing K]

/-- The search loop of `nb_histogram_add` counts the finite boundaries below its value. -/
theorem bucketIndex_eq_countP (val : Dbl K) :
    (bucketIndex val).val = (nbHistogramBounds K).countP (fun b => decide (Dbl.fin b < val)) := by
  have hpos := bucketsCount_pos
  have hsearch := BucketSearch.bucketSearch_eq_countP
    (by rw [buckets_length]; exact hpos) (buckets_downward val)
  have htake : (nbHistogramBuckets K).take ((nbHistogramBuckets K).length - 1) =
      (nbHistogramBounds K).map .fin := by
    simp [nbHistogramBuckets]
  rw [htake, List.countP_map] at hsearch
  simp only [bucketIndex, hsearch, Option.get_some]
  rfl

/-- In every increasing table, and so in `NB_HISTOGRAM_BUCKETS`, the search
loop finds the bucket of every value. -/
theorem search_classifies :
    (∀ table : List (Dbl K), table ≠ [] → table.Pairwise (· < ·) → ∀ val,
      ∃ mid, bucketSearch table val = some mid ∧ Classifies table val mid) ∧
    ∀ val : Dbl K, Classifies (nbHistogramBuckets K) val (bucketIndex val).val := by
  have hpos := bucketsCount_pos
  have every (table : List (Dbl K)) (nonempty : table ≠ [])
      (increasing : table.Pairwise (· < ·)) (val : Dbl K) :
      ∃ mid, bucketSearch table val = some mid ∧ Classifies table val mid := by
    have classifies := classifies_increasing nonempty increasing val
    exact ⟨_, classifies.found table (List.take_prefix _ _) _ (Nat.le_refl _), classifies⟩
  refine ⟨every, ?_⟩
  intro val
  have nonempty : nbHistogramBuckets K ≠ [] :=
    List.length_pos_iff.mp (by rw [buckets_length]; exact hpos)
  obtain ⟨mid, hsearch, classifies⟩ := every _ nonempty (buckets_increasing K) val
  have hmid : (bucketIndex val).val = mid := by simp only [bucketIndex, hsearch, Option.get_some]
  rwa [hmid]

def threeBoundaries : List (Dbl ℚ) := [.fin 1, .fin 2, .posInf]

theorem search_classifies_three_boundaries :
    bucketSearch threeBoundaries (.fin 2) = some 1 ∧
    ∃ mid, bucketSearch threeBoundaries (.fin 2) = some mid ∧
      Classifies threeBoundaries (.fin 2) mid :=
  ⟨by decide +kernel, search_classifies.1 threeBoundaries (by simp [threeBoundaries])
    (by simp [threeBoundaries]) _⟩

theorem bucketIndex_fin (x : K) : (bucketIndex (.fin x)).val = bucketOf x :=
  bucketIndex_eq_countP (.fin x)

theorem bucketIndex_posInf :
    (bucketIndex (.posInf : Dbl K)).val = nbHistogramBoundaries.length := by
  rw [bucketIndex_eq_countP, ← bounds_length K, List.countP_eq_length]
  intro b _
  exact decide_eq_true (Dbl.fin_lt_posInf b)

/-- The lower boundary of a bucket as a number. -/
def lowerBound (K : Type u) [Field K] : Nat → K
  | 0 => 0
  | b + 1 => (nbHistogramBounds K)[b]?.getD 0

omit [LinearOrder K] [IsStrictOrderedRing K] in
theorem bounds_first (h : 0 < (nbHistogramBounds K).length) : (nbHistogramBounds K)[0] = 1 := by
  simp [nbHistogramBounds, nbHistogramBoundaries]

section Boundaries
variable {b : Nat} (hb : b < (nbHistogramBounds K).length)
include hb

omit [LinearOrder K] [IsStrictOrderedRing K] in
theorem lowerBound_succ : lowerBound K (b + 1) = (nbHistogramBounds K)[b] := by
  simp only [lowerBound, List.getElem?_eq_getElem hb, Option.getD_some]

omit [LinearOrder K] [IsStrictOrderedRing K] in
theorem boundaryAt_fin : boundaryAt b = Dbl.fin (nbHistogramBounds K)[b] := by
  have hlt : b < ((nbHistogramBounds K).map Dbl.fin).length := by simpa using hb
  simp only [boundaryAt, nbHistogramBuckets, List.getElem?_append_left hlt, List.getElem?_map,
    List.getElem?_eq_getElem hb, Option.map_some, Option.getD_some]

theorem lowerBound_lt : lowerBound K b < (nbHistogramBounds K)[b] := by
  cases b with
  | zero =>
    rw [bounds_first]
    exact zero_lt_one
  | succ b =>
    rw [lowerBound_succ (by omega)]
    exact List.pairwise_iff_getElem.mp (bounds_increasing K) b (b + 1) (by omega) hb
      (Nat.lt_succ_self b)

/-- A value strictly above the lower boundary and not above the upper one. -/
theorem bucketOf_of_between {x : K} (lower : lowerBound K b < x)
    (upper : x ≤ (nbHistogramBounds K)[b]) : bucketOf x = b := by
  apply rank_eq_of_between (bounds_increasing K) (Nat.le_of_lt hb)
  · rintro j hj rfl
    rwa [lowerBound_succ hj] at lower
  · intro _
    exact upper

theorem le_of_bucketOf {x : K} (h : bucketOf x = b) : x ≤ (nbHistogramBounds K)[b] :=
  le_upper_of_rank (bounds_increasing K) hb h

end Boundaries

theorem bucketOf_eq_zero_iff (x : K) : bucketOf x = 0 ↔ x ≤ 1 := by
  have hlen : 0 < (nbHistogramBounds K).length := by simp [nbHistogramBoundaries]
  have hpos := lt_rank_iff (bounds_increasing K) x hlen
  rw [bounds_first] at hpos
  rw [← not_lt, ← hpos, Nat.pos_iff_ne_zero, not_not]
  rfl

omit [LinearOrder K] [IsStrictOrderedRing K] in
theorem boundaryAt_last : boundaryAt nbHistogramBoundaries.length = (Dbl.posInf : Dbl K) := by
  have hlen : ((nbHistogramBounds K).map Dbl.fin).length = nbHistogramBoundaries.length := by simp
  simp only [boundaryAt, nbHistogramBuckets, ← hlen, List.getElem?_concat_length, Option.getD_some]

omit [LinearOrder K] [IsStrictOrderedRing K] in
theorem lowerBoundary_fin {b : Nat} (hb : b ≤ (nbHistogramBounds K).length) :
    lowerBoundary b = Dbl.fin (lowerBound K b) := by
  cases b with
  | zero => rfl
  | succ b => rw [lowerBound_succ hb, lowerBoundary, if_pos (Nat.succ_pos b),
      Nat.add_sub_cancel, boundaryAt_fin hb]

/-- The values up to an upper boundary are those of its bucket and of the ones before. -/
theorem bucketOf_lt_succ_iff {b : Nat} (hb : b ≤ nbHistogramBoundaries.length) (x : K) :
    bucketOf x < b + 1 ↔ Dbl.fin x ≤ boundaryAt b := by
  rcases Nat.lt_or_eq_of_le hb with hlt | heq
  · have hlt' : b < (nbHistogramBounds K).length := by rwa [bounds_length]
    rw [boundaryAt_fin hlt', Dbl.fin_le_fin, ← not_lt,
      ← lt_rank_iff (bounds_increasing K) x hlt', Nat.lt_succ_iff, not_lt]
    rfl
  · have hle := bucketOf_le x
    rw [heq, boundaryAt_last]
    exact iff_of_true (by omega) (Dbl.fin_le_posInf x)

/-- The same of all values that are not negative, infinite ones among them. -/
theorem bucketIndex_lt_succ_iff {b : Nat} (hb : b ≤ nbHistogramBoundaries.length) {x : Dbl K}
    (hx : 0 ≤ x) : (bucketIndex x).val < b + 1 ↔ x ≤ boundaryAt b := by
  cases x with
  | nan => exact False.elim hx
  | negInf => exact False.elim hx
  | fin x =>
    rw [bucketIndex_fin]
    exact bucketOf_lt_succ_iff hb x
  | posInf =>
    rw [bucketIndex_posInf]
    rcases Nat.lt_or_eq_of_le hb with hlt | heq
    · have hlt' : b < (nbHistogramBounds K).length := by rwa [bounds_length]
      rw [boundaryAt_fin hlt']
      exact iff_of_false (by omega) (Dbl.not_posInf_le_fin _)
    · rw [heq, boundaryAt_last]
      exact iff_of_true (by omega) (Dbl.posInf_le_iff.mpr rfl)

/-- Only the values of the first bucket can lie on its lower boundary. -/
theorem lower_lt_of_bucketOf {x : K} {b : Nat} (hb : b < (nbHistogramBounds K).length)
    (h : bucketOf x = b + 1) : lowerBound K (b + 1) < x := by
  rw [lowerBound_succ hb]
  exact lower_lt_of_rank (bounds_increasing K) hb h

/-- A histogram that has collected the values `xs`. -/
structure Collected (hist : NbHistogram K) (xs : List K) : Prop where
  nonneg : ∀ x ∈ xs, 0 ≤ x
  size_eq : hist.size = xs.length
  min_eq : ∃ m ∈ xs, hist.min = .fin m ∧ ∀ x ∈ xs, m ≤ x
  max_eq : ∃ m ∈ xs, hist.max = .fin m ∧ ∀ x ∈ xs, x ≤ m
  bucket_eq : ∀ i : Fin nbHistogramBucketsCount,
    hist.buckets[i] = xs.countP (fun x => decide (bucketOf x = i.val))

def scaledValues (power : Int) (samples : List K) : List K :=
  samples.map (fun x => x * pow10 power)

/-- A new histogram after one `nb_histogram_add` for each of the samples. -/
def histogramOf (power : Int) (samples : List K) : NbHistogram K :=
  runOps (freshHistogram power) (samples.map (fun x => .add (.fin x)))

theorem histogramOf_eq (power : Int) (samples : List K) :
    histogramOf power samples = histogramAfter power (samples.map .fin) := by
  rw [histogramOf, histogramAfter, List.map_map]
  rfl

omit [IsStrictOrderedRing K] in
theorem map_scaled (power : Int) (samples : List K) :
    (samples.map Dbl.fin).map (scaled power) = (scaledValues power samples).map .fin := by
  rw [scaledValues, List.map_map, List.map_map]
  rfl

theorem scaledValues_nonneg (power : Int) {samples : List K} (nonneg : ∀ x ∈ samples, 0 ≤ x) :
    ∀ x ∈ scaledValues power samples, 0 ≤ x := by
  intro x hx
  obtain ⟨y, hy, rfl⟩ := List.mem_map.mp hx
  exact mul_nonneg (nonneg y hy) (le_of_lt (pow10_pos power))

theorem collected_of_summarizes {hist : NbHistogram K} {power : Int} {xs : List K}
    (summary : Summarizes hist power (xs.map .fin)) (nonneg : ∀ x ∈ xs, 0 ≤ x)
    (nonempty : xs ≠ []) : Collected hist xs where
  nonneg := nonneg
  size_eq := by simpa using summary.size_eq
  min_eq := by
    rcases summary.min_mem with hmem | ⟨hnil, _⟩
    · obtain ⟨m, hm, heq⟩ := List.mem_map.mp hmem
      refine ⟨m, hm, heq.symm, ?_⟩
      intro x hx
      have hle := summary.min_least _ (List.mem_map_of_mem hx)
      rwa [← heq] at hle
    · exact absurd (List.map_eq_nil_iff.mp hnil) nonempty
  max_eq := by
    rcases summary.max_mem with hmem | ⟨hnil, _⟩
    · obtain ⟨m, hm, heq⟩ := List.mem_map.mp hmem
      refine ⟨m, hm, heq.symm, ?_⟩
      intro x hx
      have hle := summary.max_greatest _ (List.mem_map_of_mem hx)
      rwa [← heq] at hle
    · exact absurd (List.map_eq_nil_iff.mp hnil) nonempty
  bucket_eq i := by
    rw [summary.bucket_eq, List.countP_map]
    apply List.countP_congr
    intro x _
    simp only [Function.comp_apply, decide_eq_true_eq, ← bucketIndex_fin, Fin.ext_iff]

theorem collected_histogramOf (power : Int) {samples : List K} (nonneg : ∀ x ∈ samples, 0 ≤ x)
    (nonempty : samples ≠ []) :
    Collected (histogramOf power samples) (scaledValues power samples) := by
  have nonneg' : ∀ x ∈ samples.map Dbl.fin, 0 ≤ x := by
    intro y hy
    obtain ⟨x, hx, rfl⟩ := List.mem_map.mp hy
    exact nonneg x hx
  have summary := (histogramAfter_summarizes power nonneg').1
  rw [map_scaled] at summary
  rw [histogramOf_eq]
  exact collected_of_summarizes summary (scaledValues_nonneg power nonneg)
    (by simpa [scaledValues] using nonempty)

namespace Collected
variable {hist : NbHistogram K} {xs : List K}

omit [IsStrictOrderedRing K] in
theorem running (h : Collected hist xs) {b : Nat} (hb : b ≤ nbHistogramBucketsCount) :
    (hist.buckets.toList.take b).sum = below xs b := by
  apply sum_take_counters
  · intro i hi
    have hlt : i < nbHistogramBucketsCount := by rwa [Vector.length_toList] at hi
    rw [Vector.getElem_toList]
    exact h.bucket_eq ⟨i, hlt⟩
  · rwa [Vector.length_toList]

omit [IsStrictOrderedRing K] in
theorem total (h : Collected hist xs) : hist.buckets.toList.sum = xs.length := by
  have hall := h.running (Nat.le_refl _)
  rwa [List.take_of_length_le (by simp), below_count] at hall

end Collected

end BucketCounts
