import MiniNb.BucketSearch
import MiniNb.ExactDouble
import Mathlib.Algebra.Order.Ring.Cast
import Mathlib.Data.Nat.Cast.Order.Ring

/-!
# The latency histogram

The translation of `nb_histogram.c`. All `double` fields are exact doubles over
an arbitrary ordered field, so `INFINITY` in the table and in `min`, and the
undefined value of a division by zero, behave as they do in the source. The
counters are unbounded. A report is the numbers that are printed; their texts
have a module of their own.

The classification loop of `nb_histogram_add` is `bucketSearch`. It never
leaves the table, which is part of the definition of `bucketIndex`.
-/

namespace MiniNb

open ExactDouble

universe u

/-- The finite entries of `NB_HISTOGRAM_BUCKETS`; the last entry is `INFINITY`. All of
them are doubles, and the greatest one is the double of the literal `1e200`. -/
def nbHistogramBoundaries : List Nat :=
  [1, 2, 3, 4, 5, 6, 7, 8, 9, 10, 12, 14, 16, 18, 20, 25, 30, 35, 40, 45, 50, 60, 70, 80,
   90, 100, 120, 140, 160, 180, 200, 250, 300, 350, 400, 450, 500, 600, 700, 800, 900,
   1000, 1200, 1400, 1600, 1800, 2000, 2500, 3000, 3500, 4000, 4500, 5000, 6000, 7000,
   8000, 9000, 10000, 12000, 14000, 16000, 18000, 20000, 25000, 30000, 35000, 40000, 45000,
   50000, 60000, 70000, 80000, 90000, 100000, 120000, 140000, 160000, 180000, 200000,
   250000, 300000, 350000, 400000, 450000, 500000, 600000, 700000, 800000, 900000, 1000000,
   1200000, 1400000, 1600000, 1800000, 2000000, 2500000, 3000000, 3500000, 4000000,
   4500000, 5000000, 6000000, 7000000, 8000000, 9000000, 10000000, 12000000, 14000000,
   16000000, 18000000, 20000000, 25000000, 30000000, 35000000, 40000000, 45000000,
   50000000, 60000000, 70000000, 80000000, 90000000, 100000000, 120000000, 140000000,
   160000000, 180000000, 200000000, 250000000, 300000000, 350000000, 400000000, 450000000,
   500000000, 600000000, 700000000, 800000000, 900000000, 1000000000, 1200000000,
   1400000000, 1600000000, 1800000000, 2000000000, 2500000000, 3000000000, 3500000000,
   4000000000, 4500000000, 5000000000, 6000000000, 7000000000, 8000000000, 9000000000,
   0x14e718d7d7625a * 16 ^ 153]

def nbHistogramBucketsCount : Nat := nbHistogramBoundaries.length + 1

theorem bucketsCount_pos : 0 < nbHistogramBucketsCount := by
  simp [nbHistogramBucketsCount]

theorem boundaries_increasing : nbHistogramBoundaries.Pairwise (· < ·) := by
  apply List.isChain_iff_pairwise.mp
  decide +kernel

section Table
variable (K : Type u) [Field K]

def nbHistogramBounds : List K := nbHistogramBoundaries.map (fun n : Nat => (n : K))

def nbHistogramBuckets : List (Dbl K) := (nbHistogramBounds K).map .fin ++ [.posInf]

@[simp] theorem bounds_length : (nbHistogramBounds K).length = nbHistogramBoundaries.length :=
  List.length_map _

@[simp] theorem buckets_length : (nbHistogramBuckets K).length = nbHistogramBucketsCount := by
  simp [nbHistogramBuckets, nbHistogramBucketsCount]

variable [LinearOrder K] [IsStrictOrderedRing K]

theorem bounds_increasing : (nbHistogramBounds K).Pairwise (· < ·) := by
  refine List.pairwise_map.mpr (boundaries_increasing.imp ?_)
  intro a b hab
  exact Nat.cast_lt.mpr hab

theorem buckets_increasing : (nbHistogramBuckets K).Pairwise (· < ·) := by
  refine List.pairwise_append.mpr ⟨?_, List.pairwise_singleton _ _, ?_⟩
  · exact List.pairwise_map.mpr (bounds_increasing K)
  · intro a ha b hb
    obtain ⟨x, _, rfl⟩ := List.mem_map.mp ha
    simp [List.mem_singleton.mp hb]

end Table

variable {K : Type u} [Field K] [LinearOrder K] [IsStrictOrderedRing K]

theorem buckets_downward (val : Dbl K) :
    BucketSearch.Downward (nbHistogramBuckets K) val :=
  BucketSearch.downward_of_increasing (fun _ _ _ => Dbl.dbl_lt_trans) (buckets_increasing K) val

theorem bucketSearch_table (val : Dbl K) :
    ∃ r, bucketSearch (nbHistogramBuckets K) val = some r ∧ r < nbHistogramBucketsCount := by
  have hlen := buckets_length K
  have hpos := bucketsCount_pos
  refine ⟨_, BucketSearch.bucketSearch_eq_countP (by omega) (buckets_downward val), ?_⟩
  apply lt_of_le_of_lt List.countP_le_length
  rw [List.length_take]
  omega

/-- The value of `mid` after the search loop of `nb_histogram_add`. -/
def bucketIndex (val : Dbl K) : Fin nbHistogramBucketsCount :=
  ⟨(bucketSearch (nbHistogramBuckets K) val).get
      (by obtain ⟨r, hr, _⟩ := bucketSearch_table val; simp [hr]),
    by obtain ⟨r, hr, hlt⟩ := bucketSearch_table val; simpa [hr] using hlt⟩

structure NbHistogram (K : Type u) where
  min : Dbl K
  max : Dbl K
  sum : Dbl K
  sumsq : Dbl K
  size : Nat
  buckets : Vector Nat nbHistogramBucketsCount
  power : Int

omit [LinearOrder K] [IsStrictOrderedRing K] in
/-- Everything but the power is overwritten. -/
def nbHistogramClear (hist : NbHistogram K) : NbHistogram K where
  min := .posInf
  max := 0
  sum := 0
  sumsq := 0
  size := 0
  buckets := Vector.replicate _ 0
  power := hist.power

/-- The allocated memory holds an arbitrary record before it is cleared. -/
def nbHistogramNew (heap : Option (NbHistogram K)) (power : Int) : Option (NbHistogram K) :=
  heap.map (fun hist => nbHistogramClear { hist with power := power })

omit [LinearOrder K] [IsStrictOrderedRing K] in
/-- `pow(10, e)`, also for a negative exponent. -/
def pow10 (e : Int) : K := (10 : K) ^ e

theorem pow10_pos (e : Int) : 0 < (pow10 e : K) := zpow_pos (by norm_num) e

def nbHistogramAdd (hist : NbHistogram K) (val : Dbl K) : NbHistogram K :=
  let val := val * .fin (pow10 hist.power)
  let mid := bucketIndex val
  { hist with
    min := if val < hist.min then val else hist.min
    max := if hist.max < val then val else hist.max
    sum := hist.sum + val
    sumsq := hist.sumsq + val * val
    buckets := hist.buckets.set mid (hist.buckets[mid] + 1)
    size := hist.size + 1 }

/-- `NB_HISTOGRAM_BUCKETS[i]`, for an index inside the table. -/
def boundaryAt (i : Nat) : Dbl K := (nbHistogramBuckets K)[i]?.getD .nan

/-- `(b > 0) ? NB_HISTOGRAM_BUCKETS[b-1] : 0`. -/
def lowerBoundary (b : Nat) : Dbl K := if 0 < b then boundaryAt (b - 1) else 0

/-- Where the loop of `nb_histogram_percentile` stops: the bucket and the
numbers of samples before it and up to it. -/
structure Stop where
  bucket : Nat
  left : Nat
  right : Nat
  deriving DecidableEq

def percentileScan (threshold : Nat) : Nat → Nat → List Nat → Option Stop
  | _, _, [] => none
  | b, count, c :: rest =>
    if threshold ≤ count + c then some ⟨b, count + c - c, count + c⟩
    else percentileScan threshold (b + 1) (count + c) rest

section Percentile
variable [FloorSemiring K]

/-- `(size_t) hist->size * p`: the cast binds to `size`, so the product, which is
exact here, is truncated when it is stored. -/
def percentileThreshold (hist : NbHistogram K) (p : Dbl K) : Nat :=
  (Dbl.ofNat hist.size * p).toNat

def percentileStop (hist : NbHistogram K) (p : Dbl K) : Option Stop :=
  percentileScan (percentileThreshold hist p) 0 0 hist.buckets.toList

def interpolate (threshold : Nat) (stop : Stop) : Dbl K :=
  let scale : Dbl K := Dbl.ofNat (threshold - stop.left) / Dbl.ofNat (stop.right - stop.left)
  lowerBoundary stop.bucket +
    (boundaryAt stop.bucket - lowerBoundary stop.bucket) * scale

/-- The two-sided clamp at the end of `nb_histogram_percentile`. -/
def clampResult (hist : NbHistogram K) (r : Dbl K) : Dbl K :=
  if r < hist.min then hist.min else if hist.max < r then hist.max else r

def nbHistogramPercentile (hist : NbHistogram K) (p : Dbl K) : Dbl K :=
  match percentileStop hist p with
  | some stop => clampResult hist (interpolate (percentileThreshold hist p) stop)
  | none => hist.max

end Percentile

/-- One printed row: its bounds, count, percentage and number of marks. -/
structure Row (K : Type u) where
  lower : Dbl K
  upper : Dbl K
  count : Nat
  percents : Dbl K
  marks : Nat

structure Report (K : Type u) where
  rows : List (Row K)
  totalSum : Dbl K
  totalCount : Nat
  minLatency : Dbl K
  avgLatency : Dbl K
  maxLatency : Dbl K
  percentiles : List (Dbl K × Dbl K)
  throughput : Dbl K

section Dump
variable [FloorSemiring K]

/-- `(unsigned) percents * 1e2 / 5.0`: the cast binds to `percents`. -/
def dumpMarks (percents : Dbl K) : Nat :=
  (Dbl.ofNat percents.toNat * .fin 100 / .fin 5 : Dbl K).toNat

def dumpRow (hist : NbHistogram K) (i count : Nat) : Row K :=
  let percents : Dbl K := Dbl.ofNat count / Dbl.ofNat hist.size
  { lower := lowerBoundary i
    upper := boundaryAt i
    count := count
    percents := percents * .fin 100
    marks := dumpMarks percents }

/-- The row loop from bucket `i` on; empty buckets are skipped. -/
def dumpRowsFrom (hist : NbHistogram K) : Nat → List Nat → List (Row K)
  | _, [] => []
  | i, count :: rest =>
    if count = 0 then dumpRowsFrom hist (i + 1) rest
    else dumpRow hist i count :: dumpRowsFrom hist (i + 1) rest

/-- No result when the assertion at the head fails. -/
def nbHistogramDump (hist : NbHistogram K) (percentiles : List (Dbl K)) : Option (Report K) :=
  if 0 < hist.size then
    some
      { rows := dumpRowsFrom hist 0 hist.buckets.toList
        totalSum := hist.sum
        totalCount := hist.size
        minLatency := hist.min
        avgLatency := hist.sum / Dbl.ofNat hist.size
        maxLatency := hist.max
        percentiles := percentiles.map
          (fun p => (p * .fin 100, nbHistogramPercentile hist p))
        throughput := Dbl.ofNat hist.size / (hist.sum * .fin (pow10 (-hist.power))) }
  else none

end Dump

end MiniNb
