import MiniNb.NbHistogram
import MiniNb.RoundedDouble

/-!
# The histogram in double precision

`nb_histogram_add` and `nb_histogram_percentile` once more, with a rounding
behind every operation on doubles and with whatever `pow` returns. Computed
exactly, they are the functions of the histogram without rounding. The
boundaries of the table and the counters up to `2 ^ 53` are doubles themselves.
-/

namespace MiniNb

open ExactDouble RoundedDouble

universe u
variable {K : Type u} [Field K] [LinearOrder K] [IsStrictOrderedRing K] (R : Rounding K)

def nbHistogramAddRounded (pow : Int → Dbl K) (hist : NbHistogram K) (val : Dbl K) :
    NbHistogram K :=
  let val := R.mul val (pow hist.power)
  let mid := bucketIndex val
  { hist with
    min := if val < hist.min then val else hist.min
    max := if hist.max < val then val else hist.max
    sum := R.add hist.sum val
    sumsq := R.add hist.sumsq (R.mul val val)
    buckets := hist.buckets.set mid (hist.buckets[mid] + 1)
    size := hist.size + 1 }

theorem nbHistogramAddRounded_exact (hist : NbHistogram K) (val : Dbl K) :
    nbHistogramAddRounded .exact (fun e => .fin (pow10 e)) hist val = nbHistogramAdd hist val := by
  simp [nbHistogramAddRounded, nbHistogramAdd, Rounding.mul, Rounding.add]

variable [FloorSemiring K]

/-- `(size_t) hist->size * p`: the product is a double before it is stored. -/
def percentileThresholdRounded (hist : NbHistogram K) (p : Dbl K) : Nat :=
  (R.mul (R.ofNat hist.size) p).toNat

def percentileStopRounded (hist : NbHistogram K) (p : Dbl K) : Option Stop :=
  percentileScan (percentileThresholdRounded R hist p) 0 0 hist.buckets.toList

omit [FloorSemiring K] in
def interpolateRounded (threshold : Nat) (stop : Stop) : Dbl K :=
  let scale := R.div (R.ofNat (threshold - stop.left)) (R.ofNat (stop.right - stop.left))
  R.add (lowerBoundary stop.bucket)
    (R.mul (R.sub (boundaryAt stop.bucket) (lowerBoundary stop.bucket)) scale)

def nbHistogramPercentileRounded (hist : NbHistogram K) (p : Dbl K) : Dbl K :=
  match percentileStopRounded R hist p with
  | some stop => clampResult hist (interpolateRounded R (percentileThresholdRounded R hist p) stop)
  | none => hist.max

omit [IsStrictOrderedRing K] in
theorem percentileThresholdRounded_exact (hist : NbHistogram K) (p : Dbl K) :
    percentileThresholdRounded .exact hist p = percentileThreshold hist p := by
  rw [percentileThresholdRounded, Rounding.mul, Rounding.apply_exact]
  rfl

omit [IsStrictOrderedRing K] [FloorSemiring K] in
theorem interpolateRounded_exact (threshold : Nat) (stop : Stop) :
    interpolateRounded .exact threshold stop = (interpolate threshold stop : Dbl K) := by
  simp only [interpolateRounded, interpolate, Rounding.add, Rounding.mul, Rounding.sub,
    Rounding.div, Rounding.apply_exact]
  rfl

omit [IsStrictOrderedRing K] in
theorem nbHistogramPercentileRounded_exact (hist : NbHistogram K) (p : Dbl K) :
    nbHistogramPercentileRounded .exact hist p = nbHistogramPercentile hist p := by
  have stops : percentileStopRounded .exact hist p = percentileStop hist p := by
    rw [percentileStopRounded, percentileThresholdRounded_exact, percentileStop]
  rw [nbHistogramPercentileRounded, nbHistogramPercentile, stops, percentileThresholdRounded_exact]
  cases percentileStop hist p with
  | none => rfl
  | some stop => exact congrArg (clampResult hist) (interpolateRounded_exact _ stop)

end MiniNb
