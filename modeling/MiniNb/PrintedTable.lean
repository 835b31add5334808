import MiniNb.BucketCounts
import Mathlib.Data.Rat.Floor

/-!
# What the printed table says about the samples

A row is printed for every bucket that is not empty, with the boundaries of the
bucket and its counter. The header announces intervals that contain their lower
boundary. The counters count the other way round: a sample on a boundary
belongs to the bucket below it. The two readings agree exactly when no sample
lies on a boundary of the table.
-/

namespace PrintedTable

open MiniNb ExactDouble RankCounting BucketCounts

universe u
variable {K : Type u} [Field K] [LinearOrder K]

/-- `x` lies in the interval that is printed for the row. -/
def InRow (row : Row K) (x : K) : Prop := row.lower ≤ .fin x ∧ Dbl.fin x < row.upper

instance (row : Row K) (x : K) : Decidable (InRow row x) :=
  inferInstanceAs (Decidable (_ ∧ _))

/-- The rows describe the values `xs` as their header says. -/
structure TellsTruth (report : Report K) (xs : List K) : Prop where
  counts : ∀ row ∈ report.rows, row.count = xs.countP (fun x => decide (InRow row x))
  once : ∀ x ∈ xs, report.rows.countP (fun row => decide (InRow row x)) = 1
  increasing : report.rows.Pairwise (fun a b => a.upper ≤ b.lower)
  total : (report.rows.map Row.count).sum = report.totalCount

/-- The counter of a bucket. -/
def counter (xs : List K) (j : Nat) : Nat := xs.countP (fun x => decide (bucketOf x = j))

/-- The buckets that get a row. -/
def printed (xs : List K) : List Nat :=
  (List.range' 0 nbHistogramBucketsCount).filter (fun j => counter xs j ≠ 0)

section Rows
variable {hist : NbHistogram K} {xs : List K}

theorem mem_printed {j : Nat} :
    j ∈ printed xs ↔ j ≤ nbHistogramBoundaries.length ∧ counter xs j ≠ 0 := by
  simp only [printed, List.mem_filter, List.mem_range'_1, nbHistogramBucketsCount, decide_eq_true_eq]
  omega

theorem printed_of_mem {x : K} (hx : x ∈ xs) : bucketOf x ∈ printed xs := by
  refine mem_printed.mpr ⟨bucketOf_le x, ?_⟩
  have hpos : 0 < counter xs (bucketOf x) := List.countP_pos_iff.mpr ⟨x, hx, by simp⟩
  omega

theorem printed_increasing (xs : List K) : (printed xs).Pairwise (· < ·) :=
  List.Pairwise.filter _ (List.pairwise_lt_range' (s := 0))

theorem buckets_eq (h : Collected hist xs) :
    hist.buckets.toList = (List.range' 0 nbHistogramBucketsCount).map (counter xs) := by
  apply List.ext_getElem
  · simp
  · intro i hi _
    have hlt : i < nbHistogramBucketsCount := by simpa using hi
    simpa [counter] using h.bucket_eq ⟨i, hlt⟩

variable [FloorSemiring K]

/-- The row loop prints the nonzero counters in order. -/
theorem dumpRowsFrom_eq (hist : NbHistogram K) (f : Nat → Nat) (i n : Nat) :
    dumpRowsFrom hist i ((List.range' i n).map f) =
      ((List.range' i n).filter (fun j => f j ≠ 0)).map (fun j => dumpRow hist j (f j)) := by
  induction n generalizing i with
  | zero => rfl
  | succ n ih =>
    rw [List.range'_succ, List.map_cons, dumpRowsFrom, ih, List.filter_cons]
    by_cases hzero : f i = 0
    · simp [hzero]
    · simp [hzero]

theorem rows_eq (h : Collected hist xs) :
    dumpRowsFrom hist 0 hist.buckets.toList =
      (printed xs).map (fun j => dumpRow hist j (counter xs j)) := by
  rw [buckets_eq h, dumpRowsFrom_eq]
  rfl

end Rows

theorem sum_filter_nonzero (f : Nat → Nat) (l : List Nat) :
    ((l.filter (fun j => f j ≠ 0)).map f).sum = (l.map f).sum := by
  induction l with
  | nil => rfl
  | cons j rest ih =>
    by_cases hzero : f j = 0
    · simpa [List.filter_cons, hzero] using ih
    · simpa [List.filter_cons, hzero] using ih

theorem printed_sum {hist : NbHistogram K} {xs : List K} (h : Collected hist xs) :
    ((printed xs).map (counter xs)).sum = xs.length := by
  have hsum := h.total
  rw [buckets_eq h] at hsum
  rw [printed, sum_filter_nonzero, hsum]

/-- `x` lies in the interval printed for bucket `j`. -/
def InInterval (j : Nat) (x : K) : Prop :=
  lowerBoundary j ≤ Dbl.fin x ∧ Dbl.fin x < boundaryAt j

instance (j : Nat) (x : K) : Decidable (InInterval j x) := inferInstanceAs (Decidable (_ ∧ _))

theorem inInterval_iff {j : Nat} (hj : j < (nbHistogramBounds K).length) (x : K) :
    InInterval j x ↔ lowerBound K j ≤ x ∧ x < (nbHistogramBounds K)[j] := by
  rw [InInterval, lowerBoundary_fin (Nat.le_of_lt hj), boundaryAt_fin hj]
  rfl

theorem inInterval_last_iff (x : K) :
    InInterval (nbHistogramBounds K).length x ↔ lowerBound K (nbHistogramBounds K).length ≤ x := by
  rw [InInterval, lowerBoundary_fin (Nat.le_refl _), bounds_length, boundaryAt_last]
  simp

variable [IsStrictOrderedRing K]

theorem bucketOf_last {x : K} (h : lowerBound K (nbHistogramBounds K).length < x) :
    bucketOf x = (nbHistogramBounds K).length := by
  have hpos : (nbHistogramBounds K).length - 1 < (nbHistogramBounds K).length := by
    simp [nbHistogramBoundaries]
  have hlast : (nbHistogramBounds K).length = (nbHistogramBounds K).length - 1 + 1 := by omega
  rw [hlast, lowerBound_succ hpos] at h
  have above : (nbHistogramBounds K).length - 1 < bucketOf x :=
    (lt_rank_iff (bounds_increasing K) x hpos).mpr h
  have hle : bucketOf x ≤ (nbHistogramBounds K).length := rank_le_length _ x
  omega

/-- A value in the interval of a bucket belongs there, unless it is the lower boundary. -/
theorem bucketOf_of_inInterval {j : Nat} (hj : j ≤ (nbHistogramBounds K).length) {x : K}
    (inside : InInterval j x) (strict : 0 < j → x ≠ lowerBound K j) : bucketOf x = j := by
  rcases Nat.eq_zero_or_pos j with rfl | hpos
  · have hlen : 0 < (nbHistogramBounds K).length := by simp [nbHistogramBoundaries]
    have upper := ((inInterval_iff hlen x).mp inside).2
    rw [bounds_first] at upper
    exact (bucketOf_eq_zero_iff x).mpr (le_of_lt upper)
  · rcases Nat.lt_or_eq_of_le hj with hlt | rfl
    · obtain ⟨lower, upper⟩ := (inInterval_iff hlt x).mp inside
      exact bucketOf_of_between hlt (lt_of_le_of_ne lower (strict hpos).symm) (le_of_lt upper)
    · have lower := (inInterval_last_iff x).mp inside
      exact bucketOf_last (lt_of_le_of_ne lower (strict hpos).symm)

theorem lowerBound_le_of_bucketOf {x : K} (nonneg : 0 ≤ x) {j : Nat} (h : bucketOf x = j) :
    lowerBound K j ≤ x := by
  cases j with
  | zero => exact nonneg
  | succ j =>
    have hle : bucketOf x ≤ (nbHistogramBounds K).length := rank_le_length _ x
    exact le_of_lt (lower_lt_of_bucketOf (by omega) h)

/-- Off the boundaries of the table, the two readings of a row agree. -/
theorem inInterval_iff_bucketOf {x : K} (nonneg : 0 ≤ x) (off : x ∉ nbHistogramBounds K) {j : Nat}
    (hj : j ≤ (nbHistogramBounds K).length) : InInterval j x ↔ bucketOf x = j := by
  constructor
  · intro inside
    apply bucketOf_of_inInterval hj inside
    rintro hpos rfl
    cases j with
    | zero => omega
    | succ j =>
      rw [lowerBound_succ hj] at off
      exact off (List.getElem_mem hj)
  · intro hbucket
    have lower := lowerBound_le_of_bucketOf nonneg hbucket
    rcases Nat.lt_or_eq_of_le hj with hlt | rfl
    · have upper := le_of_bucketOf hlt hbucket
      have distinct : x ≠ (nbHistogramBounds K)[j] := by
        rintro rfl
        exact off (List.getElem_mem hlt)
      exact (inInterval_iff hlt x).mpr ⟨lower, lt_of_le_of_ne upper distinct⟩
    · exact (inInterval_last_iff x).mpr lower

/-- The intervals of different buckets are disjoint and in order. -/
theorem boundary_le_lower {i j : Nat} (hij : i < j) (hj : j ≤ (nbHistogramBounds K).length) :
    (boundaryAt i : Dbl K) ≤ lowerBoundary j := by
  obtain ⟨j, rfl⟩ := Nat.exists_eq_add_of_lt hij
  have hlast : i + j < (nbHistogramBounds K).length := by omega
  rw [lowerBoundary_fin hj, lowerBound_succ hlast, boundaryAt_fin (Nat.lt_of_lt_of_le hij hj)]
  rcases Nat.eq_zero_or_pos j with rfl | hpos
  · exact le_refl (nbHistogramBounds K)[i]
  · exact le_of_lt (List.pairwise_iff_getElem.mp (bounds_increasing K) i (i + j) _ hlast (by omega))

section Report
variable [FloorSemiring K] {hist : NbHistogram K} {xs : List K}

/-- The rows of a table, with the samples that they count. -/
def tableRows (hist : NbHistogram K) (xs : List K) : List (Row K) :=
  (printed xs).map (fun j => dumpRow hist j (counter xs j))

omit [IsStrictOrderedRing K] in
theorem dump_rows (h : Collected hist xs) (nonempty : xs ≠ []) (percentiles : List (Dbl K)) :
    ∃ report, nbHistogramDump hist percentiles = some report ∧
      report.rows = tableRows hist xs ∧ report.totalCount = xs.length := by
  have hpos : 0 < hist.size := by
    rw [h.size_eq]
    exact List.length_pos_iff.mpr nonempty
  exact ⟨_, if_pos hpos, rows_eq h, h.size_eq⟩

theorem tellsTruth_of_off (h : Collected hist xs) {report : Report K}
    (rows : report.rows = tableRows hist xs) (total : report.totalCount = xs.length)
    (off : ∀ x ∈ xs, x ∉ nbHistogramBounds K) : TellsTruth report xs where
  counts := by
    rw [rows]
    intro row hrow
    obtain ⟨j, hj, rfl⟩ := List.mem_map.mp hrow
    have hle := (mem_printed.mp hj).1
    rw [← bounds_length K] at hle
    apply List.countP_congr
    intro x hx
    simp only [decide_eq_true_eq]
    exact (inInterval_iff_bucketOf (h.nonneg x hx) (off x hx) hle).symm
  once := by
    intro x hx
    rw [rows, tableRows, List.countP_map]
    have same : (printed xs).countP ((fun row => decide (InRow row x)) ∘
        fun j => dumpRow hist j (counter xs j)) = (printed xs).count (bucketOf x) := by
      apply List.countP_congr
      intro j hj
      have hle := (mem_printed.mp hj).1
      rw [← bounds_length K] at hle
      have agree := inInterval_iff_bucketOf (h.nonneg x hx) (off x hx) hle
      simp only [Function.comp_apply, decide_eq_true_eq, beq_iff_eq]
      exact agree.trans eq_comm
    have nodup : (printed xs).Nodup := (printed_increasing xs).imp (fun {a b} hab => Nat.ne_of_lt hab)
    rw [same, List.count_eq_one_of_mem nodup (printed_of_mem hx)]
  increasing := by
    rw [rows]
    refine List.pairwise_map.mpr ((printed_increasing xs).imp_of_mem ?_)
    intro i j _ hj hij
    have hle := (mem_printed.mp hj).1
    rw [← bounds_length K] at hle
    exact boundary_le_lower hij hle
  total := by
    rw [rows, total, tableRows, List.map_map]
    exact printed_sum h

/-- A table that tells the truth has no sample on a boundary: going up the
boundaries, the row below the first one with a sample would have to leave it out. -/
theorem off_of_tellsTruth {report : Report K}
    (rows : report.rows = tableRows hist xs) (truth : TellsTruth report xs) (j : Nat)
    (hj : j < (nbHistogramBounds K).length) : (nbHistogramBounds K)[j] ∉ xs := by
  induction j using Nat.strongRecOn with
  | ind j ih =>
    intro hmem
    have hbucket : bucketOf (nbHistogramBounds K)[j] = j :=
      bucketOf_of_between hj (lowerBound_lt hj) (le_refl _)
    have hprinted : j ∈ printed xs := by
      have := printed_of_mem hmem
      rwa [hbucket] at this
    have hcount := truth.counts (dumpRow hist j (counter xs j))
      (by rw [rows]; exact List.mem_map_of_mem hprinted)
    have inward : ∀ x ∈ xs, decide (InInterval j x) = true → decide (bucketOf x = j) = true := by
      intro x hx inside
      refine decide_eq_true (bucketOf_of_inInterval (Nat.le_of_lt hj) (of_decide_eq_true inside) ?_)
      rintro hpos rfl
      cases j with
      | zero => omega
      | succ j =>
        rw [lowerBound_succ (by omega)] at hx
        exact ih j (Nat.lt_succ_self j) (by omega) hx
    have outward := forall_of_countP_eq inward hcount.symm _ hmem (decide_eq_true hbucket)
    have inside := (inInterval_iff hj _).mp (of_decide_eq_true outward)
    exact lt_irrefl _ inside.2

end Report

/-- The printed table tells the truth exactly when no scaled sample is a
boundary of the table. -/
theorem tellsTruth_iff [FloorSemiring K] (power : Int) {samples : List K}
    (nonneg : ∀ x ∈ samples, 0 ≤ x) (nonempty : samples ≠ []) (percentiles : List (Dbl K)) :
    ∃ report, nbHistogramDump (histogramOf power samples) percentiles = some report ∧
      (TellsTruth report (scaledValues power samples) ↔
        ∀ x ∈ samples, x * pow10 power ∉ nbHistogramBounds K) := by
  have collected := collected_histogramOf power nonneg nonempty
  have nonempty' : scaledValues power samples ≠ [] := by simpa [scaledValues] using nonempty
  obtain ⟨report, hdump, rows, total⟩ := dump_rows collected nonempty' percentiles
  refine ⟨report, hdump, ?_⟩
  constructor
  · intro truth x hx hmem
    obtain ⟨j, hj, heq⟩ := List.getElem_of_mem hmem
    apply off_of_tellsTruth rows truth j hj
    rw [heq]
    exact List.mem_map_of_mem hx
  · intro off
    apply tellsTruth_of_off collected rows total
    intro x hx
    obtain ⟨y, hy, rfl⟩ := List.mem_map.mp hx
    exact off y hy

/-- Two samples of bucket 0 and one of bucket 3, none of them on a boundary. -/
def betweenBoundaries : List ℚ := [1 / 2, 7 / 2, 1 / 4]

theorem tellsTruth_between_boundaries :
    ∃ report, nbHistogramDump (histogramOf 0 betweenBoundaries) [] = some report ∧
      TellsTruth report (scaledValues 0 betweenBoundaries) := by
  have nonneg : ∀ x ∈ betweenBoundaries, 0 ≤ x := by decide +kernel
  have nonempty : betweenBoundaries ≠ [] := by decide
  obtain ⟨report, hdump, truth⟩ := tellsTruth_iff 0 nonneg nonempty []
  refine ⟨report, hdump, truth.mpr ?_⟩
  decide +kernel

def onBoundary : List ℚ := [1]

/-- The sample 1 is counted in the row of `[0, 1)`. -/
theorem not_tellsTruth_on_boundary :
    ∃ report, nbHistogramDump (histogramOf 0 onBoundary) [] = some report ∧
      report.rows.map (fun row => (row.lower, row.upper, row.count)) = [(0, .fin 1, 1)] ∧
      ¬ TellsTruth report (scaledValues 0 onBoundary) := by
  refine ⟨_, rfl, by decide +kernel, ?_⟩
  intro truth
  have hcount := truth.once 1 (by decide +kernel)
  revert hcount
  decide +kernel

end PrintedTable
