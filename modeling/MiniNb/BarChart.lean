import MiniNb.SampleSummary
import Mathlib.Algebra.BigOperators.Ring.List
import Mathlib.Algebra.Order.BigOperators.Group.List
import Mathlib.Algebra.Order.Floor.Semifield
import Mathlib.Data.Nat.ModEq

/-!
# The bar chart

A row is meant to get one mark for each full twentieth of all operations. The
cast in the source binds to the share of the row, which is rounded down before
it is multiplied, so a row gets all twenty marks when it holds all operations
and none otherwise. Rows that have less than a twentieth of the operations
have no marks either way.
-/

namespace BarChart

open MiniNb ExactDouble SampleSummary

universe u
variable {K : Type u} [Field K] [LinearOrder K]

/-- Each row of a nonempty bucket has one mark for each full twentieth of all
operations. Larger counts never have fewer marks, and there are at most twenty. -/
structure Proportional (hist : NbHistogram K) (report : Report K) : Prop where
  counts : report.rows.map Row.count = hist.buckets.toList.filter (fun c => c ≠ 0)
  marks : ∀ row ∈ report.rows, row.marks = 20 * row.count / hist.size
  monotone : ∀ a ∈ report.rows, ∀ b ∈ report.rows, a.count < b.count → a.marks ≤ b.marks
  at_most : (report.rows.map Row.marks).sum ≤ 20

/-- Rounding down before the multiplication makes no difference exactly for all
and for less than a twentieth. -/
theorem early_rounding_iff {c n : Nat} (hn : 0 < n) (hc : c ≤ n) :
    20 * (c / n) = 20 * c / n ↔ c = n ∨ 20 * c < n := by
  rcases Nat.lt_or_eq_of_le hc with hlt | rfl
  · rw [Nat.div_eq_of_lt hlt, Nat.mul_zero, eq_comm, Nat.div_eq_zero_iff_lt hn,
      or_iff_right (Nat.ne_of_lt hlt)]
  · rw [Nat.div_self hn, Nat.mul_div_cancel _ hn]
    exact iff_of_true rfl (Or.inl rfl)

theorem sum_div_le (counts : List Nat) (n : Nat) :
    (counts.map (fun c => c / n)).sum ≤ counts.sum / n := by
  induction counts with
  | nil => exact Nat.zero_le _
  | cons c rest ih =>
    calc c / n + (rest.map (fun c => c / n)).sum ≤ c / n + rest.sum / n := Nat.add_le_add_left ih _
      _ ≤ (c + rest.sum) / n := Nat.div_add_div_le_add_div

section Rows
variable [IsStrictOrderedRing K] [FloorSemiring K]

/-- The number of marks that a row gets. -/
theorem dumpMarks_eq {n : Nat} (hn : 0 < n) (c : Nat) :
    dumpMarks (Dbl.ofNat c / Dbl.ofNat n : Dbl K) = 20 * (c / n) := by
  have hn' : (n : K) ≠ 0 := Nat.cast_ne_zero.mpr (Nat.ne_of_gt hn)
  have share : (Dbl.ofNat c / Dbl.ofNat n : Dbl K) = .fin ((c : K) / n) := Dbl.fin_div_fin hn'
  have whole : (Dbl.fin ((c : K) / n)).toNat = c / n := Nat.floor_div_eq_div c n
  have scaled : ((c / n : Nat) : K) * 100 / 5 = ((20 * (c / n) : Nat) : K) := by
    rw [Nat.cast_mul]
    norm_num
    ring
  rw [share, dumpMarks, whole, Dbl.ofNat, Dbl.fin_mul_fin, Dbl.fin_div_fin (by norm_num), scaled]
  exact Nat.floor_natCast _

omit [IsStrictOrderedRing K] in
theorem rows_counts (hist : NbHistogram K) (i : Nat) (counts : List Nat) :
    (dumpRowsFrom hist i counts).map Row.count = counts.filter (fun c => c ≠ 0) := by
  induction counts generalizing i with
  | nil => rfl
  | cons c rest ih =>
    rw [dumpRowsFrom]
    by_cases hzero : c = 0
    · simp [hzero, ih]
    · simp [hzero, ih, dumpRow]

theorem rows_marks {hist : NbHistogram K} (hsize : 0 < hist.size) (i : Nat) (counts : List Nat) :
    ∀ row ∈ dumpRowsFrom hist i counts, row.marks = 20 * (row.count / hist.size) := by
  induction counts generalizing i with
  | nil => simp [dumpRowsFrom]
  | cons c rest ih =>
    rw [dumpRowsFrom]
    split
    · exact ih (i + 1)
    · exact List.forall_mem_cons.mpr ⟨dumpMarks_eq hsize c, ih (i + 1)⟩

/-- The marks of all rows together are at most twenty. -/
theorem rows_at_most {hist : NbHistogram K} (hsize : 0 < hist.size)
    (total : hist.buckets.toList.sum = hist.size) :
    ((dumpRowsFrom hist 0 hist.buckets.toList).map Row.marks).sum ≤ 20 := by
  have marks : (dumpRowsFrom hist 0 hist.buckets.toList).map Row.marks =
      ((dumpRowsFrom hist 0 hist.buckets.toList).map Row.count).map
        (fun c => 20 * (c / hist.size)) := by
    rw [List.map_map]
    exact List.map_congr_left (rows_marks hsize 0 _)
  have counted : (hist.buckets.toList.filter (fun c => c ≠ 0)).sum ≤ hist.size := by
    rw [← total]
    exact List.filter_sublist.sum_le_sum (fun _ _ => Nat.zero_le _)
  rw [marks, rows_counts, List.sum_map_mul_left]
  calc 20 * ((hist.buckets.toList.filter (fun c => c ≠ 0)).map (fun c => c / hist.size)).sum
      ≤ 20 * ((hist.buckets.toList.filter (fun c => c ≠ 0)).sum / hist.size) :=
        Nat.mul_le_mul_left 20 (sum_div_le _ _)
    _ ≤ 20 * (hist.size / hist.size) := Nat.mul_le_mul_left 20 (Nat.div_le_div_right counted)
    _ = 20 := by rw [Nat.div_self hsize]

theorem rows_proportional_iff {hist : NbHistogram K} (hsize : 0 < hist.size)
    (total : hist.buckets.toList.sum = hist.size) {report : Report K}
    (rows : report.rows = dumpRowsFrom hist 0 hist.buckets.toList) :
    Proportional hist report ↔
      ∀ c ∈ hist.buckets.toList, c = hist.size ∨ 20 * c < hist.size := by
  have counts := rows_counts hist 0 hist.buckets.toList
  have marks := rows_marks hsize 0 hist.buckets.toList
  have at_most := rows_at_most hsize total
  rw [← rows] at counts marks at_most
  have le_size : ∀ c ∈ hist.buckets.toList, c ≤ hist.size := fun c hc =>
    total ▸ List.le_sum_of_mem hc
  constructor
  · intro proportional c hc
    by_cases hzero : c = 0
    · exact Or.inr (by omega)
    · have printed : c ∈ report.rows.map Row.count := by
        rw [counts]
        exact List.mem_filter.mpr ⟨hc, decide_eq_true hzero⟩
      obtain ⟨row, hrow, rfl⟩ := List.mem_map.mp printed
      apply (early_rounding_iff hsize (le_size _ hc)).mp
      rw [← marks row hrow, proportional.marks row hrow]
  · intro condition
    refine ⟨counts, ?_, ?_, at_most⟩
    · intro row hrow
      have counted : row.count ∈ hist.buckets.toList := by
        apply List.mem_of_mem_filter (p := fun c => decide (c ≠ 0))
        rw [← counts]
        exact List.mem_map_of_mem hrow
      rw [marks row hrow]
      exact (early_rounding_iff hsize (le_size _ counted)).mpr (condition _ counted)
    · intro a ha b hb hlt
      rw [marks a ha, marks b hb]
      exact Nat.mul_le_mul_left 20 (Nat.div_le_div_right (Nat.le_of_lt hlt))

theorem dump_proportional_iff {hist : NbHistogram K} (hsize : 0 < hist.size)
    (total : hist.buckets.toList.sum = hist.size) (percentiles : List (Dbl K)) :
    ∃ report, nbHistogramDump hist percentiles = some report ∧
      report.rows = dumpRowsFrom hist 0 hist.buckets.toList ∧
      (Proportional hist report ↔
        ∀ c ∈ hist.buckets.toList, c = hist.size ∨ 20 * c < hist.size) :=
  ⟨_, if_pos hsize, rfl, rows_proportional_iff hsize total rfl⟩

/-- After any calls, the bars are proportional exactly when every bucket holds
all of the operations or less than a twentieth of them. -/
theorem proportional_iff {heap : Option (NbHistogram K)} {power : Int} {hist : NbHistogram K}
    (new : nbHistogramNew heap power = some hist) (ops : List (HistOp K))
    (nonempty : 0 < (runOps hist ops).size) (percentiles : List (Dbl K)) :
    ∃ report, nbHistogramDump (runOps hist ops) percentiles = some report ∧
      (Proportional (runOps hist ops) report ↔ ∀ c ∈ (runOps hist ops).buckets.toList,
        c = (runOps hist ops).size ∨ 20 * c < (runOps hist ops).size) := by
  cases new_eq_fresh new
  have total := runOps_total (fresh_summarizes power).buckets_sum ops
  obtain ⟨report, hdump, _, hiff⟩ := dump_proportional_iff nonempty total percentiles
  exact ⟨report, hdump, hiff⟩

end Rows

/-- All operations in one bucket. -/
def oneBucket : List (HistOp ℚ) := [.add (.fin (1 / 2)), .add (.fin 1)]

theorem proportional_one_bucket :
    ∃ report, nbHistogramDump (runOps (freshHistogram 0) oneBucket) [] = some report ∧
      Proportional (runOps (freshHistogram 0) oneBucket) report := by
  have new : nbHistogramNew (some (freshHistogram 0 : NbHistogram ℚ)) 0 =
      some (freshHistogram 0) := rfl
  obtain ⟨report, hdump, proportional⟩ := proportional_iff new oneBucket (by decide +kernel) []
  exact ⟨report, hdump, proportional.mpr (by decide +kernel)⟩

def twoBuckets : List (HistOp ℚ) := [.add (.fin 1), .add (.fin 3)]

/-- Two rows with half of the operations each: ten marks are due, none is printed. -/
theorem not_proportional_two_buckets :
    ∃ report, nbHistogramDump (runOps (freshHistogram 0) twoBuckets) [] = some report ∧
      report.rows.map (fun row => (row.count, row.marks)) = [(1, 0), (1, 0)] ∧
      ¬ Proportional (runOps (freshHistogram 0) twoBuckets) report := by
  have nonempty : 0 < (runOps (freshHistogram 0) twoBuckets).size := by decide +kernel
  have total := runOps_total (fresh_summarizes (K := ℚ) 0).buckets_sum twoBuckets
  obtain ⟨report, hdump, rows, hiff⟩ := dump_proportional_iff nonempty total []
  refine ⟨report, hdump, ?_, ?_⟩
  · rw [rows]
    decide +kernel
  · rw [hiff]
    decide +kernel

end BarChart
