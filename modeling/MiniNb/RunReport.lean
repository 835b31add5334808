import MiniNb.EngineRun
import MiniNb.NbTime
import MiniNb.PercentileError
import MiniNb.PrintedTable

/-!
# What the report of a run says about its operations

The clock is read in nanoseconds, before and after every plugin call, and its
numbers are computed with exactly, not as doubles. The report of a run that
succeeds is then the statistics of these durations: count, sum, least, greatest
and average, the throughput as the number of operations by the time spent in
them, shares of the rows that add up to all of them, and percentiles that are
close to the order statistics from the first rank on.
-/

namespace RunReport

open MiniNb ExactDouble EngineRun RankCounting BucketCounts SampleSummary Percentiles
open PercentileError PrintedTable

universe u v

/-- The nanoseconds between the two readings of round `k`. -/
def duration (clock : Nat → Timespec) (k : Nat) : Nat :=
  ((clock (2 * k + 1)).nanoseconds - (clock (2 * k)).nanoseconds).toNat

/-- The durations of the first `n` operations. -/
def durations (clock : Nat → Timespec) (n : Nat) : List Nat := (List.range n).map (duration clock)

theorem durations_length (clock : Nat → Timespec) (n : Nat) : (durations clock n).length = n := by
  rw [durations, List.length_map, List.length_range]

variable {K : Type u} [Field K]

/-- The unit of the report. -/
def micros (ns : Nat) : K := ns / 1000

variable [LinearOrder K] [IsStrictOrderedRing K]

theorem micros_le_iff {a b : Nat} : (micros a : K) ≤ micros b ↔ a ≤ b := by
  rw [micros, micros, div_le_div_iff_of_pos_right (by norm_num), Nat.cast_le]

theorem elapsed_eq {clock : Nat → Timespec} (inOrder : ReadInOrder clock) (k : Nat) :
    (nbClock clock (2 * k + 1) - nbClock clock (2 * k) : K) * pow10 6 =
      micros (duration clock k) := by
  have forward := inOrder.mono (2 * k)
  have whole : ((duration clock k : Nat) : Int) =
      (clock (2 * k + 1)).nanoseconds - (clock (2 * k)).nanoseconds :=
    Int.toNat_of_nonneg (by omega)
  have cast : (duration clock k : K) =
      (clock (2 * k + 1)).nanoseconds - (clock (2 * k)).nanoseconds := by
    exact_mod_cast congrArg (Int.cast (R := K)) whole
  rw [nbClock, nbClock, seconds_eq, seconds_eq, micros, cast, pow10, zpow_ofNat]
  ring

section Hist
variable {Db : Type v} (run : Ready K Db) (clock : Nat → Timespec)

/-- The samples of a run whose clock is read in nanoseconds. -/
def samples (n : Nat) : List K :=
  (List.range n).map (fun k => nbClock clock (2 * k + 1) - nbClock clock (2 * k))

theorem scaled_samples (inOrder : ReadInOrder clock) (n : Nat) :
    scaledValues 6 (samples clock n : List K) = (durations clock n).map micros := by
  rw [scaledValues, samples, durations, List.map_map, List.map_map]
  exact List.map_congr_left fun k _ => elapsed_eq inOrder k

theorem samples_nonneg (inOrder : ReadInOrder clock) (n : Nat) :
    ∀ x ∈ (samples clock n : List K), 0 ≤ x := by
  intro x hx
  obtain ⟨k, _, rfl⟩ := List.mem_map.mp hx
  have forward := inOrder.mono (2 * k)
  rw [nbClock, nbClock, seconds_eq, seconds_eq, sub_nonneg]
  exact div_le_div_of_nonneg_right (Int.cast_le.mpr forward) (by positivity)

theorem histAt_eq (reads : run.calls.clock = nbClock clock) (n : Nat) :
    run.histAt n = histogramOf 6 (samples clock n) := by
  rw [Ready.histAt, new_eq_fresh (setup_done run.setup).fresh, histogramOf, runOps, samples,
    List.foldl_map, List.foldl_map]
  congr 1
  funext hist k
  rw [applyOp, Ready.sampleAt, Dbl.fin_sub_fin, reads]

omit [LinearOrder K] [IsStrictOrderedRing K] in
theorem sum_fin (xs : List K) : (xs.map Dbl.fin).sum = .fin xs.sum := by
  induction xs with
  | nil => rfl
  | cons x xs ih => rw [List.map_cons, List.sum_cons, ih, List.sum_cons, Dbl.fin_add_fin]

omit [LinearOrder K] [IsStrictOrderedRing K] in
theorem sum_micros (ns : List Nat) : (ns.map (micros : Nat → K)).sum = micros ns.sum := by
  induction ns with
  | nil => simp [micros]
  | cons n ns ih =>
    rw [List.map_cons, List.sum_cons, ih, List.sum_cons, micros, micros, micros, Nat.cast_add,
      add_div]

theorem histogram_sum (power : Int) {xs : List K} (nonneg : ∀ x ∈ xs, 0 ≤ x) :
    (histogramOf power xs).sum = .fin (scaledValues power xs).sum ∧
      (histogramOf power xs).power = power := by
  have nonneg' : ∀ x ∈ xs.map Dbl.fin, 0 ≤ x := by
    intro y hy
    obtain ⟨x, hx, rfl⟩ := List.mem_map.mp hy
    exact nonneg x hx
  have summary := (histogramAfter_summarizes power nonneg').1
  rw [← histogramOf_eq, map_scaled] at summary
  exact ⟨summary.sum_eq.trans (sum_fin _), summary.power_eq⟩

end Hist

variable [FloorSemiring K]

/-- The report is the statistics of the durations `ns`. -/
structure Statistics (report : Report K) (ns : List Nat) : Prop where
  count_eq : report.totalCount = ns.length
  total_eq : report.totalSum = .fin (micros ns.sum)
  min_eq : ∃ d ∈ ns, report.minLatency = .fin (micros d) ∧ ∀ e ∈ ns, d ≤ e
  max_eq : ∃ d ∈ ns, report.maxLatency = .fin (micros d) ∧ ∀ e ∈ ns, e ≤ d
  avg_eq : report.avgLatency = .fin (micros ns.sum / ns.length)
  throughput_eq : report.throughput =
    if ns.sum = 0 then .posInf else .fin (ns.length * 10 ^ 9 / ns.sum)
  counts_eq : (report.rows.map Row.count).sum = ns.length
  shares_eq : (report.rows.map Row.percents).sum = .fin 100
  close : ∀ p : K, .fin p ∈ enginePercentiles → 1 ≤ thresholdOf ns.length p →
    ∃ y, (.fin p * .fin 100, .fin y) ∈ report.percentiles ∧
      ∃ h : thresholdOf ns.length p - 1 < (sorted ns).length,
        Close (micros (sorted ns)[thresholdOf ns.length p - 1]) y

omit [FloorSemiring K] in
theorem sorted_micros (ns : List Nat) :
    sorted (ns.map (micros : Nat → K)) = (sorted ns).map micros :=
  (List.map_insertionSort (· ≤ ·) (· ≤ ·) micros ns
    (fun _ _ _ _ => micros_le_iff.symm)).symm

theorem enginePercentiles_le_one {p : K} (hp : Dbl.fin p ∈ enginePercentiles) : p ≤ 1 := by
  obtain ⟨q, hq, heq⟩ := List.mem_map.mp hp
  cases heq
  simp only [List.mem_cons, List.not_mem_nil, or_false] at hq
  rcases hq with rfl | rfl | rfl | rfl | rfl | rfl | rfl | rfl | rfl | rfl | rfl <;> norm_num

section Dump
variable {hist : NbHistogram K} {ns : List Nat}

omit [IsStrictOrderedRing K] in
/-- The shares of some rows are the share of their counters. -/
theorem shares_of {xs : List K} (h : Collected hist xs) (pos : (xs.length : K) ≠ 0)
    (js : List Nat) :
    (js.map (Row.percents ∘ fun j => dumpRow hist j (counter xs j))).sum =
      .fin (((js.map (counter xs)).sum : Nat) / (xs.length : K) * 100) := by
  induction js with
  | nil =>
    simp only [List.map_nil, List.sum_nil, Nat.cast_zero, zero_div, zero_mul]
    rfl
  | cons j js ih =>
    have share : (dumpRow hist j (counter xs j)).percents =
        Dbl.fin ((counter xs j : K) / xs.length * 100) := by
      rw [dumpRow, h.size_eq]
      change (Dbl.ofNat (counter xs j) / Dbl.ofNat xs.length : Dbl K) * .fin 100 = _
      rw [Dbl.ofNat, Dbl.ofNat, Dbl.fin_div_fin pos, Dbl.fin_mul_fin]
    rw [List.map_cons, List.sum_cons, ih, Function.comp_apply, share, List.map_cons,
      List.sum_cons, Nat.cast_add, add_div, add_mul, Dbl.fin_add_fin]

omit [IsStrictOrderedRing K] in
/-- The shares of all rows add up to one hundred. -/
theorem shares_sum {xs : List K} (h : Collected hist xs) (pos : (xs.length : K) ≠ 0) :
    ((dumpRowsFrom hist 0 hist.buckets.toList).map Row.percents).sum = .fin 100 := by
  rw [rows_eq h, List.map_map, shares_of h pos, printed_sum h, div_self pos, one_mul]

omit [FloorSemiring K] in
/-- Operations by nanoseconds, as operations by seconds. -/
theorem throughput_of {n : Nat} (pos : 0 < n) (total : Nat) :
    (Dbl.ofNat n / (.fin (micros total) * .fin (pow10 (-6))) : Dbl K) =
      if total = 0 then .posInf else .fin (n * 10 ^ 9 / total) := by
  have inSeconds : (micros total * pow10 (-6) : K) = total / 10 ^ 9 := by
    rw [micros, pow10, zpow_neg, zpow_ofNat]
    ring
  rw [Dbl.fin_mul_fin, inSeconds, Dbl.ofNat]
  split
  · rename_i zero
    have pos' : (0 : K) < n := Nat.cast_pos.mpr pos
    rw [zero, Nat.cast_zero, zero_div]
    change (if (0 : K) = 0 then Dbl.signedInf (n : K) else _) = _
    rw [if_pos rfl, Dbl.signedInf, if_neg pos'.ne', if_pos pos']
  · rename_i spent
    have spent' : (total : K) ≠ 0 := Nat.cast_ne_zero.mpr spent
    rw [Dbl.fin_div_fin (div_ne_zero spent' (by positivity)), div_div_eq_mul_div]

theorem dump_statistics (h : Collected hist (ns.map (micros : Nat → K))) (nonempty : ns ≠ [])
    (sum : hist.sum = .fin (micros ns.sum)) (power : hist.power = 6) {report : Report K}
    (dumped : nbHistogramDump hist enginePercentiles = some report) : Statistics report ns := by
  have hlen : (ns.map (micros : Nat → K)).length = ns.length := List.length_map _
  have size : hist.size = ns.length := h.size_eq.trans hlen
  have pos : (ns.length : K) ≠ 0 := by
    rw [Nat.cast_ne_zero]
    exact fun h => nonempty (List.eq_nil_of_length_eq_zero h)
  have assertion : 0 < hist.size := by
    rw [size]
    exact List.length_pos_iff.mpr nonempty
  rw [nbHistogramDump, if_pos assertion] at dumped
  cases dumped
  constructor
  · exact size
  · exact sum
  · obtain ⟨m, hm, hmin, least⟩ := h.min_eq
    obtain ⟨d, hd, rfl⟩ := List.mem_map.mp hm
    exact ⟨d, hd, hmin, fun e he => micros_le_iff.mp (least _ (List.mem_map_of_mem he))⟩
  · obtain ⟨m, hm, hmax, greatest⟩ := h.max_eq
    obtain ⟨d, hd, rfl⟩ := List.mem_map.mp hm
    exact ⟨d, hd, hmax, fun e he => micros_le_iff.mp (greatest _ (List.mem_map_of_mem he))⟩
  · change hist.sum / Dbl.ofNat hist.size = _
    rw [sum, size, Dbl.ofNat, Dbl.fin_div_fin pos]
  · change Dbl.ofNat hist.size / (hist.sum * .fin (pow10 (-hist.power))) = _
    rw [size, sum, power, throughput_of (List.length_pos_iff.mpr nonempty)]
  · change ((dumpRowsFrom hist 0 hist.buckets.toList).map Row.count).sum = ns.length
    rw [rows_eq h, List.map_map, ← hlen]
    exact printed_sum h
  · exact shares_sum h (by rwa [hlen])
  · intro p hp enough
    have near := collected_close h (enginePercentiles_le_one hp) (hlen.symm ▸ enough)
    simp only [hlen, sorted_micros, List.getElem_map, List.length_map] at near
    obtain ⟨y, hvalue, near⟩ := near
    exact ⟨y, List.mem_map.mpr ⟨.fin p, hp, by rw [hvalue]⟩, near⟩

end Dump

/-- A run that returns zero prints the report of all its samples. -/
theorem report_of_success {Db : Type v} (run : Ready K Db) (ok : run.result.rc = some 0) :
    0 < run.count ∧ ∃ report, run.result.report = some report ∧
      nbHistogramDump (run.histAt run.count) enginePercentiles = some report := by
  have outcome := run.benchLoop_outcome
  rw [Ready.result, nbEngineRun, run.setup] at ok ⊢
  dsimp only at ok ⊢
  generalize benchLoop run.calls run.opts run.bench run.session = loop at ok outcome ⊢
  cases outcome with
  | finished s before reached =>
    dsimp only at ok ⊢
    rw [← reached.hist_eq]
    have size : s.hist.size = run.count := by rw [reached.hist_eq, Ready.histAt_size]
    by_cases pos : 0 < s.hist.size
    · obtain ⟨report, hdump⟩ : ∃ report, nbHistogramDump s.hist enginePercentiles = some report :=
        ⟨_, if_pos pos⟩
      rw [hdump]
      exact ⟨size ▸ pos, report, rfl, rfl⟩
    · have hdump : nbHistogramDump s.hist enginePercentiles = none := if_neg pos
      rw [hdump] at ok
      cases ok
  | outOfKeys k s buf hk before short trace hist => cases ok
  | callFailed k s hk before key failed trace hist =>
    cases hb : run.bench with
    | get =>
      rw [hb] at ok
      cases ok
    | put =>
      rw [hb] at ok
      cases ok

section Collected
variable {Db : Type v} (run : Ready K Db) {clock : Nat → Timespec}

/-- The histogram behind the report of a run that succeeds. -/
theorem report_collected (inOrder : ReadInOrder clock) (reads : run.calls.clock = nbClock clock)
    (ok : run.result.rc = some 0) :
    ∃ hist : NbHistogram K, ∃ report, run.result.report = some report ∧
      nbHistogramDump hist enginePercentiles = some report ∧
      Collected hist ((durations clock run.count).map micros) ∧
      hist.sum = .fin (micros (durations clock run.count).sum) ∧ hist.power = 6 ∧
      durations clock run.count ≠ [] := by
  obtain ⟨pos, report, hreport, hdump⟩ := report_of_success run ok
  have nonneg := samples_nonneg (K := K) clock inOrder run.count
  have scaled := scaled_samples (K := K) clock inOrder run.count
  have nonempty : durations clock run.count ≠ [] := by
    apply List.ne_nil_of_length_pos
    rwa [durations_length]
  have nonempty' : (samples clock run.count : List K) ≠ [] := by
    apply List.ne_nil_of_length_pos
    rwa [samples, List.length_map, List.length_range]
  have collected := collected_histogramOf 6 nonneg nonempty'
  obtain ⟨sum, power⟩ := histogram_sum 6 nonneg
  rw [scaled] at collected sum
  rw [sum_micros] at sum
  rw [histAt_eq run clock reads] at hdump
  exact ⟨_, report, hreport, hdump, collected, sum, power, nonempty⟩

/-- The report of a run that succeeds is the statistics of the times between
the two clock readings of each operation. -/
theorem report_statistics (inOrder : ReadInOrder clock) (reads : run.calls.clock = nbClock clock)
    (ok : run.result.rc = some 0) :
    ∃ report, run.result.report = some report ∧
      Statistics report (durations clock run.count) := by
  obtain ⟨hist, report, hreport, hdump, collected, sum, power, nonempty⟩ :=
    report_collected run inOrder reads ok
  exact ⟨report, hreport, dump_statistics collected nonempty sum power hdump⟩

end Collected

/-- One second between any two readings. -/
def tickingClock (n : Nat) : Timespec := ⟨n, 0⟩

theorem tickingClock_inOrder : ReadInOrder tickingClock where
  normal n := ⟨Int.le_refl 0, (by decide : (0 : Int) < 10 ^ 9)⟩
  ordered n := Or.inl (Int.lt_succ n)

theorem smallRun_clock (bench : NbBenchType) :
    (smallRun bench 0 0 2).calls.clock = nbClock tickingClock := by
  funext n
  change (n : ℚ) = seconds (tickingClock n)
  simp [seconds, tickingClock]

theorem report_statistics_two_puts :
    ∃ report, (smallRun .put 0 0 2).result.report = some report ∧
      Statistics report (durations tickingClock 2) :=
  report_statistics (smallRun .put 0 0 2) tickingClock_inOrder (smallRun_clock .put)
    (by decide +kernel)

end RunReport
