import MiniNb.NbReportText
import MiniNb.RunReport

/-!
# What can be read from a printed report

No text of the report runs into the next one, so the report can be read back
line by line and column by column. The numbers behind the texts are exact; only
their decimal digits are rounded. The rows give the bucket counters, the least
and the greatest latency are printed to the nanosecond, and the total and the
average up to a rounding. Two reports that read the same are therefore reports
of nearly the same durations.
-/

namespace ReportReading

open MiniNb ExactDouble DecimalText RoundedDouble EngineRun BucketCounts SampleSummary
open PrintedTable RunReport

universe u v w

section Text
variable {K : Type u} [Field K] [LinearOrder K] [FloorSemiring K] {nanSign : Bool}

/-! ## Columns -/

theorem rowColumns_clear (row : Row K) : ∀ c ∈ rowColumns nanSign row, c.Clear := by
  intro c hc
  simp only [rowColumns, List.mem_cons, List.not_mem_nil, or_false] at hc
  rcases hc with rfl | rfl | rfl | rfl
  · exact clear_double _ _ _ _ (by decide)
  · exact clear_double _ _ _ _ (by decide)
  · exact clear_toDigits _ _ (by decide)
  · exact clear_double _ _ _ _ (by decide)

theorem totalColumns_clear (report : Report K) : ∀ c ∈ totalColumns nanSign report, c.Clear := by
  intro c hc
  simp only [totalColumns, List.mem_cons, List.not_mem_nil, or_false] at hc
  rcases hc with rfl | rfl
  · exact clear_double _ _ _ _ (by decide)
  · exact clear_toDigits _ _ (by decide)

theorem latencyColumns_clear (power : Int) (latency : Dbl K) :
    ∀ c ∈ latencyColumns nanSign power latency, c.Clear := by
  intro c hc
  simp only [latencyColumns, List.mem_cons, List.not_mem_nil, or_false] at hc
  rcases hc with rfl | rfl
  · exact clear_double _ _ _ _ (by decide)
  · exact clear_int _ _ (by decide)

theorem throughputColumns_clear (report : Report K) :
    ∀ c ∈ throughputColumns nanSign report, c.Clear := by
  intro c hc
  rw [List.mem_singleton.mp hc]
  exact clear_double _ _ _ _ (by decide)

/-- Two rows that read the same have the same upper end and the same count. -/
theorem rowText_inj {a b : Row K} (h : rowText nanSign a = rowText nanSign b) :
    double nanSign 0 a.upper = double nanSign 0 b.upper ∧ a.count = b.count := by
  obtain ⟨texts, _⟩ := printColumns_inj (rowColumns_clear a) (rowColumns_clear b) rfl
    (List.append_cancel_left h)
  simp only [rowColumns, List.map_cons, List.map_nil, List.cons.injEq] at texts
  exact ⟨texts.2.1, toDigits_inj texts.2.2.1⟩

theorem totalText_inj {a b : Report K} (h : totalText nanSign a = totalText nanSign b) :
    double nanSign 0 a.totalSum = double nanSign 0 b.totalSum ∧ a.totalCount = b.totalCount := by
  obtain ⟨texts, _⟩ := printColumns_inj (totalColumns_clear a) (totalColumns_clear b) rfl
    (congrArg (fun t => t ++ []) (List.append_cancel_left h))
  simp only [totalColumns, List.map_cons, List.map_nil, List.cons.injEq] at texts
  exact ⟨texts.1, toDigits_inj texts.2.1⟩

theorem latencyText_inj {power : Int} {label : List Char} {a b : Dbl K}
    (h : latencyText nanSign power label a = latencyText nanSign power label b) :
    double nanSign 6 a = double nanSign 6 b := by
  obtain ⟨texts, _⟩ := printColumns_inj (latencyColumns_clear power a) (latencyColumns_clear power b)
    rfl (congrArg (fun t => t ++ []) (List.append_cancel_left h))
  simp only [latencyColumns, List.map_cons, List.map_nil, List.cons.injEq] at texts
  exact texts.1

/-! ## Lines -/

theorem inline_latencyText (power : Int) {label : List Char} (inline : Inline label)
    (latency : Dbl K) : Inline (latencyText nanSign power label latency) :=
  inline.append (inline_columns (latencyColumns_clear power latency))

theorem dumpLines_inline (power : Int) (report : Report K) :
    ∀ line ∈ dumpLines nanSign power report, Inline line := by
  intro line hline
  simp only [dumpLines, List.mem_append, List.mem_cons, List.mem_map, List.not_mem_nil,
    or_false] at hline
  rcases hline with ((rfl | rfl) | ⟨row, _, rfl⟩) | ((rfl | rfl | rfl | rfl | rfl) |
    ⟨percentile, _, rfl⟩) | rfl
  · decide
  · decide
  · exact Inline.append (by decide) ((inline_columns (rowColumns_clear row)).append
      (inline_replicate (by decide) _))
  · decide
  · exact Inline.append (by decide) (inline_columns (totalColumns_clear report))
  · exact inline_latencyText power (by decide) _
  · exact inline_latencyText power (by decide) _
  · exact inline_latencyText power (by decide) _
  · refine inline_latencyText power (Inline.append ?_ (by decide)) _
    exact (numeral_double nanSign 4 _).inline.padRight 2
  · exact Inline.append (by decide) (inline_columns (throughputColumns_clear report))

/-- Two reports with the same lines. -/
structure SameLines (nanSign : Bool) (a b : Report K) : Prop where
  rows : a.rows.map (rowText nanSign) = b.rows.map (rowText nanSign)
  total : double nanSign 0 a.totalSum = double nanSign 0 b.totalSum
  count : a.totalCount = b.totalCount
  least : double nanSign 6 a.minLatency = double nanSign 6 b.minLatency
  average : double nanSign 6 a.avgLatency = double nanSign 6 b.avgLatency
  greatest : double nanSign 6 a.maxLatency = double nanSign 6 b.maxLatency

theorem dumpLines_inj {power : Int} {a b : Report K}
    (percentiles : a.percentiles.length = b.percentiles.length)
    (h : dumpLines nanSign power a = dumpLines nanSign power b) : SameLines nanSign a b := by
  rw [dumpLines, dumpLines] at h
  obtain ⟨table, rest⟩ := List.append_inj' h (by simp [percentiles])
  simp only [List.cons_append, List.nil_append, List.cons.injEq] at rest
  obtain ⟨_, total, least, average, greatest, _⟩ := rest
  obtain ⟨sum, count⟩ := totalText_inj total
  exact ⟨List.append_cancel_left table, sum, count, latencyText_inj least, latencyText_inj average,
    latencyText_inj greatest⟩

end Text

/-! ## Numbers -/

section Numbers
variable {K : Type u} [Field K] [LinearOrder K] [IsStrictOrderedRing K]

omit [LinearOrder K] [IsStrictOrderedRing K] in
theorem boundaryAt_whole {j : Nat} (hj : j ≤ nbHistogramBoundaries.length) :
    (boundaryAt j : Dbl K) = whole nbHistogramBoundaries[j]? := by
  rcases Nat.lt_or_eq_of_le hj with inside | last
  · have inside' : j < (nbHistogramBounds K).length := by rwa [bounds_length]
    rw [boundaryAt_fin inside', List.getElem?_eq_getElem inside, whole]
    simp only [nbHistogramBounds, List.getElem_map]
  · rw [last, boundaryAt_last, List.getElem?_eq_none (Nat.le_refl _), whole]

variable [FloorSemiring K] {nanSign : Bool}

/-- A row tells by its upper end which bucket it is about. -/
theorem boundary_text_inj {i j : Nat} (hi : i ≤ nbHistogramBoundaries.length)
    (hj : j ≤ nbHistogramBoundaries.length)
    (h : double nanSign 0 (boundaryAt i : Dbl K) = double nanSign 0 (boundaryAt j : Dbl K)) :
    i = j := by
  rw [boundaryAt_whole hi, boundaryAt_whole hj] at h
  have entries := double_whole_inj h
  rcases Nat.lt_or_eq_of_le hi with inside | last
  · have nodup : nbHistogramBoundaries.Nodup := boundaries_increasing.imp (fun lt => Nat.ne_of_lt lt)
    exact (List.getElem?_inj inside nodup).mp entries
  · rw [List.getElem?_eq_none (Nat.le_of_eq last.symm)] at entries
    exact Nat.le_antisymm (hi.trans (List.getElem?_eq_none_iff.mp entries.symm)) (last ▸ hj)

/-- Lists with equal images, if equal images have equal arguments and counts. -/
theorem map_agree {α : Type w} {f g : Nat → α} {c d : Nat → Nat} {l m : List Nat}
    (inj : ∀ i ∈ l, ∀ j ∈ m, f i = g j → i = j ∧ c i = d j) (h : l.map f = m.map g) :
    l = m ∧ ∀ i ∈ l, c i = d i := by
  induction l generalizing m with
  | nil =>
    cases m with
    | nil => exact ⟨rfl, fun i hi => absurd hi List.not_mem_nil⟩
    | cons j m => cases h
  | cons i l ih =>
    cases m with
    | nil => cases h
    | cons j m =>
      rw [List.map_cons, List.map_cons] at h
      obtain ⟨first, rest⟩ := List.cons.inj h
      obtain ⟨rfl, count⟩ := inj i List.mem_cons_self j List.mem_cons_self first
      obtain ⟨rfl, counts⟩ := ih (fun i hi j hj =>
        inj i (List.mem_cons_of_mem _ hi) j (List.mem_cons_of_mem _ hj)) rest
      refine ⟨rfl, fun k hk => ?_⟩
      rcases List.mem_cons.mp hk with rfl | hk
      · exact count
      · exact counts k hk

/-- Tables that read the same have the same counters. -/
theorem counters_eq {hist hist' : NbHistogram K} {xs ys : List K}
    (h : (tableRows hist xs).map (rowText nanSign) = (tableRows hist' ys).map (rowText nanSign))
    (j : Nat) : counter xs j = counter ys j := by
  rw [tableRows, tableRows, List.map_map, List.map_map] at h
  have inj : ∀ i ∈ printed xs, ∀ j ∈ printed ys,
      rowText nanSign (dumpRow hist i (counter xs i)) =
        rowText nanSign (dumpRow hist' j (counter ys j)) → i = j ∧ counter xs i = counter ys j := by
    intro i hi j hj same
    obtain ⟨upper, count⟩ := rowText_inj same
    exact ⟨boundary_text_inj (mem_printed.mp hi).1 (mem_printed.mp hj).1 upper, count⟩
  obtain ⟨rows, counts⟩ := map_agree inj h
  by_cases hj : j ∈ printed xs
  · exact counts j hj
  · have none_ : ∀ {zs : List K}, j ∉ printed zs → counter zs j = 0 := by
      intro zs hzs
      by_contra found
      refine hzs (mem_printed.mpr ⟨?_, found⟩)
      obtain ⟨x, _, hx⟩ := List.countP_pos_iff.mp (Nat.pos_of_ne_zero found)
      rw [← of_decide_eq_true hx]
      exact bucketOf_le x
    rw [none_ hj, none_ (rows ▸ hj)]

theorem micros_nonneg (n : Nat) : 0 ≤ (micros n : K) := by
  rw [micros]
  positivity

/-- Six decimals of a microsecond show every nanosecond. -/
theorem micros_text_inj {m n : Nat}
    (h : double nanSign 6 (.fin (micros m) : Dbl K) = double nanSign 6 (.fin (micros n) : Dbl K)) :
    m = n := by
  have exact_ : ∀ k : Nat, (micros k : K) * 10 ^ 6 = ((k * 1000 : Nat) : K) := by
    intro k
    rw [micros]
    push_cast
    ring
  rw [double_fin (micros_nonneg m), double_fin (micros_nonneg n)] at h
  have rounded := fixed_inj h
  rw [exact_, exact_, nearest_natCast, nearest_natCast] at rounded
  omega

/-- What two lists of durations in nanoseconds share if their reports read the same. -/
structure Alike (K : Type u) [Field K] [LinearOrder K] [IsStrictOrderedRing K] (ns ms : List Nat) :
    Prop where
  count_eq : ns.length = ms.length
  counters_eq : ∀ j, counter (ns.map (micros : Nat → K)) j = counter (ms.map (micros : Nat → K)) j
  least_eq : ns.min? = ms.min?
  greatest_eq : ns.max? = ms.max?
  total_near : |(ns.sum : Int) - ms.sum| ≤ 1000
  average_near : |(ns.sum : Int) - ms.sum| * 1000 ≤ ns.length

/-- A rounding of quotients says how far the numbers are apart. -/
theorem near_of_quotients {m n c : Nat} (pos : 0 < c) (near : |(m / c : K) - n / c| ≤ 1) :
    |(m : Int) - n| ≤ c := by
  have pos' : (0 : K) < c := Nat.cast_pos.mpr pos
  rw [← sub_div, abs_div, abs_of_pos pos', div_le_one pos'] at near
  exact_mod_cast near

theorem total_near {m n : Nat}
    (h : double nanSign 0 (.fin (micros m) : Dbl K) = double nanSign 0 (.fin (micros n) : Dbl K)) :
    |(m : Int) - n| ≤ 1000 := by
  rw [double_fin (micros_nonneg m), double_fin (micros_nonneg n)] at h
  have rounded := fixed_inj h
  rw [pow_zero, mul_one, mul_one] at rounded
  have near := near_of_nearest (micros_nonneg m) (micros_nonneg n) rounded
  exact near_of_quotients (c := 1000) (by decide) near

theorem average_near {m n c : Nat} (pos : 0 < c)
    (h : double nanSign 6 (.fin (micros m / c) : Dbl K) =
      double nanSign 6 (.fin (micros n / c) : Dbl K)) : |(m : Int) - n| * 1000 ≤ c := by
  have nonneg : ∀ k : Nat, 0 ≤ (micros k / c : K) :=
    fun k => div_nonneg (micros_nonneg k) (Nat.cast_nonneg c)
  have scaled : ∀ k : Nat, (micros k / c * 10 ^ 6 : K) = ((k * 1000 : Nat) : K) / c := by
    intro k
    rw [micros]
    push_cast
    ring
  rw [double_fin (nonneg m), double_fin (nonneg n)] at h
  have rounded := fixed_inj h
  rw [scaled, scaled] at rounded
  have near := near_of_quotients pos (near_of_nearest (by positivity) (by positivity) rounded)
  push_cast at near
  rwa [← sub_mul, abs_mul, abs_of_pos (by decide : (0 : Int) < 1000)] at near

theorem alike_of_lines {hist hist' : NbHistogram K} {ns ms : List Nat} {a b : Report K}
    (nonempty : ns ≠ []) (ha : Statistics a ns) (hb : Statistics b ms)
    (rows : a.rows = tableRows hist (ns.map micros))
    (rows' : b.rows = tableRows hist' (ms.map micros)) (same : SameLines nanSign a b) :
    Alike K ns ms := by
  obtain ⟨table, total, count, least, average, greatest⟩ := same
  rw [ha.count_eq, hb.count_eq] at count
  rw [rows, rows'] at table
  rw [ha.total_eq, hb.total_eq] at total
  rw [ha.avg_eq, hb.avg_eq, ← count] at average
  refine ⟨count, counters_eq table, ?_, ?_, total_near total,
    average_near (List.length_pos_iff.mpr nonempty) average⟩
  · obtain ⟨d, hd, hmin, below⟩ := ha.min_eq
    obtain ⟨e, he, hmin', below'⟩ := hb.min_eq
    rw [hmin, hmin'] at least
    have equal := micros_text_inj least
    subst equal
    rw [List.min?_eq_some_iff.mpr ⟨hd, below⟩, List.min?_eq_some_iff.mpr ⟨he, below'⟩]
  · obtain ⟨d, hd, hmax, above⟩ := ha.max_eq
    obtain ⟨e, he, hmax', above'⟩ := hb.max_eq
    rw [hmax, hmax'] at greatest
    have equal := micros_text_inj greatest
    subst equal
    rw [List.max?_eq_some_iff.mpr ⟨hd, above⟩, List.max?_eq_some_iff.mpr ⟨he, above'⟩]

end Numbers

/-! ## Runs -/

section Runs
variable {K : Type u} [Field K] [LinearOrder K] [IsStrictOrderedRing K] [FloorSemiring K]
variable {Db : Type v}

/-- The report that a run prints, its rows and its statistics. -/
theorem printed_report (nanSign : Bool) (run : Ready K Db) {clock : Nat → Timespec} (inOrder : ReadInOrder clock)
    (reads : run.calls.clock = nbClock clock) (ok : run.result.rc = some 0) :
    ∃ hist : NbHistogram K, ∃ report,
      engineOutput nanSign run.result = some ("Histogram:\n".toList ++ dumpText nanSign 6 report) ∧
      report.rows = tableRows hist ((durations clock run.count).map micros) ∧
      report.percentiles.length = (enginePercentiles : List (Dbl K)).length ∧
      Statistics report (durations clock run.count) ∧ durations clock run.count ≠ [] := by
  obtain ⟨hist, report, hreport, hdump, collected, sum, power, nonempty⟩ :=
    report_collected run inOrder reads ok
  obtain ⟨report', hdump', rows, _⟩ := dump_rows collected
    (fun h => nonempty (List.map_eq_nil_iff.mp h)) enginePercentiles
  cases hdump.symm.trans hdump'
  have percentiles : report.percentiles.length = (enginePercentiles : List (Dbl K)).length := by
    rw [nbHistogramDump] at hdump
    split at hdump
    · cases hdump
      exact List.length_map _
    · cases hdump
  exact ⟨hist, report, by rw [engineOutput, hreport, Option.map_some], rows, percentiles,
    dump_statistics collected nonempty sum power hdump, nonempty⟩

/-- Two runs whose reports read the same took nearly the same time: in each
bucket they have as many operations, their least and greatest durations are the
same to the nanosecond, and their total times differ by a microsecond at most,
and by a nanosecond at most for every thousand operations. -/
theorem alike_of_output {nanSign : Bool} {Db' : Type w} {a : Ready K Db} {b : Ready K Db'}
    {clock clock' : Nat → Timespec} (inOrder : ReadInOrder clock) (inOrder' : ReadInOrder clock')
    (reads : a.calls.clock = nbClock clock) (reads' : b.calls.clock = nbClock clock')
    (ok : a.result.rc = some 0) (ok' : b.result.rc = some 0)
    (same : engineOutput nanSign a.result = engineOutput nanSign b.result) :
    Alike K (durations clock a.count) (durations clock' b.count) := by
  obtain ⟨hist, report, output, rows, percentiles, statistics, nonempty⟩ :=
    printed_report nanSign a inOrder reads ok
  obtain ⟨hist', report', output', rows', percentiles', statistics', _⟩ :=
    printed_report nanSign b inOrder' reads' ok'
  have text := List.append_cancel_left (Option.some.inj (output.symm.trans (same.trans output')))
  have lines := printLines_inj (dumpLines_inline 6 report) (dumpLines_inline 6 report') text
  exact alike_of_lines nonempty statistics statistics' rows rows'
    (dumpLines_inj (percentiles.trans percentiles'.symm) lines)

end Runs

theorem alike_of_output_put_get :
    engineOutput false (smallRun .put 0 0 2).result = engineOutput false (smallRun .get 0 0 2).result ∧
      Alike ℚ (durations tickingClock (smallRun .put 0 0 2).count)
        (durations tickingClock (smallRun .get 0 0 2).count) := by
  have same : engineOutput false (smallRun .put 0 0 2).result =
      engineOutput false (smallRun .get 0 0 2).result := by decide +kernel
  exact ⟨same, alike_of_output tickingClock_inOrder tickingClock_inOrder (smallRun_clock .put)
    (smallRun_clock .get) (by decide +kernel) (by decide +kernel) same⟩

end ReportReading
