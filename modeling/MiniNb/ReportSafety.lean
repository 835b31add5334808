import MiniNb.EngineRun
import MiniNb.NbMain

/-!
# When the report is produced

A run reaches its report behind the last of `count` rounds, each of which added
one sample. The histogram then holds as many samples as the command line asked
for. Nothing between the command line and the loop refuses a count of zero, so
with this count a run whose setup succeeds reaches the report at once, with an
empty histogram, and fails the assertion there.
-/

namespace ReportSafety

open MiniNb EngineRun

universe u v
variable {K : Type u} [Field K] [LinearOrder K] [IsStrictOrderedRing K] {Db : Type v}

/-- The run arrives at `nb_histogram_dump` in the state `s`. -/
def ReachesReport (calls : EngineCalls K Db) (opts : NbOpts) (bench : NbBenchType)
    (s : BenchState K Db) : Prop :=
  ∃ session, engineSetup calls opts = .ok session ∧ benchLoop calls opts bench session = (s, none)

theorem reachesReport_iff (run : Ready K Db) (s : BenchState K Db) :
    ReachesReport run.calls run.opts run.bench s ↔
      benchLoop run.calls run.opts run.bench run.session = (s, none) := by
  constructor
  · rintro ⟨session, ready, hloop⟩
    cases run.setup.symm.trans ready
    exact hloop
  · intro hloop
    exact ⟨run.session, run.setup, hloop⟩

theorem report_size (run : Ready K Db) {s : BenchState K Db}
    (hloop : benchLoop run.calls run.opts run.bench run.session = (s, none)) :
    s.hist.size = run.count := by
  have outcome := run.benchLoop_outcome
  rw [hloop] at outcome
  cases outcome with
  | finished _ _ reached => rw [reached.hist_eq, Ready.histAt_size]

variable [FloorSemiring K]

/-- Whenever the run arrives at the report, the histogram holds one sample for
each of the requested operations and is not empty, and its assertion holds. -/
def ReportsNonempty (calls : EngineCalls K Db) (opts : NbOpts) (bench : NbBenchType) : Prop :=
  ∀ s, ReachesReport calls opts bench s →
    s.hist.size = opts.count.toNat ∧ 0 < s.hist.size ∧
      ∃ report, nbHistogramDump s.hist enginePercentiles = some report

theorem ready_reportsNonempty_iff (run : Ready K Db) :
    ReportsNonempty run.calls run.opts run.bench ↔ run.opts.count ≠ 0 := by
  constructor
  · intro reports zero
    have hcount : run.opts.count.toNat = 0 := by rw [zero]; rfl
    have hloop : benchLoop run.calls run.opts run.bench run.session =
        (run.session.state, none) := by
      rw [benchLoop, hcount]
      rfl
    obtain ⟨hsize, hpos, _⟩ := reports _ ((reachesReport_iff run _).mpr hloop)
    omega
  · intro hne s reached
    have hsize := report_size run ((reachesReport_iff run s).mp reached)
    have hpos : 0 < s.hist.size := by
      rw [hsize]
      exact Nat.pos_of_ne_zero fun h => hne (UInt64.toNat_inj.mp h)
    exact ⟨hsize, hpos, _, if_pos hpos⟩

/-- A driver of any name that accepts every call. -/
def acceptingDriver (name : String) : NbDbIf Unit := { constantDriver 0 0 with name := name }

omit [LinearOrder K] [IsStrictOrderedRing K] [FloorSemiring K] in
theorem setup_possible (opts : NbOpts) :
    ∃ (calls : EngineCalls K Unit) (session : Session K Unit),
      engineSetup calls opts = .ok session := by
  have named : (acceptingDriver opts.driver).name = opts.driver := rfl
  have opens : (acceptingDriver opts.driver).open_ ⟨dbPath opts⟩ = some () := rfl
  have nonempty : ([5] : Bytes) ≠ [] := by simp
  exact ⟨_, _, setup_works named opens nonempty (by decide)⟩

/-- With the options of a command line, every run that arrives at the report
has a full and nonempty histogram exactly when the count is not zero. A single
run does exactly when its setup fails, so that it never arrives there, or the
count is not zero. -/
theorem reportsNonempty_iff {args : List (Char × String)} {action : NbAction} {opts : NbOpts}
    (parsed : mainOptions args = some (action, opts)) :
    ((∀ (Db : Type) (calls : EngineCalls K Db) (bench : NbBenchType),
        ReportsNonempty calls opts bench) ↔ requestedCount args ≠ 0) ∧
    ∀ (calls : EngineCalls K Db) (bench : NbBenchType),
      ReportsNonempty calls opts bench ↔
        (∃ failure, engineSetup calls opts = .error failure) ∨ requestedCount args ≠ 0 := by
  rw [← mainOptions_count parsed]
  constructor
  · constructor
    · intro every
      obtain ⟨calls, session, ready⟩ := setup_possible (K := K) opts
      exact (ready_reportsNonempty_iff ⟨calls, opts, .get, session, ready⟩).mp (every Unit calls .get)
    · rintro hne Db calls bench s ⟨session, ready, hloop⟩
      exact (ready_reportsNonempty_iff ⟨calls, opts, bench, session, ready⟩).mpr hne s
        ⟨session, ready, hloop⟩
  · intro calls bench
    cases hsetup : engineSetup calls opts with
    | error failure =>
      refine iff_of_true ?_ (Or.inl ⟨failure, rfl⟩)
      rintro s ⟨session, ready, _⟩
      cases hsetup.symm.trans ready
    | ok session =>
      rw [ready_reportsNonempty_iff ⟨calls, opts, bench, session, hsetup⟩]
      constructor
      · intro hne
        exact Or.inr hne
      · rintro (⟨failure, failed⟩ | hne)
        · cases failed
        · exact hne

theorem reportsNonempty_two_operations :
    ((∀ (Db : Type) (calls : EngineCalls ℚ Db) (bench : NbBenchType),
        ReportsNonempty calls { defaultOpts with count := atolSize "2" } bench) ↔
      requestedCount [('c', "2")] ≠ 0) ∧
    ∀ (calls : EngineCalls ℚ Unit) (bench : NbBenchType),
      ReportsNonempty calls { defaultOpts with count := atolSize "2" } bench ↔
        (∃ failure, engineSetup calls { defaultOpts with count := atolSize "2" } =
          .error failure) ∨ requestedCount [('c', "2")] ≠ 0 :=
  reportsNonempty_iff (show mainOptions [('c', "2")] = some (.get, _) from rfl)

/-- `mininb -a get -c 0`: the run arrives at the report with an empty histogram,
and the process ends there. -/
theorem empty_report_zero_count :
    ∃ opts, mainOptions [('a', "get"), ('c', "0")] = some (.get, opts) ∧
      ∃ calls : EngineCalls ℚ Unit, ¬ ReportsNonempty calls opts .get ∧
        (nbEngineRun calls opts .get).rc = none := by
  have zero : atolSize "0" = 0 := by decide
  obtain ⟨calls, session, ready⟩ :=
    setup_possible (K := ℚ) { defaultOpts with count := atolSize "0" }
  let run : Ready ℚ Unit := ⟨calls, _, .get, session, ready⟩
  have hcount : run.count = 0 := congrArg UInt64.toNat zero
  refine ⟨_, rfl, calls, ?_, ?_⟩
  · intro reports
    exact (ready_reportsNonempty_iff run).mp reports zero
  · rcases run.ending with ⟨hpos, _⟩ | ⟨_, _, hrc⟩ | ⟨_, _, hk, _⟩ | ⟨_, hk, _⟩
    · omega
    · exact hrc
    · omega
    · omega

end ReportSafety
