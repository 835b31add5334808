import MiniNb.NbDbDrivers
import MiniNb.RunTrace

/-!
# Which storage failures a run reports

The drivers compare the code of a library call with `DB_NOTFOUND` only, so a
call counts as failed exactly when it returned that code. Any other failure
passes for success, and the run goes on. A run reports its storage failures
exactly when the library returned no third kind of code during it.
-/

namespace StorageErrors

open MiniNb EngineRun RunTrace

universe u v
variable {K : Type u} [Field K] [LinearOrder K] [IsStrictOrderedRing K] {Db : Type v}

/-- The two drivers of this library interface. -/
inductive DbtDriver where
  | berkeleydb
  | tokukv
  deriving DecidableEq

def DbtDriver.plugin (driver : DbtDriver) (lib : DbLibrary Db) : NbDbIf Db :=
  match driver with
  | .berkeleydb => nbDbBerkeleydbPlugin lib
  | .tokukv => nbDbTokukvPlugin lib

def DbtDriver.putFlags (driver : DbtDriver) (lib : DbLibrary Db) : UInt32 :=
  match driver with
  | .berkeleydb => lib.overwriteDup
  | .tokukv => 0

/-- The code of the library call behind one round of a benchmark. -/
def libraryCode (driver : DbtDriver) (lib : DbLibrary Db) (bench : NbBenchType) (db : Db)
    (key val : Bytes) : Int :=
  match bench with
  | .get => (lib.get db (dbtOf key) (selectDbt lib false) 0).1
  | .put => (lib.put db (dbtOf key) (dbtOf val) (driver.putFlags lib)).1

theorem notFound_code {code notFound : Int} :
    (if code = notFound then (-1 : Int) else 0) = 0 ↔ code ≠ notFound := by
  split
  · rename_i absent
    exact iff_of_false (by decide) (not_not.mpr absent)
  · rename_i found
    exact iff_of_true rfl found

theorem dbtReplace_rc (lib : DbLibrary Db) (flags : UInt32) (db : Db) (key val : Bytes) :
    (dbtReplace lib flags db key val).1 = 0 ↔
      (lib.put db (dbtOf key) (dbtOf val) flags).1 ≠ lib.notFound := by
  rw [dbtReplace_eq]
  exact notFound_code

theorem dbtSelect_rc (lib : DbLibrary Db) (db : Db) (key : Bytes) (wantsValue : Bool) :
    (dbtSelect lib db key wantsValue).1 = 0 ↔
      (lib.get db (dbtOf key) (selectDbt lib wantsValue) 0).1 ≠ lib.notFound := by
  rw [dbtSelect_code]
  exact notFound_code

omit [Field K] [LinearOrder K] [IsStrictOrderedRing K] in
/-- The only code that a driver reports is `DB_NOTFOUND`. -/
theorem benchCall_notFound (driver : DbtDriver) (lib : DbLibrary Db) (bench : NbBenchType) (db : Db)
    (key val : Bytes) :
    (benchCall (driver.plugin lib) bench db key val : Int × EngineEvent K × Db).1 = 0 ↔
      libraryCode driver lib bench db key val ≠ lib.notFound := by
  cases driver with
  | berkeleydb =>
    cases bench with
    | get => exact dbtSelect_rc lib db key false
    | put => exact dbtReplace_rc lib lib.overwriteDup db key val
  | tokukv =>
    cases bench with
    | get => exact dbtSelect_rc lib db key false
    | put => exact dbtReplace_rc lib 0 db key val

/-- A benchmark of one of the drivers. -/
structure DriverRun (K : Type u) (Db : Type v) [Field K] [LinearOrder K] [IsStrictOrderedRing K]
    extends Ready K Db where
  driver : DbtDriver
  lib : DbLibrary Db
  plugin_eq : session.plugin.pif = driver.plugin lib

namespace DriverRun
variable (run : DriverRun K Db)

/-- The code of the library call of round `k`. -/
def codeAt (k : Nat) : Int :=
  libraryCode run.driver run.lib run.bench (run.dbAt k) (run.keyAt k) run.session.valbuf

/-- Round `k` gets as far as its plugin call. -/
structure Calls (k : Nat) : Prop where
  bound : k < run.count
  before : ∀ i, i < k → run.RoundOk i
  key : run.HasKey k

theorem rcAt_eq_zero_iff (k : Nat) : run.rcAt k = 0 ↔ run.codeAt k ≠ run.lib.notFound := by
  rw [Ready.rcAt, Ready.call, codeAt, run.plugin_eq]
  exact benchCall_notFound run.driver run.lib run.bench _ _ _

/-- Every code of the library up to the first `DB_NOTFOUND` is zero or that code. -/
def OnlyNotFound : Prop :=
  ∀ k, k < run.count → run.HasKey k → (∀ i, i < k → run.codeAt i ≠ run.lib.notFound) →
    run.codeAt k = 0 ∨ run.codeAt k = run.lib.notFound

variable [FloorSemiring K]

/-- No storage failure passes for success. -/
structure ReportsFailures : Prop where
  each_call : ∀ k, run.Calls k → (run.rcAt k = 0 ↔ run.codeAt k = 0)
  returns_zero : run.result.rc = some 0 → ∀ k, k < run.count → run.codeAt k = 0
  stops : ∃ s, run.result.final = some s ∧
    ∀ k, k + 1 < (calledKeys s.trace).length → run.codeAt k = 0

variable {run}

omit [FloorSemiring K] in
theorem codeAt_of_roundOk (only : run.OnlyNotFound) {k : Nat} (hk : k < run.count)
    (before : ∀ i, i ≤ k → run.RoundOk i) : run.codeAt k = 0 := by
  have found : ∀ i, i ≤ k → run.codeAt i ≠ run.lib.notFound := fun i hi =>
    (run.rcAt_eq_zero_iff i).mp (before i hi).call
  rcases only k hk (before k (Nat.le_refl k)).key (fun i hi => found i (Nat.le_of_lt hi)) with
    zero | absent
  · exact zero
  · exact False.elim (found k (Nat.le_refl k) absent)

theorem reportsFailures_of_only (only : run.OnlyNotFound) : run.ReportsFailures where
  each_call := by
    rintro k ⟨hk, before, key⟩
    have found : ∀ i, i < k → run.codeAt i ≠ run.lib.notFound := fun i hi =>
      (run.rcAt_eq_zero_iff i).mp (before i hi).call
    rw [rcAt_eq_zero_iff]
    rcases only k hk key found with zero | absent
    · simp only [zero, iff_true]
      exact run.lib.notFound_ne.symm
    · simp only [absent, ne_eq, not_true_eq_false, false_iff]
      exact run.lib.notFound_ne
  returns_zero := by
    intro hrc k hk
    rcases run.toReady.ending with ⟨_, stopped, _, _⟩ | ⟨_, _, hnone⟩ | ⟨_, _, _, _, _, hone, _⟩ |
      ⟨_, _, _, _, _, hcode, _⟩
    · exact codeAt_of_roundOk only hk (fun i hi => stopped.before i (by omega))
    · cases hnone.symm.trans hrc
    · cases hone.symm.trans hrc
    · rw [hcode] at hrc
      cases hb : run.bench with
      | get => simp [hb, Ready.failureCode] at hrc
      | put => simp [hb, Ready.failureCode] at hrc
  stops := by
    obtain ⟨s, hfinal, earlier⟩ := earlier_calls_ok run.toReady
    refine ⟨s, hfinal, ?_⟩
    intro k hk
    exact codeAt_of_roundOk only (earlier k hk).1 (fun i hi => (earlier i (by omega)).2)

theorem only_of_reportsFailures (reports : run.ReportsFailures) : run.OnlyNotFound := by
  intro k hk key found
  have called : run.Calls k :=
    ⟨hk, fun i hi => ⟨key.earlier (Nat.le_of_lt hi), (run.rcAt_eq_zero_iff i).mpr (found i hi)⟩, key⟩
  by_cases absent : run.codeAt k = run.lib.notFound
  · exact Or.inr absent
  · exact Or.inl ((reports.each_call k called).mp ((run.rcAt_eq_zero_iff k).mpr absent))

/-- A run of one of the drivers reports every storage failure exactly when the
library returned no code but zero and `DB_NOTFOUND` during the run. -/
theorem reportsFailures_iff (run : DriverRun K Db) : run.ReportsFailures ↔ run.OnlyNotFound := by
  constructor
  · exact only_of_reportsFailures
  · exact reportsFailures_of_only

end DriverRun

/-- A library whose `put` and `get` always return the same code. -/
def constantLibrary (code : Int) : DbLibrary Unit where
  notFound := -30988
  notFound_ne := by decide
  overwriteDup := 10
  dbtMalloc := 16
  setup := fun _ => ⟨true, 0, true, 0, true, 0, 0, 0, 0, 0, 0, 0⟩
  opened := ()
  close := id
  put := fun db _ _ _ => (code, db)
  get := fun db _ dbval _ => (code, dbval, db)
  del := fun db _ _ => (code, db)

/-- One-byte keys from a file of three bytes. -/
def berkeleydbRun (bench : NbBenchType) (code : Int) (count : UInt64) : DriverRun ℚ Unit where
  toReady := workingRun (nbDbBerkeleydbPlugin (constantLibrary code)) ()
    ⟨1, 1, 10, count, ".", "berkeleydb", "keys.bin"⟩ [7, 8, 9] bench rfl rfl
    (by decide) (by decide)
  driver := .berkeleydb
  lib := constantLibrary code
  plugin_eq := rfl

theorem reportsFailures_not_found :
    (berkeleydbRun .get (-30988) 2).ReportsFailures ↔ (berkeleydbRun .get (-30988) 2).OnlyNotFound :=
  DriverRun.reportsFailures_iff (berkeleydbRun .get (-30988) 2)

/-- Every `put` fails for lack of space (28), and the run returns zero. -/
theorem full_disk_passes_for_success :
    (berkeleydbRun .put 28 1).result.rc = some 0 ∧ (berkeleydbRun .put 28 1).codeAt 0 = 28 ∧
      ¬ (berkeleydbRun .put 28 1).ReportsFailures := by
  have returned : (berkeleydbRun .put 28 1).result.rc = some 0 := by decide +kernel
  refine ⟨returned, rfl, ?_⟩
  intro reports
  have zero := reports.returns_zero returned 0 (by decide)
  have code : (berkeleydbRun .put 28 1).codeAt 0 = 28 := rfl
  omega

end StorageErrors
