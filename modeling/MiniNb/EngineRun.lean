import MiniNb.KeyReading
import MiniNb.NbEngine
import Mathlib.Data.Rat.Floor

/-!
# What a benchmark run does

A benchmark whose setup succeeded is described by its inputs alone: the key,
the database, the return code and the sample of every round are functions of
the file, the plugin and the clock. `Reached` ties the state of the loop to this
description, one round at a time. `Outcome` lists the three ways in which the
loop can end; a copy outside the mapping is not one of them.
-/

namespace EngineRun

open MiniNb BlockMemory ExactDouble ResourceLedger KeyReading

universe u v
variable {K : Type u} [Field K] [LinearOrder K] [IsStrictOrderedRing K] {Db : Type v}

/-- What a setup acquires, in order. -/
def setupAcquires : Log := [.acquire .plugin, .acquire .handle, .acquire .db, .acquire .keybuf,
  .acquire .valbuf, .acquire .descriptor, .acquire .mapping, .acquire .histogram]

/-- What a successful setup leaves behind. -/
structure SetupDone (calls : EngineCalls K Db) (opts : NbOpts) (session : Session K Db) : Prop where
  loaded : (nbPluginLoad calls.loader opts.driver).plugin = some session.plugin
  opened : session.plugin.pif.open_ ⟨dbPath opts⟩ = some session.state.db
  keybuf_length : session.state.keybuf.length = opts.keyLen.toNat
  valbuf_eq : malloc calls.valHeap opts.valLen = some session.valbuf
  reader : session.state.random = ⟨(calls.keysFile opts.keysFilename).content, 0,
    (calls.keysFile opts.keysFilename).content.size⟩
  nonempty : 0 < (calls.keysFile opts.keysFilename).content.bytes.length
  fresh : nbHistogramNew calls.histHeap 6 = some session.state.hist
  log_eq : session.log = setupAcquires
  clock_eq : session.state.clockCalls = 0
  total_eq : session.state.totalCount = 0
  trace_eq : session.state.trace = []

/-- A load gives the plugin with its library, or gives everything back. -/
def LoadSettled (load : PluginLoad Db) : Prop :=
  (∃ plugin, load.plugin = some plugin ∧ load.log = [.acquire .plugin, .acquire .handle]) ∨
  (load.plugin = none ∧ Balanced load.log ∧ Event.acquire Resource.db ∉ load.log)

theorem load_settled (loader : PluginLoader Db) (name : String) :
    LoadSettled (nbPluginLoad loader name) := by
  have failed : ∀ {log : Log} {stderr}, Balanced log ∧ Event.acquire Resource.db ∉ log →
      LoadSettled (⟨none, log, stderr⟩ : PluginLoad Db) :=
    fun settled => Or.inr ⟨rfl, settled⟩
  unfold nbPluginLoad
  dsimp only
  split
  · exact failed (by decide)
  split
  · exact failed (by decide)
  split
  · exact failed (by decide)
  split
  · exact failed (by decide)
  · exact Or.inl ⟨_, rfl, rfl⟩

/-- The ways in which the setup ends: at one of the cleanup labels, or before the loop. -/
inductive SetupOutcome (calls : EngineCalls K Db) (opts : NbOpts) :
    Except SetupFailure (Session K Db) → Prop where
  | noPlugin (failure : SetupFailure) : (nbPluginLoad calls.loader opts.driver).plugin = none →
      failure.log = (nbPluginLoad calls.loader opts.driver).log ++ error1 →
      SetupOutcome calls opts (.error failure)
  | noDb (failure : SetupFailure) (plugin : NbPlugin Db) :
      (nbPluginLoad calls.loader opts.driver).plugin = some plugin →
      plugin.pif.open_ ⟨dbPath opts⟩ = none → failure.log = setupAcquires.take 2 ++ error2 →
      SetupOutcome calls opts (.error failure)
  | noKeybuf (failure : SetupFailure) : calls.keyHeap = none →
      failure.log = setupAcquires.take 3 ++ error3 → SetupOutcome calls opts (.error failure)
  | noValbuf (failure : SetupFailure) : calls.valHeap = none →
      failure.log = setupAcquires.take 4 ++ error4 → SetupOutcome calls opts (.error failure)
  | noReader (failure : SetupFailure) (r : Int) (log : Log) :
      nbRandomCreate (calls.keysFile opts.keysFilename) = (r, none, log) →
      failure.log = setupAcquires.take 5 ++ log ++ error5 →
      SetupOutcome calls opts (.error failure)
  | noHistogram (failure : SetupFailure) : calls.histHeap = none →
      failure.log = setupAcquires.take 7 ++ error6 (calls.keysFile opts.keysFilename) →
      SetupOutcome calls opts (.error failure)
  | done (session : Session K Db) : calls.keyHeap.isSome = true →
      (nbRandomCreate (calls.keysFile opts.keysFilename)).2.1.isSome = true →
      SetupDone calls opts session → SetupOutcome calls opts (.ok session)

omit [LinearOrder K] [IsStrictOrderedRing K] in
theorem setup_outcome (calls : EngineCalls K Db) (opts : NbOpts) :
    SetupOutcome calls opts (engineSetup calls opts) := by
  rcases load_settled calls.loader opts.driver with ⟨plugin, hload, hlog⟩ | ⟨hload, _⟩
  case inr =>
    simp only [engineSetup, hload]
    exact .noPlugin _ hload rfl
  simp only [engineSetup, hload, hlog]
  cases hopen : plugin.pif.open_ ⟨dbPath opts⟩ with
  | none => exact .noDb _ plugin hload hopen rfl
  | some db =>
    cases hkey : calls.keyHeap with
    | none => exact .noKeybuf _ hkey rfl
    | some keyHeap =>
      cases hval : calls.valHeap with
      | none => exact .noValbuf _ hval rfl
      | some valHeap =>
        rcases create_cases (calls.keysFile opts.keysFilename) with
          ⟨⟨maps, _⟩, hcreate⟩ | ⟨_, r, log, hcreate, _⟩
        · rw [hcreate]
          cases hhist : calls.histHeap with
          | none => exact .noHistogram _ hhist rfl
          | some histHeap =>
            refine .done _ (by rw [hkey]; rfl) (by rw [hcreate]; rfl)
              ⟨hload, hopen, ?_, ?_, rfl, List.length_pos_iff.mpr maps.nonempty, ?_, rfl, rfl, rfl,
                rfl⟩
            · exact malloc_length (show malloc (some keyHeap) opts.keyLen = some _ from rfl)
            · rw [hval]
              rfl
            · rw [hhist]
              rfl
        · rw [hcreate]
          exact .noReader _ r log hcreate rfl

omit [LinearOrder K] [IsStrictOrderedRing K] in
theorem setup_done {calls : EngineCalls K Db} {opts : NbOpts} {session : Session K Db}
    (ready : engineSetup calls opts = .ok session) : SetupDone calls opts session := by
  have outcome := setup_outcome calls opts
  rw [ready] at outcome
  cases outcome with
  | done _ _ _ done => exact done

/-- A benchmark whose setup succeeded. -/
structure Ready (K : Type u) (Db : Type v) [Field K] [LinearOrder K] [IsStrictOrderedRing K] where
  calls : EngineCalls K Db
  opts : NbOpts
  bench : NbBenchType
  session : Session K Db
  setup : engineSetup calls opts = .ok session

namespace Ready
variable (run : Ready K Db)

def file : KeyFile := (run.calls.keysFile run.opts.keysFilename).content

def keyLen : Nat := run.opts.keyLen.toNat

def count : Nat := run.opts.count.toNat

def keyAt (k : Nat) : Bytes := block run.keyLen k run.file.bytes

/-- The call of one round, from the database before it. -/
def call (db : Db) (k : Nat) : Int × EngineEvent K × Db :=
  benchCall run.session.plugin.pif run.bench db (run.keyAt k) run.session.valbuf

/-- The database before round `k`, when no earlier round left the loop. -/
def dbAt : Nat → Db
  | 0 => run.session.state.db
  | k + 1 => (run.call (dbAt k) k).2.2

def rcAt (k : Nat) : Int := (run.call (run.dbAt k) k).1

def eventAt (k : Nat) : EngineEvent K := (run.call (run.dbAt k) k).2.1

def sampleAt (k : Nat) : Dbl K :=
  .fin (run.calls.clock (2 * k + 1)) - .fin (run.calls.clock (2 * k))

def roundTrace (k : Nat) : List (EngineEvent K) :=
  [EngineEvent.next 0 (run.keyAt k), run.eventAt k, EngineEvent.sample (run.sampleAt k)]

def traceAt (k : Nat) : List (EngineEvent K) := (List.range k).flatMap run.roundTrace

def histAt (k : Nat) : NbHistogram K :=
  (List.range k).foldl (fun hist i => nbHistogramAdd hist (run.sampleAt i)) run.session.state.hist

/-- The bounds check of the reader passes for key `k`. -/
def HasKey (k : Nat) : Prop := run.keyLen * (k + 1) < run.file.bytes.length

structure RoundOk (k : Nat) : Prop where
  key : run.HasKey k
  call : run.rcAt k = 0

/-- The state of the loop after `k` rounds. -/
structure Reached (k : Nat) (s : BenchState K Db) : Prop where
  position : At run.file run.opts.keyLen k s.random
  keybuf_length : s.keybuf.length = run.keyLen
  db_eq : s.db = run.dbAt k
  hist_eq : s.hist = run.histAt k
  clock_eq : s.clockCalls = 2 * k
  total_eq : s.totalCount = k
  trace_eq : s.trace = run.traceAt k

theorem reached_start : run.Reached 0 run.session.state where
  position := by
    rw [(setup_done run.setup).reader]
    exact at_start _ _
  keybuf_length := (setup_done run.setup).keybuf_length
  db_eq := rfl
  hist_eq := rfl
  clock_eq := (setup_done run.setup).clock_eq
  total_eq := (setup_done run.setup).total_eq
  trace_eq := (setup_done run.setup).trace_eq

/-- One round of the loop. -/
def step (s : BenchState K Db) : BenchState K Db × Option LoopExit :=
  benchStep run.calls run.opts run.bench run.session.plugin.pif run.session.valbuf s

variable {run} {k : Nat} {s : BenchState K Db}

theorem traceAt_succ (k : Nat) : run.traceAt (k + 1) = run.traceAt k ++ run.roundTrace k := by
  simp [traceAt, List.range_succ]

theorem histAt_succ (k : Nat) :
    run.histAt (k + 1) = nbHistogramAdd (run.histAt k) (run.sampleAt k) := by
  simp [histAt, List.range_succ]

theorem HasKey.inside (h : run.HasKey k) : run.keyLen * k + run.keyLen ≤ run.file.bytes.length := by
  unfold HasKey at h
  rw [Nat.mul_succ] at h
  exact Nat.le_of_lt h

theorem HasKey.earlier (h : run.HasKey k) {i : Nat} (hi : i ≤ k) : run.HasKey i :=
  lt_of_le_of_lt (Nat.mul_le_mul_left _ (Nat.succ_le_succ hi)) h

theorem HasKey.keyAt_length (h : run.HasKey k) : (run.keyAt k).length = run.keyLen :=
  length_block h.inside

/-- The buffer has the size of one key, so the copy fills all of it. -/
theorem Reached.next (h : run.Reached k s) (key : run.HasKey k) :
    nbRandomNext s.random s.keybuf run.opts.keyLen =
      .ok (0, { s.random with cur := s.random.cur + run.opts.keyLen }, run.keyAt k) ∧
    At run.file run.opts.keyLen (k + 1)
      { s.random with cur := s.random.cur + run.opts.keyLen } := by
  obtain ⟨hnext, hat⟩ := next_delivers h.position (Nat.le_of_eq h.keybuf_length.symm) key
  have hrest : s.keybuf.drop run.opts.keyLen.toNat = [] :=
    List.drop_of_length_le (Nat.le_of_eq h.keybuf_length)
  rw [hrest, List.append_nil] at hnext
  exact ⟨hnext, hat⟩

theorem step_outOfKeys (h : run.Reached k s) (short : ¬ run.HasKey k) :
    run.step s = ({ s with
      trace := s.trace ++ [EngineEvent.next 1 s.keybuf]
      stderr := s.stderr ++ ["random_next failed\n"] }, some .nextFailed) := by
  have hnext := next_refused h.position s.keybuf (Nat.le_of_not_gt short)
  simp only [step, benchStep, hnext]
  rfl

theorem Reached.call (h : run.Reached k s) :
    benchCall run.session.plugin.pif run.bench s.db (run.keyAt k) run.session.valbuf =
      (run.rcAt k, run.eventAt k, run.dbAt (k + 1)) := by
  rw [h.db_eq]
  rfl

theorem step_callFailed (h : run.Reached k s) (key : run.HasKey k) (failed : run.rcAt k ≠ 0) :
    ∃ t, run.step s = (t, some (callFailed run.bench)) ∧
      t.trace = run.traceAt k ++ [EngineEvent.next 0 (run.keyAt k), run.eventAt k] ∧
      t.hist = run.histAt k := by
  obtain ⟨hnext, _⟩ := h.next key
  have hstep : run.step s = ({ s with
      random := { s.random with cur := s.random.cur + run.opts.keyLen }
      keybuf := run.keyAt k
      db := run.dbAt (k + 1)
      clockCalls := s.clockCalls + 1
      trace := s.trace ++ [EngineEvent.next 0 (run.keyAt k)] ++ [run.eventAt k] },
        some (callFailed run.bench)) := by
    simp only [step, benchStep, hnext, h.call, ne_eq, not_true_eq_false, if_false, failed,
      not_false_eq_true, if_true]
  refine ⟨_, hstep, ?_, h.hist_eq⟩
  simp only [h.trace_eq, List.append_assoc, List.cons_append, List.nil_append]

/-- The progress report at the end of a round only counts. -/
theorem reached_report (position : At run.file run.opts.keyLen k s.random)
    (keybuf : s.keybuf.length = run.keyLen) (db : s.db = run.dbAt k)
    (hist : s.hist = run.histAt k) (clock : s.clockCalls = 2 * k)
    (total : s.totalCount + 1 = k) (trace : s.trace = run.traceAt k) :
    run.Reached k (reportProgress run.opts s) := by
  unfold reportProgress
  dsimp only
  split
  · exact ⟨position, keybuf, db, hist, clock, total, trace⟩
  · exact ⟨position, keybuf, db, hist, clock, total, trace⟩

theorem step_ok (h : run.Reached k s) (ok : run.RoundOk k) :
    ∃ t, run.step s = (t, none) ∧ run.Reached (k + 1) t := by
  obtain ⟨hnext, hat⟩ := h.next ok.key
  have hstep : run.step s = (reportProgress run.opts { s with
      random := { s.random with cur := s.random.cur + run.opts.keyLen }
      keybuf := run.keyAt k
      db := run.dbAt (k + 1)
      clockCalls := s.clockCalls + 2
      hist := nbHistogramAdd s.hist (run.sampleAt k)
      trace := s.trace ++ [EngineEvent.next 0 (run.keyAt k)] ++ [run.eventAt k] ++
        [EngineEvent.sample (run.sampleAt k)] }, none) := by
    simp only [step, benchStep, hnext, h.call, ok.call, ne_eq, not_true_eq_false, if_false,
      h.clock_eq, sampleAt]
  refine ⟨_, hstep, reached_report hat ok.key.keyAt_length rfl ?_ ?_ (congrArg (· + 1) h.total_eq) ?_⟩
  · simp only [h.hist_eq, histAt_succ]
  · simp only [h.clock_eq, Nat.mul_succ]
  · simp only [h.trace_eq, traceAt_succ, roundTrace, List.append_assoc, List.cons_append,
      List.nil_append]

/-- A plugin call changes the database whether it succeeds or not. -/
theorem step_db (h : run.Reached k s) (key : run.HasKey k) :
    (run.step s).1.db = run.dbAt (k + 1) := by
  obtain ⟨hnext, _⟩ := h.next key
  simp only [step, benchStep, hnext, h.call, ne_eq, not_true_eq_false, if_false]
  split
  · rfl
  · exact reportProgress_db _ _

/-- The ways in which a loop of at most `n` rounds ends. -/
inductive Outcome (run : Ready K Db) (n : Nat) : BenchState K Db × Option LoopExit → Prop where
  | finished (s : BenchState K Db) : (∀ i, i < n → run.RoundOk i) → run.Reached n s →
      Outcome run n (s, none)
  | outOfKeys (k : Nat) (s : BenchState K Db) (buf : Bytes) : k < n →
      (∀ i, i < k → run.RoundOk i) → ¬ run.HasKey k →
      s.trace = run.traceAt k ++ [EngineEvent.next 1 buf] → s.hist = run.histAt k →
      Outcome run n (s, some .nextFailed)
  | callFailed (k : Nat) (s : BenchState K Db) : k < n → (∀ i, i < k → run.RoundOk i) →
      run.HasKey k → run.rcAt k ≠ 0 →
      s.trace = run.traceAt k ++ [EngineEvent.next 0 (run.keyAt k), run.eventAt k] →
      s.hist = run.histAt k → Outcome run n (s, some (MiniNb.callFailed run.bench))

/-- Rounds that stay in the loop were in order, and lead to the described state. -/
theorem rounds_reached {t : BenchState K Db}
    (rounds : BoundedLoop.Rounds run.step k run.session.state t) :
    (∀ i, i < k → run.RoundOk i) ∧ run.Reached k t := by
  apply BoundedLoop.Rounds.invariant
    (fun k t => (∀ i, i < k → run.RoundOk i) ∧ run.Reached k t) _ _ rounds
  · rintro k t u ⟨before, reached⟩ last
    by_cases key : run.HasKey k
    · by_cases ok : run.rcAt k = 0
      · obtain ⟨v, hv, next⟩ := step_ok reached ⟨key, ok⟩
        cases hv.symm.trans last
        refine ⟨?_, next⟩
        intro i hi
        rcases Nat.lt_succ_iff_lt_or_eq.mp hi with hi | rfl
        · exact before i hi
        · exact ⟨key, ok⟩
      · obtain ⟨v, hv, _⟩ := step_callFailed reached key ok
        cases hv.symm.trans last
    · cases (step_outOfKeys reached key).symm.trans last
  · exact ⟨fun _ hi => absurd hi (Nat.not_lt_zero _), run.reached_start⟩

theorem loop_outcome (run : Ready K Db) (n : Nat) :
    Outcome run n (BoundedLoop.run run.step n run.session.state) := by
  rcases BoundedLoop.run_cases run.step n run.session.state with
    ⟨t, rounds, hrun⟩ | ⟨k, t, u, e, hk, rounds, last, hrun⟩
  · obtain ⟨before, reached⟩ := rounds_reached rounds
    rw [hrun]
    exact .finished t before reached
  · obtain ⟨before, reached⟩ := rounds_reached rounds
    rw [hrun]
    by_cases key : run.HasKey k
    · by_cases ok : run.rcAt k = 0
      · obtain ⟨v, hv, _⟩ := step_ok reached ⟨key, ok⟩
        cases hv.symm.trans last
      · obtain ⟨v, hv, trace, hist⟩ := step_callFailed reached key ok
        cases hv.symm.trans last
        exact .callFailed k u hk before key ok trace hist
    · have hend := step_outOfKeys reached key
      cases hend.symm.trans last
      exact .outOfKeys k _ t.keybuf hk before key (congrArg (· ++ _) reached.trace_eq)
        reached.hist_eq

theorem benchLoop_outcome (run : Ready K Db) :
    Outcome run run.count (benchLoop run.calls run.opts run.bench run.session) :=
  loop_outcome run run.count

theorem histAt_size (run : Ready K Db) (k : Nat) : (run.histAt k).size = k := by
  induction k with
  | zero =>
    obtain ⟨heap, _, hclear⟩ := Option.map_eq_some_iff.mp (setup_done run.setup).fresh
    have : run.session.state.hist.size = 0 := by rw [← hclear]; rfl
    simpa only [histAt, List.range_zero, List.foldl_nil] using this
  | succ k ih => rw [histAt_succ, nbHistogramAdd, ih]

variable [FloorSemiring K]

/-- What the engine returns. -/
def result (run : Ready K Db) : EngineResult K Db := nbEngineRun run.calls run.opts run.bench

/-- The first `k` rounds were in order, and the trace ends with `tail` behind them. -/
structure Stopped (run : Ready K Db) (k : Nat) (tail : List (EngineEvent K)) : Prop where
  before : ∀ i, i < k → run.RoundOk i
  final : ∃ s, run.result.final = some s ∧ s.trace = run.traceAt k ++ tail ∧ s.hist = run.histAt k

/-- The return code after a failed plugin call. -/
def failureCode : NbBenchType → Int
  | .get => 1
  | .put => 2

/-- The releases after a failed plugin call. -/
def failureLog : NbBenchType → Log
  | .get => []
  | .put => error5

/-- The ways in which a run ends after its setup. -/
inductive Ending (run : Ready K Db) : Prop where
  | finished : 0 < run.count → run.Stopped run.count [] → run.result.rc = some 0 →
      run.result.log = run.session.log ++ finish (run.calls.keysFile run.opts.keysFilename) →
      Ending run
  | assertFailed : run.count = 0 → run.Stopped 0 [] → run.result.rc = none → Ending run
  | outOfKeys (k : Nat) (buf : Bytes) : k < run.count → ¬ run.HasKey k →
      run.Stopped k [EngineEvent.next 1 buf] → run.result.rc = some 1 →
      run.result.log = run.session.log → Ending run
  | callFailed (k : Nat) : k < run.count → run.HasKey k → run.rcAt k ≠ 0 →
      run.Stopped k [EngineEvent.next 0 (run.keyAt k), run.eventAt k] →
      run.result.rc = some (failureCode run.bench) →
      run.result.log = run.session.log ++ failureLog run.bench → Ending run

theorem ending (run : Ready K Db) : run.Ending := by
  have hrun : run.result = nbEngineRun run.calls run.opts run.bench := rfl
  have outcome := benchLoop_outcome run
  unfold nbEngineRun at hrun
  rw [run.setup] at hrun
  dsimp only at hrun
  generalize benchLoop run.calls run.opts run.bench run.session = loop at hrun outcome
  cases outcome with
  | finished s before reached =>
    have hsize : s.hist.size = run.count := by rw [reached.hist_eq, histAt_size]
    have trace : s.trace = run.traceAt run.count ++ [] := by rw [reached.trace_eq, List.append_nil]
    dsimp only at hrun
    by_cases hpos : 0 < run.count
    · obtain ⟨report, hdump⟩ : ∃ report, nbHistogramDump s.hist enginePercentiles = some report :=
        ⟨_, if_pos (hsize ▸ hpos)⟩
      rw [hdump] at hrun
      refine .finished hpos ⟨before, _, congrArg EngineResult.final hrun, trace, reached.hist_eq⟩ ?_ ?_
      · rw [hrun]
      · rw [hrun]
    · have hzero := Nat.eq_zero_of_not_pos hpos
      have hdump : nbHistogramDump s.hist enginePercentiles = none := if_neg (hsize ▸ hpos)
      rw [hdump] at hrun
      rw [hzero] at before trace reached
      refine .assertFailed hzero
        ⟨before, _, congrArg EngineResult.final hrun, trace, reached.hist_eq⟩ ?_
      rw [hrun]
  | outOfKeys k s buf hk before short trace hist =>
    dsimp only at hrun
    refine .outOfKeys k buf hk short
      ⟨before, _, congrArg EngineResult.final hrun, trace, hist⟩ ?_ ?_
    · rw [hrun]
    · rw [hrun]
  | callFailed k s hk before key failed trace hist =>
    cases hb : run.bench with
    | get =>
      rw [hb, MiniNb.callFailed] at hrun
      dsimp only at hrun
      refine .callFailed k hk key failed
        ⟨before, _, congrArg EngineResult.final hrun, trace, hist⟩ ?_ ?_
      · rw [hrun, hb, failureCode]
      · rw [hrun, hb, failureLog, List.append_nil]
    | put =>
      rw [hb, MiniNb.callFailed] at hrun
      dsimp only at hrun
      refine .callFailed k hk key failed
        ⟨before, _, congrArg EngineResult.final hrun, trace, hist⟩ ?_ ?_
      · rw [hrun, hb, failureCode]
      · rw [hrun, hb, failureLog]

end Ready

/-! Environments in which the setup succeeds. -/

section Working
variable (pif : NbDbIf Db) (db : Db) (opts : NbOpts) (bytes : Bytes)

/-- A driver that answers every call with the same return codes. -/
def constantDriver (replaceRc selectRc : Int) : NbDbIf Unit where
  name := "constant"
  open_ := fun _ => some ()
  close := id
  replace := fun db _ _ => (replaceRc, db)
  remove := fun db _ => (0, db)
  select := fun db _ _ => (selectRc, none, db)
  valfree := fun db _ => db

def workingCalls (bytes : Bytes) (short : bytes.length < 2 ^ 63) : EngineCalls K Db where
  loader := ⟨true, fun _ => some (fun _ => some pif), ""⟩
  keyHeap := some (fun _ => 0)
  valHeap := some (fun _ => 0)
  keysFile := fun _ => workingFile bytes short
  histHeap := some ⟨.nan, .nan, .nan, .nan, 0, Vector.replicate _ 0, 0⟩
  clock := fun n => (n : K)

def workingSession (file : KeyFile) : Session K Db where
  plugin := ⟨pif⟩
  valbuf := List.replicate opts.valLen.toNat 0
  log := setupAcquires
  state :=
    { random := ⟨file, 0, file.size⟩, keybuf := List.replicate opts.keyLen.toNat 0, db := db
      hist := nbHistogramClear ⟨.nan, .nan, .nan, .nan, 0, Vector.replicate _ 0, 6⟩
      prevCount := 0, totalCount := 0, clockCalls := 0, trace := []
      stderr := ["Benchmarking..."] }

omit [LinearOrder K] [IsStrictOrderedRing K] in
theorem setup_works {pif : NbDbIf Db} {db : Db} {opts : NbOpts} {bytes : Bytes}
    (named : pif.name = opts.driver) (opens : pif.open_ ⟨dbPath opts⟩ = some db)
    (nonempty : bytes ≠ []) (short : bytes.length < 2 ^ 63) :
    engineSetup (workingCalls pif bytes short : EngineCalls K Db) opts =
      .ok (workingSession pif db opts ⟨bytes, short⟩) := by
  have hload : (nbPluginLoad (workingCalls pif bytes short : EngineCalls K Db).loader
      opts.driver) = ⟨some ⟨pif⟩, [.acquire .plugin, .acquire .handle], []⟩ := by
    simp [nbPluginLoad, workingCalls, named]
  have hcreate : nbRandomCreate (workingFile bytes short) =
      (0, some ⟨⟨bytes, short⟩, 0, KeyFile.size ⟨bytes, short⟩⟩,
        [.acquire .descriptor, .acquire .mapping]) := by
    simp [nbRandomCreate, nbRandomOpenFile, workingFile, nonempty]
  simp only [engineSetup, hload, opens]
  simp [workingCalls, workingSession, setupAcquires, hcreate, malloc, nbHistogramNew]

/-- A benchmark in such an environment. -/
def workingRun (bench : NbBenchType) (named : pif.name = opts.driver)
    (opens : pif.open_ ⟨dbPath opts⟩ = some db) (nonempty : bytes ≠ [])
    (short : bytes.length < 2 ^ 63) : Ready K Db :=
  ⟨workingCalls pif bytes short, opts, bench, _, setup_works named opens nonempty short⟩

def smallOpts (count : UInt64) : NbOpts := ⟨1, 1, 10, count, ".", "constant", "keys.bin"⟩

/-- One-byte keys from a file of three bytes. -/
def smallRun (bench : NbBenchType) (replaceRc selectRc : Int) (count : UInt64) : Ready ℚ Unit :=
  workingRun (constantDriver replaceRc selectRc) () (smallOpts count) [1, 2, 3] bench
    rfl rfl (by decide) (by decide)

end Working

end EngineRun
