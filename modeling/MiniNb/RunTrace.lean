import MiniNb.EngineRun

/-!
# The operations of a run, in order

The events of a run are read off its trace: the keys that arrived from the
file, the keys passed to the plugin, the calls that succeeded, the samples. A
round in order contributes one of each, so a run asks the plugin for the blocks
of the keys file one after the other and stops at the first refusal. The answers
are those of the plugin, asked for these keys on one database.
-/

namespace RunTrace

open MiniNb BlockMemory ExactDouble EngineRun

universe u v
variable {K : Type u} {Db : Type v}

/-- The key of an event that a plugin was called with. -/
def calledKey : EngineEvent K → Option Bytes
  | .select key _ => some key
  | .replace key _ _ => some key
  | _ => none

/-- The key of a successful `nb_random_next`. -/
def obtainedKey : EngineEvent K → Option Bytes
  | .next rc key => if rc = 0 then some key else none
  | _ => none

def sampleOf : EngineEvent K → Option (Dbl K)
  | .sample td => some td
  | _ => none

def failed : EngineEvent K → Bool
  | .next rc _ => rc ≠ 0
  | .select _ rc => rc ≠ 0
  | .replace _ _ rc => rc ≠ 0
  | .sample _ => false

def succeeded (e : EngineEvent K) : Bool := (calledKey e).isSome && !failed e

/-- Whether an event can occur in a benchmark of this type. -/
def allowed : NbBenchType → EngineEvent K → Bool
  | .get, .replace _ _ _ => false
  | .put, .select _ _ => false
  | _, _ => true

def calledKeys (trace : List (EngineEvent K)) : List Bytes := trace.filterMap calledKey

def obtainedKeys (trace : List (EngineEvent K)) : List Bytes := trace.filterMap obtainedKey

def samples (trace : List (EngineEvent K)) : List (Dbl K) := trace.filterMap sampleOf

def successes (trace : List (EngineEvent K)) : Nat := trace.countP succeeded

/-- The plugin calls of a run, with their answers. -/
def tracedCalls (trace : List (EngineEvent K)) : List (EngineEvent K) :=
  trace.filter fun e => (calledKey e).isSome

/-- A plugin asked for some keys in order, each time on the database that the
last call left: the answers, and the database behind them. -/
def pluginCalls (pif : NbDbIf Db) (bench : NbBenchType) (val : Bytes) :
    Db → List Bytes → List (EngineEvent K) × Db
  | db, [] => ([], db)
  | db, key :: rest =>
    match bench with
    | .get =>
      let (rc, _, db) := pif.select db key false
      let (events, db) := pluginCalls pif .get val db rest
      (.select key rc :: events, db)
    | .put =>
      let (rc, db) := pif.replace db key val
      let (events, db) := pluginCalls pif .put val db rest
      (.replace key val rc :: events, db)

/-- Whenever the run does anything but add a sample, it has as many samples as
successful calls. -/
def Paced (trace : List (EngineEvent K)) : Prop :=
  ∀ before e, before ++ [e] <+: trace → sampleOf e = none →
    (samples before).length = successes before

section Events
variable (rc : Int) (key : Bytes) (td : Dbl K) (bench : NbBenchType)

@[simp] theorem calledKey_next : calledKey (.next rc key : EngineEvent K) = none := rfl

@[simp] theorem calledKey_sample : calledKey (.sample td) = none := rfl

@[simp] theorem obtainedKey_next :
    obtainedKey (.next rc key : EngineEvent K) = if rc = 0 then some key else none := rfl

@[simp] theorem obtainedKey_sample : obtainedKey (.sample td) = none := rfl

@[simp] theorem sampleOf_next : sampleOf (.next rc key : EngineEvent K) = none := rfl

@[simp] theorem sampleOf_sample : sampleOf (.sample td) = some td := rfl

@[simp] theorem failed_next : failed (.next rc key : EngineEvent K) = decide (rc ≠ 0) := rfl

@[simp] theorem failed_sample : failed (.sample td) = false := rfl

@[simp] theorem allowed_next : allowed bench (.next rc key : EngineEvent K) = true := by
  cases bench <;> rfl

@[simp] theorem allowed_sample : allowed bench (.sample td) = true := by
  cases bench <;> rfl

@[simp] theorem succeeded_next : succeeded (.next rc key : EngineEvent K) = false := rfl

@[simp] theorem succeeded_sample : succeeded (.sample td) = false := rfl

end Events

@[simp] theorem calledKeys_append (a b : List (EngineEvent K)) :
    calledKeys (a ++ b) = calledKeys a ++ calledKeys b := List.filterMap_append

@[simp] theorem obtainedKeys_append (a b : List (EngineEvent K)) :
    obtainedKeys (a ++ b) = obtainedKeys a ++ obtainedKeys b := List.filterMap_append

@[simp] theorem samples_append (a b : List (EngineEvent K)) :
    samples (a ++ b) = samples a ++ samples b := List.filterMap_append

@[simp] theorem successes_append (a b : List (EngineEvent K)) :
    successes (a ++ b) = successes a + successes b := List.countP_append

@[simp] theorem tracedCalls_append (a b : List (EngineEvent K)) :
    tracedCalls (a ++ b) = tracedCalls a ++ tracedCalls b := List.filter_append _ _

/-- The last key is asked for on the database behind the others. -/
theorem pluginCalls_concat (pif : NbDbIf Db) (bench : NbBenchType) (val : Bytes) (db : Db)
    (keys : List Bytes) (key : Bytes) :
    (pluginCalls pif bench val db (keys ++ [key]) : List (EngineEvent K) × Db) =
      let before : List (EngineEvent K) × Db := pluginCalls pif bench val db keys
      let last : List (EngineEvent K) × Db := pluginCalls pif bench val before.2 [key]
      (before.1 ++ last.1, last.2) := by
  induction keys generalizing db with
  | nil => rfl
  | cons first rest ih =>
    cases bench with
    | get => simp only [List.cons_append, pluginCalls, ih]
    | put => simp only [List.cons_append, pluginCalls, ih]

theorem paced_nil : Paced ([] : List (EngineEvent K)) := by
  intro before e h
  simpa using h.length_le

theorem paced_concat {trace : List (EngineEvent K)} {e : EngineEvent K} (paced : Paced trace)
    (h : sampleOf e = none → (samples trace).length = successes trace) :
    Paced (trace ++ [e]) := by
  intro before e' hprefix
  rcases List.prefix_concat_iff.mp hprefix with heq | hlt
  · obtain ⟨rfl, rfl⟩ := List.append_inj' heq rfl |>.imp id (fun h => List.singleton_inj.mp h)
    exact h
  · exact paced before e' hlt

variable [Field K] [LinearOrder K] [IsStrictOrderedRing K] {run : Ready K Db} {k : Nat}

/-- What the events of the first rounds add up to, all of them being in order. -/
structure InStep (run : Ready K Db) (k : Nat) (trace : List (EngineEvent K)) : Prop where
  called : calledKeys trace = blocks run.keyLen k run.file.bytes
  calls : tracedCalls trace = (List.range k).map run.eventAt
  obtained : obtainedKeys trace = blocks run.keyLen k run.file.bytes
  sampled : samples trace = (List.range k).map run.sampleAt
  succeeded : successes trace = k
  paced : Paced trace
  none_failed : ∀ e ∈ trace, failed e = false
  only_bench : ∀ e ∈ trace, allowed run.bench e = true

/-- The plugin call of one round: its operation, its key and its answer. -/
theorem event_cases (run : Ready K Db) (k : Nat) :
    (run.bench = .get ∧ run.eventAt k = .select (run.keyAt k) (run.rcAt k)) ∨
    (run.bench = .put ∧
      run.eventAt k = .replace (run.keyAt k) run.session.valbuf (run.rcAt k)) := by
  unfold Ready.eventAt Ready.rcAt Ready.call
  cases run.bench with
  | get => exact Or.inl ⟨rfl, rfl⟩
  | put => exact Or.inr ⟨rfl, rfl⟩

@[simp] theorem calledKey_eventAt (run : Ready K Db) (k : Nat) :
    calledKey (run.eventAt k) = some (run.keyAt k) := by
  rcases event_cases run k with ⟨_, h⟩ | ⟨_, h⟩ <;> rw [h] <;> rfl

@[simp] theorem obtainedKey_eventAt (run : Ready K Db) (k : Nat) :
    obtainedKey (run.eventAt k) = none := by
  rcases event_cases run k with ⟨_, h⟩ | ⟨_, h⟩ <;> rw [h] <;> rfl

@[simp] theorem sampleOf_eventAt (run : Ready K Db) (k : Nat) :
    sampleOf (run.eventAt k) = none := by
  rcases event_cases run k with ⟨_, h⟩ | ⟨_, h⟩ <;> rw [h] <;> rfl

@[simp] theorem failed_eventAt (run : Ready K Db) (k : Nat) :
    failed (run.eventAt k) = decide (run.rcAt k ≠ 0) := by
  rcases event_cases run k with ⟨_, h⟩ | ⟨_, h⟩ <;> rw [h] <;> rfl

@[simp] theorem allowed_eventAt (run : Ready K Db) (k : Nat) :
    allowed run.bench (run.eventAt k) = true := by
  rcases event_cases run k with ⟨hb, h⟩ | ⟨hb, h⟩ <;> rw [hb, h] <;> rfl

@[simp] theorem succeeded_eventAt (run : Ready K Db) (k : Nat) :
    succeeded (run.eventAt k) = decide (run.rcAt k = 0) := by
  simp [succeeded]

/-- The events and databases of the rounds are the answers of the plugin. -/
theorem pluginCalls_blocks (run : Ready K Db) (k : Nat) :
    pluginCalls run.session.plugin.pif run.bench run.session.valbuf run.session.state.db
        (blocks run.keyLen k run.file.bytes) =
      ((List.range k).map run.eventAt, run.dbAt k) := by
  induction k with
  | zero => rfl
  | succ k ih =>
    have last : pluginCalls run.session.plugin.pif run.bench run.session.valbuf (run.dbAt k)
        [run.keyAt k] = ([run.eventAt k], run.dbAt (k + 1)) := by
      rw [Ready.eventAt, Ready.dbAt, Ready.call]
      cases run.bench with
      | get => rfl
      | put => rfl
    rw [blocks_succ, pluginCalls_concat, ih]
    dsimp only
    rw [show block run.keyLen k run.file.bytes = run.keyAt k from rfl, last, List.range_succ,
      List.map_append]
    rfl

theorem inStep_zero (run : Ready K Db) : InStep run 0 [] :=
  ⟨rfl, rfl, rfl, rfl, rfl, paced_nil, by simp, by simp⟩

theorem InStep.even {trace : List (EngineEvent K)} (h : InStep run k trace) :
    (samples trace).length = successes trace := by
  rw [h.sampled, h.succeeded, List.length_map, List.length_range]

/-- A key and its plugin call behind rounds in order keep the pace. -/
theorem InStep.paced_call {trace : List (EngineEvent K)} (h : InStep run k trace) :
    Paced (trace ++ [EngineEvent.next 0 (run.keyAt k), run.eventAt k]) := by
  have next : Paced (trace ++ [EngineEvent.next 0 (run.keyAt k)]) :=
    paced_concat h.paced (fun _ => h.even)
  have call : Paced (trace ++ [EngineEvent.next 0 (run.keyAt k)] ++ [run.eventAt k]) := by
    apply paced_concat next
    intro _
    simpa [samples, successes, List.filterMap_cons] using h.even
  simpa only [List.append_assoc, List.cons_append, List.nil_append] using call

theorem InStep.round {trace : List (EngineEvent K)} (h : InStep run k trace)
    (ok : run.RoundOk k) : InStep run (k + 1) (trace ++ run.roundTrace k) where
  called := by
    rw [calledKeys_append, h.called, blocks_succ]
    simp [Ready.roundTrace, calledKeys, List.filterMap_cons, Ready.keyAt]
  calls := by
    rw [tracedCalls_append, h.calls, List.range_succ, List.map_append]
    simp [Ready.roundTrace, tracedCalls]
  obtained := by
    rw [obtainedKeys_append, h.obtained, blocks_succ]
    simp [Ready.roundTrace, obtainedKeys, List.filterMap_cons, Ready.keyAt]
  sampled := by
    rw [samples_append, h.sampled, List.range_succ, List.map_append]
    simp [Ready.roundTrace, samples, List.filterMap_cons]
  succeeded := by
    rw [successes_append, h.succeeded]
    simp [Ready.roundTrace, successes, ok.call]
  paced := by
    have sample := paced_concat (e := EngineEvent.sample (run.sampleAt k)) h.paced_call
      (fun h => by cases h)
    simpa only [Ready.roundTrace, List.append_assoc, List.cons_append, List.nil_append] using sample
  none_failed := by
    intro e he
    rcases List.mem_append.mp he with he | he
    · exact h.none_failed e he
    · simp only [Ready.roundTrace, List.mem_cons, List.not_mem_nil, or_false] at he
      rcases he with rfl | rfl | rfl <;> simp [ok.call]
  only_bench := by
    intro e he
    rcases List.mem_append.mp he with he | he
    · exact h.only_bench e he
    · simp only [Ready.roundTrace, List.mem_cons, List.not_mem_nil, or_false] at he
      rcases he with rfl | rfl | rfl <;> simp

theorem inStep_traceAt (run : Ready K Db) (before : ∀ i, i < k → run.RoundOk i) :
    InStep run k (run.traceAt k) := by
  induction k with
  | zero => exact inStep_zero run
  | succ k ih =>
    rw [Ready.traceAt_succ]
    exact (ih fun i hi => before i (Nat.lt_succ_of_lt hi)).round (before k (Nat.lt_succ_self k))

/-- What a trace has behind the rounds in order: no success, at most one call. -/
structure LastEvents (run : Ready K Db) (k : Nat) (tail : List (EngineEvent K)) : Prop where
  called : calledKeys tail = [] ∨ calledKeys tail = [run.keyAt k] ∧ run.HasKey k
  calls : tracedCalls tail = (calledKeys tail).map fun _ => run.eventAt k
  obtained : obtainedKeys tail = calledKeys tail
  sampled : samples tail = []
  succeeded : successes tail = 0
  paced : ∀ trace, InStep run k trace → Paced (trace ++ tail)
  stops : ∀ e ∈ tail.dropLast, failed e = false
  only_bench : ∀ e ∈ tail, allowed run.bench e = true

theorem lastEvents_nil (run : Ready K Db) (k : Nat) : LastEvents run k [] where
  called := Or.inl rfl
  calls := rfl
  obtained := rfl
  sampled := rfl
  succeeded := rfl
  paced trace h := by simpa only [List.append_nil] using h.paced
  stops := by simp
  only_bench := by simp

theorem lastEvents_refused (run : Ready K Db) (k : Nat) (buf : Bytes) :
    LastEvents run k [EngineEvent.next 1 buf] where
  called := Or.inl rfl
  calls := rfl
  obtained := rfl
  sampled := rfl
  succeeded := rfl
  paced trace h := paced_concat h.paced (fun _ => h.even)
  stops := by simp
  only_bench := by simp

theorem lastEvents_failed (key : run.HasKey k) (failed : run.rcAt k ≠ 0) :
    LastEvents run k [EngineEvent.next 0 (run.keyAt k), run.eventAt k] where
  called := Or.inr ⟨by simp [calledKeys, List.filterMap_cons], key⟩
  calls := by simp [tracedCalls, calledKeys, List.filterMap_cons]
  obtained := by simp [obtainedKeys, calledKeys, List.filterMap_cons]
  sampled := by simp [samples, List.filterMap_cons]
  succeeded := by simp [successes, failed]
  paced _ h := h.paced_call
  stops := by simp
  only_bench := by simp

variable [FloorSemiring K]

/-- What the plugin is asked for the keys of a trace, from the opened database on. -/
def answers (run : Ready K Db) (trace : List (EngineEvent K)) : List (EngineEvent K) × Db :=
  pluginCalls run.session.plugin.pif run.bench run.session.valbuf run.session.state.db
    (calledKeys trace)

/-- The run as seen from outside, when it ends in the state `s`. -/
structure RunsInOrder (run : Ready K Db) (s : BenchState K Db) : Prop where
  consecutive : calledKeys s.trace =
    blocks run.keyLen (calledKeys s.trace).length run.file.bytes
  whole_keys : run.keyLen * (calledKeys s.trace).length ≤ run.file.bytes.length
  one_call_per_key : obtainedKeys s.trace = calledKeys s.trace
  only_bench : ∀ e ∈ s.trace, allowed run.bench e = true
  answered : tracedCalls s.trace = (answers run s.trace).1
  database : s.db = (answers run s.trace).2 ∨
    s.db = run.session.plugin.pif.close (answers run s.trace).2
  at_most : (calledKeys s.trace).length ≤ run.count
  goes_on : (calledKeys s.trace).length = run.count ∨
    run.file.bytes.length ≤ run.keyLen * ((calledKeys s.trace).length + 1) ∨
      ∃ e ∈ s.trace, (calledKey e).isSome = true ∧ failed e = true
  stops : ∀ e ∈ s.trace.dropLast, failed e = false
  paced : Paced s.trace
  received : s.hist = (samples s.trace).foldl nbHistogramAdd run.session.state.hist
  hist_size : s.hist.size = successes s.trace
  returns_zero : run.result.rc = some 0 ↔ successes s.trace = run.count
  exact_calls : run.result.rc = some 0 → (calledKeys s.trace).length = run.count

/-- Every key that arrived was passed to the plugin, and these are the first
`m` keys of the file. -/
structure KeysObtained (run : Ready K Db) (m : Nat) (trace : List (EngineEvent K)) : Prop where
  obtained : obtainedKeys trace = blocks run.keyLen m run.file.bytes
  called : calledKeys trace = blocks run.keyLen m run.file.bytes
  calls : tracedCalls trace = (List.range m).map run.eventAt
  held : ∀ i, i < m → run.HasKey i
  only_bench : ∀ e ∈ trace, allowed run.bench e = true

omit [FloorSemiring K] in
theorem KeysObtained.called_length {m : Nat} {trace : List (EngineEvent K)}
    (keys : KeysObtained run m trace) : (calledKeys trace).length = m := by
  rw [keys.called, length_blocks]

omit [FloorSemiring K] in
theorem keysObtained_append {tail : List (EngineEvent K)} (before : ∀ i, i < k → run.RoundOk i)
    (last : LastEvents run k tail) :
    KeysObtained run (k + (calledKeys tail).length) (run.traceAt k ++ tail) := by
  have inStep := inStep_traceAt run before
  have keys : blocks run.keyLen k run.file.bytes ++ calledKeys tail =
      blocks run.keyLen (k + (calledKeys tail).length) run.file.bytes := by
    rcases last.called with none | ⟨one, _⟩
    · rw [none, List.append_nil, List.length_nil, Nat.add_zero]
    · rw [one, List.length_singleton, blocks_succ, Ready.keyAt]
  constructor
  · rw [obtainedKeys_append, inStep.obtained, last.obtained, keys]
  · rw [calledKeys_append, inStep.called, keys]
  · rw [tracedCalls_append, inStep.calls, last.calls]
    rcases last.called with none | ⟨one, _⟩
    · rw [none, List.map_nil, List.append_nil, List.length_nil, Nat.add_zero]
    · rw [one, List.length_singleton, List.range_succ, List.map_append]
      rfl
  · intro i hi
    rcases last.called with none | ⟨one, key⟩
    · rw [none, List.length_nil] at hi
      exact (before i hi).key
    · rw [one, List.length_singleton] at hi
      exact key.earlier (by omega)
  · intro e he
    exact (List.mem_append.mp he).elim (inStep.only_bench e) (last.only_bench e)

omit [FloorSemiring K] in
theorem KeysObtained.whole {m : Nat} {trace : List (EngineEvent K)}
    (keys : KeysObtained run m trace) : run.keyLen * m ≤ run.file.bytes.length := by
  cases m with
  | zero => exact Nat.zero_le _
  | succ m => exact Nat.le_of_lt (keys.held m (Nat.lt_succ_self m))

/-- Why a run makes no further call behind `m` ones. -/
structure EndsFor (run : Ready K Db) (m : Nat) (tail : List (EngineEvent K)) : Prop where
  at_most : m ≤ run.count
  reason : m = run.count ∨ ¬ run.HasKey m ∨
    ∃ e ∈ tail, (calledKey e).isSome = true ∧ failed e = true

/-- Where a run stops, and what it returns. -/
theorem run_stops (run : Ready K Db) :
    ∃ k tail, run.Stopped k tail ∧ LastEvents run k tail ∧ k ≤ run.count ∧
      EndsFor run (k + (calledKeys tail).length) tail ∧ (run.result.rc = some 0 → tail = []) ∧
      (0 < run.count → (run.result.rc = some 0 ↔ k = run.count)) := by
  rcases run.ending with ⟨_, stopped, hrc, _⟩ | ⟨zero, stopped, _⟩ |
    ⟨k, buf, hk, short, stopped, hrc, _⟩ | ⟨k, hk, key, bad, stopped, hrc, _⟩
  · exact ⟨_, _, stopped, lastEvents_nil run _, Nat.le_refl _, ⟨Nat.le_refl _, Or.inl rfl⟩,
      fun _ => rfl, fun _ => iff_of_true hrc rfl⟩
  · exact ⟨_, _, stopped, lastEvents_nil run _, Nat.zero_le _, ⟨Nat.zero_le _, Or.inl zero.symm⟩,
      fun _ => rfl, fun positive => absurd zero (Nat.ne_of_gt positive)⟩
  · have nonzero : run.result.rc ≠ some 0 := by
      rw [hrc]
      decide
    exact ⟨_, _, stopped, lastEvents_refused run k buf, Nat.le_of_lt hk,
      ⟨Nat.le_of_lt hk, Or.inr (Or.inl short)⟩, fun h => absurd h nonzero,
      fun _ => iff_of_false nonzero (Nat.ne_of_lt hk)⟩
  · have nonzero : run.result.rc ≠ some 0 := by
      rw [hrc]
      cases run.bench <;> decide
    have one : (calledKeys [EngineEvent.next 0 (run.keyAt k), run.eventAt k]).length = 1 := by
      simp [calledKeys, List.filterMap_cons]
    refine ⟨_, _, stopped, lastEvents_failed key bad, Nat.le_of_lt hk, ⟨by omega, ?_⟩,
      fun h => absurd h nonzero, fun _ => iff_of_false nonzero (Nat.ne_of_lt hk)⟩
    exact Or.inr (Or.inr ⟨run.eventAt k, by simp, by simp, by simp [bad]⟩)

/-- Only the last call of a run can have failed. -/
theorem earlier_calls_ok (run : Ready K Db) :
    ∃ s, run.result.final = some s ∧
      ∀ i, i + 1 < (calledKeys s.trace).length → i < run.count ∧ run.RoundOk i := by
  obtain ⟨k, tail, ⟨before, s, hfinal, trace, _⟩, last, hk, _⟩ := run_stops run
  refine ⟨s, hfinal, ?_⟩
  intro i hi
  rw [trace, (keysObtained_append before last).called_length] at hi
  have earlier : i < k := by
    rcases last.called with none | ⟨one, _⟩
    · rw [none, List.length_nil] at hi
      omega
    · rw [one, List.length_singleton] at hi
      omega
  exact ⟨Nat.lt_of_lt_of_le earlier hk, before i earlier⟩

/-- The keys of a run, and why there are no more of them. -/
theorem keysObtained (run : Ready K Db) :
    ∃ s m, run.result.final = some s ∧ KeysObtained run m s.trace ∧ m ≤ run.count ∧
      (m = run.count ∨ ¬ run.HasKey m ∨
        ∃ e ∈ s.trace, (calledKey e).isSome = true ∧ failed e = true) := by
  obtain ⟨k, tail, ⟨before, s, hfinal, trace, _⟩, last, _, ⟨hle, reason⟩, _⟩ := run_stops run
  refine ⟨s, _, hfinal, trace ▸ keysObtained_append before last, hle, ?_⟩
  rcases reason with all | short | ⟨e, he, call, bad⟩
  · exact Or.inl all
  · exact Or.inr (Or.inl short)
  · refine Or.inr (Or.inr ⟨e, ?_, call, bad⟩)
    rw [trace]
    exact List.mem_append_right _ he

omit [FloorSemiring K] in
/-- The loop leaves the database as its plugin calls have made it. -/
theorem loop_db (run : Ready K Db) {t : BenchState K Db} {exit : Option LoopExit}
    (hloop : benchLoop run.calls run.opts run.bench run.session = (t, exit)) :
    t.db = run.dbAt (calledKeys t.trace).length := by
  have hrun : BoundedLoop.run run.step run.count run.session.state = (t, exit) := hloop
  have rounds_length : ∀ {k s}, BoundedLoop.Rounds run.step k run.session.state s →
      (calledKeys s.trace).length = k := by
    intro k s rounds
    obtain ⟨before, reached⟩ := Ready.rounds_reached rounds
    rw [reached.trace_eq, (inStep_traceAt run before).called, length_blocks]
  rcases BoundedLoop.run_cases run.step run.count run.session.state with
    ⟨s, rounds, hend⟩ | ⟨k, s, u, e, _, rounds, last, hend⟩
  · cases hend.symm.trans hrun
    rw [rounds_length rounds]
    exact (Ready.rounds_reached rounds).2.db_eq
  · cases hend.symm.trans hrun
    obtain ⟨before, reached⟩ := Ready.rounds_reached rounds
    have hk := rounds_length rounds
    by_cases key : run.HasKey k
    · have db := Ready.step_db reached key
      rw [last] at db
      by_cases ok : run.rcAt k = 0
      · obtain ⟨v, hv, _⟩ := Ready.step_ok reached ⟨key, ok⟩
        cases hv.symm.trans last
      · obtain ⟨v, hv, trace, _⟩ := Ready.step_callFailed reached key ok
        cases hv.symm.trans last
        rw [reached.trace_eq] at hk
        have length : (calledKeys t.trace).length = k + 1 := by
          rw [trace, calledKeys_append, List.length_append, hk]
          simp [calledKeys, List.filterMap_cons]
        rw [length]
        exact db
    · cases (Ready.step_outOfKeys reached key).symm.trans last
      rw [calledKeys_append, List.length_append, hk]
      exact reached.db_eq

/-- The database at the end of a run, closed or not. -/
theorem final_db (run : Ready K Db) {s : BenchState K Db} (hfinal : run.result.final = some s) :
    s.db = run.dbAt (calledKeys s.trace).length ∨
      s.db = run.session.plugin.pif.close (run.dbAt (calledKeys s.trace).length) := by
  have hloop := @loop_db K Db _ _ _ run
  rw [Ready.result, nbEngineRun, run.setup] at hfinal
  dsimp only at hfinal
  generalize benchLoop run.calls run.opts run.bench run.session = loop at hfinal hloop
  obtain ⟨t, exit⟩ := loop
  have ended := hloop rfl
  cases exit with
  | none =>
    dsimp only at hfinal
    split at hfinal
    · cases hfinal
      exact Or.inl ended
    · cases hfinal
      exact Or.inr (congrArg _ ended)
  | some exit =>
    cases exit with
    | fault fault =>
      cases hfinal
      exact Or.inl ended
    | nextFailed =>
      cases hfinal
      exact Or.inl ended
    | selectFailed =>
      cases hfinal
      exact Or.inl ended
    | replaceFailed =>
      cases hfinal
      exact Or.inr (congrArg _ ended)

theorem runsInOrder_of_stopped {tail : List (EngineEvent K)} (stopped : run.Stopped k tail)
    (last : LastEvents run k tail) (zero : run.result.rc = some 0 ↔ k = run.count)
    (nothing : run.result.rc = some 0 → tail = [])
    (ends : EndsFor run (k + (calledKeys tail).length) tail) :
    ∃ s, run.result.final = some s ∧ RunsInOrder run s := by
  obtain ⟨before, s, hfinal, trace, hist⟩ := stopped
  have inStep := inStep_traceAt run before
  have keys := keysObtained_append before last
  rw [← trace] at keys
  have succeeded : successes s.trace = k := by
    rw [trace, successes_append, inStep.succeeded, last.succeeded, Nat.add_zero]
  have asked : answers run s.trace =
      ((List.range (k + (calledKeys tail).length)).map run.eventAt,
        run.dbAt (k + (calledKeys tail).length)) := by
    rw [answers, keys.called, pluginCalls_blocks]
  refine ⟨s, hfinal, ?_, ?_, ?_, keys.only_bench, ?_, ?_, ?_, ?_, ?_, ?_, ?_, ?_, ?_, ?_⟩
  · rw [keys.called_length, keys.called]
  · rw [keys.called_length]
    exact keys.whole
  · rw [keys.obtained, keys.called]
  · rw [keys.calls, asked]
  · rw [asked, ← keys.called_length]
    exact final_db run hfinal
  · rw [keys.called_length]
    exact ends.at_most
  · rw [keys.called_length]
    rcases ends.reason with all | short | ⟨e, he, call, bad⟩
    · exact Or.inl all
    · exact Or.inr (Or.inl (Nat.le_of_not_lt short))
    · refine Or.inr (Or.inr ⟨e, ?_, call, bad⟩)
      rw [trace]
      exact List.mem_append_right _ he
  · intro e he
    rw [trace] at he
    by_cases hnil : tail = []
    · rw [hnil, List.append_nil] at he
      exact inStep.none_failed e (List.mem_of_mem_dropLast he)
    · rw [List.dropLast_append_of_ne_nil hnil] at he
      exact (List.mem_append.mp he).elim (inStep.none_failed e) (last.stops e)
  · rw [trace]
    exact last.paced _ inStep
  · rw [hist, trace, samples_append, inStep.sampled, last.sampled, List.append_nil,
      List.foldl_map, Ready.histAt]
  · rw [hist, Ready.histAt_size, succeeded]
  · rw [succeeded]
    exact zero
  · intro hrc
    rw [keys.called_length, nothing hrc]
    exact zero.mp hrc

/-- Every run whose setup succeeded asks the plugin for the blocks of the keys
file one after the other, goes on until `count` calls are made, no key is left or
a call has failed, and returns zero exactly after `count` successful calls. -/
theorem runsInOrder (run : Ready K Db) (positive : 0 < run.count) :
    ∃ s, run.result.final = some s ∧ RunsInOrder run s := by
  obtain ⟨k, tail, stopped, last, _, ends, nothing, zero⟩ := run_stops run
  exact runsInOrder_of_stopped stopped last (zero positive) nothing ends

theorem runsInOrder_small_put :
    ∃ s, (smallRun .put 0 0 2).result.final = some s ∧ RunsInOrder (smallRun .put 0 0 2) s :=
  runsInOrder (smallRun .put 0 0 2) (by decide)

end RunTrace
