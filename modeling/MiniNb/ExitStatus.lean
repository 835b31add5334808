import MiniNb.RunTrace
import MiniNb.ShuffleOutcomes

/-!
# The exit status of the program

A benchmark exits with zero exactly when the setup finds everything it needs,
the count is positive, the keys file is longer than the keys asked for and every
plugin call succeeds. A shuffle exits with zero when the file can be mapped and
given back, and it also does so when the file holds no key at all. The process
ends in the middle for a zero count, by an assertion, or for a zero key size, but
only behind a setup that succeeds. Every other run reports a failure. The calls
into a plugin return here, and assertions are compiled in.
-/

namespace ExitStatus

open MiniNb BlockMemory KeyReading EngineRun ShuffleOutcomes

universe u v

/-! ## Shuffling -/

/-- What the shuffle needs to succeed. A file shorter than one key is left alone. -/
structure ShuffleSucceeds (calls : ShuffleCalls) (opts : NbOpts) : Prop where
  maps : Maps calls.file
  unmaps : Unmaps calls.file
  sized : opts.keyLen ≠ 0
  shuffled : calls.file.content.bytes.length < opts.keyLen.toNat ∨
    (opts.count ≠ 0 ∧ calls.mallocOk = true ∧ calls.msyncOk = true)

/-- Where the shuffle divides by zero. -/
structure ShuffleCrashes (calls : ShuffleCalls) (opts : NbOpts) : Prop where
  maps : Maps calls.file
  zero : opts.keyLen = 0 ∨ (opts.keyLen.toNat ≤ calls.file.content.bytes.length ∧
    opts.count = 0 ∧ calls.mallocOk = true)

/-- The ways in which `action_shuffle` ends. -/
inductive ShuffleEnds (calls : ShuffleCalls) (opts : NbOpts) : Except Fault Int → Prop where
  | shuffled : ShuffleSucceeds calls opts → ¬ ShuffleCrashes calls opts → ShuffleEnds calls opts (.ok 0)
  | crashed : ¬ ShuffleSucceeds calls opts → ShuffleCrashes calls opts →
      ShuffleEnds calls opts (.error .divisionByZero)
  | failed : ¬ ShuffleSucceeds calls opts → ¬ ShuffleCrashes calls opts →
      ShuffleEnds calls opts (.ok (-1))

section ShuffleEnds
variable {calls : ShuffleCalls} {opts : NbOpts}

theorem ends_returned {result : ShuffleResult}
    (hresult : nbRandomShuffle calls opts.keyLen opts.count = .ok result)
    (rc : result.rc = 0 ↔ ShuffleSucceeds calls opts) (safe : ¬ ShuffleCrashes calls opts) :
    ShuffleEnds calls opts (actionShuffle calls opts) := by
  rw [actionShuffle, hresult]
  dsimp only
  by_cases zero : result.rc = 0
  · rw [if_neg (fun h => h zero)]
    exact .shuffled (rc.mp zero) safe
  · rw [if_pos zero]
    exact .failed (fun ok => zero (rc.mpr ok)) safe

theorem ends_crashed
    (hfault : nbRandomShuffle calls opts.keyLen opts.count = .error .divisionByZero)
    (failed : ¬ ShuffleSucceeds calls opts) (crash : ShuffleCrashes calls opts) :
    ShuffleEnds calls opts (actionShuffle calls opts) := by
  rw [actionShuffle, hfault]
  exact .crashed failed crash

theorem shuffle_ends (calls : ShuffleCalls) (opts : NbOpts) :
    ShuffleEnds calls opts (actionShuffle calls opts) := by
  have ends := KeyShuffling.ends calls opts.keyLen opts.count
  generalize hshuffle : nbRandomShuffle calls opts.keyLen opts.count = returned at ends
  cases ends with
  | unmapped log unmapped =>
    apply ends_returned hshuffle
    · exact ⟨fun zero => absurd zero (by decide : ¬ (-1 : Int) = 0),
        fun ok => absurd ok.maps unmapped⟩
    · exact fun crash => unmapped crash.maps
  | noSize maps zero =>
    exact ends_crashed hshuffle (fun ok => ok.sized zero) ⟨maps, Or.inl zero⟩
  | noKey maps sized short =>
    apply ends_returned hshuffle
    · dsimp only
      split
      · rename_i closes
        exact ⟨fun _ => ⟨maps, (close_zero_iff _).mp closes, sized, Or.inl short⟩, fun _ => rfl⟩
      · rename_i closes
        exact ⟨fun zero => absurd zero (by decide),
          fun ok => absurd ((close_zero_iff _).mpr ok.unmaps) closes⟩
    · intro crash
      exact absurd (crash.zero.resolve_left sized).1 (Nat.not_le_of_lt short)
  | noBuffer maps sized holds unbuffered =>
    apply ends_returned hshuffle
    · refine ⟨fun zero => absurd zero (by decide : ¬ (-2 : Int) = 0), fun ok => ?_⟩
      obtain ⟨_, buffered, _⟩ := ok.shuffled.resolve_left (Nat.not_lt_of_le holds)
      rw [unbuffered] at buffered
      cases buffered
    · intro crash
      obtain ⟨_, _, buffered⟩ := crash.zero.resolve_left sized
      rw [unbuffered] at buffered
      cases buffered
  | noCount maps sized holds buffered zero =>
    refine ends_crashed hshuffle (fun ok => ?_) ⟨maps, Or.inr ⟨holds, zero, buffered⟩⟩
    exact (ok.shuffled.resolve_left (Nat.not_lt_of_le holds)).1 zero
  | shuffled content maps sized holds buffered counted arranged =>
    apply ends_returned hshuffle
    · dsimp only
      split
      · rename_i done
        refine ⟨fun _ => ?_, fun _ => rfl⟩
        exact ⟨maps, (close_zero_iff _).mp done.2, sized, Or.inr ⟨counted, buffered, done.1⟩⟩
      · rename_i failed
        refine ⟨fun zero => absurd zero (by decide), fun ok => ?_⟩
        have entered := ok.shuffled.resolve_left (Nat.not_lt_of_le holds)
        exact absurd ⟨entered.2.2, (close_zero_iff _).mpr ok.unmaps⟩ failed
    · exact fun crash => counted (crash.zero.resolve_left sized).2.1

end ShuffleEnds

/-! ## Benchmarking -/

variable {K : Type u} [Field K] [LinearOrder K] [IsStrictOrderedRing K] {Db : Type v}

/-- What the setup of a benchmark needs. -/
structure SetsUp (calls : EngineCalls K Db) (opts : NbOpts) (plugin : NbPlugin Db) (db : Db)
    (val : Bytes) : Prop where
  loaded : (nbPluginLoad calls.loader opts.driver).plugin = some plugin
  opened : plugin.pif.open_ ⟨dbPath opts⟩ = some db
  keybuf : calls.keyHeap ≠ none
  valbuf : malloc calls.valHeap opts.valLen = some val
  maps : Maps (calls.keysFile opts.keysFilename)
  advised : (calls.keysFile opts.keysFilename).madviseOk = true
  histogram : calls.histHeap ≠ none

/-- What the plugin answers to a call, after calls with the keys before it. -/
def answer (pif : NbDbIf Db) (bench : NbBenchType) (db : Db) (val : Bytes) (before : List Bytes)
    (key : Bytes) : Int :=
  let after := before.foldl (fun db key => (benchCall (K := ℚ) pif bench db key val).2.2) db
  (benchCall (K := ℚ) pif bench after key val).1

/-- What a benchmark needs to succeed. -/
structure Benchmarks (calls : EngineCalls K Db) (opts : NbOpts) (bench : NbBenchType)
    (plugin : NbPlugin Db) (db : Db) (val : Bytes) : Prop where
  ready : SetsUp calls opts plugin db val
  counted : opts.count ≠ 0
  keys : opts.keyLen.toNat * opts.count.toNat <
    (calls.keysFile opts.keysFilename).content.bytes.length
  answers : ∀ k, k < opts.count.toNat →
    answer plugin.pif bench db val
      (blocks opts.keyLen.toNat k (calls.keysFile opts.keysFilename).content.bytes)
      (block opts.keyLen.toNat k (calls.keysFile opts.keysFilename).content.bytes) = 0

omit [Field K] [LinearOrder K] [IsStrictOrderedRing K] in
/-- Whether a call succeeds does not depend on the type of the samples. -/
theorem benchCall_indep (pif : NbDbIf Db) (bench : NbBenchType) (db : Db) (key val : Bytes) :
    (benchCall (K := K) pif bench db key val).1 = (benchCall (K := ℚ) pif bench db key val).1 ∧
      (benchCall (K := K) pif bench db key val).2.2 =
        (benchCall (K := ℚ) pif bench db key val).2.2 := by
  cases bench with
  | get => exact ⟨rfl, rfl⟩
  | put => exact ⟨rfl, rfl⟩

section Setup
variable {calls : EngineCalls K Db} {opts : NbOpts}

theorem create_iff {file : FileCalls} :
    (nbRandomCreate file).2.1.isSome = true ↔ Maps file ∧ file.madviseOk = true := by
  rcases create_cases file with ⟨mapped, hcreate⟩ | ⟨unmapped, r, log, hcreate, _⟩
  · rw [hcreate]
    exact iff_of_true rfl mapped
  · rw [hcreate]
    exact iff_of_false Bool.false_ne_true unmapped

omit [LinearOrder K] [IsStrictOrderedRing K] in
theorem setup_ready {session : Session K Db} (ready : engineSetup calls opts = .ok session) :
    SetsUp calls opts session.plugin session.state.db session.valbuf := by
  have outcome := setup_outcome calls opts
  rw [ready] at outcome
  cases outcome with
  | done _ key created done =>
    obtain ⟨maps, advised⟩ := create_iff.mp created
    obtain ⟨heap, hheap, _⟩ := Option.map_eq_some_iff.mp done.fresh
    refine ⟨done.loaded, done.opened, ?_, done.valbuf_eq, maps, advised, ?_⟩
    · exact Option.isSome_iff_ne_none.mp key
    · rw [hheap]
      exact Option.some_ne_none heap

omit [LinearOrder K] [IsStrictOrderedRing K] in
theorem setup_fails {failure : SetupFailure} (failed : engineSetup calls opts = .error failure)
    {plugin : NbPlugin Db} {db : Db} {val : Bytes} : ¬ SetsUp calls opts plugin db val := by
  intro ready
  have outcome := setup_outcome calls opts
  rw [failed] at outcome
  cases outcome with
  | noPlugin _ none_ _ => exact Option.some_ne_none _ (ready.loaded.symm.trans none_)
  | noDb _ other loaded none_ _ =>
    cases ready.loaded.symm.trans loaded
    exact Option.some_ne_none _ (ready.opened.symm.trans none_)
  | noKeybuf _ none_ _ => exact ready.keybuf none_
  | noValbuf _ none_ _ =>
    have hval := ready.valbuf
    rw [malloc, none_] at hval
    cases hval
  | noReader _ r log hcreate _ =>
    have created := create_iff.mpr ⟨ready.maps, ready.advised⟩
    rw [hcreate] at created
    cases created
  | noHistogram _ none_ _ => exact ready.histogram none_

omit [LinearOrder K] [IsStrictOrderedRing K] in
/-- A setup that fails has a return code of its own. -/
theorem setup_failure_rc {failure : SetupFailure}
    (failed : engineSetup calls opts = .error failure) : failure.rc = 1 ∨ failure.rc = 2 := by
  unfold engineSetup at failed
  dsimp only at failed
  split at failed
  · cases failed
    exact Or.inl rfl
  split at failed
  · cases failed
    exact Or.inr rfl
  split at failed
  · cases failed
    exact Or.inr rfl
  split at failed
  · cases failed
    exact Or.inr rfl
  split at failed
  · cases failed
    exact Or.inr rfl
  split at failed
  · cases failed
    exact Or.inr rfl
  · cases failed

end Setup

omit [Field K] [LinearOrder K] [IsStrictOrderedRing K] in
theorem SetsUp.unique {calls : EngineCalls K Db} {opts : NbOpts} {plugin plugin' : NbPlugin Db}
    {db db' : Db} {val val' : Bytes} (ready : SetsUp calls opts plugin db val)
    (ready' : SetsUp calls opts plugin' db' val') : plugin = plugin' ∧ db = db' ∧ val = val' := by
  cases ready.loaded.symm.trans ready'.loaded
  cases ready.opened.symm.trans ready'.opened
  cases ready.valbuf.symm.trans ready'.valbuf
  exact ⟨rfl, rfl, rfl⟩

section Run
variable (run : Ready K Db)

theorem dbAt_eq (k : Nat) :
    run.dbAt k = (blocks run.keyLen k run.file.bytes).foldl
      (fun db key => (benchCall (K := ℚ) run.session.plugin.pif run.bench db key
        run.session.valbuf).2.2) run.session.state.db := by
  induction k with
  | zero => rfl
  | succ k ih =>
    rw [blocks_succ, List.foldl_append, ← ih]
    exact (benchCall_indep _ _ _ _ _).2

theorem rcAt_eq (k : Nat) :
    run.rcAt k = answer run.session.plugin.pif run.bench run.session.state.db run.session.valbuf
      (blocks run.keyLen k run.file.bytes) (run.keyAt k) := by
  rw [answer, ← dbAt_eq]
  exact (benchCall_indep _ _ _ _ _).1

theorem benchmarks_iff {plugin : NbPlugin Db} {db : Db} {val : Bytes} :
    Benchmarks run.calls run.opts run.bench plugin db val ↔
      SetsUp run.calls run.opts plugin db val ∧ 0 < run.count ∧
        ∀ k, k < run.count → run.RoundOk k := by
  have ready := setup_ready run.setup
  constructor
  · intro ok
    obtain ⟨rfl, rfl, rfl⟩ := ok.ready.unique ready
    refine ⟨ok.ready, UInt64.lt_iff_toNat_lt.mp (UInt64.pos_iff_ne_zero.mpr ok.counted), ?_⟩
    intro k hk
    refine ⟨lt_of_le_of_lt (Nat.mul_le_mul_left _ hk) ok.keys, ?_⟩
    rw [rcAt_eq]
    exact ok.answers k hk
  · rintro ⟨ready', counted, rounds⟩
    obtain ⟨rfl, rfl, rfl⟩ := ready'.unique ready
    refine ⟨ready', ?_, ?_, ?_⟩
    · exact UInt64.pos_iff_ne_zero.mp (UInt64.lt_iff_toNat_lt.mpr counted)
    · have last := (rounds (run.count - 1) (Nat.sub_lt counted Nat.one_pos)).key
      rw [Ready.HasKey, Nat.sub_add_cancel counted] at last
      exact last
    · intro k hk
      have := (rounds k hk).call
      rw [rcAt_eq] at this
      exact this

end Run

variable [FloorSemiring K]

/-- The ways in which a benchmark ends. -/
inductive BenchEnds (calls : EngineCalls K Db) (opts : NbOpts) (bench : NbBenchType) :
    Option Int → Prop where
  | succeeded (plugin : NbPlugin Db) (db : Db) (val : Bytes) :
      Benchmarks calls opts bench plugin db val → BenchEnds calls opts bench (some 0)
  | asserted (plugin : NbPlugin Db) (db : Db) (val : Bytes) :
      SetsUp calls opts plugin db val → opts.count = 0 → BenchEnds calls opts bench none
  | failed (rc : Int) : rc = 1 ∨ rc = 2 →
      (∀ plugin db val, ¬ Benchmarks calls opts bench plugin db val) →
      (∀ plugin db val, SetsUp calls opts plugin db val → opts.count ≠ 0) →
      BenchEnds calls opts bench (some rc)

theorem bench_ends (calls : EngineCalls K Db) (opts : NbOpts) (bench : NbBenchType) :
    BenchEnds calls opts bench (nbEngineRun calls opts bench).rc := by
  cases hsetup : engineSetup calls opts with
  | error failure =>
    have hrc : (nbEngineRun calls opts bench).rc = some failure.rc := by
      rw [nbEngineRun, hsetup]
    rw [hrc]
    exact .failed _ (setup_failure_rc hsetup) (fun _ _ _ ok => setup_fails hsetup ok.ready)
      (fun _ _ _ ready => absurd ready (setup_fails hsetup))
  | ok session =>
    let run : Ready K Db := ⟨calls, opts, bench, session, hsetup⟩
    have broken : ∀ {k}, k < run.count → ¬ run.RoundOk k →
        (∀ plugin db val, ¬ Benchmarks calls opts bench plugin db val) ∧
          (∀ plugin db val, SetsUp calls opts plugin db val → opts.count ≠ 0) := by
      intro k hk bad
      refine ⟨fun plugin db val ok => bad (((benchmarks_iff run).mp ok).2.2 k hk), ?_⟩
      intro _ _ _ _ zero
      have none_ : run.count = 0 := congrArg UInt64.toNat zero
      omega
    rcases run.ending with ⟨counted, stopped, hrc, _⟩ | ⟨zero, _, hrc⟩ |
      ⟨k, buf, hk, short, _, hrc, _⟩ | ⟨k, hk, _, failed, _, hrc, _⟩
    · rw [show (nbEngineRun calls opts bench).rc = some 0 from hrc]
      exact .succeeded _ _ _
        ((benchmarks_iff run).mpr ⟨setup_ready hsetup, counted, stopped.before⟩)
    · rw [show (nbEngineRun calls opts bench).rc = none from hrc]
      exact .asserted _ _ _ (setup_ready hsetup) (UInt64.toNat_inj.mp zero)
    · rw [show (nbEngineRun calls opts bench).rc = some 1 from hrc]
      obtain ⟨fails, counted⟩ := broken hk (fun ok => short ok.key)
      exact .failed 1 (Or.inl rfl) fails counted
    · rw [show (nbEngineRun calls opts bench).rc = some (Ready.failureCode bench) from hrc]
      obtain ⟨fails, counted⟩ := broken hk (fun ok => failed ok.call)
      refine .failed _ ?_ fails counted
      cases bench with
      | get => exact Or.inl rfl
      | put => exact Or.inr rfl

/-! ## The program -/

/-- What an accepted command line needs to succeed. -/
def Succeeds (calls : EngineCalls K Db) (shuffle : String → ShuffleCalls) (opts : NbOpts) :
    NbAction → Prop
  | .get => ∃ plugin db val, Benchmarks calls opts .get plugin db val
  | .put => ∃ plugin db val, Benchmarks calls opts .put plugin db val
  | .shuffle => ShuffleSucceeds (shuffle opts.keysFilename) opts

/-- Where an accepted command line ends the process in the middle. -/
def Crashes (calls : EngineCalls K Db) (shuffle : String → ShuffleCalls) (opts : NbOpts) :
    NbAction → Prop
  | .shuffle => ShuffleCrashes (shuffle opts.keysFilename) opts
  | _ => (∃ plugin db val, SetsUp calls opts plugin db val) ∧ opts.count = 0

/-- What one status tells about an action. -/
structure Tells (status : Option Int) (succeeds crashes : Prop) : Prop where
  zero : status = some 0 ↔ succeeds
  none_ : status = none ↔ crashes
  codes : ∀ rc, status = some rc → rc = 0 ∨ rc = -1 ∨ rc = 1 ∨ rc = 2

theorem bench_tells (calls : EngineCalls K Db) (opts : NbOpts) (bench : NbBenchType) :
    Tells (nbEngineRun calls opts bench).rc
      (∃ plugin db val, Benchmarks calls opts bench plugin db val)
      ((∃ plugin db val, SetsUp calls opts plugin db val) ∧ opts.count = 0) := by
  have ends := bench_ends calls opts bench
  generalize (nbEngineRun calls opts bench).rc = status at ends
  cases ends with
  | succeeded plugin db val ok =>
    refine ⟨⟨fun _ => ⟨plugin, db, val, ok⟩, fun _ => rfl⟩, ⟨nofun, ?_⟩, ?_⟩
    · rintro ⟨_, zero⟩
      exact absurd zero ok.counted
    · rintro _ ⟨⟩
      exact Or.inl rfl
  | asserted plugin db val ready zero =>
    refine ⟨⟨nofun, ?_⟩, ⟨fun _ => ⟨⟨plugin, db, val, ready⟩, zero⟩, fun _ => rfl⟩, nofun⟩
    rintro ⟨_, _, _, ok⟩
    exact absurd zero ok.counted
  | failed rc code fails counted =>
    refine ⟨⟨?_, ?_⟩, ⟨nofun, ?_⟩, ?_⟩
    · rintro ⟨⟩
      rcases code with code | code <;> cases code
    · rintro ⟨plugin, db, val, ok⟩
      exact absurd ok (fails plugin db val)
    · rintro ⟨⟨plugin, db, val, ready⟩, zero⟩
      exact absurd zero (counted plugin db val ready)
    · rintro _ ⟨⟩
      exact Or.inr (Or.inr code)

omit [Field K] [LinearOrder K] [IsStrictOrderedRing K] [FloorSemiring K] in
theorem shuffle_tells (calls : ShuffleCalls) (opts : NbOpts) :
    Tells (match actionShuffle calls opts with
      | .error _ => none
      | .ok rc => some rc) (ShuffleSucceeds calls opts) (ShuffleCrashes calls opts) := by
  have ends := shuffle_ends calls opts
  generalize actionShuffle calls opts = status at ends
  cases ends with
  | shuffled ok safe =>
    refine ⟨⟨fun _ => ok, fun _ => rfl⟩, ⟨nofun, fun crash => absurd crash safe⟩, ?_⟩
    rintro _ ⟨⟩
    exact Or.inl rfl
  | crashed fails crash =>
    exact ⟨⟨nofun, fun ok => absurd ok fails⟩, ⟨fun _ => crash, fun _ => rfl⟩, nofun⟩
  | failed fails safe =>
    refine ⟨⟨nofun, fun ok => absurd ok fails⟩, ⟨nofun, fun crash => absurd crash safe⟩, ?_⟩
    rintro _ ⟨⟩
    exact Or.inr (Or.inl rfl)

theorem accepted_iff {action : NbAction} {opts : NbOpts} {P : NbOpts → NbAction → Prop} :
    (∃ a o, some (action, opts) = some (a, o) ∧ P o a) ↔ P opts action := by
  constructor
  · rintro ⟨a, o, h, hp⟩
    cases h
    exact hp
  · exact fun hp => ⟨action, opts, rfl, hp⟩

/-- The status of the program tells whether the command line was accepted and
its action succeeded, and whether the process ended in the middle. -/
theorem exit_status (calls : EngineCalls K Db) (shuffle : String → ShuffleCalls)
    (args : List (Char × String)) :
    Tells (nbMain calls shuffle args)
      (∃ action opts, mainOptions args = some (action, opts) ∧ Succeeds calls shuffle opts action)
      (∃ action opts, mainOptions args = some (action, opts) ∧
        Crashes calls shuffle opts action) := by
  rw [nbMain]
  cases mainOptions args with
  | none =>
    refine ⟨⟨nofun, nofun⟩, ⟨nofun, nofun⟩, ?_⟩
    rintro _ ⟨⟩
    exact Or.inr (Or.inl rfl)
  | some accepted =>
    obtain ⟨action, opts⟩ := accepted
    rw [accepted_iff (P := Succeeds calls shuffle), accepted_iff (P := Crashes calls shuffle)]
    cases action with
    | get => exact bench_tells calls opts .get
    | put => exact bench_tells calls opts .put
    | shuffle => exact shuffle_tells (shuffle opts.keysFilename) opts

def putArgs : List (Char × String) :=
  [('a', "put"), ('d', "constant"), ('k', "1"), ('v', "1"), ('c', "2")]

def smallCalls : EngineCalls ℚ Unit := workingCalls (constantDriver 0 0) [8, 6, 4] (by decide)

/-- Two keys are put. -/
theorem exit_status_two_puts :
    nbMain smallCalls (fun _ => ShuffleOutcomes.unsynced) putArgs = some 0 ∧
      ∃ action opts, mainOptions putArgs = some (action, opts) ∧
        Succeeds smallCalls (fun _ => ShuffleOutcomes.unsynced) opts action := by
  have zero : nbMain smallCalls (fun _ => ShuffleOutcomes.unsynced) putArgs = some 0 := by
    decide +kernel
  exact ⟨zero, (exit_status smallCalls (fun _ => ShuffleOutcomes.unsynced) putArgs).zero.mp zero⟩

end ExitStatus
