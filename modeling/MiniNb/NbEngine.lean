import MiniNb.NbHistogram
import MiniNb.NbPlugin
import MiniNb.NbRandom
import Mathlib.Algebra.Order.Ring.Unbundled.Rat

/-!
# The benchmark engine

The translation of `nb_engine.c`. One run loads a plugin, opens the database,
allocates two buffers, maps the keys file and makes a histogram, then asks for
one key and makes one plugin call in each of `count` rounds.

Everything outside is an input: the heap, the linker, the keys file, the clock.
The result keeps what can be observed from outside: the return code, the order
of acquisitions and releases, and the events of the loop. A run whose report
fails its assertion does not return.
-/

namespace MiniNb

open ExactDouble ResourceLedger

universe u v

inductive NbBenchType where
  | get
  | put
  deriving DecidableEq

structure NbOpts where
  keyLen : UInt64
  valLen : UInt64
  reportInterval : UInt64
  count : UInt64
  path : String
  driver : String
  keysFilename : String

/-- What the environment answers during one run. -/
structure EngineCalls (K : Type u) (Db : Type v) where
  loader : PluginLoader Db
  keyHeap : Option (Nat → UInt8)
  valHeap : Option (Nat → UInt8)
  keysFile : String → FileCalls
  histHeap : Option (NbHistogram K)
  clock : Nat → K

/-- The calls of the loop, with what they were given and what they returned. -/
inductive EngineEvent (K : Type u) where
  | next (rc : Int) (keybuf : Bytes)
  | select (key : Bytes) (rc : Int)
  | replace (key val : Bytes) (rc : Int)
  | sample (td : Dbl K)

inductive LoopExit where
  | fault (f : Fault)
  | nextFailed
  | selectFailed
  | replaceFailed
  deriving DecidableEq

structure BenchState (K : Type u) (Db : Type v) where
  random : NbRandom
  keybuf : Bytes
  db : Db
  hist : NbHistogram K
  prevCount : Nat
  totalCount : Nat
  clockCalls : Nat
  trace : List (EngineEvent K)
  stderr : List String

/-! The cleanup labels: each one falls through to the next lower one. -/

def error1 : Log := []

def error2 : Log := nbPluginUnload ++ error1

def error3 : Log := .release .db :: error2

def error4 : Log := .release .keybuf :: error3

def error5 : Log := .release .valbuf :: error4

def error6 (calls : FileCalls) : Log := nbRandomDestroy calls ++ error5

variable {K : Type u} [Field K] [LinearOrder K] [IsStrictOrderedRing K] {Db : Type v}

/-- A setup that succeeded: what it acquired and the state before the loop. -/
structure Session (K : Type u) (Db : Type v) where
  plugin : NbPlugin Db
  valbuf : Bytes
  log : Log
  state : BenchState K Db

structure SetupFailure where
  rc : Int
  log : Log
  stderr : List String

def dbPath (opts : NbOpts) : String := snprintf (pathMax - 1) (opts.path ++ "/" ++ opts.driver)

/-- Everything before the loop. `rc` is 1 until the plugin is loaded, then 2. -/
def engineSetup (calls : EngineCalls K Db) (opts : NbOpts) :
    Except SetupFailure (Session K Db) :=
  let load := nbPluginLoad calls.loader opts.driver
  let file := calls.keysFile opts.keysFilename
  match load.plugin with
  | none => .error ⟨1, load.log ++ error1,
      load.stderr ++ ["Driver '" ++ opts.driver ++ "' is not found!\n"]⟩
  | some plugin =>
    match plugin.pif.open_ ⟨dbPath opts⟩ with
    | none => .error ⟨2, load.log ++ error2, ["driver::new failed\n"]⟩
    | some db =>
      let log := load.log ++ [.acquire .db]
      match malloc calls.keyHeap opts.keyLen with
      | none => .error ⟨2, log ++ error3, ["key malloc failed\n"]⟩
      | some keybuf =>
        let log := log ++ [.acquire .keybuf]
        match malloc calls.valHeap opts.valLen with
        | none => .error ⟨2, log ++ error4, ["val malloc failed\n"]⟩
        | some valbuf =>
          let log := log ++ [.acquire .valbuf]
          match nbRandomCreate file with
          | (_, none, created) => .error ⟨2, log ++ created ++ error5,
              ["random_create failed\n", "Please generate random file using dd:\n" ++
                "dd if=/dev/urandom of=keys.bin bs=1M count=100\n"]⟩
          | (_, some random, created) =>
            let log := log ++ created
            match nbHistogramNew calls.histHeap 6 with
            | none => .error ⟨2, log ++ error6 file, ["nb_histogram_new() failed\n"]⟩
            | some hist => .ok
                { plugin := plugin
                  valbuf := valbuf
                  log := log ++ [.acquire .histogram]
                  state :=
                    { random := random, keybuf := keybuf, db := db, hist := hist
                      prevCount := 0, totalCount := 0, clockCalls := 0
                      trace := [], stderr := ["Benchmarking..."] } }

/-- The `switch` on the benchmark type: return code, event, database afterwards. -/
def benchCall (pif : NbDbIf Db) (bench : NbBenchType) (db : Db) (key val : Bytes) :
    Int × EngineEvent K × Db :=
  match bench with
  | .get =>
    let (rc, _, db) := pif.select db key false
    (rc, .select key rc, db)
  | .put =>
    let (rc, db) := pif.replace db key val
    (rc, .replace key val rc, db)

def callFailed : NbBenchType → LoopExit
  | .get => .selectFailed
  | .put => .replaceFailed

/-- The progress report at the end of a round, before and after the `continue`. -/
def reportProgress (opts : NbOpts) (s : BenchState K Db) : BenchState K Db :=
  let s := { s with prevCount := s.prevCount + 1, totalCount := s.totalCount + 1 }
  if s.prevCount < opts.reportInterval.toNat then s
  else
    { s with
      prevCount := 0
      stderr := s.stderr ++ ["\r" ++ toString s.totalCount ++ " ops done..."] }

omit [Field K] [LinearOrder K] [IsStrictOrderedRing K] in
theorem reportProgress_db (opts : NbOpts) (s : BenchState K Db) :
    (reportProgress opts s).db = s.db := by
  rw [reportProgress]
  dsimp only
  split
  · rfl
  · rfl

def benchStep (calls : EngineCalls K Db) (opts : NbOpts) (bench : NbBenchType)
    (pif : NbDbIf Db) (valbuf : Bytes) (s : BenchState K Db) :
    BenchState K Db × Option LoopExit :=
  match nbRandomNext s.random s.keybuf opts.keyLen with
  | .error f => (s, some (.fault f))
  | .ok (r, random, keybuf) =>
    let s := { s with
      random := random, keybuf := keybuf, trace := s.trace ++ [EngineEvent.next r keybuf] }
    if r ≠ 0 then ({ s with stderr := s.stderr ++ ["random_next failed\n"] }, some .nextFailed)
    else
      let t0 : Dbl K := .fin (calls.clock s.clockCalls)
      let (rc, event, db) := benchCall pif bench s.db keybuf valbuf
      let s := { s with db := db, trace := s.trace ++ [event] }
      if rc ≠ 0 then ({ s with clockCalls := s.clockCalls + 1 }, some (callFailed bench))
      else
        let t1 : Dbl K := .fin (calls.clock (s.clockCalls + 1))
        let td := t1 - t0
        let s := { s with
          clockCalls := s.clockCalls + 2
          hist := nbHistogramAdd s.hist td
          trace := s.trace ++ [EngineEvent.sample td] }
        (reportProgress opts s, none)

def benchLoop (calls : EngineCalls K Db) (opts : NbOpts) (bench : NbBenchType)
    (session : Session K Db) : BenchState K Db × Option LoopExit :=
  BoundedLoop.run (benchStep calls opts bench session.plugin.pif session.valbuf)
    opts.count.toNat session.state

def enginePercentiles : List (Dbl K) :=
  [0.05, 0.50, 0.95, 0.96, 0.97, 0.98, 0.99, 0.995, 0.999, 0.9995, 0.9999].map .fin

/-- `rc` is missing when the process ended inside the run. `stderr` has the lines
of `nb_engine_run` and `nb_plugin_load`, without those of a driver or of `perror`. -/
structure EngineResult (K : Type u) (Db : Type v) where
  rc : Option Int
  log : Log
  final : Option (BenchState K Db)
  report : Option (Report K)
  stderr : List String

/-- The releases on the way from the report to `return 0`. -/
def finish (calls : FileCalls) : Log :=
  [.release .db, .release .histogram] ++ nbRandomDestroy calls ++
    [.release .valbuf, .release .keybuf] ++ nbPluginUnload

def nbEngineRun [FloorSemiring K] (calls : EngineCalls K Db) (opts : NbOpts)
    (bench : NbBenchType) : EngineResult K Db :=
  let file := calls.keysFile opts.keysFilename
  match engineSetup calls opts with
  | .error failure =>
    { rc := some failure.rc, log := failure.log, final := none, report := none
      stderr := failure.stderr }
  | .ok session =>
    let close := session.plugin.pif.close
    match benchLoop calls opts bench session with
    | (s, some (.fault _)) =>
      { rc := none, log := session.log, final := some s, report := none, stderr := s.stderr }
    | (s, some .nextFailed) =>
      { rc := some 1, log := session.log, final := some s, report := none, stderr := s.stderr }
    | (s, some .selectFailed) =>
      { rc := some 1, log := session.log, final := some s, report := none
        stderr := s.stderr ++ ["Select failed :(\n"] }
    | (s, some .replaceFailed) =>
      { rc := some 2, log := session.log ++ error5
        final := some { s with db := close s.db }, report := none
        stderr := s.stderr ++ ["Replace failed :(\n"] }
    | (s, none) =>
      let stderr := s.stderr ++ ["\r" ++ toString opts.count.toNat ++ " ops done...\n"]
      match nbHistogramDump s.hist enginePercentiles with
      | none => { rc := none, log := session.log, final := some s, report := none, stderr := stderr }
      | some report =>
        { rc := some 0, log := session.log ++ finish file
          final := some { s with db := close s.db }, report := some report, stderr := stderr }

end MiniNb
