import MiniNb.NbDbSlices
import MiniNb.RunTrace

/-!
# The value buffers of a GET run

A GET run asks for no value, so a buffer that the library hands out with an
answer is the driver's to free. The driver of the second version of nessdb does
so at once. That of cascadedb never does, nor does that of the first version of
nessdb, if this library gives its buffers away: such a run leaves one buffer
behind for each key it found, whichever exit it takes.
-/

namespace ValueBuffers

open MiniNb ResourceLedger EngineRun RunTrace

universe u v

/-- The two drivers, each over its library. -/
inductive SliceDriver (Db : Type v) where
  | nessdb (lib : NessdbLibrary Db)
  | cascadedb (lib : CascadedbLibrary Db)

namespace SliceDriver
variable {Db : Type v}

def plugin : SliceDriver Db → NbDbIf (SliceDb Db)
  | .nessdb lib => nbDbNessdbPlugin lib
  | .cascadedb lib => nbDbCascadedbPlugin lib

/-- The driver is left with a value that the caller does not want. -/
def retains : SliceDriver Db → Bool
  | .nessdb lib => lib.v1GivesBuffer && !lib.v2
  | .cascadedb _ => true

/-- The values that a `select` without a place for them leaves with the driver. -/
def leftBy (retains : Bool) (call : Nat) (rc : Int) : List Nat :=
  if rc = 0 ∧ retains = true then [call] else []

variable (driver : SliceDriver Db)

/-- A `select` is one more call, and leaves these values. -/
theorem select_log (db : SliceDb Db) (key : Bytes) :
    (driver.plugin.select db key false).2.2.calls = db.calls + 1 ∧
    ∃ events, (driver.plugin.select db key false).2.2.log = db.log ++ events ∧
      ∀ held, settle held (ledger events) =
        some (leftBy driver.retains db.calls (driver.plugin.select db key false).1 ++ held) := by
  cases driver with
  | nessdb lib =>
    change (nbDbNessdbSelect lib db key false).2.2.calls = db.calls + 1 ∧
      ∃ events, (nbDbNessdbSelect lib db key false).2.2.log = db.log ++ events ∧
        ∀ held, settle held (ledger events) = some
          (leftBy (lib.v1GivesBuffer && !lib.v2) db.calls (nbDbNessdbSelect lib db key false).1 ++
            held)
    rw [nbDbNessdbSelect]
    dsimp only
    split
    · exact ⟨rfl, [], rfl, fun _ => rfl⟩
    rw [if_neg Bool.false_ne_true]
    cases v2 : lib.v2 with
    | true =>
      refine ⟨rfl, _, rfl, fun held => ?_⟩
      have freed := (settle_passed held db.calls).1
      simpa [leftBy] using freed
    | false =>
      refine ⟨rfl, _, rfl, fun held => ?_⟩
      cases gives : lib.v1GivesBuffer with
      | true => exact settle_received held db.calls
      | false => rfl
  | cascadedb lib =>
    change (nbDbCascadedbSelect lib db key false).2.2.calls = db.calls + 1 ∧
      ∃ events, (nbDbCascadedbSelect lib db key false).2.2.log = db.log ++ events ∧
        ∀ held, settle held (ledger events) =
          some (leftBy true db.calls (nbDbCascadedbSelect lib db key false).1 ++ held)
    rw [nbDbCascadedbSelect]
    dsimp only
    split
    · exact ⟨rfl, [], rfl, fun _ => rfl⟩
    · exact ⟨rfl, _, rfl, fun held => settle_received held db.calls⟩

theorem open_fresh {opts : NbDbOpts} {db : SliceDb Db} (opened : driver.plugin.open_ opts = some db) :
    db.calls = 0 ∧ db.log = [] := by
  cases driver with
  | nessdb lib =>
    change nbDbNessdbOpen lib opts = some db at opened
    unfold nbDbNessdbOpen at opened
    split at opened
    · cases opened
    split at opened
    · cases opened
    · cases opened
      exact ⟨rfl, rfl⟩
  | cascadedb lib =>
    change nbDbCascadedbOpen lib opts = some db at opened
    unfold nbDbCascadedbOpen at opened
    split at opened
    · cases opened
    split at opened
    · cases opened
    · cases opened
      exact ⟨rfl, rfl⟩

/-- Closing deals with no buffer. -/
theorem close_log (db : SliceDb Db) : (driver.plugin.close db).log = db.log := by
  cases driver with
  | nessdb lib => exact List.append_nil _
  | cascadedb lib => exact List.append_nil _

end SliceDriver

section Runs
variable {K : Type u} [Field K] [LinearOrder K] [IsStrictOrderedRing K] {Db : Type v}
variable {driver : SliceDriver Db} {run : Ready K (SliceDb Db)}

/-- The buffers left behind by the first `k` calls, the last one in front. -/
def leftAt (driver : SliceDriver Db) (run : Ready K (SliceDb Db)) : Nat → List Nat
  | 0 => []
  | k + 1 => SliceDriver.leftBy driver.retains k (run.rcAt k) ++ leftAt driver run k

theorem settle_dbAt (loaded : run.session.plugin.pif = driver.plugin) (get : run.bench = .get)
    (k : Nat) : (run.dbAt k).calls = k ∧
      settle [] (ledger (run.dbAt k).log) = some (leftAt driver run k) := by
  induction k with
  | zero =>
    have opened := (setup_done run.setup).opened
    rw [loaded] at opened
    obtain ⟨calls, log⟩ := driver.open_fresh opened
    refine ⟨calls, ?_⟩
    change settle [] (ledger run.session.state.db.log) = _
    rw [log]
    rfl
  | succ k ih =>
    obtain ⟨calls, settled⟩ := ih
    have call : (run.call (run.dbAt k) k).1 =
          (driver.plugin.select (run.dbAt k) (run.keyAt k) false).1 ∧
        (run.call (run.dbAt k) k).2.2 =
          (driver.plugin.select (run.dbAt k) (run.keyAt k) false).2.2 := by
      rw [Ready.call, get, loaded]
      exact ⟨rfl, rfl⟩
    obtain ⟨next, events, log, left⟩ := driver.select_log (run.dbAt k) (run.keyAt k)
    rw [Ready.dbAt, call.2]
    refine ⟨by rw [next, calls], ?_⟩
    rw [log, settle_ledger_append settled, left, ← call.1, calls]
    rfl

theorem leftAt_length (k : Nat) (before : ∀ i, i < k → run.rcAt i = 0) :
    (leftAt driver run k).length = if driver.retains then k else 0 := by
  induction k with
  | zero => simp [leftAt]
  | succ k ih =>
    have ok := before k (Nat.lt_succ_self k)
    rw [leftAt, List.length_append, ih (fun i hi => before i (Nat.lt_succ_of_lt hi)), SliceDriver.leftBy, ok]
    cases driver.retains with
    | true => simp [Nat.add_comm]
    | false => rfl

variable [FloorSemiring K]

/-- The calls of a run are those that succeeded, and at most one more. -/
theorem calls_cases {Db' : Type v} (run : Ready K Db') {s : BenchState K Db'}
    (final : run.result.final = some s) :
    ∃ k, successes s.trace = k ∧ (∀ i, i < k → run.rcAt i = 0) ∧
      ((calledKeys s.trace).length = k ∨
        (calledKeys s.trace).length = k + 1 ∧ run.rcAt k ≠ 0) := by
  have counted : ∀ {k tail}, run.Stopped k tail → (∀ i, i < k → run.rcAt i = 0) ∧
      successes s.trace = k + successes tail ∧
      (calledKeys s.trace).length = k + (calledKeys tail).length := by
    rintro k tail ⟨before, s', hs', trace, _⟩
    cases final.symm.trans hs'
    have inStep := inStep_traceAt run before
    refine ⟨fun i hi => (before i hi).call, ?_, ?_⟩
    · rw [trace, successes_append, inStep.succeeded]
    · rw [trace, calledKeys_append, List.length_append, inStep.called, BlockMemory.length_blocks]
  rcases run.ending with ⟨_, stopped, _⟩ | ⟨_, stopped, _⟩ | ⟨k, buf, _, _, stopped, _⟩ |
    ⟨k, _, key, failed, stopped, _⟩
  · obtain ⟨zero, succeeded, called⟩ := counted stopped
    exact ⟨_, succeeded, zero, Or.inl called⟩
  · obtain ⟨zero, succeeded, called⟩ := counted stopped
    exact ⟨_, succeeded, zero, Or.inl called⟩
  · obtain ⟨zero, succeeded, called⟩ := counted stopped
    exact ⟨_, succeeded, zero, Or.inl called⟩
  · obtain ⟨zero, succeeded, called⟩ := counted stopped
    rw [(lastEvents_failed key failed).succeeded, Nat.add_zero] at succeeded
    refine ⟨k, succeeded, zero, Or.inr ⟨?_, failed⟩⟩
    rw [called]
    simp [calledKeys, List.filterMap_cons]

/-- A GET run leaves as many value buffers behind as its calls succeeded, or
none if the driver frees them or is given none. -/
theorem get_leaves_values (loaded : run.session.plugin.pif = driver.plugin)
    (get : run.bench = .get) {s : BenchState K (SliceDb Db)}
    (final : run.result.final = some s) :
    ∃ left, settle [] (ledger s.db.log) = some left ∧
      left.length = if driver.retains then successes s.trace else 0 := by
  have log : s.db.log = (run.dbAt (calledKeys s.trace).length).log := by
    rcases final_db run final with open_ | closed
    · rw [open_]
    · rw [closed, loaded, driver.close_log]
  rw [log, (settle_dbAt loaded get _).2]
  refine ⟨_, rfl, ?_⟩
  obtain ⟨k, succeeded, zero, called | ⟨called, failed⟩⟩ := calls_cases run final
  · rw [called, succeeded, leftAt_length k zero]
  · rw [called, succeeded, leftAt, SliceDriver.leftBy, if_neg fun h => failed h.1,
      List.nil_append, leftAt_length k zero]

end Runs

/-- A library that finds a value for every key. -/
def fullCascadedb : CascadedbLibrary Unit where
  mallocOk := true
  cdbNew := fun _ => some ()
  cdbDelete := id
  cdbLsn := fun _ => 0
  cdbPut := fun db _ _ _ => (0, db)
  cdbDel := fun db _ _ => db
  cdbGet := fun db _ => (1, sliceOf [1], db)

/-- One-byte keys from a file of three bytes. -/
def cascadedbRun (count : UInt64) : Ready ℚ (SliceDb Unit) :=
  workingRun (nbDbCascadedbPlugin fullCascadedb) ⟨(), 0, []⟩
    ⟨1, 1, 10, count, ".", "cascadedb", "keys.bin"⟩ [6, 4, 2] .get rfl rfl (by simp) (by simp)

theorem get_leaves_values_cascadedb : ∃ s left, (cascadedbRun 2).result.final = some s ∧
    settle [] (ledger s.db.log) = some left ∧
    left.length = if (SliceDriver.cascadedb fullCascadedb).retains then successes s.trace else 0 := by
  obtain ⟨s, _, hs, _⟩ := keysObtained (cascadedbRun 2)
  have loaded : (cascadedbRun 2).session.plugin.pif =
      (SliceDriver.cascadedb fullCascadedb).plugin := rfl
  obtain ⟨left, settled, hlen⟩ := get_leaves_values loaded rfl hs
  exact ⟨s, left, hs, settled, hlen⟩

end ValueBuffers
