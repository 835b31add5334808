import MiniNb.PluginContract
import MiniNb.RunTrace

/-!
# What a run does to the database

Over a plugin that keeps its contract, a GET run leaves the map of the database
as it was, and a PUT run stores the value buffer under the keys it called
`replace` with, whichever exit it takes. A GET run fails at a key only if the
key is not there, and a PUT run never fails at one.
-/

namespace RunEffect

open MiniNb BlockMemory MapHistory EngineRun RunTrace PluginContract

universe u v
variable {K : Type u} [Field K] [LinearOrder K] [IsStrictOrderedRing K] {Db : Type v}

/-- Keys and values of these lengths fit into the records of every library. -/
structure FitsOpts (opts : NbOpts) : Prop where
  key : opts.keyLen.toNat < 2 ^ 32 - 1
  val : opts.valLen.toNat < 2 ^ 32 - 1

theorem valbuf_length (run : Ready K Db) : run.session.valbuf.length = run.opts.valLen.toNat :=
  malloc_length (setup_done run.setup).valbuf_eq

section Rounds
variable {run : Ready K Db} {view : Db → Bytes → Option Bytes}

theorem keyAt_fits (fits : FitsOpts run.opts) (k : Nat) : Fits (run.keyAt k) := by
  refine Nat.lt_of_le_of_lt ?_ fits.key
  exact List.length_take_le _ _

theorem valbuf_fits (fits : FitsOpts run.opts) : Fits run.session.valbuf := by
  rw [Fits, nbDbNessdbAsserts, valbuf_length]
  exact fits.val

/-- The operations of the first `k` rounds of a PUT run. -/
def putOps (run : Ready K Db) (k : Nat) : List (Op Bytes Bytes) :=
  (blocks run.keyLen k run.file.bytes).map (fun key => .replace key run.session.valbuf)

theorem putOps_succ (k : Nat) :
    putOps run (k + 1) = putOps run k ++ [.replace (run.keyAt k) run.session.valbuf] := by
  rw [putOps, blocks_succ, List.map_append]
  rfl

theorem put_call (put : run.bench = .put) (db : Db) (k : Nat) :
    (run.call db k).1 = (run.session.plugin.pif.replace db (run.keyAt k) run.session.valbuf).1 ∧
    (run.call db k).2.2 =
      (run.session.plugin.pif.replace db (run.keyAt k) run.session.valbuf).2 := by
  rw [Ready.call, put]
  exact ⟨rfl, rfl⟩

theorem get_call (get : run.bench = .get) (db : Db) (k : Nat) :
    (run.call db k).1 = (run.session.plugin.pif.select db (run.keyAt k) false).1 ∧
    (run.call db k).2.2 = (run.session.plugin.pif.select db (run.keyAt k) false).2.2 := by
  rw [Ready.call, get]
  exact ⟨rfl, rfl⟩

theorem put_view (stores : Stores run.session.plugin.pif view) (fits : FitsOpts run.opts)
    (put : run.bench = .put) (k : Nat) :
    view (run.dbAt k) = (putOps run k).foldl apply (view run.session.state.db) := by
  induction k with
  | zero => rfl
  | succ k ih =>
    have replaced := (stores.replace (run.dbAt k) (run.keyAt k) run.session.valbuf
      (keyAt_fits fits k) (valbuf_fits fits)).2
    rw [putOps_succ, List.foldl_append, ← ih, Ready.dbAt, (put_call put (run.dbAt k) k).2, replaced]
    rfl

theorem get_view (stores : Stores run.session.plugin.pif view) (get : run.bench = .get) (k : Nat) :
    view (run.dbAt k) = view run.session.state.db := by
  induction k with
  | zero => rfl
  | succ k ih => rw [Ready.dbAt, (get_call get (run.dbAt k) k).2, stores.select, ih]

/-- The library accepts whatever a PUT run stores. -/
theorem put_rcAt (stores : Stores run.session.plugin.pif view) (fits : FitsOpts run.opts)
    (put : run.bench = .put) (k : Nat) : run.rcAt k = 0 := by
  rw [Ready.rcAt, (put_call put (run.dbAt k) k).1]
  exact (stores.replace (run.dbAt k) (run.keyAt k) run.session.valbuf
    (keyAt_fits fits k) (valbuf_fits fits)).1

/-- A key that was there before a GET run is found by it. -/
theorem get_rcAt (stores : Stores run.session.plugin.pif view) {readable : Bytes → Prop}
    (finds : Finds run.session.plugin.pif view readable) (fits : FitsOpts run.opts)
    (get : run.bench = .get) {k : Nat} {val : Bytes} (fitsVal : Fits val)
    (held : view run.session.state.db (run.keyAt k) = some val) (reads : readable val) :
    run.rcAt k = 0 := by
  rw [Ready.rcAt, (get_call get (run.dbAt k) k).1]
  refine finds (run.dbAt k) (run.keyAt k) val (keyAt_fits fits k) fitsVal ?_ reads
  rw [get_view stores get k, held]

end Rounds

section Runs
variable [FloorSemiring K] {run : Ready K Db} {view : Db → Bytes → Option Bytes}

/-- Closing keeps the map, so it is as the calls have left it in any case. -/
theorem final_view (stores : Stores run.session.plugin.pif view) {s : BenchState K Db}
    (final : run.result.final = some s) :
    view s.db = view (run.dbAt (calledKeys s.trace).length) := by
  rcases final_db run final with open_ | closed
  · rw [open_]
  · rw [closed, stores.close]

theorem final_calledKeys {s : BenchState K Db} (final : run.result.final = some s) :
    calledKeys s.trace = blocks run.keyLen (calledKeys s.trace).length run.file.bytes := by
  obtain ⟨s', m, hs', keys, _, _⟩ := keysObtained run
  cases final.symm.trans hs'
  rw [keys.called_length, keys.called]

/-- Whichever exit a run takes, its keys hold the value buffer after a PUT run,
and nothing else has changed. -/
theorem final_map (stores : Stores run.session.plugin.pif view) (fits : FitsOpts run.opts)
    {s : BenchState K Db} (final : run.result.final = some s) (key : Bytes) :
    view s.db key =
      if run.bench = .put ∧ key ∈ calledKeys s.trace then some run.session.valbuf
      else view run.session.state.db key := by
  rw [final_view stores final]
  cases hb : run.bench with
  | get =>
    rw [get_view stores hb, if_neg]
    rintro ⟨put, _⟩
    cases put
  | put =>
    rw [put_view stores fits hb, putOps, ← final_calledKeys final, foldl_replace_all]
    simp

end Runs

def nessdbOpts : NbOpts := ⟨1, 1, 10, 2, ".", "nessdb", "keys.bin"⟩

theorem nessdb_named (disk : Bytes → Option Bytes) : (nessdbOver disk).plugin.name = "nessdb" := rfl

theorem nessdb_opens (disk : Bytes → Option Bytes) (opts : NbOpts) :
    (nessdbOver disk).plugin.open_ ⟨dbPath opts⟩ = some (openNessdb disk) := rfl

theorem keys_nonempty (a b c : UInt8) : [a, b, c] ≠ [] := List.cons_ne_nil a _

theorem keys_short (a b c : UInt8) : [a, b, c].length < 2 ^ 63 := by simp

/-- Two one-byte keys from a file of three bytes. -/
def nessdbRun (bench : NbBenchType) (disk : Bytes → Option Bytes) (a b c : UInt8) :
    Ready ℚ (nessdbOver disk).Open :=
  workingRun (nessdbOver disk).plugin (openNessdb disk) nessdbOpts [a, b, c] bench
    (nessdb_named disk) (nessdb_opens disk nessdbOpts) (keys_nonempty a b c) (keys_short a b c)

end RunEffect
