import MiniNb.RunEffect
import MiniNb.Workflow

/-!
# Many processes on one keys file and one database

A measurement is a series of processes with the same options: puts, gets and
shuffles, in any order, whether they succeed or fail. They share the keys file
and the directory of the database. What one process leaves there is what the
next one finds.

A database that was closed, and one that was only read, is found as the calls
left it. What becomes of one that was written and not closed is a matter of its
library: a PUT run that leaves the loop for want of a key, and a benchmark that
is killed, may leave anything there. A shuffle that is killed is not among the
processes, since between two of its copies it has overwritten a key.
-/

namespace Sessions

open MiniNb BlockMemory EngineRun RunTrace KeyShuffling PluginContract RunEffect
open ResourceLedger Workflow

universe u v

structure World where
  file : KeyFile
  disk : Bytes → Option Bytes

/-- How a process ended. A benchmark is unsettled when nothing is known about its
database: it was killed, it returned without closing what it had written, or its
library is not a map. -/
inductive ProcessEnd where
  | benchmark (bench : NbBenchType) (rc : Option Int)
  | shuffled (rc : Int)
  | notStarted
  | unsettled

section Processes
variable (K : Type u) [Field K] [LinearOrder K] [IsStrictOrderedRing K] [FloorSemiring K]
variable {Db : Type v} (view : Db → Bytes → Option Bytes) (opts : NbOpts)

/-- A benchmark whose setup succeeded, on the disk and the keys file of this world. -/
structure Started (w : World) (driver : Driver Db) (run : Ready K driver.Open) : Prop where
  keeps : driver.Keeps view
  opts_eq : run.opts = opts
  loaded : run.session.plugin.pif = driver.plugin
  file_eq : run.file = w.file
  opened : driver.stored view run.session.state.db = w.disk

/-- One process. A benchmark that is settled has closed its database or only read it. -/
inductive Process : World → ProcessEnd → World → Prop where
  | benchmark {w : World} {driver : Driver Db} {run : Ready K driver.Open}
      {s : BenchState K driver.Open} :
      Started K view opts w driver run → run.result.final = some s →
      Event.release .db ∈ run.result.log ∨ run.bench = .get →
      Process w (.benchmark run.bench run.result.rc) ⟨w.file, driver.stored view s.db⟩
  | shuffle {w : World} {calls : ShuffleCalls} {result : ShuffleResult} :
      calls.file.content = w.file → nbRandomShuffle calls opts.keyLen opts.count = .ok result →
      Process w (.shuffled result.rc) ⟨result.content, w.disk⟩
  | notStarted {w : World} {calls : EngineCalls K Db} {failure : SetupFailure} :
      engineSetup calls opts = .error failure → Process w .notStarted w
  | unsettled {w : World} (disk : Bytes → Option Bytes) : Process w .unsettled ⟨w.file, disk⟩

/-- Processes one after the other. -/
inductive Series : World → List ProcessEnd → World → Prop where
  | nil (w : World) : Series w [] w
  | cons {a b c : World} {e : ProcessEnd} {rest : List ProcessEnd} :
      Process K view opts a e b → Series b rest c → Series a (e :: rest) c

end Processes

/-- The options ask for keys that are not empty, and all sizes fit. -/
structure Usable (opts : NbOpts) : Prop where
  keyLen_pos : 0 < opts.keyLen.toNat
  fits : FitsOpts opts

/-- The keys that processes with these options deal with. -/
def keysOf (opts : NbOpts) (file : KeyFile) : List Bytes :=
  blocks opts.keyLen.toNat (shuffledBlocks file opts.keyLen opts.count) file.bytes

/-- What processes leave as it was: the file up to the order of these keys, and,
if they are settled, the database but for values of these keys, which are stored
and never removed. -/
structure Kept (opts : NbOpts) (settled : Prop) (a b : World) : Prop where
  file : Shuffled opts.keyLen.toNat (shuffledBlocks a.file opts.keyLen opts.count) a.file b.file
  disk : settled → ∀ key, b.disk key = a.disk key ∨
    key ∈ keysOf opts a.file ∧ ∃ val, val.length = opts.valLen.toNat ∧ b.disk key = some val

section Kept
variable {opts : NbOpts} {settled settled' : Prop} {a b c : World}

theorem Kept.refl (a : World) : Kept opts settled a a := ⟨.refl _ _ _, fun _ _ => Or.inl rfl⟩

theorem Kept.keysOf_perm (kept : Kept opts settled a b) :
    (keysOf opts b.file).Perm (keysOf opts a.file) := by
  rw [keysOf, keysOf, shuffledBlocks, kept.file.length_eq]
  exact kept.file.perm

theorem Kept.trans (kept : Kept opts settled a b) (later : Kept opts settled' b c) :
    Kept opts (settled ∧ settled') a c where
  file := by
    have last := later.file
    rw [shuffledBlocks, kept.file.length_eq] at last
    exact kept.file.trans last
  disk := by
    rintro ⟨first, second⟩ key
    rcases later.disk second key with same | ⟨hkey, stored⟩
    · rw [same]
      exact kept.disk first key
    · exact Or.inr ⟨kept.keysOf_perm.mem_iff.mp hkey, stored⟩

end Kept

section Steps
variable {K : Type u} [Field K] [LinearOrder K] [IsStrictOrderedRing K]
variable {Db : Type v} {view : Db → Bytes → Option Bytes} {opts : NbOpts} {w : World}
variable {driver : Driver Db} {run : Ready K driver.Open}

theorem Started.stores (started : Started K view opts w driver run) :
    Stores run.session.plugin.pif (driver.stored view) :=
  started.loaded ▸ Driver.stores started.keeps

theorem Started.fits (started : Started K view opts w driver run) (usable : Usable opts) :
    FitsOpts run.opts := started.opts_eq ▸ usable.fits

/-- As many keys as the reader has handed out are dealt with by the shuffle. -/
theorem Started.le_shuffledBlocks (started : Started K view opts w driver run)
    (usable : Usable opts) {k : Nat} (hk : k ≤ run.count) (held : ∀ i, i < k → run.HasKey i) :
    k ≤ shuffledBlocks w.file opts.keyLen opts.count := by
  have len : run.keyLen = opts.keyLen.toNat := congrArg (fun o => o.keyLen.toNat) started.opts_eq
  have count : run.count = opts.count.toNat := congrArg (fun o => o.count.toNat) started.opts_eq
  refine le_min ?_ (count ▸ hk)
  rw [Nat.le_div_iff_mul_le usable.keyLen_pos, Nat.mul_comm]
  cases k with
  | zero => exact Nat.zero_le _
  | succ k =>
    have key := held k (Nat.lt_succ_self k)
    rw [Ready.HasKey, len, started.file_eq] at key
    exact Nat.le_of_lt key

end Steps

section Runs
variable {K : Type u} [Field K] [LinearOrder K] [IsStrictOrderedRing K] [FloorSemiring K]
variable {Db : Type v} {view : Db → Bytes → Option Bytes} {opts : NbOpts} {a b : World}

/-- A benchmark changes the disk at the keys it was given only. -/
theorem Started.kept {w : World} {driver : Driver Db} {run : Ready K driver.Open}
    (started : Started K view opts w driver run) {s : BenchState K driver.Open}
    (final : run.result.final = some s) :
    Kept opts (Usable opts) w ⟨w.file, driver.stored view s.db⟩ where
  file := .refl _ _ _
  disk usable key := by
    obtain ⟨s', m, hs, keys, hm, _⟩ := keysObtained run
    cases final.symm.trans hs
    have contents := final_map started.stores (started.fits usable) final key
    rw [started.opened, keys.called] at contents
    by_cases put : run.bench = .put ∧ key ∈ blocks run.keyLen m run.file.bytes
    · rw [if_pos put] at contents
      obtain ⟨_, hkey⟩ := put
      refine Or.inr ⟨?_, _, ?_, contents⟩
      · have le := started.le_shuffledBlocks usable hm keys.held
        rw [started.file_eq, Ready.keyLen, started.opts_eq] at hkey
        exact mem_blocks_of_le le hkey
      · rw [valbuf_length, started.opts_eq]
    · rw [if_neg put] at contents
      exact Or.inl contents

theorem process_kept {e : ProcessEnd} (process : Process K view opts a e b) :
    Kept opts (Usable opts ∧ e ≠ .unsettled) a b := by
  cases process with
  | benchmark started final =>
    obtain ⟨file, disk⟩ := started.kept final
    exact ⟨file, fun h => disk h.1⟩
  | @shuffle calls _ same hrun =>
    have shuffled := returned_shuffled calls hrun
    rw [same] at shuffled
    exact ⟨shuffled, fun _ _ => Or.inl rfl⟩
  | notStarted failed => exact .refl _
  | unsettled disk => exact ⟨.refl _ _ _, fun h => absurd rfl h.2⟩

/-- Whatever processes run in whatever order, the keys file keeps its keys and
everything behind them. If all of them are settled, the database keeps
everything but the values of these keys; a key that was there stays there. -/
theorem session_kept {ends : List ProcessEnd} (session : Series K view opts a ends b) :
    Kept opts (Usable opts ∧ .unsettled ∉ ends) a b := by
  induction session with
  | nil w => exact .refl w
  | cons process _ ih =>
    obtain ⟨file, disk⟩ := (process_kept process).trans ih
    refine ⟨file, ?_⟩
    rintro ⟨usable, settled⟩
    rw [List.mem_cons, not_or] at settled
    exact disk ⟨⟨usable, fun h => settled.1 h.symm⟩, usable, settled.2⟩

/-- The keys file has enough keys, and the database has a value for each of them. -/
structure Filled (opts : NbOpts) (w : World) : Prop where
  enough : opts.keyLen.toNat * opts.count.toNat < w.file.bytes.length
  stored : ∀ key ∈ keysOf opts w.file, ∃ val, val.length = opts.valLen.toNat ∧
    w.disk key = some val

theorem keysOf_eq {file : KeyFile} (usable : Usable opts)
    (enough : opts.keyLen.toNat * opts.count.toNat ≤ file.bytes.length) :
    keysOf opts file = blocks opts.keyLen.toNat opts.count.toNat file.bytes := by
  rw [keysOf, shuffledBlocks_eq usable.keyLen_pos enough]

/-- A run that returns zero has made all its calls. -/
theorem returned_zero {Db' : Type v} {run : Ready K Db'} (zero : run.result.rc = some 0) :
    0 < run.count ∧ run.HasKey (run.count - 1) ∧ ∃ s, run.result.final = some s ∧
      calledKeys s.trace = blocks run.keyLen run.count run.file.bytes := by
  rcases run.ending with ⟨pos, ⟨before, s, hs, trace, _⟩, _, hlog⟩ | ⟨_, _, hrc⟩ |
    ⟨_, _, _, _, _, hrc, _⟩ | ⟨_, _, _, _, _, hrc, _⟩
  · refine ⟨pos, (before _ (Nat.sub_lt pos Nat.one_pos)).key, s, hs, ?_⟩
    rw [trace, List.append_nil]
    exact (inStep_traceAt run before).called
  · cases hrc.symm.trans zero
  · cases hrc.symm.trans zero
  · rw [hrc] at zero
    cases hb : run.bench with
    | get => simp [hb, Ready.failureCode] at zero
    | put => simp [hb, Ready.failureCode] at zero

section Started
variable {driver : Driver Db} {run : Ready K driver.Open}

/-- A PUT run that returns zero leaves a value for every key. -/
theorem Started.filled (started : Started K view opts a driver run) (usable : Usable opts)
    (put : run.bench = .put) (zero : run.result.rc = some 0) {s : BenchState K driver.Open}
    (final : run.result.final = some s) : Filled opts ⟨a.file, driver.stored view s.db⟩ := by
  obtain ⟨pos, key, s', hs', called⟩ := returned_zero zero
  cases final.symm.trans hs'
  have count : run.count = opts.count.toNat := congrArg (fun o => o.count.toNat) started.opts_eq
  have len : run.keyLen = opts.keyLen.toNat := congrArg (fun o => o.keyLen.toNat) started.opts_eq
  have enough : opts.keyLen.toNat * opts.count.toNat < a.file.bytes.length := by
    rwa [Ready.HasKey, Nat.sub_add_cancel pos, count, len, started.file_eq] at key
  refine ⟨enough, ?_⟩
  intro key hkey
  rw [keysOf_eq usable (Nat.le_of_lt enough), ← count, ← len, ← started.file_eq, ← called] at hkey
  refine ⟨run.session.valbuf, by rw [valbuf_length, started.opts_eq], ?_⟩
  change driver.stored view s.db key = _
  rw [final_map started.stores (started.fits usable) final,
    if_pos ⟨put, hkey⟩]

/-- On a disk that holds all the keys, no benchmark fails. -/
theorem Started.succeeds (started : Started K view opts a driver run) (usable : Usable opts)
    (counted : 0 < opts.count.toNat)
    (enough : opts.keyLen.toNat * opts.count.toNat < a.file.bytes.length)
    (stored : ∀ key ∈ keysOf opts a.file, ∃ val, Fits val ∧
      (val ≠ [] ∨ opts.driver ≠ "kyotocabinet") ∧ a.disk key = some val) :
    run.result.rc = some 0 := by
  have fits := started.fits usable
  have count : run.count = opts.count.toNat := congrArg (fun o => o.count.toNat) started.opts_eq
  have len : run.keyLen = opts.keyLen.toNat := congrArg (fun o => o.keyLen.toNat) started.opts_eq
  have named : driver.plugin.name = opts.driver := by
    rw [← started.loaded, load_named (setup_done run.setup).loaded, started.opts_eq]
  rcases run.ending with ⟨_, _, hrc, _⟩ | ⟨hzero, _⟩ | ⟨k, _, hk, short, _⟩ |
    ⟨k, hk, _, failed, _⟩
  · exact hrc
  · omega
  · have before := Nat.mul_le_mul_left opts.keyLen.toNat (count ▸ hk : k + 1 ≤ opts.count.toNat)
    rw [Ready.HasKey, len, started.file_eq] at short
    omega
  · refine absurd ?_ failed
    cases hb : run.bench with
    | put => exact put_rcAt started.stores fits hb k
    | get =>
      have hkey : run.keyAt k ∈ keysOf opts a.file := by
        rw [keysOf_eq usable (Nat.le_of_lt enough), ← count, ← len, ← started.file_eq]
        exact List.mem_map.mpr ⟨k, List.mem_range.mpr hk, rfl⟩
      obtain ⟨val, small, readable, held⟩ := stored _ hkey
      have finds := Driver.finds started.keeps
      rw [← started.loaded] at finds
      rw [← started.opened] at held
      exact get_rcAt started.stores finds fits hb small held
        (readable.imp_right (fun other => named ▸ other))

end Started

end Runs

/-! Two keys are put, and the keys file is shuffled. -/

theorem started_nessdb (bench : NbBenchType) (disk : Bytes → Option Bytes) (x y z : UInt8) :
    Started ℚ (fun db => db) nessdbOpts ⟨⟨[x, y, z], by simp⟩, disk⟩ (nessdbOver disk)
      (nessdbRun bench disk x y z) :=
  ⟨mapNessdb_keeps true disk, rfl, rfl, rfl, rfl⟩

theorem put_nessdb : ∃ disk, Process ℚ (fun db : Bytes → Option Bytes => db) nessdbOpts
    ⟨⟨[3, 5, 8], by simp⟩, emptyDisk⟩ (.benchmark .put (some 0)) ⟨⟨[3, 5, 8], by simp⟩, disk⟩ := by
  obtain ⟨s, _, hs, _⟩ := keysObtained (nessdbRun .put emptyDisk 3 5 8)
  have hrc : (nessdbRun .put emptyDisk 3 5 8).result.rc = some 0 := by decide +kernel
  have put : Process ℚ (fun db : Bytes → Option Bytes => db) nessdbOpts
      ⟨⟨[3, 5, 8], by simp⟩, emptyDisk⟩
      (.benchmark .put (nessdbRun .put emptyDisk 3 5 8).result.rc)
      ⟨⟨[3, 5, 8], by simp⟩, s.db.instance_⟩ :=
    .benchmark (started_nessdb .put emptyDisk 3 5 8) hs (Or.inl (by decide +kernel))
  rw [hrc] at put
  exact ⟨s.db.instance_, put⟩

def exchanged : ShuffleResult where
  rc := 0
  content := ⟨[5, 3, 8], by simp⟩
  log := [.acquire .descriptor, .acquire .mapping, .acquire .swapbuf, .release .swapbuf,
    .release .mapping, .release .descriptor]

theorem shuffle_nessdb (disk : Bytes → Option Bytes) :
    Process ℚ (fun db : Bytes → Option Bytes => db) nessdbOpts ⟨⟨[3, 5, 8], by simp⟩, disk⟩
      (.shuffled 0) ⟨⟨[5, 3, 8], by simp⟩, disk⟩ := by
  have hrun : nbRandomShuffle
      ⟨KeyReading.workingFile [3, 5, 8] (by simp), true, true, maximalRand⟩ 1 2 =
        .ok exchanged := rfl
  have shuffle : Process ℚ (fun db : Bytes → Option Bytes => db) nessdbOpts
      ⟨⟨[3, 5, 8], by simp⟩, disk⟩ (.shuffled exchanged.rc) ⟨exchanged.content, disk⟩ :=
    .shuffle rfl hrun
  exact shuffle

theorem session_kept_nessdb : ∃ disk,
    Kept nessdbOpts
      (Usable nessdbOpts ∧ .unsettled ∉ [ProcessEnd.benchmark .put (some 0), .shuffled 0])
      ⟨⟨[3, 5, 8], by simp⟩, emptyDisk⟩ ⟨⟨[5, 3, 8], by simp⟩, disk⟩ := by
  obtain ⟨disk, put⟩ := put_nessdb
  exact ⟨disk, session_kept (.cons put (.cons (shuffle_nessdb disk) (.nil _)))⟩

end Sessions
