import MiniNb.Sessions
import Mathlib.Logic.Function.Basic

/-!
# Campaigns of measurements

A campaign runs processes with options of their own: other drivers, other
directories, other numbers and sizes of keys and values. They share one keys
file. A directory that a PUT run has filled answers every later benchmark of at
most as many keys, as long as the shuffles in between exchange keys of the same
length, and no more of them than were put, and the processes in this directory
leave its database settled. In other directories anything may happen.
-/

namespace Campaigns

open MiniNb BlockMemory EngineRun KeyShuffling PluginContract RunEffect Workflow Sessions

universe u v

/-- The keys file, and the databases by their directories. A directory has one path. -/
structure Place where
  file : KeyFile
  disks : String → Bytes → Option Bytes

/-- What a process with these options finds. -/
def Place.world (place : Place) (opts : NbOpts) : World := ⟨place.file, place.disks (dbPath opts)⟩

@[simp] theorem Place.world_file (place : Place) (opts : NbOpts) :
    (place.world opts).file = place.file := rfl

/-- What is there after a process: it has changed one directory at most. -/
def Place.after (place : Place) (opts : NbOpts) (w : World) : Place :=
  ⟨w.file, Function.update place.disks (dbPath opts) w.disk⟩

@[simp] theorem Place.after_file (place : Place) (opts : NbOpts) (w : World) :
    (place.after opts w).file = w.file := rfl

theorem Place.after_own (place : Place) {opts other : NbOpts} (w : World)
    (directory : dbPath other = dbPath opts) : (place.after opts w).disks (dbPath other) = w.disk := by
  rw [after, directory]
  exact Function.update_self _ _ _

theorem Place.after_other (place : Place) {opts other : NbOpts} (w : World)
    (directory : dbPath other ≠ dbPath opts) :
    (place.after opts w).disks (dbPath other) = place.disks (dbPath other) :=
  Function.update_of_ne directory _ _

section Campaign
variable (K : Type u) [Field K] [LinearOrder K] [IsStrictOrderedRing K] [FloorSemiring K]

/-- One process with its options, over a library of any kind. -/
inductive Step : Place → NbOpts × ProcessEnd → Place → Prop where
  | process {place : Place} {opts : NbOpts} {e : ProcessEnd} {w : World} {Db : Type v}
      {view : Db → Bytes → Option Bytes} :
      Process K view opts (place.world opts) e w → Step place (opts, e) (place.after opts w)

end Campaign

/-- A process that does not move keys behind the first ones that were put, and
leaves the database in the same directory settled. -/
structure Respects (opts : NbOpts) (step : NbOpts × ProcessEnd) : Prop where
  shuffles : ∀ rc, step.2 = .shuffled rc →
    step.1.keyLen = opts.keyLen ∧ step.1.count ≤ opts.count
  usable : dbPath opts = dbPath step.1 → Usable step.1
  settled : dbPath opts = dbPath step.1 → step.2 ≠ .unsettled

/-- A directory with a value for each key that a process with these options puts. -/
structure Covered (opts : NbOpts) (nonempty : Prop) (place : Place) : Prop where
  enough : opts.keyLen.toNat * opts.count.toNat < place.file.bytes.length
  stored : ∀ key ∈ blocks opts.keyLen.toNat opts.count.toNat place.file.bytes,
    ∃ val, Fits val ∧ (nonempty → val ≠ []) ∧ place.disks (dbPath opts) key = some val

/-- A shuffle of fewer keys is a shuffle of more keys. -/
theorem shuffled_mono {bs m n : Nat} {a b : KeyFile} (le : m ≤ n) (shuffled : Shuffled bs m a b) :
    Shuffled bs n a b := by
  obtain ⟨more, rfl⟩ := Nat.exists_eq_add_of_le le
  obtain ⟨length_eq, perm, tail_eq⟩ := shuffled
  refine ⟨length_eq, ?_, ?_⟩
  · rw [blocks_add, blocks_add, tail_eq]
    exact perm.append_right _
  · rw [Nat.mul_add, ← List.drop_drop, tail_eq, List.drop_drop]

section Steps
variable {K : Type u} [Field K] [LinearOrder K] [IsStrictOrderedRing K] [FloorSemiring K]
variable {opts : NbOpts} {a b : Place} {nonempty : Prop}

/-- Only a shuffle changes the keys file. -/
theorem process_file {Db : Type v} {view : Db → Bytes → Option Bytes} {other : NbOpts}
    {e : ProcessEnd} {w w' : World} (process : Process K view other w e w')
    (respects : Respects opts (other, e)) :
    Shuffled opts.keyLen.toNat opts.count.toNat w.file w'.file := by
  have kept := (process_kept process).file
  cases process with
  | benchmark => exact .refl _ _ _
  | notStarted => exact .refl _ _ _
  | unsettled => exact .refl _ _ _
  | shuffle same done =>
    obtain ⟨keyLen, count⟩ := respects.shuffles _ rfl
    dsimp only at keyLen count
    rw [keyLen] at kept
    exact shuffled_mono ((Nat.min_le_right _ _).trans (UInt64.le_iff_toNat_le.mp count)) kept

/-- What is stored stays, or is replaced by a value of the size that the process puts. -/
theorem Covered.step (covered : Covered opts nonempty a) {step : NbOpts × ProcessEnd}
    (taken : Step.{u, v} K a step b) (respects : Respects opts step)
    (values : nonempty → dbPath opts = dbPath step.1 → step.1.valLen ≠ 0) :
    Covered opts nonempty b := by
  cases taken with
  | @process other e w Db view process =>
    have file := process_file process respects
    refine ⟨?_, ?_⟩
    · rw [Place.after_file, file.length_eq]
      exact covered.enough
    intro key hkey
    obtain ⟨val, small, full, held⟩ := covered.stored key (file.perm.mem_iff.mp hkey)
    by_cases directory : dbPath opts = dbPath other
    · have usable := respects.usable directory
      have kept := (process_kept process).disk ⟨usable, respects.settled directory⟩ key
      rw [a.after_own w directory]
      rcases kept with same | ⟨_, val', len, put⟩
      · refine ⟨val, small, full, ?_⟩
        rw [same, Place.world, ← directory]
        exact held
      · refine ⟨val', ?_, ?_, put⟩
        · rw [Fits, nbDbNessdbAsserts, len]
          exact usable.fits.val
        · rintro strict rfl
          exact values strict directory (UInt64.toNat_inj.mp len.symm)
    · refine ⟨val, small, full, ?_⟩
      rw [a.after_other w directory]
      exact held

/-- In a covered directory a benchmark of at most as many keys does not fail. -/
theorem Covered.succeeds {late : NbOpts} {Db : Type v} {view : Db → Bytes → Option Bytes}
    {driver : Driver Db} {run : Ready K driver.Open}
    (covered : Covered opts (late.driver = "kyotocabinet") a)
    (started : Started K view late (a.world late) driver run) (usable : Usable late)
    (counted : 0 < late.count) (directory : dbPath late = dbPath opts)
    (keyLen : late.keyLen = opts.keyLen) (count : late.count ≤ opts.count) :
    run.result.rc = some 0 := by
  have fewer := UInt64.le_iff_toNat_le.mp count
  have enough : late.keyLen.toNat * late.count.toNat < a.file.bytes.length := by
    rw [keyLen]
    exact lt_of_le_of_lt (Nat.mul_le_mul_left _ fewer) covered.enough
  refine started.succeeds usable (UInt64.lt_iff_toNat_lt.mp counted) enough ?_
  intro key hkey
  rw [Place.world_file, keysOf_eq usable (Nat.le_of_lt enough), keyLen] at hkey
  obtain ⟨val, small, full, held⟩ := covered.stored key (mem_blocks_of_le fewer hkey)
  refine ⟨val, small, ?_, ?_⟩
  · exact (em (late.driver = "kyotocabinet")).imp full id
  · rw [Place.world, directory]
    exact held

end Steps

/-! Two keys are put and the keys file is shuffled, a process in another directory
is killed, and one of the keys is read. -/

end Campaigns
