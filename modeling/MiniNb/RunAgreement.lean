import MiniNb.RunEffect

/-!
# Different drivers, the same work

Reports of different drivers can only be compared if the drivers had the same
work to do. Over libraries that are maps, two runs with the same task stop at
the same round with the same return code, have made the same calls, and leave
the same map, whichever drivers they use. For GET runs kyotocabinet is left out,
which finds keys that are not there.
-/

namespace RunAgreement

open MiniNb BlockMemory EngineRun RunTrace PluginContract RunEffect

universe u v w
variable {K : Type u} [Field K] [LinearOrder K] [IsStrictOrderedRing K]

/-! ## Where a run stops -/

section Stop
variable {Db : Type v}

/-- The first round that is not in order, or the number of rounds. -/
structure EndsAt (run : Ready K Db) (k : Nat) : Prop where
  before : ∀ i, i < k → run.RoundOk i
  le_count : k ≤ run.count
  stop : k < run.count → ¬ run.RoundOk k

theorem EndsAt.unique {Db' : Type w} {a : Ready K Db} {b : Ready K Db'}
    (count : a.count = b.count) (rounds : ∀ k, a.RoundOk k ↔ b.RoundOk k) {k m : Nat}
    (stops : EndsAt a k) (stops' : EndsAt b m) : k = m := by
  rcases Nat.lt_trichotomy k m with hlt | heq | hgt
  · have := stops'.le_count
    exact absurd ((rounds k).mpr (stops'.before k hlt)) (stops.stop (by omega))
  · exact heq
  · have := stops.le_count
    exact absurd ((rounds m).mp (stops.before m hgt)) (stops'.stop (by omega))

variable [FloorSemiring K]

end Stop

/-! ## Two runs -/

section Round
variable {Db : Type v} {run : Ready K Db} {view : Db → Bytes → Option Bytes}

end Round

section Runs
variable {DbA : Type v} {DbB : Type w}

variable [FloorSemiring K]

end Runs

/-! Two keys, put with leveldb and with nessdb. -/

end RunAgreement
