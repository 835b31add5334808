import MiniNb.EngineRun

/-!
# What a run gives back

The cleanup labels release exactly what the setup holds when it jumps to them,
and the way out behind the report releases everything. The three exits from
inside the loop do not: two of them return at once, the third one enters the
ladder of labels below the mapping and the histogram. A run that returns has
therefore given everything back exactly when none of these exits was taken.
-/

namespace RunBalance

open MiniNb ResourceLedger EngineRun

universe u v
variable {K : Type u} [Field K] [LinearOrder K] [IsStrictOrderedRing K] {Db : Type v}

/-- Everything is released exactly once, and the database before its plugin. -/
structure GivesBack (log : Log) : Prop where
  balanced : Balanced log
  closed_first : Event.acquire .db ∈ log → Precedes (.release .db) (.release .handle) log

theorem givesBack_iff_and (log : Log) :
    GivesBack log ↔ Balanced log ∧
      (Event.acquire .db ∈ log → Precedes (.release .db) (.release .handle) log) :=
  ⟨fun h => ⟨h.balanced, h.closed_first⟩, fun h => ⟨h.1, h.2⟩⟩

instance (log : Log) : Decidable (GivesBack log) := decidable_of_iff' _ (givesBack_iff_and log)

/-- `close` gives the descriptor up even when it fails. -/
theorem destroy_releases {calls : FileCalls} (unmaps : calls.munmapOk = true) :
    nbRandomDestroy calls = [.release .mapping, .release .descriptor] := by
  unfold nbRandomDestroy nbRandomCloseFile
  rw [unmaps]
  cases calls.closeOk with
  | true => rfl
  | false => rfl

omit [LinearOrder K] [IsStrictOrderedRing K] in
/-- Every label releases what the setup holds at its jumps. -/
theorem setup_failure_givesBack {calls : EngineCalls K Db} {opts : NbOpts} {failure : SetupFailure}
    (unmaps : (calls.keysFile opts.keysFilename).munmapOk = true)
    (failed : engineSetup calls opts = .error failure) : GivesBack failure.log := by
  have hdestroy := destroy_releases unmaps
  have outcome := setup_outcome calls opts
  rw [failed] at outcome
  cases outcome with
  | noPlugin _ none hlog =>
    rcases load_settled calls.loader opts.driver with ⟨_, hload, _⟩ | ⟨_, balanced, hdb⟩
    · cases hload.symm.trans none
    · rw [hlog, error1, List.append_nil]
      exact ⟨balanced, fun h => absurd h hdb⟩
  | noDb _ _ _ _ hlog =>
    rw [hlog]
    decide
  | noKeybuf _ _ hlog =>
    rw [hlog]
    decide
  | noValbuf _ _ hlog =>
    rw [hlog]
    decide
  | noReader _ r log hcreate hlog =>
    rw [hlog]
    rcases create_cases (calls.keysFile opts.keysFilename) with
      ⟨_, created⟩ | ⟨_, r', log', hcreate', hlogs⟩
    · cases created.symm.trans hcreate
    · cases hcreate'.symm.trans hcreate
      rcases hlogs with rfl | rfl | rfl
      · decide
      · decide
      · rw [hdestroy]
        decide
  | noHistogram _ _ hlog =>
    rw [hlog, error6, hdestroy]
    decide

theorem finish_givesBack {calls : FileCalls} (unmaps : calls.munmapOk = true) :
    GivesBack (setupAcquires ++ finish calls) := by
  rw [finish, destroy_releases unmaps]
  decide

/-- The exits from inside the loop leave at least the histogram behind. -/
theorem loop_exit_leaks (bench : NbBenchType) :
    ¬ GivesBack setupAcquires ∧ ¬ GivesBack (setupAcquires ++ Ready.failureLog bench) := by
  cases bench with
  | get => decide
  | put => decide

omit [LinearOrder K] [IsStrictOrderedRing K] in
theorem setup_cases (calls : EngineCalls K Db) (opts : NbOpts) :
    (∃ failure, engineSetup calls opts = .error failure) ∨
    (∃ session, engineSetup calls opts = .ok session) := by
  cases engineSetup calls opts with
  | error failure => exact Or.inl ⟨failure, rfl⟩
  | ok session => exact Or.inr ⟨session, rfl⟩

variable [FloorSemiring K]

theorem ready_givesBack_iff (run : Ready K Db)
    (unmaps : (run.calls.keysFile run.opts.keysFilename).munmapOk = true) :
    (run.result.rc ≠ none → GivesBack run.result.log) ↔ ∀ k, k < run.count → run.RoundOk k := by
  have hlog : run.session.log = setupAcquires := (setup_done run.setup).log_eq
  obtain ⟨leaksAll, leaksRest⟩ := loop_exit_leaks run.bench
  rcases run.ending with ⟨_, stopped, _, hend⟩ | ⟨hzero, _, hrc⟩ | ⟨k, buf, hk, short, _, hrc, hend⟩ |
    ⟨k, hk, _, failed, _, hrc, hend⟩
  · constructor
    · intro _
      exact stopped.before
    · intro _ _
      rw [hend, hlog]
      exact finish_givesBack unmaps
  · constructor
    · intro _ k hk
      omega
    · intro _ returned
      exact absurd hrc returned
  · constructor
    · intro given
      have kept := given (by simp [hrc])
      rw [hend, hlog] at kept
      exact False.elim (leaksAll kept)
    · intro clean
      exact False.elim (short (clean k hk).key)
  · constructor
    · intro given
      have kept := given (by simp [hrc])
      rw [hend, hlog] at kept
      exact False.elim (leaksRest kept)
    · intro clean
      exact False.elim (failed (clean k hk).call)

/-- A run that returns has given back what it acquired exactly when, after a
successful setup, every round found its key and its plugin call succeeded. -/
theorem givesBack_iff (calls : EngineCalls K Db) (opts : NbOpts) (bench : NbBenchType)
    (unmaps : (calls.keysFile opts.keysFilename).munmapOk = true) :
    ((nbEngineRun calls opts bench).rc ≠ none → GivesBack (nbEngineRun calls opts bench).log) ↔
      ∀ session (ready : engineSetup calls opts = .ok session) k, k < opts.count.toNat →
        Ready.RoundOk ⟨calls, opts, bench, session, ready⟩ k := by
  rcases setup_cases calls opts with ⟨failure, hsetup⟩ | ⟨session, hsetup⟩
  · constructor
    · intro _ session ready
      cases hsetup.symm.trans ready
    · intro _ _
      have hlog : (nbEngineRun calls opts bench).log = failure.log := by
        simp only [nbEngineRun, hsetup]
      rw [hlog]
      exact setup_failure_givesBack unmaps hsetup
  · have rounds := ready_givesBack_iff ⟨calls, opts, bench, session, hsetup⟩ unmaps
    constructor
    · intro given session' ready
      cases hsetup.symm.trans ready
      exact rounds.mp given
    · intro clean
      exact rounds.mpr (clean session hsetup)

theorem givesBack_small_put :
    ((nbEngineRun (smallRun .put 0 0 2).calls (smallOpts 2) .put).rc ≠ none →
        GivesBack (nbEngineRun (smallRun .put 0 0 2).calls (smallOpts 2) .put).log) ↔
      ∀ session (ready : engineSetup (smallRun .put 0 0 2).calls (smallOpts 2) = .ok session) k,
        k < 2 → Ready.RoundOk ⟨(smallRun .put 0 0 2).calls, smallOpts 2, .put, session, ready⟩ k :=
  givesBack_iff (smallRun .put 0 0 2).calls (smallOpts 2) .put rfl

/-- The first `replace` fails: the run returns 2 and keeps the mapping, its
descriptor and the histogram. -/
theorem failed_put_leaks :
    (smallRun .put (-1) 0 1).result.rc = some 2 ∧
      ¬ GivesBack (smallRun .put (-1) 0 1).result.log := by
  decide +kernel

end RunBalance
