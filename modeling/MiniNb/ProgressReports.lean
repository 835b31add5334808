import MiniNb.RunTrace

/-!
# What a run says about its progress

After every round the engine counts the rounds since its last line, and prints
a line when they reach the interval. The interval comes from the command line
as it is: zero acts like one, and a number above the number of operations
prints nothing. The lines that a run prints itself, behind a setup that
succeeds, are therefore a function of the number of successful operations and
the interval, and the last line tells why it stopped. A driver may print lines
of its own between them.
-/

namespace ProgressReports

open MiniNb ExactDouble EngineRun RunTrace

universe u v

/-- How many rounds lie between two lines. -/
def interval (opts : NbOpts) : Nat := max 1 opts.reportInterval.toNat

def progressLine (n : Nat) : String := "\r" ++ toString n ++ " ops done..."

/-- The lines after `k` rounds. -/
def progressLines (n k : Nat) : List String :=
  ((List.range k).filter (fun i => n ∣ i + 1)).map (fun i => progressLine (i + 1))

theorem progressLines_succ (n k : Nat) :
    progressLines n (k + 1) = progressLines n k ++ if n ∣ k + 1 then [progressLine (k + 1)] else [] := by
  rw [progressLines, List.range_succ, List.filter_append, List.map_append]
  by_cases h : n ∣ k + 1
  · rw [if_pos h, List.filter_cons_of_pos (by simpa using h)]
    rfl
  · rw [if_neg h, List.filter_cons_of_neg (by simpa using h)]
    rfl

/-- The counter of the engine against the number of rounds. -/
theorem mod_step {n k : Nat} (hn : 0 < n) :
    (k % n + 1 < n → (k + 1) % n = k % n + 1 ∧ ¬ n ∣ k + 1) ∧
      (¬ k % n + 1 < n → (k + 1) % n = 0 ∧ n ∣ k + 1) := by
  have below := Nat.mod_lt k hn
  have split_ := Nat.mod_add_div k n
  constructor
  · intro more
    have one : 1 % n = 1 := Nat.mod_eq_of_lt (by omega)
    have next : (k + 1) % n = k % n + 1 := by
      rw [Nat.add_mod_of_add_mod_lt (by omega), one]
    exact ⟨next, fun dvd => by
      rw [Nat.mod_eq_zero_of_dvd dvd] at next
      omega⟩
  · intro full
    have dvd : n ∣ k + 1 := ⟨k / n + 1, by rw [Nat.mul_succ]; omega⟩
    exact ⟨Nat.mod_eq_zero_of_dvd dvd, dvd⟩

variable {K : Type u} [Field K] [LinearOrder K] [IsStrictOrderedRing K] {Db : Type v}

/-- What the loop has printed after `k` rounds. -/
structure Reported (opts : NbOpts) (k : Nat) (s : BenchState K Db) : Prop where
  prev_eq : s.prevCount = k % interval opts
  total_eq : s.totalCount = k
  stderr_eq : s.stderr = "Benchmarking..." :: progressLines (interval opts) k

omit [Field K] [LinearOrder K] [IsStrictOrderedRing K] in
/-- The end of a round prints a line exactly when the interval is full. -/
theorem Reported.next {opts : NbOpts} {k : Nat} {s : BenchState K Db} (h : Reported opts k s) :
    Reported opts (k + 1) (reportProgress opts s) := by
  have hn : 0 < interval opts := Nat.lt_of_lt_of_le Nat.one_pos (Nat.le_max_left _ _)
  obtain ⟨more, full⟩ := @mod_step (interval opts) k hn
  have below : k % interval opts + 1 < opts.reportInterval.toNat ↔
      k % interval opts + 1 < interval opts := by
    rw [interval]
    omega
  rw [reportProgress]
  dsimp only
  rw [h.prev_eq]
  by_cases hlt : k % interval opts + 1 < interval opts
  · obtain ⟨hmod, hdvd⟩ := more hlt
    rw [if_pos (below.mpr hlt)]
    refine ⟨hmod.symm, congrArg (· + 1) h.total_eq, ?_⟩
    rw [progressLines_succ, if_neg hdvd, List.append_nil]
    exact h.stderr_eq
  · obtain ⟨hmod, hdvd⟩ := full hlt
    rw [if_neg (fun hlt' => hlt (below.mp hlt'))]
    refine ⟨hmod.symm, congrArg (· + 1) h.total_eq, ?_⟩
    rw [progressLines_succ, if_pos hdvd, h.stderr_eq, h.total_eq]
    rfl

/-- The line printed where the loop is left from within. -/
def exitLines : LoopExit → List String
  | .nextFailed => ["random_next failed\n"]
  | _ => []

section Steps
variable {run : Ready K Db} {k : Nat} {s t : BenchState K Db}

/-- What one round does to the counters and the lines. -/
theorem step_lines (run : Ready K Db) (s : BenchState K Db) :
    (∃ s', run.step s = (reportProgress run.opts s', none) ∧ s'.prevCount = s.prevCount ∧
      s'.totalCount = s.totalCount ∧ s'.stderr = s.stderr) ∨
    (∃ t e, run.step s = (t, some e) ∧ t.stderr = s.stderr ++ exitLines e) := by
  have called : callFailed run.bench ≠ .nextFailed := by
    cases run.bench <;> decide
  rw [Ready.step, benchStep]
  split
  · exact Or.inr ⟨_, _, rfl, (List.append_nil _).symm⟩
  dsimp only
  split
  · exact Or.inr ⟨_, _, rfl, rfl⟩
  split
  · refine Or.inr ⟨_, _, rfl, ?_⟩
    cases run.bench with
    | get => exact (List.append_nil _).symm
    | put => exact (List.append_nil _).symm
  · exact Or.inl ⟨_, rfl, rfl, rfl, rfl⟩

omit [LinearOrder K] [IsStrictOrderedRing K] in
theorem setup_lines {calls : EngineCalls K Db} {opts : NbOpts} {session : Session K Db}
    (ready : engineSetup calls opts = .ok session) :
    session.state.prevCount = 0 ∧ session.state.stderr = ["Benchmarking..."] := by
  unfold engineSetup at ready
  dsimp only at ready
  split at ready
  · cases ready
  split at ready
  · cases ready
  split at ready
  · cases ready
  split at ready
  · cases ready
  split at ready
  · cases ready
  split at ready
  · cases ready
  · cases ready
    exact ⟨rfl, rfl⟩

theorem rounds_reported (rounds : BoundedLoop.Rounds run.step k run.session.state t) :
    Reported run.opts k t := by
  obtain ⟨prev, stderr⟩ := setup_lines run.setup
  apply BoundedLoop.Rounds.invariant (Reported run.opts) _ _ rounds
  · intro i a b reported last
    rcases step_lines run a with ⟨s', hstep, hprev, htotal, hlines⟩ | ⟨u, e, hstep, _⟩
    · cases hstep.symm.trans last
      have kept : Reported run.opts i s' :=
        ⟨hprev.trans reported.prev_eq, htotal.trans reported.total_eq,
          hlines.trans reported.stderr_eq⟩
      exact kept.next
    · cases hstep.symm.trans last
  · refine ⟨prev.trans (Nat.zero_mod _).symm, (setup_done run.setup).total_eq, ?_⟩
    rw [stderr]
    rfl

end Steps

/-- The last line of a run tells what it stopped at. -/
def lastLine (opts : NbOpts) (trace : List (EngineEvent K)) : String :=
  match trace.getLast? with
  | some (.next _ _) => "random_next failed\n"
  | some (.select _ _) => "Select failed :(\n"
  | some (.replace _ _ _) => "Replace failed :(\n"
  | _ => "\r" ++ toString opts.count.toNat ++ " ops done...\n"

/-- The lines up to the end of the loop, and the trace it leaves. -/
structure LoopLines (run : Ready K Db) (k : Nat) (u : BenchState K Db) (tail : List (EngineEvent K))
    (exit : Option LoopExit) : Prop where
  before : ∀ i, i < k → run.RoundOk i
  trace_eq : u.trace = run.traceAt k ++ tail
  stderr_eq : u.stderr =
    "Benchmarking..." :: progressLines (interval run.opts) k ++ exit.elim [] exitLines

theorem loop_lines (run : Ready K Db) {u : BenchState K Db} {exit : Option LoopExit}
    (hloop : benchLoop run.calls run.opts run.bench run.session = (u, exit)) :
    (exit = none ∧ LoopLines run run.count u [] none) ∨
    (exit = some .nextFailed ∧ ∃ k buf,
      LoopLines run k u [EngineEvent.next 1 buf] (some .nextFailed)) ∨
    (exit = some (callFailed run.bench) ∧ ∃ k, run.HasKey k ∧ run.rcAt k ≠ 0 ∧
      LoopLines run k u [EngineEvent.next 0 (run.keyAt k), run.eventAt k]
        (some (callFailed run.bench))) := by
  have hrun : BoundedLoop.run run.step run.count run.session.state = (u, exit) := hloop
  rcases BoundedLoop.run_cases run.step run.count run.session.state with
    ⟨t, rounds, hend⟩ | ⟨k, t, v, e, _, rounds, last, hend⟩
  · cases hend.symm.trans hrun
    obtain ⟨before, reached⟩ := Ready.rounds_reached rounds
    refine Or.inl ⟨rfl, before, by rw [reached.trace_eq, List.append_nil], ?_⟩
    rw [(rounds_reported rounds).stderr_eq, Option.elim_none, List.append_nil]
  · cases hend.symm.trans hrun
    obtain ⟨before, reached⟩ := Ready.rounds_reached rounds
    have lines : u.stderr =
        "Benchmarking..." :: progressLines (interval run.opts) k ++ exitLines e := by
      rcases step_lines run t with ⟨s', hstep, _⟩ | ⟨w, e', hstep, hlines⟩
      · cases hstep.symm.trans last
      · cases hstep.symm.trans last
        rw [hlines, (rounds_reported rounds).stderr_eq]
    by_cases key : run.HasKey k
    · by_cases ok : run.rcAt k = 0
      · obtain ⟨w, hw, _⟩ := Ready.step_ok reached ⟨key, ok⟩
        cases hw.symm.trans last
      · obtain ⟨w, hw, trace, _⟩ := Ready.step_callFailed reached key ok
        cases hw.symm.trans last
        exact Or.inr (Or.inr ⟨rfl, k, key, ok, before, trace, lines⟩)
    · have hw := Ready.step_outOfKeys reached key
      cases hw.symm.trans last
      exact Or.inr (Or.inl ⟨rfl, k, t.keybuf, before, congrArg (· ++ _) reached.trace_eq, lines⟩)

theorem LoopLines.successes_eq {run : Ready K Db} {k : Nat} {u : BenchState K Db}
    {tail : List (EngineEvent K)} {exit : Option LoopExit} (lines : LoopLines run k u tail exit)
    (none_ : successes tail = 0) : successes u.trace = k := by
  rw [lines.trace_eq, successes_append, (inStep_traceAt run lines.before).succeeded, none_,
    Nat.add_zero]

/-- Rounds in order end with a sample. -/
theorem lastLine_traceAt (run : Ready K Db) (opts : NbOpts) (k : Nat) :
    lastLine opts (run.traceAt k) = "\r" ++ toString opts.count.toNat ++ " ops done...\n" := by
  cases k with
  | zero => rfl
  | succ k =>
    rw [lastLine, Ready.traceAt_succ, Ready.roundTrace, List.getLast?_append]
    rfl

omit [Field K] [LinearOrder K] [IsStrictOrderedRing K] in
theorem lastLine_event (opts : NbOpts) (trace : List (EngineEvent K)) (first last : EngineEvent K) :
    lastLine opts (trace ++ [first, last]) = lastLine opts [last] := by
  rw [lastLine, List.getLast?_append]
  rfl

variable [FloorSemiring K]

/-- The messages of a run that returns: a line for each full interval of
successful operations, and one that tells what the run stopped at. -/
theorem stderr_eq (run : Ready K Db) (returns : run.result.rc ≠ none) :
    ∃ s, run.result.final = some s ∧
      run.result.stderr = "Benchmarking..." ::
        progressLines (interval run.opts) (successes s.trace) ++ [lastLine run.opts s.trace] := by
  have hloop := @loop_lines K _ _ _ Db run
  rw [Ready.result, nbEngineRun, run.setup] at returns ⊢
  dsimp only at returns ⊢
  generalize benchLoop run.calls run.opts run.bench run.session = loop at returns hloop ⊢
  obtain ⟨u, exit⟩ := loop
  rcases hloop rfl with ⟨rfl, lines⟩ | ⟨rfl, k, buf, lines⟩ | ⟨rfl, k, key, failed, lines⟩
  · have succeeded := lines.successes_eq rfl
    have trace := lines.trace_eq
    rw [List.append_nil] at trace
    dsimp only at returns ⊢
    split
    · rename_i hdump
      rw [hdump] at returns
      exact absurd rfl returns
    · refine ⟨_, rfl, ?_⟩
      dsimp only
      rw [succeeded, trace, lastLine_traceAt, lines.stderr_eq, Option.elim_none, List.append_nil]
  · have succeeded := lines.successes_eq rfl
    refine ⟨_, rfl, ?_⟩
    dsimp only
    rw [succeeded, lines.stderr_eq, lines.trace_eq, lastLine, List.getLast?_append]
    rfl
  · have last := lastEvents_failed key failed
    have succeeded := lines.successes_eq last.succeeded
    have trace := lines.trace_eq
    have stderr := lines.stderr_eq
    have unmarked : exitLines (callFailed run.bench) = [] := by
      cases run.bench <;> rfl
    rw [Option.elim_some, unmarked, List.append_nil] at stderr
    rcases event_cases run k with ⟨hb, hevent⟩ | ⟨hb, hevent⟩
    · rw [hb, callFailed]
      refine ⟨_, rfl, ?_⟩
      dsimp only
      rw [succeeded, stderr, trace, lastLine_event, hevent]
      rfl
    · rw [hb, callFailed]
      refine ⟨_, rfl, ?_⟩
      dsimp only
      rw [succeeded, stderr, trace, lastLine_event, hevent]
      rfl

theorem stderr_eq_two_puts :
    ∃ s, (smallRun .put 0 0 2).result.final = some s ∧
      (smallRun .put 0 0 2).result.stderr = "Benchmarking..." ::
        progressLines 10 (successes s.trace) ++ [lastLine (smallOpts 2) s.trace] :=
  stderr_eq (smallRun .put 0 0 2) (by decide +kernel)

end ProgressReports
