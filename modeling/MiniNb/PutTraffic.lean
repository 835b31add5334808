import MiniNb.RunTrace

/-!
# What a PUT run writes

A PUT run passes the keys of the file to `replace`, and with each of them the
value buffer, which was allocated before the loop and never written. The keys
of two runs that differ in the contents of the heap are the same. The values
are the same when the allocations happen to contain the same bytes.
-/

namespace PutTraffic

open MiniNb BlockMemory EngineRun RunTrace

universe u v
variable {K : Type u} {Db : Type v}

/-- The key, the value and the answer of a call of `replace`. -/
def replaceOf : EngineEvent K → Option (Bytes × Bytes × Int)
  | .replace key val rc => some (key, val, rc)
  | _ => none

@[simp] theorem replaceOf_next (rc : Int) (key : Bytes) :
    replaceOf (.next rc key : EngineEvent K) = none := rfl

@[simp] theorem replaceOf_sample (td : ExactDouble.Dbl K) : replaceOf (.sample td) = none := rfl

variable [Field K] [LinearOrder K] [IsStrictOrderedRing K]

/-- How many calls a run makes, and why it makes no further one. -/
structure MakesCalls (run : Ready K Db) (m : Nat) : Prop where
  le_count : m ≤ run.count
  held : ∀ i, i < m → run.HasKey i
  earlier_ok : ∀ i, i + 1 < m → run.rcAt i = 0
  reason : m = run.count ∨ ¬ run.HasKey m ∨ ∃ i, m = i + 1 ∧ run.rcAt i ≠ 0

theorem MakesCalls.none_iff {run : Ready K Db} {m : Nat} (calls : MakesCalls run m) :
    m = 0 ↔ run.count = 0 ∨ ¬ run.HasKey 0 := by
  constructor
  · rintro rfl
    rcases calls.reason with all | short | ⟨i, hi, _⟩
    · exact Or.inl all.symm
    · exact Or.inr short
    · omega
  · rintro (zero | short)
    · exact Nat.le_zero.mp (zero ▸ calls.le_count)
    · by_contra some_
      exact short (calls.held 0 (Nat.pos_of_ne_zero some_))

/-- Two runs with the same keys cannot stop at different calls while the
answers are the same. -/
theorem MakesCalls.le_of_same {run run' : Ready K Db} {m m' : Nat} (calls : MakesCalls run m)
    (calls' : MakesCalls run' m') (count : run.count = run'.count)
    (keys : ∀ k, run.HasKey k → run'.HasKey k)
    (answers : ∀ i, i < m → i < m' → run.rcAt i = run'.rcAt i) : m ≤ m' := by
  by_contra more
  rcases calls'.reason with all | short | ⟨i, rfl, refused⟩
  · have := calls.le_count
    omega
  · exact short (keys m' (calls.held m' (by omega)))
  · have ok := calls.earlier_ok i (by omega)
    rw [answers i (by omega) (Nat.lt_succ_self i)] at ok
    exact refused ok

/-- The calls of the first `m` rounds. -/
def callsUpTo (run : Ready K Db) (m : Nat) : List (Bytes × Bytes × Int) :=
  (List.range m).map (fun i => (run.keyAt i, run.session.valbuf, run.rcAt i))

theorem callsUpTo_succ (run : Ready K Db) (m : Nat) :
    callsUpTo run (m + 1) = callsUpTo run m ++ [(run.keyAt m, run.session.valbuf, run.rcAt m)] := by
  simp [callsUpTo, List.range_succ]

section Trace
variable {run : Ready K Db} (put : run.bench = .put)
include put

theorem replaceOf_eventAt (k : Nat) :
    replaceOf (run.eventAt k) = some (run.keyAt k, run.session.valbuf, run.rcAt k) := by
  rcases event_cases run k with ⟨get, _⟩ | ⟨_, h⟩
  · rw [put] at get
    cases get
  · rw [h]
    rfl

theorem replaces_traceAt (k : Nat) : (run.traceAt k).filterMap replaceOf = callsUpTo run k := by
  induction k with
  | zero => rfl
  | succ k ih =>
    have round : (run.roundTrace k).filterMap replaceOf =
        [(run.keyAt k, run.session.valbuf, run.rcAt k)] := by
      simp [Ready.roundTrace, List.filterMap_cons, replaceOf_eventAt put]
    rw [Ready.traceAt_succ, List.filterMap_append, ih, round, callsUpTo_succ]

variable [FloorSemiring K]

/-- The calls of a whole run, and where they end. -/
theorem put_calls : ∃ s m, run.result.final = some s ∧
    s.trace.filterMap replaceOf = callsUpTo run m ∧ MakesCalls run m := by
  rcases run.ending with ⟨_, ⟨before, s, hs, trace, _⟩, _⟩ | ⟨zero, ⟨_, s, hs, trace, _⟩, _⟩ |
    ⟨k, buf, hk, short, ⟨before, s, hs, trace, _⟩, _⟩ |
    ⟨k, hk, key, refused, ⟨before, s, hs, trace, _⟩, _⟩
  · refine ⟨s, run.count, hs, ?_, ⟨le_refl _, ?_, ?_, Or.inl rfl⟩⟩
    · rw [trace, List.append_nil, replaces_traceAt put]
    · exact fun i hi => (before i hi).key
    · exact fun i hi => (before i (Nat.lt_of_succ_lt hi)).call
  · refine ⟨s, 0, hs, ?_, ⟨Nat.zero_le _, ?_, ?_, Or.inl zero.symm⟩⟩
    · rw [trace, List.append_nil, replaces_traceAt put]
    · exact fun i hi => absurd hi (Nat.not_lt_zero i)
    · exact fun i hi => absurd hi (Nat.not_lt_zero _)
  · refine ⟨s, k, hs, ?_, ⟨Nat.le_of_lt hk, ?_, ?_, Or.inr (Or.inl short)⟩⟩
    · rw [trace, List.filterMap_append, replaces_traceAt put]
      exact List.append_nil _
    · exact fun i hi => (before i hi).key
    · exact fun i hi => (before i (Nat.lt_of_succ_lt hi)).call
  · refine ⟨s, k + 1, hs, ?_, ⟨hk, ?_, ?_, Or.inr (Or.inr ⟨k, rfl, refused⟩)⟩⟩
    · rw [trace, List.filterMap_append, replaces_traceAt put, callsUpTo_succ]
      simp [List.filterMap_cons, replaceOf_eventAt put]
    · exact fun i hi => key.earlier (Nat.le_of_lt_succ hi)
    · exact fun i hi => (before i (Nat.lt_of_succ_lt_succ hi)).call

end Trace

omit [LinearOrder K] [IsStrictOrderedRing K] in
/-- What the setup asks for: nothing but the presence of each resource. -/
theorem setup_ok_iff (calls : EngineCalls K Db) (opts : NbOpts) :
    (∃ session, engineSetup calls opts = .ok session) ↔
      (∃ plugin db, (nbPluginLoad calls.loader opts.driver).plugin = some plugin ∧
        plugin.pif.open_ ⟨dbPath opts⟩ = some db) ∧
      calls.keyHeap.isSome = true ∧ calls.valHeap.isSome = true ∧
      (nbRandomCreate (calls.keysFile opts.keysFilename)).2.1.isSome = true ∧
      calls.histHeap.isSome = true := by
  have outcome := setup_outcome calls opts
  constructor
  · rintro ⟨session, ready⟩
    rw [ready] at outcome
    cases outcome with
    | done _ keyHeap reader done =>
      have valHeap := congrArg Option.isSome done.valbuf_eq
      have histHeap := congrArg Option.isSome done.fresh
      rw [malloc, Option.isSome_map] at valHeap
      rw [nbHistogramNew, Option.isSome_map] at histHeap
      exact ⟨⟨_, _, done.loaded, done.opened⟩, keyHeap, valHeap, reader, histHeap⟩
  · rintro ⟨⟨plugin, db, hload, hopen⟩, keyHeap, valHeap, reader, histHeap⟩
    generalize engineSetup calls opts = result at outcome ⊢
    cases outcome with
    | noPlugin _ none => cases hload.symm.trans none
    | noDb _ plugin' hload' hopen' =>
      cases hload.symm.trans hload'
      cases hopen.symm.trans hopen'
    | noKeybuf _ none => simp [none] at keyHeap
    | noValbuf _ none => simp [none] at valHeap
    | noReader _ r log hcreate => simp [hcreate] at reader
    | noHistogram _ none => simp [none] at histHeap
    | done session => exact ⟨session, rfl⟩

section Pair
variable [FloorSemiring K]

/-- The calls of `replace` that a PUT run makes, in order. -/
def putCalls (calls : EngineCalls K Db) (opts : NbOpts) : List (Bytes × Bytes × Int) :=
  match (nbEngineRun calls opts .put).final with
  | none => []
  | some s => s.trace.filterMap replaceOf

/-- The keys and values that are written. -/
def putTraffic (calls : EngineCalls K Db) (opts : NbOpts) : List (Bytes × Bytes) :=
  (putCalls calls opts).map (fun call => (call.1, call.2.1))

/-- What the plugin answers. -/
def putAnswers (calls : EngineCalls K Db) (opts : NbOpts) : List Int :=
  (putCalls calls opts).map (fun call => call.2.2)

/-- Two environments that may differ in the contents of the heap and in the
clock: the same plugin with the same answers, as far as both runs ask, the same
keys file, and the same allocations succeed. -/
structure SameInputs (calls calls' : EngineCalls K Db) (opts : NbOpts) : Prop where
  loader_eq : calls.loader = calls'.loader
  file_eq : calls.keysFile opts.keysFilename = calls'.keysFile opts.keysFilename
  keyHeap_ok : calls.keyHeap.isSome = calls'.keyHeap.isSome
  valHeap_ok : calls.valHeap.isSome = calls'.valHeap.isSome
  histHeap_ok : calls.histHeap.isSome = calls'.histHeap.isSome
  answers : ∀ (i : Nat) (rc rc' : Int), (putAnswers calls opts)[i]? = some rc →
    (putAnswers calls' opts)[i]? = some rc' → rc = rc'

variable {calls calls' : EngineCalls K Db} {opts : NbOpts}

omit [FloorSemiring K] in
theorem callsUpTo_traffic (run : Ready K Db) (m : Nat) :
    (callsUpTo run m).map (fun call => (call.1, call.2.1)) =
      (List.range m).map (fun i => (run.keyAt i, run.session.valbuf)) := by
  rw [callsUpTo, List.map_map]
  rfl

omit [FloorSemiring K] in
theorem callsUpTo_answer (run : Ready K Db) {m i : Nat} (hi : i < m) :
    ((callsUpTo run m).map (fun call => call.2.2))[i]? = some (run.rcAt i) := by
  simp [callsUpTo, hi]

theorem putCalls_failed (failed : ¬ ∃ session, engineSetup calls opts = .ok session) :
    putCalls calls opts = [] := by
  cases hsetup : engineSetup calls opts with
  | error failure => simp only [putCalls, nbEngineRun, hsetup]
  | ok session => exact absurd ⟨session, hsetup⟩ failed

theorem putCalls_ready {session : Session K Db} (ready : engineSetup calls opts = .ok session) :
    ∃ m, putCalls calls opts = callsUpTo ⟨calls, opts, .put, session, ready⟩ m ∧
      MakesCalls ⟨calls, opts, .put, session, ready⟩ m := by
  have put : (⟨calls, opts, .put, session, ready⟩ : Ready K Db).bench = .put := rfl
  obtain ⟨s, m, hfinal, hcalls, makes⟩ := put_calls put
  have hfinal' : (nbEngineRun calls opts .put).final = some s := hfinal
  exact ⟨m, by simp only [putCalls, hfinal', hcalls], makes⟩

/-- Two such runs write the same keys, and each one its value buffer with them. -/
theorem same_keys (same : SameInputs calls calls' opts) {session session' : Session K Db}
    (ready : engineSetup calls opts = .ok session)
    (ready' : engineSetup calls' opts = .ok session') :
    ∃ m, MakesCalls ⟨calls, opts, .put, session, ready⟩ m ∧
      putTraffic calls opts = (List.range m).map (fun i =>
        (Ready.keyAt ⟨calls, opts, .put, session, ready⟩ i, session.valbuf)) ∧
      putTraffic calls' opts = (List.range m).map (fun i =>
        (Ready.keyAt ⟨calls, opts, .put, session, ready⟩ i, session'.valbuf)) := by
  obtain ⟨m, hcalls, makes⟩ := putCalls_ready ready
  obtain ⟨m', hcalls', makes'⟩ := putCalls_ready ready'
  have file : Ready.file ⟨calls, opts, .put, session, ready⟩ =
      Ready.file ⟨calls', opts, .put, session', ready'⟩ := congrArg FileCalls.content same.file_eq
  have answers : ∀ i, i < m → i < m' →
      Ready.rcAt ⟨calls, opts, .put, session, ready⟩ i =
        Ready.rcAt ⟨calls', opts, .put, session', ready'⟩ i := by
    intro i hi hi'
    refine same.answers i _ _ ?_ ?_
    · rw [putAnswers, hcalls, callsUpTo_answer _ hi]
    · rw [putAnswers, hcalls', callsUpTo_answer _ hi']
  have keys : ∀ k, Ready.HasKey ⟨calls, opts, .put, session, ready⟩ k ↔
      Ready.HasKey ⟨calls', opts, .put, session', ready'⟩ k := by
    intro k
    rw [Ready.HasKey, Ready.HasKey, file]
    rfl
  have hm : m = m' := by
    apply Nat.le_antisymm
    · exact makes.le_of_same makes' rfl (fun k => (keys k).mp) answers
    · exact makes'.le_of_same makes rfl (fun k => (keys k).mpr)
        (fun i hi' hi => (answers i hi hi').symm)
  subst hm
  refine ⟨m, makes, ?_, ?_⟩
  · rw [putTraffic, hcalls, callsUpTo_traffic]
  · rw [putTraffic, hcalls', callsUpTo_traffic]
    apply List.map_congr_left
    intro i _
    rw [Ready.keyAt, Ready.keyAt, file]
    rfl

theorem setup_same (same : SameInputs calls calls' opts) :
    (∃ session, engineSetup calls opts = .ok session) ↔
      ∃ session, engineSetup calls' opts = .ok session := by
  rw [setup_ok_iff, setup_ok_iff, same.loader_eq, same.file_eq, same.keyHeap_ok, same.valHeap_ok,
    same.histHeap_ok]

/-- Two runs that may differ in the contents of the heap write the same exactly
when they write nothing at all, or the bytes of the value buffer happened to be
the same when it was allocated. -/
theorem traffic_eq_iff (same : SameInputs calls calls' opts) :
    putTraffic calls opts = putTraffic calls' opts ↔
      (¬ ∃ session, engineSetup calls opts = .ok session) ∨ opts.count = 0 ∨
      (calls.keysFile opts.keysFilename).content.bytes.length ≤ opts.keyLen.toNat ∨
      malloc calls.valHeap opts.valLen = malloc calls'.valHeap opts.valLen := by
  by_cases ok : ∃ session, engineSetup calls opts = .ok session
  · obtain ⟨session, ready⟩ := ok
    obtain ⟨session', ready'⟩ := (setup_same same).mp ⟨session, ready⟩
    obtain ⟨m, makes, hcalls, hcalls'⟩ := same_keys same ready ready'
    have hnone : m = 0 ↔ opts.count = 0 ∨
        (calls.keysFile opts.keysFilename).content.bytes.length ≤ opts.keyLen.toNat := by
      rw [makes.none_iff, Ready.HasKey, Nat.zero_add, Nat.mul_one, Nat.not_lt,
        ← UInt64.toNat_inj]
      rfl
    rw [hcalls, hcalls', (setup_done ready).valbuf_eq, (setup_done ready').valbuf_eq,
      Option.some.injEq, or_iff_right (not_not.mpr ⟨session, ready⟩), ← or_assoc, ← hnone]
    constructor
    · intro heq
      rcases Nat.eq_zero_or_pos m with zero | some_
      · exact Or.inl zero
      · have first := congrArg (fun l => l[0]?) heq
        simp only [List.getElem?_map, List.getElem?_range some_, Option.map_some,
          Option.some.injEq, Prod.mk.injEq, true_and] at first
        exact Or.inr first
    · rintro (rfl | heq)
      · rfl
      · rw [heq]
  · have failed := putCalls_failed ok
    have failed' := putCalls_failed (fun ok' => ok ((setup_same same).mpr ok'))
    rw [putTraffic, putTraffic, failed, failed']
    exact iff_of_true rfl (Or.inl ok)

end Pair

/-- Three bytes of keys, and value memory that holds one byte everywhere. -/
def filledHeap (byte : UInt8) : EngineCalls ℚ Unit :=
  { workingCalls (constantDriver 0 0) [5, 6, 7] (by decide) with valHeap := some (fun _ => byte) }

theorem sameInputs_filledHeap : SameInputs (filledHeap 0) (filledHeap 1) (smallOpts 1) where
  loader_eq := rfl
  file_eq := rfl
  keyHeap_ok := rfl
  valHeap_ok := rfl
  histHeap_ok := rfl
  answers := by
    have one : putAnswers (filledHeap 0) (smallOpts 1) = [0] := by decide +kernel
    have one' : putAnswers (filledHeap 1) (smallOpts 1) = [0] := by decide +kernel
    intro i rc rc' h h'
    rw [one] at h
    rw [one', h] at h'
    exact Option.some.inj h'

theorem traffic_eq_iff_filledHeap :
    putTraffic (filledHeap 0) (smallOpts 1) = putTraffic (filledHeap 1) (smallOpts 1) ↔
      (¬ ∃ session, engineSetup (filledHeap 0) (smallOpts 1) = .ok session) ∨
      (smallOpts 1).count = 0 ∨
      ((filledHeap 0).keysFile (smallOpts 1).keysFilename).content.bytes.length ≤
        (smallOpts 1).keyLen.toNat ∨
      malloc (filledHeap 0).valHeap (smallOpts 1).valLen =
        malloc (filledHeap 1).valHeap (smallOpts 1).valLen :=
  traffic_eq_iff sameInputs_filledHeap

/-- One key of one byte is written with whatever its value memory held. -/
theorem traffic_differs :
    SameInputs (filledHeap 0) (filledHeap 1) (smallOpts 1) ∧
      putTraffic (filledHeap 0) (smallOpts 1) = [([5], [0])] ∧
      putTraffic (filledHeap 1) (smallOpts 1) = [([5], [1])] ∧
      putTraffic (filledHeap 0) (smallOpts 1) ≠ putTraffic (filledHeap 1) (smallOpts 1) := by
  have zero : putTraffic (filledHeap 0) (smallOpts 1) = [([5], [0])] := by decide +kernel
  have one : putTraffic (filledHeap 1) (smallOpts 1) = [([5], [1])] := by decide +kernel
  refine ⟨sameInputs_filledHeap, zero, one, ?_⟩
  rw [zero, one]
  decide

end PutTraffic
