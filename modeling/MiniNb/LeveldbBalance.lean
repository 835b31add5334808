import MiniNb.NbDbLeveldb
import MiniNb.RunTrace

/-!
# What the leveldb driver gives back

A call of the driver loses an object exactly when the library sets an error
string, which is printed and never freed, or when `get` finds a value and the
caller does not want it. The objects lost are never released later, so a
history gives everything back exactly when no call loses one. An open that
fails in the library loses the three records of options and the error string.
-/

namespace LeveldbBalance

open MiniNb ResourceLedger

universe u v

/-- One call of a history. -/
inductive LeveldbCall where
  | replace (key val : Bytes)
  | remove (key : Bytes)
  | select (key : Bytes) (wantsValue : Bool)

variable {Db : Type v} (lib : LeveldbLibrary Db)

def callDriver (db : NbDbLeveldb Db) : LeveldbCall → NbDbLeveldb Db
  | .replace key val => (nbDbLeveldbReplace lib db key val).2
  | .remove key => (nbDbLeveldbRemove lib db key).2
  | .select key wantsValue => (nbDbLeveldbSelect lib db key wantsValue).2.2

/-- The log from `open` to `close`, or of an open that fails. -/
def historyLog (opts : NbDbOpts) (calls : List LeveldbCall) : List LeveldbEvent :=
  match nbDbLeveldbOpen lib opts with
  | (none, log) => log
  | (some db, _) => (nbDbLeveldbClose lib (calls.foldl (callDriver lib) db)).log

/-- The state of the library behind a call. -/
def libraryAfter (db : Db) : LeveldbCall → Db
  | .replace key val => (lib.put db key val).2
  | .remove key => (lib.delete db key).2
  | .select key _ => (lib.get db key).2.2

/-- The library sets no error, and finds a value only where it is wanted. -/
def Keeps (db : Db) : LeveldbCall → Prop
  | .replace key val => (lib.put db key val).1 = none
  | .remove key => (lib.delete db key).1 = none
  | .select key wantsValue =>
    (lib.get db key).2.1 = none ∧ (wantsValue = true ∨ (lib.get db key).1 = none)

def KeepsAll (db : Db) : List LeveldbCall → Prop
  | [] => True
  | call :: rest => Keeps lib db call ∧ KeepsAll (libraryAfter lib db call) rest

def lostError (call : Nat) (err : Option String) : List LeveldbObject :=
  if err.isSome then [.error call] else []

def lostValue (call : Nat) (val : Option Bytes) : List LeveldbObject :=
  if val.isSome then [.value call] else []

def lostSelect (call : Nat) (wantsValue : Bool) (val : Option Bytes) (err : Option String) :
    List LeveldbObject :=
  lostError call err ++ if wantsValue && err.isNone then [] else lostValue call val

/-- What is left in the driver's hands by a call. -/
def lost (db : NbDbLeveldb Db) : LeveldbCall → List LeveldbObject
  | .replace key val => lostError db.calls (lib.put db.instance_ key val).1
  | .remove key => lostError db.calls (lib.delete db.instance_ key).1
  | .select key wantsValue =>
    lostSelect db.calls wantsValue (lib.get db.instance_ key).1 (lib.get db.instance_ key).2.1

def selectEvents (call : Nat) (wantsValue : Bool) (val : Option Bytes) (err : Option String) :
    List LeveldbEvent :=
  valueReceived call val ++ errorReceived call err ++
    if wantsValue && val.isSome && err.isNone then [.handed (.value call)] else []

/-- The events of a call. -/
def callEvents (db : NbDbLeveldb Db) : LeveldbCall → List LeveldbEvent
  | .replace key val => errorReceived db.calls (lib.put db.instance_ key val).1
  | .remove key => errorReceived db.calls (lib.delete db.instance_ key).1
  | .select key wantsValue =>
    selectEvents db.calls wantsValue (lib.get db.instance_ key).1 (lib.get db.instance_ key).2.1

/-- A call changes the library and extends the log. -/
theorem callDriver_eq (db : NbDbLeveldb Db) (call : LeveldbCall) :
    callDriver lib db call =
      db.after (libraryAfter lib db.instance_ call) (callEvents lib db call) := by
  cases call with
  | replace key val =>
    simp only [callDriver, nbDbLeveldbReplace]
    split
    · rfl
    · rfl
  | remove key =>
    simp only [callDriver, nbDbLeveldbRemove]
    split
    · rfl
    · rfl
  | select key wantsValue =>
    rcases hget : lib.get db.instance_ key with ⟨val, err, instance_⟩
    cases val with
    | none => simp [callDriver, libraryAfter, callEvents, selectEvents, nbDbLeveldbSelect, hget]
    | some val =>
      cases err with
      | none =>
        cases wantsValue <;>
          simp [callDriver, libraryAfter, callEvents, selectEvents, nbDbLeveldbSelect, hget]
      | some err =>
        simp [callDriver, libraryAfter, callEvents, selectEvents, nbDbLeveldbSelect, hget]

theorem settle_error (held : List LeveldbObject) (call : Nat) (err : Option String) :
    settle held (ledger (errorReceived call err)) = some (lostError call err ++ held) := by
  cases err with
  | none => rfl
  | some err => rfl

theorem settle_select (held : List LeveldbObject) (call : Nat) (wantsValue : Bool)
    (val : Option Bytes) (err : Option String) :
    settle held (ledger (selectEvents call wantsValue val err)) =
      some (lostSelect call wantsValue val err ++ held) := by
  cases val with
  | none => cases err <;> cases wantsValue <;> rfl
  | some val =>
    cases err with
    | some err => cases wantsValue <;> rfl
    | none =>
      cases wantsValue with
      | false => rfl
      | true =>
        exact (settle_passed held (.value call)).2

/-- The events of a call leave what the call loses. -/
theorem settle_call (db : NbDbLeveldb Db) (call : LeveldbCall) (held : List LeveldbObject) :
    settle held (ledger (callEvents lib db call)) = some (lost lib db call ++ held) := by
  cases call with
  | replace key val => exact settle_error held _ _
  | remove key => exact settle_error held _ _
  | select key wantsValue => exact settle_select held _ _ _ _

theorem lostError_eq_nil_iff {call : Nat} {err : Option String} :
    lostError call err = [] ↔ err = none := by
  simp [lostError]

theorem lostSelect_eq_nil_iff {call : Nat} {wantsValue : Bool} {val : Option Bytes}
    {err : Option String} : lostSelect call wantsValue val err = [] ↔
      err = none ∧ (wantsValue = true ∨ val = none) := by
  cases err with
  | some err => simp [lostSelect, lostError]
  | none => cases wantsValue <;> simp [lostSelect, lostError, lostValue]

theorem lost_eq_nil_iff (db : NbDbLeveldb Db) (call : LeveldbCall) :
    lost lib db call = [] ↔ Keeps lib db.instance_ call := by
  cases call with
  | replace key val => exact lostError_eq_nil_iff
  | remove key => exact lostError_eq_nil_iff
  | select key wantsValue => exact lostSelect_eq_nil_iff

/-- Values and error strings. -/
def FromCall : LeveldbObject → Prop
  | .value _ => True
  | .error _ => True
  | _ => False

theorem fromCall_of_lost (db : NbDbLeveldb Db) (call : LeveldbCall) :
    ∀ object ∈ lost lib db call, FromCall object := by
  have error : ∀ (n : Nat) err, ∀ object ∈ lostError n err, FromCall object := by
    intro n err object h
    cases err with
    | none => cases h
    | some err =>
      rw [List.mem_singleton.mp h]
      trivial
  cases call with
  | replace key val => exact error _ _
  | remove key => exact error _ _
  | select key wantsValue =>
    intro object h
    rcases List.mem_append.mp h with h | h
    · exact error _ _ object h
    · split at h
      · cases h
      · rw [lostValue] at h
        split at h
        · rw [List.mem_singleton.mp h]
          trivial
        · cases h

/-- Calls leave what was held and what they lose on the way. -/
theorem settle_calls (calls : List LeveldbCall) {db : NbDbLeveldb Db} {held : List LeveldbObject}
    (settled : settle [] (ledger db.log) = some held) :
    ∃ extra, settle [] (ledger (calls.foldl (callDriver lib) db).log) = some (extra ++ held) ∧
      (∀ object ∈ extra, FromCall object) ∧ (extra = [] ↔ KeepsAll lib db.instance_ calls) := by
  induction calls generalizing db held with
  | nil => exact ⟨[], settled, by simp, by simp [KeepsAll]⟩
  | cons call rest ih =>
    have first : settle [] (ledger (callDriver lib db call).log) =
        some (lost lib db call ++ held) := by
      rw [callDriver_eq, NbDbLeveldb.after, settle_ledger_append settled]
      exact settle_call lib db call held
    obtain ⟨extra, hextra, hfrom, hkeeps⟩ := ih first
    refine ⟨extra ++ lost lib db call, ?_, ?_, ?_⟩
    · rw [List.foldl_cons, hextra, List.append_assoc]
    · intro object h
      exact (List.mem_append.mp h).elim (hfrom object) (fromCall_of_lost lib db call object)
    · rw [List.append_eq_nil_iff, hkeeps, lost_eq_nil_iff, callDriver_eq, KeepsAll, and_comm]
      rfl

/-- The objects of the call with number `n`. -/
def OfCall (n : Nat) (object : LeveldbObject) : Prop := object = .value n ∨ object = .error n

theorem acquires_received (object new : LeveldbObject) (found : Bool) :
    acquires object (ledger (if found then [.received new] else [])) =
      if found = true ∧ new = object then 1 else 0 := by
  cases found with
  | false => rfl
  | true =>
    simp only [true_and, if_true]
    exact (acquires_acquire object new []).trans (Nat.zero_add _)

theorem acquires_select (object : LeveldbObject) (n : Nat) (wantsValue : Bool)
    (val : Option Bytes) (err : Option String) :
    acquires object (ledger (selectEvents n wantsValue val err)) =
      (if val.isSome = true ∧ .value n = object then 1 else 0) +
        if err.isSome = true ∧ .error n = object then 1 else 0 := by
  have handed : acquires object (ledger (if wantsValue && val.isSome && err.isNone
      then [.handed (.value n)] else [])) = 0 := by
    split
    · exact acquires_release object (.value n) []
    · rfl
  rw [selectEvents, valueReceived, errorReceived, ledger_append, ledger_append, acquires_append,
    acquires_append, acquires_received, acquires_received, handed, Nat.add_zero]

/-- A call receives objects of its own number only, and each of them once. -/
theorem acquires_call (db : NbDbLeveldb Db) (call : LeveldbCall) (object : LeveldbObject) :
    acquires object (ledger (callEvents lib db call)) ≤ 1 ∧
      (¬ OfCall db.calls object → acquires object (ledger (callEvents lib db call)) = 0) := by
  have error : ∀ err, acquires object (ledger (errorReceived db.calls err)) ≤ 1 ∧
      (¬ OfCall db.calls object → acquires object (ledger (errorReceived db.calls err)) = 0) := by
    intro err
    rw [errorReceived, acquires_received]
    constructor
    · split <;> decide
    · intro other
      exact if_neg fun h => other (Or.inr h.2.symm)
  cases call with
  | replace key val => exact error _
  | remove key => exact error _
  | select key wantsValue =>
    simp only [callEvents, acquires_select]
    constructor
    · split
      · rename_i h
        rw [if_neg (by rw [← h.2]; simp)]
      · rw [Nat.zero_add]
        split <;> decide
    · intro other
      rw [if_neg fun h => other (Or.inl h.2.symm), if_neg fun h => other (Or.inr h.2.symm)]

/-- Every object of the log was received once, and none under a later number. -/
structure Numbered (db : NbDbLeveldb Db) : Prop where
  once : ∀ object, acquires object (ledger db.log) ≤ 1
  later : ∀ n object, db.calls ≤ n → OfCall n object → acquires object (ledger db.log) = 0

theorem ofCall_inj {m n : Nat} {object : LeveldbObject} (hm : OfCall m object)
    (hn : OfCall n object) : m = n := by
  rcases hm with rfl | rfl
  · rcases hn with h | h
    · exact LeveldbObject.value.inj h
    · cases h
  · rcases hn with h | h
    · cases h
    · exact LeveldbObject.error.inj h

theorem Numbered.call {db : NbDbLeveldb Db} (numbered : Numbered db) (call : LeveldbCall) :
    Numbered (callDriver lib db call) := by
  rw [callDriver_eq]
  constructor
  · intro object
    obtain ⟨atMost, other⟩ := acquires_call lib db call object
    rw [NbDbLeveldb.after, ledger_append, acquires_append]
    by_cases own : OfCall db.calls object
    · rw [numbered.later db.calls object (Nat.le_refl _) own, Nat.zero_add]
      exact atMost
    · rw [other own, Nat.add_zero]
      exact numbered.once object
  · intro n object hn named
    obtain ⟨_, other⟩ := acquires_call lib db call object
    have after : db.calls + 1 ≤ n := hn
    have earlier : db.calls ≤ n := Nat.le_of_succ_le after
    rw [NbDbLeveldb.after, ledger_append, acquires_append,
      numbered.later n object earlier named, Nat.zero_add]
    apply other
    intro own
    have same := ofCall_inj own named
    omega

theorem Numbered.calls {db : NbDbLeveldb Db} (numbered : Numbered db) (calls : List LeveldbCall) :
    Numbered (calls.foldl (callDriver lib) db) := by
  induction calls generalizing db with
  | nil => exact numbered
  | cons call rest ih => exact ih (numbered.call lib call)

/-- Each object was received once, and released or handed over once. -/
structure AllReturned (log : List LeveldbEvent) : Prop where
  once : ∀ object, acquires object (ledger log) ≤ 1
  balanced : Balanced (ledger log)

def openLog : List LeveldbEvent :=
  [.received .options, .received .readOptions, .received .writeOptions, .received .database]

theorem leveldbOpen_cases (opts : NbDbOpts) :
    (lib.callocOk = false ∧ nbDbLeveldbOpen lib opts = (none, [])) ∨
    (lib.callocOk = true ∧ (∃ err, lib.open_ opts.path = .error err) ∧
      nbDbLeveldbOpen lib opts = (none, [.received .options, .received .readOptions,
        .received .writeOptions, .received (.error 0)])) ∨
    (lib.callocOk = true ∧ ∃ db, lib.open_ opts.path = .ok db ∧
      nbDbLeveldbOpen lib opts = (some ⟨db, 1, openLog⟩, openLog)) := by
  cases hcalloc : lib.callocOk with
  | false => exact Or.inl ⟨rfl, by simp [nbDbLeveldbOpen, hcalloc]⟩
  | true =>
    cases hopen : lib.open_ opts.path with
    | error err =>
      exact Or.inr (Or.inl ⟨rfl, ⟨err, rfl⟩, by simp [nbDbLeveldbOpen, hcalloc, hopen, errorReceived]⟩)
    | ok db =>
      exact Or.inr (Or.inr ⟨rfl, db, rfl, by simp [nbDbLeveldbOpen, hcalloc, hopen, openLog]⟩)

/-- An open that fails in the library keeps the records of options. -/
theorem failed_open_loses : ¬ Balanced (ledger (R := LeveldbObject) [.received .options,
    .received .readOptions, .received .writeOptions, .received (.error 0)]) := by
  decide

theorem numbered_open (db : Db) : Numbered (⟨db, 1, openLog⟩ : NbDbLeveldb Db) where
  once := by
    intro object
    cases object <;> simp [openLog, ledger, Handling.event, acquires]
  later := by
    rintro n object _ (rfl | rfl)
    · rfl
    · rfl

theorem erase_append_of_fromCall {extra : List LeveldbObject}
    (fromCall : ∀ object ∈ extra, FromCall object) {object : LeveldbObject}
    (other : ¬ FromCall object) (held : List LeveldbObject) :
    (extra ++ held).erase object = extra ++ held.erase object :=
  List.erase_append_right _ fun h => other (fromCall object h)

def closeEvents : List LeveldbEvent :=
  [.released .database, .released .readOptions, .released .writeOptions, .released .options]

/-- `close` releases what `open` received, and nothing else. -/
theorem settle_close {extra : List LeveldbObject} (fromCall : ∀ object ∈ extra, FromCall object) :
    settle (extra ++ [.database, .writeOptions, .readOptions, .options]) (ledger closeEvents) =
      some extra := by
  have erase (object : LeveldbObject) (other : ¬ FromCall object) :=
    erase_append_of_fromCall fromCall other
  simp [closeEvents, ledger, Handling.event, settle, erase .database id, erase .readOptions id,
    erase .writeOptions id, erase .options id]

theorem close_log (db : NbDbLeveldb Db) : (nbDbLeveldbClose lib db).log = db.log ++ closeEvents := rfl

/-- A history of an open database returns everything exactly when no call loses an object. -/
theorem opened_returned_iff (db : Db) (calls : List LeveldbCall) :
    AllReturned (nbDbLeveldbClose lib (calls.foldl (callDriver lib) ⟨db, 1, openLog⟩)).log ↔
      KeepsAll lib db calls := by
  have opened : settle [] (ledger (⟨db, 1, openLog⟩ : NbDbLeveldb Db).log) =
      some [.database, .writeOptions, .readOptions, .options] := rfl
  obtain ⟨extra, hextra, fromCall, hkeeps⟩ := settle_calls lib calls opened
  have numbered := (numbered_open db).calls lib calls
  rw [close_log]
  have total : settle [] (ledger ((calls.foldl (callDriver lib) ⟨db, 1, openLog⟩).log ++
      closeEvents)) = some extra := by
    rw [settle_ledger_append hextra]
    exact settle_close fromCall
  have none_received : ∀ object, acquires object (ledger closeEvents) = 0 := fun object => by
    simp [closeEvents, ledger, Handling.event, acquires]
  constructor
  · intro returned
    have balanced := (balanced_iff_settle _).mp returned.balanced
    rw [total] at balanced
    exact hkeeps.mp (Option.some.inj balanced)
  · intro keeps
    constructor
    · intro object
      rw [ledger_append, acquires_append, none_received, Nat.add_zero]
      exact numbered.once object
    · rw [balanced_iff_settle, total, hkeeps.mpr keeps]

theorem history_returned_iff (opts : NbDbOpts) (calls : List LeveldbCall) :
    AllReturned (historyLog lib opts calls) ↔ lib.callocOk = false ∨
      ∃ db, lib.open_ opts.path = .ok db ∧ KeepsAll lib db calls := by
  rcases leveldbOpen_cases lib opts with ⟨failed, hlog⟩ | ⟨ok, ⟨err, hopen⟩, hlog⟩ |
    ⟨ok, db, hopen, hlog⟩
  · simp only [historyLog, hlog]
    exact iff_of_true ⟨fun _ => Nat.zero_le _, by decide⟩ (Or.inl failed)
  · simp only [historyLog, hlog, hopen, ok]
    exact iff_of_false (fun returned => failed_open_loses returned.balanced) (by simp)
  · simp only [historyLog, hlog, hopen, ok]
    rw [opened_returned_iff]
    simp

/-- No value that was read is still in the driver's hands. -/
def NoValueLeft (log : List LeveldbEvent) : Prop :=
  ∀ n, acquires (.value n) (ledger log) = releases (.value n) (ledger log)

/-- A value that nobody wants is not released. -/
theorem releases_select (object : LeveldbObject) (n : Nat) (val : Option Bytes)
    (err : Option String) : releases object (ledger (selectEvents n false val err)) = 0 := by
  cases val <;> cases err <;>
    simp [selectEvents, valueReceived, errorReceived, ledger, Handling.event, releases]

/-- Reads without a place for the value: no value is released, and none is left
exactly when none was found. -/
structure OnlyReads (lib : LeveldbLibrary Db) (dbAt : Nat → NbDbLeveldb Db) (keyAt : Nat → Bytes)
    (k : Nat) : Prop where
  none_released : ∀ n, releases (.value n) (ledger (dbAt k).log) = 0
  none_received : (∀ n, acquires (.value n) (ledger (dbAt k).log) = 0) ↔
    ∀ i, i < k → (lib.get (dbAt i).instance_ (keyAt i)).1 = none

theorem OnlyReads.start {dbAt : Nat → NbDbLeveldb Db} {keyAt : Nat → Bytes} {db : Db}
    (start : dbAt 0 = ⟨db, 1, openLog⟩) : OnlyReads lib dbAt keyAt 0 := by
  constructor
  · intro n
    rw [start]
    rfl
  · refine iff_of_true ?_ (fun i hi => absurd hi (Nat.not_lt_zero i))
    intro n
    rw [start]
    rfl

/-- The read of step `k` keeps the count at zero exactly when it finds nothing. -/
theorem OnlyReads.read {dbAt : Nat → NbDbLeveldb Db} {keyAt : Nat → Bytes} {k : Nat}
    (reads : OnlyReads lib dbAt keyAt k)
    (next : dbAt (k + 1) = callDriver lib (dbAt k) (.select (keyAt k) false)) :
    OnlyReads lib dbAt keyAt (k + 1) := by
  have log : (dbAt (k + 1)).log = (dbAt k).log ++ selectEvents (dbAt k).calls false
      (lib.get (dbAt k).instance_ (keyAt k)).1 (lib.get (dbAt k).instance_ (keyAt k)).2.1 := by
    rw [next, callDriver_eq]
    rfl
  constructor
  · intro n
    rw [log, ledger_append, releases_append, reads.none_released, releases_select]
  · simp only [log, ledger_append, acquires_append, acquires_select, Nat.add_eq_zero_iff,
      forall_and]
    rw [reads.none_received]
    constructor
    · rintro ⟨before, now, _⟩ i hi
      rcases Nat.lt_succ_iff_lt_or_eq.mp hi with hlt | rfl
      · exact before i hlt
      · have absent := now (dbAt i).calls
        cases hget : (lib.get (dbAt i).instance_ (keyAt i)).1 with
        | none => rfl
        | some val => simp [hget] at absent
    · intro none_found
      have absent := none_found k (Nat.lt_succ_self k)
      refine ⟨fun i hi => none_found i (Nat.lt_succ_of_lt hi), ?_, ?_⟩
      · intro n
        simp [absent]
      · intro n
        simp

theorem onlyReads {dbAt : Nat → NbDbLeveldb Db} {keyAt : Nat → Bytes} {db : Db}
    (start : dbAt 0 = ⟨db, 1, openLog⟩)
    (next : ∀ k, dbAt (k + 1) = callDriver lib (dbAt k) (.select (keyAt k) false)) (k : Nat) :
    OnlyReads lib dbAt keyAt k := by
  induction k with
  | zero => exact .start lib start
  | succ k ih => exact ih.read lib (next k)

section Engine
open EngineRun RunTrace
variable {K : Type u} [Field K] [LinearOrder K] [IsStrictOrderedRing K]

theorem plugin_open {opts : NbDbOpts} {db : NbDbLeveldb Db}
    (opened : (nbDbLeveldbPlugin lib).open_ opts = some db) :
    ∃ instance_, db = ⟨instance_, 1, openLog⟩ := by
  rcases leveldbOpen_cases lib opts with ⟨_, hopen⟩ | ⟨_, _, hopen⟩ | ⟨_, instance_, _, hopen⟩
  · simp [nbDbLeveldbPlugin, hopen] at opened
  · simp [nbDbLeveldbPlugin, hopen] at opened
  · simp only [nbDbLeveldbPlugin, hopen, Option.some.injEq] at opened
    exact ⟨instance_, opened.symm⟩

variable {lib} {run : Ready K (NbDbLeveldb Db)}

/-- A get benchmark of this driver only reads, without a place for the value. -/
theorem get_onlyReads (plugin : run.session.plugin.pif = nbDbLeveldbPlugin lib)
    (get : run.bench = .get) (k : Nat) : OnlyReads lib run.dbAt run.keyAt k := by
  have opened := (setup_done run.setup).opened
  rw [plugin] at opened
  obtain ⟨instance_, start⟩ := plugin_open lib opened
  apply onlyReads lib start
  intro k
  rw [Ready.dbAt, Ready.call, get, plugin]
  rfl

variable [FloorSemiring K]

/-- A get run has no value left exactly when it found none. -/
theorem get_noValueLeft_iff (plugin : run.session.plugin.pif = nbDbLeveldbPlugin lib)
    (get : run.bench = .get) {s : BenchState K (NbDbLeveldb Db)}
    (final : run.result.final = some s) :
    NoValueLeft s.db.log ↔ ∀ i, i < (calledKeys s.trace).length →
      (lib.get (run.dbAt i).instance_ (run.keyAt i)).1 = none := by
  have reads := get_onlyReads plugin get (calledKeys s.trace).length
  rw [← reads.none_received, NoValueLeft]
  have closed : ∀ n, acquires (.value n) (ledger closeEvents) = 0 ∧
      releases (.value n) (ledger closeEvents) = 0 := fun n => ⟨rfl, rfl⟩
  rcases final_db run final with db | db
  · simp only [db, reads.none_released]
  · simp only [db, plugin, nbDbLeveldbPlugin, close_log, ledger_append, acquires_append,
      releases_append, (closed _).1, (closed _).2, reads.none_released, Nat.add_zero]

/-- Every history of the driver returns everything exactly when no memory was
there for it, or it was opened and no call lost an object. A get run of the
engine has no value left exactly when it found none. -/
theorem leveldb_returns_iff (lib : LeveldbLibrary Db) :
    (∀ opts calls, AllReturned (historyLog lib opts calls) ↔ lib.callocOk = false ∨
      ∃ db, lib.open_ opts.path = .ok db ∧ KeepsAll lib db calls) ∧
    ∀ run : Ready K (NbDbLeveldb Db), run.session.plugin.pif = nbDbLeveldbPlugin lib →
      run.bench = .get → ∀ s, run.result.final = some s →
        (NoValueLeft s.db.log ↔ ∀ i, i < (calledKeys s.trace).length →
          (lib.get (run.dbAt i).instance_ (run.keyAt i)).1 = none) := by
  constructor
  · exact history_returned_iff lib
  · intro run plugin get s final
    exact get_noValueLeft_iff plugin get final

end Engine

/-- A library in which every key holds the same value, or none does. -/
def uniformLeveldb (val : Option Bytes) : LeveldbLibrary Unit where
  callocOk := true
  open_ := fun _ => .ok ()
  close := id
  put := fun db _ _ => (none, db)
  delete := fun db _ => (none, db)
  get := fun db _ => (val, none, db)

/-- One key of one byte from a file of three bytes. -/
def leveldbGet (val : Option Bytes) : EngineRun.Ready ℚ (NbDbLeveldb Unit) :=
  EngineRun.workingRun (nbDbLeveldbPlugin (uniformLeveldb val)) ⟨(), 1, openLog⟩
    ⟨1, 1, 10, 1, ".", "leveldb", "keys.bin"⟩ [9, 8, 7] .get rfl rfl (by decide) (by decide)

theorem leveldb_returns_absent_key :
    (∀ opts calls, AllReturned (historyLog (uniformLeveldb none) opts calls) ↔
      (uniformLeveldb none).callocOk = false ∨
        ∃ db, (uniformLeveldb none).open_ opts.path = .ok db ∧
          KeepsAll (uniformLeveldb none) db calls) ∧
    ∀ s, (leveldbGet none).result.final = some s →
      (NoValueLeft s.db.log ↔ ∀ i, i < (RunTrace.calledKeys s.trace).length →
        ((uniformLeveldb none).get ((leveldbGet none).dbAt i).instance_
          ((leveldbGet none).keyAt i)).1 = none) :=
  ⟨(leveldb_returns_iff (K := ℚ) (uniformLeveldb none)).1,
    (leveldb_returns_iff (uniformLeveldb none)).2 (leveldbGet none) rfl rfl⟩

/-- A get run over one stored key returns zero and never gives its value back.
Neither does a history of one such call. -/
theorem found_value_left :
    ¬ AllReturned (historyLog (uniformLeveldb (some [1])) ⟨"."⟩ [.select [9] false]) ∧
      (leveldbGet (some [1])).result.rc = some 0 ∧
      ∃ s, (leveldbGet (some [1])).result.final = some s ∧ ¬ NoValueLeft s.db.log := by
  refine ⟨?_, by decide +kernel, ?_⟩
  · intro returned
    have lost : ¬ Balanced (ledger (historyLog (uniformLeveldb (some [1])) ⟨"."⟩
        [.select [9] false])) := by decide
    exact lost returned.balanced
  · have log : (leveldbGet (some [1])).result.final.map (fun s => s.db.log) =
        some (openLog ++ [.received (.value 1)] ++ closeEvents) := by decide +kernel
    obtain ⟨s, final, hlog⟩ := Option.map_eq_some_iff.mp log
    refine ⟨s, final, ?_⟩
    intro none_left
    have one := none_left 1
    rw [hlog] at one
    exact absurd one (by decide)

end LeveldbBalance
