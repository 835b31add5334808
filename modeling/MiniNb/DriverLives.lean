import MiniNb.PluginContract

/-!
# What is left when a database is gone

A database is opened once and, if it was opened, closed once. Four drivers
have an exit from `open` that leaves something behind. Any failure behind the
allocation in the berkeleydb and tokukv drivers, and a directory that cannot be
made in the kyotocabinet driver, leave the record of the driver. A failure of
the library in the leveldb driver leaves the records of options and the text of
the error. Nothing else is ever left, and a database is given back before the
environment it lives in.
-/

namespace DriverLives

open MiniNb ResourceLedger StoredMap PluginContract

universe v
variable {Db : Type v}

/-- What `open` acquires and gives back, and whether it succeeds. -/
def openLog (opts : NbDbOpts) : Driver Db → Bool × DriverLog
  | .store (.leveldb lib) => nbDbLeveldbOpenLog lib opts
  | .store (.kyotocabinet lib) => nbDbKyotocabinetOpenLog lib opts
  | .store (.berkeleydb lib) => nbDbBerkeleydbOpenLog (lib.setup opts.path)
  | .store (.tokukv lib) => nbDbTokukvOpenLog (lib.setup opts.path)
  | .nessdb lib => nbDbNessdbOpenLog lib opts
  | .cascadedb lib => nbDbCascadedbOpenLog lib opts

def closeLog : Driver Db → DriverLog
  | .store (.leveldb _) => nbDbLeveldbCloseLog
  | .store (.kyotocabinet _) => nbDbKyotocabinetCloseLog
  | .store (.berkeleydb _) => dbtCloseLog
  | .store (.tokukv _) => dbtCloseLog
  | .nessdb _ => recordCloseLog
  | .cascadedb _ => recordCloseLog

/-- An open, and a close if there is something to close. -/
def lifeLog (open_ : Bool × DriverLog) (close : DriverLog) : DriverLog :=
  if open_.1 then open_.2 ++ close else open_.2

theorem record_opened (mallocOk opened : Bool) :
    (recordOpenLog mallocOk opened).1 = (mallocOk && opened) := by
  cases mallocOk with
  | false => rfl
  | true =>
    cases opened with
    | false => rfl
    | true => rfl

/-- The log belongs to the open of the plugin. -/
theorem openLog_opened (opts : NbDbOpts) (driver : Driver Db) :
    (openLog opts driver).1 = (driver.plugin.open_ opts).isSome := by
  rcases driver with (lib | lib | lib | lib) | lib | lib
  · change (nbDbLeveldbOpenLog lib opts).1 = (nbDbLeveldbOpen lib opts).1.isSome
    rw [nbDbLeveldbOpenLog, nbDbLeveldbOpen]
    cases lib.callocOk with
    | false => rfl
    | true =>
      cases lib.open_ opts.path with
      | ok db => rfl
      | error err => rfl
  · change (nbDbKyotocabinetOpenLog lib opts).1 = (nbDbKyotocabinetOpen lib opts).isSome
    rw [nbDbKyotocabinetOpenLog, nbDbKyotocabinetOpen]
    split
    · rfl
    cases lib.open_ (snprintf (filenameMax - 4) (opts.path ++ "/db")) with
    | none => rfl
    | some db => rfl
  · exact dbtOpenLog_opened lib _ _ _
  · refine (dbtOpenLog_opened lib _ _ _).trans ?_
    change _ = (nbDbTokukvOpen lib opts).isSome
    rw [nbDbTokukvOpen]
    simp
  · change (nbDbNessdbOpenLog lib opts).1 = (nbDbNessdbOpen lib opts).isSome
    rw [nbDbNessdbOpenLog, record_opened, nbDbNessdbOpen]
    cases lib.mallocOk with
    | false => rfl
    | true =>
      cases lib.dbOpen opts.path with
      | none => rfl
      | some db => rfl
  · change (nbDbCascadedbOpenLog lib opts).1 = (nbDbCascadedbOpen lib opts).isSome
    rw [nbDbCascadedbOpenLog, record_opened, nbDbCascadedbOpen]
    cases lib.mallocOk with
    | false => rfl
    | true =>
      cases lib.cdbNew opts.path with
      | none => rfl
      | some db => rfl

/-- What the exits of `open` leave behind. -/
def leftBehind (opts : NbDbOpts) : Driver Db → List DriverResource
  | .store (.leveldb lib) =>
    if lib.callocOk && !(nbDbLeveldbOpen lib opts).1.isSome then
      [.error, .writeOptions, .readOptions, .options]
    else []
  | .store (.kyotocabinet lib) =>
    if lib.mkdir opts.path ≠ 0 && !lib.dirExists opts.path then [.record] else []
  | .store (.berkeleydb lib) =>
    if (lib.setup opts.path).mallocOk && !(nbDbBerkeleydbOpen lib opts).isSome then [.record]
    else []
  | .store (.tokukv lib) =>
    if (lib.setup opts.path).mallocOk && !(nbDbTokukvOpen lib opts).isSome then [.record] else []
  | .nessdb _ => []
  | .cascadedb _ => []

/-- A life that leaves these resources, and closes the database before the environment. -/
structure Leaves (log : DriverLog) (left : List DriverResource) : Prop where
  settles : settle [] log = some left
  closed_first : Precedes (.release .database) (.release .env) log ∨
    Event.acquire .database ∉ log

theorem record_leaves (mallocOk opened : Bool) :
    Leaves (lifeLog (recordOpenLog mallocOk opened) recordCloseLog) [] := by
  have cases_ : recordOpenLog mallocOk opened = (false, []) ∨
      recordOpenLog mallocOk opened = (false, [.acquire .record, .release .record]) ∨
      recordOpenLog mallocOk opened = (true, [.acquire .record, .acquire .database]) := by
    cases mallocOk with
    | false => exact Or.inl rfl
    | true =>
      cases opened with
      | false => exact Or.inr (Or.inl rfl)
      | true => exact Or.inr (Or.inr rfl)
  rcases cases_ with h | h | h <;> rw [h] <;> exact ⟨by decide, by decide⟩

theorem leveldb_leaves (lib : LeveldbLibrary Db) (opts : NbDbOpts) :
    Leaves (lifeLog (nbDbLeveldbOpenLog lib opts) nbDbLeveldbCloseLog)
      (if lib.callocOk && !(nbDbLeveldbOpen lib opts).1.isSome then
        [.error, .writeOptions, .readOptions, .options]
      else []) := by
  rw [nbDbLeveldbOpenLog, nbDbLeveldbOpen]
  cases lib.callocOk with
  | false => exact ⟨rfl, Or.inr (by simp [lifeLog])⟩
  | true =>
    cases lib.open_ opts.path with
    | error err => exact ⟨rfl, Or.inr (by simp [lifeLog])⟩
    | ok db => exact ⟨rfl, Or.inl (by simp [lifeLog, nbDbLeveldbCloseLog, Precedes])⟩

/-- The ways in which an open of the `db.h` drivers ends. -/
theorem dbtOpenLog_cases (setup : DbSetup) (envCodes dbCodes : List Int) :
    (setup.mallocOk = false ∧ dbtOpenLog setup envCodes dbCodes = (false, [])) ∨
    (setup.mallocOk = true ∧
      (dbtOpenLog setup envCodes dbCodes = (false, [.acquire .record]) ∨
        dbtOpenLog setup envCodes dbCodes =
          (false, [.acquire .record, .acquire .env, .release .env]) ∨
        dbtOpenLog setup envCodes dbCodes = (false, [.acquire .record, .acquire .env,
          .acquire .database, .release .database, .release .env]) ∨
        dbtOpenLog setup envCodes dbCodes =
          (true, [.acquire .record, .acquire .env, .acquire .database]))) := by
  rw [dbtOpenLog]
  cases setup.mallocOk with
  | false => exact Or.inl ⟨rfl, rfl⟩
  | true =>
    refine Or.inr ⟨rfl, ?_⟩
    simp only [Bool.not_true, Bool.false_eq_true, if_false]
    split
    · exact Or.inl rfl
    split
    · exact Or.inl rfl
    split
    · exact Or.inr (Or.inl rfl)
    split
    · exact Or.inr (Or.inl rfl)
    split
    · exact Or.inr (Or.inr (Or.inl rfl))
    · exact Or.inr (Or.inr (Or.inr rfl))

theorem dbt_leaves {setup : DbSetup} {envCodes dbCodes : List Int} {opened : Bool}
    (h : (dbtOpenLog setup envCodes dbCodes).1 = opened) :
    Leaves (lifeLog (dbtOpenLog setup envCodes dbCodes) dbtCloseLog)
      (if setup.mallocOk && !opened then [.record] else []) := by
  subst h
  rcases dbtOpenLog_cases setup envCodes dbCodes with
      ⟨hmalloc, hlog⟩ | ⟨hmalloc, hlog | hlog | hlog | hlog⟩ <;>
    rw [hmalloc, hlog] <;> exact ⟨by decide, by decide⟩

theorem kyotocabinet_leaves (lib : KyotocabinetLibrary Db) (opts : NbDbOpts) :
    Leaves (lifeLog (nbDbKyotocabinetOpenLog lib opts) nbDbKyotocabinetCloseLog)
      (if lib.mkdir opts.path ≠ 0 && !lib.dirExists opts.path then [.record] else []) := by
  simp only [Bool.and_eq_true, decide_eq_true_eq]
  rw [nbDbKyotocabinetOpenLog]
  split
  · exact ⟨by decide, by decide⟩
  cases lib.open_ (snprintf (filenameMax - 4) (opts.path ++ "/db")) with
  | none => exact ⟨rfl, Or.inr (by simp [lifeLog])⟩
  | some db => exact ⟨rfl, Or.inr (by simp [lifeLog, nbDbKyotocabinetCloseLog])⟩

/-- Whatever the system and the library answer, a life leaves this behind, and a
database is closed before its environment. -/
theorem life_leaves (opts : NbDbOpts) (driver : Driver Db) :
    Leaves (lifeLog (openLog opts driver) (closeLog driver)) (leftBehind opts driver) := by
  have opened := openLog_opened opts driver
  rcases driver with (lib | lib | lib | lib) | lib | lib
  · exact leveldb_leaves lib opts
  · exact kyotocabinet_leaves lib opts
  · exact dbt_leaves opened
  · exact dbt_leaves opened
  · exact record_leaves _ _
  · exact record_leaves _ _

end DriverLives
