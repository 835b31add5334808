import MiniNb.NbPlugin

/-!
# The berkeleydb and tokukv drivers

The translation of `nb_db_berkeleydb.c` and `nb_db_tokukv.c`. Both libraries
have the interface of `db.h`: a call takes its key and value in `DBT` records
and returns a code. The drivers differ in the flags of `put` and in the calls
made while a database is opened; the rest is one adapter.

The library is a parameter. It keeps a state of its own, so its codes may
depend on everything it was asked before.
-/

namespace MiniNb

open ResourceLedger

universe v

/-- A `DBT` record; the size is a `u_int32_t`. -/
structure Dbt where
  data : Bytes
  size : UInt32
  flags : UInt32

/-- The codes of the calls made by `open`. Only tokukv sets and reads the
compression method, and there `set_cachesize` may be missing. -/
structure DbSetup where
  mallocOk : Bool
  mkdir : Int
  dirExists : Bool
  envCreate : Int
  hasSetCachesize : Bool
  setCachesize : Int
  setFlags : Int
  envOpen : Int
  dbCreate : Int
  setCompressionMethod : Int
  dbOpen : Int
  getCompressionMethod : Int

structure DbLibrary (Db : Type v) where
  notFound : Int
  notFound_ne : notFound ≠ 0
  overwriteDup : UInt32
  dbtMalloc : UInt32
  setup : String → DbSetup
  opened : Db
  close : Db → Db
  put : Db → Dbt → Dbt → UInt32 → Int × Db
  get : Db → Dbt → Dbt → UInt32 → Int × Dbt × Db
  del : Db → Dbt → UInt32 → Int × Db

variable {Db : Type v} (lib : DbLibrary Db)

/-- A zeroed record that is pointed at a buffer. -/
def dbtOf (buf : Bytes) : Dbt := ⟨buf, UInt32.ofNat buf.length, 0⟩

/-- Every code is checked, and any code but zero gives up. -/
def dbtOpen (setup : DbSetup) (codes : List Int) : Option Db :=
  if !setup.mallocOk then none
  else if setup.mkdir ≠ 0 ∧ !setup.dirExists then none
  else if codes.all (fun r => r = 0) then some lib.opened
  else none

/-! The cleanup labels of `open`. None of them frees the record. -/

def dbtError1 : DriverLog := []

def dbtError2 : DriverLog := .release .env :: dbtError1

def dbtError3 : DriverLog := .release .database :: dbtError2

/-- What an open acquires and gives back: the calls before the environment is
there, the codes of the calls on it, and those of the calls on the database. -/
def dbtOpenLog (setup : DbSetup) (envCodes dbCodes : List Int) : Bool × DriverLog :=
  if !setup.mallocOk then (false, [])
  else if setup.mkdir ≠ 0 ∧ !setup.dirExists then (false, .acquire .record :: dbtError1)
  else if setup.envCreate ≠ 0 then (false, .acquire .record :: dbtError1)
  else
    let log : DriverLog := [.acquire .record, .acquire .env]
    if envCodes.any (fun r => r ≠ 0) then (false, log ++ dbtError2)
    else if setup.dbCreate ≠ 0 then (false, log ++ dbtError2)
    else
      let log := log ++ [.acquire .database]
      if dbCodes.any (fun r => r ≠ 0) then (false, log ++ dbtError3) else (true, log)

def dbtCloseLog : DriverLog := [.release .database, .release .env, .release .record]

theorem dbtOpenLog_opened (setup : DbSetup) (envCodes dbCodes : List Int) :
    (dbtOpenLog setup envCodes dbCodes).1 =
      (dbtOpen lib setup (setup.envCreate :: envCodes ++ setup.dbCreate :: dbCodes)).isSome := by
  have all_any : ∀ codes : List Int,
      codes.all (fun r => r = 0) = !codes.any (fun r => r ≠ 0) := by
    intro codes
    simp [List.not_any_eq_all_not]
  rw [dbtOpenLog, dbtOpen]
  dsimp only
  rw [List.all_append, List.all_cons, List.all_cons, all_any, all_any]
  split
  · rfl
  split
  · rfl
  by_cases henv : setup.envCreate = 0
  · cases henvCodes : envCodes.any (fun r => r ≠ 0) with
    | true => simp [henv]
    | false =>
      by_cases hdb : setup.dbCreate = 0
      · cases hdbCodes : dbCodes.any (fun r => r ≠ 0) with
        | true => simp [henv, hdb]
        | false => simp [henv, hdb]
      · simp [henv, hdb]
  · simp [henv]

def dbtReplace (putFlags : UInt32) (db : Db) (key val : Bytes) : Int × Db :=
  let (r, db) := lib.put db (dbtOf key) (dbtOf val) putFlags
  if r = lib.notFound then (-1, db) else (0, db)

def dbtRemove (db : Db) (key : Bytes) : Int × Db :=
  let (r, db) := lib.del db (dbtOf key) 0
  if r = lib.notFound then (-1, db) else (0, db)

/-- The record that `select` hands to `get` for the value. -/
def selectDbt (wantsValue : Bool) : Dbt := ⟨[], 0, if wantsValue then lib.dbtMalloc else 0⟩

def dbtSelect (db : Db) (key : Bytes) (wantsValue : Bool) : Int × Option Bytes × Db :=
  let (r, dbval, db) := lib.get db (dbtOf key) (selectDbt lib wantsValue) 0
  if r = lib.notFound then (-1, none, db)
  else if wantsValue then (0, some (dbval.data.take dbval.size.toNat), db)
  else (0, none, db)

theorem dbtReplace_eq (putFlags : UInt32) (db : Db) (key val : Bytes) :
    dbtReplace lib putFlags db key val =
      (if (lib.put db (dbtOf key) (dbtOf val) putFlags).1 = lib.notFound then -1 else 0,
        (lib.put db (dbtOf key) (dbtOf val) putFlags).2) := by
  rw [dbtReplace]
  dsimp only
  split
  · rfl
  · rfl

theorem dbtRemove_eq (db : Db) (key : Bytes) :
    dbtRemove lib db key = (if (lib.del db (dbtOf key) 0).1 = lib.notFound then -1 else 0,
      (lib.del db (dbtOf key) 0).2) := by
  rw [dbtRemove]
  dsimp only
  split
  · rfl
  · rfl

theorem dbtSelect_code (db : Db) (key : Bytes) (wantsValue : Bool) :
    (dbtSelect lib db key wantsValue).1 =
      if (lib.get db (dbtOf key) (selectDbt lib wantsValue) 0).1 = lib.notFound then -1 else 0 := by
  rw [dbtSelect]
  dsimp only
  split
  · rfl
  · cases wantsValue with
    | true => rfl
    | false => rfl

/-! `nb_db_berkeleydb.c` -/

/-- The result of `log_set_config` is never looked at. -/
def nbDbBerkeleydbOpen (opts : NbDbOpts) : Option Db :=
  let setup := lib.setup opts.path
  dbtOpen lib setup [setup.envCreate, setup.setCachesize, setup.setFlags, setup.envOpen,
    setup.dbCreate, setup.dbOpen]

def nbDbBerkeleydbOpenLog (setup : DbSetup) : Bool × DriverLog :=
  dbtOpenLog setup [setup.setCachesize, setup.setFlags, setup.envOpen] [setup.dbOpen]

def nbDbBerkeleydbClose (db : Db) : Db := lib.close db

def nbDbBerkeleydbReplace (db : Db) (key val : Bytes) : Int × Db :=
  dbtReplace lib lib.overwriteDup db key val

def nbDbBerkeleydbRemove (db : Db) (key : Bytes) : Int × Db := dbtRemove lib db key

def nbDbBerkeleydbSelect (db : Db) (key : Bytes) (wantsValue : Bool) : Int × Option Bytes × Db :=
  dbtSelect lib db key wantsValue

def nbDbBerkeleydbPlugin : NbDbIf Db where
  name := "berkeleydb"
  open_ := nbDbBerkeleydbOpen lib
  close := nbDbBerkeleydbClose lib
  replace := nbDbBerkeleydbReplace lib
  remove := nbDbBerkeleydbRemove lib
  select := nbDbBerkeleydbSelect lib
  valfree := fun db _ => db

/-! `nb_db_tokukv.c` -/

def nbDbTokukvOpen (opts : NbDbOpts) : Option Db :=
  let setup := lib.setup opts.path
  dbtOpen lib setup ([setup.envCreate] ++
    (if setup.hasSetCachesize then [setup.setCachesize] else []) ++
    [setup.envOpen, setup.dbCreate, setup.setCompressionMethod, setup.dbOpen,
      setup.getCompressionMethod])

def nbDbTokukvOpenLog (setup : DbSetup) : Bool × DriverLog :=
  dbtOpenLog setup
    ((if setup.hasSetCachesize then [setup.setCachesize] else []) ++ [setup.envOpen])
    [setup.setCompressionMethod, setup.dbOpen, setup.getCompressionMethod]

def nbDbTokukvClose (db : Db) : Db := lib.close db

def nbDbTokukvReplace (db : Db) (key val : Bytes) : Int × Db := dbtReplace lib 0 db key val

def nbDbTokukvRemove (db : Db) (key : Bytes) : Int × Db := dbtRemove lib db key

def nbDbTokukvSelect (db : Db) (key : Bytes) (wantsValue : Bool) : Int × Option Bytes × Db :=
  dbtSelect lib db key wantsValue

def nbDbTokukvPlugin : NbDbIf Db where
  name := "tokukv"
  open_ := nbDbTokukvOpen lib
  close := nbDbTokukvClose lib
  replace := nbDbTokukvReplace lib
  remove := nbDbTokukvRemove lib
  select := nbDbTokukvSelect lib
  valfree := fun db _ => db

end MiniNb
