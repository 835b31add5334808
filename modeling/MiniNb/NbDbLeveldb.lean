import MiniNb.NbPlugin

/-!
# The leveldb driver

The translation of `nb_db_leveldb.c`. The library hands out objects that the
driver has to give back: the three records of options, the database, the values
it reads and the error strings. The record of an open database keeps the log of
these objects beside what the source keeps there. Values and error strings are
named by the number of the call they came from.

The library is a parameter with a state of its own. The settings in the options
are constants without a result and are left out, like the printed messages.
-/

namespace MiniNb

open ResourceLedger

universe v

inductive LeveldbObject where
  | options
  | readOptions
  | writeOptions
  | database
  | value (call : Nat)
  | error (call : Nat)
  deriving DecidableEq

/-- An object comes from the library, goes back to it, or becomes the property of
the caller. -/
abbrev LeveldbEvent := Handling LeveldbObject

/-- Each call may set its error string. `get` returns nothing for `NULL`. -/
structure LeveldbLibrary (Db : Type v) where
  callocOk : Bool
  open_ : String → Except String Db
  close : Db → Db
  put : Db → Bytes → Bytes → Option String × Db
  delete : Db → Bytes → Option String × Db
  get : Db → Bytes → Option Bytes × Option String × Db

structure NbDbLeveldb (Db : Type v) where
  instance_ : Db
  calls : Nat
  log : List LeveldbEvent

variable {Db : Type v} (lib : LeveldbLibrary Db)

def errorReceived (call : Nat) (err : Option String) : List LeveldbEvent :=
  if err.isSome then [.received (.error call)] else []

def valueReceived (call : Nat) (val : Option Bytes) : List LeveldbEvent :=
  if val.isSome then [.received (.value call)] else []

/-- The record behind one more call. -/
def NbDbLeveldb.after (db : NbDbLeveldb Db) (instance_ : Db) (events : List LeveldbEvent) :
    NbDbLeveldb Db :=
  ⟨instance_, db.calls + 1, db.log ++ events⟩

/-- The log is all that is left of an open that fails. -/
def nbDbLeveldbOpen (opts : NbDbOpts) : Option (NbDbLeveldb Db) × List LeveldbEvent :=
  if !lib.callocOk then (none, [])
  else
    let log : List LeveldbEvent :=
      [.received .options, .received .readOptions, .received .writeOptions]
    match lib.open_ opts.path with
    | .error err => (none, log ++ errorReceived 0 (some err))
    | .ok db => (some ⟨db, 1, log ++ [.received .database]⟩, log ++ [.received .database])

/-- The record of the driver and the objects of the library. A failure in the
library frees the record alone. -/
def nbDbLeveldbOpenLog (opts : NbDbOpts) : Bool × DriverLog :=
  if !lib.callocOk then (false, [])
  else
    let log : DriverLog := [.acquire .record, .acquire .options, .acquire .readOptions,
      .acquire .writeOptions]
    match lib.open_ opts.path with
    | .error _ => (false, log ++ [.acquire .error, .release .record])
    | .ok _ => (true, log ++ [.acquire .database])

def nbDbLeveldbCloseLog : DriverLog := [.release .database, .release .readOptions,
  .release .writeOptions, .release .options, .release .record]

def nbDbLeveldbClose (db : NbDbLeveldb Db) : NbDbLeveldb Db :=
  db.after (lib.close db.instance_)
    [.released .database, .released .readOptions, .released .writeOptions, .released .options]

def nbDbLeveldbReplace (db : NbDbLeveldb Db) (key val : Bytes) : Int × NbDbLeveldb Db :=
  let (err, instance_) := lib.put db.instance_ key val
  let db := db.after instance_ (errorReceived db.calls err)
  if err.isSome then (-1, db) else (0, db)

def nbDbLeveldbRemove (db : NbDbLeveldb Db) (key : Bytes) : Int × NbDbLeveldb Db :=
  let (err, instance_) := lib.delete db.instance_ key
  let db := db.after instance_ (errorReceived db.calls err)
  if err.isSome then (-1, db) else (0, db)

/-- The value is given to a caller that asks for it, and to nobody otherwise. -/
def nbDbLeveldbSelect (db : NbDbLeveldb Db) (key : Bytes) (wantsValue : Bool) :
    Int × Option Bytes × NbDbLeveldb Db :=
  let (val, err, instance_) := lib.get db.instance_ key
  let events := valueReceived db.calls val ++ errorReceived db.calls err
  if val.isNone || err.isSome then (-1, none, db.after instance_ events)
  else if wantsValue then
    (0, val, db.after instance_ (events ++ [.handed (.value db.calls)]))
  else (0, none, db.after instance_ events)

/-- The caller gives back its own value. -/
def nbDbLeveldbValfree (db : NbDbLeveldb Db) (_ : Bytes) : NbDbLeveldb Db := db

def nbDbLeveldbPlugin : NbDbIf (NbDbLeveldb Db) where
  name := "leveldb"
  open_ := fun opts => (nbDbLeveldbOpen lib opts).1
  close := nbDbLeveldbClose lib
  replace := nbDbLeveldbReplace lib
  remove := nbDbLeveldbRemove lib
  select := nbDbLeveldbSelect lib
  valfree := nbDbLeveldbValfree

end MiniNb
