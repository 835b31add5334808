import MiniNb.NbPlugin

/-!
# The nessdb and cascadedb drivers

The translation of `nb_db_nessdb.c` and `nb_db_cascadedb.c`. Both libraries
take keys and values in records of a pointer and a length, and report by a
count or a code. The value of a `get` is a buffer of the library. The record of
an open database keeps the log of these buffers beside what the source keeps
there; a buffer is named by the number of the call it came from.

The two versions of nessdb differ in what becomes of a buffer, so the version
is a field of the library. So is what the driver's source does not show: whether
the first version gives a buffer away or keeps it. The functions of the nessdb
driver are its calls that return; in a build with assertions a call with lengths
that do not fit into the records ends the process. The printed messages are left
out.
-/

namespace MiniNb

open ResourceLedger

universe v

/-- `struct slice` and `struct db_slice`. -/
structure Slice where
  data : Bytes
  len : Nat

def sliceOf (buf : Bytes) : Slice := ⟨buf, buf.length⟩

/-- What the record stands for. -/
def Slice.bytes (slice : Slice) : Bytes := slice.data.take slice.len

/-- The buffer of a value comes from the library, goes back to it, or becomes the
property of the caller. -/
abbrev ValueEvent := Handling Nat

structure SliceDb (Db : Type v) where
  instance_ : Db
  calls : Nat
  log : List ValueEvent

variable {Db : Type v}

/-- The record behind one more call. -/
def SliceDb.after (db : SliceDb Db) (instance_ : Db) (events : List ValueEvent) : SliceDb Db :=
  ⟨instance_, db.calls + 1, db.log ++ events⟩

/-! `nb_db_nessdb.c` -/

/-- The assertion of the calls on each length: it is less than `UINT_MAX`. -/
abbrev nbDbNessdbAsserts (buf : Bytes) : Prop := buf.length < 2 ^ 32 - 1

/-- `db_add` and `db_get` return how many records they dealt with. The buffers of
the second version are the driver's, which has a function to free them. -/
structure NessdbLibrary (Db : Type v) where
  v2 : Bool
  v1GivesBuffer : Bool
  mallocOk : Bool
  dbOpen : String → Option Db
  dbClose : Db → Db
  dbAdd : Db → Slice → Slice → Int × Db
  dbRemove : Db → Slice → Db
  dbGet : Db → Slice → Int × Slice × Db

section Nessdb
variable (lib : NessdbLibrary Db)

def nbDbNessdbOpen (opts : NbDbOpts) : Option (SliceDb Db) :=
  if !lib.mallocOk then none
  else
    match lib.dbOpen opts.path with
    | none => none
    | some db => some ⟨db, 0, []⟩

def nbDbNessdbOpenLog (opts : NbDbOpts) : Bool × DriverLog :=
  recordOpenLog lib.mallocOk (lib.dbOpen opts.path).isSome

def nbDbNessdbClose (db : SliceDb Db) : SliceDb Db := db.after (lib.dbClose db.instance_) []

def nbDbNessdbReplace (db : SliceDb Db) (key val : Bytes) : Int × SliceDb Db :=
  let (count, instance_) := lib.dbAdd db.instance_ (sliceOf key) (sliceOf val)
  if count ≠ 1 then (-1, db.after instance_ []) else (0, db.after instance_ [])

def nbDbNessdbRemove (db : SliceDb Db) (key : Bytes) : Int × SliceDb Db :=
  (0, db.after (lib.dbRemove db.instance_ (sliceOf key)) [])

/-- Only the second version has a function to free a value. -/
def nbDbNessdbSelect (db : SliceDb Db) (key : Bytes) (wantsValue : Bool) :
    Int × Option Bytes × SliceDb Db :=
  let (count, nval, instance_) := lib.dbGet db.instance_ (sliceOf key)
  let received : List ValueEvent :=
    if lib.v2 || lib.v1GivesBuffer then [.received db.calls] else []
  if count ≠ 1 then (-1, none, db.after instance_ [])
  else if wantsValue then
    (0, some nval.bytes, db.after instance_ (received ++ received.map fun _ => .handed db.calls))
  else if lib.v2 then (0, none, db.after instance_ (received ++ [.released db.calls]))
  else (0, none, db.after instance_ received)

/-- What is freed here, or left to leak, is the caller's. -/
def nbDbNessdbValfree (db : SliceDb Db) (_ : Bytes) : SliceDb Db := db

def nbDbNessdbPlugin : NbDbIf (SliceDb Db) where
  name := "nessdb"
  open_ := nbDbNessdbOpen lib
  close := nbDbNessdbClose lib
  replace := nbDbNessdbReplace lib
  remove := nbDbNessdbRemove lib
  select := nbDbNessdbSelect lib
  valfree := nbDbNessdbValfree

end Nessdb

/-! `nb_db_cascadedb.c` -/

/-- A change is numbered; `cdb_put` returns zero, and `cdb_get` a count. -/
structure CascadedbLibrary (Db : Type v) where
  mallocOk : Bool
  cdbNew : String → Option Db
  cdbDelete : Db → Db
  cdbLsn : Db → UInt64
  cdbPut : Db → Slice → Slice → UInt64 → Int × Db
  cdbDel : Db → Slice → UInt64 → Db
  cdbGet : Db → Slice → Int × Slice × Db

section Cascadedb
variable (lib : CascadedbLibrary Db)

def nbDbCascadedbOpen (opts : NbDbOpts) : Option (SliceDb Db) :=
  if !lib.mallocOk then none
  else
    match lib.cdbNew opts.path with
    | none => none
    | some db => some ⟨db, 0, []⟩

def nbDbCascadedbOpenLog (opts : NbDbOpts) : Bool × DriverLog :=
  recordOpenLog lib.mallocOk (lib.cdbNew opts.path).isSome

def nbDbCascadedbClose (db : SliceDb Db) : SliceDb Db := db.after (lib.cdbDelete db.instance_) []

def nbDbCascadedbReplace (db : SliceDb Db) (key val : Bytes) : Int × SliceDb Db :=
  let (count, instance_) := lib.cdbPut db.instance_ (sliceOf key) (sliceOf val)
    (lib.cdbLsn db.instance_ + 1)
  if count ≠ 0 then (-1, db.after instance_ []) else (0, db.after instance_ [])

def nbDbCascadedbRemove (db : SliceDb Db) (key : Bytes) : Int × SliceDb Db :=
  (0, db.after (lib.cdbDel db.instance_ (sliceOf key) (lib.cdbLsn db.instance_ + 1)) [])

/-- A value that the caller does not want is given to nobody. -/
def nbDbCascadedbSelect (db : SliceDb Db) (key : Bytes) (wantsValue : Bool) :
    Int × Option Bytes × SliceDb Db :=
  let (count, nval, instance_) := lib.cdbGet db.instance_ (sliceOf key)
  if count ≠ 1 then (-1, none, db.after instance_ [])
  else if wantsValue then
    (0, some nval.bytes, db.after instance_ [.received db.calls, .handed db.calls])
  else (0, none, db.after instance_ [.received db.calls])

/-- The caller gives back its own value. -/
def nbDbCascadedbValfree (db : SliceDb Db) (_ : Bytes) : SliceDb Db := db

def nbDbCascadedbPlugin : NbDbIf (SliceDb Db) where
  name := "cascadedb"
  open_ := nbDbCascadedbOpen lib
  close := nbDbCascadedbClose lib
  replace := nbDbCascadedbReplace lib
  remove := nbDbCascadedbRemove lib
  select := nbDbCascadedbSelect lib
  valfree := nbDbCascadedbValfree

end Cascadedb

end MiniNb
