import MiniNb.NbPlugin

/-!
# The kyotocabinet driver

The translation of `nb_db_kyotocabinet.cc`, with the library as a parameter.
`set` and `remove` say whether they succeeded; `get` returns the size of the
value, or -1 where there is none. `select` must not be asked for the value,
which an assertion checks; it is modelled without assertions.
-/

namespace MiniNb

open ResourceLedger

universe v

structure KyotocabinetLibrary (Db : Type v) where
  mkdir : String → Int
  dirExists : String → Bool
  open_ : String → Option Db
  close : Db → Db
  set : Db → Bytes → Bytes → Bool × Db
  remove : Db → Bytes → Bool × Db
  get : Db → Bytes → Int × Db

variable {Db : Type v} (lib : KyotocabinetLibrary Db)

/-- `FILENAME_MAX`. -/
def filenameMax : Nat := 4096

def nbDbKyotocabinetOpen (opts : NbDbOpts) : Option Db :=
  if lib.mkdir opts.path ≠ 0 ∧ !lib.dirExists opts.path then none
  else lib.open_ (snprintf (filenameMax - 4) (opts.path ++ "/db"))

/-- The record is what `new` returns. A directory that cannot be made leaves it behind. -/
def nbDbKyotocabinetOpenLog (opts : NbDbOpts) : Bool × DriverLog :=
  if lib.mkdir opts.path ≠ 0 ∧ !lib.dirExists opts.path then (false, [.acquire .record])
  else
    match lib.open_ (snprintf (filenameMax - 4) (opts.path ++ "/db")) with
    | none => (false, [.acquire .record, .release .record])
    | some _ => (true, [.acquire .record])

def nbDbKyotocabinetCloseLog : DriverLog := [.release .record]

def nbDbKyotocabinetClose (db : Db) : Db := lib.close db

def nbDbKyotocabinetReplace (db : Db) (key val : Bytes) : Int × Db :=
  let (ok, db) := lib.set db key val
  if !ok then (-1, db) else (0, db)

def nbDbKyotocabinetRemove (db : Db) (key : Bytes) : Int × Db :=
  let (ok, db) := lib.remove db key
  if !ok then (-1, db) else (0, db)

/-- The result of `get` is negated as if it were a truth value. -/
def nbDbKyotocabinetSelect (db : Db) (key : Bytes) (_ : Bool) : Int × Option Bytes × Db :=
  let (size, db) := lib.get db key
  if size = 0 then (-1, none, db) else (0, none, db)

def nbDbKyotocabinetPlugin : NbDbIf Db where
  name := "kyotocabinet"
  open_ := nbDbKyotocabinetOpen lib
  close := nbDbKyotocabinetClose lib
  replace := nbDbKyotocabinetReplace lib
  remove := nbDbKyotocabinetRemove lib
  select := nbDbKyotocabinetSelect lib
  valfree := fun db _ => db

end MiniNb
