import MiniNb.Environment

/-!
# The plugin interface and its loader

The translation of `nb_plugin_api.h` and `nb_plugin.c`. A database is a state
that every call may change, so what a call answers can depend on everything
that was asked before. `select` is told whether the caller wants the value.
-/

namespace MiniNb

open ResourceLedger

universe v

structure NbDbOpts where
  path : String

structure NbDbIf (Db : Type v) where
  name : String
  open_ : NbDbOpts → Option Db
  close : Db → Db
  replace : Db → Bytes → Bytes → Int × Db
  remove : Db → Bytes → Int × Db
  select : Db → Bytes → Bool → Int × Option Bytes × Db
  valfree : Db → Bytes → Db

structure NbPlugin (Db : Type v) where
  pif : NbDbIf Db

/-- The memory for the plugin record and the dynamic linker: a library by its
path, an interface by the name of the function that returns it. -/
structure PluginLoader (Db : Type v) where
  mallocOk : Bool
  dlopen : String → Option (String → Option (NbDbIf Db))
  dlerror : String

variable {Db : Type v}

structure PluginLoad (Db : Type v) where
  plugin : Option (NbPlugin Db)
  log : Log
  stderr : List String

def nbPluginLoad (loader : PluginLoader Db) (name : String) : PluginLoad Db :=
  if !loader.mallocOk then ⟨none, [], ["malloc(16) failed\n"]⟩
  else
    let path := snprintf (pathMax - 1) ("plugins/" ++ name ++ "/libnb_db_" ++ name ++ ".so")
    match loader.dlopen path with
    | none =>
      ⟨none, [.acquire .plugin, .release .plugin],
        ["Can not load '" ++ path ++ "' file: " ++ loader.dlerror ++ "\n"]⟩
    | some dlsym =>
      let failed : Log :=
        [.acquire .plugin, .acquire .handle, .release .handle, .release .plugin]
      match dlsym (snprintf (pathMax - 1) ("nb_db_" ++ name ++ "_plugin")) with
      | none =>
        ⟨none, failed, ["Invalid plugin '" ++ name ++ "': " ++ loader.dlerror ++ "\n"]⟩
      | some pif =>
        if pif.name ≠ name then ⟨none, failed, ["Invalid plugin '" ++ name ++ "'\n"]⟩
        else ⟨some ⟨pif⟩, [.acquire .plugin, .acquire .handle], []⟩

/-- A plugin that is loaded has the requested name. -/
theorem load_named {loader : PluginLoader Db} {name : String} {plugin : NbPlugin Db}
    (loaded : (nbPluginLoad loader name).plugin = some plugin) : plugin.pif.name = name := by
  unfold nbPluginLoad at loaded
  dsimp only at loaded
  split at loaded
  · cases loaded
  split at loaded
  · cases loaded
  split at loaded
  · cases loaded
  split at loaded
  · cases loaded
  · rename_i named
    cases loaded
    exact not_not.mp named

def nbPluginUnload : Log := [.release .handle, .release .plugin]

/-- What a driver holds of an open database: its record, the environment or the
records of options that some libraries need, the database of the library, and
the text of an error of the library. -/
inductive DriverResource where
  | record
  | env
  | options
  | readOptions
  | writeOptions
  | database
  | error
  deriving DecidableEq

abbrev DriverLog := List (Event DriverResource)

/-- What an open acquires and gives back that frees its record when the library
cannot open the database. -/
def recordOpenLog (mallocOk opened : Bool) : Bool × DriverLog :=
  if !mallocOk then (false, [])
  else if !opened then (false, [.acquire .record, .release .record])
  else (true, [.acquire .record, .acquire .database])

def recordCloseLog : DriverLog := [.release .database, .release .record]

end MiniNb
