import MiniNb.NbDbSlices
import MiniNb.StoredMap

/-!
# What a plugin owes the engine

A database is a map from keys to values. `Stores` says how the calls of a
plugin act on this map, `Finds` and `Reads` say what `select` answers from it.
Results about whole runs rest on this contract alone.

Every driver keeps it over a library that is a correct map and does not lose
its content when it reads or closes. The kyotocabinet driver keeps less: it
finds no empty value, and it never returns a value.
-/

namespace PluginContract

open MiniNb MapHistory StoredMap

universe v
variable {Db : Type v}

/-- Shorter than `UINT_MAX`, as one of the drivers asserts. -/
def Fits (bytes : Bytes) : Prop := nbDbNessdbAsserts bytes

theorem Fits.short {bytes : Bytes} (fits : Fits bytes) : Short bytes :=
  Nat.lt_of_lt_of_le fits (Nat.sub_le _ _)

section Contract
variable (pif : NbDbIf Db) (view : Db → Bytes → Option Bytes)

/-- The calls of the plugin act on the map. -/
structure Stores : Prop where
  replace : ∀ db key val, Fits key → Fits val → (pif.replace db key val).1 = 0 ∧
    view (pif.replace db key val).2 = apply (view db) (.replace key val)
  remove : ∀ db key, Fits key → view (pif.remove db key).2 = apply (view db) (.remove key)
  select : ∀ db key wantsValue, view (pif.select db key wantsValue).2.2 = view db
  close : ∀ db, view (pif.close db) = view db

/-- A stored value of this kind is found. -/
def Finds (readable : Bytes → Prop) : Prop :=
  ∀ db key val, Fits key → Fits val → view db key = some val → readable val →
    (pif.select db key false).1 = 0

/-- What `select` should return for a key that holds this. -/
def reply (wantsValue : Bool) : Option Bytes → Int × Option Bytes
  | some val => (0, if wantsValue then some val else none)
  | none => (-1, none)

def Reads : Prop :=
  ∀ db key wantsValue, Fits key → (∀ val, view db key = some val → Fits val) →
    ((pif.select db key wantsValue).1, (pif.select db key wantsValue).2.1) =
      reply wantsValue (view db key)

end Contract

section Contract
variable {pif : NbDbIf Db} {view : Db → Bytes → Option Bytes}

theorem Reads.finds (reads : Reads pif view) (readable : Bytes → Prop) :
    Finds pif view readable := by
  intro db key val fits fitsVal held _
  have answer := reads db key false fits (fun val' h => by
    rw [held] at h
    exact Option.some.inj h ▸ fitsVal)
  rw [held] at answer
  exact congrArg Prod.fst answer

end Contract

/-- One call of a history. -/
inductive DbCall where
  | replace (key val : Bytes)
  | remove (key : Bytes)
  | select (key : Bytes) (wantsValue : Bool)

namespace DbCall

/-- What the call writes. -/
def write : DbCall → Option (Op Bytes Bytes)
  | .replace key val => some (.replace key val)
  | .remove key => some (.remove key)
  | .select _ _ => none

def FitsCall : DbCall → Prop
  | .replace key val => Fits key ∧ Fits val
  | .remove key => Fits key
  | .select key _ => Fits key

end DbCall

def callPlugin (pif : NbDbIf Db) (db : Db) : DbCall → Db
  | .replace key val => (pif.replace db key val).2
  | .remove key => (pif.remove db key).2
  | .select key wantsValue => (pif.select db key wantsValue).2.2

/-- What a key holds after the calls, when it held this before them. -/
def holds (before : Option Bytes) (calls : List DbCall) (key : Bytes) : Option Bytes :=
  (lastOn key (calls.filterMap DbCall.write)).elim before Op.value

section Histories
variable {pif : NbDbIf Db} {view : Db → Bytes → Option Bytes}

/-- One call acts on the map by what it writes. -/
theorem Stores.call (stores : Stores pif view) (db : Db) (call : DbCall) (fits : call.FitsCall) :
    view (callPlugin pif db call) = call.write.elim (view db) (apply (view db)) := by
  cases call with
  | replace key val => exact (stores.replace db key val fits.1 fits.2).2
  | remove key => exact stores.remove db key fits
  | select key wantsValue => exact stores.select db key wantsValue

theorem Stores.calls (stores : Stores pif view) {calls : List DbCall}
    (fits : ∀ call ∈ calls, call.FitsCall) (db : Db) (key : Bytes) :
    view (calls.foldl (callPlugin pif) db) key = holds (view db key) calls key := by
  rw [view_writes stores.call fits, foldl_apply_eq, holds]

/-- The value of the last operation on a key was given with a call. -/
theorem fits_holds {before : Option Bytes} {calls : List DbCall}
    (fits : ∀ call ∈ calls, call.FitsCall) (held : ∀ val, before = some val → Fits val)
    {key val : Bytes} (h : holds before calls key = some val) : Fits val := by
  unfold holds lastOn at h
  cases hlast : ((calls.filterMap DbCall.write).filter (fun op => op.key = key)).getLast? with
  | none =>
    rw [hlast] at h
    exact held val h
  | some op =>
    rw [hlast] at h
    have hmem := List.mem_of_mem_filter (List.mem_of_getLast? hlast)
    obtain ⟨call, hcall, hwrite⟩ := List.mem_filterMap.mp hmem
    have hfits := fits call hcall
    cases call with
    | replace key' val' =>
      cases hwrite
      cases h
      exact hfits.2
    | remove key' =>
      cases hwrite
      cases h
    | select key' wantsValue => cases hwrite

/-- After any history, `select` answers from the last operation on the key. -/
theorem Reads.after_calls (reads : Reads pif view) (stores : Stores pif view)
    {calls : List DbCall} (fits : ∀ call ∈ calls, call.FitsCall) {db : Db} {key : Bytes}
    (fitsKey : Fits key) (held : ∀ val, view db key = some val → Fits val) (wantsValue : Bool) :
    ((pif.select (calls.foldl (callPlugin pif) db) key wantsValue).1,
        (pif.select (calls.foldl (callPlugin pif) db) key wantsValue).2.1) =
      reply wantsValue (holds (view db key) calls key) := by
  have after := stores.calls fits db key
  have answer := reads (calls.foldl (callPlugin pif) db) key wantsValue fitsKey
  rw [after] at answer
  exact answer (fun val h => fits_holds fits held h)

end Histories

section Libraries
variable (view : Db → Bytes → Option Bytes)

structure LeveldbKeeps (lib : LeveldbLibrary Db) : Prop extends LeveldbIsMap view lib where
  get_keeps : ∀ db key, view (lib.get db key).2.2 = view db
  close_keeps : ∀ db, view (lib.close db) = view db

structure KyotocabinetKeeps (lib : KyotocabinetLibrary Db) : Prop
    extends KyotocabinetIsMap view lib where
  get_keeps : ∀ db key, view (lib.get db key).2 = view db
  close_keeps : ∀ db, view (lib.close db) = view db

/-- A value of `get` arrives whole where the record asks for memory. -/
structure DbKeeps (lib : DbLibrary Db) : Prop extends DbIsMap view lib where
  get_keeps : ∀ db key val, view (lib.get db key val 0).2.2 = view db
  get_value : ∀ db key val, view db (dbtBytes key) = some val → Short val →
    dbtBytes (lib.get db key (selectDbt lib true) 0).2.1 = val
  close_keeps : ∀ db, view (lib.close db) = view db

/-- `db_add` and `db_get` deal with one record, or `db_get` with none. -/
structure NessdbKeeps (lib : NessdbLibrary Db) : Prop where
  add : ∀ db key val, (lib.dbAdd db key val).1 = 1 ∧
    view (lib.dbAdd db key val).2 = apply (view db) (.replace key.bytes val.bytes)
  remove : ∀ db key, view (lib.dbRemove db key) = apply (view db) (.remove key.bytes)
  get_found : ∀ db key val, view db key.bytes = some val →
    (lib.dbGet db key).1 = 1 ∧ (lib.dbGet db key).2.1.bytes = val
  get_absent : ∀ db key, view db key.bytes = none → (lib.dbGet db key).1 = 0
  get_keeps : ∀ db key, view (lib.dbGet db key).2.2 = view db
  close_keeps : ∀ db, view (lib.dbClose db) = view db

/-- `cdb_put` returns zero, and `cdb_get` the number of records found. -/
structure CascadedbKeeps (lib : CascadedbLibrary Db) : Prop where
  put : ∀ db key val lsn, (lib.cdbPut db key val lsn).1 = 0 ∧
    view (lib.cdbPut db key val lsn).2 = apply (view db) (.replace key.bytes val.bytes)
  del : ∀ db key lsn, view (lib.cdbDel db key lsn) = apply (view db) (.remove key.bytes)
  get_found : ∀ db key val, view db key.bytes = some val →
    (lib.cdbGet db key).1 = 1 ∧ (lib.cdbGet db key).2.1.bytes = val
  get_absent : ∀ db key, view db key.bytes = none → (lib.cdbGet db key).1 = 0
  get_keeps : ∀ db key, view (lib.cdbGet db key).2.2 = view db
  delete_keeps : ∀ db, view (lib.cdbDelete db) = view db

end Libraries

/-- The six drivers, each over its library. -/
inductive Driver (Db : Type v) where
  | store (driver : StoreDriver Db)
  | nessdb (lib : NessdbLibrary Db)
  | cascadedb (lib : CascadedbLibrary Db)

namespace Driver

/-- The record of an open database. -/
def Open : Driver Db → Type v
  | .store driver => driver.Open
  | .nessdb _ => SliceDb Db
  | .cascadedb _ => SliceDb Db

def plugin : (driver : Driver Db) → NbDbIf driver.Open
  | .store driver => driver.plugin
  | .nessdb lib => nbDbNessdbPlugin lib
  | .cascadedb lib => nbDbCascadedbPlugin lib

/-- The map inside an open database. -/
def stored (view : Db → Bytes → Option Bytes) : (driver : Driver Db) → driver.Open →
    Bytes → Option Bytes
  | .store driver, db => driver.stored view db
  | .nessdb _, db => view db.instance_
  | .cascadedb _, db => view db.instance_

/-- The library of the driver is a map that keeps its content. -/
def Keeps (view : Db → Bytes → Option Bytes) : Driver Db → Prop
  | .store (.leveldb lib) => LeveldbKeeps view lib
  | .store (.kyotocabinet lib) => KyotocabinetKeeps view lib
  | .store (.berkeleydb lib) => DbKeeps view lib
  | .store (.tokukv lib) => DbKeeps view lib
  | .nessdb lib => NessdbKeeps view lib
  | .cascadedb lib => CascadedbKeeps view lib

end Driver

section Drivers
variable {view : Db → Bytes → Option Bytes}

theorem sliceOf_bytes (buf : Bytes) : (sliceOf buf).bytes = buf := by
  rw [Slice.bytes, sliceOf, List.take_length]

theorem leveldb_stores {lib : LeveldbLibrary Db} (keeps : LeveldbKeeps view lib) :
    Stores (nbDbLeveldbPlugin lib) (fun db => view db.instance_) where
  replace db key val _ _ := by
    refine ⟨?_, leveldb_replace keeps.toLeveldbIsMap db key val⟩
    change (nbDbLeveldbReplace lib db key val).1 = 0
    simp [nbDbLeveldbReplace, keeps.put]
  remove db key _ := leveldb_remove keeps.toLeveldbIsMap db key
  select db key wantsValue := by
    rw [← keeps.get_keeps db.instance_ key]
    change view (nbDbLeveldbSelect lib db key wantsValue).2.2.instance_ = _
    rw [nbDbLeveldbSelect]
    dsimp only
    split
    · rfl
    split
    · rfl
    · rfl
  close db := keeps.close_keeps db.instance_

theorem leveldb_reads {lib : LeveldbLibrary Db} (keeps : LeveldbKeeps view lib) :
    Reads (nbDbLeveldbPlugin lib) (fun db => view db.instance_) := by
  intro db key wantsValue _ _
  change ((nbDbLeveldbSelect lib db key wantsValue).1,
    (nbDbLeveldbSelect lib db key wantsValue).2.1) = reply wantsValue (view db.instance_ key)
  cases h : view db.instance_ key with
  | none => simp [nbDbLeveldbSelect, keeps.get, h, reply]
  | some val =>
    cases wantsValue with
    | true => simp [nbDbLeveldbSelect, keeps.get, h, reply]
    | false => simp [nbDbLeveldbSelect, keeps.get, h, reply]

theorem kyotocabinet_stores {lib : KyotocabinetLibrary Db} (keeps : KyotocabinetKeeps view lib) :
    Stores (nbDbKyotocabinetPlugin lib) view where
  replace db key val _ _ := by
    refine ⟨?_, kyotocabinet_replace keeps.toKyotocabinetIsMap db key val⟩
    change (nbDbKyotocabinetReplace lib db key val).1 = 0
    simp [nbDbKyotocabinetReplace, keeps.set]
  remove db key _ := kyotocabinet_remove keeps.toKyotocabinetIsMap db key
  select db key wantsValue := by
    rw [← keeps.get_keeps db key]
    change view (nbDbKyotocabinetSelect lib db key wantsValue).2.2 = _
    rw [nbDbKyotocabinetSelect]
    dsimp only
    split
    · rfl
    · rfl
  close db := keeps.close_keeps db

theorem kyotocabinet_finds {lib : KyotocabinetLibrary Db} (keeps : KyotocabinetKeeps view lib) :
    Finds (nbDbKyotocabinetPlugin lib) view (fun val => val ≠ []) := by
  intro db key val _ _ held nonempty
  have code := kyotocabinet_select keeps.toKyotocabinetIsMap db key
  rw [held, if_neg (by simpa using nonempty)] at code
  exact code

theorem dbtReplace_ok {lib : DbLibrary Db} (keeps : DbKeeps view lib) {flags : UInt32}
    (hflags : flags = 0 ∨ flags = lib.overwriteDup) (db : Db) (key val : Bytes) :
    (dbtReplace lib flags db key val).1 = 0 := by
  have put := (keeps.put db (dbtOf key) (dbtOf val) flags hflags).1
  rw [dbtReplace_eq, put]
  exact if_neg lib.notFound_ne.symm

theorem dbtSelect_keeps {lib : DbLibrary Db} (keeps : DbKeeps view lib) (db : Db) (key : Bytes)
    (wantsValue : Bool) : view (dbtSelect lib db key wantsValue).2.2 = view db := by
  rw [← keeps.get_keeps db (dbtOf key) (selectDbt lib wantsValue), dbtSelect]
  dsimp only
  split
  · rfl
  split
  · rfl
  · rfl

theorem dbtSelect_reply {lib : DbLibrary Db} (keeps : DbKeeps view lib) (db : Db) {key : Bytes}
    (wantsValue : Bool) (fits : Fits key) (held : ∀ val, view db key = some val → Fits val) :
    ((dbtSelect lib db key wantsValue).1, (dbtSelect lib db key wantsValue).2.1) =
      reply wantsValue (view db key) := by
  have code := keeps.get db (dbtOf key) (selectDbt lib wantsValue)
  have value := fun val => keeps.get_value db (dbtOf key) val
  rw [dbtBytes_dbtOf fits.short] at code value
  cases h : view db key with
  | none => simp [dbtSelect, code, h, reply]
  | some val =>
    cases wantsValue with
    | true =>
      have whole := value val h (held val h).short
      rw [dbtBytes] at whole
      simp [dbtSelect, code, h, reply, lib.notFound_ne.symm, whole]
    | false => simp [dbtSelect, code, h, reply, lib.notFound_ne.symm]

theorem berkeleydb_stores {lib : DbLibrary Db} (keeps : DbKeeps view lib) :
    Stores (nbDbBerkeleydbPlugin lib) view where
  replace db key val fits fitsVal :=
    ⟨dbtReplace_ok keeps (Or.inr rfl) db key val,
      dbt_replace keeps.toDbIsMap (Or.inr rfl) db fits.short fitsVal.short⟩
  remove db _ fits := dbt_remove keeps.toDbIsMap db fits.short
  select db key wantsValue := dbtSelect_keeps keeps db key wantsValue
  close db := keeps.close_keeps db

theorem tokukv_stores {lib : DbLibrary Db} (keeps : DbKeeps view lib) :
    Stores (nbDbTokukvPlugin lib) view where
  replace db key val fits fitsVal :=
    ⟨dbtReplace_ok keeps (Or.inl rfl) db key val,
      dbt_replace keeps.toDbIsMap (Or.inl rfl) db fits.short fitsVal.short⟩
  remove db _ fits := dbt_remove keeps.toDbIsMap db fits.short
  select db key wantsValue := dbtSelect_keeps keeps db key wantsValue
  close db := keeps.close_keeps db

theorem nessdb_stores {lib : NessdbLibrary Db} (keeps : NessdbKeeps view lib) :
    Stores (nbDbNessdbPlugin lib) (fun db => view db.instance_) where
  replace db key val _ _ := by
    obtain ⟨count, stored⟩ := keeps.add db.instance_ (sliceOf key) (sliceOf val)
    rw [sliceOf_bytes, sliceOf_bytes] at stored
    change (nbDbNessdbReplace lib db key val).1 = 0 ∧
      view (nbDbNessdbReplace lib db key val).2.instance_ = _
    simp [nbDbNessdbReplace, SliceDb.after, count, stored]
  remove db key _ := by
    have removed := keeps.remove db.instance_ (sliceOf key)
    rw [sliceOf_bytes] at removed
    exact removed
  select db key wantsValue := by
    rw [← keeps.get_keeps db.instance_ (sliceOf key)]
    change view (nbDbNessdbSelect lib db key wantsValue).2.2.instance_ = _
    rw [nbDbNessdbSelect]
    dsimp only
    split
    · rfl
    split
    · rfl
    split
    · rfl
    · rfl
  close db := keeps.close_keeps db.instance_

theorem nessdb_reads {lib : NessdbLibrary Db} (keeps : NessdbKeeps view lib) :
    Reads (nbDbNessdbPlugin lib) (fun db => view db.instance_) := by
  intro db key wantsValue _ _
  have found := fun val => keeps.get_found db.instance_ (sliceOf key) val
  have absent := keeps.get_absent db.instance_ (sliceOf key)
  rw [sliceOf_bytes] at found absent
  change ((nbDbNessdbSelect lib db key wantsValue).1,
    (nbDbNessdbSelect lib db key wantsValue).2.1) = reply wantsValue (view db.instance_ key)
  cases h : view db.instance_ key with
  | none => simp [nbDbNessdbSelect, absent h, reply]
  | some val =>
    cases wantsValue with
    | true => simp [nbDbNessdbSelect, found val h, reply]
    | false =>
      cases v2 : lib.v2 with
      | true => simp [nbDbNessdbSelect, found val h, v2, reply]
      | false => simp [nbDbNessdbSelect, found val h, v2, reply]

theorem cascadedb_stores {lib : CascadedbLibrary Db} (keeps : CascadedbKeeps view lib) :
    Stores (nbDbCascadedbPlugin lib) (fun db => view db.instance_) where
  replace db key val _ _ := by
    obtain ⟨count, stored⟩ := keeps.put db.instance_ (sliceOf key) (sliceOf val)
      (lib.cdbLsn db.instance_ + 1)
    rw [sliceOf_bytes, sliceOf_bytes] at stored
    change (nbDbCascadedbReplace lib db key val).1 = 0 ∧
      view (nbDbCascadedbReplace lib db key val).2.instance_ = _
    simp [nbDbCascadedbReplace, SliceDb.after, count, stored]
  remove db key _ := by
    have removed := keeps.del db.instance_ (sliceOf key) (lib.cdbLsn db.instance_ + 1)
    rw [sliceOf_bytes] at removed
    exact removed
  select db key wantsValue := by
    rw [← keeps.get_keeps db.instance_ (sliceOf key)]
    change view (nbDbCascadedbSelect lib db key wantsValue).2.2.instance_ = _
    rw [nbDbCascadedbSelect]
    dsimp only
    split
    · rfl
    split
    · rfl
    · rfl
  close db := keeps.delete_keeps db.instance_

theorem cascadedb_reads {lib : CascadedbLibrary Db} (keeps : CascadedbKeeps view lib) :
    Reads (nbDbCascadedbPlugin lib) (fun db => view db.instance_) := by
  intro db key wantsValue _ _
  have found := fun val => keeps.get_found db.instance_ (sliceOf key) val
  have absent := keeps.get_absent db.instance_ (sliceOf key)
  rw [sliceOf_bytes] at found absent
  change ((nbDbCascadedbSelect lib db key wantsValue).1,
    (nbDbCascadedbSelect lib db key wantsValue).2.1) = reply wantsValue (view db.instance_ key)
  cases h : view db.instance_ key with
  | none => simp [nbDbCascadedbSelect, absent h, reply]
  | some val =>
    cases wantsValue with
    | true => simp [nbDbCascadedbSelect, found val h, reply]
    | false => simp [nbDbCascadedbSelect, found val h, reply]

end Drivers

namespace Driver
variable {view : Db → Bytes → Option Bytes} {driver : Driver Db}

/-- Every driver over such a library acts on its map as the contract says. -/
theorem stores (keeps : driver.Keeps view) : Stores driver.plugin (driver.stored view) := by
  rcases driver with (lib | lib | lib | lib) | lib | lib
  · exact leveldb_stores keeps
  · exact kyotocabinet_stores keeps
  · exact berkeleydb_stores keeps
  · exact tokukv_stores keeps
  · exact nessdb_stores keeps
  · exact cascadedb_stores keeps

theorem reads (keeps : driver.Keeps view) (other : driver.plugin.name ≠ "kyotocabinet") :
    Reads driver.plugin (driver.stored view) := by
  rcases driver with (lib | lib | lib | lib) | lib | lib
  · exact leveldb_reads keeps
  · exact absurd rfl other
  · exact fun db _ wantsValue => dbtSelect_reply keeps db wantsValue
  · exact fun db _ wantsValue => dbtSelect_reply keeps db wantsValue
  · exact nessdb_reads keeps
  · exact cascadedb_reads keeps

/-- What `select` is asked for without a place for the value. -/
def Readable (driver : Driver Db) (val : Bytes) : Prop :=
  val ≠ [] ∨ driver.plugin.name ≠ "kyotocabinet"

theorem eq_kyotocabinet (named : driver.plugin.name = "kyotocabinet") :
    ∃ lib, driver = .store (.kyotocabinet lib) := by
  rcases driver with (lib | lib | lib | lib) | lib | lib
  · exact absurd named (by decide : "leveldb" ≠ "kyotocabinet")
  · exact ⟨lib, rfl⟩
  · exact absurd named (by decide : "berkeleydb" ≠ "kyotocabinet")
  · exact absurd named (by decide : "tokukv" ≠ "kyotocabinet")
  · exact absurd named (by decide : "nessdb" ≠ "kyotocabinet")
  · exact absurd named (by decide : "cascadedb" ≠ "kyotocabinet")

theorem finds (keeps : driver.Keeps view) :
    Finds driver.plugin (driver.stored view) driver.Readable := by
  by_cases named : driver.plugin.name = "kyotocabinet"
  · intro db key val fits fitsVal held readable
    have nonempty : val ≠ [] := readable.resolve_right (not_not.mpr named)
    obtain ⟨lib, rfl⟩ := eq_kyotocabinet named
    exact kyotocabinet_finds keeps db key val fits fitsVal held nonempty
  · exact (reads keeps named).finds _

/-- After any calls, a key that was last replaced gives back its value, a key
that was last removed is absent, and any other key gives back what it had. -/
theorem gives_back_last (keeps : driver.Keeps view) (other : driver.plugin.name ≠ "kyotocabinet")
    {calls : List DbCall} (fits : ∀ call ∈ calls, call.FitsCall) {db : driver.Open} {key : Bytes}
    (fitsKey : Fits key) (held : ∀ val, driver.stored view db key = some val → Fits val)
    (wantsValue : Bool) :
    ((driver.plugin.select (calls.foldl (callPlugin driver.plugin) db) key wantsValue).1,
        (driver.plugin.select (calls.foldl (callPlugin driver.plugin) db) key wantsValue).2.1) =
      reply wantsValue (holds (driver.stored view db key) calls key) :=
  (reads keeps other).after_calls (stores keeps) fits fitsKey held wantsValue

end Driver

/-- A library that keeps the map itself, and finds this one on the disk. -/
def mapNessdb (v2 : Bool) (disk : Bytes → Option Bytes) :
    NessdbLibrary (Bytes → Option Bytes) where
  v2 := v2
  v1GivesBuffer := true
  mallocOk := true
  dbOpen := fun _ => some disk
  dbClose := id
  dbAdd := fun db key val => (1, apply db (.replace key.bytes val.bytes))
  dbRemove := fun db key => apply db (.remove key.bytes)
  dbGet := fun db key =>
    match db key.bytes with
    | some val => (1, sliceOf val, db)
    | none => (0, sliceOf [], db)

theorem mapNessdb_keeps (v2 : Bool) (disk : Bytes → Option Bytes) :
    NessdbKeeps (fun db => db) (mapNessdb v2 disk) where
  add _ _ _ := ⟨rfl, rfl⟩
  remove _ _ := rfl
  get_found db key val h := by simp [mapNessdb, h, sliceOf_bytes]
  get_absent db key h := by simp [mapNessdb, h]
  get_keeps db key := by
    simp only [mapNessdb]
    split
    · rfl
    · rfl
  close_keeps _ := rfl

def nessdbOver (disk : Bytes → Option Bytes) : Driver (Bytes → Option Bytes) :=
  .nessdb (mapNessdb true disk)

def openNessdb (disk : Bytes → Option Bytes) : (nessdbOver disk).Open := ⟨disk, 0, []⟩

def emptyDisk : Bytes → Option Bytes := fun _ => none

def twoValues : List DbCall := [.replace [1] [2], .select [1] true, .replace [1] [3], .remove [4]]

/-- The last of two values of a key comes back. -/
theorem gives_back_last_two_values :
    (((nessdbOver emptyDisk).plugin.select
        (twoValues.foldl (callPlugin (nessdbOver emptyDisk).plugin) (openNessdb emptyDisk))
        [1] true).1,
      ((nessdbOver emptyDisk).plugin.select
        (twoValues.foldl (callPlugin (nessdbOver emptyDisk).plugin) (openNessdb emptyDisk))
        [1] true).2.1) = reply true (holds none twoValues [1]) := by
  have fits : ∀ call ∈ twoValues, call.FitsCall := by simp [twoValues, DbCall.FitsCall, Fits]
  have keeps : (nessdbOver emptyDisk).Keeps (fun db => db) := mapNessdb_keeps true emptyDisk
  exact Driver.gives_back_last keeps (by decide) fits (by simp [Fits]) (fun _ h => by cases h) true

end PluginContract
