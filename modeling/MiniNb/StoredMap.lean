import MiniNb.MapHistory
import MiniNb.NbDbDrivers
import MiniNb.NbDbKyotocabinet
import MiniNb.NbDbLeveldb

/-!
# The map that a driver implements

Over a library that is a correct map, every driver stores the map of its
history. Three of them also say correctly whether a key is there. The
kyotocabinet driver takes the size of the value for a truth value: the -1 of an
absent key counts as found, and the 0 of an empty value as absent.
-/

namespace StoredMap

open MiniNb MapHistory

universe u v

/-- What the library reads through a record. -/
def dbtBytes (record : Dbt) : Bytes := record.data.take record.size.toNat

/-- The size fits into the field of a record. -/
def Short (bytes : Bytes) : Prop := bytes.length < 2 ^ 32

theorem dbtBytes_dbtOf {bytes : Bytes} (short : Short bytes) : dbtBytes (dbtOf bytes) = bytes := by
  rw [dbtBytes, dbtOf, UInt32.toNat_ofNat_of_lt' short, List.take_length]

section Libraries
variable {Db : Type v} (view : Db → Bytes → Option Bytes)

/-- `leveldb_get` gives the value or `NULL`, and no call sets an error. -/
structure LeveldbIsMap (lib : LeveldbLibrary Db) : Prop where
  put : ∀ db key val, (lib.put db key val).1 = none ∧
    view (lib.put db key val).2 = apply (view db) (.replace key val)
  delete : ∀ db key, (lib.delete db key).1 = none ∧
    view (lib.delete db key).2 = apply (view db) (.remove key)
  get : ∀ db key, (lib.get db key).1 = view db key ∧ (lib.get db key).2.1 = none

/-- `get` gives the size of the value, or -1 for an absent key. -/
structure KyotocabinetIsMap (lib : KyotocabinetLibrary Db) : Prop where
  set : ∀ db key val, (lib.set db key val).1 = true ∧
    view (lib.set db key val).2 = apply (view db) (.replace key val)
  remove : ∀ db key, (lib.remove db key).1 = (view db key).isSome ∧
    view (lib.remove db key).2 = apply (view db) (.remove key)
  get : ∀ db key, (lib.get db key).1 = ((view db key).map (fun val => (val.length : Int))).getD (-1)

/-- `get` and `del` give zero or `DB_NOTFOUND`. -/
structure DbIsMap (lib : DbLibrary Db) : Prop where
  put : ∀ db key val flags, flags = 0 ∨ flags = lib.overwriteDup →
    (lib.put db key val flags).1 = 0 ∧
      view (lib.put db key val flags).2 = apply (view db) (.replace (dbtBytes key) (dbtBytes val))
  get : ∀ db key val, (lib.get db key val 0).1 =
    if (view db (dbtBytes key)).isSome then 0 else lib.notFound
  del : ∀ db key, (lib.del db key 0).1 =
      (if (view db (dbtBytes key)).isSome then 0 else lib.notFound) ∧
    view (lib.del db key 0).2 = apply (view db) (.remove (dbtBytes key))

end Libraries

/-- The four drivers, each over its library. -/
inductive StoreDriver (Db : Type v) where
  | leveldb (lib : LeveldbLibrary Db)
  | kyotocabinet (lib : KyotocabinetLibrary Db)
  | berkeleydb (lib : DbLibrary Db)
  | tokukv (lib : DbLibrary Db)

namespace StoreDriver
variable {Db : Type v}

/-- The record of an open database. -/
def Open : StoreDriver Db → Type v
  | .leveldb _ => NbDbLeveldb Db
  | .kyotocabinet _ => Db
  | .berkeleydb _ => Db
  | .tokukv _ => Db

def plugin : (driver : StoreDriver Db) → NbDbIf driver.Open
  | .leveldb lib => nbDbLeveldbPlugin lib
  | .kyotocabinet lib => nbDbKyotocabinetPlugin lib
  | .berkeleydb lib => nbDbBerkeleydbPlugin lib
  | .tokukv lib => nbDbTokukvPlugin lib

/-- The library of the driver is a correct map. -/
def IsMap (view : Db → Bytes → Option Bytes) : StoreDriver Db → Prop
  | .leveldb lib => LeveldbIsMap view lib
  | .kyotocabinet lib => KyotocabinetIsMap view lib
  | .berkeleydb lib => DbIsMap view lib
  | .tokukv lib => DbIsMap view lib

/-- The map inside an open database. -/
def stored (view : Db → Bytes → Option Bytes) :
    (driver : StoreDriver Db) → driver.Open → Bytes → Option Bytes
  | .leveldb _, db => view db.instance_
  | .kyotocabinet _, db => view db
  | .berkeleydb _, db => view db
  | .tokukv _, db => view db

/-- One call of a history. -/
def call (driver : StoreDriver Db) (db : driver.Open) : Op Bytes Bytes → driver.Open
  | .replace key val => (driver.plugin.replace db key val).2
  | .remove key => (driver.plugin.remove db key).2

/-- What `select` without a place for the value returns after a history. -/
def answer (driver : StoreDriver Db) (db : driver.Open) (history : List (Op Bytes Bytes))
    (key : Bytes) : Int :=
  (driver.plugin.select (history.foldl driver.call db) key false).1

/-- What `select` returns for a key that holds this value. -/
def code : StoreDriver Db → Option Bytes → Int
  | .leveldb _, found => if found.isSome then 0 else -1
  | .kyotocabinet _, found => if found = some [] then -1 else 0
  | .berkeleydb _, found => if found.isSome then 0 else -1
  | .tokukv _, found => if found.isSome then 0 else -1

end StoreDriver

section Drivers
variable {Db : Type v} {view : Db → Bytes → Option Bytes}

theorem leveldb_replace {lib : LeveldbLibrary Db} (map : LeveldbIsMap view lib)
    (db : NbDbLeveldb Db) (key val : Bytes) :
    view (nbDbLeveldbReplace lib db key val).2.instance_ =
      apply (view db.instance_) (.replace key val) := by
  simp [nbDbLeveldbReplace, NbDbLeveldb.after, map.put]

theorem leveldb_remove {lib : LeveldbLibrary Db} (map : LeveldbIsMap view lib)
    (db : NbDbLeveldb Db) (key : Bytes) :
    view (nbDbLeveldbRemove lib db key).2.instance_ = apply (view db.instance_) (.remove key) := by
  simp [nbDbLeveldbRemove, NbDbLeveldb.after, map.delete]

theorem leveldb_select {lib : LeveldbLibrary Db} (map : LeveldbIsMap view lib)
    (db : NbDbLeveldb Db) (key : Bytes) :
    (nbDbLeveldbSelect lib db key false).1 = if (view db.instance_ key).isSome then 0 else -1 := by
  cases h : view db.instance_ key with
  | none => simp [nbDbLeveldbSelect, map.get, h]
  | some val => simp [nbDbLeveldbSelect, map.get, h]

theorem kyotocabinet_replace {lib : KyotocabinetLibrary Db} (map : KyotocabinetIsMap view lib)
    (db : Db) (key val : Bytes) :
    view (nbDbKyotocabinetReplace lib db key val).2 = apply (view db) (.replace key val) := by
  simp [nbDbKyotocabinetReplace, map.set]

theorem kyotocabinet_remove {lib : KyotocabinetLibrary Db} (map : KyotocabinetIsMap view lib)
    (db : Db) (key : Bytes) :
    view (nbDbKyotocabinetRemove lib db key).2 = apply (view db) (.remove key) := by
  unfold nbDbKyotocabinetRemove
  dsimp only
  split
  · exact (map.remove db key).2
  · exact (map.remove db key).2

/-- Only a stored empty value has the size zero. -/
theorem kyotocabinet_select {lib : KyotocabinetLibrary Db} (map : KyotocabinetIsMap view lib)
    (db : Db) (key : Bytes) :
    (nbDbKyotocabinetSelect lib db key false).1 = if view db key = some [] then -1 else 0 := by
  cases h : view db key with
  | none => simp [nbDbKyotocabinetSelect, map.get, h]
  | some val =>
    cases val with
    | nil => simp [nbDbKyotocabinetSelect, map.get, h]
    | cons byte rest =>
      have size : ((rest.length : Int) + 1) ≠ 0 := by omega
      simp [nbDbKyotocabinetSelect, map.get, h, size]

theorem dbt_replace {lib : DbLibrary Db} (map : DbIsMap view lib) {flags : UInt32}
    (hflags : flags = 0 ∨ flags = lib.overwriteDup) (db : Db) {key val : Bytes}
    (shortKey : Short key) (shortVal : Short val) :
    view (dbtReplace lib flags db key val).2 = apply (view db) (.replace key val) := by
  have put := (map.put db (dbtOf key) (dbtOf val) flags hflags).2
  rw [dbtBytes_dbtOf shortKey, dbtBytes_dbtOf shortVal] at put
  rw [dbtReplace_eq]
  exact put

theorem dbt_remove {lib : DbLibrary Db} (map : DbIsMap view lib) (db : Db) {key : Bytes}
    (shortKey : Short key) : view (dbtRemove lib db key).2 = apply (view db) (.remove key) := by
  have del := (map.del db (dbtOf key)).2
  rw [dbtBytes_dbtOf shortKey] at del
  rw [dbtRemove_eq]
  exact del

theorem dbt_select {lib : DbLibrary Db} (map : DbIsMap view lib) (db : Db) {key : Bytes}
    (shortKey : Short key) :
    (dbtSelect lib db key false).1 = if (view db key).isSome then 0 else -1 := by
  have get := map.get db (dbtOf key) (selectDbt lib false)
  rw [dbtBytes_dbtOf shortKey] at get
  rw [dbtSelect_code, get]
  cases h : view db key with
  | none => simp
  | some val => simp [lib.notFound_ne.symm]

end Drivers

/-- The sizes of a call fit into records. -/
def ShortOp : Op Bytes Bytes → Prop
  | .replace key val => Short key ∧ Short val
  | .remove key => Short key

namespace StoreDriver
variable {Db : Type v} {driver : StoreDriver Db} {view : Db → Bytes → Option Bytes}

theorem stored_call (map : driver.IsMap view) (db : driver.Open) (op : Op Bytes Bytes)
    (short : ShortOp op) : driver.stored view (driver.call db op) =
      apply (driver.stored view db) op := by
  cases driver with
  | leveldb lib =>
    cases op with
    | replace key val => exact leveldb_replace map db key val
    | remove key => exact leveldb_remove map db key
  | kyotocabinet lib =>
    cases op with
    | replace key val => exact kyotocabinet_replace map db key val
    | remove key => exact kyotocabinet_remove map db key
  | berkeleydb lib =>
    cases op with
    | replace key val => exact dbt_replace map (Or.inr rfl) db short.1 short.2
    | remove key => exact dbt_remove map db short
  | tokukv lib =>
    cases op with
    | replace key val => exact dbt_replace map (Or.inl rfl) db short.1 short.2
    | remove key => exact dbt_remove map db short

theorem select_code (map : driver.IsMap view) (db : driver.Open) {key : Bytes} (short : Short key) :
    (driver.plugin.select db key false).1 = driver.code (driver.stored view db key) := by
  cases driver with
  | leveldb lib => exact leveldb_select map db key
  | kyotocabinet lib => exact kyotocabinet_select map db key
  | berkeleydb lib => exact dbt_select map db short
  | tokukv lib => exact dbt_select map db short

/-- After a history, a driver answers from the map of the history. -/
theorem answer_eq (map : driver.IsMap view) {db : driver.Open}
    (empty : driver.stored view db = fun _ => none) {history : List (Op Bytes Bytes)}
    (short : ∀ op ∈ history, ShortOp op) {key : Bytes} (shortKey : Short key) :
    driver.answer db history key = driver.code (contents history key) := by
  have view_eq := view_foldl (stored_call map) short empty
  rw [answer, select_code map _ shortKey, view_eq]

/-- A key is found exactly when its last operation stored a value. -/
def AnswersRight (driver : StoreDriver Db) (db : driver.Open) (history : List (Op Bytes Bytes))
    (key : Bytes) : Prop :=
  driver.answer db history key = 0 ↔ ∃ val, lastOn key history = some (.replace key val)

/-- The kyotocabinet driver asks for a stored value that is not empty. -/
def Readable : StoreDriver Db → List (Op Bytes Bytes) → Bytes → Prop
  | .leveldb _, _, _ => True
  | .kyotocabinet _, history, key => ∃ val, val ≠ [] ∧ lastOn key history = some (.replace key val)
  | .berkeleydb _, _, _ => True
  | .tokukv _, _, _ => True

theorem found_code (found : Option Bytes) :
    (if found.isSome then (0 : Int) else -1) = 0 ↔ ∃ val, found = some val := by
  cases found with
  | none => simp
  | some val => simp

theorem truth_code (found : Option Bytes) :
    ((if found = some [] then (-1 : Int) else 0) = 0 ↔ ∃ val, found = some val) ↔
      ∃ val, val ≠ [] ∧ found = some val := by
  cases found with
  | none => simp
  | some val => simp

theorem code_cases (driver : StoreDriver Db) (found : Option Bytes) :
    driver.code found = 0 ∨ driver.code found = -1 := by
  cases driver with
  | leveldb lib => exact ite_eq_or_eq _ _ _
  | kyotocabinet lib => exact (ite_eq_or_eq _ _ _).symm
  | berkeleydb lib => exact ite_eq_or_eq _ _ _
  | tokukv lib => exact ite_eq_or_eq _ _ _

theorem answersRight_iff (map : driver.IsMap view) {db : driver.Open}
    (empty : driver.stored view db = fun _ => none) {history : List (Op Bytes Bytes)}
    (short : ∀ op ∈ history, ShortOp op) {key : Bytes} (shortKey : Short key) :
    driver.AnswersRight db history key ↔ driver.Readable history key := by
  rw [AnswersRight, answer_eq map empty short shortKey]
  simp only [← contents_eq_some_iff]
  cases driver with
  | leveldb lib => exact iff_of_true (found_code _) trivial
  | kyotocabinet lib =>
    simp only [Readable, ← contents_eq_some_iff]
    exact truth_code _
  | berkeleydb lib => exact iff_of_true (found_code _) trivial
  | tokukv lib => exact iff_of_true (found_code _) trivial

end StoreDriver

section Pair
variable {Db : Type u} {Db' : Type v} {driver : StoreDriver Db} {driver' : StoreDriver Db'}
variable {view : Db → Bytes → Option Bytes} {view' : Db' → Bytes → Option Bytes}

/-- Two drivers over correct libraries answer rightly, and so the same, after a
history exactly when neither of them is the kyotocabinet driver, or the last
operation on the key stored a value that is not empty. -/
theorem drivers_agree_iff (map : driver.IsMap view) (map' : driver'.IsMap view')
    {db : driver.Open} {db' : driver'.Open} (empty : driver.stored view db = fun _ => none)
    (empty' : driver'.stored view' db' = fun _ => none) {history : List (Op Bytes Bytes)}
    (short : ∀ op ∈ history, ShortOp op) {key : Bytes} (shortKey : Short key) :
    (driver.AnswersRight db history key ∧ driver'.AnswersRight db' history key ∧
        driver.answer db history key = driver'.answer db' history key) ↔
      driver.Readable history key ∧ driver'.Readable history key := by
  rw [StoreDriver.answersRight_iff map empty short shortKey,
    StoreDriver.answersRight_iff map' empty' short shortKey, ← and_assoc]
  refine and_iff_left_of_imp ?_
  rintro ⟨readable, readable'⟩
  have right := (StoreDriver.answersRight_iff map empty short shortKey).mpr readable
  have right' := (StoreDriver.answersRight_iff map' empty' short shortKey).mpr readable'
  have same := right.trans right'.symm
  rw [StoreDriver.answer_eq map empty short shortKey,
    StoreDriver.answer_eq map' empty' short shortKey] at same ⊢
  rcases driver.code_cases (contents history key) with zero | failed
  · rw [zero, same.mp zero]
  · rcases driver'.code_cases (contents history key) with zero' | failed'
    · rw [zero', same.mpr zero']
    · rw [failed, failed']

end Pair

/-! Libraries that keep the map itself. -/

def mapLeveldb : LeveldbLibrary (Bytes → Option Bytes) where
  callocOk := true
  open_ := fun _ => .ok (fun _ => none)
  close := id
  put := fun db key val => (none, apply db (.replace key val))
  delete := fun db key => (none, apply db (.remove key))
  get := fun db key => (db key, none, db)

def mapKyotocabinet : KyotocabinetLibrary (Bytes → Option Bytes) where
  mkdir := fun _ => 0
  dirExists := fun _ => true
  open_ := fun _ => some (fun _ => none)
  close := id
  set := fun db key val => (true, apply db (.replace key val))
  remove := fun db key => ((db key).isSome, apply db (.remove key))
  get := fun db key => (((db key).map (fun val => (val.length : Int))).getD (-1), db)

def leveldbOverMap : StoreDriver (Bytes → Option Bytes) := .leveldb mapLeveldb

def kyotocabinetOverMap : StoreDriver (Bytes → Option Bytes) := .kyotocabinet mapKyotocabinet

theorem leveldbOverMap_isMap : leveldbOverMap.IsMap (fun db => db) :=
  ⟨fun _ _ _ => ⟨rfl, rfl⟩, fun _ _ => ⟨rfl, rfl⟩, fun _ _ => ⟨rfl, rfl⟩⟩

theorem kyotocabinetOverMap_isMap : kyotocabinetOverMap.IsMap (fun db => db) :=
  ⟨fun _ _ _ => ⟨rfl, rfl⟩, fun _ _ => ⟨rfl, rfl⟩, fun _ _ => rfl⟩

def emptyLeveldb : leveldbOverMap.Open := ⟨fun _ => none, 1, []⟩

def emptyKyotocabinet : kyotocabinetOverMap.Open := fun _ => none

def oneReplace : List (Op Bytes Bytes) := [.replace [1] [2]]

/-- A stored byte is found by both drivers. -/
theorem drivers_agree_one_replace :
    (leveldbOverMap.AnswersRight emptyLeveldb oneReplace [1] ∧
        kyotocabinetOverMap.AnswersRight emptyKyotocabinet oneReplace [1] ∧
        leveldbOverMap.answer emptyLeveldb oneReplace [1] =
          kyotocabinetOverMap.answer emptyKyotocabinet oneReplace [1]) ↔
      leveldbOverMap.Readable oneReplace [1] ∧ kyotocabinetOverMap.Readable oneReplace [1] := by
  have short : ∀ op ∈ oneReplace, ShortOp op := by
    intro op hop
    rw [List.mem_singleton.mp hop]
    exact ⟨by simp [Short], by simp [Short]⟩
  exact drivers_agree_iff leveldbOverMap_isMap kyotocabinetOverMap_isMap rfl rfl short
    (by simp [Short])

/-- In the kyotocabinet driver a key that was never stored is found, and a key
with an empty value is not. -/
theorem kyotocabinet_answers_wrong :
    kyotocabinetOverMap.IsMap (fun db => db) ∧
      kyotocabinetOverMap.answer emptyKyotocabinet [] [1] = 0 ∧
      ¬ kyotocabinetOverMap.AnswersRight emptyKyotocabinet [] [1] ∧
      kyotocabinetOverMap.answer emptyKyotocabinet [.replace [1] []] [1] = -1 := by
  refine ⟨kyotocabinetOverMap_isMap, rfl, ?_, rfl⟩
  intro right
  obtain ⟨_, hlast⟩ := right.mp rfl
  cases hlast

end StoredMap
