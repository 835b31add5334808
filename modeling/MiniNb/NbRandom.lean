import MiniNb.BoundedLoop
import MiniNb.Environment

/-!
# The key reader and the shuffle

The translation of `nb_random.c`. The reader walks a shared mapping of the keys
file with a cursor. The shuffle exchanges blocks of that mapping at positions
drawn from `rand`.

The outcomes of the system calls are inputs. Mapping an empty file fails
whatever the system would answer otherwise. `close` gives the descriptor up
even when it reports an error; a failed `munmap` leaves everything in place.
-/

namespace MiniNb

open ResourceLedger

structure NbRandom where
  map : KeyFile
  cur : UInt64
  end_ : UInt64

/-- The answers of the system to the calls made on one keys file. -/
structure FileCalls where
  openOk : Bool
  fstatOk : Bool
  mmapOk : Bool
  madviseOk : Bool
  munmapOk : Bool
  closeOk : Bool
  content : KeyFile

def nbRandomOpenFile (calls : FileCalls) : Int × Option NbRandom × Log :=
  if !calls.openOk then (-1, none, [])
  else if !calls.fstatOk then (-1, none, [.acquire .descriptor, .release .descriptor])
  else if !calls.mmapOk || calls.content.bytes.isEmpty then
    (-2, none, [.acquire .descriptor, .release .descriptor])
  else
    (0, some ⟨calls.content, 0, calls.content.size⟩,
      [.acquire .descriptor, .acquire .mapping])

/-- The whole file can be mapped. -/
structure Maps (calls : FileCalls) : Prop where
  opens : calls.openOk = true
  stats : calls.fstatOk = true
  maps : calls.mmapOk = true
  nonempty : calls.content.bytes ≠ []

/-- What is acquired for a file that is mapped. -/
def mapLog : Log := [.acquire .descriptor, .acquire .mapping]

/-- The whole file is mapped, or everything is given back. -/
theorem open_cases (calls : FileCalls) :
    (Maps calls ∧
      nbRandomOpenFile calls = (0, some ⟨calls.content, 0, calls.content.size⟩, mapLog)) ∨
    (¬ Maps calls ∧ ∃ r log, nbRandomOpenFile calls = (r, none, log) ∧
      (log = [] ∨ log = [.acquire .descriptor, .release .descriptor])) := by
  unfold nbRandomOpenFile
  split
  · rename_i closed
    exact Or.inr ⟨fun maps => by simp [maps.opens] at closed, _, _, rfl, Or.inl rfl⟩
  split
  · rename_i unknown
    exact Or.inr ⟨fun maps => by simp [maps.stats] at unknown, _, _, rfl, Or.inr rfl⟩
  split
  · rename_i refused
    exact Or.inr ⟨fun maps => by simp [maps.maps, maps.nonempty] at refused, _, _, rfl, Or.inr rfl⟩
  · rename_i hopen hstat hmap
    simp only [Bool.or_eq_true, Bool.not_eq_true', List.isEmpty_iff, not_or,
      Bool.not_eq_false] at hmap
    exact Or.inl ⟨⟨by simpa using hopen, by simpa using hstat, hmap.1, hmap.2⟩, rfl⟩

def nbRandomCloseFile (calls : FileCalls) : Int × Log :=
  if !calls.munmapOk then (-1, [])
  else if !calls.closeOk then (-2, [.release .mapping, .release .descriptor])
  else (0, [.release .mapping, .release .descriptor])

def nbRandomCreate (calls : FileCalls) : Int × Option NbRandom × Log :=
  match nbRandomOpenFile calls with
  | (_, none, log) => (-1, none, log)
  | (_, some random, log) =>
    if !calls.madviseOk then (-2, none, log ++ (nbRandomCloseFile calls).2)
    else (0, some random, log)

def nbRandomDestroy (calls : FileCalls) : Log := (nbRandomCloseFile calls).2

/-- A reader is created over the whole file, or everything is given back. -/
theorem create_cases (calls : FileCalls) :
    ((Maps calls ∧ calls.madviseOk = true) ∧
      nbRandomCreate calls = (0, some ⟨calls.content, 0, calls.content.size⟩, mapLog)) ∨
    (¬ (Maps calls ∧ calls.madviseOk = true) ∧ ∃ r log, nbRandomCreate calls = (r, none, log) ∧
      (log = [] ∨ log = [.acquire .descriptor, .release .descriptor] ∨
        log = mapLog ++ nbRandomDestroy calls)) := by
  rcases open_cases calls with ⟨maps, hopen⟩ | ⟨unmapped, r, log, hopen, hlog⟩
  · cases hadvise : calls.madviseOk with
    | true => exact Or.inl ⟨⟨maps, rfl⟩, by simp [nbRandomCreate, hopen, hadvise]⟩
    | false =>
      refine Or.inr ⟨by simp, -2, _, ?_, Or.inr (Or.inr rfl)⟩
      simp [nbRandomCreate, nbRandomDestroy, hopen, hadvise]
  · refine Or.inr ⟨fun h => unmapped h.1, -1, log, by simp only [nbRandomCreate, hopen], ?_⟩
    exact hlog.imp id Or.inl

/-- One key is copied to the buffer and the cursor moves behind it. The test
at the top is `cur + key_size >= end`. -/
def nbRandomNext (random : NbRandom) (key : Bytes) (keySize : UInt64) :
    Except Fault (Int × NbRandom × Bytes) :=
  if random.cur + keySize ≥ random.end_ then .ok (1, random, key)
  else
    match random.map.read random.cur keySize with
    | none => .error .outOfBounds
    | some bytes =>
      match memcpy key bytes with
      | none => .error .outOfBounds
      | some key => .ok (0, { random with cur := random.cur + keySize }, key)

/-- `rand()`: its results lie between zero and `RAND_MAX`, which is an `int`. -/
structure Rand where
  randMax : Nat
  randMax_pos : 0 < randMax
  randMax_lt : randMax < 2 ^ 31
  next : Nat → Nat
  next_le : ∀ k, next k ≤ randMax

structure ShuffleCalls where
  file : FileCalls
  mallocOk : Bool
  msyncOk : Bool
  rand : Rand

/-- The position drawn in round `i` of the loop, computed in `size_t`. -/
def shuffleIndex (rand : Rand) (n i : UInt64) : UInt64 :=
  i + UInt64.ofNat (rand.next i.toNat) / (UInt64.ofNat rand.randMax / (n - i) + 1)

/-- The three copies through `buf`. -/
def swapKeys (map : KeyFile) (bs i j : UInt64) : Option KeyFile := do
  let buf ← map.read (bs * i) bs
  let b ← map.read (bs * j) bs
  let map ← map.write (bs * i) b
  map.write (bs * j) buf

structure ShuffleState where
  i : UInt64
  map : KeyFile

def shuffleStep (rand : Rand) (bs n : UInt64) (s : ShuffleState) :
    ShuffleState × Option Fault :=
  if n - s.i = 0 then (s, some .divisionByZero)
  else
    match swapKeys s.map bs s.i (shuffleIndex rand n s.i) with
    | none => (s, some .outOfBounds)
    | some map => (⟨s.i + 1, map⟩, none)

/-- `for (size_t i = 0; i < n - 1; i++)`; the bound wraps around for `n = 0`. -/
def shuffleLoop (rand : Rand) (bs n : UInt64) (map : KeyFile) :
    ShuffleState × Option Fault :=
  BoundedLoop.run (shuffleStep rand bs n) (n - 1).toNat ⟨0, map⟩

structure ShuffleResult where
  rc : Int
  content : KeyFile
  log : Log

/-- Whatever happens, the content of the file is the mapping when it ends. -/
def nbRandomShuffle (calls : ShuffleCalls) (bs count : UInt64) : Except Fault ShuffleResult :=
  match nbRandomOpenFile calls.file with
  | (_, none, log) => .ok ⟨-1, calls.file.content, log⟩
  | (_, some random, log) =>
    let closed := nbRandomCloseFile calls.file
    if bs = 0 then .error .divisionByZero
    else
      let n := random.end_ / bs
      if n = 0 then
        .ok ⟨if closed.1 = 0 then 0 else -1, random.map, log ++ closed.2⟩
      else
        let n := if n > count then count else n
        if !calls.mallocOk then .ok ⟨-2, random.map, log ++ closed.2⟩
        else
          match shuffleLoop calls.rand bs n random.map with
          | (_, some fault) => .error fault
          | (s, none) =>
            let log := log ++ [.acquire .swapbuf, .release .swapbuf] ++ closed.2
            if !calls.msyncOk then .ok ⟨-3, s.map, log⟩
            else .ok ⟨if closed.1 = 0 then 0 else -3, s.map, log⟩

end MiniNb
