import MiniNb.KeyReading
import MiniNb.KeyShuffling
import MiniNb.NbMain

/-!
# When a shuffle is safe

With a key size and a count the shuffle moves whole keys and nothing else, and
all its offsets are exact. It does not check either number. A key size of zero
divides by zero at once. A count of zero passes the test for an empty file,
which comes before the clamp: the bound of the loop wraps around, and the first
round divides by the number of positions left, which is zero.
-/

namespace ShuffleSafety

open MiniNb BlockMemory KeyReading KeyShuffling

/-- `n` behind the clamp. -/
def blockCount (file : KeyFile) (bs count : UInt64) : UInt64 :=
  if file.size / bs > count then count else file.size / bs

/-- Whole keys are permuted, every offset is exact and inside the mapping. -/
structure ShufflesKeys (calls : ShuffleCalls) (bs count : UInt64) : Prop where
  blocks_eq : (blockCount calls.file.content bs count).toNat =
    min (calls.file.content.bytes.length / bs.toNat) count.toNat
  in_range : ∀ i : UInt64, i < blockCount calls.file.content bs count →
    i ≤ shuffleIndex calls.rand (blockCount calls.file.content bs count) i ∧
      shuffleIndex calls.rand (blockCount calls.file.content bs count) i <
        blockCount calls.file.content bs count
  address : ∀ i : UInt64, i < blockCount calls.file.content bs count →
    (bs * i).toNat = bs.toNat * i.toNat ∧
      (bs * i).toNat + bs.toNat ≤ calls.file.content.bytes.length
  permutes : ∃ result, nbRandomShuffle calls bs count = .ok result ∧
    Shuffled bs.toNat (blockCount calls.file.content bs count).toNat
      calls.file.content result.content
  no_buffer : calls.mallocOk = false →
    ∃ result, nbRandomShuffle calls bs count = .ok result ∧ result.content = calls.file.content

theorem blockCount_toNat (file : KeyFile) (bs count : UInt64) :
    (blockCount file bs count).toNat = shuffledBlocks file bs count :=
  clamped_toNat file bs count

/-- A shuffle with a key size and a count permutes whole keys and nothing else. -/
theorem shuffles_keys (calls : ShuffleCalls) {bs count : UInt64} (hbs : 0 < bs.toNat)
    (hcount : 0 < count.toNat) : ShufflesKeys calls bs count where
  blocks_eq := blockCount_toNat calls.file.content bs count
  in_range i hi := by
    obtain ⟨hlow, hhigh⟩ := shuffleIndex_bounds calls.rand (UInt64.lt_iff_toNat_lt.mp hi)
    exact ⟨UInt64.le_iff_toNat_le.mpr hlow, UInt64.lt_iff_toNat_lt.mpr hhigh⟩
  address i hi := by
    have hfit : bs.toNat * (blockCount calls.file.content bs count).toNat ≤
        calls.file.content.bytes.length := by
      rw [blockCount_toNat]
      exact shuffledBlocks_fit _ _ _
    have hlt := UInt64.lt_iff_toNat_lt.mp hi
    have hsum := offset_exact calls.file.content.length_lt hfit hlt
    have inside := Nat.mul_le_mul_left bs.toNat (Nat.succ_le_of_lt hlt)
    rw [Nat.mul_succ] at inside
    exact ⟨hsum, by omega⟩
  permutes := by
    rw [blockCount_toNat]
    exact nbRandomShuffle_spec calls (fun h => by simp [h] at hbs) (fun h => by simp [h] at hcount)
  no_buffer := unbuffered calls (fun h => by simp [h] at hbs)

def zeroRand : Rand where
  randMax := 32767
  randMax_pos := by decide
  randMax_lt := by decide
  next := fun _ => 0
  next_le := fun _ => Nat.zero_le _

/-- A keys file of three bytes in an environment without failures. -/
def threeBytes (rand : Rand) : ShuffleCalls where
  file := workingFile [4, 5, 6] (by decide)
  mallocOk := true
  msyncOk := true
  rand := rand

theorem shuffles_keys_three_bytes : 0 < (1 : UInt64).toNat ∧ 0 < (2 : UInt64).toNat ∧
    ShufflesKeys (threeBytes zeroRand) 1 2 :=
  ⟨by decide, by decide, shuffles_keys (threeBytes zeroRand) (by decide) (by decide)⟩

/-- The number of blocks with which the loop is entered, if it is. -/
def loopBlocks (calls : ShuffleCalls) (bs count : UInt64) : Option UInt64 :=
  match nbRandomOpenFile calls.file with
  | (_, none, _) => none
  | (_, some random, _) =>
    if bs = 0 then none
    else if random.end_ / bs = 0 then none
    else if !calls.mallocOk then none
    else some (blockCount calls.file.content bs count)

/-- The shuffle returns, without a division by zero and without an access
outside the mapping, and the bound of its loop does not wrap around. -/
structure Safe (calls : ShuffleCalls) (bs count : UInt64) : Prop where
  returns : ∃ result, nbRandomShuffle calls bs count = .ok result
  bound : ∀ n, loopBlocks calls bs count = some n → (n - 1).toNat + 1 = n.toNat

variable (calls : ShuffleCalls) {bs count : UInt64}

/-- What has been passed when the loop is entered with `n` blocks. -/
structure Entered (bs count n : UInt64) : Prop where
  maps : Maps calls.file
  sized : bs ≠ 0
  divides : ¬ calls.file.content.size / bs = 0
  buffered : calls.mallocOk = true
  n_eq : n = blockCount calls.file.content bs count

theorem loopBlocks_some {n : UInt64} (h : loopBlocks calls bs count = some n) :
    Entered calls bs count n := by
  rcases open_cases calls.file with ⟨maps, opened⟩ | ⟨_, r, log, refused, _⟩
  · simp only [loopBlocks, opened] at h
    split at h
    · cases h
    split at h
    · cases h
    split at h
    · cases h
    · rename_i sized divides unrefused
      cases h
      exact ⟨maps, sized, divides, by simpa using unrefused, rfl⟩
  · simp only [loopBlocks, refused] at h
    cases h

/-- The bound does not wrap around if there is something to count. -/
theorem Entered.bound {n : UInt64} (entered : Entered calls bs count n) (counted : count ≠ 0) :
    (n - 1).toNat + 1 = n.toNat := by
  have hn : 0 < n.toNat := by
    rw [entered.n_eq, blockCount_toNat]
    exact shuffledBlocks_pos entered.divides
      (UInt64.lt_iff_toNat_lt.mp (UInt64.pos_iff_ne_zero.mpr counted))
  have one_le : 1 ≤ n := UInt64.le_iff_toNat_le.mpr hn
  rw [UInt64.toNat_sub_of_le _ _ one_le, UInt64.toNat_one]
  exact Nat.sub_add_cancel hn

theorem unopened_iff : (nbRandomOpenFile calls.file).2.1 = none ↔ ¬ Maps calls.file := by
  rcases open_cases calls.file with ⟨maps, opened⟩ | ⟨unmapped, r, log, refused, _⟩
  · rw [opened]
    exact iff_of_false (Option.some_ne_none _) (not_not.mpr maps)
  · rw [refused]
    exact iff_of_true rfl unmapped

/-- For every file, every answer of the system and every `rand`, the shuffle is
safe exactly when the file is not mapped, or the key size is not zero and the
count is zero only where the loop is not entered. -/
theorem safe_iff (bs count : UInt64) :
    Safe calls bs count ↔ (nbRandomOpenFile calls.file).2.1 = none ∨
      (bs ≠ 0 ∧ (count ≠ 0 ∨ calls.file.content.bytes.length < bs.toNat ∨
        calls.mallocOk = false)) := by
  rw [unopened_iff, ← returns_iff]
  refine ⟨Safe.returns, fun returns => ⟨returns, fun n hn => ?_⟩⟩
  have entered := loopBlocks_some calls hn
  rcases (((returns_iff calls).mp returns).resolve_left (not_not.mpr entered.maps)).2 with
    counted | short | noBuffer
  · exact entered.bound calls counted
  · exact absurd ((no_block_iff entered.sized).mpr short) entered.divides
  · cases entered.buffered.symm.trans noBuffer

/-- `mininb -a shuffle -k 1 -c 0` on a file of three bytes. -/
theorem not_safe_zero_count :
    ∃ opts, mainOptions [('a', "shuffle"), ('k', "1"), ('c', "0")] = some (.shuffle, opts) ∧
      ¬ Safe (threeBytes zeroRand) opts.keyLen opts.count ∧
      actionShuffle (threeBytes zeroRand) opts = .error .divisionByZero := by
  have crashes : ¬ ∃ result, nbRandomShuffle (threeBytes zeroRand) 1 0 = .ok result := by
    rw [returns_iff]
    rintro (unmapped | ⟨_, counted | short | noBuffer⟩)
    · exact unmapped ⟨rfl, rfl, rfl, List.cons_ne_nil _ _⟩
    · exact counted rfl
    · exact absurd short (by decide)
    · cases noBuffer
  refine ⟨_, rfl, fun safe => crashes safe.returns, ?_⟩
  have keyLen : atolSize "1" = 1 := by decide
  have count : atolSize "0" = 0 := by decide
  simp only [actionShuffle, keyLen, count, divides_by_zero _ crashes]

end ShuffleSafety
