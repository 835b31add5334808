import MiniNb.ForwardSwaps
import MiniNb.NbRandom

/-!
# What a shuffle does to the keys file

One round of the shuffle exchanges two blocks among the first `n`. The drawn
position lies between the round number and `n`, whatever `rand` returns, and
all products and sums of the round are exact. A completed run therefore
permutes the first `n` blocks and leaves the rest of the file alone.

Around the loop stand the system calls and the tests. `Ends` lists the ways in
which the function ends, each with its condition; what holds of every run is
read off this list.
-/

namespace KeyShuffling

open MiniNb BlockMemory

/-- The first `n` blocks are permuted and nothing else changes. -/
structure Shuffled (bs n : Nat) (file file' : KeyFile) : Prop where
  length_eq : file'.bytes.length = file.bytes.length
  perm : (blocks bs n file'.bytes).Perm (blocks bs n file.bytes)
  tail_eq : file'.bytes.drop (bs * n) = file.bytes.drop (bs * n)

theorem Shuffled.refl (bs n : Nat) (file : KeyFile) : Shuffled bs n file file :=
  ⟨rfl, .refl _, rfl⟩

theorem Shuffled.trans {bs n : Nat} {a b c : KeyFile} (hab : Shuffled bs n a b)
    (hbc : Shuffled bs n b c) : Shuffled bs n a c :=
  ⟨hbc.length_eq.trans hab.length_eq, hbc.perm.trans hab.perm, hbc.tail_eq.trans hab.tail_eq⟩

/-- The divisor is rounded up, so the quotient stays below the number of
positions left, also when there are more positions than `rand` has results. -/
theorem quotient_lt {r randMax left : Nat} (hr : r ≤ randMax) (hleft : 0 < left) :
    r / (randMax / left + 1) < left := by
  apply (Nat.div_lt_iff_lt_mul (Nat.succ_pos _)).mpr
  exact lt_of_le_of_lt hr (Nat.lt_mul_div_succ randMax hleft)

/-- The position drawn in round `i` among `n` blocks. -/
def position (rand : Rand) (n i : Nat) : Nat :=
  i + rand.next i / (rand.randMax / (n - i) + 1)

theorem position_forward (rand : Rand) (n : Nat) : ForwardSwaps.Forward (position rand n) n n := by
  intro i hi
  have hlt := quotient_lt (rand.next_le i) (Nat.sub_pos_of_lt hi)
  exact ⟨Nat.le_add_right _ _, Nat.add_lt_of_lt_sub' hlt⟩

/-- Nothing wraps around in the expression for the position. -/
theorem shuffleIndex_toNat (rand : Rand) {n i : UInt64} (hi : i.toNat < n.toNat) :
    (shuffleIndex rand n i).toNat = position rand n.toNat i.toNat := by
  have hmax := rand.randMax_lt
  have hnext := rand.next_le i.toNat
  have hn := n.toNat_lt
  have hle : i ≤ n := UInt64.le_iff_toNat_le.mpr (Nat.le_of_lt hi)
  have hq : rand.randMax / (n.toNat - i.toNat) ≤ rand.randMax := Nat.div_le_self _ _
  have hdivisor : (UInt64.ofNat rand.randMax / (n - i) + 1).toNat =
      rand.randMax / (n.toNat - i.toNat) + 1 := by
    simp only [UInt64.toNat_add, UInt64.toNat_div, UInt64.toNat_sub_of_le _ _ hle,
      UInt64.toNat_ofNat', UInt64.toNat_one, Nat.mod_eq_of_lt (by omega : rand.randMax < 2 ^ 64)]
    exact Nat.mod_eq_of_lt (lt_of_le_of_lt (Nat.succ_le_succ hq) (by omega))
  simp only [shuffleIndex, UInt64.toNat_add, UInt64.toNat_div, hdivisor, UInt64.toNat_ofNat',
    Nat.mod_eq_of_lt (by omega : rand.next i.toNat < 2 ^ 64)]
  exact Nat.mod_eq_of_lt (lt_trans (position_forward rand n.toNat i.toNat hi).2 hn)

theorem shuffleIndex_bounds (rand : Rand) {n i : UInt64} (hi : i.toNat < n.toNat) :
    i.toNat ≤ (shuffleIndex rand n i).toNat ∧ (shuffleIndex rand n i).toNat < n.toNat := by
  rw [shuffleIndex_toNat rand hi]
  exact position_forward rand n.toNat i.toNat hi

theorem write_bytes (file : KeyFile) (off : UInt64) (src : Bytes) :
    (file.write off src).map (·.bytes) = store file.bytes off.toNat src := by
  unfold KeyFile.write
  split
  · rename_i h
    exact h.symm
  · rename_i h
    exact h.symm

/-- Where the offsets are exact, the three copies are a swap of blocks. -/
theorem swapKeys_bytes {map : KeyFile} {bs i j : UInt64}
    (hi : (bs * i).toNat = bs.toNat * i.toNat) (hj : (bs * j).toNat = bs.toNat * j.toNat) :
    (swapKeys map bs i j).map (·.bytes) =
      swapBlocks bs.toNat i.toNat j.toNat map.bytes := by
  simp only [swapKeys, swapBlocks, KeyFile.read, hi, hj, Option.bind_eq_bind]
  cases load map.bytes (bs.toNat * i.toNat) bs.toNat with
  | none => rfl
  | some a =>
    cases load map.bytes (bs.toNat * j.toNat) bs.toNat with
    | none => rfl
    | some b =>
      have first := write_bytes map (bs * i) b
      rw [hi] at first
      simp only [Option.bind_some, ← first]
      cases map.write (bs * i) b with
      | none => rfl
      | some mid => simpa only [Option.map_some, Option.bind_some, hj] using
          write_bytes mid (bs * j) a

theorem offset_exact {bs n i : UInt64} {len : Nat} (hlen : len < 2 ^ 63)
    (hfit : bs.toNat * n.toNat ≤ len) (hi : i.toNat < n.toNat) :
    (bs * i).toNat = bs.toNat * i.toNat := by
  have hle := Nat.mul_le_mul_left bs.toNat (Nat.le_of_lt hi)
  simp only [UInt64.toNat_mul]
  exact Nat.mod_eq_of_lt (by omega)

/-- What stands in each block after the three copies, all of them inside the mapping. -/
theorem swapKeys_swaps {file : KeyFile} {bs n i j : UInt64}
    (hfit : bs.toNat * n.toNat ≤ file.bytes.length) (hi : i.toNat < n.toNat)
    (hj : j.toNat < n.toNat) :
    ∃ file', swapKeys file bs i j = some file' ∧ Shuffled bs.toNat n.toNat file file' ∧
      ∀ p, block bs.toNat p file'.bytes =
        block bs.toNat (Equiv.swap i.toNat j.toNat p) file.bytes := by
  have exactI := offset_exact file.length_lt hfit hi
  have exactJ := offset_exact file.length_lt hfit hj
  have hbytes : (swapKeys file bs i j).map (·.bytes) = _ := swapKeys_bytes exactI exactJ
  obtain ⟨mem, hmem, hlen, hswap, htail⟩ := swapBlocks_spec hfit hi hj
  rw [hmem] at hbytes
  obtain ⟨file', hfile', rfl⟩ := Option.map_eq_some_iff.mp hbytes
  exact ⟨file', hfile', ⟨hlen, blocks_perm_of_swap hi hj hswap, htail⟩, hswap⟩

/-- The loop after `k` rounds. -/
structure Progress (file : KeyFile) (bs n : UInt64) (k : Nat) (s : ShuffleState) : Prop where
  i_eq : s.i.toNat = k
  shuffled : Shuffled bs.toNat n.toNat file s.map

/-- A round goes on to the next one, with two blocks exchanged. -/
theorem shuffleStep_progress {rand : Rand} {file : KeyFile} {bs n : UInt64} {k : Nat}
    {s : ShuffleState} (hfit : bs.toNat * n.toNat ≤ file.bytes.length)
    (hk : k + 1 < n.toNat) (h : Progress file bs n k s) :
    ∃ t, shuffleStep rand bs n s = (t, none) ∧ Progress file bs n (k + 1) t ∧
      ∀ p, block bs.toNat p t.map.bytes =
        block bs.toNat (Equiv.swap k (position rand n.toNat k) p) s.map.bytes := by
  have hi : s.i.toNat < n.toNat := by rw [h.i_eq]; omega
  have hn := n.toNat_lt
  have left : ¬ n - s.i = 0 := by
    intro hz
    have hle : s.i ≤ n := UInt64.le_iff_toNat_le.mpr (Nat.le_of_lt hi)
    have := congrArg UInt64.toNat hz
    simp only [UInt64.toNat_sub_of_le _ _ hle, UInt64.toNat_zero] at this
    omega
  have hfit' : bs.toNat * n.toNat ≤ s.map.bytes.length := by
    rw [h.shuffled.length_eq]
    exact hfit
  obtain ⟨map, hmap, shuffled, order⟩ := swapKeys_swaps hfit' hi (shuffleIndex_bounds rand hi).2
  refine ⟨⟨s.i + 1, map⟩, by simp only [shuffleStep, if_neg left, hmap],
    ⟨?_, h.shuffled.trans shuffled⟩, ?_⟩
  · simp only [UInt64.toNat_add, h.i_eq, UInt64.toNat_one]
    omega
  · rwa [shuffleIndex_toNat rand hi, h.i_eq] at order

/-- Rounds of the loop are in order, and arrange the blocks as their positions say. -/
theorem rounds_progress {rand : Rand} {file : KeyFile} {bs n : UInt64} {k : Nat}
    {s : ShuffleState} (hfit : bs.toNat * n.toNat ≤ file.bytes.length)
    (rounds : BoundedLoop.Rounds (shuffleStep rand bs n) k ⟨0, file⟩ s) (hk : k ≤ n.toNat - 1) :
    Progress file bs n k s ∧ ∀ p, block bs.toNat p s.map.bytes =
      block bs.toNat (ForwardSwaps.swapsOrder (position rand n.toNat) k p) file.bytes := by
  revert hk
  apply BoundedLoop.Rounds.invariant (fun k s => k ≤ n.toNat - 1 → Progress file bs n k s ∧
    ∀ p, block bs.toNat p s.map.bytes =
      block bs.toNat (ForwardSwaps.swapsOrder (position rand n.toNat) k p) file.bytes) _ _ rounds
  · intro k t u keep last hk
    obtain ⟨progress, order⟩ := keep (by omega)
    obtain ⟨v, hv, next, swapped⟩ := shuffleStep_progress hfit (by omega) progress
    cases hv.symm.trans last
    refine ⟨next, ?_⟩
    intro p
    rw [swapped, order, ForwardSwaps.swapsOrder_succ_apply]
  · intro _
    exact ⟨⟨rfl, .refl _ _ _⟩, fun _ => rfl⟩

/-- The loop runs to its end and arranges the blocks as the drawn positions say. -/
theorem shuffleLoop_order (rand : Rand) {file : KeyFile} {bs n : UInt64}
    (hn : 0 < n.toNat) (hfit : bs.toNat * n.toNat ≤ file.bytes.length) :
    ∃ s, shuffleLoop rand bs n file = (s, none) ∧ Shuffled bs.toNat n.toNat file s.map ∧
      ∀ p, block bs.toNat p s.map.bytes =
        block bs.toNat (ForwardSwaps.swapsOrder (position rand n.toNat) (n.toNat - 1) p)
          file.bytes := by
  have hbound : (n - 1).toNat = n.toNat - 1 :=
    UInt64.toNat_sub_of_le _ _ (UInt64.le_iff_toNat_le.mpr hn)
  rcases BoundedLoop.run_cases (shuffleStep rand bs n) (n - 1).toNat ⟨0, file⟩ with
    ⟨t, rounds, hrun⟩ | ⟨k, t, u, e, hk, rounds, last, _⟩
  · obtain ⟨progress, order⟩ := rounds_progress hfit rounds (Nat.le_of_eq hbound)
    rw [hbound] at order
    exact ⟨t, hrun, progress.shuffled, order⟩
  · obtain ⟨progress, _⟩ := rounds_progress hfit rounds (by omega)
    obtain ⟨v, hv, _⟩ := shuffleStep_progress hfit (by omega) progress
    cases hv.symm.trans last

/-- The number of blocks a shuffle of a file works on. -/
def shuffledBlocks (file : KeyFile) (bs count : UInt64) : Nat :=
  min (file.bytes.length / bs.toNat) count.toNat

theorem size_div (file : KeyFile) (bs : UInt64) :
    (file.size / bs).toNat = file.bytes.length / bs.toNat := by
  rw [UInt64.toNat_div, KeyFile.size_toNat]

theorem clamped_toNat (file : KeyFile) (bs count : UInt64) :
    (if file.size / bs > count then count else file.size / bs).toNat =
      shuffledBlocks file bs count := by
  rw [shuffledBlocks]
  split
  · rename_i hlt
    rw [gt_iff_lt, UInt64.lt_iff_toNat_lt, size_div] at hlt
    exact (Nat.min_eq_right (Nat.le_of_lt hlt)).symm
  · rename_i hle
    rw [gt_iff_lt, UInt64.lt_iff_toNat_lt, size_div, Nat.not_lt] at hle
    rw [size_div, Nat.min_eq_left hle]

/-- The blocks of a shuffle lie inside the file. -/
theorem shuffledBlocks_fit (file : KeyFile) (bs count : UInt64) :
    bs.toNat * shuffledBlocks file bs count ≤ file.bytes.length :=
  (Nat.mul_le_mul_left _ (min_le_left _ _)).trans (Nat.mul_div_le _ _)

/-- A file that is not taken for empty has a block to shuffle, if the count allows one. -/
theorem shuffledBlocks_pos {file : KeyFile} {bs count : UInt64} (hblocks : ¬ file.size / bs = 0)
    (hcount : 0 < count.toNat) : 0 < shuffledBlocks file bs count := by
  have hpos : 0 < file.bytes.length / bs.toNat := by
    rw [← size_div]
    exact Nat.pos_of_ne_zero fun h => hblocks (UInt64.toNat_inj.mp h)
  exact lt_min hpos hcount

/-- A file is taken for empty when it is shorter than one block. -/
theorem no_block_iff {file : KeyFile} {bs : UInt64} (sized : bs ≠ 0) :
    file.size / bs = 0 ↔ file.bytes.length < bs.toNat := by
  have pos : bs.toNat ≠ 0 := fun h => sized (UInt64.toNat_inj.mp h)
  rw [← UInt64.toNat_inj, size_div, UInt64.toNat_zero, Nat.div_eq_zero_iff, or_iff_right pos]

/-- With a block count of zero the bound of the loop is the largest `size_t`, so
there is a first round, and it has no position left to draw from. -/
theorem shuffleLoop_zero (rand : Rand) (bs : UInt64) (map : KeyFile) :
    shuffleLoop rand bs 0 map = (⟨0, map⟩, some .divisionByZero) := by
  have wraps : ((0 : UInt64) - 1).toNat = 18446744073709551614 + 1 := by decide
  rw [shuffleLoop, wraps]
  exact BoundedLoop.run_step_some (if_pos (UInt64.sub_self 0))

/-! ## How a shuffle ends -/

/-- The blocks in the order that the drawn positions make. -/
structure Arranged (rand : Rand) (bs n : Nat) (file file' : KeyFile) : Prop where
  shuffled : Shuffled bs n file file'
  order : ∀ p, block bs p file'.bytes =
    block bs (ForwardSwaps.swapsOrder (position rand n) (n - 1) p) file.bytes

/-- The ways in which `nb_random_shuffle` ends. -/
inductive Ends (calls : ShuffleCalls) (bs count : UInt64) : Except Fault ShuffleResult → Prop where
  | unmapped (log : Log) : ¬ Maps calls.file →
      log = [] ∨ log = [.acquire .descriptor, .release .descriptor] →
      Ends calls bs count (.ok ⟨-1, calls.file.content, log⟩)
  | noSize : Maps calls.file → bs = 0 → Ends calls bs count (.error .divisionByZero)
  | noKey : Maps calls.file → bs ≠ 0 → calls.file.content.bytes.length < bs.toNat →
      Ends calls bs count (.ok ⟨if (nbRandomCloseFile calls.file).1 = 0 then 0 else -1,
        calls.file.content, mapLog ++ (nbRandomCloseFile calls.file).2⟩)
  | noBuffer : Maps calls.file → bs ≠ 0 → bs.toNat ≤ calls.file.content.bytes.length →
      calls.mallocOk = false →
      Ends calls bs count
        (.ok ⟨-2, calls.file.content, mapLog ++ (nbRandomCloseFile calls.file).2⟩)
  | noCount : Maps calls.file → bs ≠ 0 → bs.toNat ≤ calls.file.content.bytes.length →
      calls.mallocOk = true → count = 0 → Ends calls bs count (.error .divisionByZero)
  | shuffled (content : KeyFile) : Maps calls.file → bs ≠ 0 →
      bs.toNat ≤ calls.file.content.bytes.length → calls.mallocOk = true → count ≠ 0 →
      Arranged calls.rand bs.toNat (shuffledBlocks calls.file.content bs count)
        calls.file.content content →
      Ends calls bs count
        (.ok ⟨if calls.msyncOk = true ∧ (nbRandomCloseFile calls.file).1 = 0 then 0 else -3, content,
          mapLog ++ [.acquire .swapbuf, .release .swapbuf] ++ (nbRandomCloseFile calls.file).2⟩)

/-- The loop and what follows it. -/
theorem ends_shuffled {calls : ShuffleCalls} {bs count : UInt64} (maps : Maps calls.file)
    (opened : nbRandomOpenFile calls.file =
      (0, some ⟨calls.file.content, 0, calls.file.content.size⟩, mapLog))
    (sized : bs ≠ 0) (holds : bs.toNat ≤ calls.file.content.bytes.length)
    (buffered : calls.mallocOk = true) (counted : count ≠ 0) :
    Ends calls bs count (nbRandomShuffle calls bs count) := by
  have divides : ¬ calls.file.content.size / bs = 0 :=
    fun h => absurd ((no_block_iff sized).mp h) (Nat.not_lt_of_le holds)
  have clamped := clamped_toNat calls.file.content bs count
  simp only [nbRandomShuffle, opened, if_neg sized, if_neg divides, buffered]
  generalize (if calls.file.content.size / bs > count then count
    else calls.file.content.size / bs) = n at clamped ⊢
  have hn : 0 < n.toNat := by
    rw [clamped]
    exact shuffledBlocks_pos divides
      (UInt64.lt_iff_toNat_lt.mp (UInt64.pos_iff_ne_zero.mpr counted))
  have hfit : bs.toNat * n.toNat ≤ calls.file.content.bytes.length := by
    rw [clamped]
    exact shuffledBlocks_fit _ _ _
  obtain ⟨s, hs, shuffled, order⟩ := shuffleLoop_order calls.rand hn hfit
  rw [clamped] at shuffled order
  have done : Ends calls bs count _ :=
    .shuffled s.map maps sized holds buffered counted ⟨shuffled, order⟩
  simp only [hs]
  cases synced : calls.msyncOk with
  | false => simpa [synced] using done
  | true => simpa [synced] using done

theorem ends (calls : ShuffleCalls) (bs count : UInt64) :
    Ends calls bs count (nbRandomShuffle calls bs count) := by
  rcases open_cases calls.file with ⟨maps, opened⟩ | ⟨unmapped, r, log, refused, hlog⟩
  case inr =>
    simp only [nbRandomShuffle, refused]
    exact .unmapped log unmapped hlog
  by_cases sized : bs = 0
  · simp only [nbRandomShuffle, opened, if_pos sized]
    exact .noSize maps sized
  by_cases divides : calls.file.content.size / bs = 0
  · simp only [nbRandomShuffle, opened, if_neg sized, if_pos divides]
    exact .noKey maps sized ((no_block_iff sized).mp divides)
  have holds := Nat.le_of_not_lt fun short => divides ((no_block_iff sized).mpr short)
  cases buffered : calls.mallocOk with
  | false =>
    simp only [nbRandomShuffle, opened, if_neg sized, if_neg divides, buffered]
    exact .noBuffer maps sized holds buffered
  | true =>
    by_cases counted : count = 0
    · have clamped : (if calls.file.content.size / bs > count then count
          else calls.file.content.size / bs) = 0 := by
        rw [if_pos (counted ▸ UInt64.pos_iff_ne_zero.mpr divides), counted]
      simp only [nbRandomShuffle, opened, if_neg sized, if_neg divides, buffered, clamped,
        shuffleLoop_zero]
      exact .noCount maps sized holds buffered counted
    · exact ends_shuffled maps opened sized holds buffered counted

section Endings
variable (calls : ShuffleCalls) {bs count : UInt64}

/-- Whatever the system answers, a run that returns has shuffled the file or left
it alone. -/
theorem returned_shuffled {result : ShuffleResult}
    (returned : nbRandomShuffle calls bs count = .ok result) :
    Shuffled bs.toNat (shuffledBlocks calls.file.content bs count)
      calls.file.content result.content := by
  have ends := ends calls bs count
  rw [returned] at ends
  cases ends with
  | unmapped => exact .refl _ _ _
  | noKey => exact .refl _ _ _
  | noBuffer => exact .refl _ _ _
  | shuffled content maps sized holds buffered counted arranged => exact arranged.shuffled

/-- Without a buffer nothing is written, whatever the size and the count. -/
theorem unbuffered (sized : bs ≠ 0) (noBuffer : calls.mallocOk = false) :
    ∃ result, nbRandomShuffle calls bs count = .ok result ∧
      result.content = calls.file.content := by
  have ends := ends calls bs count
  generalize nbRandomShuffle calls bs count = returned at ends ⊢
  cases ends with
  | unmapped => exact ⟨_, rfl, rfl⟩
  | noSize maps zero => exact absurd zero sized
  | noKey => exact ⟨_, rfl, rfl⟩
  | noBuffer => exact ⟨_, rfl, rfl⟩
  | noCount maps sized holds buffered zero => cases buffered.symm.trans noBuffer
  | shuffled content maps sized holds buffered => cases buffered.symm.trans noBuffer

/-- A shuffle that does not return has divided by zero: the size of the file by
the key size, or in a first round that a count of zero should not have. -/
theorem divides_by_zero (crashes : ¬ ∃ result, nbRandomShuffle calls bs count = .ok result) :
    nbRandomShuffle calls bs count = .error .divisionByZero := by
  have ends := ends calls bs count
  generalize nbRandomShuffle calls bs count = returned at ends crashes ⊢
  cases ends with
  | noSize => rfl
  | noCount => rfl
  | unmapped => exact absurd ⟨_, rfl⟩ crashes
  | noKey => exact absurd ⟨_, rfl⟩ crashes
  | noBuffer => exact absurd ⟨_, rfl⟩ crashes
  | shuffled => exact absurd ⟨_, rfl⟩ crashes

/-- The inputs on which a shuffle returns. -/
theorem returns_iff :
    (∃ result, nbRandomShuffle calls bs count = .ok result) ↔
      ¬ Maps calls.file ∨ (bs ≠ 0 ∧ (count ≠ 0 ∨
        calls.file.content.bytes.length < bs.toNat ∨ calls.mallocOk = false)) := by
  have ends := ends calls bs count
  generalize nbRandomShuffle calls bs count = returned at ends ⊢
  cases ends with
  | unmapped log unmapped => exact ⟨fun _ => Or.inl unmapped, fun _ => ⟨_, rfl⟩⟩
  | noSize maps zero =>
    refine ⟨?_, fun h => absurd zero (h.resolve_left (not_not.mpr maps)).1⟩
    rintro ⟨_, ⟨⟩⟩
  | noKey maps sized short =>
    exact ⟨fun _ => Or.inr ⟨sized, Or.inr (Or.inl short)⟩, fun _ => ⟨_, rfl⟩⟩
  | noBuffer maps sized holds noBuffer =>
    exact ⟨fun _ => Or.inr ⟨sized, Or.inr (Or.inr noBuffer)⟩, fun _ => ⟨_, rfl⟩⟩
  | noCount maps sized holds buffered zero =>
    constructor
    · rintro ⟨_, ⟨⟩⟩
    intro h
    rcases (h.resolve_left (not_not.mpr maps)).2 with counted | short | noBuffer
    · exact absurd zero counted
    · exact absurd short (Nat.not_lt_of_le holds)
    · cases buffered.symm.trans noBuffer
  | shuffled content maps sized holds buffered counted =>
    exact ⟨fun _ => Or.inr ⟨sized, Or.inl counted⟩, fun _ => ⟨_, rfl⟩⟩

/-- Every run with a key size and a count returns. -/
theorem nbRandomShuffle_spec (sized : bs ≠ 0) (counted : count ≠ 0) :
    ∃ result, nbRandomShuffle calls bs count = .ok result ∧
      Shuffled bs.toNat (shuffledBlocks calls.file.content bs count)
        calls.file.content result.content := by
  obtain ⟨result, returned⟩ := (returns_iff calls).mpr (Or.inr ⟨sized, Or.inl counted⟩)
  exact ⟨result, returned, returned_shuffled calls returned⟩

end Endings

end KeyShuffling
