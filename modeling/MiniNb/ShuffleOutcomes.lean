import MiniNb.ShuffleSafety

/-!
# What a shuffle leaves behind when it fails

The system can refuse any of the calls of `nb_random_shuffle`. A shuffle that
returns has then either left the keys file alone or shuffled all of it, and the
return code tells which: a failure after the loop is reported although the keys
have been exchanged. Everything is given back unless the mapping cannot be.
-/

namespace ShuffleOutcomes

open MiniNb BlockMemory KeyShuffling ResourceLedger

/-- The mapping and the descriptor can be given back. -/
structure Unmaps (calls : FileCalls) : Prop where
  unmaps : calls.munmapOk = true
  closes : calls.closeOk = true

theorem close_zero_iff (calls : FileCalls) : (nbRandomCloseFile calls).1 = 0 ↔ Unmaps calls := by
  unfold nbRandomCloseFile
  split
  · rename_i h
    exact ⟨fun h' => absurd h' (by decide), fun ok => by simp [ok.unmaps] at h⟩
  split
  · rename_i h
    exact ⟨fun h' => absurd h' (by decide), fun ok => by simp [ok.closes] at h⟩
  · rename_i hunmap hclose
    exact ⟨fun _ => ⟨by simpa using hunmap, by simpa using hclose⟩, fun _ => rfl⟩

/-- Everything is given back, unless the mapping cannot be. -/
theorem mapped_balanced_iff (calls : FileCalls) (middle : Log)
    (middle_eq : middle = [] ∨ middle = [.acquire .swapbuf, .release .swapbuf]) :
    Balanced (mapLog ++ middle ++ (nbRandomCloseFile calls).2) ↔ calls.munmapOk = true := by
  unfold nbRandomCloseFile
  cases calls.munmapOk with
  | false =>
    rw [if_pos (by decide : (!false) = true)]
    rcases middle_eq with rfl | rfl <;> decide
  | true =>
    cases calls.closeOk with
    | false => rcases middle_eq with rfl | rfl <;> decide
    | true => rcases middle_eq with rfl | rfl <;> decide

/-- What a shuffle that returns has done to the file, and what it has given back. -/
structure Outcome (calls : ShuffleCalls) (bs count : UInt64) (result : ShuffleResult) : Prop where
  codes : result.rc = 0 ∨ result.rc = -1 ∨ result.rc = -2 ∨ result.rc = -3
  untouched : result.rc = -1 ∨ result.rc = -2 → result.content = calls.file.content
  arranged : result.rc = 0 ∨ result.rc = -3 →
    Arranged calls.rand bs.toNat (shuffledBlocks calls.file.content bs count)
      calls.file.content result.content
  late : result.rc = -3 → calls.msyncOk = false ∨ ¬ Unmaps calls.file
  balanced : Balanced result.log ↔ (Maps calls.file → calls.file.munmapOk = true)

theorem Outcome.of_untouched {calls : ShuffleCalls} {bs count : UInt64} {rc : Int} {log : Log}
    (code : rc = -1 ∨ rc = -2)
    (balanced : Balanced log ↔ (Maps calls.file → calls.file.munmapOk = true)) :
    Outcome calls bs count ⟨rc, calls.file.content, log⟩ where
  codes := Or.inr (code.imp id Or.inl)
  untouched := fun _ => rfl
  arranged := by
    rintro (rfl | rfl)
    · exact absurd code (by decide)
    · exact absurd code (by decide)
  late := by
    rintro rfl
    exact absurd code (by decide)
  balanced := balanced

/-- A shuffle that returns has left the file alone or shuffled all of it, and
its return code tells which. -/
theorem shuffle_outcome (calls : ShuffleCalls) {bs count : UInt64} {result : ShuffleResult}
    (returned : nbRandomShuffle calls bs count = .ok result) :
    Outcome calls bs count result := by
  have ends := ends calls bs count
  rw [returned] at ends
  cases ends with
  | unmapped log unmapped hlog =>
    have balanced : Balanced log := by
      rcases hlog with rfl | rfl
      · decide
      · decide
    exact .of_untouched (Or.inl rfl) ⟨fun _ maps => absurd maps unmapped, fun _ => balanced⟩
  | noKey maps sized short =>
    have given := mapped_balanced_iff calls.file [] (Or.inl rfl)
    have none_ : shuffledBlocks calls.file.content bs count = 0 := by
      rw [shuffledBlocks, Nat.div_eq_of_lt short, Nat.zero_min]
    by_cases closes : (nbRandomCloseFile calls.file).1 = 0
    · rw [if_pos closes]
      refine ⟨Or.inl rfl, fun _ => rfl, fun _ => ?_, fun code => ?_, ?_⟩
      · rw [none_]
        exact ⟨.refl _ _ _, fun _ => rfl⟩
      · exact absurd code (show (0 : Int) ≠ -3 by decide)
      · exact given.trans ⟨fun ok _ => ok, fun ok => ok maps⟩
    · rw [if_neg closes]
      exact .of_untouched (Or.inl rfl) (given.trans ⟨fun ok _ => ok, fun ok => ok maps⟩)
  | noBuffer maps sized holds buffered =>
    have given := mapped_balanced_iff calls.file [] (Or.inl rfl)
    exact .of_untouched (Or.inr rfl) (given.trans ⟨fun ok _ => ok, fun ok => ok maps⟩)
  | shuffled content maps sized holds buffered counted arranged =>
    have given := mapped_balanced_iff calls.file _ (Or.inr rfl)
    refine ⟨?_, ?_, fun _ => arranged, ?_, given.trans ⟨fun ok _ => ok, fun ok => ok maps⟩⟩
    · split
      · exact Or.inl rfl
      · exact Or.inr (Or.inr (Or.inr rfl))
    · dsimp only
      split
      · exact fun code => absurd code (by decide)
      · exact fun code => absurd code (by decide)
    · dsimp only
      split
      · exact fun code => absurd code (by decide)
      · rename_i failed
        intro _
        rw [close_zero_iff, not_and_or, Bool.not_eq_true] at failed
        exact failed

/-- Three keys whose mapping cannot be written back. -/
def unsynced : ShuffleCalls :=
  { ShuffleSafety.threeBytes ShuffleSafety.zeroRand with msyncOk := false }

theorem shuffle_outcome_unsynced :
    ∃ result, nbRandomShuffle unsynced 1 3 = .ok result ∧ result.rc = -3 ∧
      Outcome unsynced 1 3 result :=
  ⟨_, rfl, by decide +kernel, shuffle_outcome unsynced rfl⟩

end ShuffleOutcomes
