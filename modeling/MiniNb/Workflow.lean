import MiniNb.KeyShuffling
import MiniNb.RunTrace

/-!
# Put, shuffle, get

A put run that received all its keys shows that the keys file is longer than
these keys. The shuffles then move exactly these keys, because the number of
blocks in the file is not the smaller one, and leave the length of the file as
it is. A get run therefore never lacks a key. What can end it early is a
`select` that fails, and nothing else.
-/

namespace Workflow

open MiniNb BlockMemory KeyReading EngineRun RunTrace KeyShuffling

universe u v w

/-- `Shuffles bs count m a b`: `m` shuffles in turn lead from content `a` to content `b`. -/
inductive Shuffles (bs count : UInt64) : Nat → KeyFile → KeyFile → Prop where
  | none (a : KeyFile) : Shuffles bs count 0 a a
  | snoc {m : Nat} {a : KeyFile} (calls : ShuffleCalls) {result : ShuffleResult} :
      Shuffles bs count m a calls.file.content →
      nbRandomShuffle calls bs count = .ok result → Shuffles bs count (m + 1) a result.content

theorem shuffledBlocks_eq {file : KeyFile} {bs count : UInt64} (hbs : 0 < bs.toNat)
    (enough : bs.toNat * count.toNat ≤ file.bytes.length) :
    shuffledBlocks file bs count = count.toNat := by
  apply Nat.min_eq_right
  rw [Nat.le_div_iff_mul_le hbs, Nat.mul_comm]
  exact enough

/-- Shuffles of a file that holds `count` keys permute these keys. -/
theorem Shuffles.shuffled {bs count : UInt64} {m : Nat} {a b : KeyFile}
    (shuffles : Shuffles bs count m a b) (hbs : 0 < bs.toNat)
    (enough : bs.toNat * count.toNat ≤ a.bytes.length) :
    Shuffled bs.toNat count.toNat a b := by
  induction shuffles with
  | none a => exact .refl _ _ _
  | snoc calls _ hrun ih =>
    have earlier := ih enough
    have enough' : bs.toNat * count.toNat ≤ calls.file.content.bytes.length := by
      rw [earlier.length_eq]
      exact enough
    have last := returned_shuffled calls hrun
    rw [shuffledBlocks_eq hbs enough'] at last
    exact earlier.trans last

theorem mem_blocks_of_le {bs m n : Nat} {mem key : Bytes} (h : m ≤ n)
    (hkey : key ∈ blocks bs m mem) : key ∈ blocks bs n mem := by
  obtain ⟨i, hi, rfl⟩ := List.mem_map.mp hkey
  exact List.mem_map.mpr ⟨i, List.mem_range.mpr (by have := List.mem_range.mp hi; omega), rfl⟩

variable {K : Type u} [Field K] [LinearOrder K] [IsStrictOrderedRing K] [FloorSemiring K]
variable {Db : Type v} {Db' : Type w}

/-- A get run reads back what a put run has stored, as far as no `select` fails. -/
structure ReadsBack (put : BenchState K Db) (count : Nat) (get : BenchState K Db') : Prop where
  complete : (obtainedKeys get.trace).length = count ∨
    ∃ key rc, EngineEvent.select key rc ∈ get.trace ∧ rc ≠ 0
  perm : (obtainedKeys get.trace).length = count →
    (obtainedKeys get.trace).Perm (calledKeys put.trace)
  stored : ∀ key rc, EngineEvent.select key rc ∈ get.trace →
    ∃ val rc', EngineEvent.replace key val rc' ∈ put.trace

omit [Field K] [LinearOrder K] [IsStrictOrderedRing K] [FloorSemiring K] in
/-- A plugin call of a get benchmark is a `select`. -/
theorem select_of_allowed {e : EngineEvent K} (ok : allowed .get e = true)
    (call : (calledKey e).isSome = true) (bad : failed e = true) :
    ∃ key rc, e = .select key rc ∧ rc ≠ 0 := by
  cases e with
  | next rc key => cases call
  | select key rc => exact ⟨key, rc, rfl, by simpa [failed] using bad⟩
  | replace key val rc => cases ok
  | sample td => cases call

omit [Field K] [LinearOrder K] [IsStrictOrderedRing K] [FloorSemiring K] in
/-- A plugin call of a put benchmark is a `replace`. -/
theorem replace_of_allowed {e : EngineEvent K} {key : Bytes} (ok : allowed .put e = true)
    (call : calledKey e = some key) : ∃ val rc, e = .replace key val rc := by
  cases e with
  | next rc key => cases call
  | select key rc => cases ok
  | replace key val rc =>
    cases call
    exact ⟨val, rc, rfl⟩
  | sample td => cases call

/-- After a put run that received all its keys and any shuffles, a get run
receives the same keys in another order, unless a `select` fails before. -/
theorem readsBack (put : Ready K Db) (get : Ready K Db') (isPut : put.bench = .put)
    (isGet : get.bench = .get) (sameLen : get.opts.keyLen = put.opts.keyLen)
    (sameCount : get.opts.count = put.opts.count) (hlen : 0 < put.keyLen)
    (hcount : 0 < put.count) {m : Nat}
    (shuffles : Shuffles put.opts.keyLen put.opts.count m put.file get.file)
    {s : BenchState K Db} (ended : put.result.final = some s)
    (all : (obtainedKeys s.trace).length = put.count) :
    ∃ t, get.result.final = some t ∧ ReadsBack s get.count t := by
  have lens : get.keyLen = put.keyLen := congrArg UInt64.toNat sameLen
  have counts : get.count = put.count := congrArg UInt64.toNat sameCount
  obtain ⟨s', n, hs', keysPut, _, _⟩ := keysObtained put
  cases ended.symm.trans hs'
  have hn : n = put.count := by rw [← all, keysPut.obtained, length_blocks]
  subst hn
  have enough : put.keyLen * put.count < put.file.bytes.length := by
    have last := keysPut.held (put.count - 1) (by omega)
    rwa [Ready.HasKey, Nat.sub_add_cancel hcount] at last
  have shuffled := shuffles.shuffled hlen (Nat.le_of_lt enough)
  obtain ⟨t, n, ht, keysGet, hle, hend⟩ := keysObtained get
  have perm : (blocks get.keyLen get.count get.file.bytes).Perm (calledKeys s.trace) := by
    rw [lens, counts, keysPut.called]
    exact shuffled.perm
  refine ⟨t, ht, ?_, ?_, ?_⟩
  · rw [keysGet.obtained, length_blocks]
    rcases hend with all | short | ⟨e, he, call, bad⟩
    · exact Or.inl all
    · by_cases hlt : n < get.count
      · have held : get.HasKey n := by
          have hmul := Nat.mul_le_mul_left put.keyLen (counts ▸ hlt : n + 1 ≤ put.count)
          unfold Ready.HasKey
          rw [lens, shuffled.length_eq]
          omega
        exact False.elim (short held)
      · exact Or.inl (by omega)
    · obtain ⟨key, rc, rfl, hrc⟩ := select_of_allowed (isGet ▸ keysGet.only_bench e he) call bad
      exact Or.inr ⟨key, rc, he, hrc⟩
  · intro all'
    have hall : n = get.count := by rw [← all', keysGet.obtained, length_blocks]
    rw [keysGet.obtained, hall]
    exact perm
  · intro key rc hselect
    have hkey : key ∈ calledKeys t.trace := List.mem_filterMap.mpr ⟨_, hselect, rfl⟩
    rw [keysGet.called] at hkey
    have stored := perm.mem_iff.mp (mem_blocks_of_le hle hkey)
    obtain ⟨e, he, hcalled⟩ := List.mem_filterMap.mp stored
    obtain ⟨val, rc', rfl⟩ := replace_of_allowed (isPut ▸ keysPut.only_bench e he) hcalled
    exact ⟨val, rc', he⟩

/-- `rand` always returns `RAND_MAX`. -/
def maximalRand : Rand where
  randMax := 2147483647
  randMax_pos := by decide
  randMax_lt := by decide
  next := fun _ => 2147483647
  next_le := fun _ => le_rfl

theorem shuffles_three_bytes :
    Shuffles 1 2 1 ⟨[1, 2, 3], by decide⟩ ⟨[2, 1, 3], by decide⟩ := by
  have hrun : nbRandomShuffle ⟨workingFile [1, 2, 3] (by decide), true, true, maximalRand⟩ 1 2 =
      .ok ⟨0, ⟨[2, 1, 3], by decide⟩, [.acquire .descriptor, .acquire .mapping, .acquire .swapbuf,
        .release .swapbuf, .release .mapping, .release .descriptor]⟩ := rfl
  exact .snoc _ (.none _) hrun

/-- A get run on the shuffled file. -/
def smallGet (selectRc : Int) : Ready ℚ Unit :=
  workingRun (constantDriver 0 selectRc) () (smallOpts 2) [2, 1, 3] .get rfl rfl
    (by decide) (by decide)

def keysReceived (run : Ready ℚ Unit) : Option Nat :=
  run.result.final.map (fun s => (obtainedKeys s.trace).length)

theorem readsBack_three_bytes :
    ∃ s t, (smallRun .put 0 0 2).result.final = some s ∧ (smallGet 0).result.final = some t ∧
      ReadsBack s 2 t := by
  have all : keysReceived (smallRun .put 0 0 2) = some 2 := by decide +kernel
  obtain ⟨s, hs, hlen⟩ := Option.map_eq_some_iff.mp all
  obtain ⟨t, ht, reads⟩ := readsBack (smallRun .put 0 0 2) (smallGet 0) rfl rfl rfl rfl
    (by decide) (by decide) shuffles_three_bytes hs hlen
  exact ⟨s, t, hs, ht, reads⟩

/-- With a failing `select`, the get run ends after its first key. -/
theorem failed_select_ends_get :
    keysReceived (smallRun .put 0 (-1) 2) = some 2 ∧
      Shuffles 1 2 1 (smallRun .put 0 (-1) 2).file (smallGet (-1)).file ∧
      keysReceived (smallGet (-1)) = some 1 :=
  ⟨by decide +kernel, shuffles_three_bytes, by decide +kernel⟩

end Workflow
