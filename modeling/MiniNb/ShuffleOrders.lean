import MiniNb.KeyShuffling
import Mathlib.Logic.Equiv.Fin.Basic
import Mathlib.Data.Fintype.Perm

/-!
# The orders that a shuffle can produce

The result `r` of `rand` chooses position `i + r / (RAND_MAX / (n - i) + 1)`.
The divisor is rounded up, which keeps the position inside the file, but the
quotient then need not reach the last positions. With the `RAND_MAX` of the
usual C library this first happens when 46410 blocks are left, so every order
of at most 46409 blocks can be produced, and of no greater number of blocks.
-/

namespace ShuffleOrders

open MiniNb BlockMemory KeyShuffling ForwardSwaps

/-- `RAND_MAX`. -/
def randMax : Nat := 2147483647

/-- The greatest number of blocks of which all orders are produced. -/
def orderLimit : Nat := 46409

/-- The loop brings block `σ k` to position `k`, in every file that holds `n` blocks. -/
def Arranges (rand : Rand) (n : UInt64) (σ : Equiv.Perm (Fin n.toNat)) : Prop :=
  ∀ (bs : UInt64) (file : KeyFile), 0 < bs.toNat → bs.toNat * n.toNat ≤ file.bytes.length →
    ∃ s, shuffleLoop rand bs n file = (s, none) ∧
      ∀ k : Fin n.toNat, block bs.toNat k s.map.bytes = block bs.toNat (σ k) file.bytes

/-- Every order of `n` blocks is produced by some results of `rand`. -/
def EveryOrder (n : UInt64) : Prop :=
  ∀ σ : Equiv.Perm (Fin n.toNat), ∃ rand : Rand, rand.randMax = randMax ∧ Arranges rand n σ

/-- In every round, every position from the round's own on is chosen by some result of `rand`. -/
def EveryPosition (n : UInt64) : Prop :=
  ∀ i j : UInt64, i.toNat + 1 < n.toNat → i.toNat ≤ j.toNat → j.toNat < n.toNat →
    ∃ rand : Rand, rand.randMax = randMax ∧ shuffleIndex rand n i = j

theorem drawn_iff {max d c : Nat} (hc : 0 < c) : (∃ r, r ≤ max ∧ r / c = d) ↔ d * c ≤ max := by
  constructor
  · rintro ⟨r, hr, rfl⟩
    exact Nat.le_trans (Nat.div_mul_le_self r c) hr
  · intro h
    exact ⟨d * c, h, Nat.mul_div_cancel d hc⟩

/-- Up to the limit the greatest quotient reaches the last position left. -/
theorem last_reached {m : Nat} (hm : 0 < m) (small : m ≤ orderLimit) :
    (m - 1) * (randMax / m + 1) ≤ randMax := by
  rcases Nat.lt_or_ge 46341 m with hlarge | hroot
  · -- Between the square root of `RAND_MAX` and the limit, 68 numbers are left.
    have table : ∀ d, d < 68 → (46341 + d) * (randMax / (46342 + d) + 1) ≤ randMax := by decide
    have hd := table (m - 46342) (by rw [orderLimit] at small; omega)
    rwa [show 46341 + (m - 46342) = m - 1 by omega, show 46342 + (m - 46342) = m by omega] at hd
  · have hquot : m - 1 ≤ randMax / m := by
      rw [Nat.le_div_iff_mul_le hm]
      calc (m - 1) * m ≤ 46340 * 46341 := Nat.mul_le_mul (by omega) hroot
        _ ≤ randMax := by decide
    calc (m - 1) * (randMax / m + 1) = (m - 1) * (randMax / m) + (m - 1) := Nat.mul_succ _ _
      _ ≤ (m - 1) * (randMax / m) + randMax / m := Nat.add_le_add_left hquot _
      _ = m * (randMax / m) := by rw [← Nat.succ_mul, Nat.succ_eq_add_one, Nat.sub_add_cancel hm]
      _ ≤ randMax := Nat.mul_div_le _ _

/-- With one block more than the limit, the last position is out of reach. -/
theorem last_missed : ¬ orderLimit * (randMax / (orderLimit + 1) + 1) ≤ randMax := by decide

/-- Results of `rand` for given positions. -/
theorem exists_rand {j : Nat → Nat} {n k : Nat} (forward : Forward j n k) (hk : k ≤ n)
    (small : n ≤ orderLimit) :
    ∃ rand : Rand, rand.randMax = randMax ∧ ∀ i, i < k → position rand n i = j i := by
  have fits : ∀ i, i < k → (j i - i) * (randMax / (n - i) + 1) ≤ randMax := by
    intro i hi
    obtain ⟨_, hj⟩ := forward i hi
    have last := last_reached (m := n - i) (by omega) (by omega)
    exact Nat.le_trans (Nat.mul_le_mul_right _ (by omega)) last
  refine ⟨⟨randMax, by decide, by decide,
    fun i => if i < k then (j i - i) * (randMax / (n - i) + 1) else 0, ?_⟩, rfl, ?_⟩
  · intro i
    split
    · exact fits i ‹_›
    · exact Nat.zero_le _
  · intro i hi
    obtain ⟨hj, _⟩ := forward i hi
    simp only [position, if_pos hi, Nat.mul_div_cancel _ (Nat.succ_pos _)]
    omega

theorem block_one (p : Nat) (mem : Bytes) : block 1 p mem = mem[p]?.toList := by
  rw [block, Nat.one_mul, List.take_one, List.head?_drop]

/-- One byte that differs from the others shows where its block has gone. -/
theorem arranges_iff (rand : Rand) {n : UInt64} (hn : 0 < n.toNat) (bounded : n.toNat < 2 ^ 63)
    (σ : Equiv.Perm (Fin n.toNat)) :
    Arranges rand n σ ↔
      ∀ k : Fin n.toNat, swapsOrder (position rand n.toNat) (n.toNat - 1) k = σ k := by
  constructor
  · intro arranges k
    let mark : Bytes := (List.replicate n.toNat 0).set (σ k) 1
    have hlen : mark.length = n.toNat := by simp [mark]
    have short : mark.length < 2 ^ 63 := by omega
    let file : KeyFile := ⟨mark, short⟩
    have fits : (1 : UInt64).toNat * n.toNat ≤ file.bytes.length := by simp [file, hlen]
    obtain ⟨s, hs, arranged⟩ := arranges 1 file (by decide) fits
    obtain ⟨s', hs', _, order⟩ := shuffleLoop_order rand hn fits
    cases hs.symm.trans hs'
    have same := (order k).symm.trans (arranged k)
    simp only [UInt64.toNat_one, block_one, file] at same
    have marked : mark[(σ k).val]? = some 1 := by simp [mark]
    rw [marked, Option.toList_some, Option.toList_eq_singleton_iff] at same
    by_contra hne
    simp only [mark, List.getElem?_set_ne (fun h => hne h.symm), List.getElem?_replicate] at same
    split at same
    · cases same
    · cases same
  · intro order bs file hbs fits
    obtain ⟨s, hs, _, arranged⟩ := shuffleLoop_order rand hn fits
    exact ⟨s, hs, fun k => by rw [arranged, order]⟩

/-- The last choice is forced. -/
theorem swapsOrder_last {j : Nat → Nat} {n : Nat} (forward : Forward j n n) (hn : 0 < n) :
    swapsOrder j n = swapsOrder j (n - 1) := by
  obtain ⟨m, rfl⟩ := Nat.exists_eq_add_of_lt hn
  obtain ⟨hlow, hhigh⟩ := forward (0 + m) (Nat.lt_succ_self _)
  have hj : j (0 + m) = 0 + m := by omega
  rw [swapsOrder, hj, Equiv.swap_self]
  rfl

theorem everyOrder_of_le {n : UInt64} (hn : 0 < n.toNat) (small : n.toNat ≤ orderLimit) :
    EveryOrder n := by
  intro σ
  let extended : Equiv.Perm Nat := σ.extendDomain Fin.equivSubtype
  have inside : ∀ k : Fin n.toNat, extended k = σ k := fun k =>
    σ.extendDomain_apply_image Fin.equivSubtype k
  have outside : ∀ p, n.toNat ≤ p → extended p = p := fun p hp =>
    σ.extendDomain_apply_not_subtype Fin.equivSubtype (Nat.not_lt.mpr hp)
  obtain ⟨j, forward, agrees⟩ := exists_choices extended outside n.toNat (Nat.le_refl _)
  obtain ⟨rand, hmax, drawn⟩ := exists_rand forward (Nat.le_refl _) small
  refine ⟨rand, hmax, (arranges_iff rand hn (by rw [orderLimit] at small; omega) σ).mpr ?_⟩
  intro k
  have same : swapsOrder (position rand n.toNat) (n.toNat - 1) = swapsOrder j (n.toNat - 1) :=
    swapsOrder_congr fun i hi => drawn i (by omega)
  rw [same, ← swapsOrder_last forward hn, agrees k k.isLt, inside]

theorem everyPosition_of_le {n : UInt64} (small : n.toNat ≤ orderLimit) : EveryPosition n := by
  intro i j hi hij hj
  have forward : Forward (fun k => if k = i.toNat then j.toNat else k) n.toNat (i.toNat + 1) := by
    intro k hk
    dsimp only
    split
    · omega
    · omega
  obtain ⟨rand, hmax, drawn⟩ := exists_rand forward (Nat.le_of_lt hi) small
  refine ⟨rand, hmax, UInt64.toNat_inj.mp ?_⟩
  rw [shuffleIndex_toNat rand (Nat.lt_of_succ_lt hi)]
  exact (drawn i.toNat (Nat.lt_succ_self _)).trans (if_pos rfl)

/-- With one block more than the limit left, the last position is not chosen. -/
theorem position_ne_last {rand : Rand} (hmax : rand.randMax = randMax) {n : Nat}
    (large : orderLimit < n) : position rand n (n - (orderLimit + 1)) ≠ n - 1 := by
  intro choice
  have left : n - (n - (orderLimit + 1)) = orderLimit + 1 := by omega
  simp only [position, hmax, left] at choice
  have reached : rand.next (n - (orderLimit + 1)) / (randMax / (orderLimit + 1) + 1) =
      orderLimit := by omega
  exact last_missed ((drawn_iff (Nat.succ_pos _)).mp ⟨_, hmax ▸ rand.next_le _, reached⟩)

theorem not_everyPosition {n : UInt64} (large : orderLimit < n.toNat) : ¬ EveryPosition n := by
  intro every
  have hlimit : 0 < orderLimit := by decide
  have hn := n.toNat_lt
  have hi : (UInt64.ofNat (n.toNat - (orderLimit + 1))).toNat = n.toNat - (orderLimit + 1) :=
    UInt64.toNat_ofNat_of_lt' (by rw [UInt64.size]; omega)
  have hj : (UInt64.ofNat (n.toNat - 1)).toNat = n.toNat - 1 :=
    UInt64.toNat_ofNat_of_lt' (by rw [UInt64.size]; omega)
  obtain ⟨rand, hmax, chosen⟩ := every _ (UInt64.ofNat (n.toNat - 1)) (by rw [hi]; omega)
    (by rw [hi, hj]; omega) (by rw [hj]; omega)
  have index := congrArg UInt64.toNat chosen
  rw [shuffleIndex_toNat rand (by rw [hi]; omega), hi, hj] at index
  exact position_ne_last hmax large index

/-- Where the last position cannot be chosen, exchanging it with the round's own is out of reach. -/
theorem not_everyOrder {n : UInt64} (bounded : n.toNat < 2 ^ 63) (large : orderLimit < n.toNat) :
    ¬ EveryOrder n := by
  intro every
  have hlimit : 0 < orderLimit := by decide
  have hn : 0 < n.toNat := Nat.zero_lt_of_lt large
  have hfirst : n.toNat - (orderLimit + 1) < n.toNat := by omega
  have hlast : n.toNat - 1 < n.toNat := by omega
  obtain ⟨rand, hmax, arranges⟩ := every (Equiv.swap ⟨_, hfirst⟩ ⟨_, hlast⟩)
  have order := (arranges_iff rand hn bounded _).mp arranges
  have forward : Forward (position rand n.toNat) n.toNat (n.toNat - 1) :=
    (position_forward rand n.toNat).mono (Nat.sub_le _ _)
  have fixed : ∀ q, q < n.toNat - (orderLimit + 1) →
      swapsOrder (position rand n.toNat) (n.toNat - 1) q = q := by
    intro q hq
    have hlt : q < n.toNat := by omega
    rw [order ⟨q, hlt⟩, Equiv.swap_apply_of_ne_of_ne]
    · rw [ne_eq, Fin.mk.injEq]
      omega
    · rw [ne_eq, Fin.mk.injEq]
      omega
  have choice := choice_of_first_change forward (by omega) fixed
  rw [order ⟨_, hfirst⟩, Equiv.swap_apply_left] at choice
  exact position_ne_last hmax large choice

/-- All orders of the blocks are produced up to the limit, and no further; the
same holds of the positions that a round can choose. -/
theorem everyOrder_iff {n : UInt64} (hn : 1 ≤ n.toNat) (bounded : n.toNat ≤ randMax) :
    (EveryOrder n ↔ n.toNat ≤ orderLimit) ∧ (EveryPosition n ↔ n.toNat ≤ orderLimit) := by
  rw [randMax] at bounded
  constructor
  · constructor
    · intro every
      by_contra large
      exact not_everyOrder (by omega) (Nat.lt_of_not_le large) every
    · exact everyOrder_of_le hn
  · constructor
    · intro every
      by_contra large
      exact not_everyPosition (Nat.lt_of_not_le large) every
    · exact everyPosition_of_le

theorem everyOrder_iff_two :
    (EveryOrder 2 ↔ 2 ≤ orderLimit) ∧ (EveryPosition 2 ↔ 2 ≤ orderLimit) :=
  everyOrder_iff (n := 2) (by decide) (by decide)

/-- The million records of the usage text. -/
theorem not_everyOrder_million : ¬ EveryOrder 1000000 :=
  not_everyOrder (by decide) (by decide)

end ShuffleOrders
