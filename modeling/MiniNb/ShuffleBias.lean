import MiniNb.ShuffleOrders
import Mathlib.Algebra.Order.BigOperators.Ring.Finset
import Mathlib.Order.Interval.Finset.Nat
import Mathlib.SetTheory.Cardinal.Finite

/-!
# How fair the shuffle is

An order is produced by as many sequences of results of `rand` as there are ways
to draw each of its positions. The results that lead to one position are an
interval whose length is the divisor, except where the results run out. All
orders are therefore equally likely exactly when the results can be divided
evenly in every round. With a power of two as the number of results, three keys
are already too many.
-/

namespace ShuffleBias

open MiniNb KeyShuffling ForwardSwaps ShuffleOrders

/-- The results of `rand` in a shuffle of `n` blocks. -/
def Draws (max n : Nat) : Type := Fin (n - 1) → Fin (max + 1)

/-- A `rand` with these results. -/
def drawnRand {max n : Nat} (pos : 0 < max) (small : max < 2 ^ 31) (draws : Draws max n) : Rand where
  randMax := max
  randMax_pos := pos
  randMax_lt := small
  next i := if h : i < n - 1 then (draws ⟨i, h⟩).val else 0
  next_le i := by
    split
    · exact Nat.le_of_lt_succ (Fin.isLt _)
    · exact Nat.zero_le _

/-- The number of sequences of results that bring the blocks into the order `σ`. -/
noncomputable def ways {max : Nat} (pos : 0 < max) (small : max < 2 ^ 31) (n : UInt64)
    (σ : Equiv.Perm (Fin n.toNat)) : Nat :=
  Nat.card {draws : Draws max n.toNat // Arranges (drawnRand pos small draws) n σ}

/-- All orders are equally likely. -/
def Fair {max : Nat} (pos : 0 < max) (small : max < 2 ^ 31) (n : UInt64) : Prop :=
  ∀ σ τ : Equiv.Perm (Fin n.toNat), ways pos small n σ = ways pos small n τ

/-! ## One round -/

/-- The number of results that choose the position `o` of the `m` that are left. -/
noncomputable def weight (max m o : Nat) : Nat :=
  Nat.card {r : Fin (max + 1) // r.val / (max / m + 1) = o}

theorem drawn_interval (max m o r : Nat) :
    (r < max + 1 ∧ r / (max / m + 1) = o) ↔
      r ∈ Finset.Ico (o * (max / m + 1)) (min ((o + 1) * (max / m + 1)) (max + 1)) := by
  have pos : 0 < max / m + 1 := Nat.succ_pos _
  generalize max / m + 1 = d at pos ⊢
  rw [Finset.mem_Ico, lt_min_iff, Nat.div_eq_iff pos, Nat.succ_mul]
  omega

/-- These results are an interval. -/
theorem weight_eq (max m o : Nat) :
    weight max m o = min ((o + 1) * (max / m + 1)) (max + 1) - o * (max / m + 1) := by
  have interval := drawn_interval max m o
  have same : {r : Fin (max + 1) // r.val / (max / m + 1) = o} ≃
      Finset.Ico (o * (max / m + 1)) (min ((o + 1) * (max / m + 1)) (max + 1)) :=
    { toFun := fun r => ⟨r.val.val, (interval _).mp ⟨r.val.isLt, r.property⟩⟩
      invFun := fun r => ⟨⟨r.val, ((interval _).mpr r.property).1⟩, ((interval _).mpr r.property).2⟩
      left_inv := fun _ => rfl
      right_inv := fun _ => rfl }
  rw [weight, Nat.card_congr same, Nat.card_eq_fintype_card, Fintype.card_coe, Nat.card_Ico]

/-- The first position gets as many results as the divisor says. -/
theorem weight_zero (max m : Nat) : weight max m 0 = max / m + 1 := by
  have := Nat.div_le_self max m
  rw [weight_eq]
  omega

/-- The results are divided evenly exactly when their number is a multiple. -/
theorem weight_even_iff {max m : Nat} (hm : 0 < m) :
    (∀ o, o < m → weight max m o = max / m + 1) ↔ m ∣ max + 1 := by
  have bound := Nat.lt_mul_div_succ max hm
  constructor
  · intro even
    have last := even (m - 1) (Nat.sub_lt hm Nat.one_pos)
    rw [weight_eq, Nat.sub_add_cancel hm, min_eq_right bound, Nat.sub_mul, Nat.one_mul] at last
    refine ⟨max / m + 1, ?_⟩
    have fits : max / m + 1 ≤ m * (max / m + 1) := Nat.le_mul_of_pos_left _ hm
    have pos : 0 < max / m + 1 := Nat.succ_pos _
    generalize max / m + 1 = d at bound last fits pos ⊢
    omega
  · rintro ⟨q, hq⟩ o ho
    have divisor : max / m + 1 = q := by
      rw [← Nat.succ_div_of_dvd ⟨q, hq⟩, hq, Nat.mul_div_cancel_left q hm]
    rw [weight_eq, divisor, hq]
    have inside : (o + 1) * q ≤ m * q := Nat.mul_le_mul_right q ho
    rw [min_eq_left inside, Nat.succ_mul, Nat.add_sub_cancel_left]

/-! ## All rounds -/

section Orders
variable {max : Nat} (pos : 0 < max) (small : max < 2 ^ 31) {n : UInt64}

/-- The order that choices of positions lead to, as an order of the blocks. -/
theorem exists_order {j : Nat → Nat} {n : Nat} (forward : Forward j n (n - 1)) :
    ∃ σ : Equiv.Perm (Fin n), ∀ k : Fin n, swapsOrder j (n - 1) k = σ k := by
  have inside : ∀ k : Fin n, swapsOrder j (n - 1) k < n := by
    intro k
    by_contra outside
    have fixed := swapsOrder_outside forward (Nat.sub_le n 1) (Nat.le_of_not_lt outside)
    have same := (swapsOrder j (n - 1)).injective fixed
    have := k.isLt
    omega
  have injective : Function.Injective fun k : Fin n => (⟨_, inside k⟩ : Fin n) := by
    intro a b hab
    rw [Fin.mk.injEq] at hab
    exact Fin.ext ((swapsOrder j (n - 1)).injective hab)
  exact ⟨Equiv.ofBijective _ (Finite.injective_iff_bijective.mp injective), fun k => rfl⟩

/-- Every order comes from choices of positions. -/
theorem exists_positions {n : Nat} (hn : 0 < n) (σ : Equiv.Perm (Fin n)) :
    ∃ j, Forward j n (n - 1) ∧ ∀ k : Fin n, swapsOrder j (n - 1) k = σ k := by
  let extended : Equiv.Perm Nat := σ.extendDomain Fin.equivSubtype
  have inside : ∀ k : Fin n, extended k = σ k := fun k =>
    σ.extendDomain_apply_image Fin.equivSubtype k
  have outside : ∀ p, n ≤ p → extended p = p := fun p hp =>
    σ.extendDomain_apply_not_subtype Fin.equivSubtype (Nat.not_lt.mpr hp)
  obtain ⟨j, forward, agrees⟩ := exists_choices extended outside n (Nat.le_refl _)
  refine ⟨j, forward.mono (Nat.sub_le n 1), ?_⟩
  intro k
  rw [← swapsOrder_last forward hn, agrees k k.isLt, inside]

theorem drawn_position {n : Nat} (draws : Draws max n) (i : Fin (n - 1)) :
    position (drawnRand pos small draws) n i = i + (draws i).val / (max / (n - i) + 1) := by
  rw [position]
  change _ + (if h : i.val < n - 1 then _ else _) / _ = _
  rw [dif_pos i.isLt]
  rfl

/-- Results lead to an order exactly when they draw its positions. -/
theorem arranges_drawn_iff (hn : 0 < n.toNat) (bounded : n.toNat < 2 ^ 63)
    {σ : Equiv.Perm (Fin n.toNat)} {j : Nat → Nat} (forward : Forward j n.toNat (n.toNat - 1))
    (order : ∀ k : Fin n.toNat, swapsOrder j (n.toNat - 1) k = σ k) (draws : Draws max n.toNat) :
    Arranges (drawnRand pos small draws) n σ ↔
      ∀ i, (draws i).val / (max / (n.toNat - i) + 1) = j i - i := by
  have drawn := (position_forward (drawnRand pos small draws) n.toNat).mono (Nat.sub_le _ 1)
  rw [arranges_iff _ hn bounded]
  constructor
  · intro arranges i
    have same : ∀ p, p < n.toNat - 1 → swapsOrder (position (drawnRand pos small draws) n.toNat)
        (n.toNat - 1) p = swapsOrder j (n.toNat - 1) p := by
      intro p hp
      have hp' : p < n.toNat := by omega
      rw [arranges ⟨p, hp'⟩, order ⟨p, hp'⟩]
    have choice := choices_unique drawn forward same i i.isLt
    rw [drawn_position] at choice
    rw [← choice, Nat.add_sub_cancel_left]
  · intro draws_eq k
    have same : swapsOrder (position (drawnRand pos small draws) n.toNat) (n.toNat - 1) =
        swapsOrder j (n.toNat - 1) := by
      apply swapsOrder_congr
      intro i hi
      have choice := draws_eq ⟨i, hi⟩
      have low := (forward i hi).1
      rw [drawn_position pos small draws ⟨i, hi⟩, choice]
      exact Nat.add_sub_of_le low
    rw [same, order]

/-- The ways to an order are the product of the ways to its positions. -/
theorem ways_eq (hn : 0 < n.toNat) (bounded : n.toNat < 2 ^ 63)
    {σ : Equiv.Perm (Fin n.toNat)} {j : Nat → Nat} (forward : Forward j n.toNat (n.toNat - 1))
    (order : ∀ k : Fin n.toNat, swapsOrder j (n.toNat - 1) k = σ k) :
    ways pos small n σ =
      ∏ i : Fin (n.toNat - 1), weight max (n.toNat - i) (j i - i) := by
  have same : {draws : Draws max n.toNat // Arranges (drawnRand pos small draws) n σ} ≃
      {draws : Fin (n.toNat - 1) → Fin (max + 1) //
        ∀ i, (draws i).val / (max / (n.toNat - i) + 1) = j i - i} :=
    Equiv.subtypeEquivRight (arranges_drawn_iff pos small hn bounded forward order)
  have split : {draws : Fin (n.toNat - 1) → Fin (max + 1) //
        ∀ i, (draws i).val / (max / (n.toNat - i) + 1) = j i - i} ≃
      ∀ i : Fin (n.toNat - 1),
        {r : Fin (max + 1) // r.val / (max / (n.toNat - i) + 1) = j i - i} :=
    Equiv.subtypePiEquivPi (p := fun (i : Fin (n.toNat - 1)) (r : Fin (max + 1)) =>
      r.val / (max / (n.toNat - i) + 1) = j i - i)
  rw [ways, Nat.card_congr (same.trans split), Nat.card_pi]
  rfl

/-- Choices that change one round of the shuffle that changes nothing. -/
def oneChoice (i o : Nat) (k : Nat) : Nat := if k = i then i + o else k

theorem oneChoice_forward {i o n : Nat} (hi : i + o < n) :
    Forward (oneChoice i o) n (n - 1) := by
  intro k hk
  rw [oneChoice]
  split
  · omega
  · omega

/-- Where all orders are equally likely, so are all positions of each round. -/
theorem weight_of_fair (hn : 0 < n.toNat) (bounded : n.toNat < 2 ^ 63) (fair : Fair pos small n)
    {i o : Nat} (hi : i < n.toNat - 1) (ho : o < n.toNat - i) :
    weight max (n.toNat - i) o = weight max (n.toNat - i) 0 := by
  have forward := oneChoice_forward (n := n.toNat) (i := i) (o := o) (by omega)
  have forward' := oneChoice_forward (n := n.toNat) (i := i) (o := 0) (by omega)
  obtain ⟨σ, order⟩ := exists_order forward
  obtain ⟨τ, order'⟩ := exists_order forward'
  have same := fair σ τ
  rw [ways_eq pos small hn bounded forward order, ways_eq pos small hn bounded forward' order']
    at same
  let here : Fin (n.toNat - 1) := ⟨i, hi⟩
  rw [← Finset.mul_prod_erase _ _ (Finset.mem_univ here),
    ← Finset.mul_prod_erase _ _ (Finset.mem_univ here)] at same
  have rest : ∀ o', ∏ k ∈ Finset.univ.erase here,
      weight max (n.toNat - k) (oneChoice i o' k - k) =
        ∏ k ∈ Finset.univ.erase here, weight max (n.toNat - k) 0 := by
    intro o'
    apply Finset.prod_congr rfl
    intro k hk
    have other : k.val ≠ i := fun h => Finset.ne_of_mem_erase hk (Fin.ext h)
    rw [oneChoice, if_neg other, Nat.sub_self]
  have positive : 0 < ∏ k ∈ Finset.univ.erase here, weight max (n.toNat - k) 0 := by
    apply Finset.prod_pos
    intro k _
    rw [weight_zero]
    exact Nat.succ_pos _
  rw [rest, rest] at same
  have cancelled := Nat.eq_of_mul_eq_mul_right positive same
  rw [oneChoice, oneChoice, if_pos rfl, if_pos rfl] at cancelled
  simpa [here] using cancelled

theorem fair_iff_divides (hn : 1 ≤ n.toNat) (bounded : n.toNat < 2 ^ 63) :
    Fair pos small n ↔ ∀ m, 2 ≤ m → m ≤ n.toNat → m ∣ max + 1 := by
  constructor
  · intro fair m low high
    rw [← weight_even_iff (by omega)]
    intro o ho
    have left : n.toNat - (n.toNat - m) = m := by omega
    have even := weight_of_fair pos small hn bounded fair (i := n.toNat - m) (o := o)
      (by omega) (by omega)
    rw [left] at even
    rw [even, weight_zero]
  · intro divides σ τ
    have even : ∀ σ : Equiv.Perm (Fin n.toNat), ways pos small n σ =
        ∏ i : Fin (n.toNat - 1), (max / (n.toNat - i) + 1) := by
      intro σ
      obtain ⟨j, forward, order⟩ := exists_positions hn σ
      rw [ways_eq pos small hn bounded forward order]
      apply Finset.prod_congr rfl
      intro i _
      have hi := i.isLt
      obtain ⟨low, high⟩ := forward i hi
      exact (weight_even_iff (by omega)).mpr (divides _ (by omega) (Nat.sub_le _ _)) _ (by omega)
    rw [even, even]

end Orders

theorem randMax_pos : 0 < randMax := by decide

theorem randMax_small : randMax < 2 ^ 31 := by decide

/-- All orders of `n` keys are equally likely exactly when the number of results
of `rand` is a multiple of every number of keys that a round has left. With the
usual `RAND_MAX` this holds of at most two keys. -/
theorem fair_iff {n : UInt64} (hn : 1 ≤ n.toNat) (bounded : n.toNat < 2 ^ 63) :
    (∀ {max : Nat} (pos : 0 < max) (small : max < 2 ^ 31),
      Fair pos small n ↔ ∀ m, 2 ≤ m → m ≤ n.toNat → m ∣ max + 1) ∧
    (Fair randMax_pos randMax_small n ↔ n.toNat ≤ 2) := by
  refine ⟨fun pos small => fair_iff_divides pos small hn bounded, ?_⟩
  rw [fair_iff_divides randMax_pos randMax_small hn bounded]
  constructor
  · intro divides
    by_contra large
    have three := divides 3 (by omega) (by omega)
    revert three
    decide
  · intro few m low high
    obtain rfl : m = 2 := by omega
    decide

theorem fair_iff_million :
    (∀ {max : Nat} (pos : 0 < max) (small : max < 2 ^ 31),
      Fair pos small 1000000 ↔ ∀ m, 2 ≤ m → m ≤ (1000000 : UInt64).toNat → m ∣ max + 1) ∧
    (Fair randMax_pos randMax_small 1000000 ↔ (1000000 : UInt64).toNat ≤ 2) :=
  fair_iff (by decide) (by decide)

end ShuffleBias
