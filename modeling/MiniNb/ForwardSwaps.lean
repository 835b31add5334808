import Mathlib.Logic.Equiv.Basic
import Mathlib.Algebra.Group.End

/-!
# Orders reached by forward swaps

Round `i` exchanges position `i` with a position `j i` that is not before it.
What a round puts at its own position is never touched again, so the choices
and the order that they produce determine each other: every order is reached by
some choices, and the choices are read off the order one after the other.
-/

namespace ForwardSwaps

/-- Where the entry at each position comes from after `k` rounds. -/
def swapsOrder (j : Nat → Nat) : Nat → Equiv.Perm Nat
  | 0 => 1
  | k + 1 => swapsOrder j k * Equiv.swap k (j k)

/-- Each of the first `k` rounds chooses a position from its own up to `n`. -/
def Forward (j : Nat → Nat) (n k : Nat) : Prop := ∀ i, i < k → i ≤ j i ∧ j i < n

variable {j : Nat → Nat} {n k m p : Nat}

theorem swapsOrder_succ_apply (j : Nat → Nat) (k p : Nat) :
    swapsOrder j (k + 1) p = swapsOrder j k (Equiv.swap k (j k) p) := rfl

theorem Forward.mono (h : Forward j n k) (hm : m ≤ k) : Forward j n m :=
  fun i hi => h i (Nat.lt_of_lt_of_le hi hm)

theorem swapsOrder_congr {j' : Nat → Nat} (h : ∀ i, i < k → j i = j' i) :
    swapsOrder j k = swapsOrder j' k := by
  induction k with
  | zero => rfl
  | succ k ih =>
    rw [swapsOrder, swapsOrder, h k (Nat.lt_succ_self k),
      ih fun i hi => h i (Nat.lt_succ_of_lt hi)]

/-- The choices never reach behind `n`. -/
theorem swapsOrder_outside (h : Forward j n k) (hk : k ≤ n) (hp : n ≤ p) :
    swapsOrder j k p = p := by
  induction k with
  | zero => rfl
  | succ k ih =>
    obtain ⟨_, hj⟩ := h k (Nat.lt_succ_self k)
    rw [swapsOrder_succ_apply, Equiv.swap_apply_of_ne_of_ne (by omega) (by omega)]
    exact ih (h.mono (Nat.le_succ k)) (Nat.le_of_succ_le hk)

/-- Round `p` decides what stands at position `p`. -/
theorem swapsOrder_final (h : Forward j n k) (hp : p < k) :
    swapsOrder j k p = swapsOrder j p (j p) := by
  induction k with
  | zero => omega
  | succ k ih =>
    rw [swapsOrder_succ_apply]
    rcases Nat.lt_succ_iff_lt_or_eq.mp hp with hlt | rfl
    · obtain ⟨hj, _⟩ := h k (Nat.lt_succ_self k)
      rw [Equiv.swap_apply_of_ne_of_ne (by omega) (by omega)]
      exact ih (h.mono (Nat.le_succ k)) hlt
    · rw [Equiv.swap_apply_left]

/-- Every order of the first `n` positions is reached. -/
theorem exists_choices (σ : Equiv.Perm Nat) (outside : ∀ p, n ≤ p → σ p = p) (k : Nat)
    (hk : k ≤ n) : ∃ j, Forward j n k ∧ ∀ p, p < k → swapsOrder j k p = σ p := by
  induction k with
  | zero => exact ⟨id, fun i hi => absurd hi (Nat.not_lt_zero i), fun p hp => absurd hp (Nat.not_lt_zero p)⟩
  | succ k ih =>
    obtain ⟨j, forward, agrees⟩ := ih (Nat.le_of_succ_le hk)
    -- The position that holds now what has to stand at `k`.
    obtain ⟨q, hq⟩ := (swapsOrder j k).surjective (σ k)
    have hlow : k ≤ q := by
      by_contra hlt
      have same := σ.injective ((agrees q (Nat.lt_of_not_le hlt)).symm.trans hq)
      omega
    have hhigh : q < n := by
      by_contra hge
      have hle : n ≤ q := Nat.le_of_not_lt hge
      rw [swapsOrder_outside forward (Nat.le_of_succ_le hk) hle] at hq
      have same := σ.injective ((outside q hle).trans hq)
      omega
    have unchanged : swapsOrder (Function.update j k q) k = swapsOrder j k :=
      swapsOrder_congr fun i hi => Function.update_of_ne (Nat.ne_of_lt hi) q j
    have chosen : Function.update j k q k = q := Function.update_self k q j
    refine ⟨Function.update j k q, ?_, ?_⟩
    · intro i hi
      rcases Nat.lt_succ_iff_lt_or_eq.mp hi with hlt | rfl
      · rw [Function.update_of_ne (Nat.ne_of_lt hlt)]
        exact forward i hlt
      · rw [chosen]
        exact ⟨hlow, hhigh⟩
    · intro p hp
      rw [swapsOrder_succ_apply, unchanged, chosen]
      rcases Nat.lt_succ_iff_lt_or_eq.mp hp with hlt | rfl
      · rw [Equiv.swap_apply_of_ne_of_ne (by omega) (by omega)]
        exact agrees p hlt
      · rw [Equiv.swap_apply_left, hq]

/-- As long as the order has left every position alone, so have the choices. -/
theorem swapsOrder_eq_one (h : Forward j n k) (hm : m ≤ k)
    (fixed : ∀ p, p < m → swapsOrder j k p = p) : swapsOrder j m = 1 := by
  induction m with
  | zero => rfl
  | succ m ih =>
    have earlier := ih (Nat.le_of_succ_le hm) fun p hp => fixed p (Nat.lt_succ_of_lt hp)
    have here := swapsOrder_final h (Nat.lt_of_succ_le hm)
    rw [earlier, fixed m (Nat.lt_succ_self m)] at here
    rw [swapsOrder, earlier, ← show m = j m from here, Equiv.swap_self]
    rfl

/-- The first position that an order changes tells what its round has chosen. -/
theorem choice_of_first_change (h : Forward j n k) (hp : p < k)
    (fixed : ∀ q, q < p → swapsOrder j k q = q) : j p = swapsOrder j k p := by
  rw [swapsOrder_final h hp, swapsOrder_eq_one h (Nat.le_of_lt hp) fixed]
  rfl

/-- An order of the first `n` positions is reached by one sequence of choices only. -/
theorem choices_unique {j' : Nat → Nat} (h : Forward j n k) (h' : Forward j' n k)
    (same : ∀ p, p < k → swapsOrder j k p = swapsOrder j' k p) : ∀ i, i < k → j i = j' i := by
  intro i
  induction i using Nat.strongRecOn with
  | ind i ih =>
    intro hi
    have earlier : swapsOrder j i = swapsOrder j' i :=
      swapsOrder_congr fun m hm => ih m hm (Nat.lt_trans hm hi)
    have final := same i hi
    rw [swapsOrder_final h hi, swapsOrder_final h' hi, earlier] at final
    exact (swapsOrder j' i).injective final

end ForwardSwaps
