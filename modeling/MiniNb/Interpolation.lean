import Mathlib.Algebra.Order.Field.Basic
import Mathlib.Tactic.Linarith

/-!
# Interpolation between counts and clamping

`fraction l r k` says how far `k` has come from `l` to `r`. It decreases when
either end grows, which is what makes two interpolations over the same interval
comparable. `clampTo` is the two-sided clamp as a program writes it, with two
comparisons in turn.
-/

namespace Interpolation

universe u
variable {K : Type u} [Field K]

def fraction (K : Type u) [Field K] (l r k : Nat) : K := ((k - l : Nat) : K) / ((r - l : Nat) : K)

def mix (lo hi s : K) : K := lo + (hi - lo) * s

variable [LinearOrder K]

def clampTo (m M r : K) : K := if r < m then m else if M < r then M else r

variable [IsStrictOrderedRing K] {l r k : Nat}

theorem fraction_pos (hl : l < k) (hr : k ≤ r) : 0 < fraction K l r k := by
  have hnum : 0 < k - l := Nat.sub_pos_of_lt hl
  have hden : 0 < r - l := Nat.sub_pos_of_lt (Nat.lt_of_lt_of_le hl hr)
  exact div_pos (Nat.cast_pos.mpr hnum) (Nat.cast_pos.mpr hden)

theorem fraction_le_one (hr : k ≤ r) : fraction K l r k ≤ 1 := by
  have hle : k - l ≤ r - l := Nat.sub_le_sub_right hr l
  exact div_le_one_of_le₀ (Nat.cast_le.mpr hle) (Nat.cast_nonneg _)

theorem fraction_full (h : l < r) : fraction K l r r = 1 :=
  div_self (Nat.cast_ne_zero.mpr (Nat.sub_ne_zero_of_lt h))

theorem fraction_mono {k' : Nat} (h : k ≤ k') : fraction K l r k ≤ fraction K l r k' := by
  have hle : k - l ≤ k' - l := Nat.sub_le_sub_right h l
  exact div_le_div_of_nonneg_right (Nat.cast_le.mpr hle) (Nat.cast_nonneg _)

theorem fraction_antitone_left {l' : Nat} (hl : l' ≤ l) (hk : l < k) (hr : k ≤ r) :
    fraction K l r k ≤ fraction K l' r k := by
  have hnum : k - l' = (k - l) + (l - l') := by omega
  have hden : r - l' = (r - l) + (l - l') := by omega
  have hle : (l - l') * (k - l) ≤ (l - l') * (r - l) :=
    Nat.mul_le_mul_left _ (Nat.sub_le_sub_right hr l)
  have cross : (k - l) * (r - l') ≤ (k - l') * (r - l) := by
    calc (k - l) * (r - l') = (k - l) * (r - l) + (l - l') * (k - l) := by
          rw [hden, Nat.mul_add, Nat.mul_comm (l - l')]
      _ ≤ (k - l) * (r - l) + (l - l') * (r - l) := Nat.add_le_add_left hle _
      _ = (k - l') * (r - l) := by rw [hnum, Nat.add_mul]
  have pos : 0 < r - l := by omega
  have pos' : 0 < r - l' := by omega
  rw [fraction, fraction, div_le_div_iff₀ (Nat.cast_pos.mpr pos) (Nat.cast_pos.mpr pos')]
  exact_mod_cast cross

theorem fraction_antitone_right {r' : Nat} (hr : r' ≤ r) (hl : l < r') :
    fraction K l r k ≤ fraction K l r' k := by
  have pos : 0 < r' - l := Nat.sub_pos_of_lt hl
  have hle : r' - l ≤ r - l := Nat.sub_le_sub_right hr l
  exact div_le_div_of_nonneg_left (Nat.cast_nonneg _) (Nat.cast_pos.mpr pos) (Nat.cast_le.mpr hle)

/-- The fraction decreases in both ends. -/
theorem fraction_antitone {l' r' : Nat} (hl : l' ≤ l) (hr : r' ≤ r) (hk : l < k) (hk' : k ≤ r') :
    fraction K l r k ≤ fraction K l' r' k :=
  (fraction_antitone_right hr (Nat.lt_of_lt_of_le hk hk')).trans (fraction_antitone_left hl hk hk')

section Mix
variable {lo hi s s' : K}

theorem lt_mix (hlt : lo < hi) (hs : 0 < s) : lo < mix lo hi s :=
  lt_add_of_pos_right lo (mul_pos (sub_pos.mpr hlt) hs)

theorem mix_le (hlt : lo < hi) (hs : s ≤ 1) : mix lo hi s ≤ hi := by
  have hmul := mul_le_of_le_one_right (le_of_lt (sub_pos.mpr hlt)) hs
  rw [mix]
  linarith

theorem mix_mono (hlt : lo < hi) (hs : s ≤ s') : mix lo hi s ≤ mix lo hi s' :=
  add_le_add_right (mul_le_mul_of_nonneg_left hs (le_of_lt (sub_pos.mpr hlt))) lo

omit [LinearOrder K] [IsStrictOrderedRing K] in
theorem mix_one (lo hi : K) : mix lo hi 1 = hi := by
  rw [mix, mul_one, add_sub_cancel]

end Mix

section Clamp
omit [Field K] [IsStrictOrderedRing K]
variable {m M v m' M' v' : K}

/-- For bounds in order the clamp is the lattice one. -/
theorem clampTo_eq (h : m ≤ M) (v : K) : clampTo m M v = max m (min M v) := by
  rw [clampTo]
  split
  · rename_i hlt
    rw [min_eq_right (le_trans (le_of_lt hlt) h), max_eq_left (le_of_lt hlt)]
  · rename_i hge
    split
    · rename_i hlt
      rw [min_eq_left (le_of_lt hlt), max_eq_right h]
    · rename_i hle
      rw [min_eq_right (le_of_not_gt hle), max_eq_right (le_of_not_gt hge)]

theorem le_clampTo (h : m ≤ M) (v : K) : m ≤ clampTo m M v := by
  rw [clampTo_eq h]
  exact le_max_left _ _

theorem clampTo_le (h : m ≤ M) (v : K) : clampTo m M v ≤ M := by
  rw [clampTo_eq h]
  exact max_le h (min_le_left _ _)

theorem clampTo_mono (h : m ≤ M) (h' : m' ≤ M') (hm : m ≤ m') (hM : M ≤ M') (hv : v ≤ v') :
    clampTo m M v ≤ clampTo m' M' v' := by
  rw [clampTo_eq h, clampTo_eq h']
  exact max_le_max hm (min_le_min hM hv)

theorem clampTo_of_le (h : m ≤ M) (hv : M ≤ v) : clampTo m M v = M := by
  rw [clampTo_eq h, min_eq_left hv, max_eq_right h]

end Clamp

end Interpolation
