import MiniNb.ExactDouble
import Mathlib.Data.Int.Log
import Mathlib.Tactic.Linarith
import Mathlib.Tactic.SplitIfs

/-!
# Doubles computed with rounding

The exact result of an operation is rounded to a double. How it is rounded is a
parameter with the laws of binary floating point for numbers that are not
negative: rounding keeps the order, and zero and the powers of two between
`2 ^ -64` and `2 ^ 64` are doubles. A rounded result may be an infinity.

Exact computation rounds nothing. `binary64` rounds to the nearest double, and
to the even one of two.
-/

namespace RoundedDouble

open ExactDouble

universe u

/-! ## To the nearest integer -/

section Nearest
variable {K : Type u} [Field K] [LinearOrder K] [FloorSemiring K]

/-- The nearest natural number, and the even one of two. -/
def nearest (x : K) : Nat :=
  let n := ⌊x⌋₊
  if x - n < 1 / 2 then n
  else if 1 / 2 < x - n then n + 1
  else if n % 2 = 0 then n else n + 1

variable [IsStrictOrderedRing K]

@[simp] theorem nearest_natCast (n : Nat) : nearest (n : K) = n := by
  have small : (n : K) - n < 1 / 2 := by
    rw [sub_self]
    exact one_half_pos
  rw [nearest, Nat.floor_natCast, if_pos small]

theorem nearest_mono {x y : K} (h : x ≤ y) : nearest x ≤ nearest y := by
  have floors := Nat.floor_mono h
  rw [nearest, nearest]
  rcases Nat.lt_or_eq_of_le floors with below | same
  · split_ifs <;> omega
  · rw [same]
    split_ifs
    all_goals first
      | omega
      | exfalso; linarith

theorem nearest_error {x : K} (nonneg : 0 ≤ x) : |x - nearest x| ≤ 1 / 2 := by
  have low := Nat.floor_le nonneg
  have high := Nat.lt_floor_add_one x
  rw [nearest, abs_le]
  split_ifs
  · constructor <;> linarith
  · push_cast
    constructor <;> linarith
  · constructor <;> linarith
  · push_cast
    constructor <;> linarith

/-- Numbers that are rounded to the same one are less than two halves apart. -/
theorem near_of_nearest {x y : K} (hx : 0 ≤ x) (hy : 0 ≤ y) (h : nearest x = nearest y) :
    |x - y| ≤ 1 := by
  have left := nearest_error hx
  have right := nearest_error hy
  rw [← h, abs_sub_comm] at right
  calc |x - y| ≤ |x - nearest x| + |nearest x - y| := abs_sub_le _ _ _
    _ ≤ 1 / 2 + 1 / 2 := add_le_add left right
    _ = 1 := add_halves 1

end Nearest

/-! ## Rounding as a parameter -/

structure Rounding (K : Type u) [Field K] [LinearOrder K] where
  round : K → Dbl K
  zero : round 0 = 0
  mono : ∀ {x y : K}, 0 ≤ x → x ≤ y → round x ≤ round y
  two_pow : ∀ e : Int, -64 ≤ e → e ≤ 64 → round (2 ^ e) = .fin (2 ^ e)

namespace Rounding
variable {K : Type u} [Field K] [LinearOrder K] (R : Rounding K)

/-- Infinities and undefined results are not rounded. -/
def apply : Dbl K → Dbl K
  | .fin x => R.round x
  | d => d

def add (a b : Dbl K) : Dbl K := R.apply (a + b)

def sub (a b : Dbl K) : Dbl K := R.apply (a - b)

def mul (a b : Dbl K) : Dbl K := R.apply (a * b)

def div (a b : Dbl K) : Dbl K := R.apply (a / b)

/-- The conversion of an unsigned integer, which may have more digits than a double. -/
def ofNat (n : Nat) : Dbl K := R.round n

variable {R}

theorem round_nonneg {x : K} (h : 0 ≤ x) : 0 ≤ R.round x := R.zero ▸ R.mono (le_refl 0) h

theorem apply_nonneg {d : Dbl K} (h : 0 ≤ d) : 0 ≤ R.apply d := by
  cases d with
  | nan => exact h
  | negInf => exact h
  | fin x => exact round_nonneg h
  | posInf => exact h

theorem one : R.round 1 = .fin 1 := by simpa using R.two_pow 0 (by decide) (by decide)

variable [IsStrictOrderedRing K]

theorem ofNat_mono {m n : Nat} (h : m ≤ n) : R.ofNat m ≤ R.ofNat n :=
  R.mono (Nat.cast_nonneg m) (Nat.cast_le.mpr h)

/-- A positive integer in the range of a 64-bit word is converted to a number
between one and its upper end. -/
theorem ofNat_fin {n : Nat} (pos : 1 ≤ n) (range : R.ofNat n < .fin (2 ^ 64)) :
    ∃ x, R.ofNat n = .fin x ∧ 1 ≤ x ∧ x < 2 ^ 64 := by
  have above : (.fin 1 : Dbl K) ≤ R.ofNat n := by
    rw [← one (R := R)]
    exact R.mono zero_le_one (Nat.one_le_cast.mpr pos)
  generalize R.ofNat n = d at range above
  cases d with
  | nan => exact absurd above (Dbl.not_le_nan _)
  | negInf => exact absurd above id
  | fin x => exact ⟨x, rfl, above, range⟩
  | posInf => exact absurd range (Dbl.not_posInf_lt _)

/-- Nothing has no share in a whole. -/
theorem share_zero {n : Nat} (pos : 1 ≤ n) (range : R.ofNat n < .fin (2 ^ 64)) :
    R.div (R.ofNat 0) (R.ofNat n) = 0 := by
  obtain ⟨x, hx, one_le, _⟩ := ofNat_fin pos range
  have zero_ : R.ofNat 0 = .fin 0 := by
    rw [ofNat, Nat.cast_zero, R.zero]
    rfl
  rw [div, zero_, hx, Dbl.fin_div_fin (ne_of_gt (lt_of_lt_of_le one_pos one_le)), zero_div, apply,
    R.zero]

/-- The share of a part in a whole is a positive number, since it is at least `2 ^ -64`. -/
theorem share_fin {m n : Nat} (pos : 1 ≤ m) (le : m ≤ n) (range : R.ofNat n < .fin (2 ^ 64)) :
    ∃ x, R.div (R.ofNat m) (R.ofNat n) = .fin x ∧ 0 < x := by
  obtain ⟨b, hb, one_b, b_lt⟩ := ofNat_fin (Nat.le_trans pos le) range
  have part : R.ofNat m ≤ .fin b := hb ▸ ofNat_mono le
  obtain ⟨a, ha, one_a, _⟩ := ofNat_fin pos (Dbl.dbl_lt_of_le_of_lt part (hb ▸ range))
  rw [ha] at part
  have b_pos : 0 < b := lt_of_lt_of_le one_pos one_b
  have low : (2 : K) ^ (-64 : Int) ≤ a / b := by
    rw [zpow_neg, le_div_iff₀ b_pos, inv_mul_le_iff₀ (by positivity)]
    calc b ≤ 2 ^ 64 := le_of_lt b_lt
      _ ≤ 2 ^ (64 : Int) * a := by
        rw [zpow_ofNat]
        exact le_mul_of_one_le_right (by positivity) one_a
  have small : (.fin (2 ^ (-64 : Int)) : Dbl K) ≤ R.round (a / b) := by
    rw [← R.two_pow (-64) (by decide) (by decide)]
    exact R.mono (by positivity) low
  have large : R.round (a / b) ≤ .fin 1 := by
    rw [← one (R := R)]
    exact R.mono (le_trans (by positivity) low) ((div_le_one b_pos).mpr part)
  have rounded : R.div (R.ofNat m) (R.ofNat n) = R.round (a / b) := by
    rw [div, ha, hb, Dbl.fin_div_fin (ne_of_gt b_pos), apply]
  rw [rounded]
  generalize R.round (a / b) = d at small large
  cases d with
  | nan => exact absurd small (Dbl.not_le_nan _)
  | negInf => exact absurd small id
  | fin x =>
    have above : (2 : K) ^ (-64 : Int) ≤ x := small
    exact ⟨x, rfl, lt_of_lt_of_le (by positivity) above⟩
  | posInf => exact absurd large (Dbl.not_posInf_le_fin _)

/-- Exact computation. -/
def exact : Rounding K where
  round := .fin
  zero := rfl
  mono _ h := h
  two_pow _ _ _ := rfl

omit [IsStrictOrderedRing K] in
@[simp] theorem apply_exact (d : Dbl K) : (exact : Rounding K).apply d = d := by
  cases d <;> rfl

end Rounding

/-! ## Double precision -/

section Binary64
variable {K : Type u} [Field K] [LinearOrder K] [FloorSemiring K]

/-- The exponent of the doubles around `x`; it does not fall below that of the smallest one. -/
def exponent (x : K) : Int := max (Int.log 2 x - 52) (-1074)

/-- The distance of the doubles around `x`. -/
def ulp (x : K) : K := 2 ^ exponent x

/-- The multiple of this distance next to `x`. -/
def nearestMultiple (x : K) : K := nearest (x / ulp x) * ulp x

variable [IsStrictOrderedRing K]

theorem ulp_pos (x : K) : 0 < ulp x := zpow_pos two_pos _

theorem nearestMultiple_nonneg (x : K) : 0 ≤ nearestMultiple x :=
  mul_nonneg (Nat.cast_nonneg _) (le_of_lt (ulp_pos x))

theorem nearestMultiple_of_eq {x : K} {n : Nat} (h : x = n * ulp x) : nearestMultiple x = x := by
  have quotient : x / ulp x = n := by
    rw [div_eq_iff (ne_of_gt (ulp_pos x))]
    exact h
  rw [nearestMultiple, quotient, nearest_natCast]
  exact h.symm

/-- Rounding does not carry a number beyond the next power of two. -/
theorem nearestMultiple_le_two_pow (x : K) : nearestMultiple x ≤ 2 ^ (exponent x + 53) := by
  have high : x < 2 ^ (Int.log 2 x + 1) := by
    simpa using Int.lt_zpow_succ_log_self (b := 2) (by decide) x
  have scaled : x / ulp x ≤ ((2 ^ 53 : Nat) : K) := by
    rw [div_le_iff₀ (ulp_pos x), Nat.cast_pow, Nat.cast_two, ← zpow_natCast, ulp,
      ← zpow_add₀ two_ne_zero]
    calc x ≤ 2 ^ (Int.log 2 x + 1) := le_of_lt high
      _ ≤ 2 ^ (((53 : Nat) : Int) + exponent x) := zpow_le_zpow_right₀ one_le_two (by
        rw [exponent]
        omega)
  have rounded := nearest_mono scaled
  rw [nearest_natCast] at rounded
  calc nearestMultiple x ≤ ((2 ^ 53 : Nat) : K) * ulp x :=
        mul_le_mul_of_nonneg_right (Nat.cast_le.mpr rounded) (le_of_lt (ulp_pos x))
    _ = 2 ^ (exponent x + 53) := by
      rw [Nat.cast_pow, Nat.cast_two, ← zpow_natCast, ulp, ← zpow_add₀ two_ne_zero, add_comm]
      rfl

/-- Nor below the last power of two. -/
theorem two_pow_le_nearestMultiple {x : K} (pos : 0 < x) (normal : exponent x = Int.log 2 x - 52) :
    2 ^ (exponent x + 52) ≤ nearestMultiple x := by
  have scaled : ((2 ^ 52 : Nat) : K) ≤ x / ulp x := by
    rw [le_div_iff₀ (ulp_pos x), Nat.cast_pow, Nat.cast_two, ← zpow_natCast, ulp,
      ← zpow_add₀ two_ne_zero, normal]
    have low := Int.zpow_log_le_self (b := 2) (by decide) pos
    simpa using low
  have rounded := nearest_mono scaled
  rw [nearest_natCast] at rounded
  calc (2 : K) ^ (exponent x + 52) = ((2 ^ 52 : Nat) : K) * ulp x := by
        rw [Nat.cast_pow, Nat.cast_two, ← zpow_natCast, ulp, ← zpow_add₀ two_ne_zero, add_comm]
        rfl
    _ ≤ nearestMultiple x :=
        mul_le_mul_of_nonneg_right (Nat.cast_le.mpr rounded) (le_of_lt (ulp_pos x))

theorem nearestMultiple_mono {x y : K} (nonneg : 0 ≤ x) (le : x ≤ y) :
    nearestMultiple x ≤ nearestMultiple y := by
  rcases eq_or_lt_of_le nonneg with rfl | pos
  · rw [nearestMultiple_of_eq (n := 0) (by simp)]
    exact nearestMultiple_nonneg y
  have logs := Int.log_mono_right (b := 2) pos le
  rcases eq_or_ne (exponent x) (exponent y) with same | different
  · -- The doubles around both numbers have one distance.
    have ulps : ulp x = ulp y := congrArg (fun e => (2 : K) ^ e) same
    rw [nearestMultiple, nearestMultiple, ulps]
    apply mul_le_mul_of_nonneg_right _ (le_of_lt (ulp_pos y))
    exact Nat.cast_le.mpr (nearest_mono (div_le_div_of_nonneg_right le (le_of_lt (ulp_pos y))))
  · -- A power of two lies between them.
    have between : exponent x + 53 ≤ exponent y + 52 ∧ exponent y = Int.log 2 y - 52 := by
      simp only [exponent] at different ⊢
      omega
    calc nearestMultiple x ≤ 2 ^ (exponent x + 53) := nearestMultiple_le_two_pow x
      _ ≤ 2 ^ (exponent y + 52) := zpow_le_zpow_right₀ one_le_two between.1
      _ ≤ nearestMultiple y := two_pow_le_nearestMultiple (lt_of_lt_of_le pos le) between.2

/-- Rounding to the nearest double, for numbers that are not negative. -/
def binary64 : Rounding K where
  round x := if nearestMultiple x < 2 ^ 1024 then .fin (nearestMultiple x) else .posInf
  zero := by
    rw [nearestMultiple_of_eq (n := 0) (by simp), if_pos (by positivity)]
    rfl
  mono {x y} nonneg le := by
    have order := nearestMultiple_mono nonneg le
    by_cases small : nearestMultiple y < 2 ^ 1024
    · rw [if_pos small, if_pos (lt_of_le_of_lt order small)]
      exact order
    · rw [if_neg small]
      split
      · exact Dbl.fin_le_posInf _
      · trivial
  two_pow e low high := by
    have kept : nearestMultiple ((2 : K) ^ e) = 2 ^ e := by
      apply nearestMultiple_of_eq (n := 2 ^ 52)
      have log : Int.log 2 ((2 : K) ^ e) = e := by
        simpa using Int.log_zpow (R := K) (b := 2) (by decide) e
      have normal : exponent ((2 : K) ^ e) = e - 52 := by
        rw [exponent, log]
        omega
      rw [ulp, normal, Nat.cast_pow, Nat.cast_two, ← zpow_natCast, ← zpow_add₀ two_ne_zero]
      congr 1
      omega
    have small : (2 : K) ^ e < 2 ^ 1024 := by
      rw [← zpow_natCast]
      exact zpow_lt_zpow_right₀ one_lt_two (by omega)
    rw [kept, if_pos small]

end Binary64

end RoundedDouble
