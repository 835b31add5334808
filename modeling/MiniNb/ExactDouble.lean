import Mathlib.Algebra.Order.Field.Basic
import Mathlib.Algebra.Order.Floor.Semiring

/-!
# Doubles computed exactly

A double is a number of an ordered field, an infinity, or not a number. The
operations follow the rules of binary floating point for infinities and for
undefined results, but every finite result is exact. There is one zero, so
dividing a nonzero number by it takes the sign of the dividend.

Comparisons with an undefined value are false, which is why the order below is
transitive but not total.
-/

namespace ExactDouble

universe u

inductive Dbl (K : Type u) where
  | nan
  | negInf
  | fin (x : K)
  | posInf
  deriving DecidableEq

namespace Dbl
variable {K : Type u}

section Order
variable [LinearOrder K]

protected def Lt : Dbl K → Dbl K → Prop
  | .fin x, .fin y => x < y
  | .fin _, .posInf => True
  | .negInf, .fin _ => True
  | .negInf, .posInf => True
  | _, _ => False

protected def Le : Dbl K → Dbl K → Prop
  | .fin x, .fin y => x ≤ y
  | .fin _, .posInf => True
  | .posInf, .posInf => True
  | .negInf, .fin _ => True
  | .negInf, .posInf => True
  | .negInf, .negInf => True
  | _, _ => False

instance : LT (Dbl K) := ⟨Dbl.Lt⟩

instance : LE (Dbl K) := ⟨Dbl.Le⟩

instance : DecidableLT (Dbl K)
  | .fin x, .fin y => inferInstanceAs (Decidable (x < y))
  | .fin _, .posInf => .isTrue trivial
  | .negInf, .fin _ => .isTrue trivial
  | .negInf, .posInf => .isTrue trivial
  | .nan, _ => .isFalse id
  | .posInf, _ => .isFalse id
  | .fin _, .nan => .isFalse id
  | .fin _, .negInf => .isFalse id
  | .negInf, .nan => .isFalse id
  | .negInf, .negInf => .isFalse id

instance : DecidableLE (Dbl K)
  | .fin x, .fin y => inferInstanceAs (Decidable (x ≤ y))
  | .fin _, .posInf => .isTrue trivial
  | .posInf, .posInf => .isTrue trivial
  | .negInf, .fin _ => .isTrue trivial
  | .negInf, .posInf => .isTrue trivial
  | .negInf, .negInf => .isTrue trivial
  | .nan, _ => .isFalse id
  | .posInf, .nan => .isFalse id
  | .posInf, .fin _ => .isFalse id
  | .posInf, .negInf => .isFalse id
  | .fin _, .nan => .isFalse id
  | .fin _, .negInf => .isFalse id
  | .negInf, .nan => .isFalse id

@[simp] theorem fin_lt_fin (x y : K) : (fin x : Dbl K) < fin y ↔ x < y := Iff.rfl

@[simp] theorem fin_le_fin (x y : K) : (fin x : Dbl K) ≤ fin y ↔ x ≤ y := Iff.rfl

@[simp] theorem fin_lt_posInf (x : K) : (fin x : Dbl K) < posInf := trivial

@[simp] theorem fin_le_posInf (x : K) : (fin x : Dbl K) ≤ posInf := trivial

@[simp] theorem not_posInf_lt (d : Dbl K) : ¬ (posInf : Dbl K) < d := by
  cases d <;> exact id

@[simp] theorem not_posInf_le_fin (x : K) : ¬ (posInf : Dbl K) ≤ fin x := id

@[simp] theorem not_lt_nan (d : Dbl K) : ¬ d < (nan : Dbl K) := by
  cases d <;> exact id

@[simp] theorem not_le_nan (d : Dbl K) : ¬ d ≤ (nan : Dbl K) := by
  cases d <;> exact id

/-- Being comparable passes along, although not every pair is comparable. -/
theorem dbl_lt_trans {a b c : Dbl K} (hab : a < b) (hbc : b < c) : a < c := by
  cases b with
  | nan => exact False.elim (not_lt_nan a hab)
  | posInf => exact False.elim (not_posInf_lt c hbc)
  | negInf => cases a <;> exact False.elim hab
  | fin y =>
    cases a with
    | nan => exact False.elim hab
    | posInf => exact False.elim hab
    | negInf => cases c <;> first | exact False.elim hbc | trivial
    | fin x =>
      cases c with
      | nan => exact False.elim hbc
      | negInf => exact False.elim hbc
      | posInf => trivial
      | fin z => exact lt_trans (a := x) hab hbc

theorem dbl_le_of_lt {a b : Dbl K} (h : a < b) : a ≤ b := by
  cases a <;> cases b <;> first | exact False.elim h | trivial | exact le_of_lt (a := _) h

theorem dbl_le_trans {a b c : Dbl K} (hab : a ≤ b) (hbc : b ≤ c) : a ≤ c := by
  cases b with
  | nan => exact False.elim (not_le_nan a hab)
  | posInf =>
    cases c with
    | posInf => exact hab
    | nan => exact False.elim hbc
    | negInf => exact False.elim hbc
    | fin z => exact False.elim hbc
  | negInf =>
    cases a with
    | negInf => exact hbc
    | nan => exact False.elim hab
    | posInf => exact False.elim hab
    | fin x => exact False.elim hab
  | fin y =>
    cases a with
    | nan => exact False.elim hab
    | posInf => exact False.elim hab
    | negInf => cases c <;> first | exact False.elim hbc | trivial
    | fin x =>
      cases c with
      | nan => exact False.elim hbc
      | negInf => exact False.elim hbc
      | posInf => trivial
      | fin z => exact le_trans (a := x) hab hbc

theorem dbl_lt_of_le_of_lt {a b c : Dbl K} (hab : a ≤ b) (hbc : b < c) : a < c := by
  cases b with
  | nan => exact False.elim (not_le_nan a hab)
  | posInf => exact False.elim (not_posInf_lt c hbc)
  | negInf =>
    cases a with
    | negInf => exact hbc
    | nan => exact False.elim hab
    | posInf => exact False.elim hab
    | fin x => exact False.elim hab
  | fin y =>
    cases a with
    | nan => exact False.elim hab
    | posInf => exact False.elim hab
    | negInf => exact dbl_lt_trans (b := fin y) trivial hbc
    | fin x =>
      cases c with
      | nan => exact False.elim hbc
      | negInf => exact False.elim hbc
      | posInf => trivial
      | fin z => exact lt_of_le_of_lt (a := x) hab hbc

theorem dbl_le_antisymm {a b : Dbl K} (hab : a ≤ b) (hba : b ≤ a) : a = b := by
  cases a <;> cases b <;> first | exact False.elim hab | exact False.elim hba | rfl | skip
  exact congrArg fin (le_antisymm hab hba)

theorem dbl_le_refl {a : Dbl K} (ha : a ≠ nan) : a ≤ a := by
  cases a with
  | nan => exact absurd rfl ha
  | negInf => trivial
  | fin x => exact le_refl x
  | posInf => trivial

theorem posInf_le_iff {a : Dbl K} : posInf ≤ a ↔ a = posInf := by
  constructor
  · intro h
    cases a <;> first | exact False.elim h | rfl
  · rintro rfl
    trivial

/-- Values that are numbers or infinities are totally ordered. -/
theorem dbl_le_of_not_lt {a b : Dbl K} (ha : a ≠ nan) (hb : b ≠ nan) (h : ¬ a < b) : b ≤ a := by
  cases a <;> cases b <;> first
    | exact absurd rfl ha
    | exact absurd rfl hb
    | exact False.elim (h trivial)
    | trivial
    | exact le_of_not_gt h

end Order

section Addition
variable [Field K]

protected def neg : Dbl K → Dbl K
  | .nan => .nan
  | .negInf => .posInf
  | .fin x => .fin (-x)
  | .posInf => .negInf

protected def add : Dbl K → Dbl K → Dbl K
  | .nan, _ => .nan
  | _, .nan => .nan
  | .fin x, .fin y => .fin (x + y)
  | .fin _, d => d
  | d, .fin _ => d
  | .posInf, .posInf => .posInf
  | .negInf, .negInf => .negInf
  | .posInf, .negInf => .nan
  | .negInf, .posInf => .nan

instance : Zero (Dbl K) := ⟨.fin 0⟩
instance : Add (Dbl K) := ⟨Dbl.add⟩
instance : Sub (Dbl K) := ⟨fun a b => Dbl.add a (Dbl.neg b)⟩

/-- The conversion of an unsigned integer. -/
def ofNat (n : Nat) : Dbl K := .fin (n : K)

/-- Exact addition is associative, also where infinities cancel. -/
instance : AddCommMonoid (Dbl K) where
  add_assoc a b c := by
    cases a <;> cases b <;> cases c <;> first | rfl | exact congrArg fin (add_assoc _ _ _)
  zero_add a := by cases a <;> first | rfl | exact congrArg fin (zero_add _)
  add_zero a := by cases a <;> first | rfl | exact congrArg fin (add_zero _)
  add_comm a b := by cases a <;> cases b <;> first | rfl | exact congrArg fin (add_comm _ _)
  nsmul := nsmulRec

@[simp] theorem fin_add_fin (x y : K) : (fin x + fin y : Dbl K) = fin (x + y) := rfl

@[simp] theorem fin_sub_fin (x y : K) : (fin x - fin y : Dbl K) = fin (x - y) := by
  rw [sub_eq_add_neg]
  rfl

@[simp] theorem posInf_sub_fin (x : K) : (posInf - fin x : Dbl K) = posInf := rfl

@[simp] theorem fin_add_posInf (x : K) : (fin x + posInf : Dbl K) = posInf := rfl

theorem add_nonneg [LinearOrder K] [IsStrictOrderedRing K] {a b : Dbl K} (ha : 0 ≤ a)
    (hb : 0 ≤ b) : 0 ≤ a + b := by
  cases a <;> cases b <;> first
    | exact False.elim ha
    | exact False.elim hb
    | trivial
    | exact le_trans (le_of_eq (add_zero 0).symm) (add_le_add (α := K) ha hb)

end Addition

section Multiplication
variable [Field K] [LinearOrder K]

/-- The infinity with the sign of `x`; undefined for zero. -/
def signedInf (x : K) : Dbl K := if x = 0 then nan else if 0 < x then posInf else negInf

protected def mul : Dbl K → Dbl K → Dbl K
  | .nan, _ => .nan
  | _, .nan => .nan
  | .fin x, .fin y => .fin (x * y)
  | .fin x, .posInf => signedInf x
  | .posInf, .fin y => signedInf y
  | .fin x, .negInf => signedInf (-x)
  | .negInf, .fin y => signedInf (-y)
  | .posInf, .posInf => .posInf
  | .negInf, .negInf => .posInf
  | .posInf, .negInf => .negInf
  | .negInf, .posInf => .negInf

protected def div : Dbl K → Dbl K → Dbl K
  | .nan, _ => .nan
  | _, .nan => .nan
  | .fin x, .fin y => if y = 0 then signedInf x else .fin (x / y)
  | .fin _, _ => .fin 0
  | .posInf, .fin y => if 0 ≤ y then .posInf else .negInf
  | .negInf, .fin y => if 0 ≤ y then .negInf else .posInf
  | _, _ => .nan

instance : Mul (Dbl K) := ⟨Dbl.mul⟩
instance : Div (Dbl K) := ⟨Dbl.div⟩

/-- The conversion to an unsigned integer drops the fraction. It is undefined
for negative and for non-finite values, which get zero here. -/
def toNat [FloorSemiring K] : Dbl K → Nat
  | .fin x => ⌊x⌋₊
  | _ => 0

@[simp] theorem fin_mul_fin (x y : K) : (fin x * fin y : Dbl K) = fin (x * y) := rfl

theorem fin_div_fin {x y : K} (h : y ≠ 0) : (fin x / fin y : Dbl K) = fin (x / y) := if_neg h

theorem posInf_mul_fin {x : K} (h : 0 < x) : (posInf * fin x : Dbl K) = posInf := by
  change signedInf x = posInf
  rw [signedInf, if_neg (ne_of_gt h), if_pos h]

theorem ne_nan_of_nonneg {d : Dbl K} (h : 0 ≤ d) : d ≠ nan := by
  rintro rfl
  exact not_le_nan _ h

theorem mul_fin_nonneg [IsStrictOrderedRing K] {d : Dbl K} {x : K} (hd : 0 ≤ d) (hx : 0 < x) :
    0 ≤ d * fin x := by
  cases d with
  | nan => exact False.elim hd
  | negInf => exact False.elim hd
  | fin y => exact mul_nonneg (a := y) hd (le_of_lt hx)
  | posInf =>
    rw [posInf_mul_fin hx]
    trivial

end Multiplication

end Dbl

end ExactDouble
