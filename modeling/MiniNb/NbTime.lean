import Mathlib.Algebra.Order.Field.Basic
import Mathlib.Tactic.NormNum
import Mathlib.Tactic.Positivity

/-!
# The clock

The translation of `nb_clock` in `nb_time.c`. It turns one answer of
`clock_gettime` into seconds, here with exact arithmetic; the answers are
inputs. The return code of the system call is not looked at. A clock that is
read in order answers in the order of its seconds and, within one second, of its
nanoseconds, and the conversion keeps this order.
-/

namespace MiniNb

universe u

/-- `struct timespec`. -/
structure Timespec where
  tvSec : Int
  tvNsec : Int

/-- The nanoseconds of an answer stay below one second. -/
structure Timespec.Normal (t : Timespec) : Prop where
  nonneg : 0 ≤ t.tvNsec
  lt_second : t.tvNsec < 10 ^ 9

def Timespec.nanoseconds (t : Timespec) : Int := t.tvSec * 10 ^ 9 + t.tvNsec

/-- One answer is not later than another. -/
def Timespec.NotAfter (a b : Timespec) : Prop :=
  a.tvSec < b.tvSec ∨ a.tvSec = b.tvSec ∧ a.tvNsec ≤ b.tvNsec

theorem Timespec.notAfter_iff {a b : Timespec} (ha : a.Normal) (hb : b.Normal) :
    a.NotAfter b ↔ a.nanoseconds ≤ b.nanoseconds := by
  obtain ⟨ha0, ha1⟩ := ha
  obtain ⟨hb0, hb1⟩ := hb
  rw [NotAfter, nanoseconds, nanoseconds]
  omega

/-- A clock that is read in order. -/
structure ReadInOrder (clock : Nat → Timespec) : Prop where
  normal : ∀ n, (clock n).Normal
  ordered : ∀ n, (clock n).NotAfter (clock (n + 1))

theorem ReadInOrder.mono {clock : Nat → Timespec} (h : ReadInOrder clock) (n : Nat) :
    (clock n).nanoseconds ≤ (clock (n + 1)).nanoseconds :=
  (Timespec.notAfter_iff (h.normal n) (h.normal (n + 1))).mp (h.ordered n)

variable {K : Type u} [Field K]

/-- `t.tv_sec + 1e-9 * t.tv_nsec`. -/
def seconds (t : Timespec) : K := t.tvSec + 1 / 1000000000 * t.tvNsec

/-- The `n`-th call, for the answers of `CLOCK_MONOTONIC_RAW`. -/
def nbClock (monotonic : Nat → Timespec) (n : Nat) : K := seconds (monotonic n)

variable [LinearOrder K] [IsStrictOrderedRing K]

theorem seconds_eq (t : Timespec) : (seconds t : K) = t.nanoseconds / 10 ^ 9 := by
  have pos : (10 : K) ^ 9 ≠ 0 := by positivity
  have scale : (1 / 1000000000 : K) = ((10 : K) ^ 9)⁻¹ := by norm_num
  rw [seconds, scale, Timespec.nanoseconds, Int.cast_add, Int.cast_mul, add_div,
    div_eq_inv_mul (t.tvNsec : K)]
  congr 1
  rw [Int.cast_pow, Int.cast_ofNat, mul_div_cancel_right₀ _ pos]

end MiniNb
