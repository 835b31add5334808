import Mathlib.Logic.Basic

/-!
# Bounded loops with an early exit

A loop makes at most `n` rounds. A round either returns the next state or also
names the reason for leaving the loop. Nothing is assumed about the states,
the reasons, or the origin of the bound.

`Rounds` relates a state to the one reached by rounds that all stayed in the
loop. Every run is such a sequence, followed by at most one leaving round, so
an invariant has to be checked only on the rounds that stay.
-/

namespace BoundedLoop

universe u v
variable {σ : Type u} {ε : Type v} {step : σ → σ × Option ε}

def run (step : σ → σ × Option ε) : Nat → σ → σ × Option ε
  | 0, s => (s, none)
  | n + 1, s =>
    match step s with
    | (t, none) => run step n t
    | (t, some e) => (t, some e)

/-- `Rounds step k s t`: from `s`, exactly `k` rounds stay in the loop and end in `t`. -/
inductive Rounds (step : σ → σ × Option ε) : Nat → σ → σ → Prop where
  | zero (s : σ) : Rounds step 0 s s
  | snoc {k : Nat} {s t u : σ} :
      Rounds step k s t → step t = (u, none) → Rounds step (k + 1) s u

theorem Rounds.cons {k : Nat} {s t u : σ} (first : step s = (t, none))
    (rest : Rounds step k t u) : Rounds step (k + 1) s u := by
  induction rest with
  | zero => exact .snoc (.zero s) first
  | snoc _ last ih => exact .snoc (ih first) last

/-- The rule for loop invariants: `P i` holds after `i` rounds. -/
theorem Rounds.invariant (P : Nat → σ → Prop)
    (keep : ∀ i t u, P i t → step t = (u, none) → P (i + 1) u)
    {k : Nat} {s t : σ} (start : P 0 s) (rounds : Rounds step k s t) : P k t := by
  induction rounds with
  | zero => exact start
  | snoc _ last ih => exact keep _ _ _ (ih start) last

theorem run_step_none {n : Nat} {s t : σ} (h : step s = (t, none)) :
    run step (n + 1) s = run step n t := by
  simp only [run, h]

theorem run_step_some {n : Nat} {s t : σ} {e : ε} (h : step s = (t, some e)) :
    run step (n + 1) s = (t, some e) := by
  simp only [run, h]

/-- A run uses up its bound or leaves in the round after `k < n` staying ones. -/
theorem run_cases (step : σ → σ × Option ε) (n : Nat) (s : σ) :
    (∃ t, Rounds step n s t ∧ run step n s = (t, none)) ∨
    (∃ k t u e, k < n ∧ Rounds step k s t ∧ step t = (u, some e) ∧
      run step n s = (u, some e)) := by
  induction n generalizing s with
  | zero => exact Or.inl ⟨s, .zero s, rfl⟩
  | succ n ih =>
    cases hs : step s with
    | mk t exit =>
      cases exit with
      | some e =>
        exact Or.inr ⟨0, s, t, e, Nat.succ_pos n, .zero s, hs, run_step_some hs⟩
      | none =>
        rw [run_step_none hs]
        rcases ih t with ⟨u, rounds, hrun⟩ | ⟨k, u, v, e, hk, rounds, last, hrun⟩
        · exact Or.inl ⟨u, .cons hs rounds, hrun⟩
        · exact Or.inr ⟨k + 1, u, v, e, Nat.succ_lt_succ hk, .cons hs rounds, last, hrun⟩

end BoundedLoop
