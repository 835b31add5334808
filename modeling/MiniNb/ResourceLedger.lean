import Mathlib.Data.List.Count
import Mathlib.Data.List.Infix

/-!
# Acquire and release logs

A log records, in order, which resources a procedure acquired and released.
It balances when every resource is released exactly as often as it is acquired
and no release precedes the acquisition it answers. The second condition is
about every prefix of the log, not only about its totals.

`settle` replays a log on the list of held resources and is the decision
procedure for balance; `balanced_iff_settle` says that it decides exactly this.

An object that is passed on to somebody else is off one's hands like a released
one. `ledger` turns such a history into a log.
-/

namespace ResourceLedger

universe u
variable {R : Type u} [DecidableEq R]

inductive Event (R : Type u) where
  | acquire (r : R)
  | release (r : R)
  deriving DecidableEq

def acquires (r : R) (log : List (Event R)) : Nat := log.count (.acquire r)

def releases (r : R) (log : List (Event R)) : Nat := log.count (.release r)

/-- Released exactly as often as acquired, and never before being acquired. -/
def Balanced (log : List (Event R)) : Prop :=
  ∀ r, releases r log = acquires r log ∧
    ∀ before, before <+: log → releases r before ≤ acquires r before

/-- Replay a log; a release of a resource that is not held has no result. -/
def settle : List R → List (Event R) → Option (List R)
  | held, [] => some held
  | held, .acquire r :: rest => settle (r :: held) rest
  | held, .release r :: rest =>
    if r ∈ held then settle (held.erase r) rest else none

/-- `b` does not occur in the log before `a` has. -/
def Precedes (a b : Event R) : List (Event R) → Prop
  | [] => True
  | e :: rest => e = a ∨ e ≠ b ∧ Precedes a b rest

instance (a b : Event R) : (log : List (Event R)) → Decidable (Precedes a b log)
  | [] => .isTrue trivial
  | e :: rest =>
    have : Decidable (Precedes a b rest) := instDecidablePrecedes a b rest
    inferInstanceAs (Decidable (e = a ∨ e ≠ b ∧ Precedes a b rest))

@[simp] theorem acquires_acquire (r q : R) (log : List (Event R)) :
    acquires r (.acquire q :: log) = acquires r log + if q = r then 1 else 0 := by
  simp [acquires, List.count_cons]

@[simp] theorem acquires_release (r q : R) (log : List (Event R)) :
    acquires r (.release q :: log) = acquires r log := by
  simp [acquires]

@[simp] theorem releases_acquire (r q : R) (log : List (Event R)) :
    releases r (.acquire q :: log) = releases r log := by
  simp [releases]

@[simp] theorem releases_release (r q : R) (log : List (Event R)) :
    releases r (.release q :: log) = releases r log + if q = r then 1 else 0 := by
  simp [releases, List.count_cons]

@[simp] theorem acquires_nil (r : R) : acquires r [] = 0 := rfl

@[simp] theorem releases_nil (r : R) : releases r [] = 0 := rfl

theorem acquires_append (r : R) (a b : List (Event R)) :
    acquires r (a ++ b) = acquires r a + acquires r b := List.count_append

theorem releases_append (r : R) (a b : List (Event R)) :
    releases r (a ++ b) = releases r a + releases r b := List.count_append

/-- `Balanced` relative to resources held before the log starts. -/
private def BalancedFrom (held : List R) (log : List (Event R)) : Prop :=
  ∀ r, releases r log = held.count r + acquires r log ∧
    ∀ before, before <+: log → releases r before ≤ held.count r + acquires r before

omit [DecidableEq R] in
private theorem prefix_cons_cases {e : Event R} {log before : List (Event R)}
    (h : before <+: e :: log) :
    before = [] ∨ ∃ tail, before = e :: tail ∧ tail <+: log := by
  cases before with
  | nil => exact Or.inl rfl
  | cons a tail =>
    obtain ⟨ha, ht⟩ := List.cons_prefix_cons.mp h
    exact Or.inr ⟨tail, by rw [ha], ht⟩

private theorem balancedFrom_nil (held : List R) :
    BalancedFrom held [] ↔ held = [] := by
  constructor
  · intro h
    apply List.eq_nil_iff_forall_not_mem.mpr
    intro r hr
    have hcount := (h r).1
    have hpos := List.count_pos_iff.mpr hr
    simp only [acquires_nil, releases_nil] at hcount
    omega
  · rintro rfl r
    refine ⟨by simp, ?_⟩
    intro before hb
    rw [List.prefix_nil.mp hb]
    simp

private theorem balancedFrom_acquire (held : List R) (q : R) (log : List (Event R)) :
    BalancedFrom held (.acquire q :: log) ↔ BalancedFrom (q :: held) log := by
  have shift : ∀ r before, held.count r + acquires r (.acquire q :: before) =
      (q :: held).count r + acquires r before := by
    intro r before
    rw [acquires_acquire, List.count_cons]
    by_cases hq : q = r
    · simp [hq]; omega
    · simp [hq]
  constructor
  · intro h r
    refine ⟨by rw [← shift, ← (h r).1, releases_acquire], ?_⟩
    intro before hb
    rw [← shift, ← releases_acquire r q]
    exact (h r).2 _ (List.cons_prefix_cons.mpr ⟨rfl, hb⟩)
  · intro h r
    refine ⟨by rw [shift, ← (h r).1, releases_acquire], ?_⟩
    intro before hb
    rcases prefix_cons_cases hb with rfl | ⟨tail, rfl, ht⟩
    · simp
    · rw [shift, releases_acquire]
      exact (h r).2 tail ht

private theorem balancedFrom_release (held : List R) (q : R) (log : List (Event R)) :
    BalancedFrom held (.release q :: log) ↔ q ∈ held ∧ BalancedFrom (held.erase q) log := by
  have shift : ∀ r, q ∈ held → held.count r =
      (held.erase q).count r + if q = r then 1 else 0 := by
    intro r hq
    by_cases h : q = r
    · subst h
      have := List.count_pos_iff.mpr hq
      rw [List.count_erase_self, if_pos rfl]
      omega
    · rw [List.count_erase_of_ne (fun h' => h h'.symm), if_neg h, Nat.add_zero]
  constructor
  · intro h
    have hq : q ∈ held := by
      have := (h q).2 [.release q] (List.cons_prefix_cons.mpr ⟨rfl, List.nil_prefix⟩)
      simpa using this
    refine ⟨hq, fun r => ⟨?_, ?_⟩⟩
    · have hr := (h r).1
      rw [releases_release, acquires_release, shift r hq] at hr
      omega
    · intro before hb
      have hr := (h r).2 _ (List.cons_prefix_cons.mpr ⟨rfl, hb⟩)
      rw [releases_release, acquires_release, shift r hq] at hr
      omega
  · rintro ⟨hq, h⟩ r
    refine ⟨?_, ?_⟩
    · rw [releases_release, acquires_release, shift r hq, (h r).1]
      omega
    · intro before hb
      rcases prefix_cons_cases hb with rfl | ⟨tail, rfl, ht⟩
      · simp
      · have hr := (h r).2 tail ht
        rw [releases_release, acquires_release, shift r hq]
        omega

private theorem balancedFrom_iff_settle (held : List R) (log : List (Event R)) :
    BalancedFrom held log ↔ settle held log = some [] := by
  induction log generalizing held with
  | nil => simp [balancedFrom_nil, settle]
  | cons e rest ih =>
    cases e with
    | acquire r => rw [balancedFrom_acquire, settle, ih]
    | release r =>
      rw [balancedFrom_release, settle]
      by_cases hr : r ∈ held
      · simp only [hr, true_and, if_true, ih]
      · simp [hr]

/-- A log is replayed in parts. -/
theorem settle_append (held : List R) (a b : List (Event R)) :
    settle held (a ++ b) = (settle held a).bind (fun held => settle held b) := by
  induction a generalizing held with
  | nil => rfl
  | cons e rest ih =>
    cases e with
    | acquire r => exact ih (r :: held)
    | release r =>
      simp only [List.cons_append, settle]
      split
      · exact ih _
      · rfl

/-- Replaying from nothing held decides balance. -/
theorem balanced_iff_settle (log : List (Event R)) :
    Balanced log ↔ settle [] log = some [] := by
  rw [← balancedFrom_iff_settle]
  simp only [Balanced, BalancedFrom, List.count_nil, Nat.zero_add]

instance (log : List (Event R)) : Decidable (Balanced log) :=
  decidable_of_iff _ (balanced_iff_settle log).symm

/-- What happens to an object that a holder deals with. -/
inductive Handling (R : Type u) where
  | received (object : R)
  | released (object : R)
  | handed (object : R)
  deriving DecidableEq

def Handling.event {R : Type u} : Handling R → Event R
  | .received object => .acquire object
  | .released object => .release object
  | .handed object => .release object

def ledger {R : Type u} (log : List (Handling R)) : List (Event R) := log.map Handling.event

omit [DecidableEq R] in
theorem ledger_append (a b : List (Handling R)) : ledger (a ++ b) = ledger a ++ ledger b :=
  List.map_append

/-- Behind a history that settles, another one is replayed from what is held. -/
theorem settle_ledger_append {a : List (Handling R)} {held : List R}
    (settled : settle [] (ledger a) = some held) (b : List (Handling R)) :
    settle [] (ledger (a ++ b)) = settle held (ledger b) := by
  rw [ledger_append, settle_append, settled, Option.bind_some]

/-- An object that is kept. -/
theorem settle_received (held : List R) (object : R) :
    settle held (ledger [.received object]) = some (object :: held) := rfl

/-- An object that does not stay. -/
theorem settle_passed (held : List R) (object : R) :
    settle held (ledger [.received object, .released object]) = some held ∧
      settle held (ledger [.received object, .handed object]) = some held := by
  have gone : settle held [.acquire object, .release object] = some held := by simp [settle]
  exact ⟨gone, gone⟩

end ResourceLedger
