import Mathlib.Algebra.GroupWithZero.Nat
import Mathlib.Data.List.Sort
import Mathlib.Order.Basic

/-!
# Counting below a threshold in sorted lists

In a list along which a condition can only turn from true to false, the number
of entries that satisfy it is also the index where it turns. This one fact
reads a sorted boundary table (the rank of a value is the number of boundaries
below it) and a sorted sample (an order statistic satisfies a downward closed
condition exactly when enough samples do).
-/

namespace RankCounting

universe u
variable {α : Type u}

/-- Where a condition is downward closed along a list, its count is its turning index. -/
theorem lt_countP_iff {p : α → Bool} {l : List α}
    (closed : l.Pairwise (fun a b => p b = true → p a = true)) {i : Nat}
    (hi : i < l.length) : i < l.countP p ↔ p l[i] = true := by
  induction l generalizing i with
  | nil => simp at hi
  | cons a rest ih =>
    obtain ⟨head, tail⟩ := List.pairwise_cons.mp closed
    by_cases ha : p a = true
    · rw [List.countP_cons_of_pos ha]
      cases i with
      | zero => simp [ha]
      | succ i => simpa using ih tail (by simpa using hi)
    · have hrest : ∀ b ∈ rest, ¬ p b = true := fun b hb hp => ha (head b hb hp)
      rw [List.countP_cons_of_neg ha, List.countP_eq_zero.mpr hrest]
      cases i with
      | zero => simp [ha]
      | succ i =>
        have hlt : i < rest.length := by simpa using hi
        simpa using hrest rest[i] (List.getElem_mem hlt)

/-- A list whose entries satisfy a condition exactly before index `m` counts to `m`. -/
theorem countP_eq_of_turn {p : α → Bool} {l : List α} {m : Nat} (hm : m ≤ l.length)
    (before : ∀ i (h : i < l.length), i < m → p l[i] = true)
    (after : ∀ i (h : i < l.length), m ≤ i → ¬ p l[i] = true) : l.countP p = m := by
  induction l generalizing m with
  | nil => exact (Nat.le_zero.mp hm).symm
  | cons a rest ih =>
    cases m with
    | zero =>
      apply List.countP_eq_zero.mpr
      intro b hb
      obtain ⟨i, hi, rfl⟩ := List.getElem_of_mem hb
      exact after i hi (Nat.zero_le _)
    | succ m =>
      have ha : p a = true := before 0 (by simp) (Nat.succ_pos m)
      rw [List.countP_cons_of_pos ha, ih (by simpa using hm)]
      · intro i hi him
        exact before (i + 1) (Nat.succ_lt_succ hi) (Nat.succ_lt_succ him)
      · intro i hi him
        exact after (i + 1) (Nat.succ_lt_succ hi) (Nat.succ_le_succ him)

/-- The count is also the index a scan from the left stops at. -/
theorem countP_eq_findIdx {p : α → Bool} {l : List α}
    (closed : l.Pairwise (fun a b => p b = true → p a = true)) :
    l.countP p = l.findIdx (fun a => !p a) := by
  induction l with
  | nil => rfl
  | cons a rest ih =>
    obtain ⟨head, tail⟩ := List.pairwise_cons.mp closed
    by_cases ha : p a = true
    · simp [List.findIdx_cons, List.countP_cons_of_pos ha, ih tail, ha]
    · have hrest : ∀ b ∈ rest, ¬ p b = true := fun b hb hp => ha (head b hb hp)
      rw [List.countP_cons_of_neg ha, List.countP_eq_zero.mpr hrest]
      simp [List.findIdx_cons, ha]

/-- Counts by a number, taken one further. -/
theorem countP_lt_succ (f : α → Nat) (xs : List α) (b : Nat) :
    xs.countP (fun x => decide (f x < b + 1)) =
      xs.countP (fun x => decide (f x < b)) + xs.countP (fun x => decide (f x = b)) := by
  induction xs with
  | nil => rfl
  | cons x xs ih =>
    simp only [List.countP_cons, ih, decide_eq_true_eq]
    rcases Nat.lt_trichotomy (f x) b with hlt | heq | hgt
    · rw [if_pos (by omega), if_pos hlt, if_neg (by omega)]
      omega
    · rw [if_pos (by omega), if_neg (by omega), if_pos heq]
      omega
    · rw [if_neg (by omega), if_neg (by omega), if_neg (by omega)]
      omega

/-- Counters of the values of a function add up to the counts below a bound. -/
theorem sum_take_counters {f : α → Nat} {xs : List α} {counters : List Nat}
    (counts : ∀ i (hi : i < counters.length),
      counters[i] = xs.countP (fun x => decide (f x = i))) {b : Nat} (hb : b ≤ counters.length) :
    (counters.take b).sum = xs.countP (fun x => decide (f x < b)) := by
  induction b with
  | zero => simp
  | succ b ih =>
    rw [List.take_succ_eq_append_getElem hb, List.sum_append, ih (Nat.le_of_succ_le hb),
      List.sum_singleton, counts b hb, countP_lt_succ]

/-- Where one of two counts implies the other and they agree, so do the conditions. -/
theorem forall_of_countP_eq {p q : α → Bool} {xs : List α}
    (imp : ∀ x ∈ xs, p x = true → q x = true) (h : xs.countP p = xs.countP q) :
    ∀ x ∈ xs, q x = true → p x = true := by
  induction xs with
  | nil => simp
  | cons a rest ih =>
    obtain ⟨head, tail⟩ := List.forall_mem_cons.mp imp
    have mono : rest.countP p ≤ rest.countP q := List.countP_mono_left tail
    rw [List.countP_cons, List.countP_cons] at h
    by_cases hq : q a = true
    · by_cases hp : p a = true
      · rw [if_pos hp, if_pos hq] at h
        exact List.forall_mem_cons.mpr ⟨fun _ => hp, ih tail (by omega)⟩
      · rw [if_neg hp, if_pos hq] at h
        omega
    · rw [if_neg hq, if_neg (fun hp => hq (head hp))] at h
      exact List.forall_mem_cons.mpr ⟨fun hqa => absurd hqa hq, ih tail (by omega)⟩

section Table
variable [LinearOrder α]

/-- The number of boundaries strictly below a value. -/
def rank (bounds : List α) (x : α) : Nat := bounds.countP (fun b => decide (b < x))

theorem rank_le_length (bounds : List α) (x : α) : rank bounds x ≤ bounds.length :=
  List.countP_le_length

theorem rank_mono (bounds : List α) {x y : α} (h : x ≤ y) : rank bounds x ≤ rank bounds y := by
  apply List.countP_mono_left
  intro b _ hb
  exact decide_eq_true (lt_of_lt_of_le (of_decide_eq_true hb) h)

theorem le_of_rank_lt {bounds : List α} {x y : α} (h : rank bounds x < rank bounds y) : x ≤ y := by
  apply le_of_not_gt
  intro hlt
  have := rank_mono bounds (le_of_lt hlt)
  omega

theorem lt_rank_iff {bounds : List α} (sorted : bounds.Pairwise (· < ·)) (x : α) {i : Nat}
    (hi : i < bounds.length) : i < rank bounds x ↔ bounds[i] < x := by
  have closed : bounds.Pairwise
      (fun a b => decide (b < x) = true → decide (a < x) = true) := by
    refine sorted.imp ?_
    intro a b hab hb
    exact decide_eq_true (lt_trans hab (of_decide_eq_true hb))
  rw [rank, lt_countP_iff closed hi, decide_eq_true_iff]

/-- The lower boundary of the rank of a value lies strictly below the value. -/
theorem lower_lt_of_rank {bounds : List α} (sorted : bounds.Pairwise (· < ·)) {x : α} {i : Nat}
    (hi : i < bounds.length) (h : rank bounds x = i + 1) : bounds[i] < x :=
  (lt_rank_iff sorted x hi).mp (by omega)

/-- The upper boundary of the rank of a value is at least the value. -/
theorem le_upper_of_rank {bounds : List α} (sorted : bounds.Pairwise (· < ·)) {x : α} {i : Nat}
    (hi : i < bounds.length) (h : rank bounds x = i) : x ≤ bounds[i] := by
  have hn : ¬ bounds[i] < x := fun hlt => by
    have := (lt_rank_iff sorted x hi).mpr hlt
    omega
  exact le_of_not_gt hn

/-- A rank is decided by the two boundaries around the value. -/
theorem rank_eq_of_between {bounds : List α} (sorted : bounds.Pairwise (· < ·)) {x : α} {i : Nat}
    (hi : i ≤ bounds.length)
    (lower : ∀ j (hj : j < bounds.length), j + 1 = i → bounds[j] < x)
    (upper : ∀ hj : i < bounds.length, x ≤ bounds[i]) : rank bounds x = i := by
  have hle : i ≤ rank bounds x := by
    cases i with
    | zero => exact Nat.zero_le _
    | succ j => exact (lt_rank_iff sorted x (by omega)).mpr (lower j (by omega) rfl)
  have hge : rank bounds x ≤ i := by
    by_contra hn
    have hlen := rank_le_length bounds x
    have := (lt_rank_iff sorted x (show i < bounds.length by omega)).mp (by omega)
    exact absurd (upper (by omega)) (not_le_of_gt this)
  omega

/-- Values between two values of one rank have that rank. -/
theorem rank_eq_of_le_of_le {bounds : List α} {x y z : α} (hxy : x ≤ y) (hyz : y ≤ z)
    (h : rank bounds x = rank bounds z) : rank bounds y = rank bounds z := by
  have h1 := rank_mono bounds hxy
  have h2 := rank_mono bounds hyz
  omega

end Table

section Sample
variable [LinearOrder α]

def sorted (xs : List α) : List α := xs.insertionSort (· ≤ ·)

@[simp] theorem length_sorted (xs : List α) : (sorted xs).length = xs.length :=
  List.length_insertionSort _ _

theorem sorted_perm (xs : List α) : (sorted xs).Perm xs := List.perm_insertionSort _ _

theorem sorted_pairwise (xs : List α) : (sorted xs).Pairwise (· ≤ ·) :=
  List.pairwise_insertionSort _ _

theorem sorted_le_sorted (xs : List α) {i j : Nat} (hij : i ≤ j) (hj : j < (sorted xs).length) :
    (sorted xs)[i] ≤ (sorted xs)[j] := by
  rcases Nat.lt_or_eq_of_le hij with hlt | rfl
  · exact List.pairwise_iff_getElem.mp (sorted_pairwise xs) i j (by omega) hj hlt
  · exact le_refl _

theorem sorted_map {f : α → α} (mono : ∀ a b, a ≤ b ↔ f a ≤ f b) (xs : List α) :
    sorted (xs.map f) = (sorted xs).map f :=
  (List.map_insertionSort (· ≤ ·) (· ≤ ·) f xs (fun a _ b _ => mono a b)).symm

/-- Conditions that pass from a value to all smaller ones. -/
def DownClosed (p : α → Bool) : Prop := ∀ a b, a ≤ b → p b = true → p a = true

theorem downClosed_rank_le (bounds : List α) (b : Nat) :
    DownClosed (fun x => decide (rank bounds x ≤ b)) := by
  intro x y hxy hy
  exact decide_eq_true (le_trans (rank_mono bounds hxy) (of_decide_eq_true hy))

theorem downClosed_rank_lt (bounds : List α) (b : Nat) :
    DownClosed (fun x => decide (rank bounds x < b)) := by
  intro x y hxy hy
  exact decide_eq_true (lt_of_le_of_lt (rank_mono bounds hxy) (of_decide_eq_true hy))

/-- An order statistic satisfies a downward closed condition exactly when its
index is below the number of samples that do. -/
theorem sorted_getElem_iff {p : α → Bool} (down : DownClosed p) (xs : List α) {i : Nat}
    (hi : i < (sorted xs).length) : p (sorted xs)[i] = true ↔ i < xs.countP p := by
  have closed : (sorted xs).Pairwise (fun a b => p b = true → p a = true) :=
    (sorted_pairwise xs).imp (fun {a b} hab => down a b hab)
  rw [← lt_countP_iff closed hi, (sorted_perm xs).countP_eq]

/-- The bucket of an order statistic is where the cumulative count reaches its rank. -/
theorem rank_sorted_eq_iff (bounds xs : List α) {i b : Nat} (hi : i < (sorted xs).length) :
    rank bounds (sorted xs)[i] = b ↔
      xs.countP (fun x => decide (rank bounds x < b)) ≤ i ∧
      i < xs.countP (fun x => decide (rank bounds x ≤ b)) := by
  have hle := sorted_getElem_iff (downClosed_rank_le bounds b) xs hi
  have hlt := sorted_getElem_iff (downClosed_rank_lt bounds b) xs hi
  simp only [decide_eq_true_iff] at hle hlt
  rw [← hle, ← not_lt, ← hlt]
  omega

/-- Samples that are pointwise at most others satisfy a downward closed
condition at least as often. -/
theorem countP_le_of_dominated {p : α → Bool} (down : DownClosed p) {a b : List α}
    (h : List.Forall₂ (· ≤ ·) a b) : b.countP p ≤ a.countP p := by
  induction h with
  | nil => exact Nat.le_refl _
  | @cons x y xs ys hxy _ ih =>
    by_cases hy : p y = true
    · rw [List.countP_cons_of_pos hy, List.countP_cons_of_pos (down x y hxy hy)]
      omega
    · rw [List.countP_cons_of_neg hy, List.countP_cons]
      omega

end Sample

end RankCounting
