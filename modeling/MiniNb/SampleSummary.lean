import MiniNb.NbHistogram
import Mathlib.Algebra.BigOperators.Group.List.Basic
import Mathlib.Data.List.Induction
import Mathlib.Data.Rat.Floor

/-!
# A histogram is the summary of its samples

Every field of the histogram is a function of the multiset of the scaled values
added since the last clear. One added value updates all fields consistently;
clearing leads back to the summary of no values at all.
-/

namespace SampleSummary

open MiniNb ExactDouble

universe u
variable {K : Type u} [Field K] [LinearOrder K] [IsStrictOrderedRing K]

/-- The first line of `nb_histogram_add`. -/
def scaled (power : Int) (val : Dbl K) : Dbl K := val * .fin (pow10 power)

/-- `hist` is what the values `S` add up to, all of them being scaled already. -/
structure Summarizes (hist : NbHistogram K) (power : Int) (S : List (Dbl K)) : Prop where
  size_eq : hist.size = S.length
  sum_eq : hist.sum = S.sum
  sumsq_eq : hist.sumsq = (S.map (fun x => x * x)).sum
  min_least : ∀ x ∈ S, hist.min ≤ x
  min_mem : hist.min ∈ S ∨ S = [] ∧ hist.min = .posInf
  max_greatest : ∀ x ∈ S, x ≤ hist.max
  max_mem : hist.max ∈ S ∨ S = [] ∧ hist.max = 0
  power_eq : hist.power = power
  bucket_eq : ∀ i : Fin nbHistogramBucketsCount,
    hist.buckets[i] = S.countP (fun x => decide (bucketIndex x = i))
  buckets_sum : hist.buckets.toList.sum = hist.size

theorem summarizes_clear (hist : NbHistogram K) :
    Summarizes (nbHistogramClear hist) hist.power [] where
  size_eq := rfl
  sum_eq := rfl
  sumsq_eq := rfl
  min_least := by simp
  min_mem := Or.inr ⟨rfl, rfl⟩
  max_greatest := by simp
  max_mem := Or.inr ⟨rfl, rfl⟩
  power_eq := rfl
  bucket_eq := by simp [nbHistogramClear]
  buckets_sum := by simp [nbHistogramClear]

/-- Incrementing one counter increments the sum of all. -/
theorem sum_increment {l : List Nat} {i : Nat} (hi : i < l.length) :
    (l.set i (l[i] + 1)).sum = l.sum + 1 := by
  induction l generalizing i with
  | nil => simp at hi
  | cons c rest ih =>
    cases i with
    | zero => simp [Nat.add_right_comm]
    | succ i =>
      have hrest := ih (i := i) (by simpa using hi)
      simp only [List.getElem_cons_succ, List.set_cons_succ, List.sum_cons, hrest]
      omega

theorem scaled_nonneg {power : Int} {val : Dbl K} (h : 0 ≤ val) : 0 ≤ scaled power val :=
  Dbl.mul_fin_nonneg h (pow10_pos power)

/-- What is left of `nb_histogram_add` once the value is scaled. -/
def record (hist : NbHistogram K) (x : Dbl K) : NbHistogram K :=
  { hist with
    min := if x < hist.min then x else hist.min
    max := if hist.max < x then x else hist.max
    sum := hist.sum + x
    sumsq := hist.sumsq + x * x
    buckets := hist.buckets.set (bucketIndex x) (hist.buckets[bucketIndex x] + 1)
    size := hist.size + 1 }

theorem add_eq_record (hist : NbHistogram K) (val : Dbl K) :
    nbHistogramAdd hist val = record hist (scaled hist.power val) := rfl

section Record
variable {hist : NbHistogram K} {power : Int} {S : List (Dbl K)} {x : Dbl K}

theorem Summarizes.min_ne_nan (h : Summarizes hist power S) (nonneg : ∀ y ∈ S, 0 ≤ y) :
    hist.min ≠ .nan := by
  rcases h.min_mem with hmem | ⟨_, hinf⟩
  · exact Dbl.ne_nan_of_nonneg (nonneg _ hmem)
  · simp [hinf]

theorem Summarizes.max_nonneg (h : Summarizes hist power S) (nonneg : ∀ y ∈ S, 0 ≤ y) :
    0 ≤ hist.max := by
  rcases h.max_mem with hmem | ⟨_, hzero⟩
  · exact nonneg _ hmem
  · rw [hzero]
    exact le_refl (0 : K)

theorem record_min (h : Summarizes hist power S) (nonneg : ∀ y ∈ S, 0 ≤ y) (hx : 0 ≤ x) :
    (record hist x).min ∈ S ++ [x] ∧ ∀ y ∈ S ++ [x], (record hist x).min ≤ y := by
  have number := Dbl.ne_nan_of_nonneg hx
  simp only [record, List.mem_append, List.mem_singleton]
  by_cases hlt : x < hist.min
  · rw [if_pos hlt]
    refine ⟨Or.inr rfl, ?_⟩
    rintro y (hy | rfl)
    · exact Dbl.dbl_le_trans (Dbl.dbl_le_of_lt hlt) (h.min_least y hy)
    · exact Dbl.dbl_le_refl number
  · rw [if_neg hlt]
    have hle := Dbl.dbl_le_of_not_lt number (h.min_ne_nan nonneg) hlt
    constructor
    · rcases h.min_mem with hmem | ⟨_, hinf⟩
      · exact Or.inl hmem
      · rw [hinf] at hle ⊢
        exact Or.inr (Dbl.posInf_le_iff.mp hle).symm
    · rintro y (hy | rfl)
      · exact h.min_least y hy
      · exact hle

theorem record_max (h : Summarizes hist power S) (nonneg : ∀ y ∈ S, 0 ≤ y) (hx : 0 ≤ x) :
    (record hist x).max ∈ S ++ [x] ∧ ∀ y ∈ S ++ [x], y ≤ (record hist x).max := by
  have number := Dbl.ne_nan_of_nonneg hx
  simp only [record, List.mem_append, List.mem_singleton]
  by_cases hlt : hist.max < x
  · rw [if_pos hlt]
    refine ⟨Or.inr rfl, ?_⟩
    rintro y (hy | rfl)
    · exact Dbl.dbl_le_trans (h.max_greatest y hy) (Dbl.dbl_le_of_lt hlt)
    · exact Dbl.dbl_le_refl number
  · rw [if_neg hlt]
    have hle := Dbl.dbl_le_of_not_lt (Dbl.ne_nan_of_nonneg (h.max_nonneg nonneg)) number hlt
    constructor
    · rcases h.max_mem with hmem | ⟨_, hzero⟩
      · exact Or.inl hmem
      · rw [hzero] at hle ⊢
        exact Or.inr (Dbl.dbl_le_antisymm hx hle)
    · rintro y (hy | rfl)
      · exact h.max_greatest y hy
      · exact hle

theorem record_bucket (i : Fin nbHistogramBucketsCount) :
    (record hist x).buckets[i] = hist.buckets[i] + if bucketIndex x = i then 1 else 0 := by
  by_cases hi : bucketIndex x = i
  · subst hi
    simp [record]
  · have hne : (bucketIndex x).val ≠ i.val := fun h => hi (Fin.ext h)
    simp [record, hi, hne]

theorem record_buckets_sum :
    (record hist x).buckets.toList.sum = hist.buckets.toList.sum + 1 := by
  have hlen : (bucketIndex x).val < hist.buckets.toList.length := by simp
  have hsum := sum_increment hlen
  rw [Vector.getElem_toList] at hsum
  rw [record, Vector.toList_set]
  exact hsum

/-- One more value extends the summary. -/
theorem Summarizes.record (h : Summarizes hist power S) (nonneg : ∀ y ∈ S, 0 ≤ y) (hx : 0 ≤ x) :
    Summarizes (record hist x) power (S ++ [x]) where
  size_eq := by simp [SampleSummary.record, h.size_eq]
  sum_eq := by simp [SampleSummary.record, h.sum_eq]
  sumsq_eq := by simp [SampleSummary.record, h.sumsq_eq]
  min_least := (record_min h nonneg hx).2
  min_mem := Or.inl (record_min h nonneg hx).1
  max_greatest := (record_max h nonneg hx).2
  max_mem := Or.inl (record_max h nonneg hx).1
  power_eq := h.power_eq
  bucket_eq i := by
    rw [record_bucket, h.bucket_eq, List.countP_append]
    simp
  buckets_sum := by
    rw [record_buckets_sum, h.buckets_sum]
    rfl

end Record

/-- The calls made on a histogram between its creation and its deletion. -/
inductive HistOp (K : Type u) where
  | add (val : Dbl K)
  | clear

def applyOp (hist : NbHistogram K) : HistOp K → NbHistogram K
  | .add val => nbHistogramAdd hist val
  | .clear => nbHistogramClear hist

def runOps (hist : NbHistogram K) (ops : List (HistOp K)) : NbHistogram K := ops.foldl applyOp hist

/-- The scaled values added since the last clear. -/
def sinceClear (power : Int) (ops : List (HistOp K)) : List (Dbl K) :=
  ops.foldl (fun S op =>
    match op with
    | .add val => S ++ [scaled power val]
    | .clear => []) []

def NonNegative : HistOp K → Prop
  | .add val => 0 ≤ val
  | .clear => True

instance : DecidablePred (NonNegative (K := K))
  | .add val => inferInstanceAs (Decidable (0 ≤ val))
  | .clear => .isTrue trivial

theorem runOps_concat (hist : NbHistogram K) (ops : List (HistOp K)) (op : HistOp K) :
    runOps hist (ops ++ [op]) = applyOp (runOps hist ops) op := List.foldl_concat ..

/-- The counters add up to the size, whatever the values are. -/
theorem runOps_total {hist : NbHistogram K} (new : hist.buckets.toList.sum = hist.size)
    (ops : List (HistOp K)) :
    (runOps hist ops).buckets.toList.sum = (runOps hist ops).size := by
  induction ops using List.reverseRecOn with
  | nil => exact new
  | append_singleton ops op ih =>
    rw [runOps_concat]
    cases op with
    | clear => exact (summarizes_clear _).buckets_sum
    | add val =>
      rw [applyOp, add_eq_record, record_buckets_sum, ih]
      rfl

theorem runOps_summarizes {hist : NbHistogram K} {power : Int} (new : Summarizes hist power [])
    {ops : List (HistOp K)} (nonneg : ∀ op ∈ ops, NonNegative op) :
    Summarizes (runOps hist ops) power (sinceClear power ops) ∧
      ∀ x ∈ sinceClear power ops, 0 ≤ x := by
  induction ops using List.reverseRecOn with
  | nil => exact ⟨new, by simp [sinceClear]⟩
  | append_singleton ops op ih =>
    obtain ⟨summary, positive⟩ := ih (fun op hop => nonneg op (List.mem_append_left _ hop))
    have last : NonNegative op := nonneg op (by simp)
    rw [runOps_concat]
    cases op with
    | clear =>
      have cleared := summarizes_clear (runOps hist ops)
      rw [summary.power_eq] at cleared
      simpa [sinceClear, applyOp] using cleared
    | add val =>
      have hsince : sinceClear power (ops ++ [.add val]) =
          sinceClear power ops ++ [scaled power val] := by
        simp [sinceClear]
      have hval : 0 ≤ scaled power val := scaled_nonneg last
      have extended := summary.record positive hval
      rw [hsince, applyOp, add_eq_record, summary.power_eq]
      refine ⟨extended, ?_⟩
      intro x hx
      rcases List.mem_append.mp hx with hx | hx
      · exact positive x hx
      · rw [List.mem_singleton.mp hx]
        exact hval

omit [IsStrictOrderedRing K] in
theorem sinceClear_adds (power : Int) (samples : List (Dbl K)) :
    sinceClear power (samples.map .add) = samples.map (scaled power) := by
  induction samples using List.reverseRecOn with
  | nil => rfl
  | append_singleton samples x ih =>
    simp only [sinceClear, List.map_append, List.foldl_append] at ih ⊢
    rw [ih]
    rfl

/-- The summary determines the histogram, and the order of the values does not matter. -/
theorem summarizes_unique {hist hist' : NbHistogram K} {power : Int} {S S' : List (Dbl K)}
    (h : Summarizes hist power S) (h' : Summarizes hist' power S') (perm : S'.Perm S) :
    hist' = hist := by
  have empty : S = [] ↔ S' = [] := ⟨fun hS => List.perm_nil.mp (hS ▸ perm),
    fun hS => List.nil_perm.mp (hS ▸ perm)⟩
  have hmin : hist'.min = hist.min := by
    rcases h.min_mem with hmem | ⟨hnil, hinf⟩
    · rcases h'.min_mem with hmem' | ⟨hnil', _⟩
      · exact Dbl.dbl_le_antisymm (h'.min_least _ (perm.mem_iff.mpr hmem))
          (h.min_least _ (perm.mem_iff.mp hmem'))
      · rw [empty.mpr hnil'] at hmem
        exact absurd hmem List.not_mem_nil
    · rcases h'.min_mem with hmem' | ⟨_, hinf'⟩
      · rw [empty.mp hnil] at hmem'
        exact absurd hmem' List.not_mem_nil
      · rw [hinf, hinf']
  have hmax : hist'.max = hist.max := by
    rcases h.max_mem with hmem | ⟨hnil, hzero⟩
    · rcases h'.max_mem with hmem' | ⟨hnil', _⟩
      · exact Dbl.dbl_le_antisymm (h.max_greatest _ (perm.mem_iff.mp hmem'))
          (h'.max_greatest _ (perm.mem_iff.mpr hmem))
      · rw [empty.mpr hnil'] at hmem
        exact absurd hmem List.not_mem_nil
    · rcases h'.max_mem with hmem' | ⟨_, hzero'⟩
      · rw [empty.mp hnil] at hmem'
        exact absurd hmem' List.not_mem_nil
      · rw [hzero, hzero']
  have hbuckets : hist'.buckets = hist.buckets := by
    apply Vector.ext
    intro i hi
    have hcount := perm.countP_eq (fun x => decide (bucketIndex x = ⟨i, hi⟩))
    exact (h'.bucket_eq ⟨i, hi⟩).trans (hcount.trans (h.bucket_eq ⟨i, hi⟩).symm)
  have hsum : hist'.sum = hist.sum := by rw [h'.sum_eq, h.sum_eq, perm.sum_eq]
  have hsumsq : hist'.sumsq = hist.sumsq := by
    rw [h'.sumsq_eq, h.sumsq_eq, (perm.map _).sum_eq]
  have hsize : hist'.size = hist.size := by rw [h'.size_eq, h.size_eq, perm.length_eq]
  have hpower : hist'.power = hist.power := h'.power_eq.trans h.power_eq.symm
  cases hist
  cases hist'
  simp only [NbHistogram.mk.injEq]
  exact ⟨hmin, hmax, hsum, hsumsq, hsize, hbuckets, hpower⟩

/-- What `nb_histogram_new` returns, whatever the allocated memory held. -/
def freshHistogram (power : Int) : NbHistogram K :=
  nbHistogramClear ⟨.nan, .nan, .nan, .nan, 0, Vector.replicate _ 0, power⟩

omit [LinearOrder K] [IsStrictOrderedRing K] in
theorem new_eq_fresh {heap : Option (NbHistogram K)} {power : Int} {hist : NbHistogram K}
    (new : nbHistogramNew heap power = some hist) : hist = freshHistogram power := by
  obtain ⟨garbage, _, rfl⟩ := Option.map_eq_some_iff.mp new
  rfl

theorem fresh_summarizes (power : Int) :
    Summarizes (freshHistogram power : NbHistogram K) power [] := summarizes_clear _

/-- A new histogram after one `nb_histogram_add` for each of the samples, which may be infinite. -/
def histogramAfter (power : Int) (samples : List (Dbl K)) : NbHistogram K :=
  runOps (freshHistogram power) (samples.map .add)

theorem histogramAfter_summarizes (power : Int) {samples : List (Dbl K)}
    (nonneg : ∀ x ∈ samples, 0 ≤ x) :
    Summarizes (histogramAfter power samples) power (samples.map (scaled power)) ∧
      ∀ x ∈ samples.map (scaled power), 0 ≤ x := by
  have adds : ∀ op ∈ samples.map HistOp.add, NonNegative op := by
    intro op hop
    obtain ⟨x, hx, rfl⟩ := List.mem_map.mp hop
    exact nonneg x hx
  have summary := runOps_summarizes (fresh_summarizes power) adds
  rwa [sinceClear_adds] at summary

/-- After any calls with values that are not negative, the histogram is the
summary of the values since the last clear, and their order leaves no trace. -/
theorem histogram_summarizes {heap : Option (NbHistogram K)} {power : Int} {hist : NbHistogram K}
    (new : nbHistogramNew heap power = some hist) {ops : List (HistOp K)}
    (nonneg : ∀ op ∈ ops, NonNegative op) :
    Summarizes (runOps hist ops) power (sinceClear power ops) ∧
      ∀ ops' : List (HistOp K), (∀ op ∈ ops', NonNegative op) →
        (sinceClear power ops').Perm (sinceClear power ops) →
          runOps hist ops' = runOps hist ops := by
  cases new_eq_fresh new
  have summary := (runOps_summarizes (fresh_summarizes power) nonneg).1
  refine ⟨summary, ?_⟩
  intro ops' nonneg' perm
  exact summarizes_unique summary (runOps_summarizes (fresh_summarizes power) nonneg').1 perm

/-- One value before a clear, a finite value and an infinite one behind it. -/
def threeAdds : List (HistOp ℚ) := [.add (.fin 3), .clear, .add (.fin 2), .add .posInf]

theorem histogram_summarizes_three_adds :
    Summarizes (runOps (freshHistogram 6) threeAdds) 6 (sinceClear 6 threeAdds) ∧
      ∀ ops' : List (HistOp ℚ), (∀ op ∈ ops', NonNegative op) →
        (sinceClear 6 ops').Perm (sinceClear 6 threeAdds) →
          runOps (freshHistogram 6) ops' = runOps (freshHistogram 6) threeAdds := by
  have new : nbHistogramNew (some (freshHistogram 0 : NbHistogram ℚ)) 6 =
      some (freshHistogram 6) := rfl
  exact histogram_summarizes new (by decide +kernel)

end SampleSummary
