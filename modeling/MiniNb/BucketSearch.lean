import MiniNb.RankCounting

/-!
# The bucket search of the histogram

The search halves a bracket of candidate buckets, but rounds the two halves of
the midpoint separately, so it can stop with two candidates left. A backward
scan over the bracket then decides between them. Both parts look at the entry
before the candidate, which is where an empty bracket would read outside the
table. The code is translated for an arbitrary table; fuel bounds the halving.
-/

namespace MiniNb

universe u
variable {α : Type u}

/-- Entry `mid - 1` of the table. The subtraction wraps around for `mid = 0`. -/
def entryBefore (table : List α) : Nat → Option α
  | 0 => none
  | mid + 1 => table[mid]?

variable [LT α] [DecidableLT α]

/-- `for (mid = end; mid > begin; mid--)`, left at the first entry below `val`. -/
def scanDown (table : List α) (val : α) (first : Nat) : Nat → Option Nat
  | 0 => some 0
  | mid + 1 =>
    if first < mid + 1 then
      match entryBefore table (mid + 1) with
      | none => none
      | some b => if b < val then some (mid + 1) else scanDown table val first mid
    else some (mid + 1)

/-- The `while(1)` loop, with `first` and `last` for `begin` and `end`. -/
def searchLoop (table : List α) (val : α) : Nat → Nat → Nat → Option Nat
  | 0, _, _ => none
  | fuel + 1, first, last =>
    let mid := first / 2 + last / 2
    if mid = first then scanDown table val first last
    else
      match entryBefore table mid with
      | none => none
      | some b =>
        if b < val then searchLoop table val fuel mid last
        else searchLoop table val fuel first mid

def bucketSearch (table : List α) (val : α) : Option Nat :=
  searchLoop table val table.length 0 (table.length - 1)

end MiniNb

namespace BucketSearch

open MiniNb

universe u
variable {α : Type u} [LT α] [DecidableLT α]

/-- Being below `val` passes to all earlier entries of the table. -/
def Downward (table : List α) (val : α) : Prop :=
  ∀ i j (hi : i < table.length) (hj : j < table.length), j ≤ i →
    table[i] < val → table[j] < val

omit [DecidableLT α] in
theorem downward_of_increasing
    (trans : ∀ a b c : α, a < b → b < c → a < c) {table : List α}
    (increasing : table.Pairwise (· < ·)) (val : α) : Downward table val := by
  intro i j hi hj hji hb
  rcases Nat.lt_or_eq_of_le hji with hlt | rfl
  · exact trans _ _ _ (List.pairwise_iff_getElem.mp increasing j i hj hi hlt) hb
  · exact hb

/-- Bucket `r` is where the first `m` entries stop being below `val`. -/
def Turns (table : List α) (val : α) (m r : Nat) : Prop :=
  r ≤ m ∧ (∀ j (hj : j < table.length), j < r → table[j] < val) ∧
    ∀ j (hj : j < table.length), r ≤ j → j < m → ¬ table[j] < val

/-- The two-sided bracket. It is nonempty unless there is nothing to search. -/
structure Bracket (table : List α) (val : α) (m first last : Nat) : Prop where
  last_le : last ≤ m
  nonempty : first < last ∨ first = 0 ∧ last = 0
  below : ∀ j (hj : j < table.length), j < first → table[j] < val
  above : ∀ j (hj : j < table.length), last ≤ j → j < m → ¬ table[j] < val

omit [LT α] [DecidableLT α] in
theorem entryBefore_eq {table : List α} {mid : Nat} (hpos : 0 < mid) (h : mid ≤ table.length) :
    ∃ hj : mid - 1 < table.length, entryBefore table mid = some table[mid - 1] := by
  cases mid with
  | zero => omega
  | succ mid => exact ⟨by omega, List.getElem?_eq_getElem (by omega)⟩

theorem scanDown_spec {table : List α} {val : α} {m first : Nat} (hm : m ≤ table.length)
    (down : Downward table val)
    (below : ∀ j (hj : j < table.length), j < first → table[j] < val)
    {mid : Nat} (hfirst : first ≤ mid) (hmid : mid ≤ m)
    (above : ∀ j (hj : j < table.length), mid ≤ j → j < m → ¬ table[j] < val) :
    ∃ r, scanDown table val first mid = some r ∧ Turns table val m r := by
  induction mid with
  | zero => exact ⟨0, rfl, Nat.zero_le _, fun j _ h => absurd h (Nat.not_lt_zero j), above⟩
  | succ mid ih =>
    by_cases hlt : first < mid + 1
    · obtain ⟨hj, he⟩ : ∃ hj : mid < table.length,
          entryBefore table (mid + 1) = some table[mid] :=
        entryBefore_eq (Nat.succ_pos mid) (Nat.le_trans hmid hm)
      by_cases hb : table[mid] < val
      · refine ⟨mid + 1, ?_, hmid, ?_, above⟩
        · simp only [scanDown, if_pos hlt, he, if_pos hb]
        · intro j hj' hjm
          exact down mid j hj hj' (by omega) hb
      · have above' : ∀ j (hj : j < table.length), mid ≤ j → j < m → ¬ table[j] < val := by
          intro j hj' hmj _ hbelow
          exact hb (down j mid hj' hj hmj hbelow)
        obtain ⟨r, hr, turns⟩ := ih (by omega) (by omega) above'
        refine ⟨r, ?_, turns⟩
        simp only [scanDown, if_pos hlt, he, if_neg hb, hr]
    · refine ⟨mid + 1, by simp only [scanDown, if_neg hlt], hmid, ?_, above⟩
      intro j hj' hjm
      exact below j hj' (by omega)

/-- The midpoint of a nonempty bracket is one of its candidates. -/
theorem midpoint_bounds {first last : Nat} (h : first < last) :
    first ≤ first / 2 + last / 2 ∧ first / 2 + last / 2 < last := by
  omega

omit [DecidableLT α] in
theorem Bracket.raise {table : List α} {val : α} {m first last mid : Nat}
    (inv : Bracket table val m first last) (down : Downward table val)
    (hlt : mid < last) (hj : mid - 1 < table.length) (hb : table[mid - 1] < val) :
    Bracket table val m mid last where
  last_le := inv.last_le
  nonempty := Or.inl hlt
  below := fun j hj' hjm => down (mid - 1) j hj hj' (by omega) hb
  above := inv.above

omit [DecidableLT α] in
theorem Bracket.lower {table : List α} {val : α} {m first last mid : Nat}
    (inv : Bracket table val m first last) (down : Downward table val)
    (hgt : first < mid) (hlt : mid < last) (hj : mid - 1 < table.length)
    (hb : ¬ table[mid - 1] < val) : Bracket table val m first mid where
  last_le := Nat.le_trans (Nat.le_of_lt hlt) inv.last_le
  nonempty := Or.inl hgt
  below := inv.below
  above := fun j hj' hmj _ hbelow => hb (down j (mid - 1) hj' hj (by omega) hbelow)

theorem searchLoop_spec {table : List α} {val : α} {m : Nat} (hm : m ≤ table.length)
    (down : Downward table val) {fuel first last : Nat}
    (inv : Bracket table val m first last) (enough : last - first < fuel) :
    ∃ r, searchLoop table val fuel first last = some r ∧ Turns table val m r := by
  induction fuel generalizing first last with
  | zero => omega
  | succ fuel ih =>
    by_cases hstop : first / 2 + last / 2 = first
    · obtain ⟨r, hr, turns⟩ := scanDown_spec hm down inv.below
        (by have := inv.nonempty; omega) inv.last_le inv.above
      exact ⟨r, by simp only [searchLoop, if_pos hstop, hr], turns⟩
    · have hlt : first < last := by
        rcases inv.nonempty with h | ⟨hf, hl⟩
        · exact h
        · subst hf hl
          exact False.elim (hstop rfl)
      obtain ⟨hmid, hmid'⟩ := midpoint_bounds hlt
      have hle := inv.last_le
      have hpos : 0 < first / 2 + last / 2 := by omega
      have hlen : first / 2 + last / 2 ≤ table.length := by omega
      obtain ⟨hj, he⟩ := entryBefore_eq hpos hlen
      by_cases hb : table[first / 2 + last / 2 - 1] < val
      · obtain ⟨r, hr, turns⟩ := ih (inv.raise down hmid' hj hb) (by omega)
        exact ⟨r, by simp only [searchLoop, if_neg hstop, he, if_pos hb, hr], turns⟩
      · obtain ⟨r, hr, turns⟩ := ih (inv.lower down (by omega) hmid' hj hb) (by omega)
        exact ⟨r, by simp only [searchLoop, if_neg hstop, he, if_neg hb, hr], turns⟩

omit [LT α] [DecidableLT α] in
theorem entryBefore_prefix {table longer : List α} (h : table <+: longer) {mid : Nat} {b : α}
    (read : entryBefore table mid = some b) : entryBefore longer mid = some b := by
  cases mid with
  | zero => cases read
  | succ mid =>
    obtain ⟨hmid, rfl⟩ := List.getElem?_eq_some_iff.mp read
    exact List.getElem?_eq_some_iff.mpr ⟨by have := h.length_le; omega, (h.getElem hmid).symm⟩

theorem scanDown_prefix {table longer : List α} (h : table <+: longer) {val : α}
    {first mid r : Nat} (found : scanDown table val first mid = some r) :
    scanDown longer val first mid = some r := by
  induction mid with
  | zero => exact found
  | succ mid ih =>
    simp only [scanDown] at found ⊢
    split
    · rename_i hlt
      rw [if_pos hlt] at found
      cases he : entryBefore table (mid + 1) with
      | none => simp [he] at found
      | some b =>
        simp only [he, entryBefore_prefix h he] at found ⊢
        split
        · rwa [if_pos ‹_›] at found
        · rw [if_neg ‹_›] at found
          exact ih found
    · rwa [if_neg ‹_›] at found

/-- What is found without reading behind a prefix is found in every longer table. -/
theorem searchLoop_prefix {table longer : List α} (h : table <+: longer) {val : α}
    {fuel first last r : Nat} (found : searchLoop table val fuel first last = some r) :
    searchLoop longer val fuel first last = some r := by
  induction fuel generalizing first last with
  | zero => cases found
  | succ fuel ih =>
    simp only [searchLoop] at found ⊢
    split
    · rw [if_pos ‹_›] at found
      exact scanDown_prefix h found
    · rw [if_neg ‹_›] at found
      cases he : entryBefore table (first / 2 + last / 2) with
      | none => simp [he] at found
      | some b =>
        simp only [he, entryBefore_prefix h he] at found ⊢
        split
        · rw [if_pos ‹_›] at found
          exact ih found
        · rw [if_neg ‹_›] at found
          exact ih found

/-- The search over all entries of a table counts those below the value. -/
theorem searchLoop_eq_countP {table : List α} {val : α} (down : Downward table val) {fuel : Nat}
    (enough : table.length < fuel) :
    searchLoop table val fuel 0 table.length =
      some (table.countP (fun b => decide (b < val))) := by
  have start : Bracket table val table.length 0 table.length := by
    refine ⟨Nat.le_refl _, by omega, ?_, ?_⟩
    · intro j _ h
      exact absurd h (Nat.not_lt_zero j)
    · intro j _ h h'
      omega
  obtain ⟨r, hr, hle, below, above⟩ := searchLoop_spec (Nat.le_refl _) down start (by omega)
  rw [hr, RankCounting.countP_eq_of_turn hle]
  · intro i hi him
    exact decide_eq_true (below i hi him)
  · intro i hi him
    rw [decide_eq_true_iff]
    exact above i hi him hi

omit [DecidableLT α] in
theorem Downward.of_prefix {table longer : List α} {val : α} (down : Downward longer val)
    (h : table <+: longer) : Downward table val := by
  intro i j hi hj hji hb
  have hlen := h.length_le
  have hi' := h.getElem hi
  have hj' := h.getElem hj
  rw [hi'] at hb
  rw [hj']
  exact down i j (by omega) (by omega) hji hb

/-- The search finds what a count over all searched entries finds. -/
theorem bucketSearch_eq_countP {table : List α} {val : α} (hpos : 0 < table.length)
    (down : Downward table val) :
    bucketSearch table val =
      some ((table.take (table.length - 1)).countP (fun b => decide (b < val))) := by
  have cut : table.take (table.length - 1) <+: table := List.take_prefix _ _
  have hlen : (table.take (table.length - 1)).length = table.length - 1 := by
    rw [List.length_take]
    omega
  have found := searchLoop_eq_countP (down.of_prefix cut)
    (by rw [hlen]; exact Nat.sub_lt hpos Nat.one_pos)
  rw [hlen] at found
  exact searchLoop_prefix cut found

end BucketSearch
