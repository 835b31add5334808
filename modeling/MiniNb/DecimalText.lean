import MiniNb.RoundedDouble
import Mathlib.Data.List.TakeWhile
import Mathlib.Tactic.SplitIfs

/-!
# Numbers printed in columns

A number is printed with a fixed number of decimals, rounded to the nearest one
that has so many and to the even one of two. The text determines what was
rounded. Numbers in columns are aligned to the right and separated by literals,
and a line of them can be read back as long as no literal starts with a
character that a number may contain.
-/

namespace DecimalText

open ExactDouble RoundedDouble

universe u

/-! ## Numerals -/

theorem isDigit_toDigits (n : Nat) : ∀ c ∈ Nat.toDigits 10 n, c.isDigit = true :=
  fun _ hc => Nat.isDigit_of_mem_toDigits (by decide) (by decide) hc

theorem toDigits_inj {m n : Nat} (h : Nat.toDigits 10 m = Nat.toDigits 10 n) : m = n := by
  rw [← Nat.ofDigitChars_ten_toDigits (n := m), h, Nat.ofDigitChars_ten_toDigits]

/-- The digits behind the point, of which there are at least `d`. -/
def decimals (d n : Nat) : List Char :=
  List.replicate (d - (Nat.toDigits 10 n).length) '0' ++ Nat.toDigits 10 n

theorem decimals_inj {d m n : Nat} (h : decimals d m = decimals d n) : m = n := by
  have value : ∀ k, Nat.ofDigitChars 10 (decimals d k) 0 = k := by
    intro k
    rw [decimals, Nat.ofDigitChars_append, Nat.ofDigitChars_replicate_zero, Nat.mul_zero,
      Nat.ofDigitChars_ten_toDigits]
  rw [← value m, h, value n]

/-- Two texts that are cut at their first character that fails a test. -/
theorem cut_inj {α : Type u} (p : α → Bool) {a a' b b' : List α} {x x' : α}
    (ha : ∀ c ∈ a, p c = true) (ha' : ∀ c ∈ a', p c = true) (hx : p x = false) (hx' : p x' = false)
    (h : a ++ x :: b = a' ++ x' :: b') : a = a' ∧ x :: b = x' :: b' := by
  have first := congrArg (List.takeWhile p) h
  rw [List.takeWhile_append_of_pos ha, List.takeWhile_append_of_pos ha',
    List.takeWhile_cons_of_neg (by rw [hx]; exact Bool.false_ne_true),
    List.takeWhile_cons_of_neg (by rw [hx']; exact Bool.false_ne_true),
    List.append_nil, List.append_nil] at first
  subst first
  exact ⟨rfl, List.append_cancel_left h⟩

section Fixed
variable {K : Type u} [Field K] [LinearOrder K] [FloorSemiring K]

/-- A number with `d` decimals. -/
def fixed (d : Nat) (x : K) : List Char :=
  let n := nearest (x * (10 ^ d : Nat))
  if d = 0 then Nat.toDigits 10 n
  else Nat.toDigits 10 (n / 10 ^ d) ++ '.' :: decimals d (n % 10 ^ d)

theorem fixed_inj {d : Nat} {x y : K} (h : fixed d x = fixed d y) :
    nearest (x * 10 ^ d) = nearest (y * 10 ^ d) := by
  rw [fixed, fixed, Nat.cast_pow, Nat.cast_ofNat] at h
  split at h
  · exact toDigits_inj h
  · obtain ⟨whole, rest⟩ :=
      cut_inj Char.isDigit (isDigit_toDigits _) (isDigit_toDigits _) rfl rfl h
    have fraction := decimals_inj (List.cons.inj rest).2
    rw [← Nat.div_add_mod (nearest (x * 10 ^ d)) (10 ^ d), toDigits_inj whole, fraction,
      Nat.div_add_mod]

end Fixed

/-- The characters that the text of a number may contain. -/
def isNumeral (c : Char) : Bool := c.isDigit || ['.', '-', 'i', 'n', 'f', 'a'].contains c

def Numeral (text : List Char) : Prop := text ≠ [] ∧ ∀ c ∈ text, isNumeral c = true

theorem numeral_of_all {text : List Char} (h : (!text.isEmpty && text.all isNumeral) = true) :
    Numeral text := by
  rw [Bool.and_eq_true, Bool.not_eq_true', List.isEmpty_eq_false_iff, List.all_eq_true] at h
  exact h

theorem numeral_toDigits (n : Nat) : Numeral (Nat.toDigits 10 n) :=
  ⟨Nat.toDigits_ne_nil, fun c hc => by rw [isNumeral, isDigit_toDigits n c hc, Bool.true_or]⟩

theorem Numeral.append {a b : List Char} (ha : Numeral a) (hb : ∀ c ∈ b, isNumeral c = true) :
    Numeral (a ++ b) := by
  refine ⟨fun h => ha.1 (List.append_eq_nil_iff.mp h).1, ?_⟩
  intro c hc
  rcases List.mem_append.mp hc with hc | hc
  · exact ha.2 c hc
  · exact hb c hc

theorem numeral_int (i : Int) : Numeral (toString i).toList := by
  rw [Int.toString_eq_repr, Int.repr_eq_if]
  split
  · rw [Nat.toList_repr]
    exact numeral_toDigits _
  · rw [String.toList_append, Nat.toList_repr]
    exact (numeral_of_all (by decide)).append (numeral_toDigits _).2

theorem numeral_decimals (d n : Nat) : ∀ c ∈ decimals d n, isNumeral c = true := by
  intro c hc
  rcases List.mem_append.mp hc with hc | hc
  · rw [List.eq_of_mem_replicate hc]
    rfl
  · exact (numeral_toDigits n).2 c hc

section Double
variable {K : Type u} [Field K] [LinearOrder K] [FloorSemiring K]

theorem numeral_fixed (d : Nat) (x : K) : Numeral (fixed d x) := by
  rw [fixed]
  split
  · exact numeral_toDigits _
  · refine (numeral_toDigits _).append ?_
    intro c hc
    rcases List.mem_cons.mp hc with rfl | hc
    · rfl
    · exact numeral_decimals _ _ c hc

/-- The text of a double. The sign of an undefined result is the machine's choice. -/
def double (nanSign : Bool) (d : Nat) : Dbl K → List Char
  | .nan => if nanSign then ['-', 'n', 'a', 'n'] else ['n', 'a', 'n']
  | .negInf => ['-', 'i', 'n', 'f']
  | .posInf => ['i', 'n', 'f']
  | .fin x => if x < 0 then '-' :: fixed d (-x) else fixed d x

theorem numeral_double (nanSign : Bool) (d : Nat) (x : Dbl K) : Numeral (double nanSign d x) := by
  cases x with
  | nan =>
    rw [double]
    cases nanSign with
    | false => exact numeral_of_all (by decide)
    | true => exact numeral_of_all (by decide)
  | negInf =>
    rw [double]
    exact numeral_of_all (by decide)
  | posInf =>
    rw [double]
    exact numeral_of_all (by decide)
  | fin x =>
    rw [double]
    split
    · exact Numeral.append (a := ['-']) (numeral_of_all (by decide)) (numeral_fixed d (-x)).2
    · exact numeral_fixed d x

theorem double_fin {x : K} (nonneg : 0 ≤ x) (nanSign : Bool) (d : Nat) :
    double nanSign d (.fin x) = fixed d x := by
  rw [double, if_neg (not_lt.mpr nonneg)]

theorem fixed_ne_inf (d : Nat) (x : K) : fixed d x ≠ ['i', 'n', 'f'] := by
  intro h
  rw [fixed] at h
  split at h
  · have digit := isDigit_toDigits (nearest (x * (10 ^ d : Nat))) 'i'
      (by rw [h]; exact List.mem_cons_self)
    cases digit
  · have point : '.' ∈ ['i', 'n', 'f'] := by
      rw [← h]
      exact List.mem_append_right _ List.mem_cons_self
    revert point
    decide

/-- A whole number, or infinity. -/
def whole : Option Nat → Dbl K
  | none => .posInf
  | some n => .fin n

theorem double_whole [IsStrictOrderedRing K] (nanSign : Bool) (n : Nat) :
    double nanSign 0 (whole (some n) : Dbl K) = Nat.toDigits 10 n := by
  rw [whole, double_fin (Nat.cast_nonneg n), fixed, if_pos rfl, pow_zero, Nat.cast_one, mul_one,
    nearest_natCast]

theorem double_whole_inj [IsStrictOrderedRing K] {nanSign : Bool} {m n : Option Nat}
    (h : double nanSign 0 (whole m : Dbl K) = double nanSign 0 (whole n : Dbl K)) : m = n := by
  have infinite : ∀ k : Nat,
      double nanSign 0 (whole none : Dbl K) ≠ double nanSign 0 (whole (some k) : Dbl K) := by
    intro k h
    rw [whole, whole, double_fin (Nat.cast_nonneg k)] at h
    exact fixed_ne_inf 0 (k : K) h.symm
  cases m with
  | none =>
    cases n with
    | none => rfl
    | some n => exact absurd h (infinite n)
  | some m =>
    cases n with
    | none => exact absurd h.symm (infinite m)
    | some n =>
      rw [double_whole, double_whole] at h
      rw [toDigits_inj h]

end Double

/-! ## Columns -/

/-- At least `width` characters, aligned to the right. -/
def pad (width : Nat) (text : List Char) : List Char :=
  List.replicate (width - text.length) ' ' ++ text

/-- At least `width` characters, aligned to the left. -/
def padRight (width : Nat) (text : List Char) : List Char :=
  text ++ List.replicate (width - text.length) ' '

/-- A text in a column, and the literal behind it. -/
structure Column where
  width : Nat
  text : List Char
  behind : String

def Column.print (column : Column) : List Char :=
  pad column.width column.text ++ column.behind.toList

def printColumns (columns : List Column) : List Char := columns.flatMap Column.print

/-- A literal that ends a number and stays on the line. -/
def separates (literal : String) : Bool :=
  (literal.toList.head?.any fun c => !isNumeral c) && !literal.toList.contains '\n'

theorem separates_cons {literal : String} (h : separates literal = true) :
    ∃ c rest, literal.toList = c :: rest ∧ isNumeral c = false := by
  rw [separates, Bool.and_eq_true] at h
  cases htext : literal.toList with
  | nil =>
    rw [htext] at h
    cases h.1
  | cons c rest =>
    rw [htext, List.head?_cons, Option.any_some, Bool.not_eq_true'] at h
    exact ⟨c, rest, rfl, h.1⟩

/-- A number with an end that is visible. -/
structure Column.Clear (column : Column) : Prop where
  numeral : Numeral column.text
  ends : separates column.behind = true

theorem clear_toDigits (width n : Nat) {literal : String} (ends : separates literal = true) :
    Column.Clear ⟨width, Nat.toDigits 10 n, literal⟩ := ⟨numeral_toDigits n, ends⟩

theorem clear_int (width : Nat) (i : Int) {literal : String} (ends : separates literal = true) :
    Column.Clear ⟨width, (toString i).toList, literal⟩ := ⟨numeral_int i, ends⟩

theorem clear_double {K : Type u} [Field K] [LinearOrder K] [FloorSemiring K] (nanSign : Bool)
    (width d : Nat) (x : Dbl K) {literal : String} (ends : separates literal = true) :
    Column.Clear ⟨width, double nanSign d x, literal⟩ := ⟨numeral_double nanSign d x, ends⟩

theorem dropWhile_pad {text : List Char} (numeral : Numeral text) (width : Nat) (rest : List Char) :
    (pad width text ++ rest).dropWhile (fun c => c = ' ') = text ++ rest := by
  obtain ⟨nonempty, numeral⟩ := numeral
  rw [pad, List.append_assoc, List.dropWhile_append_of_pos]
  · cases text with
    | nil => exact absurd rfl nonempty
    | cons c text =>
      have visible : ¬ c = ' ' := by
        rintro rfl
        exact absurd (numeral ' ' List.mem_cons_self) (by decide)
      rw [List.cons_append, List.dropWhile_cons_of_neg (by simpa using visible)]
  · intro c hc
    simp [List.eq_of_mem_replicate hc]

theorem Column.print_inj {a b : Column} (ha : a.Clear) (hb : b.Clear) {r s : List Char}
    (behind : a.behind = b.behind) (h : a.print ++ r = b.print ++ s) :
    a.text = b.text ∧ r = s := by
  obtain ⟨c, rest, hends, hc⟩ := separates_cons ha.ends
  have visible := congrArg (List.dropWhile fun c => c = ' ') h
  rw [print, print, List.append_assoc, List.append_assoc, dropWhile_pad ha.numeral,
    dropWhile_pad hb.numeral, ← behind, hends] at visible
  obtain ⟨text, tail⟩ := cut_inj isNumeral ha.numeral.2 hb.numeral.2 hc hc visible
  exact ⟨text, List.append_cancel_left (List.cons.inj tail).2⟩

/-- A line of clear columns can be read back. -/
theorem printColumns_inj {as bs : List Column} (has : ∀ a ∈ as, a.Clear) (hbs : ∀ b ∈ bs, b.Clear)
    {r s : List Char} (behind : as.map Column.behind = bs.map Column.behind)
    (h : printColumns as ++ r = printColumns bs ++ s) :
    as.map Column.text = bs.map Column.text ∧ r = s := by
  induction as generalizing bs with
  | nil =>
    cases bs with
    | nil => exact ⟨rfl, h⟩
    | cons b bs => cases behind
  | cons a as ih =>
    cases bs with
    | nil => cases behind
    | cons b bs =>
      obtain ⟨first, rest⟩ := List.cons.inj behind
      rw [printColumns, printColumns, List.flatMap_cons, List.flatMap_cons, List.append_assoc,
        List.append_assoc] at h
      obtain ⟨text, tail⟩ := Column.print_inj (has a List.mem_cons_self)
        (hbs b List.mem_cons_self) first h
      obtain ⟨texts, rest'⟩ := ih (fun a ha => has a (List.mem_cons_of_mem _ ha))
        (fun b hb => hbs b (List.mem_cons_of_mem _ hb)) rest tail
      rw [List.map_cons, List.map_cons, text, texts]
      exact ⟨rfl, rest'⟩

/-! ## Lines -/

def Inline (text : List Char) : Prop := '\n' ∉ text

instance (text : List Char) : Decidable (Inline text) := inferInstanceAs (Decidable (¬ _))

section Inline
variable {a b : List Char}

theorem Inline.append (ha : Inline a) (hb : Inline b) : Inline (a ++ b) := by
  rw [Inline, List.mem_append, not_or]
  exact ⟨ha, hb⟩

theorem Numeral.inline (numeral : Numeral a) : Inline a :=
  fun h => absurd (numeral.2 _ h) (by decide)

theorem inline_replicate {c : Char} (other : c ≠ '\n') (n : Nat) : Inline (List.replicate n c) :=
  fun h => other (List.eq_of_mem_replicate h).symm

theorem Inline.pad (ha : Inline a) (width : Nat) : Inline (pad width a) :=
  (inline_replicate (by decide) _).append ha

theorem Inline.padRight (ha : Inline a) (width : Nat) : Inline (padRight width a) :=
  ha.append (inline_replicate (by decide) _)

theorem inline_columns {columns : List Column} (clear : ∀ c ∈ columns, c.Clear) :
    Inline (printColumns columns) := by
  intro newline
  obtain ⟨c, hc, hprint⟩ := List.mem_flatMap.mp newline
  have behind : Inline c.behind.toList := by
    have ends := (clear c hc).ends
    rw [separates, Bool.and_eq_true, Bool.not_eq_true', List.contains_eq_mem,
      decide_eq_false_iff_not] at ends
    exact ends.2
  exact ((clear c hc).numeral.inline.pad c.width).append behind hprint

end Inline

def printLines (lines : List (List Char)) : List Char := lines.flatMap (fun line => line ++ ['\n'])

/-- A text that ends every line determines its lines. -/
theorem printLines_inj {as bs : List (List Char)} (has : ∀ a ∈ as, Inline a)
    (hbs : ∀ b ∈ bs, Inline b) (h : printLines as = printLines bs) : as = bs := by
  induction as generalizing bs with
  | nil =>
    cases bs with
    | nil => rfl
    | cons b bs => simp [printLines] at h
  | cons a as ih =>
    cases bs with
    | nil => simp [printLines] at h
    | cons b bs =>
      have inside : ∀ {l : List Char}, Inline l → ∀ c ∈ l, (c != '\n') = true := by
        intro l hl c hc
        exact bne_iff_ne.mpr fun h => hl (h ▸ hc)
      rw [printLines, printLines, List.flatMap_cons, List.flatMap_cons, List.append_assoc,
        List.append_assoc, List.singleton_append, List.singleton_append] at h
      obtain ⟨first, rest⟩ := cut_inj (fun c => c != '\n') (inside (has a List.mem_cons_self))
        (inside (hbs b List.mem_cons_self)) rfl rfl h
      rw [first, ih (fun a ha => has a (List.mem_cons_of_mem _ ha))
        (fun b hb => hbs b (List.mem_cons_of_mem _ hb)) (List.cons.inj rest).2]

end DecimalText
