import MiniNb.NbMain
import Mathlib.Data.List.TakeWhile

/-!
# What a command line means

The option loop overwrites one field of the settings for each option it meets,
and looks at the action only behind the loop. A command line is therefore
accepted if and only if each of its letters is known and the last action on it
has a name, and each field is what its last option says. The numbers go through
`atol`, which has a sign, to fields that have none: those from 2^63 on can be
given as negative numbers only.
-/

namespace CommandLine

open MiniNb

/-! ## Numbers -/

theorem leadingDigits_digits {digits : List Char} (all : ∀ c ∈ digits, c.isDigit = true) :
    leadingDigits digits = Nat.ofDigitChars 10 digits 0 := by
  rw [leadingDigits, List.takeWhile_eq_self_iff.mpr all, Nat.ofDigitChars_eq_foldl]
  rfl

theorem isDigit_bounds {c : Char} (digit : c.isDigit = true) : 48 ≤ c.toNat ∧ c.toNat ≤ 57 := by
  rw [Char.isDigit, Bool.and_eq_true, decide_eq_true_eq, decide_eq_true_eq] at digit
  exact ⟨UInt32.le_iff_toNat_le.mp digit.1, UInt32.le_iff_toNat_le.mp digit.2⟩

theorem isSpace_digit {c : Char} (digit : c.isDigit = true) : isSpace c = false := by
  obtain ⟨low, high⟩ := isDigit_bounds digit
  rw [isSpace, Bool.or_eq_false_iff, Bool.and_eq_false_iff, decide_eq_false_iff_not,
    decide_eq_false_iff_not, decide_eq_false_iff_not]
  omega

theorem leadingDigits_toDigits (n : Nat) : leadingDigits (Nat.toDigits 10 n) = n := by
  rw [leadingDigits_digits fun c hc => Nat.isDigit_of_mem_toDigits (by decide) (by decide) hc,
    Nat.ofDigitChars_ten_toDigits]

/-- A number without a sign is read back up to the largest `long`. -/
theorem atol_toString (n : Nat) : atol (toString n) = min (2 ^ 63 - 1) (n : Int) := by
  have digits := leadingDigits_toDigits n
  have first : ∀ c ∈ Nat.toDigits 10 n, c.isDigit = true :=
    fun c hc => Nat.isDigit_of_mem_toDigits (by decide) (by decide) hc
  rw [atol, Nat.toString_eq_repr, Nat.toList_repr]
  cases htext : Nat.toDigits 10 n with
  | nil => exact absurd htext Nat.toDigits_ne_nil
  | cons c rest =>
    rw [htext] at digits first
    have digit := first c List.mem_cons_self
    rw [List.dropWhile_cons_of_neg (by rw [isSpace_digit digit]; exact Bool.false_ne_true)]
    obtain ⟨low, high⟩ := isDigit_bounds digit
    split
    · rename_i heq
      cases heq
      exact absurd low (by decide)
    · rename_i heq
      cases heq
      exact absurd low (by decide)
    · rw [digits]

/-- A number with a minus sign is read back down to the smallest `long`. -/
theorem atol_neg (n : Nat) : atol ("-" ++ toString n) = max (-2 ^ 63) (-(n : Int)) := by
  have text : ("-" ++ toString n).toList = '-' :: Nat.toDigits 10 n := by
    rw [String.toList_append, Nat.toString_eq_repr, Nat.toList_repr]
    rfl
  rw [atol, text, List.dropWhile_cons_of_neg (by decide)]
  change max _ (-(leadingDigits (Nat.toDigits 10 n) : Int)) = _
  rw [leadingDigits_toDigits]

/-- A way to write a `size_t` so that `atol` reads it. -/
def sizeArg (n : UInt64) : String :=
  if n.toNat < 2 ^ 63 then toString n.toNat else "-" ++ toString (2 ^ 64 - n.toNat)

theorem ofInt_toNat {i : Int} {n : UInt64} (congruent : i % 2 ^ 64 = n.toNat) :
    UInt64.ofInt i = n := by
  rw [UInt64.ofInt, congruent, Int.toNat_natCast, UInt64.ofNat_toNat]

theorem atolSize_sizeArg (n : UInt64) : atolSize (sizeArg n) = n := by
  have below := n.toNat_lt
  rw [atolSize, sizeArg]
  split
  · rename_i small
    rw [atol_toString]
    exact ofInt_toNat (by omega)
  · rename_i large
    rw [atol_neg]
    exact ofInt_toNat (by omega)

/-! ## Options -/

/-- The argument of the last option with this letter. -/
def given (letter : Char) (args : List (Char × String)) : Option String :=
  (args.filter (fun a => a.1 = letter)).getLast?.map (fun a => a.2)

theorem given_snoc (letter : Char) (args : List (Char × String)) (a : Char × String) :
    given letter (args ++ [a]) = if a.1 = letter then some a.2 else given letter args := by
  rw [given, List.filter_append]
  by_cases h : a.1 = letter
  · rw [List.filter_cons_of_pos (by simpa using h), List.filter_nil, List.getLast?_append,
      List.getLast?_singleton, if_pos h]
    rfl
  · rw [List.filter_cons_of_neg (by simpa using h), List.filter_nil, List.append_nil, if_neg h,
      given]

def optionLetters : List Char := ['a', 'p', 'd', 'k', 'v', 'i', 'r', 'c']

def givenSize (letter : Char) (args : List (Char × String)) (default : UInt64) : UInt64 :=
  ((given letter args).map atolSize).getD default

/-- What the options mean, field by field. -/
def settings (args : List (Char × String)) : MainState where
  action := ((given 'a' args).map namedAction).getD (some .get)
  opts :=
    { keyLen := givenSize 'k' args defaultOpts.keyLen
      valLen := givenSize 'v' args defaultOpts.valLen
      reportInterval := givenSize 'r' args defaultOpts.reportInterval
      count := givenSize 'c' args defaultOpts.count
      path := (given 'p' args).getD defaultOpts.path
      driver := (given 'd' args).getD defaultOpts.driver
      keysFilename := (given 'i' args).getD defaultOpts.keysFilename }

/-- One option more. -/
theorem mainOption_settings (args : List (Char × String)) (a : Char × String) :
    mainOption (settings args) a =
      if a.1 ∈ optionLetters then some (settings (args ++ [a])) else none := by
  obtain ⟨letter, arg⟩ := a
  by_cases known : letter ∈ optionLetters
  · rw [if_pos known]
    simp only [settings, givenSize, given_snoc]
    simp only [optionLetters, List.mem_cons, List.not_mem_nil, or_false] at known
    rcases known with rfl | rfl | rfl | rfl | rfl | rfl | rfl | rfl <;> rfl
  · rw [if_neg known]
    unfold mainOption
    split <;> rename_i heq <;> first | rfl | (cases heq; exact absurd (by decide) known)

def optionsKnown (args : List (Char × String)) : Bool := args.all (fun a => a.1 ∈ optionLetters)

theorem foldlM_settings (args : List (Char × String)) :
    args.foldlM mainOption ⟨some .get, defaultOpts⟩ =
      if optionsKnown args then some (settings args) else none := by
  induction args using List.reverseRecOn with
  | nil => rfl
  | append_singleton args a ih =>
    rw [List.foldlM_append, ih, optionsKnown, optionsKnown, List.all_append, List.all_cons,
      List.all_nil, Bool.and_true]
    cases args.all (fun a => a.1 ∈ optionLetters) with
    | false => rfl
    | true =>
      rw [if_pos rfl, Option.bind_eq_bind, Option.bind_some, List.foldlM_cons,
        mainOption_settings, Bool.true_and]
      by_cases known : a.1 ∈ optionLetters
      · rw [if_pos known, if_pos (decide_eq_true known)]
        rfl
      · rw [if_neg known, if_neg (fun h => known (of_decide_eq_true h))]
        rfl

/-- A command line is accepted exactly when every letter on it is known and the
last action on it, if there is one, has a name. What it means depends on the
last argument of each letter only. -/
theorem mainOptions_eq (args : List (Char × String)) :
    mainOptions args =
      if optionsKnown args then
        (settings args).action.map (fun action => (action, (settings args).opts))
      else none := by
  rw [mainOptions, foldlM_settings]
  split
  · rw [Option.bind_eq_bind, Option.bind_some]
    cases (settings args).action with
    | none => rfl
    | some action => rfl
  · rfl

/-! ## Writing a command line -/

def actionName : NbAction → String
  | .get => "get"
  | .put => "put"
  | .shuffle => "shuffle"

theorem namedAction_actionName (action : NbAction) : namedAction (actionName action) = some action := by
  cases action with
  | get => decide
  | put => decide
  | shuffle => decide

/-- One option for each setting. -/
def commandLine (action : NbAction) (opts : NbOpts) : List (Char × String) :=
  [('a', actionName action), ('p', opts.path), ('d', opts.driver), ('k', sizeArg opts.keyLen),
    ('v', sizeArg opts.valLen), ('i', opts.keysFilename), ('r', sizeArg opts.reportInterval),
    ('c', sizeArg opts.count)]

/-- In any order and behind anything, the only option with a letter decides. -/
theorem given_of_perm {letter : Char} {arg : String} {line args : List (Char × String)}
    (only : line.filter (fun a => a.1 = letter) = [(letter, arg)]) (order : args.Perm line)
    (before : List (Char × String)) : given letter (before ++ args) = some arg := by
  have same := order.filter (fun a => a.1 = letter)
  rw [only, List.perm_singleton] at same
  rw [given, List.filter_append, same, List.getLast?_append, List.getLast?_singleton]
  rfl

/-- Every action with any settings can be asked for. The order of the options is
free, and what stands before them makes no difference. -/
theorem mainOptions_commandLine (action : NbAction) (opts : NbOpts)
    {before args : List (Char × String)} (known : optionsKnown before = true)
    (order : args.Perm (commandLine action opts)) :
    mainOptions (before ++ args) = some (action, opts) := by
  have letters : optionsKnown (before ++ args) = true := by
    rw [optionsKnown, List.all_append, order.all_eq, Bool.and_eq_true]
    exact ⟨known, rfl⟩
  have name : given 'a' (before ++ args) = some (actionName action) :=
    given_of_perm rfl order before
  have path : given 'p' (before ++ args) = some opts.path := given_of_perm rfl order before
  have driver : given 'd' (before ++ args) = some opts.driver := given_of_perm rfl order before
  have keys : given 'i' (before ++ args) = some opts.keysFilename :=
    given_of_perm rfl order before
  have size : ∀ letter n default, given letter (before ++ args) = some (sizeArg n) →
      givenSize letter (before ++ args) default = n := by
    intro letter n default h
    rw [givenSize, h, Option.map_some, atolSize_sizeArg, Option.getD_some]
  have same : settings (before ++ args) = ⟨some action, opts⟩ := by
    rw [settings, name, path, driver, keys,
      size 'k' opts.keyLen _ (given_of_perm rfl order before),
      size 'v' opts.valLen _ (given_of_perm rfl order before),
      size 'r' opts.reportInterval _ (given_of_perm rfl order before),
      size 'c' opts.count _ (given_of_perm rfl order before), Option.map_some,
      namedAction_actionName]
    rfl
  rw [mainOptions_eq, if_pos letters, same]
  rfl

/-- All operations a `size_t` can count, behind an action that does not exist. -/
def largestOpts : NbOpts := { defaultOpts with count := 0xffffffffffffffff }

theorem mainOptions_commandLine_reversed :
    mainOptions ([('a', "scan")] ++ (commandLine .put largestOpts).reverse) =
      some (.put, largestOpts) :=
  mainOptions_commandLine .put largestOpts rfl (List.reverse_perm _)

end CommandLine
