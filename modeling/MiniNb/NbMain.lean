import MiniNb.NbEngine

/-!
# The command line

The translation of `mininb.c`. `getopt_long` delivers the options in order, each
one by its letter and with its argument, so the command line is a list of such
pairs. Numbers are converted by `atol` and stored as they are. The usage text
and the summary printed before the action are left out.
-/

namespace MiniNb

universe u v

/-- The decimal number at the start of a text. -/
def leadingDigits (text : List Char) : Nat :=
  (text.takeWhile Char.isDigit).foldl (fun n c => 10 * n + (c.toNat - 48)) 0

/-- White space in the "C" locale. -/
def isSpace (c : Char) : Bool := c.toNat = 32 || (9 ≤ c.toNat && c.toNat ≤ 13)

/-- `atol`: white space, a sign, digits. A number out of range is replaced by
the nearest `long`, and a text without digits is zero. -/
def atol (text : String) : Int :=
  match text.toList.dropWhile isSpace with
  | '-' :: rest => max (-2 ^ 63) (-(leadingDigits rest : Int))
  | '+' :: rest => min (2 ^ 63 - 1) (leadingDigits rest)
  | rest => min (2 ^ 63 - 1) (leadingDigits rest)

/-- What is stored in a `size_t` field. -/
def atolSize (text : String) : UInt64 := UInt64.ofInt (atol text)

inductive NbAction where
  | get
  | put
  | shuffle
  deriving DecidableEq

/-- `ACTIONS`, by name. -/
def nbActions : List (String × NbAction) := [("get", .get), ("put", .put), ("shuffle", .shuffle)]

/-- The entry of `ACTIONS` with this name. -/
def namedAction (name : String) : Option NbAction :=
  (nbActions.filter (fun a => a.1 = name)).getLast?.map (fun a => a.2)

/-- The global `opts`. -/
def defaultOpts : NbOpts where
  keyLen := 16
  valLen := 100
  reportInterval := 10000
  count := 100000
  path := "./nb"
  driver := "leveldb"
  keysFilename := "keys.bin"

structure MainState where
  action : Option NbAction
  opts : NbOpts

/-- One round of the option loop. An option that is not known ends the program;
an unknown action is noticed only behind the loop. -/
def mainOption (s : MainState) : Char × String → Option MainState
  | ('a', arg) => some { s with action := namedAction arg }
  | ('p', arg) => some { s with opts := { s.opts with path := arg } }
  | ('d', arg) => some { s with opts := { s.opts with driver := arg } }
  | ('k', arg) => some { s with opts := { s.opts with keyLen := atolSize arg } }
  | ('v', arg) => some { s with opts := { s.opts with valLen := atolSize arg } }
  | ('i', arg) => some { s with opts := { s.opts with keysFilename := arg } }
  | ('r', arg) => some { s with opts := { s.opts with reportInterval := atolSize arg } }
  | ('c', arg) => some { s with opts := { s.opts with count := atolSize arg } }
  | _ => none

/-- The action and the options of a command line that is accepted. -/
def mainOptions (args : List (Char × String)) : Option (NbAction × NbOpts) := do
  let s ← args.foldlM mainOption ⟨some .get, defaultOpts⟩
  let action ← s.action
  return (action, s.opts)

/-- The count on a command line: the last one given, or the default. -/
def requestedCount (args : List (Char × String)) : UInt64 :=
  args.foldl (fun count a => if a.1 = 'c' then atolSize a.2 else count) defaultOpts.count

theorem mainOption_count {s t : MainState} {a : Char × String} (h : mainOption s a = some t) :
    t.opts.count = if a.1 = 'c' then atolSize a.2 else s.opts.count := by
  unfold mainOption at h
  split at h <;> cases h <;> rfl

theorem foldlM_count {args : List (Char × String)} {s t : MainState}
    (h : args.foldlM mainOption s = some t) :
    t.opts.count =
      args.foldl (fun count a => if a.1 = 'c' then atolSize a.2 else count) s.opts.count := by
  induction args generalizing s with
  | nil =>
    cases h
    rfl
  | cons a rest ih =>
    rw [List.foldlM_cons] at h
    obtain ⟨next, hnext, hrest⟩ := Option.bind_eq_some_iff.mp h
    rw [ih hrest, mainOption_count hnext, List.foldl_cons]

/-- The number of operations is the requested count. -/
theorem mainOptions_count {args : List (Char × String)} {action : NbAction} {opts : NbOpts}
    (parsed : mainOptions args = some (action, opts)) : opts.count = requestedCount args := by
  obtain ⟨s, hs, hrest⟩ := Option.bind_eq_some_iff.mp parsed
  obtain ⟨action', _, heq⟩ := Option.bind_eq_some_iff.mp hrest
  cases heq
  exact foldlM_count hs

variable {K : Type u} [Field K] [LinearOrder K] [IsStrictOrderedRing K] [FloorSemiring K]
variable {Db : Type v}

def actionGet (calls : EngineCalls K Db) (opts : NbOpts) : EngineResult K Db :=
  nbEngineRun calls opts .get

def actionPut (calls : EngineCalls K Db) (opts : NbOpts) : EngineResult K Db :=
  nbEngineRun calls opts .put

def actionShuffle (calls : ShuffleCalls) (opts : NbOpts) : Except Fault Int :=
  match nbRandomShuffle calls opts.keyLen opts.count with
  | .error fault => .error fault
  | .ok result => .ok (if result.rc ≠ 0 then -1 else 0)

/-- What `main` returns; nothing when the process ended inside the action. -/
def nbMain (calls : EngineCalls K Db) (shuffle : String → ShuffleCalls)
    (args : List (Char × String)) : Option Int :=
  match mainOptions args with
  | none => some (-1)
  | some (.get, opts) => (actionGet calls opts).rc
  | some (.put, opts) => (actionPut calls opts).rc
  | some (.shuffle, opts) =>
    match actionShuffle (shuffle opts.keysFilename) opts with
    | .error _ => none
    | .ok rc => some rc

end MiniNb
