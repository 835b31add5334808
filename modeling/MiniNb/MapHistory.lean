import Mathlib.Data.List.Basic
import Mathlib.Data.List.Induction
import Mathlib.Logic.Function.Basic

/-!
# Histories of a map

A map is changed by replacing and removing values, one key at a time. After a
history of such operations, the last one on a key decides what the map holds
there. A store implements a map when each of its operations changes its view
as the operation on the map does; then a whole history does.
-/

namespace MapHistory

universe u v w x
variable {κ : Type u} {ν : Type v}

inductive Op (κ : Type u) (ν : Type v) where
  | replace (key : κ) (val : ν)
  | remove (key : κ)

def Op.key : Op κ ν → κ
  | .replace key _ => key
  | .remove key => key

/-- What the map holds at the key behind the operation. -/
def Op.value : Op κ ν → Option ν
  | .replace _ val => some val
  | .remove _ => none

variable [DecidableEq κ]

def apply (m : κ → Option ν) (op : Op κ ν) : κ → Option ν := Function.update m op.key op.value

/-- The map behind a history that began with nothing. -/
def contents (ops : List (Op κ ν)) : κ → Option ν := ops.foldl apply (fun _ => none)

/-- The last operation on a key. -/
def lastOn (key : κ) (ops : List (Op κ ν)) : Option (Op κ ν) :=
  (ops.filter (fun op => op.key = key)).getLast?

theorem contents_concat (ops : List (Op κ ν)) (op : Op κ ν) :
    contents (ops ++ [op]) = apply (contents ops) op := by
  rw [contents, List.foldl_append]
  rfl

theorem lastOn_concat (key : κ) (ops : List (Op κ ν)) (op : Op κ ν) :
    lastOn key (ops ++ [op]) = if op.key = key then some op else lastOn key ops := by
  unfold lastOn
  rw [List.filter_append]
  by_cases h : op.key = key
  · rw [if_pos h, List.filter_cons_of_pos (by simpa using h)]
    exact List.getLast?_concat
  · rw [if_neg h, List.filter_cons_of_neg (by simpa using h)]
    exact congrArg _ (List.append_nil _)

theorem contents_eq_lastOn (ops : List (Op κ ν)) (key : κ) :
    contents ops key = (lastOn key ops).bind Op.value := by
  induction ops using List.reverseRecOn with
  | nil => rfl
  | append_singleton ops op ih =>
    rw [contents_concat, lastOn_concat, apply]
    by_cases h : op.key = key
    · rw [if_pos h, ← h, Function.update_self]
      rfl
    · rw [if_neg h, Function.update_of_ne (Ne.symm h), ih]

theorem contents_eq_some_iff {ops : List (Op κ ν)} {key : κ} {val : ν} :
    contents ops key = some val ↔ lastOn key ops = some (.replace key val) := by
  rw [contents_eq_lastOn]
  cases hlast : lastOn key ops with
  | none => simp
  | some op =>
    have hkey : op.key = key := by
      have hmem := List.mem_of_getLast? hlast
      exact of_decide_eq_true (List.mem_filter.mp hmem).2
    cases op with
    | replace key' val' =>
      cases hkey
      simp [Op.value, Op.key]
    | remove key' => simp [Op.value]

/-- The rule for stores: steps that act on the view as the operations act on
the map lead to the map of the history. -/
theorem view_foldl {σ : Type w} {step : σ → Op κ ν → σ} {view : σ → κ → Option ν}
    {ok : Op κ ν → Prop} (keeps : ∀ s op, ok op → view (step s op) = apply (view s) op)
    {ops : List (Op κ ν)} (oks : ∀ op ∈ ops, ok op) {s : σ} (empty : view s = fun _ => none) :
    view (ops.foldl step s) = contents ops := by
  induction ops using List.reverseRecOn with
  | nil => exact empty
  | append_singleton ops op ih =>
    have before := ih fun op' h => oks op' (List.mem_append_left _ h)
    rw [List.foldl_append, contents_concat, ← before]
    exact keeps _ op (oks op (List.mem_append_right _ (List.mem_singleton_self op)))

/-- The rule for histories in which some calls write nothing: only the written
operations reach the map, whatever it held before. -/
theorem view_writes {σ : Type w} {ι : Type x} {step : σ → ι → σ} {view : σ → κ → Option ν}
    {write : ι → Option (Op κ ν)} {ok : ι → Prop}
    (keeps : ∀ s i, ok i → view (step s i) = (write i).elim (view s) (apply (view s)))
    {calls : List ι} (oks : ∀ i ∈ calls, ok i) (s : σ) :
    view (calls.foldl step s) = (calls.filterMap write).foldl apply (view s) := by
  induction calls generalizing s with
  | nil => rfl
  | cons i rest ih =>
    rw [List.foldl_cons, ih (fun j hj => oks j (List.mem_cons_of_mem _ hj)),
      keeps s i (oks i List.mem_cons_self), List.filterMap_cons]
    cases write i with
    | none => rfl
    | some op => rfl

/-- A key holds what its last operation left there, or what it held before. -/
theorem foldl_apply_eq (m : κ → Option ν) (ops : List (Op κ ν)) (key : κ) :
    ops.foldl apply m key = (lastOn key ops).elim (m key) Op.value := by
  induction ops using List.reverseRecOn with
  | nil => rfl
  | append_singleton ops op ih =>
    rw [List.foldl_append, lastOn_concat]
    change apply (ops.foldl apply m) op key = _
    by_cases h : op.key = key
    · rw [if_pos h, apply, ← h, Function.update_self]
      rfl
    · rw [if_neg h, apply, Function.update_of_ne (Ne.symm h), ih]

/-- Storing one value under many keys. -/
theorem foldl_replace_all (m : κ → Option ν) (keys : List κ) (val : ν) (key : κ) :
    (keys.map (fun k => Op.replace k val)).foldl apply m key =
      if key ∈ keys then some val else m key := by
  induction keys using List.reverseRecOn with
  | nil => rfl
  | append_singleton keys k ih =>
    rw [List.map_append, List.foldl_append]
    change apply ((keys.map (fun k => Op.replace k val)).foldl apply m) (.replace k val) key = _
    by_cases h : key = k
    · rw [apply, h]
      simp [Op.key, Op.value]
    · rw [apply, Op.key, Function.update_of_ne h, ih]
      simp [h]

end MapHistory
