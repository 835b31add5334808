import Mathlib.Data.List.Perm.Basic
import Mathlib.Data.List.Nodup
import Mathlib.Logic.Equiv.Basic

/-!
# Flat memory and its blocks

A memory is a list of cells. `load` and `store` copy ranges of cells and have
no result when the range does not lie inside the memory. A memory is also read
as consecutive blocks of `bs` cells, the last of which may be short.

Swapping two blocks is three copies through a spare buffer. The swap is
described by what every block holds afterwards, so the permutation facts do
not mention cells.
-/

namespace BlockMemory

universe u
variable {α : Type u}

/-- The `len` cells starting at `off`. -/
def load (mem : List α) (off len : Nat) : Option (List α) :=
  if off + len ≤ mem.length then some ((mem.drop off).take len) else none

/-- Overwrite the cells starting at `off`; the length of the memory stays. -/
def store (mem : List α) (off : Nat) (src : List α) : Option (List α) :=
  if off + src.length ≤ mem.length then
    some (mem.take off ++ (src ++ mem.drop (off + src.length)))
  else none

def block (bs i : Nat) (mem : List α) : List α := (mem.drop (bs * i)).take bs

def blocks (bs n : Nat) (mem : List α) : List (List α) :=
  (List.range n).map (fun i => block bs i mem)

@[simp] theorem length_blocks (bs n : Nat) (mem : List α) : (blocks bs n mem).length = n := by
  simp [blocks]

theorem blocks_getElem {bs n m : Nat} {mem : List α} (h : m < (blocks bs n mem).length) :
    (blocks bs n mem)[m] = block bs m mem := by
  simp [blocks]

theorem blocks_succ (bs n : Nat) (mem : List α) :
    blocks bs (n + 1) mem = blocks bs n mem ++ [block bs n mem] := by
  simp [blocks, List.range_succ]

/-- The blocks behind the first `m` are those of the rest of the memory. -/
theorem blocks_add (bs m n : Nat) (mem : List α) :
    blocks bs (m + n) mem = blocks bs m mem ++ blocks bs n (mem.drop (bs * m)) := by
  induction n with
  | zero => simp [blocks]
  | succ n ih =>
    rw [← Nat.add_assoc, blocks_succ, ih, blocks_succ, List.append_assoc, block, block,
      List.drop_drop, Nat.mul_add]

theorem load_eq_some {mem : List α} {off len : Nat} (h : off + len ≤ mem.length) :
    load mem off len = some ((mem.drop off).take len) := if_pos h

theorem length_block {bs i : Nat} {mem : List α} (h : bs * i + bs ≤ mem.length) :
    (block bs i mem).length = bs := by
  simp only [block, List.length_take, List.length_drop]
  omega

theorem load_block {bs i : Nat} {mem : List α} (h : bs * i + bs ≤ mem.length) :
    load mem (bs * i) bs = some (block bs i mem) := load_eq_some h

theorem getElem?_block (bs i k : Nat) (mem : List α) :
    (block bs i mem)[k]? = if k < bs then mem[bs * i + k]? else none := by
  simp only [block, List.getElem?_take, List.getElem?_drop]

theorem store_isSome {mem src : List α} {off : Nat} (h : off + src.length ≤ mem.length) :
    ∃ mem', store mem off src = some mem' := ⟨_, if_pos h⟩

theorem store_bound {mem mem' src : List α} {off : Nat} (h : store mem off src = some mem') :
    off + src.length ≤ mem.length := by
  by_contra hn
  simp [store, hn] at h

theorem store_length {mem mem' src : List α} {off : Nat} (h : store mem off src = some mem') :
    mem'.length = mem.length := by
  have hb := store_bound h
  rw [store, if_pos hb] at h
  rw [← Option.some.inj h]
  simp only [List.length_append, List.length_take, List.length_drop]
  omega

/-- A store changes exactly the cells of its range. -/
theorem getElem?_store {mem mem' src : List α} {off : Nat}
    (h : store mem off src = some mem') (k : Nat) :
    mem'[k]? = if off ≤ k ∧ k < off + src.length then src[k - off]? else mem[k]? := by
  have hb := store_bound h
  rw [store, if_pos hb] at h
  rw [← Option.some.inj h, List.getElem?_append, List.getElem?_append]
  have ht : (mem.take off).length = off := by rw [List.length_take]; omega
  rw [ht]
  by_cases h1 : k < off
  · rw [if_pos h1, if_neg (by omega), List.getElem?_take, if_pos h1]
  · rw [if_neg h1]
    by_cases h2 : k - off < src.length
    · rw [if_pos h2, if_pos (by omega)]
    · rw [if_neg h2, if_neg (by omega), List.getElem?_drop]
      congr 1
      omega

theorem drop_store {mem mem' src : List α} {off m : Nat}
    (h : store mem off src = some mem') (hm : off + src.length ≤ m) :
    mem'.drop m = mem.drop m := by
  apply List.ext_getElem?
  intro k
  rw [List.getElem?_drop, List.getElem?_drop, getElem?_store h, if_neg (by omega)]

theorem block_store_same {mem mem' src : List α} {bs i : Nat}
    (h : store mem (bs * i) src = some mem') (hlen : src.length = bs) :
    block bs i mem' = src := by
  apply List.ext_getElem?
  intro k
  rw [getElem?_block]
  by_cases hk : k < bs
  · rw [if_pos hk, getElem?_store h, if_pos (by omega), Nat.add_sub_cancel_left]
  · rw [if_neg hk, eq_comm, List.getElem?_eq_none_iff]
    omega

theorem block_store_other {mem mem' src : List α} {bs i k : Nat}
    (h : store mem (bs * i) src = some mem') (hlen : src.length = bs) (hk : k ≠ i) :
    block bs k mem' = block bs k mem := by
  apply List.ext_getElem?
  intro c
  rw [getElem?_block, getElem?_block]
  by_cases hc : c < bs
  · have outside : ¬ (bs * i ≤ bs * k + c ∧ bs * k + c < bs * i + src.length) := by
      rintro ⟨hlo, hhi⟩
      rcases Nat.lt_or_gt_of_ne hk with hlt | hgt
      · have hm := Nat.mul_le_mul_left bs (Nat.succ_le_of_lt hlt)
        rw [Nat.mul_succ] at hm
        omega
      · have hm := Nat.mul_le_mul_left bs (Nat.succ_le_of_lt hgt)
        rw [Nat.mul_succ] at hm
        omega
    rw [if_pos hc, if_pos hc, getElem?_store h, if_neg outside]
  · rw [if_neg hc, if_neg hc]

/-- The exchange of two blocks through a spare buffer holding the first one. -/
def swapBlocks (bs i j : Nat) (mem : List α) : Option (List α) := do
  let a ← load mem (bs * i) bs
  let b ← load mem (bs * j) bs
  let mem ← store mem (bs * i) b
  store mem (bs * j) a

/-- The swap stays inside the memory, exchanges blocks `i` and `j`, and
touches nothing from block `n` on. -/
theorem swapBlocks_spec {bs n i j : Nat} {mem : List α} (hmem : bs * n ≤ mem.length)
    (hi : i < n) (hj : j < n) :
    ∃ mem', swapBlocks bs i j mem = some mem' ∧ mem'.length = mem.length ∧
      (∀ k, block bs k mem' = block bs (Equiv.swap i j k) mem) ∧
      mem'.drop (bs * n) = mem.drop (bs * n) := by
  have inside : ∀ k, k < n → bs * k + bs ≤ bs * n := by
    intro k hk
    have := Nat.mul_le_mul_left bs (Nat.succ_le_of_lt hk)
    rwa [Nat.mul_succ] at this
  have hii := inside i hi
  have hjj := inside j hj
  have hlena : bs * i + bs ≤ mem.length := Nat.le_trans hii hmem
  have hlenb : bs * j + bs ≤ mem.length := Nat.le_trans hjj hmem
  have hla := length_block hlena
  have hlb := length_block hlenb
  obtain ⟨mid, hmid⟩ : ∃ mid, store mem (bs * i) (block bs j mem) = some mid :=
    store_isSome (by omega)
  have hmidlen := store_length hmid
  obtain ⟨mem', hmem'⟩ : ∃ mem', store mid (bs * j) (block bs i mem) = some mem' :=
    store_isSome (by omega)
  refine ⟨mem', ?_, (store_length hmem').trans hmidlen, ?_, ?_⟩
  · simp only [swapBlocks, load_block hlena, load_block hlenb, Option.bind_eq_bind,
      Option.bind_some, hmid, hmem']
  · intro k
    by_cases hkj : k = j
    · rw [hkj, Equiv.swap_apply_right, block_store_same hmem' hla]
    · rw [block_store_other hmem' hla hkj]
      by_cases hki : k = i
      · rw [hki, Equiv.swap_apply_left, block_store_same hmid hlb]
      · rw [Equiv.swap_apply_of_ne_of_ne hki hkj, block_store_other hmid hlb hki]
  · rw [drop_store hmem' (by omega), drop_store hmid (by omega)]

theorem map_swap_range_perm {n i j : Nat} (hi : i < n) (hj : j < n) :
    ((List.range n).map (Equiv.swap i j)).Perm (List.range n) := by
  have inj : Function.Injective (Equiv.swap i j) := (Equiv.swap i j).injective
  rw [List.perm_ext_iff_of_nodup (List.Nodup.map inj List.nodup_range) List.nodup_range]
  have stays : ∀ k, k < n → Equiv.swap i j k < n := by
    intro k hk
    rw [Equiv.swap_apply_def]
    split
    · exact hj
    · split
      · exact hi
      · exact hk
  intro k
  simp only [List.mem_map, List.mem_range]
  constructor
  · rintro ⟨m, hm, rfl⟩
    exact stays m hm
  · intro hk
    exact ⟨Equiv.swap i j k, stays k hk, Equiv.swap_apply_self i j k⟩

/-- Exchanging two of the first `n` blocks permutes these blocks. -/
theorem blocks_perm_of_swap {bs n i j : Nat} {mem mem' : List α} (hi : i < n) (hj : j < n)
    (h : ∀ k, block bs k mem' = block bs (Equiv.swap i j k) mem) :
    (blocks bs n mem').Perm (blocks bs n mem) := by
  have moved : blocks bs n mem' =
      ((List.range n).map (Equiv.swap i j)).map (fun k => block bs k mem) := by
    simp only [blocks, h, List.map_map, Function.comp_def]
  rw [moved]
  exact (map_swap_range_perm hi hj).map _

end BlockMemory
