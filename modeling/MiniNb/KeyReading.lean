import MiniNb.NbRandom
import Mathlib.Data.Nat.ModEq

/-!
# Reading keys of one size

A reader that has delivered `m` keys of one size stands at byte `ks * m`, and
it got there without reaching the end of the file. This position makes the
64-bit sum of the bounds check exact, so the check is an ordinary comparison.

The check refuses a key that ends exactly at the end of the file. The number
of keys the reader delivers is therefore computed from the length minus one,
while the shuffle divides the length itself.
-/

namespace KeyReading

open MiniNb BlockMemory

structure At (file : KeyFile) (ks : UInt64) (m : Nat) (r : NbRandom) : Prop where
  map_eq : r.map = file
  end_eq : r.end_ = file.size
  cur_eq : r.cur.toNat = ks.toNat * m
  inside : m = 0 ∨ ks.toNat * m < file.bytes.length

variable {file : KeyFile} {ks : UInt64} {m : Nat} {r : NbRandom}

theorem at_start (file : KeyFile) (ks : UInt64) : At file ks 0 ⟨file, 0, file.size⟩ :=
  ⟨rfl, rfl, rfl, Or.inl rfl⟩

/-- The sum in the bounds check does not wrap around: a key longer than half
the address space is refused at once, before the cursor has moved. -/
theorem At.sum_exact (h : At file ks m r) : (r.cur + ks).toNat = ks.toNat * (m + 1) := by
  have hlen := file.length_lt
  have hks := ks.toNat_lt
  have hbound : ks.toNat * m + ks.toNat < 2 ^ 64 := by
    rcases h.inside with rfl | hm
    · simpa using hks
    · cases m with
      | zero => simpa using hks
      | succ m =>
        have hle : ks.toNat ≤ ks.toNat * (m + 1) := Nat.le_mul_of_pos_right _ (Nat.succ_pos m)
        omega
  simp only [UInt64.toNat_add, h.cur_eq, Nat.mul_succ, Nat.mod_eq_of_lt hbound]

theorem At.refuses_iff (h : At file ks m r) :
    r.cur + ks ≥ r.end_ ↔ file.bytes.length ≤ ks.toNat * (m + 1) := by
  simp only [ge_iff_le, UInt64.le_iff_toNat_le, h.sum_exact, h.end_eq, KeyFile.size_toNat]

theorem next_refused (h : At file ks m r) (key : Bytes)
    (short : file.bytes.length ≤ ks.toNat * (m + 1)) :
    nbRandomNext r key ks = .ok (1, r, key) :=
  if_pos (h.refuses_iff.mpr short)

theorem key_inside (enough : ks.toNat * (m + 1) < file.bytes.length) :
    ks.toNat * m + ks.toNat ≤ file.bytes.length := by
  rw [Nat.mul_succ] at enough
  exact Nat.le_of_lt enough

/-- Where the check passes, key `m` of the file arrives at the start of the buffer. -/
theorem next_delivers (h : At file ks m r) {key : Bytes} (fits : ks.toNat ≤ key.length)
    (enough : ks.toNat * (m + 1) < file.bytes.length) :
    nbRandomNext r key ks =
      .ok (0, { r with cur := r.cur + ks },
        block ks.toNat m file.bytes ++ key.drop ks.toNat) ∧
    At file ks (m + 1) { r with cur := r.cur + ks } := by
  have hpass : ¬ r.cur + ks ≥ r.end_ := fun hge => by
    have := h.refuses_iff.mp hge
    omega
  have hin := key_inside enough
  have hread : r.map.read r.cur ks = some (block ks.toNat m file.bytes) := by
    simpa only [h.map_eq, KeyFile.read, h.cur_eq] using load_block hin
  have hlen := length_block hin
  refine ⟨?_, h.map_eq, h.end_eq, h.sum_exact, Or.inr enough⟩
  simp only [nbRandomNext, if_neg hpass, hread, memcpy_eq_some (hlen.trans_le fits), hlen]

theorem create_fresh {calls : FileCalls} {log : Log}
    (h : nbRandomCreate calls = (0, some r, log)) :
    r = ⟨calls.content, 0, calls.content.size⟩ ∧ 0 < calls.content.bytes.length := by
  rcases create_cases calls with ⟨⟨maps, _⟩, hcreate⟩ | ⟨_, _, _, hcreate, _⟩
  · cases hcreate.symm.trans h
    exact ⟨rfl, List.length_pos_iff.mpr maps.nonempty⟩
  · cases hcreate.symm.trans h

/-- Repeated calls on one reader and one buffer, with the keys delivered so far. -/
structure ReaderState where
  random : NbRandom
  key : Bytes
  keys : List Bytes

/-- One call; the loop is left by a fault or by a refusal. -/
def readStep (ks : UInt64) (s : ReaderState) : ReaderState × Option (Option Fault) :=
  match nbRandomNext s.random s.key ks with
  | .error fault => (s, some (some fault))
  | .ok (rc, random, key) =>
    if rc ≠ 0 then (⟨random, key, s.keys⟩, some none)
    else (⟨random, key, s.keys ++ [key.take ks.toNat]⟩, none)

def readKeys (random : NbRandom) (key : Bytes) (ks : UInt64) (n : Nat) :
    ReaderState × Option (Option Fault) :=
  BoundedLoop.run (readStep ks) n ⟨random, key, []⟩

/-- The reader between two calls. -/
structure Delivered (file : KeyFile) (ks : UInt64) (m : Nat) (s : ReaderState) : Prop where
  position : At file ks m s.random
  fits : ks.toNat ≤ s.key.length
  keys_eq : s.keys = blocks ks.toNat m file.bytes

theorem readStep_refused {s : ReaderState} (h : Delivered file ks m s)
    (short : file.bytes.length ≤ ks.toNat * (m + 1)) : readStep ks s = (s, some none) := by
  simp [readStep, next_refused h.position s.key short]

theorem readStep_delivers {s : ReaderState} (h : Delivered file ks m s)
    (enough : ks.toNat * (m + 1) < file.bytes.length) :
    ∃ t, readStep ks s = (t, none) ∧ Delivered file ks (m + 1) t := by
  obtain ⟨hnext, hat⟩ := next_delivers h.position h.fits enough
  have hin := key_inside enough
  have hlen := length_block hin
  refine ⟨⟨{ s.random with cur := s.random.cur + ks },
      block ks.toNat m file.bytes ++ s.key.drop ks.toNat,
      s.keys ++ [(block ks.toNat m file.bytes ++ s.key.drop ks.toNat).take ks.toNat]⟩,
    by simp [readStep, hnext], hat, ?_, ?_⟩
  · simp [hlen]
  · simp [blocks_succ, h.keys_eq, List.take_append_of_le_length (Nat.le_of_eq hlen.symm),
      List.take_of_length_le (Nat.le_of_eq hlen)]

theorem delivered_of_step {s t : ReaderState} (h : Delivered file ks m s)
    (hstep : readStep ks s = (t, none)) : Delivered file ks (m + 1) t := by
  by_cases enough : ks.toNat * (m + 1) < file.bytes.length
  · obtain ⟨u, hu, delivered⟩ := readStep_delivers h enough
    cases hu.symm.trans hstep
    exact delivered
  · cases (readStep_refused h (Nat.le_of_not_gt enough)).symm.trans hstep

/-- The number of keys a fresh reader delivers. -/
def keysHeld (file : KeyFile) (ks : UInt64) : Nat := (file.bytes.length - 1) / ks.toNat

theorem lt_keysHeld_iff (hks : 0 < ks.toNat) (hlen : 0 < file.bytes.length) (m : Nat) :
    m < keysHeld file ks ↔ ks.toNat * (m + 1) < file.bytes.length := by
  have hle : m + 1 ≤ keysHeld file ks ↔ (m + 1) * ks.toNat ≤ file.bytes.length - 1 :=
    Nat.le_div_iff_mul_le hks
  rw [Nat.mul_comm] at hle
  omega

theorem At.le_keysHeld (hks : 0 < ks.toNat) (hlen : 0 < file.bytes.length) (h : At file ks m r) :
    m ≤ keysHeld file ks := by
  rcases h.inside with rfl | hin
  · exact Nat.zero_le _
  · cases m with
    | zero => exact Nat.zero_le _
    | succ m => exact (lt_keysHeld_iff hks hlen m).mpr hin

/-- Exactly the keys in front of the last byte of the file are delivered, in
order, and the calls never leave the mapping. -/
theorem readKeys_spec (hks : 0 < ks.toNat) (hlen : 0 < file.bytes.length) {key : Bytes}
    (fits : ks.toNat ≤ key.length) (n : Nat) :
    (readKeys ⟨file, 0, file.size⟩ key ks n).1.keys =
      blocks ks.toNat (min n (keysHeld file ks)) file.bytes ∧
    ∀ fault, (readKeys ⟨file, 0, file.size⟩ key ks n).2 ≠ some (some fault) := by
  have start : Delivered file ks 0 ⟨⟨file, 0, file.size⟩, key, []⟩ :=
    ⟨at_start file ks, fits, rfl⟩
  have reached : ∀ {k t}, BoundedLoop.Rounds (readStep ks) k
      ⟨⟨file, 0, file.size⟩, key, []⟩ t → Delivered file ks k t := fun rounds =>
    rounds.invariant (Delivered file ks) (fun _ _ _ h hstep => delivered_of_step h hstep) start
  rcases BoundedLoop.run_cases (readStep ks) n ⟨⟨file, 0, file.size⟩, key, []⟩ with
    ⟨t, rounds, hrun⟩ | ⟨k, t, u, e, hk, rounds, last, hrun⟩
  · have hd := reached rounds
    have hn := hd.position.le_keysHeld hks hlen
    simp [readKeys, hrun, hd.keys_eq, Nat.min_eq_left hn]
  · have hd := reached rounds
    by_cases enough : ks.toNat * (k + 1) < file.bytes.length
    · obtain ⟨v, hv, _⟩ := readStep_delivers hd enough
      cases hv.symm.trans last
    · have hend := readStep_refused hd (Nat.le_of_not_gt enough)
      cases hend.symm.trans last
      have hheld : keysHeld file ks ≤ k := by
        by_contra hn
        exact enough ((lt_keysHeld_iff hks hlen k).mp (by omega))
      have hk' := hd.position.le_keysHeld hks hlen
      have heq : min n (keysHeld file ks) = k := by omega
      simp [readKeys, hrun, hd.keys_eq, heq]

/-- The reader and the shuffle count differently exactly on files that end
with a whole key. -/
theorem keysHeld_eq_div_iff (hlen : 0 < file.bytes.length) :
    keysHeld file ks = file.bytes.length / ks.toNat ↔ ¬ ks.toNat ∣ file.bytes.length := by
  obtain ⟨len, hl⟩ : ∃ len, file.bytes.length = len + 1 := ⟨_, (Nat.succ_pred_eq_of_pos hlen).symm⟩
  simp only [keysHeld, hl, Nat.add_sub_cancel, Nat.succ_div]
  by_cases h : ks.toNat ∣ len + 1
  · simp [h]
  · simp [h]

/-- The reader hands out every whole key of its file and counts them as the
shuffle does, so a file of exactly `count` keys serves `count` operations. -/
structure UsesWholeFile (random : NbRandom) (key : Bytes) (ks : UInt64) : Prop where
  successes : ∀ n, (readKeys random key ks n).1.keys.length =
    min n (random.map.bytes.length / ks.toNat)
  agrees : (random.end_ / ks).toNat = random.map.bytes.length / ks.toNat
  delivers : ∀ n m (h : m < (readKeys random key ks n).1.keys.length),
    (readKeys random key ks n).1.keys[m] = (random.map.bytes.drop (m * ks.toNat)).take ks.toNat
  safe : ∀ n fault, (readKeys random key ks n).2 ≠ some (some fault)
  exact_fit : ∀ count, random.map.bytes.length = count * ks.toNat →
    (readKeys random key ks count).1.keys.length = count

/-- The whole file is used exactly when its length is not a multiple of the key size. -/
theorem usesWholeFile_iff {calls : FileCalls} {random : NbRandom} {log : Log}
    (created : nbRandomCreate calls = (0, some random, log)) {ks : UInt64}
    (hks : 0 < ks.toNat) {key : Bytes} (fits : ks.toNat ≤ key.length) :
    UsesWholeFile random key ks ↔ ¬ ks.toNat ∣ calls.content.bytes.length := by
  obtain ⟨rfl, hlen⟩ := create_fresh created
  have spec := readKeys_spec hks hlen fits
  rw [← keysHeld_eq_div_iff hlen]
  constructor
  · intro h
    -- Ask once more than either count, so that the minimum on both sides is the count.
    have hn := h.successes (keysHeld calls.content ks +
      calls.content.bytes.length / ks.toNat + 1)
    simp only [(spec _).1, length_blocks] at hn
    omega
  · intro h
    refine ⟨?_, ?_, ?_, fun n => (spec n).2, ?_⟩
    · intro n
      simp [(spec n).1, h]
    · simp
    · intro n m hm
      simp only [(spec n).1] at hm ⊢
      rw [blocks_getElem, block, Nat.mul_comm]
    · intro count hcount
      have hdvd : ks.toNat ∣ calls.content.bytes.length := ⟨count, by rw [hcount, Nat.mul_comm]⟩
      exact absurd hdvd ((keysHeld_eq_div_iff hlen).mp h)

/-- Answers of a system where nothing fails. -/
def workingFile (bytes : Bytes) (h : bytes.length < 2 ^ 63) : FileCalls where
  openOk := true
  fstatOk := true
  mmapOk := true
  madviseOk := true
  munmapOk := true
  closeOk := true
  content := ⟨bytes, h⟩

theorem usesWholeFile_three_bytes :
    UsesWholeFile ⟨⟨[1, 2, 3], by decide⟩, 0, 3⟩ [0, 0] 2 := by
  have created : nbRandomCreate (workingFile [1, 2, 3] (by decide)) =
      (0, some ⟨⟨[1, 2, 3], by decide⟩, 0, 3⟩, [.acquire .descriptor, .acquire .mapping]) := rfl
  exact (usesWholeFile_iff created (by decide) (by decide)).mpr (by decide)

/-- A file of one key of two bytes: the reader delivers none. -/
theorem not_usesWholeFile_two_bytes :
    (nbRandomCreate (workingFile [7, 9] (by decide))).2.1 =
      some ⟨⟨[7, 9], by decide⟩, 0, 2⟩ ∧
    ¬ UsesWholeFile ⟨⟨[7, 9], by decide⟩, 0, 2⟩ [0, 0] 2 := by
  refine ⟨rfl, fun h => ?_⟩
  have none_read : (readKeys ⟨⟨[7, 9], by decide⟩, 0, 2⟩ [0, 0] 2 1).1.keys.length = 0 := rfl
  have one_promised := h.exact_fit 1 rfl
  omega

end KeyReading
