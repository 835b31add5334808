import MiniNb.KeyReading

/-!
# The reader stays inside the file

Any number of calls of `nb_random_next` on one reader, with one key size, each
call with a buffer of its own. A refused call does not end the calls. The
bounds check adds two 64-bit numbers and could wrap around. It does not: the
cursor has moved only by keys of this size, so a size that makes the sum wrap
has never been accepted, and the cursor still stands at zero.
-/

namespace ReaderSafety

open MiniNb BlockMemory KeyReading

/-- One call as seen from outside, with the reader and the buffer on both sides of it. -/
structure NextCall where
  before : NbRandom
  buf : Bytes
  rc : Int
  after : NbRandom
  key : Bytes

/-- Calls with these buffers, one after the other. -/
def nextCalls (ks : UInt64) : NbRandom → List Bytes → Except Fault (List NextCall × NbRandom)
  | random, [] => .ok ([], random)
  | random, buf :: rest =>
    match nbRandomNext random buf ks with
    | .error fault => .error fault
    | .ok (rc, after, key) =>
      match nextCalls ks after rest with
      | .error fault => .error fault
      | .ok (trace, final) => .ok (⟨random, buf, rc, after, key⟩ :: trace, final)

def succeeded (trace : List NextCall) : List NextCall := trace.filter (fun c => c.rc = 0)

/-- The reader is over the whole file, and its cursor inside. -/
structure Within (file : KeyFile) (r : NbRandom) : Prop where
  map_eq : r.map = file
  end_eq : r.end_ = file.size
  cur_le : r.cur ≤ r.end_

/-- A successful call copies one key from the cursor on, all of it inside the mapping. -/
structure Copies (file : KeyFile) (ks : UInt64) (c : NextCall) : Prop where
  no_wrap : (c.before.cur + ks).toNat = c.before.cur.toNat + ks.toNat
  inside : c.before.cur.toNat + ks.toNat ≤ file.bytes.length
  copied : c.key.take ks.toNat = (file.bytes.drop c.before.cur.toNat).take ks.toNat
  rest_eq : c.key.drop ks.toNat = c.buf.drop ks.toNat
  moved : c.after.cur.toNat = c.before.cur.toNat + ks.toNat

/-- All calls stay inside the file. Each success starts where the one before
it has ended, the first one at byte `first`. -/
structure InsideFile (file : KeyFile) (ks : UInt64) (first : Nat) (bufs : List Bytes)
    (trace : List NextCall) (final : NbRandom) : Prop where
  all_made : trace.map NextCall.buf = bufs
  within : ∀ c ∈ trace, Within file c.before ∧ Within file c.after
  within_final : Within file final
  success : ∀ c ∈ trace, c.rc = 0 → Copies file ks c
  refusal : ∀ c ∈ trace, c.rc ≠ 0 → c.after = c.before ∧ c.key = c.buf
  consecutive : (succeeded trace).map (fun c => c.before.cur.toNat) ++ [final.cur.toNat] =
    first :: (succeeded trace).map (fun c => c.after.cur.toNat)

variable {file : KeyFile} {ks : UInt64} {m : Nat} {r : NbRandom}

theorem within_of_at (h : At file ks m r) : Within file r where
  map_eq := h.map_eq
  end_eq := h.end_eq
  cur_le := by
    rw [UInt64.le_iff_toNat_le, h.end_eq, KeyFile.size_toNat, h.cur_eq]
    rcases h.inside with rfl | hlt
    · exact Nat.zero_le _
    · exact Nat.le_of_lt hlt

/-- A call changes nothing, or copies the next key. -/
theorem next_cases (h : At file ks m r) {buf : Bytes}
    (fits : ks.toNat < file.bytes.length → ks.toNat ≤ buf.length) :
    nbRandomNext r buf ks = .ok (1, r, buf) ∨
    ∃ after key, nbRandomNext r buf ks = .ok (0, after, key) ∧ At file ks (m + 1) after ∧
      Copies file ks ⟨r, buf, 0, after, key⟩ := by
  rcases Nat.lt_or_ge (ks.toNat * (m + 1)) file.bytes.length with enough | short
  · have held : ks.toNat < file.bytes.length :=
      Nat.lt_of_le_of_lt (Nat.le_mul_of_pos_right _ (Nat.succ_pos m)) enough
    obtain ⟨hnext, hat⟩ := next_delivers h (fits held) enough
    have hsum := h.sum_exact
    rw [Nat.mul_succ] at hsum
    have hlen := length_block (key_inside enough)
    refine Or.inr ⟨_, _, hnext, hat, ?_⟩
    constructor
    · rw [hsum, h.cur_eq]
    · rw [h.cur_eq]
      exact key_inside enough
    · rw [h.cur_eq]
      exact List.take_left' hlen
    · exact List.drop_left' hlen
    · rw [h.cur_eq]
      exact hsum
  · exact Or.inl (next_refused h buf short)

/-- One more call in front, which was refused. -/
theorem InsideFile.refused {first : Nat} {bufs : List Bytes} {trace : List NextCall}
    {final : NbRandom} (later : InsideFile file ks first bufs trace final) (within : Within file r)
    (buf : Bytes) : InsideFile file ks first (buf :: bufs) (⟨r, buf, 1, r, buf⟩ :: trace) final where
  all_made := by rw [List.map_cons, later.all_made]
  within := List.forall_mem_cons.mpr ⟨⟨within, within⟩, later.within⟩
  within_final := later.within_final
  success := List.forall_mem_cons.mpr ⟨fun zero => absurd zero Int.one_ne_zero, later.success⟩
  refusal := List.forall_mem_cons.mpr ⟨fun _ => ⟨rfl, rfl⟩, later.refusal⟩
  consecutive := later.consecutive

/-- One more call in front, which copied a key. -/
theorem InsideFile.copied {bufs : List Bytes} {trace : List NextCall} {final after : NbRandom}
    {buf key : Bytes} (later : InsideFile file ks after.cur.toNat bufs trace final)
    (before : Within file r) (behind : Within file after)
    (copies : Copies file ks ⟨r, buf, 0, after, key⟩) :
    InsideFile file ks r.cur.toNat (buf :: bufs) (⟨r, buf, 0, after, key⟩ :: trace) final where
  all_made := by rw [List.map_cons, later.all_made]
  within := List.forall_mem_cons.mpr ⟨⟨before, behind⟩, later.within⟩
  within_final := later.within_final
  success := List.forall_mem_cons.mpr ⟨fun _ => copies, later.success⟩
  refusal := List.forall_mem_cons.mpr ⟨fun nonzero => absurd rfl nonzero, later.refusal⟩
  consecutive := congrArg (r.cur.toNat :: ·) later.consecutive

theorem nextCalls_inside (h : At file ks m r) {bufs : List Bytes}
    (fits : ∀ buf ∈ bufs, ks.toNat < file.bytes.length → ks.toNat ≤ buf.length) :
    ∃ trace final, nextCalls ks r bufs = .ok (trace, final) ∧
      InsideFile file ks r.cur.toNat bufs trace final := by
  induction bufs generalizing r m with
  | nil =>
    exact ⟨[], r, rfl, rfl, by simp, within_of_at h, by simp, by simp, rfl⟩
  | cons buf bufs ih =>
    obtain ⟨hbuf, hrest⟩ := List.forall_mem_cons.mp fits
    rcases next_cases h hbuf with hnext | ⟨after, key, hnext, hat, copies⟩
    · obtain ⟨trace, final, hcalls, later⟩ := ih h hrest
      exact ⟨_, final, by simp only [nextCalls, hnext, hcalls], later.refused (within_of_at h) buf⟩
    · obtain ⟨trace, final, hcalls, later⟩ := ih hat hrest
      exact ⟨_, final, by simp only [nextCalls, hnext, hcalls],
        later.copied (within_of_at h) (within_of_at hat) copies⟩

/-- Whatever the key size, calls on a fresh reader stay inside the file. The
buffers have to hold a key only if the file can hold one. -/
theorem reader_inside {calls : FileCalls} {random : NbRandom} {log : Log}
    (created : nbRandomCreate calls = (0, some random, log)) (ks : UInt64) {bufs : List Bytes}
    (fits : ∀ buf ∈ bufs, ks.toNat < calls.content.bytes.length → ks.toNat ≤ buf.length) :
    ∃ trace final, nextCalls ks random bufs = .ok (trace, final) ∧
      InsideFile calls.content ks 0 bufs trace final := by
  obtain ⟨rfl, _⟩ := create_fresh created
  exact nextCalls_inside (at_start calls.content ks) fits

/-- Two keys of one byte, and a third call that is refused. -/
theorem reader_inside_three_calls :
    ∃ trace final, nextCalls 1 ⟨⟨[2, 4, 6], by decide⟩, 0, 3⟩ [[0], [0], [0]] = .ok (trace, final) ∧
      InsideFile ⟨[2, 4, 6], by decide⟩ 1 0 [[0], [0], [0]] trace final := by
  have created : nbRandomCreate (workingFile [2, 4, 6] (by decide)) =
      (0, some ⟨⟨[2, 4, 6], by decide⟩, 0, 3⟩, [.acquire .descriptor, .acquire .mapping]) := rfl
  exact reader_inside created 1 (by decide)

end ReaderSafety
