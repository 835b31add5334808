import MiniNb.BlockMemory
import MiniNb.ResourceLedger
import Mathlib.Algebra.Group.Nat.Defs

/-!
# What the program gets from the system

Memory, the keys file and the kinds of resources. A `size_t` is a `UInt64`, so
its arithmetic wraps around as in the source. A copy outside the mapping or a
division by zero ends the process; such an end is a `Fault`.

The keys file is mapped shared, so its mapping and its content are one thing.
File sizes are signed 64-bit numbers in the system interface.
-/

namespace MiniNb

open ResourceLedger

abbrev Bytes := List UInt8

inductive Fault where
  | divisionByZero
  | outOfBounds
  deriving DecidableEq

/-- Everything the program has to give back: the plugin record and its library
handle, the open database, the two buffers, the descriptor and the mapping of
the keys file, the histogram, and the buffer of the shuffle. -/
inductive Resource where
  | plugin
  | handle
  | db
  | keybuf
  | valbuf
  | descriptor
  | mapping
  | histogram
  | swapbuf
  deriving DecidableEq

abbrev Log := List (Event Resource)

structure KeyFile where
  bytes : Bytes
  length_lt : bytes.length < 2 ^ 63

namespace KeyFile

/-- `st_size`. -/
def size (file : KeyFile) : UInt64 := UInt64.ofNat file.bytes.length

def read (file : KeyFile) (off len : UInt64) : Option Bytes :=
  BlockMemory.load file.bytes off.toNat len.toNat

def write (file : KeyFile) (off : UInt64) (src : Bytes) : Option KeyFile :=
  match h : BlockMemory.store file.bytes off.toNat src with
  | none => none
  | some bytes => some ⟨bytes, by rw [BlockMemory.store_length h]; exact file.length_lt⟩

@[simp] theorem size_toNat (file : KeyFile) : file.size.toNat = file.bytes.length := by
  have := file.length_lt
  exact UInt64.toNat_ofNat_of_lt' (by rw [UInt64.size]; omega)

end KeyFile

/-- `malloc`: nothing, or the requested bytes with what the heap held there. -/
def malloc (heap : Option (Nat → UInt8)) (size : UInt64) : Option Bytes :=
  heap.map (fun garbage => (List.range size.toNat).map garbage)

/-- `memcpy` to the start of a buffer. -/
def memcpy (dst src : Bytes) : Option Bytes := BlockMemory.store dst 0 src

/-- `snprintf` writes at most `size - 1` characters before the terminator. -/
def snprintf (size : Nat) (text : String) : String :=
  String.ofList (text.toList.take (size - 1))

def pathMax : Nat := 4096

theorem malloc_length {heap : Option (Nat → UInt8)} {size : UInt64} {buf : Bytes}
    (h : malloc heap size = some buf) : buf.length = size.toNat := by
  cases heap with
  | none => cases h
  | some garbage =>
    rw [← Option.some.inj h]
    simp

/-- A copy that fits replaces the start of the buffer. -/
theorem memcpy_eq_some {dst src : Bytes} (h : src.length ≤ dst.length) :
    memcpy dst src = some (src ++ dst.drop src.length) := by
  unfold memcpy BlockMemory.store
  rw [Nat.zero_add, if_pos h]
  simp

end MiniNb
