import Std.Data.HashMap
import Trampoline.Word

/-!
# Memory

Memory has a byte at every address; those that nobody has written are zero.  Only the written ones
are kept.  `Memory.byte` is the view through which everything else looks at memory, and
`byte_setByte` and `byte_setBytes` say what writing does to it.

Words and vectors lie in memory least significant byte first.  An access that goes beyond the last
address continues at the first one.
-/

set_option autoImplicit false

namespace Trampoline

/-- Sparse memory. -/
structure Memory where
  written : Std.HashMap Word Byte := {}

namespace Memory

/-- The byte at an address. -/
def byte (m : Memory) (a : Word) : Byte := m.written.getD a 0

/-- Writes one byte. -/
def setByte (m : Memory) (a : Word) (b : Byte) : Memory := ⟨m.written.insert a b⟩

theorem byte_setByte (m : Memory) (a : Word) (b : Byte) (x : Word) :
    (m.setByte a b).byte x = if x = a then b else m.byte x := by
  rw [byte, setByte, Std.HashMap.getD_insert]
  simp only [beq_iff_eq, @eq_comm _ a x, byte]

/-- Writes bytes at an address and the ones after it. -/
def setBytes (m : Memory) (a : Word) : List Byte → Memory
  | [] => m
  | b :: rest => (m.setByte a b).setBytes (a + 1) rest

/-- Bytes that are not in the range keep their content. -/
theorem byte_setBytes_of_outside {m : Memory} {a x : Word} {bs : List Byte}
    (h : ∀ i < bs.length, x ≠ a + BitVec.ofNat 64 i) : (m.setBytes a bs).byte x = m.byte x := by
  induction bs generalizing m a with
  | nil => rfl
  | cons b rest ih =>
    have hx : x ≠ a := by simpa using h 0 (by simp)
    rw [setBytes, ih, byte_setByte, if_neg hx]
    intro i hi heq
    refine h (i + 1) (by simpa using hi) (heq.trans ?_)
    rw [Nat.add_comm, BitVec.ofNat_add, BitVec.add_assoc]
    rfl

/-- The bytes at an address and the ones after it. -/
def bytesAt (m : Memory) (a : Word) : Nat → List Byte
  | 0 => []
  | n + 1 => m.byte a :: m.bytesAt (a + 1) n

@[simp] theorem length_bytesAt (m : Memory) (a : Word) (n : Nat) : (m.bytesAt a n).length = n := by
  induction n generalizing a with
  | zero => rfl
  | succ n ih => simp [bytesAt, ih]

/-- The word at an address. -/
def readWord (m : Memory) (a : Word) : Word := BitVec.ofNat 64 (ofLittleEndian (m.bytesAt a 8))

/-- Writes a word. -/
def writeWord (m : Memory) (a : Word) (v : Word) : Memory :=
  m.setBytes a (littleEndian 8 v.toNat)

/-- The vector at an address. -/
def readQuad (m : Memory) (a : Word) : Quad := BitVec.ofNat 128 (ofLittleEndian (m.bytesAt a 16))

/-- Writes a vector. -/
def writeQuad (m : Memory) (a : Word) (v : Quad) : Memory :=
  m.setBytes a (littleEndian 16 v.toNat)

end Memory

end Trampoline
