import Trampoline.Emission

/-!
# Save areas

A save area is a piece of the frame in which registers sit out a call, one behind the other in the
order of a list.  There are two ways to keep them: `whole`, so that every bit comes back and a
vector register takes 16 bytes, and `low`, where every register takes eight bytes and a vector
register loses its upper half.

Storing and reloading (`SaveArea.spill`, `SaveArea.fill`) go through the same slots, which is what
makes the one undo the other.
-/

set_option autoImplicit false

namespace Trampoline

/-- How much of a register is kept. -/
inductive Keep
  | whole
  | low
  deriving DecidableEq

namespace Keep

/-- The bytes that a register takes. -/
def width : Keep → Register → Nat
  | whole, ⟨.vector, _⟩ => 16
  | whole, ⟨.general, _⟩ => 8
  | low, _ => 8

/-- Stores as much of a register as is kept. -/
def store : Keep → Register → RegIndex → Imm → Instruction
  | whole, ⟨.vector, index⟩, base, offset => .storeQuad index base offset
  | _, reg, base, offset => .store reg base offset

/-- Loads as much of a register as is kept. -/
def load : Keep → Register → RegIndex → Imm → Instruction
  | whole, ⟨.vector, index⟩, base, offset => .loadQuad index base offset
  | _, reg, base, offset => .load reg base offset

end Keep

/-- Registers that are to be kept for a while. -/
structure SaveArea where
  registers : List Register
  keep : Keep
  deriving DecidableEq

namespace SaveArea

/-- Registers one behind the other, the first of them at `start`. -/
def slotsFrom (keep : Keep) : Nat → List Register → List (Register × Nat)
  | _, [] => []
  | start, reg :: rest => (reg, start) :: slotsFrom keep (start + keep.width reg) rest

variable (a : SaveArea)

/-- The bytes that the registers take together. -/
def bytes : Nat := total a.keep.width a.registers

/-- Each register with its offset in the area. -/
def slots : List (Register × Nat) := slotsFrom a.keep 0 a.registers

/-- Stores the registers into the area `offset` bytes above `base`. -/
def spill (base : Register) (offset : Nat) : Draft :=
  a.slots.map fun (reg, slot) => addressed ↑(offset + slot) (a.keep.store reg base.index)

/-- Reloads the registers from the area `offset` bytes above `base`. -/
def fill (base : Register) (offset : Nat) : Draft :=
  a.slots.map fun (reg, slot) => addressed ↑(offset + slot) (a.keep.load reg base.index)

end SaveArea

end Trampoline
