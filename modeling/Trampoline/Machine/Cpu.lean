import Trampoline.Convention
import Trampoline.Instruction
import Trampoline.Machine.Memory
import Trampoline.Method

/-!
# The state of the machine

A `Cpu` is everything that instructions and called code can change: two banks of 32 registers,
memory, and the cells that hold the entries of methods.  A register with a larger index than that
reads as zero, and writing it has no effect.

`Cpu.execute` is what one instruction does to it.  The instructions that decide where to go on, a
trap, a return and a call, do nothing to it by themselves.
-/

set_option autoImplicit false

namespace Trampoline

/-- The number of registers in a bank. -/
def bankSize : Nat := 32

/-- Registers, memory and cells. -/
structure Cpu where
  generals : Vector Word bankSize := .replicate bankSize 0
  vectors : Vector Quad bankSize := .replicate bankSize 0
  memory : Memory := {}
  cells : Cells := {}

namespace Cpu

variable (c : Cpu)

/-! ## Registers -/

/-- The content of a general register. -/
def general (i : RegIndex) : Word := c.generals[i.toNat]?.getD 0

/-- Writes a general register. -/
def setGeneral (i : RegIndex) (v : Word) : Cpu :=
  { c with generals := c.generals.setIfInBounds i.toNat v }

/-- The content of a vector register. -/
def vector (i : RegIndex) : Quad := c.vectors[i.toNat]?.getD 0

/-- Writes a vector register. -/
def setVector (i : RegIndex) (v : Quad) : Cpu :=
  { c with vectors := c.vectors.setIfInBounds i.toNat v }

/-- The content of a register; that of a general one has zeros above it. -/
def register (r : Register) : Quad :=
  match r.bank with
  | .general => (c.general r.index).setWidth 128
  | .vector => c.vector r.index

/-- Writes a register; a general one takes the lower half. -/
def setRegister (r : Register) (v : Quad) : Cpu :=
  match r.bank with
  | .general => c.setGeneral r.index (v.setWidth 64)
  | .vector => c.setVector r.index v

/-- The lower half of a register. -/
def low (r : Register) : Word := (c.register r).setWidth 64

theorem general_setGeneral {i j : RegIndex} (v : Word) (h : i.toNat < bankSize) :
    (c.setGeneral i v).general j = if i = j then v else c.general j := by
  simp only [general, setGeneral, Vector.getElem?_setIfInBounds, BitVec.toNat_inj]
  split <;> simp_all

theorem vector_setVector {i j : RegIndex} (v : Quad) (h : i.toNat < bankSize) :
    (c.setVector i v).vector j = if i = j then v else c.vector j := by
  simp only [vector, setVector, Vector.getElem?_setIfInBounds, BitVec.toNat_inj]
  split <;> simp_all

@[simp] theorem vector_setGeneral (i j : RegIndex) (v : Word) :
    (c.setGeneral i v).vector j = c.vector j := rfl

@[simp] theorem general_setVector (i j : RegIndex) (v : Quad) :
    (c.setVector i v).general j = c.general j := rfl

/-- Writing a register and reading it back loses only what the register has no room for. -/
theorem register_setRegister (r : Register) (v : Quad) (h : r.index.toNat < bankSize) :
    (c.setRegister r v).register r =
      if r.isGeneral then (v.setWidth 64).setWidth 128 else v := by
  obtain ⟨bank, i⟩ := r
  cases bank
  · simp [register, setRegister, Register.isGeneral, general_setGeneral c _ h]
  · simp [register, setRegister, Register.isGeneral, vector_setVector c _ h]

theorem register_setRegister_of_ne {r s : Register} (v : Quad) (h : r.index.toNat < bankSize)
    (hne : s ≠ r) : (c.setRegister r v).register s = c.register s := by
  obtain ⟨bank, i⟩ := r
  obtain ⟨bank', j⟩ := s
  cases bank <;> cases bank'
  · have hij : i ≠ j := fun heq => hne (by rw [heq])
    simp [register, setRegister, general_setGeneral c _ h, hij]
  · simp [register, setRegister]
  · simp [register, setRegister]
  · have hij : i ≠ j := fun heq => hne (by rw [heq])
    simp [register, setRegister, vector_setVector c _ h, hij]

/-! ## Memory -/

/-- Writes a word of memory. -/
def writeWord (a v : Word) : Cpu := { c with memory := c.memory.writeWord a v }

/-- Writes a vector to memory. -/
def writeQuad (a : Word) (v : Quad) : Cpu := { c with memory := c.memory.writeQuad a v }

/-- The address at an offset from a base register. -/
def address (base : RegIndex) (offset : Imm) : Word := c.general base + offset.signExtend 64

/-! ## Conventions -/

/-- What code leaves in a register that it may destroy. -/
def garbage : Quad := 0xDEADDEADDEADDEADDEADDEADDEADDEAD#128

/-- Destroys all volatile registers of a convention except some. -/
def clobber (convention : Convention) (keep : List Register) : Cpu :=
  convention.volatile.foldl (fun c r => if keep.contains r then c else c.setRegister r garbage) c

end Cpu

/-! ## Instructions -/

/-- What does not change while a stub runs: the registers that hold the stack, and the addresses
that cells are found at. -/
structure Wiring where
  stack : RegIndex
  frame : RegIndex
  link : RegIndex
  cellAt : Word → Option CellId

/-- The effect of one instruction. -/
def Cpu.execute (w : Wiring) (c : Cpu) : Instruction → Cpu
  | .comment _ | .trap | .ret | .call _ => c
  | .enter =>
    let top := c.general w.stack - 16
    let saved := (c.writeWord top (c.general w.frame)).writeWord (top + 8) (c.general w.link)
    (saved.setGeneral w.stack top).setGeneral w.frame top
  | .leave =>
    let top := c.general w.frame
    let restored := c.setGeneral w.frame (c.memory.readWord top)
    (restored.setGeneral w.link (c.memory.readWord (top + 8))).setGeneral w.stack (top + 16)
  | .loadImm target value => c.setGeneral target value
  | .addImm target source value => c.setGeneral target (c.address source value)
  | .move target source =>
    match target.bank, source.bank with
    | .vector, .vector => c.setVector target.index (c.vector source.index)
    | _, _ => c.setRegister target ((c.low source).setWidth 128)
  | .load target base offset =>
    c.setRegister target ((c.memory.readWord (c.address base offset)).setWidth 128)
  | .store source base offset => c.writeWord (c.address base offset) (c.low source)
  | .loadQuad target base offset => c.setVector target (c.memory.readQuad (c.address base offset))
  | .storeQuad source base offset => c.writeQuad (c.address base offset) (c.vector source)
  | .loadAcquire target base offset =>
    let a := c.address base offset
    match w.cellAt a with
    | some cell => c.setGeneral target (c.cells.load cell)
    | none => c.setGeneral target (c.memory.readWord a)
  | .resolve handle _ _ =>
    c.setGeneral handle (c.memory.readWord (Handle.mk (c.general handle)).slot)

end Trampoline
