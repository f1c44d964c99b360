import Trampoline.Register

/-!
# Instructions

What a stub is made of.  Some thirteen shapes of instructions share nineteen opcodes, because a copy
between registers, or between a register and a word of memory, has an opcode for each bank it
touches; here the operand is a `Register`, and the opcode follows from its bank.  Operands that can
only be general registers, such as the base of an address, or only vector registers, as in a
transfer of 16 bytes, are bare indices.

A comment is no instruction but stands among them, so that a listing shows what belongs together.
-/

set_option autoImplicit false

namespace Trampoline

/-- The operations of the machine. -/
inductive Opcode
  | trap
  | enter
  | leave
  | ret
  | loadImm
  | addImm
  | moveGeneral
  | moveVector
  | moveToVector
  | moveToGeneral
  | loadGeneral
  | storeGeneral
  | loadVectorLow
  | storeVectorLow
  | loadVector
  | storeVector
  | loadAcquire
  | call
  | resolve
  deriving DecidableEq

/-- One instruction of a stub, or a comment on the next ones. -/
inductive Instruction
  /-- An annotation, which takes no room. -/
  | comment (text : String)
  /-- Stops for good. -/
  | trap
  /-- Pushes frame pointer and link register, and points the frame pointer at them. -/
  | enter
  /-- Undoes `enter`, wherever the stack pointer has moved. -/
  | leave
  /-- Goes back to the caller. -/
  | ret
  | loadImm (target : RegIndex) (value : Word)
  /-- Puts the sum of a register and an immediate into a register. -/
  | addImm (target source : RegIndex) (value : Imm)
  /-- Copies a register.  Within the vector bank all of it is copied; from bank to bank only 64 bits
  are, and the upper half of a vector register becomes zero. -/
  | move (target source : Register)
  /-- Loads a word; the upper half of a vector register becomes zero. -/
  | load (target : Register) (base : RegIndex) (offset : Imm)
  /-- Stores a word: of a vector register, the lower half. -/
  | store (source : Register) (base : RegIndex) (offset : Imm)
  /-- Loads a whole vector register. -/
  | loadQuad (target : RegIndex) (base : RegIndex) (offset : Imm)
  /-- Stores a whole vector register. -/
  | storeQuad (source : RegIndex) (base : RegIndex) (offset : Imm)
  /-- Loads a word that others may be changing, and sees what they wrote before it. -/
  | loadAcquire (target : RegIndex) (base : RegIndex) (offset : Imm)
  /-- Calls the code at the address in a register. -/
  | call (target : RegIndex)
  /-- Replaces a handle by what it refers to; `scratch` is lost. -/
  | resolve (handle thread scratch : RegIndex)
  deriving DecidableEq

namespace Instruction

/-- The operation; a comment has none. -/
def opcode? : Instruction → Option Opcode
  | comment _ => none
  | trap => some .trap
  | enter => some .enter
  | leave => some .leave
  | ret => some .ret
  | loadImm _ _ => some .loadImm
  | addImm _ _ _ => some .addImm
  | move ⟨.general, _⟩ ⟨.general, _⟩ => some .moveGeneral
  | move ⟨.vector, _⟩ ⟨.vector, _⟩ => some .moveVector
  | move ⟨.vector, _⟩ ⟨.general, _⟩ => some .moveToVector
  | move ⟨.general, _⟩ ⟨.vector, _⟩ => some .moveToGeneral
  | load ⟨.general, _⟩ _ _ => some .loadGeneral
  | load ⟨.vector, _⟩ _ _ => some .loadVectorLow
  | store ⟨.general, _⟩ _ _ => some .storeGeneral
  | store ⟨.vector, _⟩ _ _ => some .storeVectorLow
  | loadQuad _ _ _ => some .loadVector
  | storeQuad _ _ _ => some .storeVector
  | loadAcquire _ _ _ => some .loadAcquire
  | call _ => some .call
  | resolve _ _ _ => some .resolve

/-- Whether this is an annotation only. -/
def isComment : Instruction → Bool
  | comment _ => true
  | _ => false

theorem opcode?_eq_none_iff (i : Instruction) : i.opcode? = none ↔ i.isComment = true := by
  unfold opcode? isComment
  split <;> simp

/-- Whether nothing follows the instruction when it is executed. -/
def endsExecution : Instruction → Bool
  | trap | ret => true
  | _ => false

/-- The letter of a register in a listing: the lower half of a vector register has one of its
own. -/
def transferred (r : Register) : String :=
  match r.bank with
  | .general => s!"r{r.index.toNat}"
  | .vector => s!"d{r.index.toNat}"

/-- A base register and an offset, as an address in a listing. -/
def address (base : RegIndex) (offset : Imm) : String := s!"[r{base.toNat}, {offset.toInt}]"

/-- An instruction in a listing. -/
def text : Instruction → String
  | comment text => s!";; {text}"
  | trap => "trap"
  | enter => "enter"
  | leave => "leave"
  | ret => "ret"
  | loadImm target value => s!"mov r{target.toNat}, {hex value.toNat}"
  | addImm target source value => s!"add r{target.toNat}, r{source.toNat}, {value.toInt}"
  | move target source =>
    if target.bank = source.bank then s!"mov {target}, {source}" else s!"fmov {target}, {source}"
  | load target base offset => s!"ldr {transferred target}, {address base offset}"
  | store source base offset => s!"str {transferred source}, {address base offset}"
  | loadQuad target base offset => s!"ldr q{target.toNat}, {address base offset}"
  | storeQuad source base offset => s!"str q{source.toNat}, {address base offset}"
  | loadAcquire target base offset => s!"ldar r{target.toNat}, {address base offset}"
  | call target => s!"blr r{target.toNat}"
  | resolve handle thread scratch =>
    s!"resolve_handle r{handle.toNat}, r{thread.toNat}, r{scratch.toNat}"

instance : ToString Instruction := ⟨text⟩

end Instruction

end Trampoline
