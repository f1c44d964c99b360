import Trampoline.Instruction.Encoding

/-!
# Reading instructions back

The bytes of an instruction say by themselves where it ends: the first one tells the operation, and
with it the operands; where an immediate is among them, the byte of the second register tells its
length.  So code can be taken apart from its start, one instruction after the other.

What was not encoded cannot be read back: comments are gone, and registers come back modulo 32.
-/

set_option autoImplicit false

namespace Trampoline

/-- All operations. -/
def Opcode.all : List Opcode :=
  [trap, enter, leave, ret, loadImm, addImm, moveGeneral, moveVector, moveToVector, moveToGeneral,
    loadGeneral, storeGeneral, loadVectorLow, storeVectorLow, loadVector, storeVector, loadAcquire,
    call, resolve]

/-- The operation that a byte stands for. -/
def Opcode.ofByte? (b : Byte) : Option Opcode := all.find? (·.byte = b)

theorem Opcode.ofByte?_byte (op : Opcode) : Opcode.ofByte? op.byte = some op := by
  cases op <;> rfl

/-- The immediate with these bytes and the sign of the last of them. -/
def Imm.ofBytes (bs : List Byte) : Imm :=
  (BitVec.ofNat (8 * bs.length) (ofLittleEndian bs)).signExtend 32

example : Imm.ofBytes [0x30, 0xFF] = -208 ∧ Imm.ofBytes [] = 0 := by decide

namespace Instruction

/-- What is read, and what is left behind it. -/
abbrev Reading (α : Type) := Option (α × List Byte)

/-- An instruction with one register as its operand. -/
def readOne (make : RegIndex → Instruction) : List Byte → Reading Instruction
  | a :: rest => some (make (field a), rest)
  | _ => none

/-- An instruction with two registers as its operands. -/
def readPair (make : RegIndex → RegIndex → Instruction) : List Byte → Reading Instruction
  | a :: b :: rest => some (make (field a) (field b), rest)
  | _ => none

/-- An instruction with three registers as its operands. -/
def readTriple (make : RegIndex → RegIndex → RegIndex → Instruction) :
    List Byte → Reading Instruction
  | a :: b :: c :: rest => some (make (field a) (field b) (field c), rest)
  | _ => none

/-- An instruction with two registers and an immediate as its operands. -/
def readImm (make : RegIndex → RegIndex → Imm → Instruction) : List Byte → Reading Instruction
  | a :: b :: rest =>
    let width := (b >>> 5).toNat
    if width ≤ rest.length then
      some (make (field a) (field b) (Imm.ofBytes (rest.take width)), rest.drop width)
    else none
  | _ => none

/-- An instruction with a register and a word as its operands. -/
def readWord (make : RegIndex → Word → Instruction) : List Byte → Reading Instruction
  | a :: rest =>
    if 8 ≤ rest.length then
      some (make (field a) (BitVec.ofNat 64 (ofLittleEndian (rest.take 8))), rest.drop 8)
    else none
  | _ => none

/-- The operands of an operation. -/
def readOperands : Opcode → List Byte → Reading Instruction
  | .trap, bs => some (trap, bs)
  | .enter, bs => some (enter, bs)
  | .leave, bs => some (leave, bs)
  | .ret, bs => some (ret, bs)
  | .loadImm, bs => readWord loadImm bs
  | .addImm, bs => readImm addImm bs
  | .moveGeneral, bs => readPair (fun a b => move (.general a) (.general b)) bs
  | .moveVector, bs => readPair (fun a b => move (.vector a) (.vector b)) bs
  | .moveToVector, bs => readPair (fun a b => move (.vector a) (.general b)) bs
  | .moveToGeneral, bs => readPair (fun a b => move (.general a) (.vector b)) bs
  | .loadGeneral, bs => readImm (fun a => load (.general a)) bs
  | .storeGeneral, bs => readImm (fun a => store (.general a)) bs
  | .loadVectorLow, bs => readImm (fun a => load (.vector a)) bs
  | .storeVectorLow, bs => readImm (fun a => store (.vector a)) bs
  | .loadVector, bs => readImm loadQuad bs
  | .storeVector, bs => readImm storeQuad bs
  | .loadAcquire, bs => readImm loadAcquire bs
  | .call, bs => readOne call bs
  | .resolve, bs => readTriple resolve bs

/-- The first instruction of some code. -/
def decode? : List Byte → Reading Instruction
  | [] => none
  | b :: rest =>
    match Opcode.ofByte? b with
    | none => none
    | some op => readOperands op rest

/-- At most `fuel` instructions that make up all of some code. -/
def decodeUpTo : Nat → List Byte → Option (List Instruction)
  | _, [] => some []
  | 0, _ :: _ => none
  | fuel + 1, bs =>
    match decode? bs with
    | none => none
    | some (i, rest) => (decodeUpTo fuel rest).map (i :: ·)

/-- The instructions that make up some code.  Each of them has at least a byte, so there are no more
than there are bytes. -/
def decodeAll? (bs : List Byte) : Option (List Instruction) := decodeUpTo bs.length bs

example :
    decodeAll? [0x01, 0x15, 0x1f, 0x5f, 0x30, 0xff, 0x03] =
      some [enter, addImm 31 31 (-208), ret] := by decide

end Instruction

end Trampoline
