import Trampoline.Instruction

/-!
# Encoding of instructions

An encoded instruction is its opcode byte and its operands.  A register takes the low five bits of a
byte.  Where two registers come with an immediate, the three bits above the second register count
the bytes of the immediate that follow: only as many as its sign needs to come back, and none for
zero.

Registers are encoded modulo 32, so an index beyond that is lost; a comment encodes to nothing.
-/

set_option autoImplicit false

namespace Trampoline

/-- The byte an operation is encoded as. -/
def Opcode.byte : Opcode → Byte
  | trap => 0
  | enter => 1
  | leave => 2
  | ret => 3
  | loadImm => 20
  | addImm => 21
  | moveGeneral => 40
  | moveVector => 41
  | moveToVector => 42
  | moveToGeneral => 43
  | loadGeneral => 60
  | storeGeneral => 61
  | loadVectorLow => 62
  | storeVectorLow => 63
  | loadVector => 64
  | storeVector => 65
  | loadAcquire => 66
  | call => 80
  | resolve => 81

/-- The number of bytes that suffice for an immediate and its sign. -/
def Imm.width (value : Imm) : Nat :=
  let n := value.toInt
  if n = 0 then 0
  else if -0x80 ≤ n ∧ n < 0x80 then 1
  else if -0x8000 ≤ n ∧ n < 0x8000 then 2
  else if -0x800000 ≤ n ∧ n < 0x800000 then 3
  else 4

/-- An immediate without the bytes that its sign makes up for. -/
def Imm.bytes (value : Imm) : List Byte := littleEndian value.width value.toNat

namespace Instruction

/-- The operand byte of a register. -/
def field (r : RegIndex) : Byte := r &&& 0x1F

/-- An operation on two registers. -/
def encodePair (op : Opcode) (a b : RegIndex) : List Byte := [op.byte, field a, field b]

/-- An operation on two registers and an immediate. -/
def encodeImm (op : Opcode) (a b : RegIndex) (value : Imm) : List Byte :=
  op.byte :: field a :: (BitVec.ofNat 8 value.width <<< 5 ||| field b) :: value.bytes

/-- The bytes of an instruction. -/
def encode : Instruction → List Byte
  | comment _ => []
  | trap => [Opcode.trap.byte]
  | enter => [Opcode.enter.byte]
  | leave => [Opcode.leave.byte]
  | ret => [Opcode.ret.byte]
  | loadImm target value => Opcode.loadImm.byte :: field target :: littleEndian 8 value.toNat
  | addImm target source value => encodeImm .addImm target source value
  | move ⟨.general, target⟩ ⟨.general, source⟩ => encodePair .moveGeneral target source
  | move ⟨.vector, target⟩ ⟨.vector, source⟩ => encodePair .moveVector target source
  | move ⟨.vector, target⟩ ⟨.general, source⟩ => encodePair .moveToVector target source
  | move ⟨.general, target⟩ ⟨.vector, source⟩ => encodePair .moveToGeneral target source
  | load ⟨.general, target⟩ base offset => encodeImm .loadGeneral target base offset
  | load ⟨.vector, target⟩ base offset => encodeImm .loadVectorLow target base offset
  | store ⟨.general, source⟩ base offset => encodeImm .storeGeneral source base offset
  | store ⟨.vector, source⟩ base offset => encodeImm .storeVectorLow source base offset
  | loadQuad target base offset => encodeImm .loadVector target base offset
  | storeQuad source base offset => encodeImm .storeVector source base offset
  | loadAcquire target base offset => encodeImm .loadAcquire target base offset
  | call target => [Opcode.call.byte, field target]
  | resolve handle thread scratch =>
    [Opcode.resolve.byte, field handle, field thread, field scratch]

/-- The number of bytes that an instruction takes. -/
def size (i : Instruction) : Nat := i.encode.length

@[simp] theorem size_comment (text : String) : (comment text).size = 0 := rfl

/-- Only comments take no room. -/
theorem size_pos {i : Instruction} (h : i.isComment = false) : 0 < i.size := by
  unfold size encode
  split <;> simp_all [isComment, encodePair, encodeImm]

end Instruction

end Trampoline
