import Mathlib.Tactic.SplitIfs
import Trampoline.Instruction.Decoding

/-!
# The instruction format is uniquely decodable

Code is bytes one behind the other, without anything between two instructions.  That it can be taken
apart again rests on three facts about the bytes of a single instruction: a register below 32 comes
back from its five bits, an immediate comes back from the bytes that its width leaves of it, and the
byte of the second register holds that width in the three bits that the register does not use.

## What is here

* `Instruction.operands` — the registers that an instruction names, in the order of their bytes
  (`getElem?_encode`).
* `Imm.ofBytes_bytes` — an immediate survives.  `Imm.width` is the least number of bytes whose
  signed numbers include the immediate, which is all that the proof needs
  (`Imm.signExtend_setWidth_width`).
* `decode?_encode` — one instruction is read back and what follows it is left, and from this by
  induction `decodeAll?_flatMap_encode` for code.
* `OperandFormat` — what a decoder has to look at: so many registers, of each of them five bits, and
  so many bytes of a signed number.  `exists_make` says that `decode?` looks at nothing else.
-/

set_option autoImplicit false

namespace Trampoline

/-! ## Immediates -/

namespace Imm

theorem width_le (value : Imm) : value.width ≤ 4 := by
  simp only [width]
  split_ifs <;> omega

/-- An immediate is among the signed numbers of as many bytes as it takes. -/
theorem signExtend_setWidth_width (value : Imm) :
    (value.setWidth (8 * value.width)).signExtend 32 = value := by
  refine BitVec.eq_of_toInt_eq ?_
  have hwidth := value.width_le
  have hvalue := value.isLt
  rw [BitVec.toInt_signExtend_of_le (by omega), BitVec.toInt_setWidth]
  simp only [width, BitVec.toInt_eq_toNat_bmod]
  split_ifs <;> simp only [Int.bmod_def] at * <;> omega

@[simp] theorem length_bytes (value : Imm) : value.bytes.length = value.width :=
  length_littleEndian _ _

theorem ofBytes_bytes (value : Imm) : ofBytes value.bytes = value := by
  rw [ofBytes, length_bytes, bytes, ofLittleEndian_littleEndian, BitVec.ofNat_toNat,
    BitVec.setWidth_eq, BitVec.ofNat_toNat, signExtend_setWidth_width]

end Imm

namespace Instruction

/-! ## Registers -/

theorem toNat_field (r : RegIndex) : (field r).toNat = r.toNat % 32 := by
  rw [field, BitVec.toNat_and]
  exact Nat.and_two_pow_sub_one_eq_mod _ 5

/-- Five bits are enough for a register below 32, and for no other one. -/
theorem field_eq_iff {r : RegIndex} : field r = r ↔ r.toNat < 32 := by
  rw [← BitVec.toNat_inj, toNat_field]
  omega

@[simp] theorem field_field (r : RegIndex) : field (field r) = field r := by
  rw [field_eq_iff, toNat_field]
  omega

theorem field_eq_setWidth (r : RegIndex) : field r = (r.setWidth 5).setWidth 8 := by
  refine BitVec.eq_of_toNat_eq ?_
  rw [toNat_field, BitVec.toNat_setWidth, BitVec.toNat_setWidth]
  omega

/-- The byte that a register shares with the width of an immediate. -/
theorem toNat_shared {width : Nat} (h : width < 8) (r : RegIndex) :
    (BitVec.ofNat 8 width <<< 5 ||| field r).toNat = 32 * width + r.toNat % 32 := by
  have hshift : (BitVec.ofNat 8 width <<< 5).toNat = width <<< 5 := by
    rw [BitVec.toNat_shiftLeft, BitVec.toNat_ofNat, Nat.shiftLeft_eq, Nat.shiftLeft_eq]
    omega
  rw [BitVec.toNat_or, hshift, toNat_field, ← Nat.shiftLeft_add_eq_or_of_lt (by omega),
    Nat.shiftLeft_eq]
  omega

theorem field_shared {width : Nat} (h : width < 8) (r : RegIndex) :
    field (BitVec.ofNat 8 width <<< 5 ||| field r) = field r := by
  refine BitVec.eq_of_toNat_eq ?_
  rw [toNat_field, toNat_field, toNat_shared h]
  omega

theorem ushiftRight_shared {width : Nat} (h : width < 8) (r : RegIndex) :
    ((BitVec.ofNat 8 width <<< 5 ||| field r) >>> 5).toNat = width := by
  rw [BitVec.toNat_ushiftRight, toNat_shared h, Nat.shiftRight_eq_div_pow]
  omega

/-- The registers that an instruction names. -/
def operands : Instruction → List Register
  | comment _ | trap | enter | leave | ret => []
  | loadImm target _ => [.general target]
  | addImm target source _ => [.general target, .general source]
  | move target source => [target, source]
  | load target base _ => [target, .general base]
  | store source base _ => [source, .general base]
  | loadQuad target base _ => [.vector target, .general base]
  | storeQuad source base _ => [.vector source, .general base]
  | loadAcquire target base _ => [.general target, .general base]
  | call target => [.general target]
  | resolve handle thread scratch => [.general handle, .general thread, .general scratch]

/-- The byte of a register that comes with an immediate says the same about the register. -/
theorem field_shared_width (value : Imm) (r : RegIndex) :
    field (BitVec.ofNat 8 value.width <<< 5 ||| field r) = field r :=
  field_shared (Nat.lt_of_le_of_lt value.width_le (by decide)) r

/-- Behind the operation every register has a byte of its own, which holds it in the lower five
bits. -/
theorem map_field_encode (i : Instruction) :
    ((i.encode.drop 1).take i.operands.length).map field =
      i.operands.map fun r => field r.index := by
  cases i with
  | comment | trap | enter | leave | ret => rfl
  | loadImm | call | resolve => simp [operands, encode]
  | addImm | loadQuad | storeQuad | loadAcquire =>
    simp [operands, encode, encodeImm, field_shared_width]
  | move target source =>
    obtain ⟨bank, a⟩ := target
    obtain ⟨bank', b⟩ := source
    cases bank <;> cases bank' <;> simp [operands, encode, encodePair]
  | load r | store r =>
    obtain ⟨bank, a⟩ := r
    cases bank <;> simp [operands, encode, encodeImm, field_shared_width]

theorem getElem?_encode {i : Instruction} {k : Nat} {r : Register}
    (h : i.operands[k]? = some r) : ∃ b, i.encode[k + 1]? = some b ∧ field b = field r.index := by
  obtain ⟨hk, _⟩ := List.getElem?_eq_some_iff.1 h
  have hfields := congrArg (·[k]?) (map_field_encode i)
  simp only [List.getElem?_map, h, Option.map_some, List.getElem?_take_of_lt hk,
    List.getElem?_drop, Option.map_eq_some_iff] at hfields
  rwa [Nat.add_comm]

/-! ## One instruction -/

section

variable {i : Instruction} {op : Opcode} {a b c : RegIndex} {rest : List Byte}

theorem decode?_byte : decode? (op.byte :: rest) = readOperands op rest := by
  rw [decode?, Opcode.ofByte?_byte]

theorem readOne_field {make : RegIndex → Instruction} (ha : a.toNat < 32) :
    readOne make (field a :: rest) = some (make a, rest) := by
  rw [readOne, field_field, field_eq_iff.2 ha]

theorem readPair_field {make : RegIndex → RegIndex → Instruction} (ha : a.toNat < 32)
    (hb : b.toNat < 32) : readPair make (field a :: field b :: rest) = some (make a b, rest) := by
  rw [readPair, field_field, field_field, field_eq_iff.2 ha, field_eq_iff.2 hb]

theorem readTriple_field {make : RegIndex → RegIndex → RegIndex → Instruction} (ha : a.toNat < 32)
    (hb : b.toNat < 32) (hc : c.toNat < 32) :
    readTriple make (field a :: field b :: field c :: rest) = some (make a b c, rest) := by
  rw [readTriple, field_field, field_field, field_field, field_eq_iff.2 ha, field_eq_iff.2 hb,
    field_eq_iff.2 hc]

/-- An immediate ends where its width says. -/
theorem readImm_bytes {make : RegIndex → RegIndex → Imm → Instruction} {value : Imm}
    (ha : a.toNat < 32) (hb : b.toNat < 32) :
    readImm make (field a :: (BitVec.ofNat 8 value.width <<< 5 ||| field b) ::
      (value.bytes ++ rest)) = some (make a b value, rest) := by
  have hwidth : value.width < 8 := Nat.lt_of_le_of_lt value.width_le (by decide)
  rw [readImm, ushiftRight_shared hwidth, field_shared hwidth]
  simp [field_eq_iff.2 ha, field_eq_iff.2 hb, List.take_left', List.drop_left', Imm.ofBytes_bytes]

theorem readWord_littleEndian {make : RegIndex → Word → Instruction} {value : Word}
    (ha : a.toNat < 32) :
    readWord make (field a :: (littleEndian 8 value.toNat ++ rest)) =
      some (make a value, rest) := by
  have hvalue : BitVec.ofNat 64 (ofLittleEndian (littleEndian 8 value.toNat)) = value := by
    rw [ofLittleEndian_littleEndian]
    simp
  rw [readWord]
  simp [field_eq_iff.2 ha, List.take_left', List.drop_left', hvalue]

/-- **An instruction is read back from its bytes, and what follows them is left.** -/
theorem decode?_encode (hi : i.isComment = false) (h : ∀ r ∈ i.operands, r.index.toNat < 32) :
    decode? (i.encode ++ rest) = some (i, rest) := by
  cases i with
  | comment => cases hi
  | trap | enter | leave | ret => rfl
  | loadImm target value =>
    have ha := h (.general target) (by simp [operands])
    exact decode?_byte.trans (readWord_littleEndian ha)
  | addImm a b value | loadAcquire a b value =>
    have ha := h (.general a) (by simp [operands])
    have hb := h (.general b) (by simp [operands])
    exact decode?_byte.trans (readImm_bytes ha hb)
  | loadQuad a b value | storeQuad a b value =>
    have ha := h (.vector a) (by simp [operands])
    have hb := h (.general b) (by simp [operands])
    exact decode?_byte.trans (readImm_bytes ha hb)
  | move target source =>
    obtain ⟨bank, a⟩ := target
    obtain ⟨bank', b⟩ := source
    have ha : a.toNat < 32 := h ⟨bank, a⟩ (by simp [operands])
    have hb : b.toNat < 32 := h ⟨bank', b⟩ (by simp [operands])
    cases bank <;> cases bank' <;> refine decode?_byte.trans ?_ <;> rw [readOperands] <;>
      exact readPair_field ha hb
  | load r base offset | store r base offset =>
    obtain ⟨bank, a⟩ := r
    have ha : a.toNat < 32 := h ⟨bank, a⟩ (by simp [operands])
    have hb : base.toNat < 32 := h (.general base) (by simp [operands])
    cases bank <;> refine decode?_byte.trans ?_ <;> rw [readOperands] <;>
      exact readImm_bytes ha hb
  | call target =>
    have ha := h (.general target) (by simp [operands])
    exact decode?_byte.trans (readOne_field ha)
  | resolve a b c =>
    have ha := h (.general a) (by simp [operands])
    have hb := h (.general b) (by simp [operands])
    have hc := h (.general c) (by simp [operands])
    exact decode?_byte.trans (readTriple_field ha hb hc)

end

/-! ## Code -/

variable {is js : List Instruction}

/-- Enough fuel reads back all of some code. -/
theorem decodeUpTo_flatMap_encode {fuel : Nat}
    (h : ∀ i ∈ is, ∀ r ∈ i.operands, r.index.toNat < 32)
    (hfuel : (is.flatMap encode).length ≤ fuel) :
    decodeUpTo fuel (is.flatMap encode) = some (is.filter fun i => !i.isComment) := by
  induction is generalizing fuel with
  | nil => cases fuel <;> rfl
  | cons i rest ih =>
    obtain ⟨hi, hrest⟩ := List.forall_mem_cons.1 h
    rw [List.flatMap_cons, List.length_append] at hfuel
    rw [List.flatMap_cons]
    cases hcomment : i.isComment with
    | true =>
      -- a comment has no bytes, so nothing is read for it
      have hbytes : i.encode = [] := by
        cases i <;> first | rfl | cases hcomment
      rw [hbytes, List.nil_append, List.filter_cons_of_neg (by simp [hcomment]),
        ih hrest (by omega)]
    | false =>
      -- anything else has a byte, which pays for reading it
      have hpos : 0 < i.encode.length := size_pos hcomment
      obtain ⟨n, rfl⟩ : ∃ n, fuel = n + 1 := Nat.exists_eq_add_one.2 (by omega)
      have hdecode : decode? (i.encode ++ rest.flatMap encode) = some (i, rest.flatMap encode) :=
        decode?_encode hcomment hi
      obtain ⟨b, bs, hcons⟩ := List.exists_cons_of_length_pos hpos
      rw [hcons] at hdecode ⊢
      have hlength : (rest.flatMap encode).length ≤ n := by omega
      rw [List.cons_append, decodeUpTo, ← List.cons_append, hdecode,
        List.filter_cons_of_pos (by simp [hcomment])]
      · simp only [ih hrest hlength, Option.map_some]
      · simp

/-- Code is read back up to its comments. -/
theorem decodeAll?_flatMap_encode (h : ∀ i ∈ is, ∀ r ∈ i.operands, r.index.toNat < 32) :
    decodeAll? (is.flatMap encode) = some (is.filter fun i => !i.isComment) :=
  decodeUpTo_flatMap_encode h (Nat.le_refl _)

end Instruction

/-! ## What a decoder looks at -/

/-- What follows the registers of an instruction. -/
inductive Trailer
  | nothing
  /-- A signed number, of as many bytes as the byte of the last register says. -/
  | immediate
  /-- Eight bytes. -/
  | word

/-- How the operands of an operation are laid out. -/
structure OperandFormat where
  registers : Nat
  trailer : Trailer

/-- The operands of an operation: registers, of five bits each, and a signed number. -/
structure Operands where
  registers : List (BitVec 5)
  number : Word

/-- The number of bytes behind the registers. -/
def Trailer.width : Trailer → List Byte → Nat
  | nothing, _ => 0
  | immediate, registers => (registers.getLast?.map fun b : Byte => (b >>> 5).toNat).getD 0
  | word, _ => 8

/-- The signed number that bytes stand for. -/
def signedNumber (bs : List Byte) : Word :=
  (BitVec.ofNat (8 * bs.length) (ofLittleEndian bs)).signExtend 64

/-- Reads operands of a given format: of a byte that stands for a register its lower five bits, and
of the bytes behind the registers, as many as there are, what they make as a signed number. -/
def OperandFormat.read? (f : OperandFormat) (bs : List Byte) : Option (Operands × List Byte) :=
  let registers := bs.take f.registers
  let width := f.trailer.width registers
  let rest := bs.drop f.registers
  if f.registers + width ≤ bs.length then
    some (⟨registers.map (·.setWidth 5), signedNumber (rest.take width)⟩, rest.drop width)
  else none

/-- The format of an operation. -/
def Opcode.format : Opcode → OperandFormat
  | trap | enter | leave | ret => ⟨0, .nothing⟩
  | loadImm => ⟨1, .word⟩
  | moveGeneral | moveVector | moveToVector | moveToGeneral => ⟨2, .nothing⟩
  | addImm | loadGeneral | storeGeneral | loadVectorLow | storeVectorLow | loadVector | storeVector
  | loadAcquire => ⟨2, .immediate⟩
  | call => ⟨1, .nothing⟩
  | resolve => ⟨3, .nothing⟩

/-- A register, as an index. -/
def Operands.register (x : Operands) (k : Nat) : RegIndex :=
  ((x.registers[k]?).getD 0).setWidth 8

namespace Instruction

variable {bs : List Byte}

theorem readNothing_eq (i : Instruction) : some (i, bs) =
    ((OperandFormat.mk 0 .nothing).read? bs).map (Prod.map (fun _ => i) id) := by
  simp [OperandFormat.read?, Trailer.width]

theorem readOne_eq (make : RegIndex → Instruction) : readOne make bs =
    ((OperandFormat.mk 1 .nothing).read? bs).map (Prod.map (fun x => make (x.register 0)) id) := by
  cases bs with
  | nil => rfl
  | cons a rest =>
    simp [readOne, OperandFormat.read?, Trailer.width, Operands.register, field_eq_setWidth]

theorem readPair_eq (make : RegIndex → RegIndex → Instruction) : readPair make bs =
    ((OperandFormat.mk 2 .nothing).read? bs).map
      (Prod.map (fun x => make (x.register 0) (x.register 1)) id) := by
  rcases bs with _ | ⟨a, _ | ⟨b, rest⟩⟩
  · rfl
  · rfl
  · simp [readPair, OperandFormat.read?, Trailer.width, Operands.register, field_eq_setWidth]

theorem readTriple_eq (make : RegIndex → RegIndex → RegIndex → Instruction) : readTriple make bs =
    ((OperandFormat.mk 3 .nothing).read? bs).map
      (Prod.map (fun x => make (x.register 0) (x.register 1) (x.register 2)) id) := by
  rcases bs with _ | ⟨a, _ | ⟨b, _ | ⟨c, rest⟩⟩⟩
  · rfl
  · rfl
  · rfl
  · simp [readTriple, OperandFormat.read?, Trailer.width, Operands.register, field_eq_setWidth]

/-- An immediate is the lower half of the number. -/
theorem ofBytes_eq_signedNumber (bs : List Byte) :
    Imm.ofBytes bs = (signedNumber bs).setWidth 32 := by
  refine BitVec.eq_of_getLsbD_eq fun i hi => ?_
  have hlt : i < 64 := Nat.lt_trans hi (by decide)
  rw [Imm.ofBytes, signedNumber, BitVec.getLsbD_setWidth, BitVec.getLsbD_signExtend,
    BitVec.getLsbD_signExtend]
  simp only [hi, hlt, decide_true, Bool.true_and]

theorem readImm_eq (make : RegIndex → RegIndex → Imm → Instruction) : readImm make bs =
    ((OperandFormat.mk 2 .immediate).read? bs).map
      (Prod.map (fun x => make (x.register 0) (x.register 1) (x.number.setWidth 32)) id) := by
  rcases bs with _ | ⟨a, _ | ⟨b, rest⟩⟩
  · rfl
  · simp only [readImm, OperandFormat.read?]
    rw [if_neg]
    · rfl
    · rw [List.length_singleton]
      omega
  · have hwidth : Trailer.immediate.width [a, b] = (b >>> 5).toNat := rfl
    have hlength : 2 + (b >>> 5).toNat ≤ (a :: b :: rest).length ↔
        (b >>> 5).toNat ≤ rest.length := by
      simp only [List.length_cons]
      omega
    simp only [readImm, OperandFormat.read?, List.take_succ_cons, List.take_zero, hwidth, hlength,
      List.drop_succ_cons, List.drop_zero, ofBytes_eq_signedNumber, field_eq_setWidth]
    split <;> rfl

/-- Eight bytes are a word whatever their sign. -/
theorem ofNat_eq_signedNumber (h : bs.length = 8) :
    BitVec.ofNat 64 (ofLittleEndian bs) = signedNumber bs := by
  rw [signedNumber, h, BitVec.signExtend_eq]

theorem readWord_eq (make : RegIndex → Word → Instruction) : readWord make bs =
    ((OperandFormat.mk 1 .word).read? bs).map
      (Prod.map (fun x => make (x.register 0) x.number) id) := by
  cases bs with
  | nil => rfl
  | cons a rest =>
    have hlength : 1 + 8 ≤ (a :: rest).length ↔ 8 ≤ rest.length := by
      rw [List.length_cons]
      omega
    simp only [readWord, OperandFormat.read?, Trailer.width, hlength, List.take_succ_cons,
      List.take_zero, List.drop_succ_cons, List.drop_zero, field_eq_setWidth]
    split
    · rw [ofNat_eq_signedNumber (List.length_take_of_le ‹_›)]
      rfl
    · rfl

/-- **The decoder looks at nothing but operands**, in the format of the operation. -/
theorem exists_make (op : Opcode) : ∃ make : Operands → Instruction,
    ∀ bs, decode? (op.byte :: bs) = (op.format.read? bs).map (Prod.map make id) := by
  simp only [decode?_byte]
  cases op with
  | trap | enter | leave | ret =>
    simp only [readOperands, readNothing_eq]
    exact ⟨_, fun _ => rfl⟩
  | call =>
    simp only [readOperands, readOne_eq]
    exact ⟨_, fun _ => rfl⟩
  | moveGeneral | moveVector | moveToVector | moveToGeneral =>
    simp only [readOperands, readPair_eq]
    exact ⟨_, fun _ => rfl⟩
  | resolve =>
    simp only [readOperands, readTriple_eq]
    exact ⟨_, fun _ => rfl⟩
  | loadImm =>
    simp only [readOperands, readWord_eq]
    exact ⟨_, fun _ => rfl⟩
  | addImm | loadGeneral | storeGeneral | loadVectorLow | storeVectorLow | loadVector | storeVector
  | loadAcquire =>
    simp only [readOperands, readImm_eq]
    exact ⟨_, fun _ => rfl⟩

/-- **The format is uniquely decodable.**  Code of any length is read back up to its comments, as
long as its registers are below 32, and so code with the same bytes differs in comments only.  To
read it back takes a look at each operation, and at its operands in their format. -/
theorem code_uniquely_decodable :
    (∀ is : List Instruction, (∀ i ∈ is, ∀ r ∈ i.operands, r.index.toNat < 32) →
      decodeAll? (is.flatMap encode) = some (is.filter fun i => !i.isComment)) ∧
    (∀ is js : List Instruction, (∀ i ∈ is ++ js, ∀ r ∈ i.operands, r.index.toNat < 32) →
      is.flatMap encode = js.flatMap encode →
      (is.filter fun i => !i.isComment) = js.filter fun i => !i.isComment) ∧
    (∀ op : Opcode, ∃ make : Operands → Instruction,
      ∀ bs, decode? (op.byte :: bs) = (op.format.read? bs).map (Prod.map make id)) ∧
    ∀ b bs, (∀ op : Opcode, op.byte ≠ b) → decode? (b :: bs) = none := by
  refine ⟨fun is => decodeAll?_flatMap_encode, ?_, exists_make, ?_⟩
  · intro is js h heq
    have his := decodeAll?_flatMap_encode fun i hi => h i (List.mem_append_left _ hi)
    have hjs := decodeAll?_flatMap_encode fun i hi => h i (List.mem_append_right _ hi)
    rw [heq, hjs] at his
    exact (Option.some.inj his).symm
  · intro b bs h
    have hnone : Opcode.ofByte? b = none :=
      List.find?_eq_none.2 fun op _ => by simpa using h op
    rw [decode?, hnone]

/-- A call with a frame around it, annotated. -/
def annotatedCall : List Instruction :=
  [comment "frame", enter, addImm 31 31 (-208), store (.vector 7) 31 200, comment "call",
    loadImm 17 0xFEDCBA9876543210, call 17, load (.general 0) 31 8388608, leave, ret]

theorem code_uniquely_decodable_annotatedCall :
    decodeAll? (annotatedCall.flatMap encode) =
      some (annotatedCall.filter fun i => !i.isComment) ∧
    ∀ text, (annotatedCall.filter fun i => !i.isComment) =
      (comment text :: annotatedCall).filter fun i => !i.isComment := by
  obtain ⟨hread, hsame, _⟩ := code_uniquely_decodable
  have hregisters : ∀ i ∈ annotatedCall, ∀ r ∈ i.operands, r.index.toNat < 32 := by decide
  refine ⟨hread annotatedCall hregisters, fun text => hsame _ _ ?_ rfl⟩
  refine List.forall_mem_append.2 ⟨hregisters, List.forall_mem_cons.2 ⟨?_, hregisters⟩⟩
  exact fun r hr => absurd hr List.not_mem_nil

end Instruction

end Trampoline
