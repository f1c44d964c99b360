import Mathlib.Tactic.IntervalCases
import Mathlib.Tactic.SplitIfs
import Trampoline.Proofs.Stub.Contract
import Trampoline.Proofs.Stub.Handler
import Trampoline.Stub.Serialized

/-!
# Serialized stubs are read back

A loader gets a stub as bytes: four numbers of variable length, and the code.  That it finds the
numbers again rests on the first byte of each.  Its ones are as many as the bytes behind it, so they
stop at the zero, and what is left of the byte below the zero is the top of the number
(`VarInt.head_spec`).

All four numbers are below 2³² whenever the code is, since no frame is larger than an immediate can
say; so none of them is cut on the way.  What the loader does with the second one is to let
exceptions enter there.  That is a place in the code: the handler begins there, and the return that
lies in front of it is the only one of the stub (`Request.serializes`).
-/

set_option autoImplicit false

namespace Trampoline

/-! ## Numbers -/

namespace VarInt

variable {l value : Nat} {b : Byte}

theorem trailing_le (value : Nat) : trailing value ≤ 4 := by
  rw [trailing]
  split_ifs <;> decide

/-- There is room for the number. -/
theorem lt_of_trailing (h : value < 2 ^ 32) : value < 2 ^ (7 * (trailing value + 1)) := by
  rw [trailing]
  split_ifs <;> omega

/-- The ones at the top of a byte come down to how far it is from 256. -/
theorem leadingOnes_eq (hl : l < 8) (hge : 256 - 2 ^ (8 - l) ≤ b.toNat)
    (hlt : b.toNat < 256 - 2 ^ (7 - l)) : leadingOnes b = l := by
  have hbit : ∀ i, b.getMsbD i = (decide (i < 8) && decide (b.toNat / 2 ^ (7 - i) % 2 = 1)) := by
    intro i
    rw [BitVec.getMsbD, BitVec.getLsbD, Nat.testBit_eq_decide_div_mod_eq]
  have hones : ∀ i ∈ List.range l, b.getMsbD i = true := by
    intro i hi
    have hi := List.mem_range.1 hi
    rw [hbit, Bool.and_eq_true, decide_eq_true_eq, decide_eq_true_eq]
    interval_cases l <;> interval_cases i <;> omega
  have hzero : b.getMsbD l = false := by
    rw [hbit, Bool.and_eq_false_iff, decide_eq_false_iff_not, decide_eq_false_iff_not]
    interval_cases l <;> omega
  have hrange : List.range 8 = List.range l ++ l :: List.range' (l + 1) (7 - l) := by
    interval_cases l <;> rfl
  rw [leadingOnes, hrange, List.takeWhile_append_of_pos hones,
    List.takeWhile_cons_of_neg (by simp [hzero]), List.append_nil, List.length_range]

/-- The first byte is as many ones as there are bytes behind it, a zero, and the top of the
number. -/
theorem head_spec (hl : l < 8) (h : value < 2 ^ (7 * (l + 1))) :
    leadingOnes (head l value) = l ∧
      (head l value).toNat % (1 <<< (7 - l)) = value / 2 ^ (8 * l) := by
  have htop : value / 2 ^ (8 * l) < 2 ^ (7 - l) := by
    rw [Nat.div_lt_iff_lt_mul (Nat.two_pow_pos _), ← Nat.pow_add]
    rwa [show 7 - l + 8 * l = 7 * (l + 1) by omega]
  have hones : 2 ^ (8 - l) = 2 * 2 ^ (7 - l) := by
    rw [← Nat.pow_succ', show 8 - l = 7 - l + 1 by omega]
  have hbyte : 2 ^ (l + 1) * 2 ^ (7 - l) = 256 := by
    rw [← Nat.pow_add, show l + 1 + (7 - l) = 8 by omega]
  have hpow : 2 ^ 1 * 2 ^ (7 - l) ≤ 256 :=
    hbyte ▸ Nat.mul_le_mul_right _ (Nat.pow_le_pow_right (by decide) (Nat.le_add_left _ _))
  have hhead : (head l value).toNat = 256 - 2 ^ (8 - l) + value / 2 ^ (8 * l) := by
    rw [head, BitVec.toNat_ofNat, Nat.one_shiftLeft, Nat.shiftRight_eq_div_pow]
    have := Nat.two_pow_pos (7 - l)
    exact Nat.mod_eq_of_lt (by omega)
  generalize value / 2 ^ (8 * l) = top at htop hhead
  refine ⟨leadingOnes_eq hl (by omega) (by omega), ?_⟩
  -- the ones are a multiple of what the zero stands for
  have hmultiple : 256 - 2 ^ (8 - l) = (2 ^ (l + 1) - 2) * 2 ^ (7 - l) := by
    rw [Nat.sub_mul, hbyte, hones]
  rw [hhead, hmultiple, Nat.one_shiftLeft, Nat.mul_add_mod', Nat.mod_eq_of_lt htop]

/-- **A number is read back**, and what is behind it is left. -/
theorem decode?_encode_append (value : BitVec 32) (rest : List Byte) :
    decode? (encode value ++ rest) = some (value.toNat, rest) := by
  have hl := trailing_le value.toNat
  have hroom := lt_of_trailing value.isLt
  rw [encode]
  generalize trailing value.toNat = l at hl hroom
  obtain ⟨hones, htop⟩ := head_spec (by omega) hroom
  have hlength : (littleEndian l value.toNat).length = l := length_littleEndian l value.toNat
  rw [List.cons_append, decode?]
  simp only [hones, List.length_append, hlength, Nat.le_add_right, if_true]
  rw [List.take_left' hlength, List.drop_left' hlength, ofLittleEndian_littleEndian, htop,
    BitVec.toNat_ofNat, Nat.shiftLeft_eq, Nat.div_add_mod']

end VarInt

namespace Stub

variable {s : Stub} {n : Nat}

/-- A number in front of the code is read back if it is not too large. -/
theorem decode?_ofNat (h : n < 2 ^ 32) (rest : List Byte) :
    VarInt.decode? (VarInt.encode (BitVec.ofNat 32 n) ++ rest) = some (n, rest) := by
  rw [VarInt.decode?_encode_append, BitVec.toNat_ofNat, Nat.mod_eq_of_lt h]

/-- A stub whose numbers are not too large is read back. -/
theorem deserialize?_encode (h : ∀ n ∈ s.header, n < 2 ^ 32) :
    deserialize? s.encode =
      some (⟨s.code.size, s.handlerOffset, s.layout.size, s.frameDataOffset⟩, s.code.bytes) := by
  simp only [header, List.forall_mem_cons] at h
  obtain ⟨hsize, hhandler, hframe, hdata, _⟩ := h
  have hread : Header.read? s.encode =
      some (⟨s.code.size, s.handlerOffset, s.layout.size, s.frameDataOffset⟩, s.code.bytes) := by
    simp only [encode, header, List.flatMap_cons, List.flatMap_nil, List.append_nil,
      List.append_assoc]
    rw [Header.read?, decode?_ofNat hsize]
    simp only [Option.bind_eq_bind, Option.bind_some, decode?_ofNat hhandler,
      decode?_ofNat hframe, decode?_ofNat hdata]
    rfl
  rw [deserialize?, hread]
  exact if_pos s.code.length_bytes

/-! ## The place of the handler -/

/-- The instruction takes room, and ends at this byte. -/
def EndsAt (s : Stub) (offset index : Nat) : Prop :=
  ∃ i start, s.code.instructions[index]? = some i ∧ i.isComment = false ∧
    s.code.offset? index = some start ∧ start + i.size = offset

/-- The instruction takes room, and is the first one of its phase that does. -/
def Begins (s : Stub) (p : Phase) (index : Nat) : Prop :=
  (∃ i, s.code.instructions[index]? = some i ∧ i.isComment = false) ∧
    s.phaseAt? index = some p ∧
    ∀ earlier i, earlier < index → s.code.instructions[earlier]? = some i →
      i.isComment = false → s.phaseAt? earlier ≠ some p

end Stub

namespace Blueprint.Builds

variable {b : Blueprint} {o : FrameOffsets} {stub : Stub} {index : Nat}

/-- The return is at the end of the epilogue, and nowhere else. -/
theorem ret_iff (h : b.Builds o stub) :
    stub.code.instructions[index]? = some .ret ↔ index = b.phaseIndex o .epilogue + 1 := by
  constructor
  · intro hget
    obtain ⟨p, k, rfl, hk⟩ := h.exists_phase hget
    obtain ⟨rfl, rfl⟩ := eq_epilogue_of_getElem?_code hk
    rfl
  · rintro rfl
    exact h.get (p := .epilogue) (k := 1) rfl

theorem begins_handler (h : b.Builds o stub) :
    stub.Begins .exceptionHandler (b.phaseIndex o .exceptionHandler + 1) := by
  refine ⟨⟨_, h.get (p := .exceptionHandler) (k := 1) rfl, rfl⟩,
    h.phaseAt?_eq (p := .exceptionHandler) (k := 1) rfl rfl, ?_⟩
  intro earlier i hlt hget hi hp
  -- in front of the second instruction of the phase there is only the first, a comment
  obtain ⟨k, rfl, hk⟩ := h.mem_phase hget hi hp
  obtain rfl : k = 0 := by omega
  obtain rfl := Option.some.inj hk
  cases hi

/-- What ends where the handler begins is the return. -/
theorem endsAt_handler_iff (h : b.Builds o stub) :
    stub.EndsAt stub.handlerOffset index ↔ index = b.phaseIndex o .epilogue + 1 := by
  have hret := h.ret_iff.2 rfl
  have hhandler : stub.handlerOffset =
      codeSize (stub.code.instructions.take (b.phaseIndex o .epilogue + 1 + 1)) := by
    rw [h.handlerOffset, ← h.take_handler, phaseIndex_exceptionHandler]
  have hend : ∀ {n : Nat} {i : Instruction}, stub.code.instructions[n]? = some i →
      ∃ start, stub.code.offset? n = some start ∧
        start + i.size = codeSize (stub.code.instructions.take (n + 1)) := by
    intro n i hget
    refine ⟨_, stub.code.offset?_of_lt (List.getElem?_eq_some_iff.1 hget).1, ?_⟩
    rw [List.take_add_one, hget, codeSize_append]
    rfl
  constructor
  · rintro ⟨i, start, hget, hi, hstart, hstop⟩
    obtain ⟨start', hstart', hsize⟩ := hend hget
    obtain rfl := Option.some.inj (hstart.symm.trans hstart')
    rw [hsize, hhandler] at hstop
    -- an instruction that takes room ends later than everything in front of it
    rcases Nat.lt_trichotomy index (b.phaseIndex o .epilogue + 1) with hlt | heq | hlt
    · have hbefore : codeSize (stub.code.instructions.take (index + 1)) ≤
          codeSize (stub.code.instructions.take (b.phaseIndex o .epilogue + 1)) :=
        Code.codeSize_take_le hlt
      have hafter := Code.codeSize_take_lt hret rfl (Nat.lt_add_one _)
      omega
    · exact heq
    · have hbefore : codeSize (stub.code.instructions.take (b.phaseIndex o .epilogue + 1 + 1)) ≤
          codeSize (stub.code.instructions.take index) :=
        Code.codeSize_take_le hlt
      have hafter := Code.codeSize_take_lt hget hi (Nat.lt_add_one _)
      omega
  · rintro rfl
    obtain ⟨start, hstart, hsize⟩ := hend hret
    exact ⟨.ret, start, hret, rfl, hstart, hsize.trans hhandler.symm⟩

end Blueprint.Builds

/-! ## Generated stubs -/

namespace Request

/-- **A serialized stub is read back**: its four numbers, none of them cut, and exactly its code
behind them.  Exceptions enter within the code, at the first instruction of the handler, and what
ends there is the only return of the stub. -/
theorem serializes {r : Request} {capacity : Nat} {stub : Stub} (hcapacity : capacity < 2 ^ 32)
    (h : r.generate capacity = .ok stub) :
    Stub.deserialize? stub.encode =
      some (⟨stub.code.size, stub.handlerOffset, stub.layout.size, stub.frameDataOffset⟩,
        stub.code.bytes) ∧
    stub.code.bytes.length = stub.code.size ∧
    stub.handlerOffset < stub.code.size ∧
    (∃ entry, stub.code.startingAt? stub.handlerOffset = some entry ∧
      stub.Begins .exceptionHandler entry) ∧
    ∃ back, (∀ index, stub.EndsAt stub.handlerOffset index ↔ index = back) ∧
      ∀ index, stub.code.instructions[index]? = some .ret ↔ index = back := by
  obtain ⟨b, o, _, hb⟩ := generate_builds h
  have hsize := size_le_of_generate h
  have hentry : stub.handlerOffset < stub.code.size := by
    obtain ⟨i, hget, hi, hstart⟩ := Code.startingAt?_spec hb.startingAt?_handler
    exact hstart ▸ Code.codeSize_take_lt_size hget hi
  have hdata : stub.frameDataOffset < 2 ^ 31 := by
    obtain ⟨_, _, _, _, hdata, hstop⟩ := hb.layout_order
    have hframe := hb.size_lt
    rw [Frame.dataBytes] at hdata
    rw [Stub.frameDataOffset, hb.layout]
    omega
  refine ⟨Stub.deserialize?_encode ?_, stub.code.length_bytes, hentry,
    ⟨_, hb.startingAt?_handler, hb.begins_handler⟩, _, fun _ => hb.endsAt_handler_iff,
    fun _ => hb.ret_iff⟩
  have hframe := hb.size_lt
  simp only [Stub.header, List.forall_mem_cons, List.not_mem_nil, false_implies, implies_true,
    and_true]
  omega

/-- A stub with arguments in registers and on the stack is read back. -/
theorem serializes_mixed :
    defaultCapacity < 2 ^ 32 ∧
      ∃ stub, (Standin.request Standin.mixed 0).generate defaultCapacity = .ok stub ∧
        Stub.deserialize? stub.encode =
          some (⟨stub.code.size, stub.handlerOffset, 352, stub.frameDataOffset⟩,
            stub.code.bytes) := by
  obtain ⟨stub, hstub, hsize, _⟩ := Standin.exists_generate_mixed
  exact ⟨by decide, stub, hstub, hsize ▸ (serializes (by decide) hstub).1⟩

end Request

end Trampoline
