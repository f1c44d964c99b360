import Trampoline.Draft
import Trampoline.Machine.Cpu
import Trampoline.Proofs.Machine.Extent

/-!
# What instructions do, one after the other

`Cpu.executeAll` is the effect of a row of instructions.  Most of what a proof wants to know about
such a row is what it leaves alone, and that can be read off the instructions: each of them names
the register it writes (`Instruction.written`), and only a few write memory (`Instruction.isStore`).

`enter` and `leave` are the exceptions.  They move the registers that hold the stack, whichever
these are on a machine, so no list of registers belongs to them; a row without them is called
steady.

* `register_executeAll` — a steady row leaves alone the registers that it does not name.
* `memory_executeAll` — a row without stores leaves memory alone.
* `signExtend_of_immediate` — an offset that fits into an immediate is added as what it is.
-/

set_option autoImplicit false

namespace Trampoline

/-! ## Registers -/

/-- Whether the machine's indices are those of registers that exist: no bank has more registers than
there are, and the stack pointer is one of them. -/
structure RegisterFile.Fits (file : RegisterFile) : Prop where
  generals : file.generalCount.toNat ≤ bankSize
  vectors : file.vectorCount.toNat ≤ bankSize
  stackPointer : file.stackPointer.index.toNat < bankSize

instance (file : RegisterFile) : Decidable file.Fits :=
  decidable_of_iff
    (file.generalCount.toNat ≤ bankSize ∧ file.vectorCount.toNat ≤ bankSize ∧
      file.stackPointer.index.toNat < bankSize)
    ⟨fun ⟨hg, hv, hs⟩ => ⟨hg, hv, hs⟩, fun ⟨hg, hv, hs⟩ => ⟨hg, hv, hs⟩⟩

theorem RegisterFile.Fits.index_lt {file : RegisterFile} (h : file.Fits) {r : Register}
    (hr : file.contains r = true) : r.index.toNat < bankSize := by
  obtain ⟨bank, i⟩ := r
  cases bank
  · simp only [contains, Bool.or_eq_true, decide_eq_true_eq] at hr
    rcases hr with hlt | heq
    · exact Nat.lt_of_lt_of_le (BitVec.lt_def.1 hlt) h.generals
    · have hi : i = file.stackPointer.index := congrArg Register.index heq
      exact hi ▸ h.stackPointer
  · simp only [contains, decide_eq_true_eq] at hr
    exact Nat.lt_of_lt_of_le (BitVec.lt_def.1 hr) h.vectors

theorem Register.general_index {r : Register} (h : r.isGeneral = true) : .general r.index = r := by
  obtain ⟨bank, i⟩ := r
  have hbank : bank = .general := by simpa [isGeneral] using h
  rw [hbank]

/-- A word keeps its value in a vector register. -/
@[simp] theorem setWidth_setWidth_word (v : Word) : (v.setWidth 128).setWidth 64 = v := by
  rw [BitVec.setWidth_setWidth_of_le _ (by decide), BitVec.setWidth_eq]

namespace Cpu

variable {c : Cpu} {r s : Register} {i j : RegIndex} {v : Quad}

theorem register_general : c.register (.general i) = (c.general i).setWidth 128 := rfl

@[simp] theorem low_general : c.low (.general i) = c.general i := by
  rw [low, register_general, setWidth_setWidth_word]

/-- A general register holds its lower half and nothing else. -/
theorem register_of_isGeneral (h : r.isGeneral = true) :
    c.register r = (c.low r).setWidth 128 := by
  rw [← Register.general_index h, low_general, register_general]

theorem general_eq_of_register {c' : Cpu}
    (h : c'.register (.general i) = c.register (.general i)) : c'.general i = c.general i := by
  rw [← low_general, ← @low_general c, low, low, h]

/-- Writing a register leaves the others alone, whether or not the register exists. -/
theorem register_setRegister_ne (h : s ≠ r) : (c.setRegister r v).register s = c.register s := by
  by_cases hr : r.index.toNat < bankSize
  · exact register_setRegister_of_ne c v hr h
  · obtain ⟨bank, i⟩ := r
    have hsize : bankSize ≤ i.toNat := Nat.le_of_not_lt hr
    cases bank
    · have hsame : c.setRegister (.general i) v = c := by
        simp [setRegister, setGeneral, Vector.setIfInBounds_eq_of_size_le hsize]
      rw [hsame]
    · have hsame : c.setRegister (.vector i) v = c := by
        simp [setRegister, setVector, Vector.setIfInBounds_eq_of_size_le hsize]
      rw [hsame]

theorem setGeneral_eq_setRegister {v : Word} :
    c.setGeneral i v = c.setRegister (.general i) (v.setWidth 128) := by
  rw [setRegister, setWidth_setWidth_word]

theorem setVector_eq_setRegister : c.setVector i v = c.setRegister (.vector i) v := rfl

theorem general_setGeneral_ne {v : Word} (h : j ≠ i) :
    (c.setGeneral i v).general j = c.general j := by
  refine general_eq_of_register ?_
  rw [setGeneral_eq_setRegister, register_setRegister_ne]
  exact fun heq => h (congrArg Register.index heq)

theorem memory_setRegister : (c.setRegister r v).memory = c.memory := by
  obtain ⟨bank, i⟩ := r
  cases bank <;> rfl

theorem memory_setGeneral {v : Word} : (c.setGeneral i v).memory = c.memory := rfl

theorem cells_setGeneral {v : Word} : (c.setGeneral i v).cells = c.cells := rfl

theorem cells_setRegister : (c.setRegister r v).cells = c.cells := by
  obtain ⟨bank, i⟩ := r
  cases bank <;> rfl

@[simp] theorem general_writeWord {a v : Word} : (c.writeWord a v).general i = c.general i := by
  simp only [general, writeWord]

@[simp] theorem memory_writeWord {a v : Word} :
    (c.writeWord a v).memory = c.memory.writeWord a v := by
  rw [writeWord]

@[simp] theorem memory_writeQuad {a : Word} {v : Quad} :
    (c.writeQuad a v).memory = c.memory.writeQuad a v := by
  rw [writeQuad]

@[simp] theorem register_writeWord {a v : Word} : (c.writeWord a v).register r = c.register r := by
  simp only [register, general, vector, writeWord]

@[simp] theorem register_writeQuad {a : Word} : (c.writeQuad a v).register r = c.register r := by
  simp only [register, general, vector, writeQuad]

end Cpu

/-! ## Rows of instructions -/

namespace Instruction

/-- Whether this moves the registers that hold the stack. -/
def isSteady : Instruction → Bool
  | enter | leave => false
  | _ => true

/-- Whether this goes on to the next instruction by itself: it is no trap, no return and no call. -/
def isPlain : Instruction → Bool
  | trap | ret | call _ => false
  | _ => true

/-- Whether this writes memory. -/
def isStore : Instruction → Bool
  | enter | store _ _ _ | storeQuad _ _ _ => true
  | _ => false

/-- The register that the instruction names as its target. -/
def written : Instruction → List Register
  | loadImm target _ | addImm target _ _ | loadAcquire target _ _ | resolve target _ _ =>
    [.general target]
  | move target _ | load target _ _ => [target]
  | loadQuad target _ _ => [.vector target]
  | comment _ | trap | enter | leave | ret | store _ _ _ | storeQuad _ _ _ | call _ => []

end Instruction

namespace Cpu

variable {w : Wiring} {c : Cpu} {i : Instruction} {is js : List Instruction} {r : Register}

/-- The effect of instructions one after the other. -/
def executeAll (w : Wiring) (c : Cpu) (is : List Instruction) : Cpu := is.foldl (execute w) c

@[simp] theorem executeAll_nil : c.executeAll w [] = c := rfl

@[simp] theorem executeAll_cons :
    c.executeAll w (i :: is) = (c.execute w i).executeAll w is := rfl

theorem executeAll_append : c.executeAll w (is ++ js) = (c.executeAll w is).executeAll w js :=
  List.foldl_append

/-- A copy takes all of a vector register to a vector register, and a word anywhere else. -/
theorem execute_move {target source : Register} :
    c.execute w (.move target source) =
      c.setRegister target
        (if target.isGeneral = true ∨ source.isGeneral = true then (c.low source).setWidth 128
          else c.register source) := by
  obtain ⟨bank, i⟩ := target
  obtain ⟨bank', j⟩ := source
  cases bank with
  | general => simp [execute, Register.isGeneral]
  | vector =>
    cases bank' with
    | general => simp [execute, Register.isGeneral]
    | vector => rfl

theorem execute_move_general {j k : RegIndex} :
    c.execute w (.move (.general j) (.general k)) = c.setGeneral j (c.general k) := by
  rw [execute_move, if_pos (Or.inl (by rfl)), low_general, ← setGeneral_eq_setRegister]

theorem register_execute (hi : i.isSteady = true) (hr : r ∉ i.written) :
    (c.execute w i).register r = c.register r := by
  cases i with
  | comment | trap | ret | call => rfl
  | enter | leave => cases hi
  | store => rw [execute, register_writeWord]
  | storeQuad => rw [execute, register_writeQuad]
  | move =>
    rw [execute_move, register_setRegister_ne (by simpa [Instruction.written] using hr)]
  | load => rw [execute, register_setRegister_ne (by simpa [Instruction.written] using hr)]
  | loadQuad =>
    rw [execute, setVector_eq_setRegister,
      register_setRegister_ne (by simpa [Instruction.written] using hr)]
  | loadAcquire target base offset =>
    have hne : r ≠ .general target := by simpa [Instruction.written] using hr
    simp only [execute]
    split <;> rw [setGeneral_eq_setRegister, register_setRegister_ne hne]
  | loadImm | addImm | resolve =>
    rw [execute, setGeneral_eq_setRegister,
      register_setRegister_ne (by simpa [Instruction.written] using hr)]

theorem memory_execute (hi : i.isStore = false) : (c.execute w i).memory = c.memory := by
  cases i with
  | comment | trap | ret | call | leave | loadImm | addImm | loadQuad | resolve => rfl
  | enter | store | storeQuad => cases hi
  | move => rw [execute_move, memory_setRegister]
  | load => rw [execute, memory_setRegister]
  | loadAcquire =>
    simp only [execute]
    split <;> rfl

theorem cells_execute : (c.execute w i).cells = c.cells := by
  cases i with
  | comment | trap | ret | call => rfl
  | enter | leave | loadImm | addImm | store | loadQuad | storeQuad | resolve =>
    simp only [execute, setGeneral, setVector, writeWord, writeQuad]
  | move => rw [execute_move, cells_setRegister]
  | load => rw [execute, cells_setRegister]
  | loadAcquire =>
    simp only [execute]
    split <;> rfl

/-- A steady row leaves alone the registers that it does not name. -/
theorem register_executeAll (h : ∀ i ∈ is, i.isSteady = true ∧ r ∉ i.written) :
    (c.executeAll w is).register r = c.register r := by
  induction is generalizing c with
  | nil => rfl
  | cons i rest ih =>
    obtain ⟨hsteady, hr⟩ := h i List.mem_cons_self
    rw [executeAll_cons, ih fun j hj => h j (List.mem_cons_of_mem _ hj),
      register_execute hsteady hr]

theorem memory_executeAll (h : ∀ i ∈ is, i.isStore = false) :
    (c.executeAll w is).memory = c.memory := by
  induction is generalizing c with
  | nil => rfl
  | cons i rest ih =>
    rw [executeAll_cons, ih fun j hj => h j (List.mem_cons_of_mem _ hj),
      memory_execute (h i List.mem_cons_self)]

theorem cells_executeAll : (c.executeAll w is).cells = c.cells := by
  induction is generalizing c with
  | nil => rfl
  | cons i rest ih => rw [executeAll_cons, ih, cells_execute]

end Cpu

/-! ## Offsets in instructions -/

theorem lt_of_ofInt? {offset : Int} {imm : Imm} (h : Imm.ofInt? offset = some imm) :
    -(2 ^ 31) ≤ offset ∧ offset < 2 ^ 31 := by
  rw [Imm.ofInt?] at h
  split at h
  · assumption
  · cases h

/-- What an immediate adds to an address is the offset that it was made from. -/
theorem signExtend_of_immediate {offset : Int} {imm : Imm} (h : Imm.ofInt? offset = some imm) :
    imm.signExtend 64 = BitVec.ofInt 64 offset := by
  refine BitVec.eq_of_toInt_eq ?_
  rw [BitVec.toInt_signExtend_of_le (by decide), Imm.toInt_of_ofInt? h]
  have hrange := lt_of_ofInt? h
  rw [BitVec.toInt_ofInt, Int.bmod_def]
  split <;> omega

/-- The address at an offset from a base register. -/
theorem Cpu.address_of_ofInt? {c : Cpu} {base : RegIndex} {offset : Int} {imm : Imm}
    (h : Imm.ofInt? offset = some imm) :
    c.address base imm = c.general base + BitVec.ofInt 64 offset := by
  rw [Cpu.address, signExtend_of_immediate h]

theorem immediate_eq_ok_iff {offset : Int} {imm : Imm} :
    immediate offset = .ok imm ↔ Imm.ofInt? offset = some imm := by
  rw [immediate]
  split <;> simp_all

/-- An offset that is not negative fits if it is less than 2 GiB... -/
theorem immediate_of_lt {n : Int} (hpos : 0 ≤ n) (h : n < 2 ^ 31) :
    ∃ imm, immediate n = .ok imm := by
  refine ⟨BitVec.ofInt 32 n, immediate_eq_ok_iff.2 ?_⟩
  rw [Imm.ofInt?, if_pos (by omega)]

/-- ...and else it does not. -/
theorem immediate_of_le {n : Int} (h : 2 ^ 31 ≤ n) :
    immediate n = .error (.offsetTooLarge n) := by
  rw [immediate, Imm.ofInt?, if_neg (by omega)]

end Trampoline
