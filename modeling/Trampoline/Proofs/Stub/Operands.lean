import Trampoline.Proofs.Instruction.Format
import Trampoline.Proofs.Stub.Blocks

/-!
# Which registers a stub names

Every register in the code of a stub comes from somewhere: from the target, which has checked that
its own registers exist, from one of the two conventions, which have been checked against it, or
from the list of registers that it has.  So every operand is a register of the target
(`Builds.contains_operands`).

The operands of save areas and moves are the registers that these are about, and the registers that
the stack is addressed by.  The other phases have fixed code, in which the roles, the hooks'
registers and the receiver's are mentioned by index; they are general registers, so the index says
it all.
-/

set_option autoImplicit false

namespace Trampoline

/-! ## Save areas and moves -/

namespace Keep

variable {keep : Keep} {r : Register} {base : RegIndex} {imm : Imm}

theorem operands_store : (keep.store r base imm).operands = [r, .general base] := by
  obtain ⟨bank, i⟩ := r
  cases keep <;> cases bank <;> rfl

theorem operands_load : (keep.load r base imm).operands = [r, .general base] := by
  obtain ⟨bank, i⟩ := r
  cases keep <;> cases bank <;> rfl

end Keep

namespace SaveArea

variable {a : SaveArea} {keep : Keep} {base : RegIndex} {offset : Nat} {i : Instruction}
  {r : Register}

/-- Storing an area, and loading it, names its registers and the base. -/
theorem operands_slots
    (hi : i ∈ (storeDraft keep base offset a.slots).code ∨
      i ∈ (loadDraft keep base offset a.slots).code)
    (hr : r ∈ i.operands) : r ∈ a.registers ∨ r = .general base := by
  obtain ⟨p, hp, hoperands⟩ : ∃ p ∈ a.slots, i.operands = [p.1, .general base] := by
    rcases hi with hi | hi
    · obtain ⟨p, hp, imm, _, rfl⟩ := Draft.mem_code_addressed hi
      exact ⟨p, hp, Keep.operands_store⟩
    · obtain ⟨p, hp, imm, _, rfl⟩ := Draft.mem_code_addressed hi
      exact ⟨p, hp, Keep.operands_load⟩
  rw [hoperands, List.mem_pair] at hr
  exact hr.imp_left fun heq : r = p.1 => heq ▸ mem_registers_of_mem_slots hp

end SaveArea

namespace MoveContext

variable {ctx : MoveContext} {m : Move} {is : List Instruction} {i : Instruction} {r : Register}

/-- The registers that the code for a move may name. -/
def Names (ctx : MoveContext) (m : Move) (r : Register) : Prop :=
  m.source = .register r ∨ m.target = .register r ∨ r = ctx.temporary ∨
    r = .general ctx.framePointer.index ∨ r = .general ctx.stackPointer.index

theorem base_of_address {area : Area} {offset : Int} {base : RegIndex} {imm : Imm}
    (h : ctx.address area offset = .ok (base, imm)) :
    base = ctx.framePointer.index ∨ base = ctx.stackPointer.index := by
  cases area with
  | incoming => exact Or.inl (address_incoming h).1
  | outgoing => exact Or.inr (address_outgoing h).1

theorem operands_lower (h : ctx.lower m = .ok is) (hi : i ∈ is) (hr : r ∈ i.operands) :
    ctx.Names m r := by
  have hbase : ∀ {area offset base imm}, ctx.address area offset = .ok (base, imm) →
      ∀ {s : Register}, s = .general base → ctx.Names m s := by
    rintro area offset base imm ha s rfl
    exact Or.inr (Or.inr (Or.inr ((base_of_address ha).imp (congrArg _) (congrArg _))))
  rcases lower_eq_ok h with ⟨s, t, rfl, rfl⟩ | ⟨s, _, _, _, _, rfl, ha, rfl⟩ |
    ⟨_, _, t, _, _, rfl, ha, rfl⟩ | ⟨_, _, _, _, _, _, _, _, rfl, ha, ha', rfl⟩
  · obtain rfl := List.mem_singleton.1 hi
    rcases List.mem_pair.1 hr with rfl | rfl
    · exact Or.inr (Or.inl rfl)
    · exact Or.inl rfl
  · obtain rfl := List.mem_singleton.1 hi
    rcases List.mem_pair.1 hr with rfl | hr
    · exact Or.inl rfl
    · exact hbase ha hr
  · obtain rfl := List.mem_singleton.1 hi
    rcases List.mem_pair.1 hr with rfl | hr
    · exact Or.inr (Or.inl rfl)
    · exact hbase ha hr
  · rcases List.mem_pair.1 hi with rfl | rfl
    · rcases List.mem_pair.1 hr with rfl | hr
      · exact Or.inr (Or.inr (Or.inl rfl))
      · exact hbase ha hr
    · rcases List.mem_pair.1 hr with rfl | hr
      · exact Or.inr (Or.inr (Or.inl rfl))
      · exact hbase ha' hr

theorem operands_draft {moves : List Move} (hi : i ∈ Draft.code (moves.map ctx.lower))
    (hr : r ∈ i.operands) : ∃ m ∈ moves, ctx.Names m r := by
  obtain ⟨piece, hpiece, hi⟩ := List.mem_flatMap.1 hi
  obtain ⟨m, hm, rfl⟩ := List.mem_map.1 hpiece
  cases h : ctx.lower m with
  | error e =>
    rw [h] at hi
    cases hi
  | ok is =>
    rw [h] at hi
    exact ⟨m, hm, operands_lower h hi hr⟩

end MoveContext

/-! ## The phases -/

/-- The first register of a general sequence, by index. -/
theorem Convention.contains_first {c : Convention} {file : RegisterFile} {q : Sequence}
    {r : Register} (hc : c.faultOn? file = none) (hq : q.bank = .general)
    (hr : c.first q = .ok r) : file.contains (.general r.index) = true := by
  have hmem := first_eq_ok hr
  rw [Register.general_index (isGeneral_of_mem c hq hmem)]
  exact (faultOn?_eq_none_iff.1 hc r (mem_named_of_mem_registers hmem)).1

namespace Blueprint

variable {b : Blueprint} {o : FrameOffsets} {stub : Stub} {p : Phase} {i : Instruction}
  {r : Register}

namespace Sound

theorem contains_stackPointer (b : Blueprint) :
    b.request.target.file.contains (.general b.sp) = true := by
  rw [general_sp]
  exact b.request.target.file.contains_iff_mem.2 (Or.inr rfl)

theorem contains_roles (b : Blueprint) (hr : r ∈ b.request.target.roles.registers) :
    b.request.target.file.contains (.general r.index) = true := by
  rw [Register.general_index (isGeneral_roles b hr)]
  exact (b.request.target.roles_sound hr).2.1

/-- The registers of the shuffle exist. -/
theorem contains_of_mem_moves (h : b.Sound) {m : Move} (hm : m ∈ b.shuffle.moves)
    (hr : b.moveContext.Names m r) : b.request.target.file.contains r = true := by
  have hshuffle : b.request.target.file.contains b.shuffle.scratch = true := by
    rw [h.scratch]
    exact (b.request.target.roles_sound (by simp [Roles.mem_registers])).2.1
  rcases hr with hs | ht | rfl | rfl | rfl
  · rcases Shuffle.source_of_mem_moves hm with heq | hmem
    · rw [hs] at heq
      exact Location.register.inj heq ▸ hshuffle
    · rw [h.sources_mapping, hs] at hmem
      exact (h.mem_nativeArgs (Placement.mem_registers_iff.2 hmem)).1
  · rcases h.target_of_mem_moves hm ht with rfl | hmem
    · exact h.scratch ▸ hshuffle
    · exact (h.mem_runtimeArgs (mem_tail_registers hmem)).1
  · exact (b.request.target.roles_sound (by simp [moveContext, Roles.mem_registers])).2.1
  · change b.request.target.file.contains (.general b.request.target.file.framePointer.index) = true
    rw [general_fp]
    exact b.request.target.file.contains_framePair.1
  · exact contains_stackPointer b

/-- A phase that stores or loads a save area by the stack pointer names registers that exist if
those of the area do. -/
theorem contains_slots {a : SaveArea} {keep : Keep} {offset : Nat}
    (ha : ∀ r ∈ a.registers, b.request.target.file.contains r = true)
    (hi : i ∈ (SaveArea.storeDraft keep b.sp offset a.slots).code ∨
      i ∈ (SaveArea.loadDraft keep b.sp offset a.slots).code) (hr : r ∈ i.operands) :
    b.request.target.file.contains r = true := by
  rcases SaveArea.operands_slots hi hr with hmem | rfl
  · exact ha r hmem
  · exact contains_stackPointer b

theorem contains_argSave (h : b.Sound) :
    ∀ r ∈ b.argSave.registers, b.request.target.file.contains r = true :=
  fun _ hr => (h.mem_nativeArgs hr).1

theorem contains_resultSave (h : b.Sound) :
    ∀ r ∈ b.resultSave.registers, b.request.target.file.contains r = true :=
  fun _ hr => (h.mem_nativeReturns hr).1

theorem contains_calleeSave (b : Blueprint) :
    ∀ r ∈ b.calleeSave.registers, b.request.target.file.contains r = true :=
  fun _ hr =>
    b.request.target.file.contains_iff_mem.2 (Or.inl (Convention.mem_preserved_iff.1 hr).1)

/-- The argument shuffle names the registers that the moves are about, and those that carry
addresses. -/
theorem contains_shuffleArgs (h : b.Sound) (hb : b.Builds o stub)
    (hi : i ∈ b.code o .shuffleArgs) :
    ∀ r ∈ i.operands, b.request.target.file.contains r = true := by
  rw [code_shuffleArgs] at hi
  simp only [List.cons_append, List.mem_cons, List.mem_append, List.not_mem_nil, or_false] at hi
  rcases hi with rfl | ((hi | hi) | hi) | rfl
  · simp [Instruction.operands]
  · exact fun r => contains_slots h.contains_argSave (Or.inr hi)
  · intro r hr
    obtain ⟨m, hm, hnames⟩ := MoveContext.operands_draft hi hr
    exact h.contains_of_mem_moves hm hnames
  · rcases h.bufferCode_eq hb with ⟨_, _, hcode⟩ | ⟨bytes, reg, imm, hbuffer, hg, _, _, hcode⟩
    · rw [hcode] at hi
      cases hi
    · rw [hcode, List.mem_singleton] at hi
      simp [hi, Instruction.operands, contains_stackPointer, Register.general_index hg,
        (h.mem_buffer hbuffer).1]
  · simp [Instruction.operands]

/-- Collecting the result names the registers that it is loaded into, and the one that has the
address of the buffer. -/
theorem contains_handleResult (h : b.Sound) (hi : i ∈ b.code o .handleResult) :
    ∀ r ∈ i.operands, b.request.target.file.contains r = true := by
  have hscratch := (Roles.forall_mem_registers.1 fun _ => contains_roles b).2.2.1
  rw [code_handleResult] at hi
  cases ho : o.buffer with
  | none =>
    rw [ho] at hi
    cases hi
  | some pair =>
    rw [ho] at hi
    rcases List.mem_cons.1 hi with rfl | hi
    · simp [frameAddress, Instruction.operands, hscratch, contains_stackPointer]
    · intro r hr
      rcases SaveArea.operands_slots (Or.inr hi) hr with hmem | rfl
      · exact h.contains_resultSave r hmem
      · exact hscratch

/-- **The registers that a phase names exist.** -/
theorem contains_operands (h : b.Sound) (hb : b.Builds o stub) (p : Phase) :
    ∀ i ∈ b.code o p, ∀ r ∈ i.operands, b.request.target.file.contains r = true := by
  obtain ⟨hthread, hmethod, hscratch, hsecond, hshuffle⟩ :=
    Roles.forall_mem_registers.1 fun _ => contains_roles b
  have hsp := contains_stackPointer b
  have harg := Convention.contains_first h.native rfl h.hookArg
  have hresult := Convention.contains_first h.native rfl h.hookResult
  have hexception := Convention.contains_first h.runtime rfl h.exception
  have hreceiver : b.request.target.file.contains (.general b.boundary.receiver.index) = true := by
    rw [Register.general_index h.receiver.1]
    exact (h.mem_runtimeArgs h.mem_receiver).1
  cases p with
  | shuffleArgs => exact fun i => h.contains_shuffleArgs hb
  | handleResult => exact fun i => h.contains_handleResult
  -- the code of save areas
  | spillArgs =>
    rw [code_spillArgs]
    exact fun i hi r => contains_slots h.contains_argSave (Or.inl hi)
  | preserveCallee =>
    rw [code_preserveCallee]
    exact fun i hi r => contains_slots (contains_calleeSave b) (Or.inl hi)
  | spillResult =>
    rw [code_spillResult]
    exact fun i hi r => contains_slots h.contains_resultSave (Or.inl hi)
  | restoreCallee =>
    rw [code_restoreCallee]
    exact fun i hi r => contains_slots (contains_calleeSave b) (Or.inr hi)
  | fillResult =>
    rw [code_fillResult]
    exact fun i hi r => contains_slots h.contains_resultSave (Or.inr hi)
  -- fixed code
  | prologue =>
    rw [code_prologue]
    simp [Instruction.operands, hsp]
  | epilogue =>
    rw [code_epilogue]
    simp [Instruction.operands]
  | onEntry =>
    rw [code_onEntry]
    simp [frameAddress, Instruction.operands, hsp, harg, hscratch, hthread, hresult]
  | onExit =>
    rw [code_onExit]
    simp [frameAddress, Instruction.operands, hsp, harg, hscratch]
  | exceptionHandler =>
    rw [code_exceptionHandler]
    simp [Instruction.operands, harg, hexception, hscratch]
  | resolveReceiver =>
    rw [code_resolveReceiver]
    simp [Instruction.operands, hshuffle, hthread, hsecond, hreceiver]
  | invoke =>
    rw [code_invoke]
    simp [Instruction.operands, hmethod, hthread, hscratch]

end Sound

/-- The registers that a stub names exist. -/
theorem Builds.contains_operands (h : b.Builds o stub) (hs : b.Sound)
    (hi : i ∈ stub.code.instructions) :
    ∀ r ∈ i.operands, b.request.target.file.contains r = true := by
  obtain ⟨n, hn⟩ := List.getElem?_of_mem hi
  obtain ⟨p, k, _, hk⟩ := h.exists_phase hn
  exact hs.contains_operands h p i (List.mem_of_getElem? hk)

end Blueprint

end Trampoline
