import Trampoline.Proofs.Stub.Path

/-!
# Which registers a phase writes

`Blueprint.writes` lists for each phase the registers that its code may write, in terms of what they
are for: the argument registers, the result registers, the registers that the stub keeps for itself.
That a register survives a phase is then a matter of not being in the list (`Sound.register_block`),
and the checks of a request say who is in which list.

In the phases between entry and exit nobody writes the two registers that hold the stack
(`Sound.holdsFrame_writes`), so the frame stays where it is.
-/

set_option autoImplicit false

namespace Trampoline

namespace Blueprint

variable (b : Blueprint)

/-- The registers that a phase may write, apart from those that entry and exit move the stack
with. -/
def writes : Phase → List Register
  | .prologue | .epilogue | .spillArgs | .preserveCallee | .spillResult => []
  | .onEntry => [b.hookArg, b.request.target.roles.scratch, b.request.target.roles.thread]
  | .shuffleArgs =>
    b.boundary.nativeArgs.registers ++ Placement.registers b.boundary.runtimeArgs.tail ++
      [b.request.target.roles.shuffle, b.request.target.roles.secondScratch] ++
      (b.boundary.buffer.map Prod.snd).toList
  | .resolveReceiver => [b.request.target.roles.shuffle, b.boundary.receiver]
  | .invoke => [b.request.target.roles.method, b.request.target.roles.scratch]
  | .handleResult =>
    if b.boundary.buffer.isSome then
      b.request.target.roles.scratch :: b.boundary.nativeReturns.registers
    else []
  | .onExit | .exceptionHandler => [b.hookArg, b.request.target.roles.scratch]
  | .restoreCallee => b.calleeSave.registers
  | .fillResult => b.boundary.nativeReturns.registers

end Blueprint

namespace Convention

variable {c : Convention} {reg : Register}

theorem isGeneral_of_mem (c : Convention) {q : Sequence} (hq : q.bank = .general)
    (h : reg ∈ c.registers q) : reg.isGeneral = true := by
  rw [Register.isGeneral, (c.mem_sequence q).1 reg h, hq]
  rfl

theorem isGeneral_of_returnBuffer (h : c.returnBuffer = some reg) : reg.isGeneral = true := by
  have hsound := c.sound
  simp only [Settings.fault?, orElse_eq_none_iff, Settings.bufferFault?, h] at hsound
  simpa using hsound.2.2.2.2.2.2

end Convention

namespace SaveArea

variable {a : SaveArea} {base : RegIndex} {offset : Nat} {i : Instruction}

theorem mem_registers_of_mem_slots {p : Register × Nat} (h : p ∈ a.slots) :
    p.1 ∈ a.registers := by
  have hmem := List.mem_map_of_mem (f := Prod.fst) h
  rwa [slots, map_fst_slotsFrom] at hmem

/-- Storing an area writes no register... -/
theorem written_stores {rs : List Register}
    (hi : i ∈ (storeDraft a.keep base offset a.slots).code) :
    i.isSteady = true ∧ ∀ r ∈ i.written, r ∈ rs := by
  obtain ⟨_, hsteady, hwritten⟩ := mem_storeDraft hi
  refine ⟨hsteady, ?_⟩
  intro r hr
  exact absurd (hwritten ▸ hr) List.not_mem_nil

/-- ...and loading it writes those of the area. -/
theorem written_loads {keep : Keep} (hi : i ∈ (loadDraft keep base offset a.slots).code) :
    i.isSteady = true ∧ ∀ r ∈ i.written, r ∈ a.registers := by
  obtain ⟨_, hsteady, _, p, hp, hwritten⟩ := mem_loadDraft hi
  refine ⟨hsteady, ?_⟩
  intro r hr
  rw [hwritten, List.mem_singleton] at hr
  exact hr ▸ mem_registers_of_mem_slots hp

end SaveArea

namespace Blueprint.Sound

variable {b : Blueprint} {o : FrameOffsets} {stub : Stub} {p : Phase} {i : Instruction}
  {r : Register} {w : Wiring} {c : Cpu}

theorem isGeneral_hookArg (h : b.Sound) : b.hookArg.isGeneral = true :=
  Convention.isGeneral_of_mem b.request.native rfl (Convention.first_eq_ok h.hookArg)

theorem isGeneral_roles (b : Blueprint) (h : r ∈ b.request.target.roles.registers) :
    r.isGeneral = true :=
  (b.request.target.roles_sound h).1

/-- The registers of moves are argument registers, or the one to park values in. -/
theorem target_of_mem_moves (h : b.Sound) {m : Move} (hm : m ∈ b.shuffle.moves)
    (ht : m.target = .register r) :
    r = b.request.target.roles.shuffle ∨
      r ∈ Placement.registers b.boundary.runtimeArgs.tail := by
  rcases Shuffle.target_of_mem_moves hm with heq | hmem
  · left
    rw [ht, h.scratch] at heq
    exact Location.register.inj heq
  · right
    rw [h.targets_mapping, ht] at hmem
    exact Placement.mem_registers_iff.2 hmem

/-- The code that passes the return buffer on, if there is one. -/
theorem bufferCode_eq (h : b.Sound) (hb : b.Builds o stub) :
    (b.boundary.buffer = none ∧ o.buffer = none ∧ b.bufferCode o = []) ∨
      ∃ bytes reg imm, b.boundary.buffer = some (bytes, reg) ∧ reg.isGeneral = true ∧
        Imm.ofInt? b.demand.dataStop = some imm ∧ o.buffer = some (imm, reg) ∧
        b.bufferCode o = [.addImm reg.index b.sp imm] := by
  obtain ⟨_, _, hnone, hsome⟩ := hb.offsets_eq
  cases hbuffer : b.boundary.buffer with
  | none => exact Or.inl ⟨rfl, hnone hbuffer, by rw [bufferCode, hnone hbuffer]⟩
  | some pair =>
    obtain ⟨bytes, reg⟩ := pair
    obtain ⟨imm, himm, ho⟩ := hsome bytes reg hbuffer
    refine Or.inr ⟨bytes, reg, imm, rfl, ?_, himm, ho, ?_⟩
    · exact Convention.isGeneral_of_returnBuffer (h.buffered bytes reg hbuffer).2.1
    · rw [bufferCode, ho]
      rfl

/-- Between entry and exit the code is steady, and writes no register that is not listed. -/
theorem written_code (h : b.Sound) (hb : b.Builds o stub) (hp : p ≠ .prologue)
    (hp' : p ≠ .epilogue) (hi : i ∈ b.code o p) :
    i.isSteady = true ∧ ∀ r ∈ i.written, r ∈ b.writes p := by
  have hroles : ∀ r ∈ b.request.target.roles.registers, Register.general r.index = r :=
    fun r hr => Register.general_index (isGeneral_roles b hr)
  obtain ⟨hthread, hmethod, hscratch, _, hshuffle⟩ := Roles.forall_mem_registers.1 hroles
  have harg := Register.general_index h.isGeneral_hookArg
  have hreceiver := Register.general_index h.receiver.1
  cases p with
  | prologue => exact absurd rfl hp
  | epilogue => exact absurd rfl hp'
  | spillArgs => exact SaveArea.written_stores (code_spillArgs b o ▸ hi)
  | preserveCallee => exact SaveArea.written_stores (code_preserveCallee b o ▸ hi)
  | spillResult => exact SaveArea.written_stores (code_spillResult b o ▸ hi)
  | restoreCallee => exact SaveArea.written_loads (code_restoreCallee b o ▸ hi)
  | fillResult => exact SaveArea.written_loads (code_fillResult b o ▸ hi)
  | onEntry =>
    rw [code_onEntry] at hi
    simp only [List.mem_cons, List.not_mem_nil, or_false] at hi
    rcases hi with rfl | rfl | rfl | rfl | rfl | rfl <;>
      simp [frameAddress, Instruction.isSteady, Instruction.written, writes, hthread, hscratch,
        harg]
  | onExit =>
    rw [code_onExit] at hi
    simp only [List.mem_cons, List.not_mem_nil, or_false] at hi
    rcases hi with rfl | rfl | rfl | rfl | rfl <;>
      simp [frameAddress, Instruction.isSteady, Instruction.written, writes, hscratch, harg]
  | exceptionHandler =>
    rw [code_exceptionHandler] at hi
    simp only [List.mem_cons, List.not_mem_nil, or_false] at hi
    rcases hi with rfl | rfl | rfl | rfl | rfl | rfl <;>
      simp [Instruction.isSteady, Instruction.written, writes, hscratch, harg]
  | resolveReceiver =>
    rw [code_resolveReceiver] at hi
    simp only [List.mem_cons, List.not_mem_nil, or_false] at hi
    rcases hi with rfl | rfl | rfl | rfl | rfl <;>
      simp [Instruction.isSteady, Instruction.written, writes, hshuffle, hreceiver]
  | invoke =>
    rw [code_invoke] at hi
    simp only [List.mem_cons, List.not_mem_nil, or_false] at hi
    rcases hi with rfl | rfl | rfl | rfl <;>
      simp [Instruction.isSteady, Instruction.written, writes, hmethod, hscratch]
  | handleResult =>
    rw [code_handleResult] at hi
    rcases h.bufferCode_eq hb with ⟨_, ho, _⟩ | ⟨bytes, reg, imm, hbuffer, _, _, ho, _⟩
    · rw [ho] at hi
      cases hi
    · rw [ho] at hi
      simp only [writes, hbuffer, Option.isSome_some, if_true]
      rcases List.mem_cons.1 hi with rfl | hi
      · simp [frameAddress, Instruction.isSteady, Instruction.written, hscratch]
      · obtain ⟨hsteady, hwritten⟩ := SaveArea.written_loads hi
        exact ⟨hsteady, fun r hr => List.mem_cons_of_mem _ (hwritten r hr)⟩
  | shuffleArgs =>
    rw [code_shuffleArgs] at hi
    simp only [List.cons_append, List.mem_cons, List.mem_append, List.not_mem_nil, or_false] at hi
    rcases hi with rfl | ((hi | hi) | hi) | rfl
    · exact ⟨rfl, fun r hr => absurd hr List.not_mem_nil⟩
    · obtain ⟨hsteady, hwritten⟩ := SaveArea.written_loads hi
      refine ⟨hsteady, ?_⟩
      intro r hr
      simp only [writes, List.mem_append]
      exact Or.inl (Or.inl (Or.inl (hwritten r hr)))
    · obtain ⟨m, hm, _, hsteady, hwritten⟩ := MoveContext.mem_draft hi
      refine ⟨hsteady, ?_⟩
      intro r hr
      rcases hwritten r hr with ht | rfl
      · rcases h.target_of_mem_moves hm ht with rfl | hmem <;> simp [writes, *]
      · simp [writes, moveContext]
    · rcases h.bufferCode_eq hb with ⟨_, _, hcode⟩ | ⟨bytes, reg, imm, hbuffer, hg, _, _, hcode⟩
      · rw [hcode] at hi
        cases hi
      · rw [hcode, List.mem_singleton] at hi
        subst hi
        simp [Instruction.isSteady, Instruction.written, writes, hbuffer,
          Register.general_index hg]
    · exact ⟨rfl, fun r hr => absurd hr List.not_mem_nil⟩

theorem mem_tail_registers (hr : r ∈ Placement.registers b.boundary.runtimeArgs.tail) :
    r ∈ b.boundary.runtimeArgs.registers := by
  rw [Placement.mem_registers_iff] at hr ⊢
  exact List.map_subset _ (fun _ => List.mem_of_mem_tail) hr

theorem mem_receiver (h : b.Sound) : b.boundary.receiver ∈ b.boundary.runtimeArgs.registers := by
  obtain ⟨_, slot, rest, hargs, hloc⟩ := h.receiver
  rw [Placement.mem_registers_iff, hargs, ← hloc]
  exact List.mem_cons_self

/-- Nothing that is written between entry and exit holds the frame, and all of it exists. -/
theorem holdsFrame_writes (h : b.Sound) (hr : r ∈ b.writes p) :
    b.request.target.file.contains r = true ∧ b.request.target.file.holdsFrame r = false := by
  have hroles : ∀ r ∈ b.request.target.roles.registers,
      b.request.target.file.contains r = true ∧ b.request.target.file.holdsFrame r = false :=
    fun r hr => (b.request.target.roles_sound hr).2
  obtain ⟨hthread, hmethod, hscratch, hsecond, hshuffle⟩ := Roles.forall_mem_registers.1 hroles
  have harg := h.native_named
    (Convention.mem_named_of_mem_registers (Convention.first_eq_ok h.hookArg))
  cases p with
  | prologue | epilogue | spillArgs | preserveCallee | spillResult => cases hr
  | onEntry =>
    simp only [writes, List.mem_cons, List.not_mem_nil, or_false] at hr
    rcases hr with rfl | rfl | rfl
    · exact harg
    · exact hscratch
    · exact hthread
  | onExit | exceptionHandler =>
    simp only [writes, List.mem_cons, List.not_mem_nil, or_false] at hr
    rcases hr with rfl | rfl
    · exact harg
    · exact hscratch
  | resolveReceiver =>
    simp only [writes, List.mem_cons, List.not_mem_nil, or_false] at hr
    rcases hr with rfl | rfl
    · exact hshuffle
    · exact h.mem_runtimeArgs h.mem_receiver
  | invoke =>
    simp only [writes, List.mem_cons, List.not_mem_nil, or_false] at hr
    rcases hr with rfl | rfl
    · exact hmethod
    · exact hscratch
  | handleResult =>
    simp only [writes] at hr
    split at hr
    · rcases List.mem_cons.1 hr with rfl | hr
      · exact hscratch
      · exact h.mem_nativeReturns hr
    · cases hr
  | restoreCallee =>
    simp only [writes, calleeSave, Convention.preserved, List.mem_filter, List.mem_append,
      Bool.and_eq_true, Bool.not_eq_true'] at hr
    exact ⟨b.request.target.file.contains_iff_mem.2 (Or.inl hr.1), hr.2.1⟩
  | fillResult => exact h.mem_nativeReturns hr
  | shuffleArgs =>
    simp only [writes, List.mem_append, List.mem_cons, List.not_mem_nil, or_false,
      Option.mem_toList, Option.map_eq_some_iff] at hr
    rcases hr with ((hr | hr) | rfl | rfl) | ⟨⟨bytes, reg⟩, hbuffer, rfl⟩
    · exact h.mem_nativeArgs hr
    · exact h.mem_runtimeArgs (mem_tail_registers hr)
    · exact hshuffle
    · exact hsecond
    · exact h.mem_buffer hbuffer

end Blueprint.Sound

end Trampoline
