import Trampoline.Proofs.Stub.Writes

/-!
# What the phases do to the state

One specification for each phase that matters to more than one result: what the prologue sets up,
what the three save areas hold, what survives a block.

The stub addresses its frame by the stack pointer and the caller's arguments by the frame pointer.
`Blueprint.OnFrame` says that both are where the prologue has put them; this holds from the prologue
to the epilogue, as long as called code gives them back.
-/

set_option autoImplicit false

namespace Trampoline

/-- Adding the opposite of an immediate subtracts the offset. -/
theorem signExtend_neg_of_ofInt? {offset : Nat} {imm : Imm}
    (h : Imm.ofInt? offset = some imm) : (-imm).signExtend 64 = -BitVec.ofNat 64 offset := by
  have hrange := lt_of_ofInt? h
  have himm := Imm.toInt_of_ofInt? h
  refine BitVec.eq_of_toInt_eq ?_
  rw [BitVec.toInt_signExtend_of_le (by decide), BitVec.toInt_neg, BitVec.toInt_neg, himm,
    ← BitVec.ofInt_natCast, BitVec.toInt_ofInt, Int.bmod_def, Int.bmod_def, Int.bmod_def]
  split <;> split <;> split <;> omega

namespace Blueprint

variable (b : Blueprint)

/-- What does not change while a stub runs on the machine of its target. -/
def wiring (cellAt : Word → Option CellId) : Wiring where
  stack := b.sp
  frame := b.request.target.file.framePointer.index
  link := b.request.target.file.linkRegister.index
  cellAt := cellAt

theorem wiring_of_file {b : Blueprint} {σ : Type} {m : Machine σ}
    (h : m.file = b.request.target.file) : m.wiring = b.wiring m.cellAt := by
  rw [Machine.wiring, h]
  rfl

/-- The registers that hold the stack are where the prologue has put them. -/
structure OnFrame (stub : Stub) (c : Cpu) : Prop where
  stack : c.general b.sp = stub.frameBase
  frame : c.general b.request.target.file.framePointer.index = stackTop - 16

variable {b} {o : FrameOffsets} {stub : Stub} {c c' : Cpu} {cellAt : Word → Option CellId}
  {w : Wiring} {r : Register} {i : Instruction} {is : List Instruction}

/-! ## Registers of the frame -/

theorem general_sp (b : Blueprint) : .general b.sp = b.request.target.file.stackPointer :=
  Register.general_index b.request.target.file.isGeneral_of_frame.2.2

theorem general_fp (b : Blueprint) :
    .general b.request.target.file.framePointer.index = b.request.target.file.framePointer :=
  Register.general_index b.request.target.file.isGeneral_of_frame.1

theorem general_lr (b : Blueprint) :
    .general b.request.target.file.linkRegister.index = b.request.target.file.linkRegister :=
  Register.general_index b.request.target.file.isGeneral_of_frame.2.1

/-- Registers of different names have different indices in the same bank. -/
theorem frame_index_ne (b : Blueprint) :
    b.request.target.file.framePointer.index ≠ b.sp ∧
      b.request.target.file.framePointer.index ≠ b.request.target.file.linkRegister.index := by
  have hne := b.request.target.file.framePointer_ne
  rw [← general_sp, ← general_fp, ← general_lr] at hne
  exact ⟨fun heq => hne.1 (congrArg _ heq), fun heq => hne.2 (congrArg _ heq)⟩

theorem sp_not_mem {regs : List Register}
    (h : ∀ s ∈ regs, b.request.target.file.holdsFrame s = false) : .general b.sp ∉ regs := by
  rw [general_sp]
  intro hmem
  exact (RegisterFile.holdsFrame_eq_false_iff _ |>.1 (h _ hmem)).2 rfl

namespace Sound

/-- In a block of code from phases between entry and exit, what none of them writes survives. -/
theorem register_block (h : b.Sound) (hb : b.Builds o stub) (ps : List Phase)
    (hps : Phase.prologue ∉ ps ∧ Phase.epilogue ∉ ps) (his : ∀ i ∈ is, ∃ p ∈ ps, i ∈ b.code o p)
    (hr : ∀ p ∈ ps, r ∉ b.writes p) :
    (c.executeAll w is).register r = c.register r := by
  refine Cpu.register_executeAll ?_
  intro i hi
  obtain ⟨p, hp, hi⟩ := his i hi
  obtain ⟨hsteady, hwritten⟩ := h.written_code hb (fun heq => hps.1 (heq ▸ hp))
    (fun heq => hps.2 (heq ▸ hp)) hi
  exact ⟨hsteady, fun hmem => hr p hp (hwritten r hmem)⟩

theorem frame_not_written (h : b.Sound) {p : Phase} :
    b.request.target.file.stackPointer ∉ b.writes p ∧
      b.request.target.file.framePointer ∉ b.writes p := by
  have hkept : ∀ r ∈ b.writes p, r ≠ b.request.target.file.framePointer ∧
      r ≠ b.request.target.file.stackPointer :=
    fun r hr => (b.request.target.file.holdsFrame_eq_false_iff).1 (h.holdsFrame_writes hr).2
  exact ⟨fun hmem => (hkept _ hmem).2 rfl, fun hmem => (hkept _ hmem).1 rfl⟩

theorem general_sp_block (h : b.Sound) (hb : b.Builds o stub) (ps : List Phase)
    (hps : Phase.prologue ∉ ps ∧ Phase.epilogue ∉ ps) (his : ∀ i ∈ is, ∃ p ∈ ps, i ∈ b.code o p) :
    (c.executeAll w is).general b.sp = c.general b.sp := by
  refine Cpu.general_eq_of_register ?_
  rw [general_sp]
  exact h.register_block hb ps hps his fun _ _ => h.frame_not_written.1

/-- The frame stays where it is. -/
theorem onFrame_block (h : b.Sound) (hb : b.Builds o stub) (ps : List Phase)
    (hps : Phase.prologue ∉ ps ∧ Phase.epilogue ∉ ps) (his : ∀ i ∈ is, ∃ p ∈ ps, i ∈ b.code o p)
    (hc : b.OnFrame stub c) : b.OnFrame stub (c.executeAll w is) where
  stack := (h.general_sp_block hb ps hps his).trans hc.stack
  frame := by
    rw [← hc.frame]
    refine Cpu.general_eq_of_register ?_
    rw [general_fp]
    exact h.register_block hb ps hps his fun _ _ => h.frame_not_written.2

/-- What a phase between entry and exit does not write survives any part of it... -/
theorem register_part (h : b.Sound) (hb : b.Builds o stub) {p : Phase}
    (hp : Phase.prologue ≠ p ∧ Phase.epilogue ≠ p) (his : is ⊆ b.code o p) (hr : r ∉ b.writes p) :
    (c.executeAll w is).register r = c.register r := by
  refine h.register_block hb [p] ?_ (fun i hi => ⟨p, List.mem_singleton_self p, his hi⟩) ?_
  · simpa using hp
  · simpa using hr

/-- ...and so does the frame. -/
theorem onFrame_part (h : b.Sound) (hb : b.Builds o stub) {p : Phase}
    (hp : Phase.prologue ≠ p ∧ Phase.epilogue ≠ p) (his : is ⊆ b.code o p)
    (hc : b.OnFrame stub c) : b.OnFrame stub (c.executeAll w is) := by
  refine h.onFrame_block hb [p] ?_ (fun i hi => ⟨p, List.mem_singleton_self p, his hi⟩) hc
  simpa using hp

end Sound

/-! ## Prologue -/

/-- The prologue saves the frame pointer and the link register, sets the stack up, and touches
nothing else. -/
theorem Builds.execute_prologue (hb : b.Builds o stub) (hfits : b.request.target.file.Fits)
    (hsp : c.general b.sp = stackTop)
    (hc : c.executeAll (b.wiring cellAt) (b.code o .prologue) = c') :
    b.OnFrame stub c' ∧
      (∀ r, r ≠ b.request.target.file.framePointer → r ≠ b.request.target.file.stackPointer →
        c'.register r = c.register r) ∧
      (∀ a ∉ framePair, c'.memory.byte a = c.memory.byte a) ∧
      c'.memory.readWord (stackTop - 16) =
        c.general b.request.target.file.framePointer.index ∧
      c'.memory.readWord (stackTop - 16 + 8) =
        c.general b.request.target.file.linkRegister.index := by
  obtain ⟨hne, _⟩ := b.frame_index_ne
  have hfp := hfits.index_lt b.request.target.file.contains_framePair.1
  have hspb : b.sp.toNat < bankSize := hfits.stackPointer
  generalize hf : b.request.target.file.framePointer.index = f at hne hfp
  generalize hl : c.general b.request.target.file.linkRegister.index = link
  generalize htop : stackTop - 16 = top
  -- the state in three steps: what is pushed, where the two registers point, the room for the frame
  obtain ⟨saved, hsaved⟩ : ∃ saved, saved =
    (c.writeWord top (c.general f)).writeWord (top + 8) link := ⟨_, rfl⟩
  obtain ⟨entered, hentered⟩ : ∃ entered, entered =
    (saved.setGeneral b.sp top).setGeneral f top := ⟨_, rfl⟩
  have hexec : c' = entered.setGeneral b.sp (entered.address b.sp (-o.size)) := by
    rw [← hc, code_prologue, Cpu.executeAll_cons, Cpu.executeAll_cons, Cpu.executeAll_nil,
      Cpu.execute, Cpu.execute, hentered, hsaved]
    simp only [wiring, hsp, hf, hl, htop]
  have hentry : entered.general b.sp = top ∧ entered.general f = top := by
    rw [hentered, Cpu.general_setGeneral _ _ hfp, Cpu.general_setGeneral _ _ hfp, if_neg hne,
      if_pos rfl, Cpu.general_setGeneral _ _ hspb, if_pos rfl]
    exact ⟨rfl, rfl⟩
  have hmemory : c'.memory = (c.memory.writeWord top (c.general f)).writeWord (top + 8) link := by
    rw [hexec, hentered, hsaved]
    simp only [Cpu.setGeneral, Cpu.writeWord]
  refine ⟨⟨?_, ?_⟩, ?_, ?_, ?_, ?_⟩
  · rw [hexec, Cpu.general_setGeneral _ _ hspb, if_pos rfl, Cpu.address, hentry.1,
      signExtend_neg_of_ofInt? hb.offsets_eq.1, Stub.frameBase, hb.layout, ← htop,
      BitVec.sub_eq_add_neg (stackTop - 16)]
  · rw [hexec, hf, Cpu.general_setGeneral_ne hne, hentry.2, htop]
  · intro r hr hr'
    rw [← general_fp, hf] at hr
    rw [← general_sp] at hr'
    rw [hexec, hentered, hsaved]
    simp only [Cpu.setGeneral_eq_setRegister, Cpu.register_setRegister_ne hr,
      Cpu.register_setRegister_ne hr', Cpu.register_writeWord]
  · intro a ha
    rw [framePair, htop, Extent.mem_pair_iff, not_or] at ha
    rw [hmemory, Memory.byte_writeWord_of_not_mem ha.2, Memory.byte_writeWord_of_not_mem ha.1]
  · rw [hmemory, Memory.readWord_writeWord_of_apart (Extent.apart_next top),
      Memory.readWord_writeWord]
  · rw [hmemory, Memory.readWord_writeWord]

/-! ## From the entry to the entry hook -/

/-- The caller's registers are in the frame: the two that are pushed, and those that the caller
wants preserved. -/
structure Saved (b : Blueprint) (stub : Stub) (m : Memory) (before : Cpu) : Prop where
  framePointer :
    m.readWord (stackTop - 16) = before.general b.request.target.file.framePointer.index
  linkRegister :
    m.readWord (stackTop - 16 + 8) = before.general b.request.target.file.linkRegister.index
  callee : b.calleeSave.Holds m stub.frameBase (b.layout.offset .calleeSave) before

/-- They stay there as long as their bytes do. -/
theorem Saved.congr {m m' : Memory} {before : Cpu} (h : b.Saved stub m before)
    (hb : b.Builds o stub)
    (hbytes : ∀ a, a ∈ stub.region .calleeSave ∨ a ∈ framePair → m'.byte a = m.byte a) :
    b.Saved stub m' before where
  framePointer := by
    rw [← h.framePointer]
    exact Memory.readWord_congr fun a ha => hbytes a (Or.inr (Extent.mem_pair_iff.2 (Or.inl ha)))
  linkRegister := by
    rw [← h.linkRegister]
    exact Memory.readWord_congr fun a ha => hbytes a (Or.inr (Extent.mem_pair_iff.2 (Or.inr ha)))
  callee := by
    have hsize := hb.size_lt
    have horder := hb.layout_order
    rw [hb.region_eq.2.2.2] at hbytes
    exact h.callee.congr (by omega) fun a ha => hbytes a (Or.inl ha)

/-- Storing the registers of an area into its region of the frame. -/
theorem OnFrame.execute_spill {a : SaveArea} {offset : Nat} (hc : b.OnFrame stub c)
    (hcomplete : (SaveArea.storeDraft a.keep b.sp offset a.slots).Complete)
    (hfit : offset + a.bytes ≤ 2 ^ 64) :
    ∃ memory,
      c.executeAll w (SaveArea.storeDraft a.keep b.sp offset a.slots).code =
        { c with memory } ∧
      (∀ x ∉ (⟨stub.frameBase + BitVec.ofNat 64 offset, a.bytes⟩ : Extent),
        memory.byte x = c.memory.byte x) ∧
      a.Holds memory stub.frameBase offset c := by
  rw [← hc.stack]
  exact SaveArea.executeAll_spill hcomplete hfit

theorem OnFrame.of_memory (hc : b.OnFrame stub c) (memory : Memory) :
    b.OnFrame stub { c with memory } := ⟨hc.stack, hc.frame⟩

/-- Storing arguments and callee-saved registers, with the frame set up. -/
theorem Builds.execute_spills (hb : b.Builds o stub) (hc : b.OnFrame stub c) :
    ∃ memory,
      c.executeAll w (b.codes o [.spillArgs, .preserveCallee]) =
        { c with memory } ∧
      (∀ x, x ∉ stub.frame ∨ x ∈ framePair → memory.byte x = c.memory.byte x) ∧
      b.argSave.Holds memory stub.frameBase (b.layout.offset .argSave) c ∧
      b.calleeSave.Holds memory stub.frameBase (b.layout.offset .calleeSave) c := by
  have horder := hb.layout_order
  have hsize := hb.size_lt
  obtain ⟨M, hM, hbytes, hargs⟩ := hc.execute_spill (a := b.argSave) (w := w)
    (hb.complete .spillArgs) (by omega)
  obtain ⟨M', hM', hbytes', hcallee⟩ := (hc.of_memory M).execute_spill (a := b.calleeSave)
    (w := w) (hb.complete .preserveCallee) (by omega)
  refine ⟨M', ?_, ?_, ?_, hcallee⟩
  · rw [codes, List.flatMap_cons, List.flatMap_cons, List.flatMap_nil, List.append_nil,
      Cpu.executeAll_append, code_spillArgs, code_preserveCallee, hM, hM']
  · intro x hx
    rw [Builds.mem_frame_iff, hb.mem_framePair_iff] at hx
    rw [hbytes' x, hbytes x]
    · rw [hb.mem_piece_iff (by omega)]
      omega
    · rw [hb.mem_piece_iff (by omega)]
      omega
  · refine hargs.congr (by omega) fun x hx => hbytes' x ?_
    rw [hb.mem_piece_iff (by omega)] at hx ⊢
    omega

/-- **The block in front of the entry hook**: the frame is set up, everything is saved, and no byte
outside the frame is touched. -/
theorem Sound.execute_toEntryHook (h : b.Sound) (hb : b.Builds o stub)
    (hfits : b.request.target.file.Fits) (hsp : c.general b.sp = stackTop)
    (hc : c.executeAll (b.wiring cellAt) (b.toEntryHook o) = c') :
    b.OnFrame stub c' ∧ b.Saved stub c'.memory c ∧
      b.argSave.Holds c'.memory stub.frameBase (b.layout.offset .argSave) c ∧
      ∀ a ∉ stub.frame, c'.memory.byte a = c.memory.byte a := by
  rw [toEntryHook_eq, Cpu.executeAll_append, Cpu.executeAll_append] at hc
  obtain ⟨c₁, hc₁⟩ : ∃ c₁, c.executeAll (b.wiring cellAt) (b.code o .prologue) = c₁ := ⟨_, rfl⟩
  obtain ⟨hframe, hregs, hbytes, hfp, hlr⟩ := hb.execute_prologue hfits hsp hc₁
  obtain ⟨M, hM, hbytes', hargs, hcallee⟩ := hb.execute_spills (w := b.wiring cellAt) hframe
  rw [hc₁, hM] at hc
  -- the instructions in front of the call write registers only
  have hmemory : c'.memory = M := by
    rw [← hc]
    refine Cpu.memory_executeAll ?_
    intro i hi
    simp only [code_onEntry, List.take_succ_cons, List.take_zero, List.mem_cons, List.not_mem_nil,
      or_false] at hi
    rcases hi with rfl | rfl | rfl <;> rfl
  have hframe' : b.OnFrame stub c' := by
    rw [← hc]
    exact h.onFrame_part hb (p := .onEntry) (by decide) (List.take_subset _ _)
      (hframe.of_memory M)
  rw [hmemory]
  refine ⟨hframe', ⟨?_, ?_, hcallee.of_registers ?_⟩, hargs.of_registers ?_, ?_⟩
  · rw [← hfp]
    refine Memory.readWord_congr fun x hx => hbytes' x (Or.inr ?_)
    exact Extent.mem_pair_iff.2 (Or.inl hx)
  · rw [← hlr]
    refine Memory.readWord_congr fun x hx => hbytes' x (Or.inr ?_)
    exact Extent.mem_pair_iff.2 (Or.inr hx)
  · intro r hr
    have hkept := RegisterFile.holdsFrame_eq_false_iff _ |>.1
      (Convention.mem_preserved_iff.1 hr).2.1
    exact hregs r hkept.1 hkept.2
  · intro r hr
    have hkept := RegisterFile.holdsFrame_eq_false_iff _ |>.1 (h.mem_nativeArgs hr).2
    exact hregs r hkept.1 hkept.2
  · intro a ha
    rw [hbytes' a (Or.inl ha), hbytes a]
    rw [Builds.mem_frame_iff] at ha
    rw [hb.mem_framePair_iff]
    omega

end Blueprint

end Trampoline
