import Trampoline.Proofs.Stub.Invocation

/-!
# From the method to the return

Two blocks remain when the method has returned.  The first one collects the results, from the return
buffer if there is one, and saves them (`Sound.execute_toExitHook`); the second one restores
everything, the results last (`Sound.result_toReturn` and its like).

A result register may be one that the caller wants preserved, and then it is written twice on the
way out.  The order of the two phases decides, and so it does in the statement: what is said of the
results has no exception, what is said of the preserved registers has the results as one.
-/

set_option autoImplicit false

namespace Trampoline.Blueprint

variable {b : Blueprint} {o : FrameOffsets} {stub : Stub} {c c' : Cpu} {w : Wiring}
  {cellAt : Word → Option CellId} {r : Register}

/-! ## Results -/

/-- Without a return buffer the results are where the method has left them... -/
theorem Builds.collect_direct (hb : b.Builds o stub) (hbuffer : b.boundary.buffer = none) :
    c.executeAll w (b.code o .handleResult) = c := by
  rw [code_handleResult, hb.offsets_eq.2.2.1 hbuffer]
  rfl

/-- ...and with one they are fetched from there. -/
theorem Sound.collect_buffered (h : b.Sound) (hb : b.Builds o stub)
    (hfits : b.request.target.file.Fits) (hc : b.OnFrame stub c) {bytes : Nat} {reg : Register}
    (hbuffer : b.boundary.buffer = some (bytes, reg))
    (hc' : c.executeAll w (b.code o .handleResult) = c') {p : Register × Nat}
    (hp : p ∈ b.resultSave.slots) :
    c'.register p.1 =
      (c.memory.readWord
        (stub.frameBase + BitVec.ofNat 64 (b.demand.dataStop + p.2))).setWidth 128 := by
  obtain ⟨imm, himm, ho⟩ := hb.offsets_eq.2.2.2 bytes reg hbuffer
  have hscratch : b.request.target.roles.scratch ∈ b.request.target.roles.registers := by
    simp [Roles.mem_registers]
  have hlt := hfits.index_lt (b.request.target.roles_sound hscratch).2.1
  have hregs : b.resultSave.slots.map Prod.fst = b.boundary.nativeReturns.registers :=
    SaveArea.map_fst_slotsFrom
  have hbase : .general b.request.target.roles.scratch.index ∉ b.resultSave.slots.map Prod.fst := by
    rw [hregs, Register.general_index (Sound.isGeneral_roles b hscratch)]
    exact (h.buffered bytes reg hbuffer).2.2.2.2
  -- the address of the buffer first, then the words in it
  obtain ⟨c₁, hc₁⟩ : ∃ c₁, c₁ = c.setGeneral b.request.target.roles.scratch.index
    (stub.frameBase + BitVec.ofNat 64 b.demand.dataStop) := ⟨_, rfl⟩
  have hexec : c₁.executeAll w (SaveArea.loadDraft .low b.request.target.roles.scratch.index 0
      b.resultSave.slots).code = c' := by
    rw [← hc', code_handleResult, ho, hc₁, ← hc.stack, ← BitVec.ofInt_natCast,
      ← Cpu.address_of_ofInt? himm]
    rfl
  have haddress : c₁.general b.request.target.roles.scratch.index =
      stub.frameBase + BitVec.ofNat 64 b.demand.dataStop := by
    rw [hc₁, Cpu.general_setGeneral _ _ hlt, if_pos rfl]
  have hmemory : c₁.memory = c.memory := by rw [hc₁]; rfl
  have hloads := SaveArea.executeAll_loads (w := w) (c := c₁) (hb.complete_handleResult ho)
    (fun q hq => hfits.index_lt (h.mem_nativeReturns (hregs ▸ List.mem_map_of_mem hq)).1)
    (fun p hp q hq heq => by
      rw [List.inj_on_of_nodup_map (hregs ▸ h.nativeReturns_nodup) hp hq heq])
    (fun q hq heq => absurd (heq ▸ List.mem_map_of_mem hq) hbase) p hp
  rw [← hexec, hloads, SaveArea.slotValue, hmemory, haddress, Nat.zero_add, BitVec.add_assoc,
    ← BitVec.ofNat_add]
  rfl

theorem memory_collect : (c.executeAll w (b.code o .handleResult)).memory = c.memory := by
  refine Cpu.memory_executeAll ?_
  intro i hi
  rw [code_handleResult] at hi
  split at hi
  · cases hi
  · rcases List.mem_cons.1 hi with rfl | hi
    · rfl
    · exact (SaveArea.mem_loadDraft hi).2.2.1

/-- **The block in front of the exit hook** collects the results and saves them, and touches no byte
but those that they are saved in. -/
theorem Sound.execute_toExitHook (h : b.Sound) (hb : b.Builds o stub) (hc : b.OnFrame stub c)
    (hc' : c.executeAll w (b.toExitHook o) = c') :
    b.OnFrame stub c' ∧
      (∀ a ∉ stub.region .resultSave, c'.memory.byte a = c.memory.byte a) ∧
      b.resultSave.Holds c'.memory stub.frameBase (b.layout.offset .resultSave)
        (c.executeAll w (b.code o .handleResult)) := by
  have hsize := hb.size_lt
  have horder := hb.layout_order
  have hblock : b.toExitHook o = b.code o .handleResult ++
      (b.code o .spillResult ++ (b.code o .onExit).take 3) := by
    simp only [toExitHook, codes, List.flatMap_cons, List.flatMap_nil, List.append_nil,
      List.append_assoc]
  have hframe : b.OnFrame stub (c.executeAll w (b.code o .handleResult)) :=
    h.onFrame_part hb (by decide) (List.Subset.refl _) hc
  obtain ⟨M, hM, hbytes, hholds⟩ := hframe.execute_spill (a := b.resultSave) (w := w)
    (hb.complete .spillResult) (by omega)
  rw [hblock, Cpu.executeAll_append, Cpu.executeAll_append, code_spillResult, hM] at hc'
  have hmemory : c'.memory = M := by
    rw [← hc']
    refine Cpu.memory_executeAll ?_
    intro i hi
    simp only [code_onExit, List.take_succ_cons, List.take_zero, List.mem_cons, List.not_mem_nil,
      or_false] at hi
    rcases hi with rfl | rfl | rfl <;> rfl
  refine ⟨?_, ?_, hmemory ▸ hholds⟩
  · rw [← hc']
    exact h.onFrame_part hb (p := .onExit) (by decide) (List.take_subset _ _)
      (hframe.of_memory M)
  · intro a ha
    rw [hb.region_eq.2.1] at ha
    rw [hmemory, hbytes a ha, memory_collect]

/-! ## The return -/

/-- Leaving takes the frame down, whatever has become of what was pushed. -/
theorem OnFrame.execute_leave (hc : b.OnFrame stub c) (hfits : b.request.target.file.Fits)
    (hc' : c.execute (b.wiring cellAt) .leave = c') :
    c'.general b.sp = stackTop ∧
      c'.general b.request.target.file.framePointer.index = c.memory.readWord (stackTop - 16) ∧
      (b.request.target.file.linkRegister ≠ b.request.target.file.stackPointer →
        c'.general b.request.target.file.linkRegister.index =
          c.memory.readWord (stackTop - 16 + 8)) ∧
      ∀ r, r ≠ b.request.target.file.framePointer → r ≠ b.request.target.file.stackPointer →
        r ≠ b.request.target.file.linkRegister → c'.register r = c.register r := by
  obtain ⟨hne, hne'⟩ := b.frame_index_ne
  have hcontains := b.request.target.file.contains_framePair
  have hfp := hfits.index_lt hcontains.1
  have hlr := hfits.index_lt hcontains.2
  have hspb : b.sp.toNat < bankSize := hfits.stackPointer
  have htop : stackTop - 16 + 16 = stackTop := rfl
  rw [← general_sp, ← general_fp, ← general_lr]
  have hexec : c' = ((c.setGeneral b.request.target.file.framePointer.index
      (c.memory.readWord (stackTop - 16))).setGeneral b.request.target.file.linkRegister.index
        (c.memory.readWord (stackTop - 16 + 8))).setGeneral b.sp stackTop := by
    rw [← hc', Cpu.execute]
    simp only [wiring, hc.frame, htop]
  generalize b.request.target.file.framePointer.index = f at hne hne' hfp hexec ⊢
  generalize b.request.target.file.linkRegister.index = l at hne' hlr hexec ⊢
  rw [hexec]
  refine ⟨?_, ?_, ?_, ?_⟩
  · rw [Cpu.general_setGeneral _ _ hspb, if_pos rfl]
  · rw [Cpu.general_setGeneral_ne hne, Cpu.general_setGeneral_ne hne',
      Cpu.general_setGeneral _ _ hfp, if_pos rfl]
  · intro hl
    rw [Cpu.general_setGeneral_ne fun heq => hl (congrArg _ heq), Cpu.general_setGeneral _ _ hlr,
      if_pos rfl]
  · intro r hf hs hl
    simp only [Cpu.setGeneral_eq_setRegister, Cpu.register_setRegister_ne hs,
      Cpu.register_setRegister_ne hl, Cpu.register_setRegister_ne hf]

/-- The states between the steps of the last block. -/
theorem Sound.exists_restored (h : b.Sound) (hb : b.Builds o stub) (hc : b.OnFrame stub c)
    (hc' : c.executeAll w (b.toReturn o) = c') :
    ∃ restored filled,
      c.executeAll w (b.code o .restoreCallee) = restored ∧
      restored.executeAll w (b.code o .fillResult) = filled ∧
      filled.execute w .leave = c' ∧
      b.OnFrame stub restored ∧ b.OnFrame stub filled ∧
      restored.memory = c.memory ∧ filled.memory = c.memory := by
  have hloads : ∀ {c : Cpu} {a : SaveArea} {offset : Nat},
      (c.executeAll w (SaveArea.loadDraft a.keep b.sp offset a.slots).code).memory = c.memory :=
    Cpu.memory_executeAll fun i hi => (SaveArea.mem_loadDraft hi).2.2.1
  have hrestored : b.OnFrame stub (c.executeAll w (b.code o .restoreCallee)) :=
    h.onFrame_part hb (by decide) (List.Subset.refl _) hc
  refine ⟨_, _, rfl, rfl, ?_, hrestored, ?_, ?_, ?_⟩
  · rw [← hc', toReturn, codes, List.flatMap_cons, List.flatMap_cons, List.flatMap_nil,
      List.append_nil, Cpu.executeAll_append, Cpu.executeAll_append, Cpu.executeAll_append]
    rfl
  · exact h.onFrame_part hb (by decide) (List.Subset.refl _) hrestored
  · rw [code_restoreCallee, hloads]
  · rw [code_fillResult, hloads, code_restoreCallee, hloads]

/-- **Results at the return**: what was saved of them. -/
theorem Sound.result_toReturn (h : b.Sound) (hb : b.Builds o stub)
    (hfits : b.request.target.file.Fits) (hc : b.OnFrame stub c)
    (hc' : c.executeAll (b.wiring cellAt) (b.toReturn o) = c') {collected : Cpu}
    (hholds : b.resultSave.Holds c.memory stub.frameBase (b.layout.offset .resultSave) collected)
    (hr : r ∈ b.boundary.nativeReturns.registers)
    (hlink : r ≠ b.request.target.file.linkRegister) : c'.register r = collected.register r := by
  obtain ⟨restored, filled, _, hfill, hleave, hframe, hframe', hmemory, _⟩ :=
    h.exists_restored hb hc hc'
  have hkept := RegisterFile.holdsFrame_eq_false_iff _ |>.1 (h.mem_nativeReturns hr).2
  have hbase : .general b.sp ∉ b.resultSave.registers :=
    sp_not_mem fun s hs => (h.mem_nativeReturns hs).2
  rw [← hmemory, ← hframe.stack] at hholds
  rw [(hframe'.execute_leave hfits hleave).2.2.2 r hkept.1 hkept.2 hlink, ← hfill,
    code_fillResult]
  exact SaveArea.executeAll_fill (hb.complete .fillResult) (fun hmem => absurd hmem hbase)
    (fun s hs => hfits.index_lt (h.mem_nativeReturns hs).1) hholds hr

/-- **Preserved registers at the return**: what was saved of them, unless a result is returned
there. -/
theorem Sound.preserved_toReturn (h : b.Sound) (hb : b.Builds o stub)
    (hfits : b.request.target.file.Fits) (hc : b.OnFrame stub c)
    (hc' : c.executeAll (b.wiring cellAt) (b.toReturn o) = c') {before : Cpu}
    (hholds : b.calleeSave.Holds c.memory stub.frameBase (b.layout.offset .calleeSave) before)
    (hr : r ∈ b.calleeSave.registers) (hreturn : r ∉ b.boundary.nativeReturns.registers)
    (hlink : r ≠ b.request.target.file.linkRegister) : c'.low r = before.low r := by
  obtain ⟨restored, filled, hrestore, hfill, hleave, hframe, hframe', _, _⟩ :=
    h.exists_restored hb hc hc'
  have hmem : ∀ s ∈ b.calleeSave.registers, (s ∈ b.request.target.file.generals ∨
      s ∈ b.request.target.file.vectors) ∧ s ≠ b.request.target.file.framePointer ∧
        s ≠ b.request.target.file.stackPointer := by
    intro s hs
    obtain ⟨hexists, hkept, _⟩ := Convention.mem_preserved_iff.1 hs
    exact ⟨hexists, RegisterFile.holdsFrame_eq_false_iff _ |>.1 hkept⟩
  have hbase : .general b.sp ∉ b.calleeSave.registers :=
    sp_not_mem fun s hs => (Convention.mem_preserved_iff.1 hs).2.1
  rw [← hc.stack] at hholds
  have hrestored : restored.register r = Keep.low.trim (before.register r) := by
    rw [← hrestore, code_restoreCallee]
    exact SaveArea.executeAll_fill (hb.complete .restoreCallee)
      (fun hmem => absurd hmem hbase)
      (fun s hs => hfits.index_lt (RegisterFile.contains_iff_mem _ |>.2 (Or.inl (hmem s hs).1)))
      hholds hr
  have hfilled : filled.register r = restored.register r := by
    rw [← hfill]
    exact h.register_part hb (p := .fillResult) (by decide) (List.Subset.refl _) hreturn
  rw [Cpu.low, (hframe'.execute_leave hfits hleave).2.2.2 r (hmem r hr).2.1 (hmem r hr).2.2 hlink,
    hfilled, hrestored, Keep.trim, setWidth_setWidth_word]
  rfl

/-- **The stack at the return**: as the frame pointer says, and what was pushed is back. -/
theorem Sound.frame_toReturn (h : b.Sound) (hb : b.Builds o stub)
    (hfits : b.request.target.file.Fits) (hc : b.OnFrame stub c)
    (hc' : c.executeAll (b.wiring cellAt) (b.toReturn o) = c') :
    c'.general b.sp = stackTop ∧
      c'.general b.request.target.file.framePointer.index = c.memory.readWord (stackTop - 16) ∧
      (b.request.target.file.linkRegister ≠ b.request.target.file.stackPointer →
        c'.general b.request.target.file.linkRegister.index =
          c.memory.readWord (stackTop - 16 + 8)) := by
  obtain ⟨restored, filled, _, _, hleave, _, hframe, _, hmemory⟩ := h.exists_restored hb hc hc'
  obtain ⟨hsp, hfp, hlr, _⟩ := hframe.execute_leave hfits hleave
  rw [hmemory] at hfp hlr
  exact ⟨hsp, hfp, hlr⟩

end Trampoline.Blueprint
