import Trampoline.Proofs.Stub.Arguments

/-!
# From the entry hook to the method

The block between the first call and the second one has four steps: the thread is kept, the
arguments are moved, the receiver is resolved, and the method is announced to the thread and its
entry is looked up.  Each step has its own specification, and what a step leaves alone follows from
`Blueprint.writes`.

Two statements come out of it, and they have different assumptions.  `Sound.frame_toTarget` says
what the block leaves alone, and holds no matter what the entry hook has done to memory;
`Sound.argument_toTarget` says what arguments the method finds, and needs the hook to have left them
alone where they are saved.
-/

set_option autoImplicit false

namespace Trampoline

/-- The word in which a thread is told which method is about to be called. -/
def calleeWord (thread : Word) : Extent := .word (thread + calleeOffset.signExtend 64)

/-- The word that a method's entry is read from, unless the machine finds a cell there. -/
def Method.cellWord (method : Method) : Extent := .word method.cellAddress

/-- What the machine finds to be the entry of a method. -/
def Cpu.entry (c : Cpu) (cellAt : Word → Option CellId) (method : Method) : Word :=
  match cellAt method.cellAddress with
  | some cell => c.cells.load cell
  | none => c.memory.readWord method.cellAddress

/-- Looking up the entry of a method whose metadata is in a register. -/
theorem Cpu.execute_lookup {c : Cpu} {w : Wiring} {target base : RegIndex} {method : Method}
    (h : c.general base = method.metadata) :
    c.execute w (.loadAcquire target base cellOffset) =
      c.setGeneral target (c.entry w.cellAt method) := by
  have haddress : c.address base cellOffset = method.cellAddress := by
    rw [Cpu.address, h, Method.cellAddress]
  rw [Cpu.execute, Cpu.entry, haddress]
  cases w.cellAt method.cellAddress <;> rfl

namespace Blueprint

variable {b : Blueprint} {o : FrameOffsets} {stub : Stub} {c c' : Cpu} {w : Wiring}
  {r : Register} {p : Phase}

/-! ## The steps -/

theorem execute_keepThread :
    c.executeAll w ((b.code o .onEntry).drop 4) =
      c.setGeneral b.request.target.roles.thread.index (c.general b.hookResult.index) := by
  rw [code_onEntry, List.drop_succ_cons, List.drop_succ_cons, List.drop_succ_cons,
    List.drop_succ_cons, List.drop_zero, Cpu.executeAll_cons, Cpu.executeAll_cons,
    Cpu.executeAll_nil, Cpu.execute_move_general]
  rfl

/-- The receiver goes to its register. -/
theorem Sound.execute_resolveReceiver (h : b.Sound) (hfits : b.request.target.file.Fits)
    (hc' : c.executeAll w (b.code o .resolveReceiver) = c') :
    c'.memory = c.memory ∧ c'.cells = c.cells ∧
      c'.general b.boundary.receiver.index = c.memory.readWord b.request.receiver.slot := by
  have hmem : b.request.target.roles.shuffle ∈ b.request.target.roles.registers := by
    simp [Roles.mem_registers]
  have hshuffle := hfits.index_lt (b.request.target.roles_sound hmem).2.1
  have hreceiver := hfits.index_lt (h.mem_runtimeArgs h.mem_receiver).1
  generalize hs : b.request.target.roles.shuffle.index = s at hshuffle
  generalize hv : c.memory.readWord b.request.receiver.slot = v
  have hexec : c' = ((c.setGeneral s b.request.receiver.raw).setGeneral s v).setGeneral
      b.boundary.receiver.index v := by
    have hraw : (c.setGeneral s b.request.receiver.raw).general s = b.request.receiver.raw := by
      rw [Cpu.general_setGeneral _ _ hshuffle, if_pos rfl]
    have hobject : ((c.setGeneral s b.request.receiver.raw).setGeneral s v).general s = v := by
      rw [Cpu.general_setGeneral _ _ hshuffle, if_pos rfl]
    have hslot : (c.setGeneral s b.request.receiver.raw).memory.readWord
        (Handle.mk b.request.receiver.raw).slot = v := hv
    rw [← hc', code_resolveReceiver, hs]
    simp only [Cpu.executeAll_cons, Cpu.executeAll_nil, Cpu.execute_move_general]
    simp only [Cpu.execute, hraw, hslot, hobject]
  rw [hexec, Cpu.general_setGeneral _ _ hreceiver, if_pos rfl]
  exact ⟨rfl, rfl, rfl⟩

/-- The roles that are played together have registers of their own. -/
theorem role_index_ne (b : Blueprint) :
    b.request.target.roles.thread.index ≠ b.request.target.roles.method.index ∧
      b.request.target.roles.method.index ≠ b.request.target.roles.scratch.index := by
  have hnodup := b.request.target.roles_nodup
  have hgeneral : ∀ r ∈ b.request.target.roles.registers, .general r.index = r :=
    fun r hr => Register.general_index (Sound.isGeneral_roles b hr)
  obtain ⟨hthread, hmethod, hscratch, _, _⟩ := Roles.forall_mem_registers.1 hgeneral
  constructor
  · intro heq
    rw [heq, hmethod] at hthread
    simp [Roles.registers, Roles.toList, hthread] at hnodup
  · intro heq
    rw [heq, hscratch] at hmethod
    simp [Roles.registers, Roles.toList, hmethod] at hnodup

/-- The method is announced to the thread, and its entry is looked up. -/
theorem execute_invoke (hfits : b.request.target.file.Fits)
    (hc' : c.executeAll w ((b.code o .invoke).take 3) = c') :
    c'.memory = c.memory.writeWord
      (c.general b.request.target.roles.thread.index + calleeOffset.signExtend 64)
      b.request.method.metadata ∧
    c'.general b.request.target.roles.method.index = b.request.method.metadata ∧
    c'.general b.request.target.roles.scratch.index = c'.entry w.cellAt b.request.method := by
  have hindex : ∀ r ∈ b.request.target.roles.registers, r.index.toNat < bankSize :=
    fun r hr => hfits.index_lt (b.request.target.roles_sound hr).2.1
  obtain ⟨_, hmethod, hscratch, _, _⟩ := Roles.forall_mem_registers.1 hindex
  obtain ⟨hthread_method, hmethod_scratch⟩ := b.role_index_ne
  generalize hi : b.request.target.roles.thread.index = i at hthread_method ⊢
  generalize hj : b.request.target.roles.method.index = j
    at hmethod hthread_method hmethod_scratch ⊢
  generalize hk : b.request.target.roles.scratch.index = k at hscratch hmethod_scratch ⊢
  generalize hv : b.request.method.metadata = v
  -- the state before the entry is looked up
  obtain ⟨told, htold⟩ : ∃ told, told =
    (c.setGeneral j v).writeWord (c.general i + calleeOffset.signExtend 64) v := ⟨_, rfl⟩
  have hthread : (c.setGeneral j v).general i = c.general i :=
    Cpu.general_setGeneral_ne hthread_method
  have hheld : (c.setGeneral j v).general j = v := by
    rw [Cpu.general_setGeneral _ _ hmethod, if_pos rfl]
  have htoldMethod : told.general j = v := by rw [htold, Cpu.general_writeWord, hheld]
  have hexec : c' = told.setGeneral k (told.entry w.cellAt b.request.method) := by
    rw [← hc', code_invoke, hi, hj, hk, hv]
    simp only [List.take_succ_cons, List.take_zero, Cpu.executeAll_cons, Cpu.executeAll_nil]
    have hstore : ((c.execute w (.loadImm j v)).execute w (.store (.general j) i calleeOffset)) =
        told := by
      rw [Cpu.execute, Cpu.execute, Cpu.address, hthread, Cpu.low_general, hheld, htold]
    rw [hstore, Cpu.execute_lookup (htoldMethod.trans hv.symm)]
  have hmemory : told.memory =
      c.memory.writeWord (c.general i + calleeOffset.signExtend 64) v := by
    rw [htold, Cpu.memory_writeWord]
    rfl
  rw [hexec]
  refine ⟨?_, ?_, ?_⟩
  · rw [← hmemory]
    rfl
  · rw [Cpu.general_setGeneral_ne hmethod_scratch, htoldMethod]
  · rw [Cpu.general_setGeneral _ _ hscratch, if_pos rfl]
    rfl

/-! ## What the steps leave alone -/

namespace Sound

/-- The thread's register is not written while the call is prepared. -/
theorem thread_not_written (h : b.Sound) (hp : p ∈ [Phase.shuffleArgs, .resolveReceiver, .invoke]) :
    b.request.target.roles.thread ∉ b.writes p := by
  have hmem : b.request.target.roles.thread ∈ b.request.target.roles.registers := by
    simp [Roles.mem_registers]
  have hnodup := b.request.target.roles_nodup
  simp only [Roles.registers, Roles.toList, List.map_cons, List.map_nil, List.nodup_cons,
    List.mem_cons, List.not_mem_nil, or_false, not_or] at hnodup
  obtain ⟨⟨hmethod, hscratch, hsecond, hshuffle⟩, _⟩ := hnodup
  simp only [List.mem_cons, List.not_mem_nil, or_false] at hp
  rcases hp with rfl | rfl | rfl
  · simp only [writes, List.mem_append, List.mem_cons, List.not_mem_nil, or_false,
      Option.mem_toList, Option.map_eq_some_iff, not_or]
    refine ⟨⟨⟨?_, ?_⟩, hshuffle, hsecond⟩, ?_⟩
    · intro hn
      exact (h.roles_native _ hn).1 rfl
    · intro ht
      exact h.roles_runtime _ (mem_tail_registers ht) hmem
    · rintro ⟨⟨bytes, reg⟩, hbuffer, heq⟩
      exact (h.buffered bytes reg hbuffer).2.2.2.1 ((show reg = _ from heq) ▸ hmem)
  · simp only [writes, List.mem_cons, List.not_mem_nil, or_false, not_or]
    exact ⟨hshuffle, fun heq => h.roles_runtime _ h.mem_receiver (heq ▸ hmem)⟩
  · simp only [writes, List.mem_cons, List.not_mem_nil, or_false, not_or]
    exact ⟨hmethod, hscratch⟩

/-- A register that is nobody's role and not the receiver's survives the last two steps... -/
theorem free_not_written (hr : r ∉ b.request.target.roles.registers)
    (hreceiver : r ≠ b.boundary.receiver)
    (hp : p ∈ [Phase.resolveReceiver, .invoke]) : r ∉ b.writes p := by
  rw [Roles.not_mem_registers] at hr
  simp only [List.mem_cons, List.not_mem_nil, or_false] at hp
  rcases hp with rfl | rfl
  · simp only [writes, List.mem_cons, List.not_mem_nil, or_false, not_or]
    exact ⟨hr.2.2.2.2, hreceiver⟩
  · simp only [writes, List.mem_cons, List.not_mem_nil, or_false, not_or]
    exact ⟨hr.2.1, hr.2.2.1⟩

/-! ## The block as a whole -/

/-- The states between the steps. -/
theorem exists_steps (h : b.Sound) (hb : b.Builds o stub) (hc : b.OnFrame stub c)
    (hfits : b.request.target.file.Fits) (hc' : c.executeAll w (b.toTarget o) = c') :
    ∃ kept moved resolved,
      kept = c.setGeneral b.request.target.roles.thread.index (c.general b.hookResult.index) ∧
      kept.executeAll w (b.code o .shuffleArgs) = moved ∧
      moved.executeAll w (b.code o .resolveReceiver) = resolved ∧
      resolved.executeAll w ((b.code o .invoke).take 3) = c' ∧
      b.OnFrame stub kept ∧ b.OnFrame stub c' ∧
      resolved.general b.request.target.roles.thread.index = c.general b.hookResult.index := by
  have hthread : b.request.target.roles.thread ∈ b.request.target.roles.registers := by
    simp [Roles.mem_registers]
  have hlt := hfits.index_lt (b.request.target.roles_sound hthread).2.1
  refine ⟨_, _, _, rfl, rfl, rfl, ?_, ?_, ?_, ?_⟩
  · rw [← execute_keepThread (b := b) (o := o) (w := w), ← Cpu.executeAll_append,
      ← Cpu.executeAll_append, ← Cpu.executeAll_append, ← hc']
    simp only [toTarget, codes, List.flatMap_cons, List.flatMap_nil, List.append_nil,
      List.append_assoc]
  · rw [← execute_keepThread (b := b) (o := o) (w := w)]
    exact h.onFrame_part hb (p := .onEntry) (by decide) (List.drop_subset _ _) hc
  · rw [← hc']
    exact h.onFrame_block hb _ (by decide) (fun i => mem_toTarget) hc
  · have hindex := Register.general_index (isGeneral_roles b hthread)
    have hkept := Cpu.general_setGeneral c (j := b.request.target.roles.thread.index)
      (c.general b.hookResult.index) hlt
    rw [if_pos rfl] at hkept
    refine Eq.trans (Cpu.general_eq_of_register ?_) hkept
    rw [hindex, h.register_part hb (by decide) (List.Subset.refl _)
      (h.thread_not_written (by simp)), h.register_part hb (by decide) (List.Subset.refl _)
      (h.thread_not_written (by simp))]

/-- **What the block in front of the method leaves alone**: the frame is where it was, and no byte
changes but those of the outgoing arguments and of the word for the thread. -/
theorem frame_toTarget (h : b.Sound) (hb : b.Builds o stub)
    (hfits : b.request.target.file.Fits) (hc : b.OnFrame stub c)
    (hc' : c.executeAll w (b.toTarget o) = c') :
    b.OnFrame stub c' ∧ ∀ a ∉ stub.region .outArgs, a ∉ calleeWord (c.general b.hookResult.index) →
      c'.memory.byte a = c.memory.byte a := by
  obtain ⟨kept, moved, resolved, hkept, hmoved, hresolved, hinvoked, hframe, hframe', hthread⟩ :=
    h.exists_steps hb hc hfits hc'
  refine ⟨hframe', ?_⟩
  intro a ha hcallee
  rw [(execute_invoke hfits hinvoked).1, hthread, Memory.byte_writeWord_of_not_mem hcallee,
    (h.execute_resolveReceiver hfits hresolved).1,
    (h.frame_shuffleArgs hb hfits hframe hmoved).2 a ha, hkept]
  rfl

/-- The thread and the method, and the entry that is called. -/
theorem roles_toTarget (h : b.Sound) (hb : b.Builds o stub) (hfits : b.request.target.file.Fits)
    (hc : b.OnFrame stub c) (hc' : c.executeAll w (b.toTarget o) = c') :
    c'.general b.request.target.roles.thread.index = c.general b.hookResult.index ∧
      c'.general b.request.target.roles.method.index = b.request.method.metadata ∧
      c'.memory.readWord (c.general b.hookResult.index + calleeOffset.signExtend 64) =
        b.request.method.metadata ∧
      c'.general b.request.target.roles.scratch.index = c'.entry w.cellAt b.request.method := by
  obtain ⟨kept, moved, resolved, _, _, _, hinvoked, _, _, hthread⟩ :=
    h.exists_steps hb hc hfits hc'
  obtain ⟨hmemory, hmethod, hentry⟩ := execute_invoke hfits hinvoked
  refine ⟨?_, hmethod, ?_, hentry⟩
  · rw [← hthread, ← hinvoked]
    refine Cpu.general_eq_of_register ?_
    rw [Register.general_index (isGeneral_roles b (by simp [Roles.mem_registers]))]
    exact h.register_part hb (p := .invoke) (by decide) (List.take_subset _ _)
      (h.thread_not_written (by simp))
  · rw [hmemory, hthread, Memory.readWord_writeWord]

/-- The entry is still the one that the method had when the entry hook returned. -/
theorem entry_toTarget (h : b.Sound) (hb : b.Builds o stub) (hfits : b.request.target.file.Fits)
    (hc : b.OnFrame stub c) (hc' : c.executeAll w (b.toTarget o) = c')
    (hframe : w.cellAt b.request.method.cellAddress = none →
      b.request.method.cellWord.Apart (stub.region .outArgs) ∧
        b.request.method.cellWord.Apart (calleeWord (c.general b.hookResult.index))) :
    c'.entry w.cellAt b.request.method = c.entry w.cellAt b.request.method := by
  have hcells : c'.cells = c.cells := by rw [← hc', Cpu.cells_executeAll]
  have hbytes := (h.frame_toTarget hb hfits hc hc').2
  rw [Cpu.entry, Cpu.entry, hcells]
  split
  · rfl
  · rename_i hcell
    obtain ⟨hout, hcallee⟩ := hframe hcell
    exact Memory.readWord_congr fun a ha => hbytes a (hout a ha) (hcallee a ha)

/-- The receiver is in its register. -/
theorem receiver_toTarget (h : b.Sound) (hb : b.Builds o stub)
    (hfits : b.request.target.file.Fits) (hc : b.OnFrame stub c)
    (hc' : c.executeAll w (b.toTarget o) = c')
    (hslot : (Extent.word b.request.receiver.slot).Apart (stub.region .outArgs)) :
    c'.general b.boundary.receiver.index = c.memory.readWord b.request.receiver.slot := by
  obtain ⟨kept, moved, resolved, hkept, hmoved, hresolved, hinvoked, hframe, _, _⟩ :=
    h.exists_steps hb hc hfits hc'
  have hroles := Roles.not_mem_registers.1 (h.roles_runtime _ h.mem_receiver)
  have hlast : c'.general b.boundary.receiver.index =
      resolved.general b.boundary.receiver.index := by
    rw [← hinvoked]
    refine Cpu.general_eq_of_register ?_
    rw [Register.general_index h.receiver.1]
    refine h.register_part hb (p := .invoke) (by decide) (List.take_subset _ _) ?_
    simp only [writes, List.mem_cons, List.not_mem_nil, or_false, not_or]
    exact ⟨hroles.2.1, hroles.2.2.1⟩
  rw [hlast, (h.execute_resolveReceiver hfits hresolved).2.2]
  refine Memory.readWord_congr ?_
  intro a ha
  rw [(h.frame_shuffleArgs hb hfits hframe hmoved).2 a (hslot a ha), hkept]
  rfl

/-- What is in place after the shuffle stays there. -/
theorem register_toTarget (h : b.Sound) (hb : b.Builds o stub) {moved resolved : Cpu}
    (hresolved : moved.executeAll w (b.code o .resolveReceiver) = resolved)
    (hinvoked : resolved.executeAll w ((b.code o .invoke).take 3) = c')
    (hr : r ∉ b.request.target.roles.registers) (hreceiver : r ≠ b.boundary.receiver) :
    c'.register r = moved.register r := by
  rw [← hinvoked, h.register_part hb (p := .invoke) (by decide) (List.take_subset _ _)
    (free_not_written hr hreceiver (by simp)), ← hresolved,
    h.register_part hb (by decide) (List.Subset.refl _) (free_not_written hr hreceiver (by simp))]

/-- The address of the return buffer is in its register. -/
theorem buffer_toTarget (h : b.Sound) (hb : b.Builds o stub)
    (hfits : b.request.target.file.Fits) (hc : b.OnFrame stub c)
    (hc' : c.executeAll w (b.toTarget o) = c') {bytes : Nat} {reg : Register}
    (hbuffer : b.boundary.buffer = some (bytes, reg)) :
    c'.general reg.index = stub.frameBase + BitVec.ofNat 64 b.demand.dataStop := by
  obtain ⟨kept, moved, resolved, _, hmoved, hresolved, hinvoked, hframe, _, _⟩ :=
    h.exists_steps hb hc hfits hc'
  obtain ⟨_, hreg, hargs, hroles, _⟩ := h.buffered bytes reg hbuffer
  rw [← h.buffer_shuffleArgs hb hfits hframe hmoved hbuffer]
  refine Cpu.general_eq_of_register ?_
  rw [Register.general_index (Convention.isGeneral_of_returnBuffer hreg)]
  exact h.register_toTarget hb hresolved hinvoked hroles fun heq => hargs (heq ▸ h.mem_receiver)

/-- **The arguments are where the runtime wants them.** -/
theorem argument_toTarget (h : b.Sound) (hb : b.Builds o stub)
    (hfits : b.request.target.file.Fits) (hc : b.OnFrame stub c)
    (hc' : c.executeAll w (b.toTarget o) = c') {before : Cpu} {m : Move}
    (hargs : b.argSave.Holds c.memory stub.frameBase (b.layout.offset .argSave) before)
    (hstack : ∀ offset, .incoming offset ∈ b.boundary.nativeArgs.locations →
      ∀ a ∈ Extent.word (b.request.argumentStart + BitVec.ofInt 64 offset),
        c.memory.byte a = before.memory.byte a)
    (hcallee : (calleeWord (c.general b.hookResult.index)).Apart (stub.region .outArgs))
    (hm : m ∈ b.shuffle.mapping) :
    c'.argument stub.frameBase m.target =
      b.shuffle.arrival m (before.argument b.request.argumentStart m.source) := by
  obtain ⟨kept, moved, resolved, hkept, hmoved, hresolved, hinvoked, hframe, _, hthread⟩ :=
    h.exists_steps hb hc hfits hc'
  have hmemory : kept.memory = c.memory := by rw [hkept]; rfl
  have harrival := h.content_shuffleArgs hb hfits hframe hmoved (hmemory.symm ▸ hargs)
    (hmemory.symm ▸ hstack) hm
  refine Eq.trans ?_ harrival
  have hruntime : m.target ∈ Placement.locations b.boundary.runtimeArgs.tail := by
    rw [← h.targets_mapping]
    exact List.mem_map_of_mem hm
  have hincoming := Shuffle.target_ne_incoming hm
  generalize m.target = target at hruntime hincoming
  cases target with
  | register r =>
    have hr := Placement.mem_registers_iff.2 hruntime
    refine h.register_toTarget hb hresolved hinvoked (h.roles_runtime r (mem_tail_registers hr)) ?_
    exact fun heq => h.receiver_not_mem_tail (heq ▸ hr)
  | stack area offset =>
    cases area with
    | incoming => exact absurd rfl (hincoming offset)
    | outgoing =>
      rw [Cpu.argument, Cpu.argument]
      refine congrArg _ (Memory.readWord_congr ?_)
      intro a ha
      have hout : a ∈ stub.region .outArgs := h.mem_outArgs hb hruntime ha
      rw [(execute_invoke hfits hinvoked).1, hthread, Memory.byte_writeWord_of_not_mem
        fun hmem => hcallee a hmem hout, (h.execute_resolveReceiver hfits hresolved).1]

end Sound

end Blueprint

end Trampoline
