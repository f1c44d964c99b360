import Trampoline.Proofs.Stub.Blocks
import Trampoline.Proofs.Stub.Handler

/-!
# The stack pointer at the calls

The prologue moves the stack pointer, the epilogue moves it back, and nothing in between touches it.
So if called code gives it back, it is the same at all three calls of a run that goes its normal way
(`Sound.general_sp_call`): what it was at the entry, less the two words that are pushed and the size
of the frame (`Builds.general_sp_prologue`).

This holds wherever the stack is at the entry.
-/

set_option autoImplicit false

namespace Trampoline.Blueprint

variable {b : Blueprint} {o : FrameOffsets} {stub : Stub} {c : Cpu} {w : Wiring} {p : Phase}
  {σ : Type} {m here : Machine σ} {cellAt : Word → Option CellId}

/-- Where the prologue leaves the stack pointer. -/
theorem Builds.general_sp_prologue (hb : b.Builds o stub) (hsp : b.sp.toNat < bankSize) :
    (c.executeAll (b.wiring cellAt) (b.code o .prologue)).general b.sp =
      c.general b.sp - 16 - BitVec.ofNat 64 stub.layout.size := by
  obtain ⟨hne, _⟩ := b.frame_index_ne
  have henter : (c.execute (b.wiring cellAt) .enter).general b.sp = c.general b.sp - 16 := by
    simp only [Cpu.execute, wiring]
    rw [Cpu.general_setGeneral_ne hne.symm, Cpu.general_setGeneral _ _ hsp, if_pos rfl]
  rw [code_prologue, Cpu.executeAll_cons, Cpu.executeAll_cons, Cpu.executeAll_nil]
  generalize c.execute (b.wiring cellAt) .enter = entered at henter ⊢
  rw [Cpu.execute, Cpu.general_setGeneral _ _ hsp, if_pos rfl, Cpu.address, henter,
    signExtend_neg_of_ofInt? hb.offsets_eq.1, hb.layout, ← BitVec.sub_eq_add_neg]

namespace Sound

theorem general_sp_toEntryHook (h : b.Sound) (hb : b.Builds o stub) :
    (c.executeAll w (b.toEntryHook o)).general b.sp =
      (c.executeAll w (b.code o .prologue)).general b.sp := by
  rw [toEntryHook_eq, Cpu.executeAll_append]
  refine h.general_sp_block hb [.spillArgs, .preserveCallee, .onEntry] (by decide) ?_
  intro i hi
  simp only [codes, List.flatMap_cons, List.flatMap_nil, List.append_nil, List.mem_append] at hi
  rcases hi with (hi | hi) | hi
  · exact ⟨.spillArgs, by simp, hi⟩
  · exact ⟨.preserveCallee, by simp, hi⟩
  · exact ⟨.onEntry, by simp, List.mem_of_mem_take hi⟩

/-- **The stack pointer is the same at all calls**, if called code gives it back. -/
theorem general_sp_call (h : b.Sound) (hb : b.Builds o stub)
    (hkeeps : ∀ p ∈ [Phase.onEntry, .invoke, .onExit], ∀ before after,
      m.ReturnsIn stub p before after → after.general b.sp = before.general b.sp)
    (hp : p ∈ [Phase.onEntry, .invoke, .onExit]) (hr : m.Reaches stub here (b.callIndex o p)) :
    here.cpu.general b.sp = (m.cpu.executeAll m.wiring (b.code o .prologue)).general b.sp := by
  have hentry : ∀ {here : Machine σ}, m.Reaches stub here (b.callIndex o .onEntry) →
      here.cpu.general b.sp = (m.cpu.executeAll m.wiring (b.code o .prologue)).general b.sp := by
    intro here hr
    rw [hb.reaches_entry hr, h.general_sp_toEntryHook hb]
  have htarget : ∀ {here : Machine σ}, m.Reaches stub here (b.callIndex o .invoke) →
      here.cpu.general b.sp = (m.cpu.executeAll m.wiring (b.code o .prologue)).general b.sp := by
    intro here hr
    obtain ⟨before, after, hreturns, hcpu⟩ := hb.reaches_target hr
    obtain ⟨first, hfirst, rfl⟩ := hb.reaches_of_returnsIn (by simp) hreturns
    rw [hcpu, h.general_sp_block hb _ (by decide) fun i => mem_toTarget,
      hkeeps _ (by simp) _ _ hreturns, hentry hfirst]
  simp only [List.mem_cons, List.not_mem_nil, or_false] at hp
  rcases hp with rfl | rfl | rfl
  · exact hentry hr
  · exact htarget hr
  · obtain ⟨before, after, hreturns, hcpu⟩ := hb.reaches_exit hr
    obtain ⟨second, hsecond, rfl⟩ := hb.reaches_of_returnsIn (by simp) hreturns
    rw [hcpu, h.general_sp_block hb _ (by decide) fun i => mem_toExitHook,
      hkeeps _ (by simp) _ _ hreturns, htarget hsecond]

end Sound

end Trampoline.Blueprint
