import Trampoline.Proofs.Stub.StackPointer

/-!
# The calls of the hooks

In front of the call of a hook are two instructions.  The first one puts the argument into the first
native argument register, the second one puts the address of the hook into the scratch register.
Whatever the two registers are, the address arrives; the argument does if they are not the same
(`Sound.hook_behind`, `Sound.hook_toUncaught`).
-/

set_option autoImplicit false

namespace Trampoline

/-- The hooks around the method, with the phases that they are called in. -/
def Hooks.around (h : Hooks) : List (Phase × Hook) := [(.onEntry, h.onEntry), (.onExit, h.onExit)]

theorem Hooks.mem_around {h : Hooks} {p : Phase} {hook : Hook} :
    (p, hook) ∈ h.around ↔ p = .onEntry ∧ hook = h.onEntry ∨ p = .onExit ∧ hook = h.onExit := by
  simp [around]

namespace Blueprint

variable {b : Blueprint} {o : FrameOffsets} {stub : Stub} {c c' : Cpu} {w : Wiring} {hook : Hook}
  {p : Phase} {front : List Instruction} {σ : Type} {m here thrown : Machine σ} {index : Nat}
  {exception value address : Word}

/-- The registers of a hook's argument and of its address. -/
theorem Sound.hook_index (h : b.Sound) (hfits : b.request.target.file.Fits) :
    b.hookArg.index.toNat < bankSize ∧ b.request.target.roles.scratch.index.toNat < bankSize ∧
      (b.request.target.roles.scratch.index = b.hookArg.index ↔
        b.hookArg = b.request.target.roles.scratch) := by
  have hmem : b.request.target.roles.scratch ∈ b.request.target.roles.registers := by
    simp [Roles.mem_registers]
  have hnamed := h.native_named
    (Convention.mem_named_of_mem_registers (Convention.first_eq_ok h.hookArg))
  refine ⟨hfits.index_lt hnamed.1, hfits.index_lt (b.request.target.roles_sound hmem).2.1, ?_⟩
  constructor
  · intro heq
    rw [← Register.general_index h.isGeneral_hookArg, ← heq,
      Register.general_index (Sound.isGeneral_roles b hmem)]
  · intro heq
    rw [heq]

/-- A value and then an address are put into the two registers. -/
theorem Sound.passed (h : b.Sound) (hfits : b.request.target.file.Fits)
    (hc' : (c.setGeneral b.hookArg.index value).setGeneral
      b.request.target.roles.scratch.index address = c') :
    c'.general b.request.target.roles.scratch.index = address ∧
      c'.general b.hookArg.index =
        if b.hookArg = b.request.target.roles.scratch then address else value := by
  obtain ⟨harg, hscratch, hsame⟩ := h.hook_index hfits
  subst hc'
  refine ⟨by rw [Cpu.general_setGeneral _ _ hscratch, if_pos rfl], ?_⟩
  rw [Cpu.general_setGeneral _ _ hscratch, Cpu.general_setGeneral _ _ harg, if_pos rfl]
  simp only [hsame]

/-- What a hook around the method is called with, whatever is done in front of its phase. -/
theorem Sound.hook_behind (h : b.Sound) (hb : b.Builds o stub)
    (hfits : b.request.target.file.Fits) (hp : (p, hook) ∈ b.request.hooks.around)
    (hc' : c.executeAll w (front ++ (b.code o p).take 3) = c') :
    c'.general b.request.target.roles.scratch.index = hook.address ∧
      c'.general b.hookArg.index =
        if b.hookArg = b.request.target.roles.scratch then hook.address
        else c'.general b.sp + BitVec.ofNat 64 stub.frameDataOffset := by
  rw [Cpu.executeAll_append] at hc'
  generalize c.executeAll w front = before at hc'
  have hphase : p ∈ [Phase.onEntry, .onExit] ∧
      before.executeAll w ((b.code o p).take 3) = before.executeAll w (b.callHook o hook) := by
    rcases Hooks.mem_around.1 hp with ⟨rfl, rfl⟩ | ⟨rfl, rfl⟩ <;> exact ⟨by simp, rfl⟩
  have hsp : c'.general b.sp = before.general b.sp := by
    rw [← hc']
    exact h.general_sp_block hb [.onEntry, .onExit] (by decide)
      fun i hi => ⟨p, hphase.1, List.mem_of_mem_take hi⟩
  refine h.passed (c := before) hfits ?_
  rw [hsp, ← hc', hphase.2, Stub.frameDataOffset, hb.layout, ← BitVec.ofInt_natCast,
    ← Cpu.address_of_ofInt? hb.offsets_eq.2.1]
  rfl

/-- What the hook for uncaught exceptions is called with. -/
theorem Sound.hook_toUncaught (h : b.Sound) (hfits : b.request.target.file.Fits)
    (hc' : c.executeAll w b.toUncaught = c') :
    c'.general b.request.target.roles.scratch.index = b.request.hooks.uncaught.address ∧
      c'.general b.hookArg.index =
        if b.hookArg = b.request.target.roles.scratch then b.request.hooks.uncaught.address
        else c.general b.exception.index := by
  refine h.passed (c := c) hfits ?_
  rw [← hc', toUncaught, Cpu.executeAll_cons, Cpu.executeAll_cons, Cpu.executeAll_nil,
    Cpu.execute_move_general]
  rfl

/-- A thrown exception is in the register for it. -/
theorem Sound.general_thrown (h : b.Sound) (hfits : b.request.target.file.Fits)
    (hexception : m.exceptionRegister = b.exception)
    (ht : m.ThrowsAt stub index exception thrown) :
    thrown.cpu.general b.exception.index = exception := by
  obtain ⟨m₁, target, e, host, cpu, hreach, _, _, _, rfl⟩ := ht
  have hnamed := h.runtime_named
    (Convention.mem_named_of_mem_registers (Convention.first_eq_ok h.exception))
  rw [Machine.raise, hreach.alike.exceptionRegister, hexception,
    Cpu.general_setGeneral _ _ (hfits.index_lt hnamed.1), if_pos rfl]

end Blueprint

end Trampoline
