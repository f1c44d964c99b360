import Trampoline.Machine.Standin
import Trampoline.Proofs.Stub.Departure

/-!
# What stubs and the code they call owe each other

A stub can keep its promises only if the code that it calls keeps a few of its own.  It has to give
back the stack pointer and the frame pointer, and there are bytes that it must leave alone; which
ones, depends on the promise.  `Cpu.Keeps` is this relation between the states before a call and
after it, and the results about stubs assume it of the calls that a run really makes.

The frame is then in place from the entry to the return (`Sound.onFrame_chain`), and a
run whose calls all return is a run that returns (`Sound.exists_run_returned`), so that these
assumptions are about something.
-/

set_option autoImplicit false

namespace Trampoline

/-- The machine has these registers, and is about to enter a stub at the top of its stack. -/
structure Machine.Enters {σ : Type} (m : Machine σ) (file : RegisterFile) : Prop where
  same : m.file = file
  fits : file.Fits
  stackPointer : m.cpu.general file.stackPointer.index = stackTop

/-- Called code has given back the registers that hold the stack, and these bytes are what they
were. -/
structure Cpu.Keeps (before : Cpu) (file : RegisterFile) (kept : Word → Prop) (after : Cpu) :
    Prop where
  stackPointer :
    after.general file.stackPointer.index = before.general file.stackPointer.index
  framePointer :
    after.general file.framePointer.index = before.general file.framePointer.index
  bytes : ∀ a, kept a → after.memory.byte a = before.memory.byte a

/-- Whatever is called gives control back, and keeps these bytes. -/
def Machine.Serves {σ : Type} (m : Machine σ) (kept : Word → Prop) : Prop :=
  ∀ address, ∃ e, m.externalAt address = some e ∧
    ∀ host c, ∃ host' c', e.act host c = (.returns, host', c') ∧ c.Keeps m.file kept c'

/-- What returned was called where it is installed. -/
theorem Machine.ReturnsIn.exists_external {σ : Type} {m : Machine σ} {stub : Stub} {p : Phase}
    {before after : Cpu} (hr : m.ReturnsIn stub p before after) :
    ∃ address e host host', m.externalAt address = some e ∧
      e.act host before = (.returns, host', after) := by
  obtain ⟨_, _, m₁, target, e, host, hreach, _, _, he, hact⟩ := hr
  exact ⟨_, e, m₁.host, host, hreach.externalAt ▸ he, hact⟩

theorem Machine.Serves.keeps {σ : Type} {m : Machine σ} {kept : Word → Prop} {stub : Stub}
    {p : Phase} {before after : Cpu} (h : m.Serves kept) (hr : m.ReturnsIn stub p before after) :
    before.Keeps m.file kept after := by
  obtain ⟨address, e, host, host', he, hact⟩ := hr.exists_external
  obtain ⟨e', he', hall⟩ := h address
  obtain rfl := Option.some.inj (he.symm.trans he')
  obtain ⟨_, c', hact', hkeeps⟩ := hall host before
  obtain rfl := (Prod.mk.inj (Prod.mk.inj (hact.symm.trans hact')).2).2
  exact hkeeps

namespace Blueprint

variable {σ : Type} {m m' : Machine σ} {b : Blueprint} {o : FrameOffsets} {stub : Stub}
  {c before after : Cpu} {kept : Word → Prop} {p : Phase} {here : Machine σ}

theorem OnFrame.keeps (hc : b.OnFrame stub before)
    (h : before.Keeps b.request.target.file kept after) : b.OnFrame stub after where
  stack := h.stackPointer.trans hc.stack
  frame := h.framePointer.trans hc.frame

theorem wiring_eq (hm : m.Enters b.request.target.file) : m.wiring = b.wiring m.cellAt :=
  wiring_of_file hm.same

namespace Sound

/-! ## The frame at the calls -/

/-- What the entry hook finds. -/
theorem state_entry (h : b.Sound) (hb : b.Builds o stub) (hm : m.Enters b.request.target.file)
    (hc : m.cpu.executeAll m.wiring (b.toEntryHook o) = c) :
    b.OnFrame stub c ∧ b.Saved stub c.memory m.cpu ∧
      b.argSave.Holds c.memory stub.frameBase (b.layout.offset .argSave) m.cpu ∧
      ∀ a ∉ stub.frame, c.memory.byte a = m.cpu.memory.byte a := by
  rw [wiring_eq hm] at hc
  exact h.execute_toEntryHook hb hm.fits hm.stackPointer hc

/-- If the calls give the stack back, the frame is in place at each of them. -/
theorem onFrame_chain (h : b.Sound) (hb : b.Builds o stub) (hm : m.Enters b.request.target.file)
    {hooked called done : Cpu} {kept kept' kept'' : Word → Prop}
    (hentry : (m.cpu.executeAll m.wiring (b.toEntryHook o)).Keeps b.request.target.file kept hooked)
    (htarget : (hooked.executeAll m.wiring (b.toTarget o)).Keeps b.request.target.file kept' called)
    (hexit :
      (called.executeAll m.wiring (b.toExitHook o)).Keeps b.request.target.file kept'' done) :
    b.OnFrame stub hooked ∧ b.OnFrame stub called ∧ b.OnFrame stub done := by
  have hhooked := (h.state_entry hb hm rfl).1.keeps hentry
  have hcalled := (h.frame_toTarget hb hm.fits hhooked rfl).1.keeps htarget
  exact ⟨hhooked, hcalled, (h.execute_toExitHook hb hcalled rfl).1.keeps hexit⟩

/-! ## Runs that return -/

/-- Where the run is about to make a call, the call is made and returns. -/
theorem exists_returnsIn (hb : b.Builds o stub) (hserves : m.Serves kept)
    (hp : p ∈ [Phase.onEntry, .invoke, .onExit]) (hr : m.Reaches stub here (b.callIndex o p)) :
    ∃ after, m.ReturnsIn stub p here.cpu after := by
  obtain ⟨e, he, hall⟩ := hserves (here.cpu.general b.request.target.roles.scratch.index)
  obtain ⟨host', after, hact, _⟩ := hall here.host here.cpu
  have hp' := Phase.mem_calling hp
  refine ⟨after, (hb.returnsIn_iff hp').2
    ⟨here, _, e, host', hr, rfl, hb.get_call hp', ?_, hact⟩⟩
  rw [hr.externalAt, he]

/-- **If every call returns and gives the stack back, the run returns**, unless the stub is too long
for the machine. -/
theorem exists_run_returned (h : b.Sound) (hb : b.Builds o stub)
    (hm : m.Enters b.request.target.file) (hserves : m.Serves kept)
    (hlimit : stub.code.instructions.length ≤ m.stepLimit) :
    ∃ m', m.run stub = (m', .returned) := by
  obtain ⟨here₁, hreach₁, hcpu₁⟩ := hb.exists_reaches_entry (m := m)
  obtain ⟨hooked, hr₁⟩ := exists_returnsIn hb hserves (by simp) hreach₁
  obtain ⟨here₂, hreach₂, hcpu₂⟩ := hb.exists_reaches_target hr₁
  obtain ⟨called, hr₂⟩ := exists_returnsIn hb hserves (by simp) hreach₂
  obtain ⟨here₃, hreach₃, hcpu₃⟩ := hb.exists_reaches_exit hr₂
  obtain ⟨done, hr₃⟩ := exists_returnsIn hb hserves (by simp) hreach₃
  obtain ⟨last, hreach, hcpu⟩ := hb.exists_reaches_return hr₃
  have hk₁ := hserves.keeps hr₁
  have hk₂ := hserves.keeps hr₂
  have hk₃ := hserves.keeps hr₃
  rw [hm.same, hcpu₁] at hk₁
  rw [hm.same, hcpu₂] at hk₂
  rw [hm.same, hcpu₃] at hk₃
  obtain ⟨_, _, hdone⟩ := h.onFrame_chain hb hm hk₁ hk₂ hk₃
  rw [wiring_eq hm] at hcpu
  have hret : stub.code.instructions[b.phaseIndex o .epilogue + 1]? = some .ret :=
    hb.get (p := .epilogue) (by rw [code_epilogue]; rfl)
  refine ⟨last, Machine.run_of_reaches hb.handler_behind hreach (by omega) hret ?_ ?_⟩
  · rw [wiring_eq hm]
    exact (h.frame_toReturn hb hm.fits hdone hcpu.symm).1
  · have := (List.getElem?_eq_some_iff.1 hret).1
    omega

end Sound

end Blueprint

/-! ## Code that destroys what it may -/

namespace Cpu

variable {c : Cpu} {convention : Convention} {keep : List Register} {r : Register}

theorem register_clobber (h : r ∉ convention.volatile) :
    (c.clobber convention keep).register r = c.register r := by
  rw [clobber]
  generalize convention.volatile = regs at h
  induction regs generalizing c with
  | nil => rfl
  | cons s rest ih =>
    rw [List.mem_cons, not_or] at h
    rw [List.foldl_cons, ih h.2]
    split
    · rfl
    · exact register_setRegister_ne h.1

theorem memory_clobber : (c.clobber convention keep).memory = c.memory := by
  rw [clobber]
  generalize convention.volatile = regs
  induction regs generalizing c with
  | nil => rfl
  | cons s rest ih =>
    rw [List.foldl_cons, ih]
    split
    · rfl
    · exact memory_setRegister

theorem cells_clobber : (c.clobber convention keep).cells = c.cells := by
  rw [clobber]
  generalize convention.volatile = regs
  induction regs generalizing c with
  | nil => rfl
  | cons s rest ih =>
    rw [List.foldl_cons, ih]
    split
    · rfl
    · exact cells_setRegister

end Cpu

namespace Standin

/-- More arguments than there are registers on either side, and results that need a buffer. -/
def mixed : Signature :=
  ⟨List.replicate 9 .long ++ [.double], [.long, .double], by decide, by decide⟩

/-- Code that destroys every register that native code may destroy, and returns the thread. -/
def busy : External Unit where
  name := "busy"
  act host cpu := (.returns, host, (cpu.clobber .aapcs64 []).setGeneral 0 thread)

/-- Code that raises an exception. -/
def failing : External Unit := ⟨"failing", fun host cpu => (.throws 0xE, host, cpu)⟩

/-- A machine that meets busy code wherever it calls. -/
def busyMachine : Machine Unit :=
  { Machine.new .aarch64 {} () with externalAt := fun _ => some busy }

theorem enters_busyMachine : busyMachine.Enters .aarch64 := ⟨rfl, by decide, by decide⟩

/-- Busy code gives back the stack, and leaves memory alone. -/
theorem keeps_busy {kept : Word → Prop} (c : Cpu) :
    c.Keeps .aarch64 kept ((c.clobber .aapcs64 []).setGeneral 0 thread) := by
  have hkept : ∀ i : RegIndex, i ≠ 0 → .general i ∉ Convention.aapcs64.volatile →
      ((c.clobber .aapcs64 []).setGeneral 0 thread).general i = c.general i := by
    intro i hi hvolatile
    rw [Cpu.general_setGeneral_ne hi]
    exact Cpu.general_eq_of_register (Cpu.register_clobber hvolatile)
  refine ⟨hkept 31 (by decide) (by decide), hkept 29 (by decide) (by decide), ?_⟩
  intro a _
  rw [Cpu.memory_setGeneral, Cpu.memory_clobber]

theorem serves_busyMachine (kept : Word → Prop) : busyMachine.Serves kept :=
  fun _ => ⟨busy, rfl, fun host c => ⟨host, _, rfl, keeps_busy c⟩⟩

/-- Where busy code is called, the stack is the same afterwards. -/
theorem general_sp_busyMachine {stub : Stub} {p : Phase} {before after : Cpu}
    (hr : busyMachine.ReturnsIn stub p before after) : after.general 31 = before.general 31 :=
  ((serves_busyMachine fun _ => False).keeps hr).stackPointer

theorem exists_generate_mixed :
    ∃ stub, (request mixed 0).generate defaultCapacity = .ok stub ∧ stub.layout.size = 352 ∧
      stub.code.instructions.length = 105 := by
  have hsizes : ((request mixed 0).generate defaultCapacity).toOption.map
      (fun s => (s.layout.size, s.code.instructions.length)) = some (352, 105) := by
    decide +kernel
  obtain ⟨stub, hstub, hpair⟩ := exists_of_map_toOption hsizes
  obtain ⟨hsize, hlength⟩ := Prod.mk.inj hpair
  exact ⟨stub, hstub, hsize, hlength⟩

theorem exists_run_busyMachine {stub : Stub}
    (hstub : (request mixed 0).generate defaultCapacity = .ok stub)
    (hlength : stub.code.instructions.length = 105) :
    ∃ m', busyMachine.run stub = (m', .returned) := by
  obtain ⟨b, o, hblueprint, hb⟩ := Request.generate_builds hstub
  obtain ⟨hrequest, h⟩ := Request.blueprint_sound hblueprint
  refine h.exists_run_returned hb (hrequest ▸ enters_busyMachine)
    (serves_busyMachine fun _ => False) ?_
  rw [hlength]
  decide

/-- The thread that busy code returns. -/
theorem thread_of_returnsIn {stub : Stub} {p : Phase} {before after : Cpu}
    (hr : busyMachine.ReturnsIn stub p before after) : after.general 0 = thread := by
  obtain ⟨_, e, host, host', he, hact⟩ := hr.exists_external
  obtain rfl : busy = e := Option.some.inj he
  obtain rfl := (Prod.mk.inj (Prod.mk.inj hact).2).2
  rw [Cpu.general_setGeneral _ _ (by decide), if_pos rfl]

/-- The thread lies outside the frame. -/
theorem thread_apart {stub : Stub} (hsize : stub.layout.size = 352) :
    (calleeWord thread).Apart stub.frame := by
  refine Extent.apart_of_le ?_ ?_
  · rw [Stub.frame, Stub.frameBase, hsize]
    decide
  · rw [Stub.frame, Stub.frameBase, hsize]
    decide

end Standin

end Trampoline
