import Trampoline.Proofs.Stub.Contract
import Trampoline.Proofs.Stub.Hooks

/-!
# What the hooks are called with

The two hooks around the method get the address of the frame's record, the hook for uncaught
exceptions gets the exception.  A stub puts this into the first native argument register, and then
it puts the address of the hook into its scratch register, through which it calls.

Nothing keeps a native convention from passing its first argument in that very register.  Of the
stub's own registers only the thread register, the shuffle register and the second scratch register
are kept apart from those of native arguments (`Request.rolesFault?`).  The scratch register is
compared with the registers of the runtime's arguments and, if there is a return buffer, with its
register and those of native results (`Request.bufferRegister`), but with the registers of native
arguments not at all, be they the method's or a hook's.  On such a target a hook is called with its
own address (`Request.passes_hook_arguments`).
-/

set_option autoImplicit false

namespace Trampoline

namespace Request

variable {σ : Type} {r : Request} {capacity : Nat} {stub : Stub} {m : Machine σ} {arg : Register}

/-- **What hooks are called with**, in the register of their argument: both hooks around the method
the address of the same record in the frame, and the hook for exceptions the exception that was
delivered last, with no call in between.  But if the stub calls through that register, it is the
address of the hook.

Called code has to give back the stack pointer, and may do anything else. -/
theorem passes_hook_arguments (hstub : r.generate capacity = .ok stub)
    (hfile : m.file = r.target.file) (hfits : r.target.file.Fits)
    (harg : r.native.first .intArgs = .ok arg)
    (hexception : r.runtime.first .intReturns = .ok m.exceptionRegister)
    (hcalls : ∀ p ∈ [Phase.onEntry, .invoke, .onExit], ∀ before after,
      m.ReturnsIn stub p before after →
        after.general r.target.file.stackPointer.index =
          before.general r.target.file.stackPointer.index) :
    (∃ record, ∀ p hook, (p, hook) ∈ r.hooks.around →
      ∀ here address, m.CallsIn stub p here address →
        address = hook.address ∧
          record = here.cpu.general r.target.file.stackPointer.index +
            BitVec.ofNat 64 stub.frameDataOffset ∧
          here.cpu.general arg.index = if arg = r.target.roles.scratch then address else record) ∧
    ∀ here address, m.CallsIn stub .exceptionHandler here address →
      address = r.hooks.uncaught.address ∧ ∃ index exception thrown,
        m.ThrowsAt stub index exception thrown ∧ here.calls = thrown.calls ∧
          thrown.cpu.general m.exceptionRegister.index = exception ∧
          here.cpu.general arg.index =
            if arg = r.target.roles.scratch then address else exception := by
  obtain ⟨b, o, hblueprint, hb⟩ := generate_builds hstub
  obtain ⟨rfl, h⟩ := blueprint_sound hblueprint
  obtain rfl := Except.ok.inj (harg.symm.trans h.hookArg)
  have hexc := Except.ok.inj (hexception.symm.trans h.exception)
  refine ⟨⟨(m.cpu.executeAll m.wiring (b.code o .prologue)).general b.sp +
    BitVec.ofNat 64 stub.frameDataOffset, ?_⟩, ?_⟩
  · intro p hook hp here address hcall
    obtain ⟨hmem, front, c, hcpu⟩ : p ∈ [Phase.onEntry, .invoke, .onExit] ∧
        ∃ front, ∃ c : Cpu, c.executeAll m.wiring (front ++ (b.code o p).take 3) = here.cpu := by
      rcases Hooks.mem_around.1 hp with ⟨rfl, _⟩ | ⟨rfl, _⟩
      · have hreach := ((hb.callsIn_iff (by simp)).1 hcall).1
        exact ⟨by simp, _, _, (hb.reaches_entry hreach).symm⟩
      · have hreach := ((hb.callsIn_iff (by simp)).1 hcall).1
        obtain ⟨_, after, _, hcpu⟩ := hb.reaches_exit hreach
        exact ⟨by simp, _, after, hcpu.symm⟩
    obtain ⟨hreach, rfl⟩ := (hb.callsIn_iff (Phase.mem_calling hmem)).1 hcall
    obtain ⟨haddress, hvalue⟩ := h.hook_behind hb hfits hp hcpu
    rw [← h.general_sp_call hb hcalls hmem hreach, haddress]
    exact ⟨rfl, rfl, hvalue⟩
  · intro here address hcall
    obtain ⟨hreach, rfl⟩ := (hb.callsIn_iff (by simp)).1 hcall
    obtain ⟨index, exception, thrown, hthrows, rfl⟩ := hb.reaches_uncaught hreach
    obtain ⟨haddress, hvalue⟩ := h.hook_toUncaught (c := thrown.cpu) (w := m.wiring) hfits rfl
    have hthrown := h.general_thrown hfits hexc hthrows
    refine ⟨haddress, index, exception, thrown, hthrows, rfl, hexc ▸ hthrown, ?_⟩
    rw [haddress, hvalue, hthrown]

end Request

namespace Standin

/-- A machine on which whatever is called throws. -/
def failingMachine : Machine Unit :=
  { Machine.new .aarch64 {} () with
    externalAt := fun _ => some failing }

theorem exception_of_throwsAt {stub : Stub} {index : Nat} {exception : Word}
    {thrown : Machine Unit} (ht : failingMachine.ThrowsAt stub index exception thrown) :
    exception = 0xE := by
  obtain ⟨m₁, target, e, host, cpu, hreach, _, he, hact, _⟩ := ht
  rw [hreach.externalAt] at he
  obtain rfl := Option.some.inj he
  exact (Outcome.throws.inj (Prod.mk.inj hact).1).symm

theorem not_returnsIn_failingMachine {stub : Stub} {p : Phase} {before after : Cpu} :
    ¬ failingMachine.ReturnsIn stub p before after := by
  intro hr
  obtain ⟨_, e, host, host', he, hact⟩ := hr.exists_external
  obtain rfl := Option.some.inj he
  cases (Prod.mk.inj hact).1

end Standin

theorem Request.passes_hook_arguments_mixed :
    ∃ stub, (Standin.request Standin.mixed 0).generate defaultCapacity = .ok stub ∧
      (∃ entered left : Machine Unit,
        Standin.busyMachine.CallsIn stub .onEntry entered Standin.onEntry ∧
        Standin.busyMachine.CallsIn stub .onExit left Standin.onExit ∧
        entered.cpu.general 0 =
          entered.cpu.general 31 + BitVec.ofNat 64 stub.frameDataOffset ∧
        left.cpu.general 0 = entered.cpu.general 0) ∧
      ∃ here, Standin.failingMachine.CallsIn stub .exceptionHandler here Standin.uncaught ∧
        here.cpu.general 0 = 0xE := by
  obtain ⟨stub, hstub, _, hlength⟩ := Standin.exists_generate_mixed
  obtain ⟨m', hrun⟩ := Standin.exists_run_busyMachine hstub hlength
  obtain ⟨b, o, hblueprint, hb⟩ := generate_builds hstub
  refine ⟨stub, hstub, ?_, ?_⟩
  · obtain ⟨⟨record, hrecord⟩, _⟩ := passes_hook_arguments (m := Standin.busyMachine) hstub rfl
      Standin.enters_busyMachine.fits rfl rfl fun _ _ _ _ => Standin.general_sp_busyMachine
    obtain ⟨hooked, called, done, hr₁, _, hr₃, _⟩ := hb.chain_of_run hrun
    obtain ⟨entered, address, hentry, _⟩ := hb.exists_callsIn (by simp) hr₁
    obtain ⟨left, address', hexit, _⟩ := hb.exists_callsIn (by simp) hr₃
    obtain ⟨rfl, hsp, hvalue⟩ := hrecord _ _ (Hooks.mem_around.2 (Or.inl ⟨rfl, rfl⟩)) _ _ hentry
    obtain ⟨rfl, _, hvalue'⟩ := hrecord _ _ (Hooks.mem_around.2 (Or.inr ⟨rfl, rfl⟩)) _ _ hexit
    rw [if_neg (by decide)] at hvalue hvalue'
    exact ⟨entered, left, hentry, hexit, hvalue.trans hsp, hvalue'.trans hvalue.symm⟩
  · obtain ⟨_, huncaught⟩ := passes_hook_arguments (m := Standin.failingMachine) hstub rfl
      Standin.enters_busyMachine.fits rfl rfl fun p _ before after hr =>
        absurd hr Standin.not_returnsIn_failingMachine
    obtain ⟨here, hreach, _⟩ := hb.exists_reaches_entry (m := Standin.failingMachine)
    have hthrows := hb.throwsAt (p := .onEntry) (by simp) hreach rfl rfl
    obtain ⟨last, address, hcall⟩ := hb.exists_callsIn_uncaught hthrows
    obtain ⟨rfl, index, exception, thrown, hthrows', _, _, hvalue⟩ := huncaught _ _ hcall
    rw [if_neg (by decide), Standin.exception_of_throwsAt hthrows'] at hvalue
    exact ⟨last, hcall, hvalue⟩

namespace Standin

/-- The native convention, but with its integer arguments in the register that stubs call
through. -/
def crossed : Convention where
  toSettings := { Convention.aapcs64.toSettings with intArgs := [.general 8] }
  sound := by decide

/-- The entry hook is called with its own address, and not with that of the record. -/
theorem crosses_hook_argument :
    ∃ stub,
      ({ request mixed 0 with native := crossed } : Request).generate defaultCapacity = .ok stub ∧
      crossed.first .intArgs = .ok (.general 8) ∧
      (∀ p before after, busyMachine.ReturnsIn stub p before after →
        after.general 31 = before.general 31 ∧ after.general 29 = before.general 29) ∧
      ∃ here address, busyMachine.CallsIn stub .onEntry here address ∧
        here.cpu.general 8 = onEntry ∧
        here.cpu.general 8 ≠ here.cpu.general 31 + BitVec.ofNat 64 stub.frameDataOffset := by
  have hgenerate : (({ request mixed 0 with native := crossed } : Request).generate
      defaultCapacity).toOption.map (fun s => (s.layout.size, s.frameDataOffset)) =
        some (304, 216) := by decide +kernel
  obtain ⟨stub, hstub, hsizes⟩ := exists_of_map_toOption hgenerate
  obtain ⟨hsize, hdata⟩ := Prod.mk.inj hsizes
  obtain ⟨b, o, hblueprint, hb⟩ := Request.generate_builds hstub
  obtain ⟨hrequest, h⟩ := Request.blueprint_sound hblueprint
  have hm : busyMachine.Enters b.request.target.file := hrequest ▸ enters_busyMachine
  have harg : b.hookArg = .general 8 := by
    have hfirst := h.hookArg
    rw [hrequest] at hfirst
    exact (Except.ok.inj hfirst).symm
  have hsp : b.sp = 31 := by rw [Blueprint.sp, hrequest]; rfl
  obtain ⟨here, hreach, hcpu⟩ := hb.exists_reaches_entry (m := busyMachine)
  have hframe := (h.state_entry hb hm hcpu.symm).1.stack
  obtain ⟨_, hvalue⟩ := h.hook_behind hb hm.fits (Hooks.mem_around.2 (Or.inl ⟨rfl, rfl⟩)) hcpu.symm
  rw [harg, if_pos (by rw [hrequest]; rfl)] at hvalue
  rw [hsp, Stub.frameBase, hsize] at hframe
  have hentry : here.cpu.general 8 = onEntry := by
    rw [hvalue, hrequest]
    rfl
  refine ⟨stub, hstub, rfl, ?_, here, _, (hb.callsIn_iff (by simp)).2 ⟨hreach, rfl⟩, hentry, ?_⟩
  · intro p before after hr
    have hkeeps := (serves_busyMachine fun _ => False).keeps hr
    exact ⟨hkeeps.stackPointer, hkeeps.framePointer⟩
  · rw [hentry, hframe, hdata]
    decide

end Standin

end Trampoline
