import Trampoline.Machine.Standin
import Trampoline.Proofs.Stub.Contract

/-!
# The native caller gets its registers back

A native caller may count on the registers that its convention calls preserved.  Between its call
and the return are three calls to code that may destroy every register, and the stub itself writes
the registers of its roles, of the runtime's arguments and of the return buffer, none of which it
checks against the caller's.  It needs no such check: what the caller wants back is saved in front
of all of this, and restored behind it.

The proof follows one fact through the run, `Blueprint.Saved`: the frame holds what the registers
held at the entry.  The prologue establishes it; a call keeps it by assumption; and the two blocks
between the calls keep it because they write the frame elsewhere, apart from the one word that
belongs to the thread.
-/

set_option autoImplicit false

namespace Trampoline

/-- The bytes in which a stub keeps what its caller wants back: the save area, and what was pushed
on entry. -/
def Stub.CallerByte (s : Stub) (a : Word) : Prop := a ∈ s.region .calleeSave ∨ a ∈ framePair

namespace Blueprint

variable {b : Blueprint} {o : FrameOffsets} {stub : Stub} {c c' before : Cpu} {w : Wiring}
  {a : Word}

/-- Outgoing arguments and saved results are kept elsewhere. -/
theorem Builds.callerByte_apart (hb : b.Builds o stub) (ha : stub.CallerByte a) :
    a ∉ stub.region .outArgs ∧ a ∉ stub.region .resultSave := by
  have hsize := hb.size_lt
  have horder := hb.layout_order
  obtain ⟨hout, hresult, _, hcallee⟩ := hb.region_eq
  rw [Stub.CallerByte, hcallee, hb.mem_piece_iff (by omega), hb.mem_framePair_iff] at ha
  rw [hout, hresult, hb.mem_piece_iff (by omega), hb.mem_piece_iff (by omega)]
  omega

/-- They are in the frame. -/
theorem Builds.mem_frame_of_callerByte (hb : b.Builds o stub) (ha : stub.CallerByte a) :
    a ∈ stub.frame := by
  have hsize := hb.size_lt
  have horder := hb.layout_order
  obtain ⟨_, _, _, hcallee⟩ := hb.region_eq
  rw [Stub.CallerByte, hcallee, hb.mem_piece_iff (by omega), hb.mem_framePair_iff] at ha
  rw [mem_frame_iff]
  omega

/-- A call keeps what is saved. -/
theorem Saved.keeps (h : b.Saved stub c.memory before) (hb : b.Builds o stub)
    (hkeeps : c.Keeps b.request.target.file stub.CallerByte c') : b.Saved stub c'.memory before :=
  h.congr hb fun a ha => hkeeps.bytes a ha

namespace Sound

/-- So does the block in front of the method... -/
theorem saved_toTarget (h : b.Sound) (hb : b.Builds o stub) (hfits : b.request.target.file.Fits)
    (hc : b.OnFrame stub c) (hsaved : b.Saved stub c.memory before)
    (hthread : ∀ a ∈ calleeWord (c.general b.hookResult.index), ¬ stub.CallerByte a) :
    b.Saved stub (c.executeAll w (b.toTarget o)).memory before := by
  refine hsaved.congr hb fun a ha => (h.frame_toTarget hb hfits hc rfl).2 a ?_ ?_
  · exact (hb.callerByte_apart ha).1
  · exact fun hmem => hthread a hmem ha

/-- ...and the one behind it. -/
theorem saved_toExitHook (h : b.Sound) (hb : b.Builds o stub) (hc : b.OnFrame stub c)
    (hsaved : b.Saved stub c.memory before) :
    b.Saved stub (c.executeAll w (b.toExitHook o)).memory before :=
  hsaved.congr hb fun a ha =>
    (h.execute_toExitHook hb hc rfl).2.1 a (hb.callerByte_apart ha).2

end Sound

end Blueprint

namespace Request

variable {σ : Type} {r : Request} {capacity : Nat} {stub : Stub} {m m' : Machine σ}
  {returns : Placement} {thread : Register}

/-- **A stub that returns has preserved what its caller wants preserved**: the stack pointer, the
frame pointer and the link register, and every other register that is neither volatile on the native
side nor holds a result.  Of a vector register, that is the lower half.

Called code may destroy everything but the stack pointer, the frame pointer and the bytes that the
caller's registers are kept in; and the thread must not be there. -/
theorem preserves_caller (hstub : r.generate capacity = .ok stub) (hm : m.Enters r.target.file)
    (hreturns : Placement.returns r.native r.signature.returns = .ok returns)
    (hthread : r.native.first .intReturns = .ok thread)
    (hcalls : ∀ p ∈ [Phase.onEntry, .invoke, .onExit], ∀ before after,
      m.ReturnsIn stub p before after → before.Keeps r.target.file stub.CallerByte after)
    (hcallee : ∀ before after, m.ReturnsIn stub .onEntry before after →
      ∀ a ∈ calleeWord (after.general thread.index), ¬ stub.CallerByte a)
    (hrun : m.run stub = (m', .returned)) :
    m'.cpu.general r.target.file.stackPointer.index =
        m.cpu.general r.target.file.stackPointer.index ∧
      m'.cpu.general r.target.file.framePointer.index =
        m.cpu.general r.target.file.framePointer.index ∧
      m'.cpu.general r.target.file.linkRegister.index =
        m.cpu.general r.target.file.linkRegister.index ∧
      ∀ reg, r.target.file.contains reg = true → reg ∉ r.native.volatile →
        reg ∉ returns.registers → m'.cpu.low reg = m.cpu.low reg := by
  obtain ⟨b, o, hblueprint, hb⟩ := generate_builds hstub
  obtain ⟨rfl, h⟩ := blueprint_sound hblueprint
  obtain rfl := Except.ok.inj (hreturns.symm.trans h.nativeReturns)
  obtain rfl := Except.ok.inj (hthread.symm.trans h.hookResult)
  obtain ⟨hooked, called, done, hr₁, hr₂, hr₃, hlast, hsp⟩ := hb.chain_of_run hrun
  have hk₁ := hcalls _ (by simp) _ _ hr₁
  have hk₂ := hcalls _ (by simp) _ _ hr₂
  have hk₃ := hcalls _ (by simp) _ _ hr₃
  obtain ⟨hhooked, hcalled, hdone⟩ := h.onFrame_chain hb hm hk₁ hk₂ hk₃
  -- what was saved is still there when the last call has returned
  have hsaved : b.Saved stub done.memory m.cpu := by
    have hentry := (h.state_entry hb hm rfl).2.1.keeps hb hk₁
    have htarget := (h.saved_toTarget hb hm.fits hhooked hentry (hcallee _ _ hr₁)).keeps hb hk₂
    exact (h.saved_toExitHook hb hcalled htarget).keeps hb hk₃
  rw [Blueprint.wiring_eq hm] at hlast hsp
  obtain ⟨hstack, hframe, hlink⟩ := h.frame_toReturn hb hm.fits hdone hlast.symm
  have hstack' : m'.cpu.general b.request.target.file.stackPointer.index =
      m.cpu.general b.request.target.file.stackPointer.index := hstack.trans hm.stackPointer.symm
  have hframe' := hframe.trans hsaved.framePointer
  have hlink' : m'.cpu.general b.request.target.file.linkRegister.index =
      m.cpu.general b.request.target.file.linkRegister.index := by
    by_cases hne : b.request.target.file.linkRegister = b.request.target.file.stackPointer
    · rw [hne, hstack']
    · exact (hlink hne).trans hsaved.linkRegister
  refine ⟨hstack', hframe', hlink', ?_⟩
  intro reg hreg hvolatile hreturn
  by_cases hrsp : reg = b.request.target.file.stackPointer
  · rw [hrsp, ← b.general_sp, Cpu.low_general, Cpu.low_general]
    exact hstack'
  by_cases hrfp : reg = b.request.target.file.framePointer
  · rw [hrfp, ← b.general_fp, Cpu.low_general, Cpu.low_general, hframe']
  by_cases hrlr : reg = b.request.target.file.linkRegister
  · rw [hrlr, ← b.general_lr, Cpu.low_general, Cpu.low_general, hlink']
  have hmem : reg ∈ b.calleeSave.registers := by
    refine Convention.mem_preserved_iff.2 ⟨?_, ?_, hvolatile⟩
    · exact (RegisterFile.contains_iff_mem _ |>.1 hreg).resolve_right hrsp
    · exact RegisterFile.holdsFrame_eq_false_iff _ |>.2 ⟨hrfp, hrsp⟩
  exact h.preserved_toReturn hb hm.fits hdone hlast.symm hsaved.callee hmem hreturn hrlr

theorem preserves_caller_mixed :
    ∃ stub m', (Standin.request Standin.mixed 0).generate defaultCapacity = .ok stub ∧
      Standin.busyMachine.run stub = (m', .returned) ∧
      m'.cpu.general 30 = Standin.busyMachine.cpu.general 30 ∧
      ∀ reg, RegisterFile.aarch64.contains reg = true → reg ∉ Convention.aapcs64.volatile →
        m'.cpu.low reg = Standin.busyMachine.cpu.low reg := by
  obtain ⟨stub, hstub, hsize, hlength⟩ := Standin.exists_generate_mixed
  obtain ⟨m', hrun⟩ := Standin.exists_run_busyMachine hstub hlength
  obtain ⟨b, o, _, hb⟩ := generate_builds hstub
  have hreturns : Placement.returns .aapcs64 Standin.mixed.returns =
      .ok [⟨.long, .register (.general 0)⟩, ⟨.double, .register (.vector 0)⟩] := rfl
  obtain ⟨_, _, hlink, hregs⟩ := preserves_caller hstub Standin.enters_busyMachine hreturns rfl
    (fun p _ before after hr => (Standin.serves_busyMachine stub.CallerByte).keeps hr)
    (fun before after hr a ha hcaller => by
      rw [show after.general (Register.general 0).index = Standin.thread from
        Standin.thread_of_returnsIn hr] at ha
      exact Standin.thread_apart hsize a ha (hb.mem_frame_of_callerByte hcaller)) hrun
  have hresults : ∀ reg ∈ Placement.registers
      [⟨.long, .register (.general 0)⟩, ⟨.double, .register (.vector 0)⟩],
      reg ∈ Convention.aapcs64.volatile := by decide
  exact ⟨stub, m', hstub, hrun, hlink, fun reg hreg hvolatile =>
    hregs reg hreg hvolatile fun hresult => hvolatile (hresults reg hresult)⟩

end Request

end Trampoline
