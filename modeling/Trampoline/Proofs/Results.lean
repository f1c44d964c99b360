import Trampoline.Proofs.Stub.Contract

/-!
# Results reach the native caller

Results come back in one of two ways.  Where the runtime returns just what the native caller
expects, in the same register, the stub has nothing to move; otherwise the method leaves its results
in a buffer in the frame, and the stub loads them from there.  In both cases they have to survive
the exit hook and the restoration of the caller's registers, and they may be among the registers
that are restored.

The distances of the results in the buffer are computed twice: the size of the buffer from the types
of the results (`Signature.bufferBytes`), and the offsets that are loaded from as those of a save
area, from the banks of the registers.  `Blueprint.Sound.map_width_nativeReturns` says that the two
agree.
-/

set_option autoImplicit false

namespace Trampoline

/-- The distance of a result from the beginning of the return buffer: the room that the results in
front of it take. -/
def Signature.bufferOffset (s : Signature) (k : Nat) : Nat :=
  total Signature.bufferWidth (s.returns.take k)

namespace SaveArea

/-- A slot is where the registers in front of it end. -/
theorem getElem?_slotsFrom {keep : Keep} {start k : Nat} {regs : List Register} {r : Register}
    (h : regs[k]? = some r) :
    (slotsFrom keep start regs)[k]? = some (r, start + total keep.width (regs.take k)) := by
  induction regs generalizing start k with
  | nil => cases h
  | cons first rest ih =>
    cases k with
    | zero =>
      rw [List.getElem?_cons_zero] at h
      obtain rfl := Option.some.inj h
      rfl
    | succ k =>
      rw [List.getElem?_cons_succ] at h
      rw [slotsFrom, List.getElem?_cons_succ, ih h, List.take_succ_cons, total_cons,
        Nat.add_assoc]

end SaveArea

/-- Results come back directly if there is at most one of them, and the two sides have the same
registers for it. -/
theorem Request.returnsDirectly_eq_true_iff {r : Request} {nativeReturns : Placement} :
    r.returnsDirectly nativeReturns = true ↔
      r.signature.returns.length ≤ 1 ∧ ∃ runtimeReturns,
        Placement.returns r.runtime r.signature.returns = .ok runtimeReturns ∧
          runtimeReturns.registers = nativeReturns.registers := by
  rw [returnsDirectly, Bool.and_eq_true, decide_eq_true_eq]
  refine and_congr_right fun _ => ?_
  cases Placement.returns r.runtime r.signature.returns <;> simp

namespace Blueprint

variable {b : Blueprint} {o : FrameOffsets} {stub : Stub} {c c' : Cpu} {w : Wiring}

namespace Sound

/-- The slot that a result has in the save area for results. -/
theorem slot_resultSave (h : b.Sound) {k : Nat} {reg : Register}
    (hreg : b.boundary.nativeReturns.registers[k]? = some reg) :
    (reg, b.request.signature.bufferOffset k) ∈ b.resultSave.slots := by
  have hoffset : total Keep.whole.width (b.boundary.nativeReturns.registers.take k) =
      b.request.signature.bufferOffset k := by
    refine total_congr ?_
    rw [List.map_take, List.map_take, h.map_width_nativeReturns]
  have hslot := @SaveArea.getElem?_slotsFrom .whole 0 _ _ _ hreg
  rw [hoffset, Nat.zero_add] at hslot
  exact List.mem_of_getElem? hslot

/-- What it means that a result needs no buffer: there is at most one, and the runtime returns it in
the register that the native caller reads. -/
theorem direct_registers (h : b.Sound) (hbuffer : b.boundary.buffer = none) :
    b.request.signature.returns.length ≤ 1 ∧
      ∃ runtimeReturns,
        Placement.returns b.request.runtime b.request.signature.returns = .ok runtimeReturns ∧
          runtimeReturns.registers = b.boundary.nativeReturns.registers :=
  Request.returnsDirectly_eq_true_iff.1 (h.direct.1 hbuffer).2

end Sound

end Blueprint

namespace Request

variable {σ : Type} {r : Request} {capacity : Nat} {stub : Stub} {m m' : Machine σ} {bd : Boundary}

/-- **A stub that returns hands over the results of the method**, which is called exactly once.

Without a return buffer there is at most one result, and its register, which is the runtime's as
well, holds all that it held when the method returned.  With one, the method was called with the
address of the buffer, and each register holds the word that the method has left for it there.

The exit hook may destroy everything but the stack pointer, the frame pointer and the bytes that the
results are saved in.  A result in the link register would be lost. -/
theorem delivers_results (hstub : r.generate capacity = .ok stub) (hm : m.Enters r.target.file)
    (hbd : r.boundary = .ok bd)
    (hlink : r.target.file.linkRegister ∉ bd.nativeReturns.registers)
    (hcalls : ∀ p ∈ [Phase.onEntry, .invoke, .onExit], ∀ before after,
      m.ReturnsIn stub p before after → before.Keeps r.target.file (fun _ => False) after)
    (hexit : ∀ before after, m.ReturnsIn stub .onExit before after →
      ∀ a ∈ stub.region .resultSave, after.memory.byte a = before.memory.byte a)
    (hrun : m.run stub = (m', .returned)) :
    ∃ called returned, m.ReturnsIn stub .invoke called returned ∧
      (∀ called' returned', m.ReturnsIn stub .invoke called' returned' →
        called' = called ∧ returned' = returned) ∧
      (bd.buffer = none →
        r.signature.returns.length ≤ 1 ∧
          (∃ runtimeReturns,
            Placement.returns r.runtime r.signature.returns = .ok runtimeReturns ∧
              runtimeReturns.registers = bd.nativeReturns.registers) ∧
          ∀ reg ∈ bd.nativeReturns.registers, m'.cpu.register reg = returned.register reg) ∧
      ∀ bytes buffer, bd.buffer = some (bytes, buffer) →
        called.general buffer.index = (stub.region .returnBuffer).start ∧
          ∀ k reg, bd.nativeReturns.registers[k]? = some reg →
            m'.cpu.register reg =
              (returned.memory.readWord (called.general buffer.index +
                BitVec.ofNat 64 (r.signature.bufferOffset k))).setWidth 128 := by
  obtain ⟨b, o, hblueprint, hb⟩ := generate_builds hstub
  obtain ⟨rfl, h⟩ := blueprint_sound hblueprint
  obtain rfl := Except.ok.inj (hbd.symm.trans h.boundary)
  obtain ⟨hooked, called, done, hr₁, hr₂, hr₃, hlast, _⟩ := hb.chain_of_run hrun
  have hk₁ := hcalls _ (by simp) _ _ hr₁
  have hk₂ := hcalls _ (by simp) _ _ hr₂
  have hk₃ := hcalls _ (by simp) _ _ hr₃
  obtain ⟨hhooked, hcalled, hdone⟩ := h.onFrame_chain hb hm hk₁ hk₂ hk₃
  rw [Blueprint.wiring_eq hm] at hlast
  -- the registers hold at the return what had been collected in front of the exit hook
  have hresult : ∀ reg ∈ b.boundary.nativeReturns.registers,
      m'.cpu.register reg =
        (called.executeAll m.wiring (b.code o .handleResult)).register reg := by
    intro reg hreg
    obtain ⟨_, _, hholds⟩ := h.execute_toExitHook (w := m.wiring) hb hcalled rfl
    have hsize := hb.size_lt
    have horder := hb.layout_order
    refine h.result_toReturn hb hm.fits hdone hlast.symm (hholds.congr (by omega) ?_)
      hreg fun heq => hlink (heq ▸ hreg)
    intro a ha
    exact hexit _ _ hr₃ a (hb.region_eq.2.1 ▸ ha)
  refine ⟨_, called, hr₂, fun called' returned' hr => hb.returnsIn_unique (by simp) hr hr₂, ?_, ?_⟩
  · intro hbuffer
    obtain ⟨hlength, hdirect⟩ := h.direct_registers hbuffer
    refine ⟨hlength, hdirect, ?_⟩
    intro reg hreg
    rw [hresult reg hreg, hb.collect_direct hbuffer]
  · intro bytes buffer hbuffer
    have haddress := h.buffer_toTarget (w := m.wiring) hb hm.fits hhooked rfl hbuffer
    refine ⟨?_, ?_⟩
    · rw [haddress, hb.region_returnBuffer hbuffer]
    · intro k reg hreg
      rw [hresult reg (List.mem_of_getElem? hreg), haddress, BitVec.add_assoc, ← BitVec.ofNat_add]
      exact h.collect_buffered hb hm.fits hcalled hbuffer rfl (h.slot_resultSave hreg)

theorem delivers_results_mixed :
    ∃ stub m' called returned,
      (Standin.request Standin.mixed 0).generate defaultCapacity = .ok stub ∧
      Standin.busyMachine.run stub = (m', .returned) ∧
      Standin.busyMachine.ReturnsIn stub .invoke called returned ∧
      m'.cpu.general 0 = returned.memory.readWord (called.general 10) ∧
      m'.cpu.vector 0 = (returned.memory.readWord (called.general 10 + 8)).setWidth 128 := by
  obtain ⟨stub, hstub, _, hlength⟩ := Standin.exists_generate_mixed
  obtain ⟨m', hrun⟩ := Standin.exists_run_busyMachine hstub hlength
  obtain ⟨b, o, hblueprint, hb⟩ := generate_builds hstub
  obtain ⟨hrequest, h⟩ := blueprint_sound hblueprint
  have hbd := h.boundary
  have hbuffer : (Standin.request Standin.mixed 0).boundary.toOption.map
      (fun bd => (bd.buffer, bd.nativeReturns.registers)) =
        some (some (24, .general 10), [.general 0, .vector 0]) := by decide +kernel
  rw [hrequest] at hbd
  rw [hbd, Except.toOption, Option.map_some] at hbuffer
  obtain ⟨hbuffer, hregs⟩ := Prod.mk.inj (Option.some.inj hbuffer)
  obtain ⟨called, returned, hr, _, _, hsome⟩ := delivers_results hstub Standin.enters_busyMachine
    hbd (by rw [hregs]; decide)
    (fun p _ before after hr => (Standin.serves_busyMachine _).keeps hr)
    (fun before after hr a ha =>
      ((Standin.serves_busyMachine (· ∈ stub.region .resultSave)).keeps hr).bytes a ha) hrun
  obtain ⟨_, hwords⟩ := hsome _ _ hbuffer
  have hfirst := hwords 0 (.general 0) (by rw [hregs]; rfl)
  have hsecond := hwords 1 (.vector 0) (by rw [hregs]; rfl)
  have hoffset : (Standin.request Standin.mixed 0).signature.bufferOffset 0 = 0 ∧
      (Standin.request Standin.mixed 0).signature.bufferOffset 1 = 8 := by decide
  rw [hoffset.1, BitVec.add_zero] at hfirst
  rw [hoffset.2] at hsecond
  refine ⟨stub, m', called, returned, hstub, hrun, hr, ?_, hsecond⟩
  rw [← Cpu.low_general, Cpu.low, hfirst, setWidth_setWidth_word]

end Request

end Trampoline
