import Trampoline.Proofs.Stub.Path

/-!
# How an exception goes through a stub

An exception leaves the chain of calls, and enters behind the return.  What the stub notes as the
place for it is the byte at which the handler begins; there lies a comment, which takes no room, so
the place is that of the instruction behind it (`Builds.startingAt?_handler`).  In front of the
comment is the return, and so the handler is reached by exceptions only: whoever comes to the call
in it has just been thrown there (`Builds.reaches_uncaught`).

Behind that call lies the only trap of the stub.
-/

set_option autoImplicit false

namespace Trampoline.Blueprint

variable {b : Blueprint} {o : FrameOffsets} {stub : Stub} {p : Phase} {i : Instruction} {k : Nat}

/-! ## The code of the handler -/

variable (b) in
/-- Everything that is done between an exception and the call of the hook for it. -/
def toUncaught : List Instruction :=
  [.move (.general b.hookArg.index) (.general b.exception.index),
    .loadImm b.request.target.roles.scratch.index b.request.hooks.uncaught.address]

theorem plain_toUncaught : ∀ i ∈ b.toUncaught, i.isPlain = true := by
  intro i hi
  rcases List.mem_pair.1 hi with rfl | rfl <;> rfl

theorem phaseIndex_exceptionHandler :
    b.phaseIndex o .exceptionHandler = b.phaseIndex o .epilogue + 2 :=
  Builds.length_normal

namespace Builds

variable {σ : Type} {m here thrown : Machine σ} {index : Nat} {exception : Word}

theorem take_handler (h : b.Builds o stub) :
    stub.code.instructions.take (b.phaseIndex o .exceptionHandler) =
      Phase.normal.flatMap (b.code o) := by
  rw [h.instructions, Phase.all, List.flatMap_append]
  exact List.take_left

/-- The handler begins at its phase, behind the comment. -/
theorem startingAt?_handler (h : b.Builds o stub) :
    stub.code.startingAt? stub.handlerOffset = some (b.phaseIndex o .exceptionHandler + 1) := by
  have hcomment : stub.code.instructions[b.phaseIndex o .exceptionHandler]? =
      some (.comment ("\x7b " ++ "exception handler")) :=
    h.get (p := .exceptionHandler) (k := 0) rfl
  have hstart : codeSize (stub.code.instructions.take (b.phaseIndex o .exceptionHandler + 1)) =
      stub.handlerOffset := by
    rw [List.take_add_one, hcomment, h.take_handler, codeSize_append, h.handlerOffset]
    rfl
  rw [← hstart]
  exact Code.startingAt?_of_get (h.get (p := .exceptionHandler) (k := 1) rfl) rfl

theorem hasAt_toUncaught (h : b.Builds o stub) :
    stub.code.HasAt (b.phaseIndex o .exceptionHandler + 1) b.toUncaught := by
  have hall : stub.code.HasAt (b.phaseIndex o .exceptionHandler)
      (_ :: (b.toUncaught ++ _)) := h.hasAt .exceptionHandler
  exact hall.tail.left

/-- The trap is where the call in the handler returns to, and nowhere else. -/
theorem trap_iff (h : b.Builds o stub) :
    stub.code.instructions[index]? = some .trap ↔
      index = b.callIndex o .exceptionHandler + 1 := by
  constructor
  · intro hget
    obtain ⟨p, k, rfl, hk⟩ := h.exists_phase hget
    obtain ⟨rfl, rfl⟩ := eq_handler_of_getElem?_code hk
    rfl
  · rintro rfl
    exact h.get (p := .exceptionHandler) (k := 4) rfl

/-- The trap is part of the handler. -/
theorem handlerOffset_le (h : b.Builds o stub) {offset : Nat}
    (ht : stub.code.offset? (b.callIndex o .exceptionHandler + 1) = some offset) :
    stub.handlerOffset ≤ offset := by
  have hlt := (List.getElem?_eq_some_iff.1 (h.trap_iff.2 rfl)).1
  rw [Code.offset?_of_lt _ hlt] at ht
  rw [← Option.some.inj ht, h.handlerOffset, ← h.take_handler]
  exact Code.codeSize_take_le (by rw [callIndex]; omega)

/-! ## The way of an exception -/

/-- The run does not come into the handler from the return in front of it. -/
theorem not_reaches_handler (h : b.Builds o stub) :
    ¬ m.Reaches stub here (b.phaseIndex o .exceptionHandler) := by
  have hlength := phaseIndex_exceptionHandler (b := b) (o := o)
  intro hr
  rcases hr.origin with ⟨_, hzero⟩ | ⟨m₁, i, _, hstep, hi⟩ | ⟨hhandler, _⟩
  · omega
  · have hret : stub.code.instructions[i]? = some .ret := by
      obtain rfl : b.phaseIndex o .epilogue + 1 = i := by omega
      exact h.get (p := .epilogue) (k := 1) rfl
    rw [Machine.step_ret hret] at hstep
    cases hstep
  · have := Option.some.inj (h.startingAt?_handler.symm.trans hhandler)
    omega

/-- The handler begins with an exception. -/
theorem reaches_handler (h : b.Builds o stub)
    (hr : m.Reaches stub here (b.phaseIndex o .exceptionHandler + 1)) :
    ∃ index exception, m.ThrowsAt stub index exception here := by
  rcases hr.origin with ⟨_, hzero⟩ | ⟨m₁, i, hreach, _, hi⟩ | ⟨_, hthrows⟩
  · cases hzero
  · obtain rfl := Nat.succ.inj hi
    exact absurd hreach h.not_reaches_handler
  · exact hthrows

/-- Behind its beginning the handler is gone through in order. -/
theorem of_succ_handler (h : b.Builds o stub) (hk : 1 ≤ k)
    (hr : m.Reaches stub here (b.phaseIndex o .exceptionHandler + k + 1)) :
    ∃ m₁, m.Reaches stub m₁ (b.phaseIndex o .exceptionHandler + k) ∧
      m₁.step stub (b.phaseIndex o .exceptionHandler + k) =
        (here, .ok (b.phaseIndex o .exceptionHandler + k + 1)) := by
  rcases hr.origin with ⟨_, hzero⟩ | ⟨m₁, i, hreach, hstep, hi⟩ | ⟨hhandler, _⟩
  · cases hzero
  · obtain rfl := Nat.succ.inj hi
    exact ⟨m₁, hreach, hstep⟩
  · have := Option.some.inj (h.startingAt?_handler.symm.trans hhandler)
    omega

/-- A call that throws. -/
theorem throwsAt (h : b.Builds o stub) (hp : p ∈ Phase.calling)
    (hr : m.Reaches stub here (b.callIndex o p)) {e : External σ}
    (he : m.externalAt (here.cpu.general b.request.target.roles.scratch.index) = some e)
    {host : σ} {cpu : Cpu} (hact : e.act here.host here.cpu = (.throws exception, host, cpu)) :
    m.ThrowsAt stub (b.callIndex o p) exception (here.raise e exception host cpu) :=
  ⟨here, _, e, host, cpu, hr, h.get_call hp, hr.externalAt ▸ he, hact, rfl⟩

/-- **Before the hook for uncaught exceptions is called, something has thrown**, and the
instructions in front of the call are all that has happened since. -/
theorem reaches_uncaught (h : b.Builds o stub)
    (hr : m.Reaches stub here (b.callIndex o .exceptionHandler)) :
    ∃ index exception thrown, m.ThrowsAt stub index exception thrown ∧
      here = { thrown with cpu := thrown.cpu.executeAll m.wiring b.toUncaught } := by
  obtain ⟨moved, hmoved, hstep⟩ := h.of_succ_handler (k := 2) (by omega) hr
  obtain ⟨thrown, hthrown, hstep'⟩ := h.of_succ_handler (k := 1) (by omega) hmoved
  rw [Machine.step_plain (h.get (p := .exceptionHandler) (k := 1) rfl) rfl] at hstep'
  rw [Machine.step_plain (h.get (p := .exceptionHandler) (k := 2) rfl) rfl] at hstep
  obtain ⟨rfl, _⟩ := Prod.mk.inj hstep'
  obtain ⟨rfl, _⟩ := Prod.mk.inj hstep
  obtain ⟨index, exception, hthrows⟩ := h.reaches_handler hthrown
  refine ⟨index, exception, thrown, hthrows, ?_⟩
  rw [← hthrown.wiring]
  rfl

/-- An exception leads to the call of the hook for it. -/
theorem exists_reaches_uncaught (h : b.Builds o stub)
    (ht : m.ThrowsAt stub index exception thrown) :
    m.Reaches stub { thrown with cpu := thrown.cpu.executeAll m.wiring b.toUncaught }
      (b.callIndex o .exceptionHandler) :=
  (Machine.Reaches.after_throw ht h.startingAt?_handler).block h.hasAt_toUncaught plain_toUncaught

theorem exists_callsIn_uncaught (h : b.Builds o stub)
    (ht : m.ThrowsAt stub index exception thrown) :
    ∃ here address, m.CallsIn stub .exceptionHandler here address :=
  ⟨_, _, (h.callsIn_iff (by simp)).2 ⟨h.exists_reaches_uncaught ht, rfl⟩⟩

end Builds

end Trampoline.Blueprint
