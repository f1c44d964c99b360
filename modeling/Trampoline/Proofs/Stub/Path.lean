import Trampoline.Proofs.Shuffle.Lowering
import Trampoline.Proofs.Stub.Frame

/-!
# From call to call

Between its entry and its return a stub makes three calls, and everything else that it does is a
block of plain instructions.  So a run is a chain: the entry block, what the entry hook does, the
block up to the method, what the method does, and so on up to the return.

The calls are named by the phases that they are made in.  `Machine.CallsIn` is the moment of such a
call and `Machine.ReturnsIn` what the called code makes of the state; both identify a call by the
marks of the stub alone.

* `Blueprint.toEntryHook`, `toTarget`, `toExitHook`, `toReturn` — the four blocks.
* `Builds.reaches_target` and its like — the chain, link by link, backwards: the state before a
  call is what the block in front of it has made of the state behind the call before.
* `Builds.exists_reaches_target` and its like — the same forwards.
* `Builds.chain_of_run` — the whole chain, of a run that returns.
-/

set_option autoImplicit false

namespace Trampoline

/-- The phases that neither call anything nor end the run. -/
def Phase.plain : List Phase :=
  [.prologue, .spillArgs, .preserveCallee, .shuffleArgs, .resolveReceiver, .handleResult,
    .spillResult, .restoreCallee, .fillResult]

/-- The phases that call something. -/
@[simp] def Phase.calling : List Phase := [.onEntry, .invoke, .onExit, .exceptionHandler]

theorem Phase.mem_calling {p : Phase} (hp : p ∈ [onEntry, invoke, onExit]) : p ∈ calling :=
  List.mem_append_left [exceptionHandler] hp

/-! ## Calls by phase -/

namespace Machine

variable {σ : Type} (m : Machine σ) (stub : Stub) (p : Phase)

/-- In this state the stub is about to call this address, in this phase. -/
def CallsIn (here : Machine σ) (address : Word) : Prop :=
  ∃ index target, m.Reaches stub here index ∧ stub.phaseAt? index = some p ∧
    stub.code.instructions[index]? = some (.call target) ∧ here.cpu.general target = address

/-- The code called in this phase gives control back: the states before and after. -/
def ReturnsIn (before after : Cpu) : Prop :=
  ∃ index, stub.phaseAt? index = some p ∧ m.ReturnsAt stub index before after

/-- The code called in this phase raises an exception: the machine that enters the handler. -/
def ThrowsIn (exception : Word) (after : Machine σ) : Prop :=
  ∃ index, stub.phaseAt? index = some p ∧ m.ThrowsAt stub index exception after

end Machine

namespace Blueprint

variable (b : Blueprint) (o : FrameOffsets)

/-! ## The code of the phases -/

/-- The instruction that tells the runtime where results go, if they go through memory. -/
def bufferCode : List Instruction :=
  match o.buffer with
  | none => []
  | some (offset, reg) => [b.frameAddress reg offset]

theorem code_prologue : b.code o .prologue = [.enter, .addImm b.sp b.sp (-o.size)] := rfl

theorem code_spillArgs :
    b.code o .spillArgs =
      (SaveArea.storeDraft b.argSave.keep b.sp (b.layout.offset .argSave)
        b.argSave.slots).code := rfl

theorem code_preserveCallee :
    b.code o .preserveCallee =
      (SaveArea.storeDraft b.calleeSave.keep b.sp (b.layout.offset .calleeSave)
        b.calleeSave.slots).code := rfl

theorem code_onEntry :
    b.code o .onEntry =
      [.comment ("\x7b " ++ "on_entry"), b.frameAddress b.hookArg o.data,
        .loadImm b.request.target.roles.scratch.index b.request.hooks.onEntry.address,
        .call b.request.target.roles.scratch.index,
        .move (.general b.request.target.roles.thread.index) (.general b.hookResult.index),
        .comment ("\x7d " ++ "on_entry")] := rfl

theorem code_shuffleArgs :
    b.code o .shuffleArgs =
      .comment ("\x7b " ++ "argument shuffle") ::
        ((SaveArea.loadDraft b.argSave.keep b.sp (b.layout.offset .argSave) b.argSave.slots).code ++
          Draft.code (b.shuffle.moves.map b.moveContext.lower) ++ b.bufferCode o) ++
        [.comment ("\x7d " ++ "argument shuffle")] := by
  rw [code, draft, shuffleArgs, Draft.code_block, Draft.code_append, Draft.code_append, bufferCode]
  cases o.buffer <;> rfl

theorem code_resolveReceiver :
    b.code o .resolveReceiver =
      [.comment ("\x7b " ++ "receiver"),
        .loadImm b.request.target.roles.shuffle.index b.request.receiver.raw,
        .resolve b.request.target.roles.shuffle.index b.request.target.roles.thread.index
          b.request.target.roles.secondScratch.index,
        .move (.general b.boundary.receiver.index)
          (.general b.request.target.roles.shuffle.index),
        .comment ("\x7d " ++ "receiver")] := rfl

theorem code_invoke :
    b.code o .invoke =
      [.loadImm b.request.target.roles.method.index b.request.method.metadata,
        .store (.general b.request.target.roles.method.index) b.request.target.roles.thread.index
          calleeOffset,
        .loadAcquire b.request.target.roles.scratch.index b.request.target.roles.method.index
          cellOffset,
        .call b.request.target.roles.scratch.index] := rfl

theorem code_handleResult :
    b.code o .handleResult =
      match o.buffer with
      | none => []
      | some (offset, _) =>
        b.frameAddress b.request.target.roles.scratch offset ::
          (SaveArea.loadDraft .low b.request.target.roles.scratch.index 0
            b.resultSave.slots).code := by
  rw [code, draft, handleResult]
  cases o.buffer with
  | none => rfl
  | some pair =>
    simp only [Draft.code_cons_ok, SaveArea.loadDraft, Nat.zero_add]
    rfl

theorem code_spillResult :
    b.code o .spillResult =
      (SaveArea.storeDraft b.resultSave.keep b.sp (b.layout.offset .resultSave)
        b.resultSave.slots).code := rfl

theorem code_onExit :
    b.code o .onExit =
      [.comment ("\x7b " ++ "on_exit"), b.frameAddress b.hookArg o.data,
        .loadImm b.request.target.roles.scratch.index b.request.hooks.onExit.address,
        .call b.request.target.roles.scratch.index, .comment ("\x7d " ++ "on_exit")] := rfl

theorem code_restoreCallee :
    b.code o .restoreCallee =
      (SaveArea.loadDraft b.calleeSave.keep b.sp (b.layout.offset .calleeSave)
        b.calleeSave.slots).code := rfl

theorem code_fillResult :
    b.code o .fillResult =
      (SaveArea.loadDraft b.resultSave.keep b.sp (b.layout.offset .resultSave)
        b.resultSave.slots).code := rfl

theorem code_epilogue : b.code o .epilogue = [.leave, .ret] := rfl

theorem code_exceptionHandler :
    b.code o .exceptionHandler =
      [.comment ("\x7b " ++ "exception handler"),
        .move (.general b.hookArg.index) (.general b.exception.index),
        .loadImm b.request.target.roles.scratch.index b.request.hooks.uncaught.address,
        .call b.request.target.roles.scratch.index, .trap,
        .comment ("\x7d " ++ "exception handler")] := rfl

/-! ## Blocks -/

/-- The code of phases one behind the other. -/
def codes (ps : List Phase) : List Instruction := ps.flatMap (b.code o)

/-- Everything that is done before the entry hook is called. -/
def toEntryHook : List Instruction :=
  b.codes o [.prologue, .spillArgs, .preserveCallee] ++ (b.code o .onEntry).take 3

/-- Everything that is done between the entry hook and the method. -/
def toTarget : List Instruction :=
  (b.code o .onEntry).drop 4 ++ b.codes o [.shuffleArgs, .resolveReceiver] ++
    (b.code o .invoke).take 3

/-- Everything that is done between the method and the exit hook. -/
def toExitHook : List Instruction :=
  b.codes o [.handleResult, .spillResult] ++ (b.code o .onExit).take 3

/-- Everything that is done between the exit hook and the return. -/
def toReturn : List Instruction :=
  (b.code o .onExit).drop 4 ++ b.codes o [.restoreCallee, .fillResult] ++
    (b.code o .epilogue).take 1

/-- The index of the call in a phase that calls a hook or the method. -/
def callIndex (p : Phase) : Nat := b.phaseIndex o p + 3

variable {b o} {p : Phase} {i : Instruction} {k : Nat} {target : RegIndex}

theorem plain_of_mem_code (hp : p ∈ Phase.plain) (hi : i ∈ b.code o p) : i.isPlain = true := by
  simp only [Phase.plain, List.mem_cons, List.not_mem_nil, or_false] at hp
  rcases hp with rfl | rfl | rfl | rfl | rfl | rfl | rfl | rfl | rfl
  · rw [code_prologue] at hi
    rcases List.mem_pair.1 hi with rfl | rfl <;> rfl
  · exact (SaveArea.mem_storeDraft (code_spillArgs b o ▸ hi)).1
  · exact (SaveArea.mem_storeDraft (code_preserveCallee b o ▸ hi)).1
  · rw [code_shuffleArgs] at hi
    simp only [List.cons_append, List.mem_cons, List.mem_append, List.not_mem_nil, or_false] at hi
    rcases hi with rfl | ((hi | hi) | hi) | rfl
    · rfl
    · exact (SaveArea.mem_loadDraft hi).1
    · obtain ⟨_, _, hplain, _⟩ := MoveContext.mem_draft hi
      exact hplain
    · rw [bufferCode] at hi
      split at hi
      · cases hi
      · rw [List.mem_singleton.1 hi]
        rfl
    · rfl
  · rw [code_resolveReceiver] at hi
    simp only [List.mem_cons, List.not_mem_nil, or_false] at hi
    rcases hi with rfl | rfl | rfl | rfl | rfl <;> rfl
  · rw [code_handleResult] at hi
    split at hi
    · cases hi
    · rcases List.mem_cons.1 hi with rfl | hi
      · rfl
      · exact (SaveArea.mem_loadDraft hi).1
  · exact (SaveArea.mem_storeDraft (code_spillResult b o ▸ hi)).1
  · exact (SaveArea.mem_loadDraft (code_restoreCallee b o ▸ hi)).1
  · exact (SaveArea.mem_loadDraft (code_fillResult b o ▸ hi)).1

theorem plain_of_mem_codes {ps : List Phase} (hps : ps ⊆ Phase.plain) (hi : i ∈ b.codes o ps) :
    i.isPlain = true := by
  obtain ⟨p, hp, hi⟩ := List.mem_flatMap.1 hi
  exact plain_of_mem_code (hps hp) hi

theorem plain_toEntryHook : ∀ i ∈ b.toEntryHook o, i.isPlain = true := by
  intro i hi
  rcases List.mem_append.1 hi with hi | hi
  · exact plain_of_mem_codes (by decide) hi
  · simp only [code_onEntry, List.take_succ_cons, List.take_zero, List.mem_cons, List.not_mem_nil,
      or_false] at hi
    rcases hi with rfl | rfl | rfl <;> rfl

theorem plain_toTarget : ∀ i ∈ b.toTarget o, i.isPlain = true := by
  intro i hi
  simp only [toTarget, List.mem_append] at hi
  rcases hi with (hi | hi) | hi
  · simp only [code_onEntry, List.drop_succ_cons, List.drop_zero, List.mem_cons, List.not_mem_nil,
      or_false] at hi
    rcases hi with rfl | rfl <;> rfl
  · exact plain_of_mem_codes (by decide) hi
  · simp only [code_invoke, List.take_succ_cons, List.take_zero, List.mem_cons, List.not_mem_nil,
      or_false] at hi
    rcases hi with rfl | rfl | rfl <;> rfl

theorem plain_toExitHook : ∀ i ∈ b.toExitHook o, i.isPlain = true := by
  intro i hi
  rcases List.mem_append.1 hi with hi | hi
  · exact plain_of_mem_codes (by decide) hi
  · simp only [code_onExit, List.take_succ_cons, List.take_zero, List.mem_cons, List.not_mem_nil,
      or_false] at hi
    rcases hi with rfl | rfl | rfl <;> rfl

theorem plain_toReturn : ∀ i ∈ b.toReturn o, i.isPlain = true := by
  intro i hi
  simp only [toReturn, List.mem_append] at hi
  rcases hi with (hi | hi) | hi
  · simp only [code_onExit, List.drop_succ_cons, List.drop_zero, List.mem_cons, List.not_mem_nil,
      or_false] at hi
    rw [hi]
    rfl
  · exact plain_of_mem_codes (by decide) hi
  · simp only [code_epilogue, List.take_succ_cons, List.take_zero, List.mem_cons, List.not_mem_nil,
      or_false] at hi
    rw [hi]
    rfl

/-- The first block begins with the prologue. -/
theorem toEntryHook_eq :
    b.toEntryHook o = b.code o .prologue ++
      (b.codes o [.spillArgs, .preserveCallee] ++ (b.code o .onEntry).take 3) := by
  rw [toEntryHook, codes, List.flatMap_cons, List.append_assoc]
  rfl

theorem mem_toTarget (hi : i ∈ b.toTarget o) :
    ∃ p ∈ [Phase.onEntry, .shuffleArgs, .resolveReceiver, .invoke], i ∈ b.code o p := by
  simp only [toTarget, codes, List.flatMap_cons, List.flatMap_nil, List.append_nil,
    List.mem_append] at hi
  rcases hi with (hi | hi | hi) | hi
  · exact ⟨.onEntry, by simp, List.mem_of_mem_drop hi⟩
  · exact ⟨.shuffleArgs, by simp, hi⟩
  · exact ⟨.resolveReceiver, by simp, hi⟩
  · exact ⟨.invoke, by simp, List.mem_of_mem_take hi⟩

theorem mem_toExitHook (hi : i ∈ b.toExitHook o) :
    ∃ p ∈ [Phase.handleResult, .spillResult, .onExit], i ∈ b.code o p := by
  simp only [toExitHook, codes, List.flatMap_cons, List.flatMap_nil, List.append_nil,
    List.mem_append] at hi
  rcases hi with (hi | hi) | hi
  · exact ⟨.handleResult, by simp, hi⟩
  · exact ⟨.spillResult, by simp, hi⟩
  · exact ⟨.onExit, by simp, List.mem_of_mem_take hi⟩

/-- The call in a phase that calls a hook or the method. -/
theorem getElem?_code (hp : p ∈ Phase.calling) :
    (b.code o p)[3]? = some (.call b.request.target.roles.scratch.index) := by
  simp only [Phase.calling, List.mem_cons, List.not_mem_nil, or_false] at hp
  rcases hp with rfl | rfl | rfl | rfl <;> rfl

/-- What is not plain: the calls, the return, and the trap behind the call in the handler. -/
theorem not_plain_of_getElem?_code (hk : (b.code o p)[k]? = some i) (hi : i.isPlain = false) :
    (p ∈ Phase.calling ∧ k = 3 ∧ i = .call b.request.target.roles.scratch.index) ∨
      (p = .epilogue ∧ k = 1 ∧ i = .ret) ∨ (p = .exceptionHandler ∧ k = 4 ∧ i = .trap) := by
  by_cases hp : p ∈ Phase.plain
  · rw [plain_of_mem_code hp (List.mem_of_getElem? hk)] at hi
    cases hi
  · cases p with
    | epilogue =>
      rw [code_epilogue] at hk
      rcases k with _ | _ | k <;> simp at hk <;> subst hk <;> simp_all [Instruction.isPlain]
    | onEntry =>
      rw [code_onEntry] at hk
      rcases k with _ | _ | _ | _ | _ | _ | k <;> simp [frameAddress] at hk <;> subst hk <;>
        simp_all [Instruction.isPlain]
    | invoke =>
      rw [code_invoke] at hk
      rcases k with _ | _ | _ | _ | k <;> simp at hk <;> subst hk <;>
        simp_all [Instruction.isPlain]
    | onExit =>
      rw [code_onExit] at hk
      rcases k with _ | _ | _ | _ | _ | k <;> simp [frameAddress] at hk <;> subst hk <;>
        simp_all [Instruction.isPlain]
    | exceptionHandler =>
      rw [code_exceptionHandler] at hk
      rcases k with _ | _ | _ | _ | _ | _ | k <;> simp at hk <;> subst hk <;>
        simp_all [Instruction.isPlain]
    | _ => exact absurd (by decide) hp

/-- There is no other call in such a phase. -/
theorem eq_three_of_getElem?_code (hk : (b.code o p)[k]? = some (.call target)) : k = 3 := by
  rcases not_plain_of_getElem?_code hk rfl with ⟨_, rfl, _⟩ | ⟨_, _, h⟩ | ⟨_, _, h⟩
  · rfl
  · cases h
  · cases h

/-- The only return is at the end of the epilogue. -/
theorem eq_epilogue_of_getElem?_code (hk : (b.code o p)[k]? = some .ret) :
    p = .epilogue ∧ k = 1 := by
  rcases not_plain_of_getElem?_code hk rfl with ⟨_, _, h⟩ | ⟨rfl, rfl, _⟩ | ⟨_, _, h⟩
  · cases h
  · exact ⟨rfl, rfl⟩
  · cases h

/-- The only trap is behind the call in the handler. -/
theorem eq_handler_of_getElem?_code (hk : (b.code o p)[k]? = some .trap) :
    p = .exceptionHandler ∧ k = 4 := by
  rcases not_plain_of_getElem?_code hk rfl with ⟨_, _, h⟩ | ⟨_, _, h⟩ | ⟨rfl, rfl, _⟩
  · cases h
  · cases h
  · exact ⟨rfl, rfl⟩

/-- A phase with a call in it, taken apart at the call. -/
theorem code_eq_take_drop (hp : p ∈ Phase.calling) :
    b.code o p =
      (b.code o p).take 3 ++
        .call b.request.target.roles.scratch.index :: (b.code o p).drop 4 := by
  obtain ⟨hlt, hget⟩ := List.getElem?_eq_some_iff.1 (getElem?_code (b := b) (o := o) hp)
  rw [← hget, ← List.drop_eq_getElem_cons hlt, List.take_append_drop]

/-- Everything in front of the handler: four blocks, three calls and the return. -/
theorem normal_eq_blocks :
    Phase.normal.flatMap (b.code o) =
      b.toEntryHook o ++ .call b.request.target.roles.scratch.index ::
        (b.toTarget o ++ .call b.request.target.roles.scratch.index ::
          (b.toExitHook o ++ .call b.request.target.roles.scratch.index ::
            (b.toReturn o ++ [.ret]))) := by
  have hcalls : ∀ p ∈ [Phase.onEntry, .invoke, .onExit], ∀ rest,
      b.code o p ++ rest =
        (b.code o p).take 3 ++ .call b.request.target.roles.scratch.index ::
          ((b.code o p).drop 4 ++ rest) := by
    intro p hp rest
    rw [← List.cons_append, ← List.append_assoc, ← code_eq_take_drop (Phase.mem_calling hp)]
  have hinvoke : (b.code o .invoke).drop 4 = [] := by rw [code_invoke]; rfl
  simp only [Phase.normal, toEntryHook, toTarget, toExitHook, toReturn, codes, List.flatMap_cons,
    List.flatMap_nil, List.append_nil]
  rw [hcalls .onEntry (by simp), hcalls .invoke (by simp), hcalls .onExit (by simp), hinvoke,
    code_epilogue]
  simp only [List.take_succ_cons, List.take_zero, List.append_assoc, List.cons_append,
    List.nil_append]

/-- Each call is where the block in front of it ends. -/
theorem callIndex_eq :
    b.callIndex o .onEntry = (b.toEntryHook o).length ∧
    b.callIndex o .invoke = b.callIndex o .onEntry + 1 + (b.toTarget o).length ∧
    b.callIndex o .onExit = b.callIndex o .invoke + 1 + (b.toExitHook o).length ∧
    b.phaseIndex o .epilogue + 1 = b.callIndex o .onExit + 1 + (b.toReturn o).length := by
  have hentry : Phase.before .onEntry = [.prologue, .spillArgs, .preserveCallee] := rfl
  have hinvoke : Phase.before .invoke =
    [.prologue, .spillArgs, .preserveCallee, .onEntry, .shuffleArgs, .resolveReceiver] := rfl
  have hexit : Phase.before .onExit =
    [.prologue, .spillArgs, .preserveCallee, .onEntry, .shuffleArgs, .resolveReceiver, .invoke,
      .handleResult, .spillResult] := rfl
  have hepilogue : Phase.before .epilogue =
    [.prologue, .spillArgs, .preserveCallee, .onEntry, .shuffleArgs, .resolveReceiver, .invoke,
      .handleResult, .spillResult, .onExit, .restoreCallee, .fillResult] := rfl
  have hlen : (b.code o .onEntry).length = 6 ∧ (b.code o .invoke).length = 4 ∧
      (b.code o .onExit).length = 5 ∧ (b.code o .epilogue).length = 2 := ⟨rfl, rfl, rfl, rfl⟩
  simp only [callIndex, phaseIndex, hentry, hinvoke, hexit, hepilogue, toEntryHook, toTarget,
    toExitHook, toReturn, codes, List.length_append, List.flatMap_cons, List.flatMap_nil,
    List.length_take, List.length_drop, List.length_nil, hlen.1, hlen.2.1, hlen.2.2.1,
    hlen.2.2.2]
  omega

/-- The calls are in front of the return. -/
theorem callIndex_lt (hp : p ∈ [Phase.onEntry, .invoke, .onExit]) :
    b.callIndex o p < b.phaseIndex o .epilogue + 2 := by
  obtain ⟨hentry, hinvoke, hexit, hepilogue⟩ := callIndex_eq (b := b) (o := o)
  simp only [List.mem_cons, List.not_mem_nil, or_false] at hp
  rcases hp with rfl | rfl | rfl <;> omega

/-! ## The chain -/

namespace Builds

variable {stub : Stub} {σ : Type} {m m' : Machine σ} {index : Nat} {before after : Cpu}
  {address : Word} {here : Machine σ}

/-- Where the blocks are: at the beginning, and behind the calls. -/
theorem hasAt_blocks (h : b.Builds o stub) :
    stub.code.HasAt 0 (b.toEntryHook o) ∧
    stub.code.HasAt (b.callIndex o .onEntry + 1) (b.toTarget o) ∧
    stub.code.HasAt (b.callIndex o .invoke + 1) (b.toExitHook o) ∧
    stub.code.HasAt (b.callIndex o .onExit + 1) (b.toReturn o) := by
  obtain ⟨hentry, hinvoke, hexit, _⟩ := callIndex_eq (b := b) (o := o)
  have hall : stub.code.HasAt 0 (Phase.normal.flatMap (b.code o)) := by
    refine ⟨[Phase.exceptionHandler].flatMap (b.code o), ?_⟩
    rw [h.instructions, Phase.all, List.flatMap_append, List.drop_zero]
  rw [normal_eq_blocks] at hall
  have htarget := hall.right.tail
  rw [Nat.zero_add, ← hentry] at htarget
  have hback := htarget.right.tail
  rw [← hinvoke] at hback
  have hreturn := hback.right.tail
  rw [← hexit] at hreturn
  exact ⟨hall.left, htarget.left, hback.left, hreturn.left⟩

/-- The number of instructions in front of the handler. -/
theorem length_normal :
    (Phase.normal.flatMap (b.code o)).length = b.phaseIndex o .epilogue + 2 := by
  obtain ⟨hentry, hinvoke, hexit, hepilogue⟩ := callIndex_eq (b := b) (o := o)
  rw [normal_eq_blocks]
  simp only [List.length_append, List.length_cons, List.length_nil]
  omega

/-- Exceptions enter behind the return. -/
theorem handler_behind (h : b.Builds o stub) :
    stub.HandlerBehind (b.phaseIndex o .epilogue + 2) :=
  length_normal (b := b) ▸ h.handlerBehind

/-- The call of a phase is where `callIndex` says, and nowhere else. -/
theorem call_iff (h : b.Builds o stub) (hp : p ∈ Phase.calling) :
    stub.phaseAt? index = some p ∧ stub.code.instructions[index]? = some (.call target) ↔
      index = b.callIndex o p ∧ target = b.request.target.roles.scratch.index := by
  have hget := getElem?_code (b := b) (o := o) hp
  constructor
  · rintro ⟨hphase, hcall⟩
    obtain ⟨k, rfl, hk⟩ := h.mem_phase hcall rfl hphase
    obtain rfl := eq_three_of_getElem?_code hk
    exact ⟨rfl, (Instruction.call.inj (Option.some.inj (hget.symm.trans hk))).symm⟩
  · rintro ⟨rfl, rfl⟩
    exact ⟨h.phaseAt?_eq hget rfl, h.get hget⟩

theorem get_call (h : b.Builds o stub) (hp : p ∈ Phase.calling) :
    stub.code.instructions[b.callIndex o p]? =
      some (.call b.request.target.roles.scratch.index) :=
  ((h.call_iff hp).2 ⟨rfl, rfl⟩).2

theorem callsIn_iff (h : b.Builds o stub) (hp : p ∈ Phase.calling) :
    m.CallsIn stub p here address ↔
      m.Reaches stub here (b.callIndex o p) ∧
        here.cpu.general b.request.target.roles.scratch.index = address := by
  constructor
  · rintro ⟨index, target, hreach, hphase, hget, haddr⟩
    obtain ⟨rfl, rfl⟩ := (h.call_iff hp).1 ⟨hphase, hget⟩
    exact ⟨hreach, haddr⟩
  · rintro ⟨hreach, haddr⟩
    obtain ⟨hphase, hget⟩ := (h.call_iff hp).2 ⟨rfl, rfl⟩
    exact ⟨_, _, hreach, hphase, hget, haddr⟩

theorem returnsIn_iff (h : b.Builds o stub) (hp : p ∈ Phase.calling) :
    m.ReturnsIn stub p before after ↔ m.ReturnsAt stub (b.callIndex o p) before after := by
  constructor
  · rintro ⟨index, hphase, hreturns⟩
    have hcall := hreturns
    obtain ⟨_, target, _, _, _, _, hget, _⟩ := hcall
    obtain ⟨rfl, _⟩ := (h.call_iff hp).1 ⟨hphase, hget⟩
    exact hreturns
  · exact fun hreturns => ⟨_, ((h.call_iff hp).2 ⟨rfl, rfl⟩).1, hreturns⟩

/-- A call gives control back at most once. -/
theorem returnsIn_unique {before' after' : Cpu} (h : b.Builds o stub)
    (hp : p ∈ [Phase.onEntry, .invoke, .onExit]) (hr : m.ReturnsIn stub p before after)
    (hr' : m.ReturnsIn stub p before' after') : before = before' ∧ after = after' := by
  rw [h.returnsIn_iff (Phase.mem_calling hp)] at hr hr'
  exact Machine.ReturnsAt.unique h.handler_behind (callIndex_lt hp) hr hr'

/-- The state before the entry hook is called. -/
theorem reaches_entry (h : b.Builds o stub) (hr : m.Reaches stub here (b.callIndex o .onEntry)) :
    here.cpu = m.cpu.executeAll m.wiring (b.toEntryHook o) := by
  obtain ⟨hentry, hinvoke, hexit, hepilogue⟩ := callIndex_eq (b := b) (o := o)
  rw [hentry, ← Nat.zero_add (b.toEntryHook o).length] at hr
  obtain ⟨m₀, h₀, rfl⟩ :=
    hr.of_block h.handler_behind (by omega) h.hasAt_blocks.1 plain_toEntryHook
  rw [h₀.of_zero h.handler_behind (by omega)]

/-- The state before the method is called. -/
theorem reaches_target (h : b.Builds o stub) (hr : m.Reaches stub here (b.callIndex o .invoke)) :
    ∃ before after, m.ReturnsIn stub .onEntry before after ∧
      here.cpu = after.executeAll m.wiring (b.toTarget o) := by
  obtain ⟨hentry, hinvoke, hexit, hepilogue⟩ := callIndex_eq (b := b) (o := o)
  obtain ⟨before, after, hreturns, hcpu⟩ := hr.of_call_block h.handler_behind (by omega) hinvoke
    (h.get_call (by simp)) h.hasAt_blocks.2.1 plain_toTarget
  exact ⟨before, after, (h.returnsIn_iff (by simp)).2 hreturns, hcpu⟩

/-- The state before the exit hook is called. -/
theorem reaches_exit (h : b.Builds o stub) (hr : m.Reaches stub here (b.callIndex o .onExit)) :
    ∃ before after, m.ReturnsIn stub .invoke before after ∧
      here.cpu = after.executeAll m.wiring (b.toExitHook o) := by
  obtain ⟨hentry, hinvoke, hexit, hepilogue⟩ := callIndex_eq (b := b) (o := o)
  obtain ⟨before, after, hreturns, hcpu⟩ := hr.of_call_block h.handler_behind (by omega) hexit
    (h.get_call (by simp)) h.hasAt_blocks.2.2.1 plain_toExitHook
  exact ⟨before, after, (h.returnsIn_iff (by simp)).2 hreturns, hcpu⟩

/-- The state before the return. -/
theorem reaches_return (h : b.Builds o stub)
    (hr : m.Reaches stub here (b.phaseIndex o .epilogue + 1)) :
    ∃ before after, m.ReturnsIn stub .onExit before after ∧
      here.cpu = after.executeAll m.wiring (b.toReturn o) := by
  obtain ⟨hentry, hinvoke, hexit, hepilogue⟩ := callIndex_eq (b := b) (o := o)
  obtain ⟨before, after, hreturns, hcpu⟩ := hr.of_call_block h.handler_behind (by omega) hepilogue
    (h.get_call (by simp)) h.hasAt_blocks.2.2.2 plain_toReturn
  exact ⟨before, after, (h.returnsIn_iff (by simp)).2 hreturns, hcpu⟩

/-- What the code called in a phase was called with. -/
theorem reaches_of_returnsIn (h : b.Builds o stub) (hp : p ∈ [Phase.onEntry, .invoke, .onExit])
    (hr : m.ReturnsIn stub p before after) :
    ∃ here, m.Reaches stub here (b.callIndex o p) ∧ here.cpu = before := by
  rw [h.returnsIn_iff (Phase.mem_calling hp)] at hr
  obtain ⟨here, _, _, _, hreach, hcpu, _⟩ := hr
  exact ⟨here, hreach, hcpu⟩

theorem exists_callsIn (h : b.Builds o stub) (hp : p ∈ [Phase.onEntry, .invoke, .onExit])
    (hr : m.ReturnsIn stub p before after) :
    ∃ here address, m.CallsIn stub p here address ∧ here.cpu = before := by
  obtain ⟨here, hreach, hcpu⟩ := h.reaches_of_returnsIn hp hr
  exact ⟨here, _, (h.callsIn_iff (Phase.mem_calling hp)).2 ⟨hreach, rfl⟩, hcpu⟩

/-- **The chain of a run that returns**, from its end to its beginning. -/
theorem chain_of_run (h : b.Builds o stub) (hrun : m.run stub = (m', .returned)) :
    ∃ c₁ c₂ c₃,
      m.ReturnsIn stub .onEntry (m.cpu.executeAll m.wiring (b.toEntryHook o)) c₁ ∧
      m.ReturnsIn stub .invoke (c₁.executeAll m.wiring (b.toTarget o)) c₂ ∧
      m.ReturnsIn stub .onExit (c₂.executeAll m.wiring (b.toExitHook o)) c₃ ∧
      m'.cpu = c₃.executeAll m.wiring (b.toReturn o) ∧
      m'.cpu.general m.wiring.stack = stackTop := by
  obtain ⟨j, hreach, hret, hsp⟩ := Machine.reaches_of_run hrun
  obtain ⟨p, k, rfl, hk⟩ := h.exists_phase hret
  obtain ⟨rfl, rfl⟩ := eq_epilogue_of_getElem?_code hk
  obtain ⟨b₃, c₃, hr₃, hcpu⟩ := h.reaches_return hreach
  obtain ⟨here₃, hreach₃, rfl⟩ := h.reaches_of_returnsIn (by simp) hr₃
  obtain ⟨b₂, c₂, hr₂, hcpu₂⟩ := h.reaches_exit hreach₃
  obtain ⟨here₂, hreach₂, rfl⟩ := h.reaches_of_returnsIn (by simp) hr₂
  obtain ⟨b₁, c₁, hr₁, hcpu₁⟩ := h.reaches_target hreach₂
  obtain ⟨here₁, hreach₁, rfl⟩ := h.reaches_of_returnsIn (by simp) hr₁
  rw [h.reaches_entry hreach₁] at hr₁
  rw [hcpu₁] at hr₂
  rw [hcpu₂] at hr₃
  exact ⟨c₁, c₂, c₃, hr₁, hr₂, hr₃, hcpu, hsp⟩

/-! ## Forwards -/

/-- A run comes to the call of the entry hook. -/
theorem exists_reaches_entry (h : b.Builds o stub) :
    ∃ here, m.Reaches stub here (b.callIndex o .onEntry) ∧
      here.cpu = m.cpu.executeAll m.wiring (b.toEntryHook o) := by
  have hblock := Machine.Reaches.block .entry h.hasAt_blocks.1 (plain_toEntryHook (b := b))
    (m := m)
  rw [Nat.zero_add, ← callIndex_eq.1] at hblock
  exact ⟨_, hblock, rfl⟩

/-- If the entry hook returns, the run comes to the call of the method. -/
theorem exists_reaches_target (h : b.Builds o stub)
    (hr : m.ReturnsIn stub .onEntry before after) :
    ∃ here, m.Reaches stub here (b.callIndex o .invoke) ∧
      here.cpu = after.executeAll m.wiring (b.toTarget o) :=
  Machine.Reaches.call_block ((h.returnsIn_iff (by simp)).1 hr) callIndex_eq.2.1
    h.hasAt_blocks.2.1 plain_toTarget

/-- If the method returns, the run comes to the call of the exit hook. -/
theorem exists_reaches_exit (h : b.Builds o stub) (hr : m.ReturnsIn stub .invoke before after) :
    ∃ here, m.Reaches stub here (b.callIndex o .onExit) ∧
      here.cpu = after.executeAll m.wiring (b.toExitHook o) :=
  Machine.Reaches.call_block ((h.returnsIn_iff (by simp)).1 hr) callIndex_eq.2.2.1
    h.hasAt_blocks.2.2.1 plain_toExitHook

/-- If the exit hook returns, the run comes to the return. -/
theorem exists_reaches_return (h : b.Builds o stub) (hr : m.ReturnsIn stub .onExit before after) :
    ∃ here, m.Reaches stub here (b.phaseIndex o .epilogue + 1) ∧
      here.cpu = after.executeAll m.wiring (b.toReturn o) :=
  Machine.Reaches.call_block ((h.returnsIn_iff (by simp)).1 hr) callIndex_eq.2.2.2
    h.hasAt_blocks.2.2.2 plain_toReturn

end Builds

end Blueprint

end Trampoline
