import Trampoline.Machine
import Trampoline.Proofs.Machine.Effect

/-!
# The way of a run through a stub

A run carries out instructions one by one, and there is one kind of jump: an exception takes it to
the handler.  In front of the handler, then, it can only have come from the instruction before, and
so it has carried out every instruction from the first one on.  This is what lets a proof reason
backwards, from the moment it is about to what must have happened before.

## What is here

* `Machine.Reaches` — the moments of a run: a state, and the index of the instruction that is
  carried out next.
* `Reaches.block` and `Reaches.of_block` — a block of plain instructions is carried out as a whole,
  forwards and backwards.
* `Machine.ReturnsAt` — a call that gives control back; `Reaches.of_call` says that the instruction
  behind a call is reached in no other way.
* `Machine.ThrowsAt` — a call that raises an exception; `Reaches.after_throw` and `Reaches.origin`
  say that this leads to the handler and nothing else does, the instruction before it apart.
* `Reaches.unique` — a run comes by each place in front of the handler at most once.
* `reaches_of_run` and `run_of_reaches` — runs that end in a return.
-/

set_option autoImplicit false

namespace Trampoline

/-- The instructions lie in the code from this index on. -/
def Code.HasAt (code : Code) (index : Nat) (is : List Instruction) : Prop :=
  is <+: code.instructions.drop index

namespace Code.HasAt

variable {code : Code} {index : Nat} {i : Instruction} {is js : List Instruction}

theorem get (h : code.HasAt index (i :: is)) : code.instructions[index]? = some i := by
  obtain ⟨post, h⟩ := h
  have hget := congrArg (·[0]?) h
  simpa using hget.symm

theorem left (h : code.HasAt index (is ++ js)) : code.HasAt index is :=
  (List.prefix_append is js).trans h

theorem right (h : code.HasAt index (is ++ js)) : code.HasAt (index + is.length) js := by
  obtain ⟨post, h⟩ := h
  have hdrop := congrArg (List.drop is.length) h
  rw [List.append_assoc, List.drop_left, List.drop_drop] at hdrop
  exact ⟨post, hdrop⟩

theorem tail (h : code.HasAt index (i :: is)) : code.HasAt (index + 1) is :=
  right (show code.HasAt index ([i] ++ is) from h)

end Code.HasAt

/-- Exceptions enter behind the instructions up to this index. -/
def Stub.HandlerBehind (stub : Stub) (index : Nat) : Prop :=
  ∀ handler, stub.code.startingAt? stub.handlerOffset = some handler → index ≤ handler

namespace Machine

variable {σ : Type} {m m' m₁ m₂ : Machine σ} {stub : Stub} {i j n : Nat}

/-! ## Single steps -/

theorem step_plain {ins : Instruction} (hget : stub.code.instructions[i]? = some ins)
    (hplain : ins.isPlain = true) :
    m.step stub i = ({ m with cpu := m.cpu.execute m.wiring ins }, .ok (i + 1)) := by
  rw [step, hget]
  cases ins <;> first | rfl | cases hplain

theorem step_call {target : RegIndex} (hget : stub.code.instructions[i]? = some (.call target)) :
    m.step stub i = m.call stub (m.cpu.general target) (i + 1) := by
  rw [step, hget]

theorem step_ret (hget : stub.code.instructions[i]? = some .ret) :
    m.step stub i =
      (m, .error (if m.cpu.general m.wiring.stack = stackTop then .returned
        else .fault (.unbalanced (m.cpu.general m.wiring.stack)))) := by
  rw [step, hget]

theorem step_trap (hget : stub.code.instructions[i]? = some .trap) :
    m.step stub i = (m, .error (.trapped ((stub.code.offset? i).getD 0))) := by
  rw [step, hget]

theorem step_none (hget : stub.code.instructions[i]? = none) :
    m.step stub i = (m, .error (.fault (.fellOff i))) := by
  rw [step, hget]

/-- The machine in which an exception enters the handler: its state is what the called code has
left, with the exception in the register for it. -/
def raise (m : Machine σ) (e : External σ) (exception : Word) (host : σ) (cpu : Cpu) : Machine σ :=
  { m with
    host
    cpu := cpu.setGeneral m.exceptionRegister.index exception
    calls := m.calls.push e.name }

/-- A call leads to the next instruction if the called code returns, to the handler if it throws,
and nowhere otherwise. -/
theorem call_eq_ok {address : Word} (h : m.call stub address i = (m', .ok j)) :
    (∃ e host cpu, m.externalAt address = some e ∧ e.act m.host m.cpu = (.returns, host, cpu) ∧
      m' = { m with host, cpu, calls := m.calls.push e.name } ∧ j = i) ∨
    ∃ e exception host cpu, m.externalAt address = some e ∧
      e.act m.host m.cpu = (.throws exception, host, cpu) ∧
      m' = m.raise e exception host cpu ∧ stub.code.startingAt? stub.handlerOffset = some j := by
  rw [call] at h
  split at h
  · cases h
  · rename_i e he
    rcases hact : e.act m.host m.cpu with ⟨outcome, host, cpu⟩
    rw [hact] at h
    cases outcome with
    | returns =>
      obtain ⟨rfl, hj⟩ := Prod.mk.inj h
      exact Or.inl ⟨e, host, cpu, he, hact, rfl, by simpa using hj.symm⟩
    | throws exception =>
      simp only at h
      split at h
      · rename_i handler hhandler
        obtain ⟨rfl, hj⟩ := Prod.mk.inj h
        refine Or.inr ⟨e, exception, host, cpu, he, hact, rfl, ?_⟩
        rw [hhandler]
        simpa using hj
      · cases h
    | terminates => cases h
    | objects => cases h

/-- The cases of a step that goes on. -/
theorem step_eq_ok (h : m.step stub i = (m', .ok j)) :
    (∃ ins, stub.code.instructions[i]? = some ins ∧ ins.isPlain = true ∧
      m' = { m with cpu := m.cpu.execute m.wiring ins } ∧ j = i + 1) ∨
    ∃ target, stub.code.instructions[i]? = some (.call target) ∧
      m.call stub (m.cpu.general target) (i + 1) = (m', .ok j) := by
  cases hget : stub.code.instructions[i]? with
  | none =>
    rw [step_none hget] at h
    cases h
  | some ins =>
    cases hplain : ins.isPlain with
    | true =>
      rw [step_plain hget hplain] at h
      obtain ⟨rfl, hj⟩ := Prod.mk.inj h
      exact Or.inl ⟨ins, rfl, hplain, rfl, by simpa using hj.symm⟩
    | false =>
      cases ins with
      | call target => exact Or.inr ⟨target, rfl, step_call hget ▸ h⟩
      | ret =>
        rw [step_ret hget] at h
        cases h
      | trap =>
        rw [step_trap hget] at h
        cases h
      | _ => cases hplain

/-- A step goes on to the next instruction or to the handler. -/
theorem next_of_step (h : m.step stub i = (m', .ok j)) :
    j = i + 1 ∨ stub.code.startingAt? stub.handlerOffset = some j := by
  rcases step_eq_ok h with ⟨_, _, _, _, hj⟩ | ⟨_, _, hcall⟩
  · exact Or.inl hj
  · rcases call_eq_ok hcall with ⟨_, _, _, _, _, _, hj⟩ | ⟨_, _, _, _, _, _, _, hj⟩
    · exact Or.inl hj
    · exact Or.inr hj

/-- The same machine in another state. -/
structure Alike (m m' : Machine σ) : Prop where
  file : m'.file = m.file
  externalAt : m'.externalAt = m.externalAt
  cellAt : m'.cellAt = m.cellAt
  exceptionRegister : m'.exceptionRegister = m.exceptionRegister
  stepLimit : m'.stepLimit = m.stepLimit

namespace Alike

theorem refl (m : Machine σ) : m.Alike m := ⟨rfl, rfl, rfl, rfl, rfl⟩

theorem trans (h : m.Alike m₁) (h' : m₁.Alike m₂) : m.Alike m₂ where
  file := h'.file.trans h.file
  externalAt := h'.externalAt.trans h.externalAt
  cellAt := h'.cellAt.trans h.cellAt
  exceptionRegister := h'.exceptionRegister.trans h.exceptionRegister
  stepLimit := h'.stepLimit.trans h.stepLimit

theorem wiring (h : m.Alike m') : m'.wiring = m.wiring := by
  rw [Machine.wiring, Machine.wiring, h.file, h.cellAt]

end Alike

theorem alike_call {address : Word} : m.Alike (m.call stub address i).1 := by
  rw [call]
  split
  · exact Alike.refl m
  · rename_i e _
    rcases e.act m.host m.cpu with ⟨outcome, host, cpu⟩
    cases outcome with
    | throws =>
      simp only
      split <;> exact ⟨rfl, rfl, rfl, rfl, rfl⟩
    | returns | terminates | objects => exact ⟨rfl, rfl, rfl, rfl, rfl⟩

/-- A step changes nothing but the state of a machine. -/
theorem alike_step : m.Alike (m.step stub i).1 := by
  rw [step]
  split
  · exact Alike.refl m
  · exact Alike.refl m
  · exact Alike.refl m
  · exact alike_call
  · exact ⟨rfl, rfl, rfl, rfl, rfl⟩

/-- Nor does a run. -/
theorem alike_runFrom {fuel : Nat} : m.Alike (m.runFrom stub fuel i).1 := by
  induction fuel generalizing m i with
  | zero => exact Alike.refl m
  | succ fuel ih =>
    have hstep : m.Alike (m.step stub i).1 := alike_step
    rw [runFrom]
    rcases h : m.step stub i with ⟨m', next⟩
    rw [h] at hstep
    cases next with
    | ok j => exact hstep.trans ih
    | error exit => exact hstep

/-! ## The moments of a run -/

/-- The run comes to this state with this instruction before it. -/
inductive Reaches (m : Machine σ) (stub : Stub) : Machine σ → Nat → Prop
  | entry : Reaches m stub m 0
  | step {m₁ m₂ : Machine σ} {i j : Nat} :
    Reaches m stub m₁ i → m₁.step stub i = (m₂, .ok j) → Reaches m stub m₂ j

/-- The call at an index gives control back: the state of the registers and memory before it and
after it. -/
def ReturnsAt (m : Machine σ) (stub : Stub) (index : Nat) (before after : Cpu) : Prop :=
  ∃ (m₁ : Machine σ) (target : RegIndex) (e : External σ) (host : σ),
    m.Reaches stub m₁ index ∧ m₁.cpu = before ∧
    stub.code.instructions[index]? = some (.call target) ∧
    m₁.externalAt (before.general target) = some e ∧
    e.act m₁.host before = (.returns, host, after)

/-- The call at an index raises an exception: the machine that enters the handler. -/
def ThrowsAt (m : Machine σ) (stub : Stub) (index : Nat) (exception : Word) (after : Machine σ) :
    Prop :=
  ∃ (m₁ : Machine σ) (target : RegIndex) (e : External σ) (host : σ) (cpu : Cpu),
    m.Reaches stub m₁ index ∧ stub.code.instructions[index]? = some (.call target) ∧
    m₁.externalAt (m₁.cpu.general target) = some e ∧
    e.act m₁.host m₁.cpu = (.throws exception, host, cpu) ∧ after = m₁.raise e exception host cpu

namespace Reaches

theorem alike (h : m.Reaches stub m' i) : m.Alike m' := by
  induction h with
  | entry => exact Alike.refl m
  | @step m₁ m₂ i j _ hstep ih =>
    have h : m₁.Alike (m₁.step stub i).1 := alike_step
    rw [hstep] at h
    exact ih.trans h

theorem wiring (h : m.Reaches stub m' i) : m'.wiring = m.wiring := h.alike.wiring

theorem externalAt (h : m.Reaches stub m' i) : m'.externalAt = m.externalAt := h.alike.externalAt

/-- A run comes to an instruction at its beginning, from the instruction before, or by an
exception. -/
theorem origin (h : m.Reaches stub m₂ j) :
    (m₂ = m ∧ j = 0) ∨
    (∃ m₁ i, m.Reaches stub m₁ i ∧ m₁.step stub i = (m₂, .ok j) ∧ j = i + 1) ∨
    (stub.code.startingAt? stub.handlerOffset = some j ∧
      ∃ i exception, m.ThrowsAt stub i exception m₂) := by
  cases h with
  | entry => exact Or.inl ⟨rfl, rfl⟩
  | @step m₁ _ i _ h hstep =>
    right
    rcases step_eq_ok hstep with ⟨_, _, _, _, hj⟩ | ⟨target, hget, hcall⟩
    · exact Or.inl ⟨m₁, i, h, hstep, hj⟩
    · rcases call_eq_ok hcall with
        ⟨_, _, _, _, _, _, hj⟩ | ⟨e, exception, host, cpu, he, hact, hm, hj⟩
      · exact Or.inl ⟨m₁, i, h, hstep, hj⟩
      · exact Or.inr ⟨hj, i, exception, m₁, target, e, host, cpu, h, hget, he, hact, hm⟩

/-- An exception enters the handler. -/
theorem after_throw {exception : Word} (h : m.ThrowsAt stub i exception m₂)
    (hhandler : stub.code.startingAt? stub.handlerOffset = some j) : m.Reaches stub m₂ j := by
  obtain ⟨m₁, target, e, host, cpu, hreach, hget, he, hact, rfl⟩ := h
  refine hreach.step (j := j) ?_
  rw [step_call hget, call, he]
  simp only [hact, hhandler]
  rfl

/-- In front of the handler a run comes from the instruction before. -/
theorem of_succ (hn : stub.HandlerBehind n) (h : m.Reaches stub m₂ (i + 1)) (hi : i + 1 < n) :
    ∃ m₁, m.Reaches stub m₁ i ∧ m₁.step stub i = (m₂, .ok (i + 1)) := by
  generalize hj : i + 1 = j at h
  cases h with
  | entry => cases hj
  | @step m₁ _ k _ h hstep =>
    rcases next_of_step hstep with hnext | hhandler
    · obtain rfl : i = k := Nat.succ.inj (hj.trans hnext)
      exact ⟨m₁, h, hj ▸ hstep⟩
    · have := hn j hhandler
      omega

/-- A run is at the first instruction only when it begins. -/
theorem of_zero (hn : stub.HandlerBehind n) (h : m.Reaches stub m₁ 0) (hpos : 0 < n) : m₁ = m := by
  generalize hj : 0 = j at h
  cases h with
  | entry => rfl
  | step _ hstep =>
    rcases next_of_step hstep with hnext | hhandler
    · omega
    · have := hn j hhandler
      omega

/-- A run comes by each place in front of the handler at most once. -/
theorem unique (hn : stub.HandlerBehind n) (h₁ : m.Reaches stub m₁ i) (h₂ : m.Reaches stub m₂ i)
    (hi : i < n) : m₁ = m₂ := by
  induction i generalizing m₁ m₂ with
  | zero => rw [h₁.of_zero hn hi, h₂.of_zero hn hi]
  | succ i ih =>
    obtain ⟨p₁, hp₁, hs₁⟩ := h₁.of_succ hn hi
    obtain ⟨p₂, hp₂, hs₂⟩ := h₂.of_succ hn hi
    rw [ih hp₁ hp₂ (by omega), hs₂] at hs₁
    exact (Prod.mk.inj hs₁).1.symm

/-! ## Blocks of instructions -/

variable {is : List Instruction}

theorem block (h : m.Reaches stub m₁ i) (hat : stub.code.HasAt i is)
    (hplain : ∀ ins ∈ is, ins.isPlain = true) :
    m.Reaches stub { m₁ with cpu := m₁.cpu.executeAll m.wiring is } (i + is.length) := by
  induction is generalizing m₁ i with
  | nil => exact h
  | cons ins rest ih =>
    have hstep := step_plain (m := m₁) hat.get (hplain ins List.mem_cons_self)
    have hrest := ih (h.step hstep) hat.tail fun x hx => hplain x (List.mem_cons_of_mem _ hx)
    rw [h.wiring, Nat.add_right_comm] at hrest
    exact hrest

/-- In front of the handler, the end of a block is reached through the block only. -/
theorem of_block (hn : stub.HandlerBehind n) (h : m.Reaches stub m₂ (i + is.length))
    (hi : i + is.length < n) (hat : stub.code.HasAt i is)
    (hplain : ∀ ins ∈ is, ins.isPlain = true) :
    ∃ m₁, m.Reaches stub m₁ i ∧ m₂ = { m₁ with cpu := m₁.cpu.executeAll m.wiring is } := by
  induction is generalizing i with
  | nil => exact ⟨m₂, h, rfl⟩
  | cons ins rest ih =>
    rw [List.length_cons, Nat.add_comm rest.length, ← Nat.add_assoc] at h hi
    obtain ⟨p, hp, hend⟩ := ih h hi hat.tail fun x hx => hplain x (List.mem_cons_of_mem _ hx)
    obtain ⟨m₁, h₁, hstep⟩ := hp.of_succ hn (by omega)
    rw [step_plain hat.get (hplain ins List.mem_cons_self)] at hstep
    obtain ⟨rfl, _⟩ := Prod.mk.inj hstep
    rw [h₁.wiring] at hend
    exact ⟨m₁, h₁, hend⟩

/-! ## Calls -/

variable {target : RegIndex}

theorem after_call {before after : Cpu} (h : m.ReturnsAt stub i before after) :
    ∃ m₂, m.Reaches stub m₂ (i + 1) ∧ m₂.cpu = after := by
  obtain ⟨m₁, target, e, host, hreach, rfl, hget, he, hact⟩ := h
  refine ⟨{ m₁ with host, cpu := after, calls := m₁.calls.push e.name },
    hreach.step (j := i + 1) ?_, rfl⟩
  rw [step_call hget, call, he]
  simp only [hact]

/-- In front of the handler, the instruction behind a call is reached only if the called code
returns. -/
theorem of_call (hn : stub.HandlerBehind n) (h : m.Reaches stub m₂ (i + 1)) (hi : i + 1 < n)
    (hget : stub.code.instructions[i]? = some (.call target)) :
    ∃ before, m.ReturnsAt stub i before m₂.cpu := by
  obtain ⟨m₁, h₁, hstep⟩ := h.of_succ hn hi
  rw [step_call hget] at hstep
  rcases call_eq_ok hstep with ⟨e, host, cpu, he, hact, rfl, _⟩ | ⟨_, _, _, _, _, _, _, hhandler⟩
  · exact ⟨m₁.cpu, m₁, target, e, host, h₁, rfl, hget, he, hact⟩
  · have := hn _ hhandler
    omega

/-- In front of the handler, the end of a block behind a call is reached only through the block, and
only if the called code returns. -/
theorem of_call_block (hn : stub.HandlerBehind n) (h : m.Reaches stub m₂ j) (hj : j < n)
    (hend : j = i + 1 + is.length) (hget : stub.code.instructions[i]? = some (.call target))
    (hat : stub.code.HasAt (i + 1) is) (hplain : ∀ ins ∈ is, ins.isPlain = true) :
    ∃ before after, m.ReturnsAt stub i before after ∧
      m₂.cpu = after.executeAll m.wiring is := by
  subst hend
  obtain ⟨m₁, h₁, rfl⟩ := h.of_block hn hj hat hplain
  obtain ⟨before, hreturns⟩ := h₁.of_call hn (by omega) hget
  exact ⟨before, m₁.cpu, hreturns, rfl⟩

/-- When called code returns, the block behind the call is carried out. -/
theorem call_block {before after : Cpu} (h : m.ReturnsAt stub i before after)
    (hend : j = i + 1 + is.length) (hat : stub.code.HasAt (i + 1) is)
    (hplain : ∀ ins ∈ is, ins.isPlain = true) :
    ∃ m₂, m.Reaches stub m₂ j ∧ m₂.cpu = after.executeAll m.wiring is := by
  subst hend
  obtain ⟨m₁, h₁, rfl⟩ := after_call h
  exact ⟨_, h₁.block hat hplain, rfl⟩

end Reaches

/-- A call in front of the handler gives control back at most once. -/
theorem ReturnsAt.unique {before after before' after' : Cpu} (hn : stub.HandlerBehind n)
    (hi : i < n) (h : m.ReturnsAt stub i before after) (h' : m.ReturnsAt stub i before' after') :
    before = before' ∧ after = after' := by
  obtain ⟨m₁, target, e, host, h₁, rfl, hget, he, hact⟩ := h
  obtain ⟨m₂, target', e', host', h₂, rfl, hget', he', hact'⟩ := h'
  obtain rfl := h₁.unique hn h₂ hi
  obtain rfl := Instruction.call.inj (Option.some.inj (hget.symm.trans hget'))
  obtain rfl := Option.some.inj (he.symm.trans he')
  exact ⟨rfl, (Prod.mk.inj (Prod.mk.inj (hact.symm.trans hact')).2).2⟩

/-! ## Whole runs -/

/-- A call may end a run, but not as returned. -/
theorem call_ne_returned {address : Word} :
    (m.call stub address i).2 ≠ .error .returned := by
  intro h
  rw [call] at h
  split at h
  · cases h
  · rename_i e _
    rcases hact : e.act m.host m.cpu with ⟨outcome, host, cpu⟩
    rw [hact] at h
    cases outcome with
    | throws =>
      simp only at h
      split at h <;> cases h
    | returns | terminates | objects => cases h

/-- Only a return ends a run as returned. -/
theorem step_eq_returned (h : m.step stub i = (m', .error .returned)) :
    m' = m ∧ stub.code.instructions[i]? = some .ret ∧
      m.cpu.general m.wiring.stack = stackTop := by
  cases hget : stub.code.instructions[i]? with
  | none =>
    rw [step_none hget] at h
    cases h
  | some ins =>
    cases hplain : ins.isPlain with
    | true =>
      rw [step_plain hget hplain] at h
      cases h
    | false =>
      cases ins with
      | ret =>
        rw [step_ret hget] at h
        obtain ⟨rfl, hexit⟩ := Prod.mk.inj h
        by_cases hsp : m.cpu.general m.wiring.stack = stackTop
        · exact ⟨rfl, rfl, hsp⟩
        · rw [if_neg hsp] at hexit
          cases hexit
      | trap =>
        rw [step_trap hget] at h
        cases h
      | call target =>
        rw [step_call hget] at h
        exact absurd (congrArg Prod.snd h) call_ne_returned
      | _ => cases hplain

/-- A run that returns has come to a return with a balanced stack. -/
theorem reaches_of_runFrom {fuel : Nat} (h : m.Reaches stub m₁ i)
    (hrun : m₁.runFrom stub fuel i = (m', .returned)) :
    ∃ j, m.Reaches stub m' j ∧ stub.code.instructions[j]? = some .ret ∧
      m'.cpu.general m.wiring.stack = stackTop := by
  induction fuel generalizing m₁ i with
  | zero => cases hrun
  | succ fuel ih =>
    rw [runFrom] at hrun
    rcases hstep : m₁.step stub i with ⟨p, next⟩
    rw [hstep] at hrun
    cases next with
    | ok j => exact ih (h.step hstep) hrun
    | error stop =>
      obtain ⟨rfl, rfl⟩ := Prod.mk.inj hrun
      obtain ⟨rfl, hret, hsp⟩ := step_eq_returned hstep
      exact ⟨i, h, hret, h.wiring ▸ hsp⟩

theorem reaches_of_run (hrun : m.run stub = (m', .returned)) :
    ∃ j, m.Reaches stub m' j ∧ stub.code.instructions[j]? = some .ret ∧
      m'.cpu.general m.wiring.stack = stackTop :=
  reaches_of_runFrom .entry hrun

/-- In front of the handler a run has made as many steps as there are instructions behind it. -/
theorem runFrom_of_reaches (hn : stub.HandlerBehind n) (h : m.Reaches stub m₁ i) (hi : i < n)
    (fuel : Nat) : m.runFrom stub (i + fuel) 0 = m₁.runFrom stub fuel i := by
  induction i generalizing m₁ fuel with
  | zero => rw [h.of_zero hn hi, Nat.zero_add]
  | succ i ih =>
    obtain ⟨p, hp, hstep⟩ := h.of_succ hn hi
    rw [Nat.add_right_comm, Nat.add_assoc, ih hp (by omega), runFrom, hstep]

/-- A run that comes to a return with a balanced stack returns, unless there are too many
instructions. -/
theorem run_of_reaches (hn : stub.HandlerBehind n) (h : m.Reaches stub m₁ i) (hi : i < n)
    (hret : stub.code.instructions[i]? = some .ret)
    (hsp : m₁.cpu.general m.wiring.stack = stackTop) (hlimit : i < m.stepLimit) :
    m.run stub = (m₁, .returned) := by
  obtain ⟨fuel, hfuel⟩ := Nat.exists_eq_add_of_lt hlimit
  rw [run, hfuel, Nat.add_assoc, runFrom_of_reaches hn h hi, runFrom, step_ret hret, h.wiring,
    if_pos hsp]

end Machine

end Trampoline
