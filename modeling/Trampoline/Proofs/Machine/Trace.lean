import Trampoline.Proofs.Machine.Execution

/-!
# The calls that a run makes

A machine notes the names of what it calls.  A name says little about a call, so this file looks at
the calls themselves: `Machine.callsOf` is the row of calls that a run makes, each with its address,
the states before and behind it, and how it ended.  The notes are the names of these calls
(`calls_runFrom`).

What a run still does from some moment on is a pair, the calls that it makes and the way it ends
(`Machine.restFrom`).  A block of plain instructions does not change it, a call that returns puts
itself in front of it, and anything else ends it or goes on in the handler.
-/

set_option autoImplicit false

namespace Trampoline

/-- A call of a run. -/
structure Call where
  address : Word
  /-- The name of what is called. -/
  name : String
  before : Cpu
  outcome : Outcome
  /-- What the called code leaves; an exception has not been delivered in it. -/
  after : Cpu

namespace Machine

variable {σ : Type} {m m' here : Machine σ} {stub : Stub} {i fuel : Nat} {is : List Instruction}
  {target : RegIndex} {e : External σ} {host : σ} {cpu : Cpu} {exception : Word} {call : Call}

/-- The call that the instruction with an index makes, if it makes one. -/
def callAt? (m : Machine σ) (stub : Stub) (index : Nat) : Option Call :=
  match stub.code.instructions[index]? with
  | some (.call target) =>
    (m.externalAt (m.cpu.general target)).map fun e =>
      let (outcome, _, after) := e.act m.host m.cpu
      ⟨m.cpu.general target, e.name, m.cpu, outcome, after⟩
  | _ => none

/-- The calls made by at most `fuel` instructions, in order. -/
def callsFrom (stub : Stub) : Nat → Machine σ → Nat → List Call
  | 0, _, _ => []
  | fuel + 1, m, index =>
    (m.callAt? stub index).toList ++
      match m.step stub index with
      | (m, .ok index) => callsFrom stub fuel m index
      | (_, .error _) => []

/-- The calls of a run. -/
def callsOf (m : Machine σ) (stub : Stub) : List Call := callsFrom stub m.stepLimit m 0

/-- What a run still does: the calls that it makes, and how it ends. -/
def restFrom (stub : Stub) (fuel : Nat) (m : Machine σ) (index : Nat) : List Call × Exit :=
  (callsFrom stub fuel m index, (m.runFrom stub fuel index).2)

/-! ## One instruction -/

theorem callAt?_of_call (hget : stub.code.instructions[i]? = some (.call target))
    (he : m.externalAt (m.cpu.general target) = some e) {outcome : Outcome}
    (hact : e.act m.host m.cpu = (outcome, host, cpu)) :
    m.callAt? stub i = some ⟨m.cpu.general target, e.name, m.cpu, outcome, cpu⟩ := by
  simp only [callAt?, hget, he, Option.map_some, hact]

theorem callAt?_eq_none {ins : Instruction} (hget : stub.code.instructions[i]? = some ins)
    (hins : ∀ target, ins ≠ .call target) : m.callAt? stub i = none := by
  rw [callAt?, hget]
  cases ins with
  | call target => exact absurd rfl (hins target)
  | _ => rfl

/-- A step notes the name of the call that it makes. -/
theorem calls_step :
    (m.step stub i).1.calls.toList =
      m.calls.toList ++ (m.callAt? stub i).toList.map Call.name := by
  cases hget : stub.code.instructions[i]? with
  | none =>
    rw [step_none hget, callAt?, hget]
    simp
  | some ins =>
    cases ins with
    | call target =>
      cases he : m.externalAt (m.cpu.general target) with
      | none =>
        rw [step_call hget, Machine.call, callAt?, hget]
        simp [he]
      | some e =>
        rcases hact : e.act m.host m.cpu with ⟨outcome, host, cpu⟩
        rw [step_call hget, Machine.call, he, callAt?_of_call hget he hact]
        cases outcome with
        | throws =>
          simp only [hact]
          split <;> simp
        | returns | terminates | objects => simp [hact]
    | ret =>
      rw [step_ret hget, callAt?_eq_none hget fun _ => Instruction.noConfusion]
      simp
    | trap =>
      rw [step_trap hget, callAt?_eq_none hget fun _ => Instruction.noConfusion]
      simp
    | _ =>
      rw [step_plain hget rfl, callAt?_eq_none hget fun _ => Instruction.noConfusion]
      simp

/-- **The notes of a run are the names of its calls.** -/
theorem calls_runFrom :
    (m.runFrom stub fuel i).1.calls.toList =
      m.calls.toList ++ (callsFrom stub fuel m i).map Call.name := by
  induction fuel generalizing m i with
  | zero => simp [runFrom, callsFrom]
  | succ fuel ih =>
    have hcalls := @calls_step σ m stub i
    rw [runFrom, callsFrom, List.map_append]
    rcases hstep : m.step stub i with ⟨m', next⟩
    rw [hstep] at hcalls
    cases next with
    | ok j =>
      simp only
      rw [ih, hcalls, List.append_assoc]
    | error exit =>
      simp only [List.map_nil, List.append_nil]
      exact hcalls

/-- Every call is one of installed code, and ends as that code does. -/
theorem exists_of_mem_callsFrom (h : call ∈ callsFrom stub fuel m i) :
    ∃ e host host', m.externalAt call.address = some e ∧
      e.act host call.before = (call.outcome, host', call.after) := by
  induction fuel generalizing m i with
  | zero => cases h
  | succ fuel ih =>
    rw [callsFrom, List.mem_append] at h
    rcases h with h | h
    · rw [Option.mem_toList, callAt?] at h
      split at h
      · obtain ⟨e, he, rfl⟩ := Option.map_eq_some_iff.1 h
        exact ⟨e, m.host, _, he, rfl⟩
      · cases h
    · have halike : m.Alike (m.step stub i).1 := alike_step
      rcases hstep : m.step stub i with ⟨m', next⟩
      rw [hstep] at h halike
      cases next with
      | ok j => exact halike.externalAt ▸ ih h
      | error exit => cases h

/-! ## The rest of a run -/

/-- A step that goes on. -/
theorem restFrom_of_ok {j : Nat} (hstep : m.step stub i = (m', .ok j)) :
    restFrom stub (fuel + 1) m i =
      ((m.callAt? stub i).toList ++ (restFrom stub fuel m' j).1, (restFrom stub fuel m' j).2) := by
  simp only [restFrom, callsFrom, runFrom, hstep]

/-- A step that ends the run. -/
theorem restFrom_of_error {exit : Exit} (hstep : m.step stub i = (m', .error exit)) :
    restFrom stub (fuel + 1) m i = ((m.callAt? stub i).toList, exit) := by
  simp only [restFrom, callsFrom, runFrom, hstep, List.append_nil]

/-- A block makes no calls. -/
theorem restFrom_block (hat : stub.code.HasAt i is) (hplain : ∀ ins ∈ is, ins.isPlain = true)
    (hfuel : is.length ≤ fuel) :
    restFrom stub fuel m i =
      restFrom stub (fuel - is.length) { m with cpu := m.cpu.executeAll m.wiring is }
        (i + is.length) := by
  induction is generalizing m i fuel with
  | nil => rfl
  | cons ins rest ih =>
    obtain ⟨fuel, rfl⟩ : ∃ n, fuel = n + 1 :=
      Nat.exists_eq_add_one.2 (Nat.lt_of_lt_of_le (Nat.succ_pos _) hfuel)
    have hins := hplain ins List.mem_cons_self
    have hnone : m.callAt? stub i = none :=
      callAt?_eq_none hat.get fun target heq => by rw [heq] at hins; cases hins
    rw [List.length_cons] at hfuel ⊢
    rw [restFrom_of_ok (step_plain hat.get hins), hnone,
      ih hat.tail (fun x hx => hplain x (List.mem_cons_of_mem _ hx)) (by omega),
      Nat.add_sub_add_right, Nat.add_right_comm]
    rfl

variable (hget : stub.code.instructions[i]? = some (.call target))
  (he : m.externalAt (m.cpu.general target) = some e)

include hget he

/-- A call that returns. -/
theorem restFrom_returns (hact : e.act m.host m.cpu = (.returns, host, cpu)) :
    restFrom stub (fuel + 1) m i =
      let rest := restFrom stub fuel { m with host, cpu, calls := m.calls.push e.name } (i + 1)
      (⟨m.cpu.general target, e.name, m.cpu, .returns, cpu⟩ :: rest.1, rest.2) := by
  have hstep : m.step stub i =
      ({ m with host, cpu, calls := m.calls.push e.name }, .ok (i + 1)) := by
    rw [step_call hget, Machine.call, he]
    simp only [hact]
  rw [restFrom_of_ok hstep, callAt?_of_call hget he hact]
  rfl

/-- A call that throws. -/
theorem restFrom_throws {handler : Nat}
    (hact : e.act m.host m.cpu = (.throws exception, host, cpu))
    (hhandler : stub.code.startingAt? stub.handlerOffset = some handler) :
    restFrom stub (fuel + 1) m i =
      let rest := restFrom stub fuel (m.raise e exception host cpu) handler
      (⟨m.cpu.general target, e.name, m.cpu, .throws exception, cpu⟩ :: rest.1, rest.2) := by
  have hstep : m.step stub i = (m.raise e exception host cpu, .ok handler) := by
    rw [step_call hget, Machine.call, he]
    simp only [hact, hhandler]
    rfl
  rw [restFrom_of_ok hstep, callAt?_of_call hget he hact]
  rfl

/-- A call that keeps control. -/
theorem restFrom_terminates (hact : e.act m.host m.cpu = (.terminates, host, cpu)) :
    restFrom stub (fuel + 1) m i =
      ([⟨m.cpu.general target, e.name, m.cpu, .terminates, cpu⟩], .terminated e.name) := by
  have hstep : m.step stub i =
      ({ m with host, cpu, calls := m.calls.push e.name }, .error (.terminated e.name)) := by
    rw [step_call hget, Machine.call, he]
    simp only [hact]
  rw [restFrom_of_error hstep, callAt?_of_call hget he hact]
  rfl

/-- A call that finds something wrong. -/
theorem restFrom_objects (hact : e.act m.host m.cpu = (.objects, host, cpu)) :
    restFrom stub (fuel + 1) m i =
      ([⟨m.cpu.general target, e.name, m.cpu, .objects, cpu⟩], .objected) := by
  have hstep : m.step stub i =
      ({ m with host, cpu, calls := m.calls.push e.name }, .error .objected) := by
    rw [step_call hget, Machine.call, he]
    simp only [hact]
  rw [restFrom_of_error hstep, callAt?_of_call hget he hact]
  rfl

end Machine

end Trampoline
