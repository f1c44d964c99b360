import Trampoline.Machine.Cpu
import Trampoline.Stub

/-!
# Running stubs

A `Machine` runs stubs.  It follows their instructions one by one, and whatever a stub calls is an
`External`: a name, and what the code there does to the state.  Externals may share a state of their
own, of type `σ`, which no instruction can see.

A run (`Machine.run`) ends when the stub returns or traps, when an external does not give control
back, or when something is wrong; it also ends after a fixed number of instructions.  The state that
it leaves is where the next run begins.
-/

set_option autoImplicit false

namespace Trampoline

/-- How called code ends. -/
inductive Outcome
  | returns
  /-- Raises an exception. -/
  | throws (exception : Word)
  /-- Never gives control back. -/
  | terminates
  /-- Finds that what it was promised does not hold. -/
  | objects

/-- Code outside of stubs. -/
structure External (σ : Type) where
  name : String
  act : σ → Cpu → Outcome × σ × Cpu

/-- What is wrong with a run that should not have ended. -/
inductive Fault
  /-- There is no instruction with this index. -/
  | fellOff (index : Nat)
  /-- The stack pointer at a return is not what it was at the entry. -/
  | unbalanced (stackPointer : Word)
  | unknownAddress (address : Word)
  | noHandler
  | tooManySteps (limit : Nat)
  deriving DecidableEq

/-- How a fault is reported. -/
def Fault.message : Fault → String
  | fellOff index => s!"fell off the end at instruction {index}"
  | unbalanced stackPointer => s!"returned with sp {hex stackPointer.toNat}"
  | unknownAddress address => s!"call to unknown address {hex address.toNat}"
  | noHandler => "no exception handler"
  | tooManySteps limit => s!"step limit {limit} exceeded"

/-- How a run ends. -/
inductive Exit
  | returned
  /-- Hit the trap at this byte. -/
  | trapped (offset : Nat)
  /-- The external of this name kept control. -/
  | terminated (name : String)
  | fault (fault : Fault)
  /-- An external objected to what it found. -/
  | objected
  deriving DecidableEq

/-- The stack pointer of a caller when it calls a stub. -/
def stackTop : Word := 0x7FFF0000

/-- The frame pointer of a caller when it calls a stub. -/
def callerFrame : Word := 0xF00DF00D

/-- The return address of a caller when it calls a stub. -/
def callerLink : Word := 0x1A1A1A1A

/-- A machine for stubs. -/
structure Machine (σ : Type) where
  file : RegisterFile
  cpu : Cpu
  /-- The state that externals share. -/
  host : σ
  /-- The code at an address. -/
  externalAt : Word → Option (External σ) := fun _ => none
  /-- The cell at an address. -/
  cellAt : Word → Option CellId := fun _ => none
  /-- The register that a thrown exception is delivered in. -/
  exceptionRegister : Register := .general 0
  /-- The names of what has been called, in order. -/
  calls : Array String := #[]
  stepLimit : Nat := 10000

namespace Machine

variable {σ : Type}

/-- A machine with nothing to call, in the state in which a caller calls a stub. -/
def new (file : RegisterFile) (cells : Cells) (host : σ) : Machine σ where
  file
  host
  cpu :=
    ((({ cells } : Cpu).setGeneral file.stackPointer.index stackTop).setGeneral
      file.framePointer.index callerFrame).setGeneral file.linkRegister.index callerLink

variable (m : Machine σ)

/-- Puts code at an address, in the place of what was there. -/
def install (address : Word) (e : External σ) : Machine σ :=
  { m with externalAt := fun a => if a = address then some e else m.externalAt a }

/-- Makes a cell be found at an address. -/
def mapCell (address : Word) (cell : CellId) : Machine σ :=
  { m with cellAt := fun a => if a = address then some cell else m.cellAt a }

/-- How often code of this name has been called. -/
def timesCalled (name : String) : Nat := m.calls.toList.count name

/-- The address of a native stack argument, for a caller that leaves a shadow space. -/
def incomingAddress (shadowSpace : Nat) (offset : Int) : Word :=
  stackTop + BitVec.ofNat 64 shadowSpace + BitVec.ofInt 64 offset

/-- What does not change while a stub runs. -/
def wiring : Wiring where
  stack := m.file.stackPointer.index
  frame := m.file.framePointer.index
  link := m.file.linkRegister.index
  cellAt := m.cellAt

/-- Where a run goes on, or how it ends. -/
abbrev Next := Except Exit Nat

/-- Calls the code at an address; `next` is where the stub goes on when it returns. -/
def call (stub : Stub) (address : Word) (next : Nat) : Machine σ × Next :=
  match m.externalAt address with
  | none => (m, .error (.fault (.unknownAddress address)))
  | some e =>
    let (outcome, host, cpu) := e.act m.host m.cpu
    let m := { m with host, cpu, calls := m.calls.push e.name }
    match outcome with
    | .returns => (m, .ok next)
    | .throws exception =>
      let m := { m with cpu := m.cpu.setGeneral m.exceptionRegister.index exception }
      match stub.code.startingAt? stub.handlerOffset with
      | some handler => (m, .ok handler)
      | none => (m, .error (.fault .noHandler))
    | .terminates => (m, .error (.terminated e.name))
    | .objects => (m, .error .objected)

/-- Carries out the instruction with an index. -/
def step (stub : Stub) (index : Nat) : Machine σ × Next :=
  match stub.code.instructions[index]? with
  | none => (m, .error (.fault (.fellOff index)))
  | some .trap => (m, .error (.trapped ((stub.code.offset? index).getD 0)))
  | some .ret =>
    let sp := m.cpu.general m.wiring.stack
    (m, .error (if sp = stackTop then .returned else .fault (.unbalanced sp)))
  | some (.call target) => m.call stub (m.cpu.general target) (index + 1)
  | some i => ({ m with cpu := m.cpu.execute m.wiring i }, .ok (index + 1))

/-- Carries out at most `fuel` instructions. -/
def runFrom (stub : Stub) : Nat → Machine σ → Nat → Machine σ × Exit
  | 0, m, _ => (m, .fault (.tooManySteps m.stepLimit))
  | fuel + 1, m, index =>
    match m.step stub index with
    | (m, .ok index) => runFrom stub fuel m index
    | (m, .error exit) => (m, exit)

/-- Runs a stub from its entry. -/
def run (stub : Stub) : Machine σ × Exit := runFrom stub m.stepLimit m 0

end Machine

end Trampoline
