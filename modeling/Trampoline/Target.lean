import Trampoline.Error

/-!
# Targets

A `RegisterFile` says which registers a machine has and which three of them hold its stack together;
a `Target` adds the five registers that a stub keeps for itself.  Neither can be had without passing
its checks, which both types remember as a proof: `fault?` finds the first thing wrong with a
proposal, and what is built of it has nothing wrong.

The stack pointer may lie outside the range of the general registers, as it does on AArch64.
-/

set_option autoImplicit false

namespace Trampoline

/-- A proposed register file: how many registers each bank has, and who holds the stack. -/
structure RegisterFile.Proposal where
  generalCount : Byte
  vectorCount : Byte
  framePointer : Register
  linkRegister : Register
  stackPointer : Register
  deriving DecidableEq

namespace RegisterFile.Proposal

variable (p : Proposal)

/-- A register among the three that is not a general one. -/
def bankFault? : Option Error :=
  [(p.framePointer, Role.framePointer), (p.linkRegister, .linkRegister),
    (p.stackPointer, .stackPointer)].findSome? fun (reg, role) =>
      if reg.isGeneral then none else some (.registerRole reg role)

/-- A frame pointer or link register that the general bank does not have. -/
def rangeFault? : Option Error :=
  if p.framePointer.index < p.generalCount ∧ p.linkRegister.index < p.generalCount then none
  else some (.framePairOutside p.framePointer p.linkRegister p.generalCount.toNat)

/-- A frame pointer that has a second duty. -/
def sharedFault? : Option Error :=
  if p.framePointer = p.stackPointer ∨ p.framePointer = p.linkRegister then
    some .framePointerShared
  else none

/-- The first thing wrong with a proposal. -/
def fault? : Option Error := p.bankFault? <|> p.rangeFault? <|> p.sharedFault?

end RegisterFile.Proposal

/-- The registers of one machine. -/
structure RegisterFile extends RegisterFile.Proposal where
  sound : toProposal.fault? = none
  deriving DecidableEq

namespace RegisterFile

/-- The register file that was proposed, if nothing is wrong with it. -/
def make (p : Proposal) : Except Error RegisterFile :=
  match h : p.fault? with
  | some e => .error e
  | none => .ok ⟨p, h⟩

/-- AArch64: `r0` to `r30`, `v0` to `v31`, and the stack pointer with index 31. -/
def aarch64 : RegisterFile :=
  ⟨⟨31, 32, .general 29, .general 30, .general 31⟩, rfl⟩

variable (file : RegisterFile)

/-- The general registers, by index. -/
def generals : List Register := Register.span .general 0 file.generalCount.toNat

/-- The vector registers, by index. -/
def vectors : List Register := Register.span .vector 0 file.vectorCount.toNat

/-- Whether the machine has the register. -/
def contains (r : Register) : Bool :=
  match r.bank with
  | .general => r.index < file.generalCount || r = file.stackPointer
  | .vector => r.index < file.vectorCount

/-- Whether entry and exit of a stub take care of the register, so that nobody else may. -/
def holdsFrame (r : Register) : Bool := r = file.framePointer || r = file.stackPointer

end RegisterFile

/-- The registers that a stub keeps for itself. -/
structure Roles where
  /-- Holds the thread that the entry hook hands over. -/
  thread : Register
  /-- Holds the method's metadata during the call. -/
  method : Register
  /-- Holds addresses: of hooks, of the target, of the return buffer. -/
  scratch : Register
  /-- Carries copies from stack to stack, and is lost to the resolution of the receiver. -/
  secondScratch : Register
  /-- Breaks cycles of argument moves; holds the receiver afterwards. -/
  shuffle : Register
  deriving DecidableEq

/-- The five registers with their roles, in the order of the checks. -/
def Roles.toList (r : Roles) : List (Register × Role) :=
  [(r.thread, .thread), (r.method, .method), (r.scratch, .scratch),
    (r.secondScratch, .secondScratch), (r.shuffle, .shuffle)]

/-- The first register that cannot have its role: it is not a general register of the machine, it
holds the frame, or it is among those `taken` for an earlier role. -/
def Roles.faultAmong? (file : RegisterFile) :
    List Register → List (Register × Role) → Option Error
  | _, [] => none
  | taken, (reg, role) :: rest =>
    if reg.isGeneral && file.contains reg && !file.holdsFrame reg && !taken.contains reg then
      Roles.faultAmong? file (reg :: taken) rest
    else some (.registerRole reg role)

/-- The first register that cannot have its role on a machine. -/
def Roles.faultOn? (r : Roles) (file : RegisterFile) : Option Error :=
  Roles.faultAmong? file [] r.toList

/-- A machine together with the registers that stubs keep on it. -/
structure Target where
  name : String
  file : RegisterFile
  roles : Roles
  sound : roles.faultOn? file = none
  deriving DecidableEq

namespace Target

/-- The target with these roles, if every register can have its role. -/
def make (name : String) (file : RegisterFile) (roles : Roles) : Except Error Target :=
  match h : roles.faultOn? file with
  | some e => .error e
  | none => .ok ⟨name, file, roles, h⟩

/-- AArch64 with the usual roles. -/
def aarch64 : Target :=
  ⟨"aarch64", .aarch64, ⟨.general 28, .general 12, .general 8, .general 9, .general 19⟩, rfl⟩

end Target

end Trampoline
