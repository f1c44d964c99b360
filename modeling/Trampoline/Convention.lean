import Trampoline.Target

/-!
# Calling conventions

A convention says which registers a callee may destroy, in which order registers take arguments and
results, and what the stack must look like at a call.

`Convention.Settings` is such a description before anyone has looked at it, and `Convention.make`
looks at it: the stack rules have to be multiples of a word, a sequence must come from one bank and
name no register twice.  A `Convention` keeps the proof that this went well.  Whether the registers
it names exist is another question, asked of a machine (`Convention.faultOn?`); so is which
registers a callee must preserve (`Convention.preserved`), since that is what is left of a machine
without the volatile ones.
-/

set_option autoImplicit false

namespace Trampoline

/-- A description of a calling convention. -/
structure Convention.Settings where
  name : String
  /-- The registers that a callee may destroy. -/
  volatile : List Register := []
  intArgs : List Register := []
  floatArgs : List Register := []
  intReturns : List Register := []
  floatReturns : List Register := []
  /-- What the stack pointer is a multiple of at a call, in bytes. -/
  alignment : Nat := 16
  /-- The bytes that a caller leaves free for its callee below the stack arguments. -/
  shadowSpace : Nat := 0
  /-- Carries the address of a result that is returned through memory. -/
  returnBuffer : Option Register := none
  deriving DecidableEq

/-- Whether a number is a power of two. -/
def isPowerOfTwo (n : Nat) : Bool := 1 <<< n.log2 = n

theorem exists_of_isPowerOfTwo {n : Nat} (h : isPowerOfTwo n = true) : ∃ k, n = 1 <<< k :=
  ⟨n.log2, by simpa [isPowerOfTwo, eq_comm] using h⟩

example : isPowerOfTwo 0 = false ∧ isPowerOfTwo 1 = true ∧ isPowerOfTwo 12 = false := by decide

namespace Convention.Settings

variable (s : Settings)

/-- The registers of a sequence. -/
def registers : Sequence → List Register
  | .intArgs => s.intArgs
  | .floatArgs => s.floatArgs
  | .intReturns => s.intReturns
  | .floatReturns => s.floatReturns

/-- An alignment that is no power of two, or less than a word. -/
def alignmentFault? : Option Error :=
  if isPowerOfTwo s.alignment && 8 ≤ s.alignment then none
  else some (.alignment s.name s.alignment)

/-- A shadow space that is no whole number of words. -/
def shadowFault? : Option Error :=
  if s.shadowSpace % 8 = 0 then none else some (.shadowSpace s.name s.shadowSpace)

/-- A register of the wrong bank in a sequence, or one that is there twice. -/
def sequenceFault? (q : Sequence) : Option Error :=
  match (s.registers q).find? (·.bank ≠ q.bank) with
  | some reg => some (.wrongBank s.name reg q)
  | none => if (s.registers q).Nodup then none else some (.repeated s.name q)

/-- A return buffer register that is not a general one. -/
def bufferFault? : Option Error :=
  match s.returnBuffer with
  | none => none
  | some reg => if reg.isGeneral then none else some (.bufferBank s.name reg)

/-- The first thing wrong with the settings. -/
def fault? : Option Error :=
  s.alignmentFault? <|> s.shadowFault? <|> s.sequenceFault? .intArgs <|>
    s.sequenceFault? .floatArgs <|> s.sequenceFault? .intReturns <|>
    s.sequenceFault? .floatReturns <|> s.bufferFault?

end Convention.Settings

/-- A calling convention. -/
structure Convention extends Convention.Settings where
  sound : toSettings.fault? = none
  deriving DecidableEq

namespace Convention

/-- The convention with these settings, if nothing is wrong with them.  The volatile registers are a
set, so they are brought into their order. -/
def make (s : Settings) : Except Error Convention :=
  match h : s.fault? with
  | some e => .error e
  | none => .ok ⟨{ s with volatile := Register.sorted s.volatile }, h⟩

/-! ## Conventions of AArch64 -/

/-- The procedure call standard, as native code follows it. -/
def aapcs64 : Convention where
  name := "aapcs64"
  volatile := Register.span .general 0 19 ++ [.general 30] ++ Register.span .vector 0 8 ++
    Register.span .vector 16 16
  intArgs := Register.span .general 0 8
  floatArgs := Register.span .vector 0 8
  intReturns := [.general 0, .general 1]
  floatReturns := Register.span .vector 0 4
  sound := by decide

/-- The convention among managed methods.  The first integer argument, the receiver, is in `r1`;
`r0` comes last, so that results and arguments do not meet on entry. -/
def aarch64Runtime : Convention where
  name := "aarch64-runtime"
  volatile := Register.span .general 0 27 ++ [.general 30] ++ Register.span .vector 0 32
  intArgs := Register.span .general 1 7 ++ [.general 0]
  floatArgs := Register.span .vector 0 8
  intReturns := [.general 0]
  floatReturns := [.vector 0]
  returnBuffer := some (.general 10)
  sound := by decide

/-! ## A convention on a machine -/

variable (c : Convention)

/-- Whether a callee may destroy the register. -/
def isVolatile (r : Register) : Bool := c.volatile.contains r

/-- Every register that the convention names, the volatile ones first. -/
def named : List Register :=
  c.volatile ++ c.intArgs ++ c.floatArgs ++ c.intReturns ++ c.floatReturns ++
    c.returnBuffer.toList

/-- The first register that the machine lacks or keeps for the frame. -/
def faultOn? (file : RegisterFile) : Option Error :=
  c.named.findSome? fun reg =>
    if !file.contains reg then some (.absent c.name reg)
    else if file.holdsFrame reg then some (.reserved c.name reg)
    else none

/-- The registers of the machine that a callee must preserve by itself: neither volatile nor taken
care of on entry and exit. -/
def preserved (file : RegisterFile) : List Register :=
  (file.generals ++ file.vectors).filter fun reg =>
    !file.holdsFrame reg && !c.isVolatile reg

/-- The first register of a sequence, or the complaint that it has none. -/
def first (q : Sequence) : Except Error Register :=
  match c.registers q with
  | [] => .error (.noRegister c.name q)
  | reg :: _ => .ok reg

end Convention

end Trampoline
