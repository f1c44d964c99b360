import Trampoline.Error

/-!
# Hooks

A stub calls three services of the runtime around the method: one that attaches the thread on entry,
one that undoes this on exit, and one for an exception that nobody caught.  A stub calls them as
native code would, so that is the convention they have to follow.
-/

set_option autoImplicit false

namespace Trampoline

/-- The convention that an entry point follows. -/
inductive Abi
  | native
  | runtime
  deriving DecidableEq

/-- A callable address. -/
structure Hook where
  name : String
  abi : Abi := .native
  address : Word
  deriving DecidableEq

/-- The services around the method. -/
structure Hooks where
  /-- Takes the address of the frame's record and returns the thread. -/
  onEntry : Hook
  /-- Takes the address of the frame's record. -/
  onExit : Hook
  /-- Takes the exception, and is not supposed to return. -/
  uncaught : Hook
  deriving DecidableEq

/-- The hooks in the order of the checks. -/
def Hooks.toList (h : Hooks) : List Hook := [h.onEntry, h.onExit, h.uncaught]

/-- The first hook that cannot be called as native code. -/
def Hooks.fault? (h : Hooks) : Option Error :=
  (h.toList.find? (·.abi ≠ .native)).map fun hook => .hookConvention hook.name

end Trampoline
