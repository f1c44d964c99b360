/-!
# Phases of a stub

A stub is laid down in fourteen phases.  Thirteen of them are executed from the first to the last,
from the entry of the stub to its return (`Phase.normal`).  The exception handler lies behind the
return, where nothing but an exception gets.
-/

set_option autoImplicit false

namespace Trampoline

/-- The phases of a stub, in the order in which they are laid down. -/
inductive Phase
  | prologue
  | spillArgs
  | preserveCallee
  | onEntry
  | shuffleArgs
  | resolveReceiver
  | invoke
  | handleResult
  | spillResult
  | onExit
  | restoreCallee
  | fillResult
  | epilogue
  /-- Lies behind the return; only an exception gets there. -/
  | exceptionHandler
  deriving DecidableEq

namespace Phase

/-- The phases from the entry of a stub to its return. -/
def normal : List Phase :=
  [prologue, spillArgs, preserveCallee, onEntry, shuffleArgs, resolveReceiver, invoke,
    handleResult, spillResult, onExit, restoreCallee, fillResult, epilogue]

/-- All phases, in order. -/
def all : List Phase := normal ++ [exceptionHandler]

theorem mem_all (p : Phase) : p ∈ all := by cases p <;> decide

/-- The name of a phase in reports. -/
def name : Phase → String
  | prologue => "prologue"
  | spillArgs => "spill_args"
  | preserveCallee => "preserve_callee_saved"
  | onEntry => "on_entry"
  | shuffleArgs => "argument_shuffle"
  | resolveReceiver => "receiver"
  | invoke => "invoke"
  | handleResult => "handle_result"
  | spillResult => "spill_result"
  | onExit => "on_exit"
  | restoreCallee => "restore_callee_saved"
  | fillResult => "fill_result"
  | epilogue => "epilogue"
  | exceptionHandler => "exception_handler"

end Phase

/-- The byte at which a phase starts. -/
structure Mark where
  phase : Phase
  offset : Nat
  deriving DecidableEq

end Trampoline
