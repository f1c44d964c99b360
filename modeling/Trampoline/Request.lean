import Trampoline.Hook
import Trampoline.Method
import Trampoline.Placement

/-!
# Requests

A `Request` is everything that determines a stub: the machine, the two conventions, what is called
and on what, the hooks, and whether results go through memory.
-/

set_option autoImplicit false

namespace Trampoline

/-- Whether results travel through a buffer in the frame. -/
inductive ReturnBuffer
  /-- Only if the registers that the runtime returns results in are not the ones that the native
  caller reads them from. -/
  | automatic
  /-- Always, in a buffer of so many bytes. -/
  | explicit (bytes : Nat)
  deriving DecidableEq

/-- The bytes of the return buffer, if there is to be one; `direct` says that results are in the
right registers without it. -/
def ReturnBuffer.resolve (b : ReturnBuffer) (s : Signature) (direct : Bool) :
    Except Error (Option Nat) :=
  match b with
  | automatic => .ok (if direct then none else some s.bufferBytes)
  | explicit bytes =>
    if bytes < s.bufferBytes then .error (.bufferTooSmall s.bufferBytes bytes)
    else .ok (some bytes)

/-- What a stub is wanted for. -/
structure Request where
  target : Target := .aarch64
  native : Convention := .aapcs64
  runtime : Convention := .aarch64Runtime
  signature : Signature
  method : Method
  receiver : Handle
  hooks : Hooks
  returnBuffer : ReturnBuffer := .automatic
  deriving DecidableEq

/-- The name of the stub: its signature tells stubs apart. -/
def Request.name (r : Request) : String := s!"upcall_stub_{r.signature}"

end Trampoline
