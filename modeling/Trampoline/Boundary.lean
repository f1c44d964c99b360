import Trampoline.Request
import Trampoline.Shuffle

/-!
# What crosses the boundary

Before any code exists it has to be settled where every value is on the native side and where the
runtime wants it.  A `Boundary` is that: the placement of the arguments on both sides, the native
return registers, the return buffer, and the register of the receiver.

`Request.boundary` finds it, and checks that the five registers that the stub keeps for itself stay
out of the way of the values it moves.  From it follows the argument shuffle, `Request.shuffle`.
-/

set_option autoImplicit false

namespace Trampoline

/-- Where the values are on the two sides. -/
structure Boundary where
  nativeArgs : Placement
  /-- The receiver's slot first. -/
  runtimeArgs : Placement
  nativeReturns : Placement
  /-- The bytes of the return buffer, and the runtime register that carries its address. -/
  buffer : Option (Nat × Register)
  receiver : Register
  deriving DecidableEq

/-- The error that was found, if one was. -/
def reject : Option Error → Except Error Unit
  | some e => .error e
  | none => .ok ()

namespace Request

variable (r : Request)

/-- Both conventions name registers of the machine, and the hooks can be called. -/
def partsFault? : Option Error :=
  r.native.faultOn? r.target.file <|> r.runtime.faultOn? r.target.file <|> r.hooks.fault?

/-- The native homes of the arguments. -/
def nativeArgs : Placement := Placement.arguments r.native r.signature.args .incoming

/-- The runtime homes of the receiver and the arguments. -/
def runtimeArgs : Placement :=
  Placement.arguments r.runtime (.object :: r.signature.args) .outgoing

/-- Whether the runtime returns a result just where the native caller reads it. -/
def returnsDirectly (nativeReturns : Placement) : Bool :=
  r.signature.returns.length ≤ 1 &&
    match Placement.returns r.runtime r.signature.returns with
    | .ok runtimeReturns => runtimeReturns.registers = nativeReturns.registers
    | .error _ => false

/-- The first of the stub's own registers that an argument needs.  Some are only in the way on one
of the two sides: native arguments are back in their registers after the thread has been loaded, but
before the shuffle. -/
def rolesFault? : Option Error :=
  let roles := r.target.roles
  let native := r.nativeArgs.registers
  let runtime := r.runtimeArgs.registers
  let clash (inTheWay : List Register) : Register × Role → Option Error
    | (reg, role) => if inTheWay.contains reg then some (.registerRole reg role) else none
  [(roles.scratch, Role.scratch), (roles.method, .method), (roles.thread, .thread)].findSome?
      (clash runtime) <|>
    clash native (roles.thread, .thread) <|>
    [(roles.shuffle, Role.shuffle), (roles.secondScratch, .secondScratch)].findSome?
      (clash (native ++ runtime))

/-- The register that carries the address of a return buffer. -/
def bufferRegister (nativeReturns : Placement) : Except Error Register :=
  let roles := r.target.roles
  if nativeReturns.registers.contains roles.scratch then
    .error (.registerRole roles.scratch .scratch)
  else
    match r.runtime.returnBuffer with
    | none => .error (.noBufferRegister r.runtime.name)
    | some reg =>
      if r.runtimeArgs.registers.contains reg || (roles.toList.map Prod.fst).contains reg then
        .error (.registerRole reg .returnBuffer)
      else .ok reg

/-- The register that the runtime expects the receiver in. -/
def receiverRegister : Except Error Register :=
  match r.runtimeArgs with
  | [] => .error .noReceiverSlot
  | slot :: _ =>
    match slot.location with
    | .register ⟨.general, index⟩ => .ok (.general index)
    | place => .error (.receiverPlace r.runtime.name place)

/-- Where the values are on the two sides, if nothing is in the way. -/
def boundary : Except Error Boundary := do
  reject r.partsFault?
  let nativeReturns ← Placement.returns r.native r.signature.returns
  let bytes ← r.returnBuffer.resolve r.signature (r.returnsDirectly nativeReturns)
  reject r.rolesFault?
  let buffer ←
    match bytes with
    | none => pure none
    | some bytes => do pure (some (bytes, ← r.bufferRegister nativeReturns))
  let receiver ← r.receiverRegister
  return {
    nativeArgs := r.nativeArgs
    runtimeArgs := r.runtimeArgs
    nativeReturns
    buffer
    receiver }

/-- The argument shuffle of the stub. -/
def shuffle : Except Error Shuffle := do
  let b ← r.boundary
  Shuffle.between b.nativeArgs b.runtimeArgs r.target.roles.shuffle

end Request

end Trampoline
