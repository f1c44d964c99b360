import Trampoline.Emission
import Trampoline.Shuffle

/-!
# Moves as instructions

Once the frame is set up, incoming stack arguments are at a fixed distance above the frame pointer
and outgoing ones at the stack pointer.  A move between registers, or between a register and the
stack, is one instruction; from stack to stack it takes two, by way of a temporary register.

The displacement of an incoming argument is a sum, of the distance of the first one and the offset
of this one.  Both may fit an immediate and the sum not, as with 2147483640 and 8.  A sum of 32-bit
words overflows then, which stops the lowering where sums are checked and addresses memory below the
frame pointer where they wrap around.  Here the sum is taken without overflow, and the move is
refused like any other whose offset is too large (`Error.offsetTooLarge`).
-/

set_option autoImplicit false

namespace Trampoline

/-- Where the two areas of stack arguments are, and what stack-to-stack copies go through. -/
structure MoveContext where
  framePointer : Register
  stackPointer : Register
  /-- The distance from the frame pointer to the first incoming argument. -/
  incomingBase : Nat
  temporary : Register

namespace MoveContext

variable (ctx : MoveContext)

/-- The base register and the displacement of a stack location, if the displacement fits an
immediate.  Whether a sum fits is asked after it is taken. -/
def address (area : Area) (offset : Int) : Except Error (RegIndex × Imm) :=
  match area with
  | .incoming => do
    let _ ← immediate ctx.incomingBase
    let displacement ← immediate (ctx.incomingBase + offset)
    return (ctx.framePointer.index, displacement)
  | .outgoing => do
    let displacement ← immediate offset
    return (ctx.stackPointer.index, displacement)

/-- The instructions for one move. -/
def lower (m : Move) : Piece :=
  match m.source, m.target with
  | .register source, .register target => .ok [.move target source]
  | .register source, .stack area offset => do
    let (base, displacement) ← ctx.address area offset
    return [.store source base displacement]
  | .stack area offset, .register target => do
    let (base, displacement) ← ctx.address area offset
    return [.load target base displacement]
  | .stack area offset, .stack area' offset' => do
    let (base, displacement) ← ctx.address area offset
    let (base', displacement') ← ctx.address area' offset'
    return [.load ctx.temporary base displacement, .store ctx.temporary base' displacement']

end MoveContext

/-- The instructions for a shuffle. -/
def Shuffle.draft (s : Shuffle) (ctx : MoveContext) : Draft := s.moves.map ctx.lower

end Trampoline
