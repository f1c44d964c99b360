import Trampoline.Instruction.Decoding
import Trampoline.Stub

/-!
# Reading serialized stubs

A serialized stub begins with four numbers, and what is behind them is code.  Reading it gives what
a loader needs: the numbers, and the bytes of the code, which must be as many as the first number
says.
-/

set_option autoImplicit false

namespace Trampoline.Stub

/-- The numbers in front of the code. -/
structure Header where
  codeSize : Nat
  handlerOffset : Nat
  frameSize : Nat
  frameDataOffset : Nat
  deriving DecidableEq

/-- The header of a serialized stub and the bytes behind it. -/
def Header.read? (bs : List Byte) : Option (Header × List Byte) := do
  let (codeSize, bs) ← VarInt.decode? bs
  let (handlerOffset, bs) ← VarInt.decode? bs
  let (frameSize, bs) ← VarInt.decode? bs
  let (frameDataOffset, bs) ← VarInt.decode? bs
  return (⟨codeSize, handlerOffset, frameSize, frameDataOffset⟩, bs)

/-- The header and the code of a serialized stub, if the code has the length that the header
says. -/
def deserialize? (bs : List Byte) : Option (Header × List Byte) := do
  let (header, code) ← Header.read? bs
  if code.length = header.codeSize then some (header, code) else none

end Trampoline.Stub
