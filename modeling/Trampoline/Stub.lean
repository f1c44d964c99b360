import Trampoline.Blueprint
import Trampoline.Emission
import Trampoline.VarInt

/-!
# Stubs

A stub is the finished code for a request, together with what one has to know to use it: where its
phases start, where an exception has to enter, and what its frame looks like.  It is entered at its
first byte, by the native convention.

`Request.generate` makes it.  `Stub.encode` is its serialized form, four numbers of variable length
and the code; `Stub.text` is for people to read.
-/

set_option autoImplicit false

namespace Trampoline

/-- A generated stub. -/
structure Stub where
  name : String
  code : Code
  layout : Frame.Layout
  shuffle : Shuffle
  /-- The byte at which an exception enters. -/
  handlerOffset : Nat
  marks : List Mark
  method : Method
  receiver : Handle
  deriving DecidableEq

/-- The code of the phases laid down behind what there is. -/
def Emission.writePhases (e : Emission) (draft : Phase → Draft) : List Phase → Except Error Emission
  | [] => .ok e
  | p :: rest =>
    match (draft p).instructions with
    | .error why => .error why
    | .ok is => ((e.beginPhase p).emitAll is).writePhases draft rest

/-- The stub that a blueprint describes, if its code is not longer than `capacity` bytes. -/
def Blueprint.build (b : Blueprint) (capacity : Nat) : Except Error Stub := do
  let offsets ← b.offsets
  let body ← Emission.writePhases {} (b.draft offsets) Phase.normal
  let whole ← body.writePhases (b.draft offsets) [.exceptionHandler]
  let (code, marks) ← whole.finish capacity
  return {
    name := b.request.name
    code
    layout := b.layout
    shuffle := b.shuffle
    handlerOffset := body.offset
    marks
    method := b.request.method
    receiver := b.request.receiver }

/-- The capacity of a stub for which nobody has asked for another one. -/
def defaultCapacity : Nat := 2048

/-- Generates the stub for a request. -/
def Request.generate (r : Request) (capacity : Nat) : Except Error Stub :=
  match r.blueprint with
  | .error e => .error e
  | .ok b => b.build capacity

namespace Stub

/-- The byte at which native code enters. -/
def entryOffset : Nat := 0

variable (s : Stub)

/-- The offset of the record that the hooks get the address of. -/
def frameDataOffset : Nat := s.layout.offset .frameData

/-- The byte at which a phase starts. -/
def phaseOffset? (p : Phase) : Option Nat :=
  (s.marks.find? (·.phase = p)).map Mark.offset

/-- The numbers in front of the code: its length, where exceptions enter, the size of the frame, and
the offset of the hooks' record in it. -/
def header : List Nat := [s.code.size, s.handlerOffset, s.layout.size, s.frameDataOffset]

/-- The serialized form. -/
def encode : List Byte :=
  s.header.flatMap (fun n => VarInt.encode (BitVec.ofNat 32 n)) ++ s.code.bytes

/-- A line about the stub, its frame, and a listing of its code. -/
def text : String :=
  s!"{s.name} -> {s.method.name} " ++
    s!"({s.code.size} bytes, exception handler at {s.handlerOffset})\n" ++
    s.layout.text ++ s.code.listing

end Stub

end Trampoline
