import Trampoline.ParallelMove
import Trampoline.Placement

/-!
# The argument shuffle

Between the native caller's placement of the arguments and the runtime's lies a shuffle: every
argument moves from the one location to the other, all at once.  A `Shuffle` is such a mapping
together with the scratch register that is free to break its cycles, and the proof that the mapping
makes sense: nothing else uses the scratch register, the caller's argument area is only read, and no
location is written twice or read twice.

The moves to be carried out (`Shuffle.moves`) and the stack space they need (`Shuffle.outSlots`)
follow from the mapping.
-/

set_option autoImplicit false

namespace Trampoline

/-- The first thing that keeps moves from being a shuffle; `earlier` moves have been looked at. -/
def Shuffle.conflict? (scratch : Register) : List Move → List Move → Option Error
  | _, [] => none
  | earlier, m :: rest =>
    if m.source = .register scratch ∨ m.target = .register scratch then
      some (.scratchUsed scratch m)
    else if m.target matches .stack .incoming _ then some (.writesIncoming m)
    else if m.target ∈ earlier.map Move.target then some (.writtenTwice m.target)
    else if m.source ∈ earlier.map Move.source then some (.readTwice m.source)
    else Shuffle.conflict? scratch (m :: earlier) rest

/-- Moves that can happen at once, with a register to spare. -/
structure Shuffle where
  mapping : List Move
  scratch : Register
  sound : Shuffle.conflict? scratch [] mapping = none
  deriving DecidableEq

namespace Shuffle

/-- The shuffle with this mapping, if there is no conflict in it. -/
def ofMapping (mapping : List Move) (scratch : Register) : Except Error Shuffle :=
  match h : Shuffle.conflict? scratch [] mapping with
  | some e => .error e
  | none => .ok ⟨mapping, scratch, h⟩

/-- The shuffle from a native to a runtime placement.  The runtime's first slot is the receiver's,
which no native argument goes to. -/
def between (native runtime : Placement) (scratch : Register) : Except Error Shuffle :=
  let args : Placement := runtime.tail
  if args.length = native.length then
    ofMapping (List.zipWith Move.mk native.locations args.locations) scratch
  else .error (.argumentCount native.length args.length)

variable (s : Shuffle)

/-- The moves, one after the other, that realize the mapping.  Arguments that stay where they are
need none. -/
def moves : List Move :=
  schedule (.register s.scratch) (s.mapping.filter fun m => m.source ≠ m.target)

/-- The size of the slots that outgoing stack space is counted in. -/
def slotBytes : Nat := 4

/-- The slots up to the end of an outgoing argument. -/
def slotsUpTo : Location → Nat
  | .stack .outgoing offset => if 0 ≤ offset then (offset.toNat + stackArgBytes) / slotBytes else 0
  | _ => 0

/-- The outgoing stack space that the shuffle needs, in slots. -/
def outSlots : Nat := (s.mapping.map fun m => slotsUpTo m.target).foldl max 0

/-- How often the scratch register is written. -/
def parkings : Nat := s.moves.countP (·.target = .register s.scratch)

/-- The shuffle in full: what goes where, and by which moves. -/
def text : String :=
  let mapping := s.mapping.zipIdx.map fun (m, i) => s!"    {i}: {m}\n"
  let moves := s.moves.map fun m => s!"    {m}\n"
  s!"argument shuffle (scratch {s.scratch}, {s.outSlots} out arg slots)\n" ++
    "  mapping:\n" ++ String.join mapping ++ "  moves:\n" ++ String.join moves

end Shuffle

end Trampoline
