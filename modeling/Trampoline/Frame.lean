import Trampoline.Convention

/-!
# The frame of a stub

A stub's frame is a row of regions from the stack pointer upwards, one behind the other in a fixed
order: the arguments for the target at the bottom, where the target looks for them, then what has to
be kept across calls, and a return buffer at the top if one is needed.  The whole is rounded up to
the stack alignment of the native convention, since the stub calls native hooks.

`Demand` says how much room is needed for what; `Demand.layout` is the layout that provides it.

Sizes have no upper bound here, and are added up as they are.  In machine words the sum can
overflow, which stops the planning where sums are checked and makes the frame too small where they
wrap around.  Here a demand as large as that has a layout like any other, but it gets no stub: the
size of a frame has to be an immediate, and from `2 ^ 31` on it is refused as an offset that is too
large (`Blueprint.offsets`, `Error.offsetTooLarge`).
-/

set_option autoImplicit false

namespace Trampoline

/-- The least multiple of `alignment` that is not below `n`. -/
def roundUp (n alignment : Nat) : Nat := (n + alignment - 1) / alignment * alignment

theorem alignment_dvd_roundUp (n alignment : Nat) : alignment ∣ roundUp n alignment :=
  Nat.dvd_mul_left ..

theorem le_roundUp (n : Nat) {alignment : Nat} (h : 0 < alignment) : n ≤ roundUp n alignment := by
  have hdiv := Nat.div_add_mod (n + alignment - 1) alignment
  have hmod := Nat.mod_lt (n + alignment - 1) h
  rw [Nat.mul_comm] at hdiv
  unfold roundUp
  omega

namespace Frame

/-- The regions of a frame, lowest address first. -/
inductive Region
  /-- Stack arguments for the target, and the shadow space of the hooks. -/
  | outArgs
  /-- A word that the runtime may use across a deoptimization. -/
  | deoptSpill
  /-- The native return registers during the exit hook. -/
  | resultSave
  /-- The native argument registers during the entry hook. -/
  | argSave
  /-- The registers that the native caller wants preserved. -/
  | calleeSave
  /-- The record that both hooks get the address of. -/
  | frameData
  | returnBuffer
  deriving DecidableEq

/-- The name of a region in reports. -/
def Region.name : Region → String
  | outArgs => "out_args"
  | deoptSpill => "deopt_spill"
  | resultSave => "result_save"
  | argSave => "arg_save"
  | calleeSave => "callee_save"
  | frameData => "frame_data"
  | returnBuffer => "return_buffer"

/-- A region in its place. -/
structure Span where
  region : Region
  /-- The distance from the stack pointer, once the frame is set up. -/
  offset : Nat
  size : Nat
  deriving DecidableEq

/-- The first byte behind a region. -/
def Span.stop (s : Span) : Nat := s.offset + s.size

/-- The regions of a frame and the size of the whole. -/
structure Layout where
  spans : List Span
  size : Nat
  alignment : Nat
  deriving DecidableEq

namespace Layout

variable (l : Layout)

/-- The span of a region, if the frame has the region. -/
def span? (r : Region) : Option Span := l.spans.find? (·.region = r)

/-- The offset of a region; zero if the frame does not have it. -/
def offset (r : Region) : Nat :=
  match l.span? r with
  | some s => s.offset
  | none => 0

/-- A line for the frame and one for each region. -/
def text : String :=
  let spans := l.spans.map fun s =>
    s!"  [{padded 4 s.offset}..{padded 4 s.stop}) {s.region.name}\n"
  s!"frame {l.size} bytes (align {l.alignment})\n" ++ String.join spans

end Layout

/-- The bytes of the word kept for a deoptimization. -/
def deoptBytes : Nat := 8

/-- The bytes of the record for the hooks: three words that anchor the frame, the thread, the two
handle blocks, and whether to detach. -/
def dataBytes : Nat := 56

/-- How much room a stub needs, and the stack rules that the frame has to follow. -/
structure Demand where
  /-- Outgoing stack arguments, in slots of four bytes. -/
  outSlots : Nat := 0
  shadowSpace : Nat := 0
  alignment : Nat := 16
  resultBytes : Nat := 0
  argBytes : Nat := 0
  calleeBytes : Nat := 0
  returnBuffer : Option Nat := none

namespace Demand

/-- No demand but the stack rules of a convention. -/
def ofConvention (c : Convention) : Demand :=
  { shadowSpace := c.shadowSpace, alignment := c.alignment }

variable (d : Demand)

/-- The bytes for outgoing arguments: aligned, and no less than the shadow space. -/
def outArgBytes : Nat := max (roundUp (d.outSlots * 4) d.alignment) d.shadowSpace

/-- The regions that are needed and their sizes, lowest address first. -/
def sizes : List (Region × Nat) :=
  [(.outArgs, d.outArgBytes), (.deoptSpill, deoptBytes), (.resultSave, d.resultBytes),
    (.argSave, d.argBytes), (.calleeSave, d.calleeBytes), (.frameData, dataBytes)] ++
    d.returnBuffer.toList.map fun bytes => (.returnBuffer, bytes)

/-- Regions one behind the other, the first of them at `start`. -/
def spansFrom : Nat → List (Region × Nat) → List Span
  | _, [] => []
  | start, (region, size) :: rest => ⟨region, start, size⟩ :: spansFrom (start + size) rest

/-- The layout that provides what is needed, however large the sum of the sizes is. -/
def layout : Layout where
  spans := spansFrom 0 d.sizes
  size := roundUp (total Prod.snd d.sizes) d.alignment
  alignment := d.alignment

theorem alignment_dvd_size : d.alignment ∣ d.layout.size := alignment_dvd_roundUp ..

end Demand

end Frame

end Trampoline
