import Trampoline.Register

/-!
# Where values live

An argument is in a register or on the stack, and there are two stacks of arguments to tell apart:
the one the native caller filled, above the stub's frame, and the one the stub fills for the method
it calls, at the bottom of that frame.  An offset counts from the start of its area; it is an
integer, since a placement handed over by someone else may lie below it.

A `Move` is one copy from a location to a location.
-/

set_option autoImplicit false

namespace Trampoline

/-- The two areas of stack arguments. -/
inductive Area
  /-- The native caller's arguments, above the frame of the stub. -/
  | incoming
  /-- The arguments for the target, at the bottom of the frame of the stub. -/
  | outgoing
  deriving DecidableEq

/-- The home of one value. -/
inductive Location
  | register (reg : Register)
  | stack (area : Area) (offset : Int)
  deriving DecidableEq

namespace Location

/-- The stack location at an offset into the native caller's arguments. -/
abbrev incoming (offset : Int) : Location := .stack .incoming offset

/-- The stack location at an offset into the arguments for the target. -/
abbrev outgoing (offset : Int) : Location := .stack .outgoing offset

/-- The register, for a location that is one. -/
def register? : Location → Option Register
  | register reg => some reg
  | stack _ _ => none

theorem mem_filterMap_register? {reg : Register} {ls : List Location} :
    reg ∈ ls.filterMap register? ↔ register reg ∈ ls := by
  rw [List.mem_filterMap]
  constructor
  · rintro ⟨l, hl, heq⟩
    cases l with
    | register r => exact Option.some.inj heq ▸ hl
    | stack => cases heq
  · exact fun h => ⟨_, h, rfl⟩

/-- How a location is written: a register's name, or the area and the offset. -/
def text : Location → String
  | register reg => toString reg
  | stack .incoming offset => s!"in[+{offset}]"
  | stack .outgoing offset => s!"out[+{offset}]"

instance : ToString Location := ⟨text⟩

/-- The order of locations: registers first, then the incoming and the outgoing area by offset. -/
def precedes : Location → Location → Bool
  | register a, register b =>
    if a.bank = b.bank then a.index.toNat ≤ b.index.toNat else a.isGeneral
  | register _, stack _ _ => true
  | stack _ _, register _ => false
  | stack .incoming m, stack .incoming n => m ≤ n
  | stack .outgoing m, stack .outgoing n => m ≤ n
  | stack .incoming _, stack .outgoing _ => true
  | stack .outgoing _, stack .incoming _ => false

end Location

/-- One copy of a value. -/
structure Move where
  source : Location
  target : Location
  deriving DecidableEq

/-- How a move is written. -/
def Move.text (m : Move) : String := s!"{m.source} -> {m.target}"

instance : ToString Move := ⟨Move.text⟩

end Trampoline
