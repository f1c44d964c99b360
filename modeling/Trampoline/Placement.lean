import Trampoline.Convention
import Trampoline.Signature

/-!
# Placement of values

Under a convention every argument has a home: arguments take the registers of their bank in order,
and when those are used up, stack slots of eight bytes, which both banks share.  Results take return
registers in the same way, but never the stack.  Offsets of slots have no upper bound here; whether
an instruction can carry one is asked when it is made.

A `Placement` is the list of these slots; the number of a slot is its position.
-/

set_option autoImplicit false

namespace Trampoline

/-- One value and where it lives. -/
structure Slot where
  type : ValueType
  location : Location
  deriving DecidableEq

/-- Slots in the order of the values. -/
abbrev Placement := List Slot

/-- The bytes that a stack argument takes. -/
def stackArgBytes : Nat := 8

namespace Placement

/-- The locations of the slots. -/
def locations (p : Placement) : List Location := p.map Slot.location

/-- The registers among the locations, in the order of the slots. -/
def registers (p : Placement) : List Register := p.locations.filterMap Location.register?

/-! ## Arguments -/

/-- Places values while `ints` and `floats` are left of the registers and `offset` bytes of the
stack area are used. -/
def placeFrom (area : Area) : List Register → List Register → Int → List ValueType → Placement
  | _, _, _, [] => []
  | ints, floats, offset, t :: rest =>
    if t.isFloating then
      match floats with
      | reg :: floats => ⟨t, .register reg⟩ :: placeFrom area ints floats offset rest
      | [] => ⟨t, .stack area offset⟩ :: placeFrom area ints [] (offset + stackArgBytes) rest
    else
      match ints with
      | reg :: ints => ⟨t, .register reg⟩ :: placeFrom area ints floats offset rest
      | [] => ⟨t, .stack area offset⟩ :: placeFrom area [] floats (offset + stackArgBytes) rest

/-- The homes of arguments of the given types. -/
def arguments (c : Convention) (types : List ValueType) (area : Area) : Placement :=
  placeFrom area c.intArgs c.floatArgs 0 types

theorem length_placeFrom (area : Area) (ints floats : List Register) (offset : Int)
    (types : List ValueType) :
    (placeFrom area ints floats offset types).length = types.length := by
  fun_induction placeFrom area ints floats offset types <;> simp_all

@[simp] theorem length_arguments (c : Convention) (types : List ValueType) (area : Area) :
    (arguments c types area).length = types.length :=
  length_placeFrom ..

/-! ## Results -/

/-- Places results in the registers that are left, if they suffice. -/
def returnsFrom? : List Register → List Register → List ValueType → Option Placement
  | _, _, [] => some []
  | ints, floats, t :: rest =>
    if t.isFloating then
      match floats with
      | reg :: floats => (returnsFrom? ints floats rest).map (⟨t, .register reg⟩ :: ·)
      | [] => none
    else
      match ints with
      | reg :: ints => (returnsFrom? ints floats rest).map (⟨t, .register reg⟩ :: ·)
      | [] => none

/-- The homes of results of the given types. -/
def returns (c : Convention) (types : List ValueType) : Except Error Placement :=
  match returnsFrom? c.intReturns c.floatReturns types with
  | some p => .ok p
  | none => .error (.tooFewReturns c.name types.length)

end Placement

end Trampoline
