import Trampoline.Error
import Trampoline.Instruction

/-!
# Drafts

What is to be laid down as code is a `Draft`: a list of pieces, each of them some instructions or
the reason why they cannot be had.  The one reason there is, is an offset too large for an
immediate.  A piece is had whole or not at all.
-/

set_option autoImplicit false

namespace Trampoline

/-- The immediate for an offset. -/
def immediate (offset : Int) : Except Error Imm :=
  match Imm.ofInt? offset with
  | some imm => .ok imm
  | none => .error (.offsetTooLarge offset)

/-- Some instructions, or the reason why they cannot be had. -/
abbrev Piece := Except Error (List Instruction)

/-- Pieces to be laid down one after the other. -/
abbrev Draft := List Piece

/-- One instruction that addresses memory at an offset. -/
def addressed (offset : Int) (i : Imm → Instruction) : Piece :=
  (immediate offset).map fun imm => [i imm]

/-- The instructions of a draft, if all of its pieces can be had. -/
def Draft.instructions : Draft → Except Error (List Instruction)
  | [] => .ok []
  | .error e :: _ => .error e
  | .ok is :: rest => (Draft.instructions rest).map (is ++ ·)

end Trampoline
