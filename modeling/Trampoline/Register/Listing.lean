import Trampoline.Error
import Trampoline.Text.Lines

/-!
# Lists of registers

A list of registers is written with commas, and a run of consecutive registers of one bank may be
written as a range: `r0-r3, v1` has five members.  Blanks do not matter, nor do items that consist
of nothing else.  Order and repetitions do.
-/

set_option autoImplicit false

namespace Trampoline.Register

/-- What is wrong with an item of a list. -/
inductive ListingFault
  | badRegister (item : String) (why : Error)
  | badRange (item : String) (why : Error)
  /-- The ends of a range differ in bank, or go down. -/
  | notAscending (item : String)
  deriving DecidableEq

/-- The messages for a bad item in a numbered line, the outer one first. -/
def ListingFault.chain (line : Nat) : ListingFault → List String
  | badRegister item why => [s!"line {line}: bad register '{item}'", why.message]
  | badRange item why => [s!"line {line}: bad range '{item}'", why.message]
  | notAscending item => [s!"line {line}: invalid register range '{item}'"]

/-- The registers from the first to the last, if they are of one bank and in this order. -/
def range? (first last : Register) : Option (List Register) :=
  if first.bank = last.bank ∧ first.index ≤ last.index then
    some (span first.bank first.index.toNat (last.index.toNat + 1 - first.index.toNat))
  else none

/-- The registers of one item. -/
def readItem (item : List Char) : Except ListingFault (List Register) :=
  let quoted := String.ofList item
  match Text.cut '-' item with
  | none =>
    match read item with
    | .ok reg => .ok [reg]
    | .error why => .error (.badRegister quoted why)
  | some (first, last) =>
    match read first, read last with
    | .error why, _ => .error (.badRange quoted why)
    | .ok _, .error why => .error (.badRange quoted why)
    | .ok first, .ok last =>
      match range? first last with
      | some regs => .ok regs
      | none => .error (.notAscending quoted)

/-- The registers of several items, or the fault of the first bad one. -/
def readItems : List (List Char) → Except ListingFault (List Register)
  | [] => .ok []
  | item :: rest =>
    match readItem item with
    | .error fault => .error fault
    | .ok regs => (readItems rest).map (regs ++ ·)

/-- The items of a text: what is between commas, without blanks around, if anything remains. -/
def items (text : List Char) : List (List Char) :=
  ((Text.splitAll ',' text).map Text.trim).filter (· ≠ [])

/-- The registers that a text lists. -/
def readListing (text : List Char) : Except ListingFault (List Register) := readItems (items text)

/-- Reading goes through the items from the left. -/
theorem readItems_append (xs ys : List (List Char)) :
    readItems (xs ++ ys) =
      match readItems xs with
      | .error fault => .error fault
      | .ok regs => (readItems ys).map (regs ++ ·) := by
  induction xs with
  | nil => cases h : readItems ys <;> simp [readItems, h, Except.map]
  | cons item rest ih =>
    simp only [List.cons_append, readItems]
    cases readItem item with
    | error fault => rfl
    | ok regs =>
      simp only [ih]
      cases readItems rest with
      | error fault => rfl
      | ok more => cases h : readItems ys <;> simp [Except.map]

example :
    readListing "r0 - r2,, v7 ".toList =
      .ok [general 0, general 1, general 2, vector 7] := by rfl

/-- A text that lists the registers one by one. -/
def writeListing (rs : List Register) : List Char := [',', ' '].intercalate (rs.map chars)

example : writeListing [general 0, vector 31] = "r0, v31".toList := by decide

end Trampoline.Register
