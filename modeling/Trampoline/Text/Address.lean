import Trampoline.Text.Blank
import Trampoline.Text.Numeral
import Trampoline.Word

/-!
# Addresses

An address is a number of 64 bits, in hexadecimal after `0x` or `0X` and in decimal otherwise.
Underscores may stand anywhere in it, except in the mark of the radix, and mean nothing.
-/

set_option autoImplicit false

namespace Trampoline.Text

/-- A text that is no address, without the blanks around it, and why. -/
structure AddressFault where
  text : String
  why : NumeralFault
  deriving DecidableEq

/-- The radix that the start of a text calls for, and the digits after it. -/
def radixOf : List Char → Nat × List Char
  | '0' :: 'x' :: digits => (16, digits)
  | '0' :: 'X' :: digits => (16, digits)
  | digits => (10, digits)

/-- The address that a text stands for. -/
def readAddress (text : List Char) : Except AddressFault Word :=
  let trimmed := trim text
  let (radix, digits) := radixOf trimmed
  match readNumeral radix wordLimit (digits.filter (· ≠ '_')) with
  | .ok n => .ok (BitVec.ofNat 64 n)
  | .error why => .error ⟨String.ofList trimmed, why⟩

/-- The messages for a text that is no address, the outer one first. -/
def AddressFault.chain (f : AddressFault) : List String :=
  [s!"invalid address '{f.text}'", f.why.message]

example : readAddress " 0x1_0000 ".toList = .ok 0x10000 := by rfl

example : readAddress "0_x1".toList = .error ⟨"0_x1", .badDigit⟩ := by rfl

end Trampoline.Text
