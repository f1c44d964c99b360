import Trampoline.Register

/-!
# Types of values

The types that cross the boundary between native code and the runtime.  All that a stub needs to
know of a type is the bank its values travel in.  Two of them never cross it as an ordinary value:
only the receiver is a managed reference (`object`), and `void` is the type of nothing.
-/

set_option autoImplicit false

namespace Trampoline

/-- The type of an argument or a result. -/
inductive ValueType
  | boolean
  | byte
  | short
  | char
  | int
  | long
  | float
  | double
  /-- A raw native pointer. -/
  | address
  /-- A managed reference. -/
  | object
  | void
  deriving DecidableEq

namespace ValueType

/-- The letter that stands for the type in a signature. -/
def letter : ValueType → Char
  | boolean => 'Z'
  | byte => 'B'
  | short => 'S'
  | char => 'C'
  | int => 'I'
  | long => 'J'
  | float => 'F'
  | double => 'D'
  | address => 'A'
  | object => 'L'
  | void => 'V'

/-- The type that a letter stands for. -/
def ofLetter? : Char → Option ValueType
  | 'Z' => some boolean
  | 'B' => some byte
  | 'S' => some short
  | 'C' => some char
  | 'I' => some int
  | 'J' => some long
  | 'F' => some float
  | 'D' => some double
  | 'A' => some address
  | 'L' => some object
  | 'V' => some void
  | _ => none

@[simp] theorem ofLetter?_letter (t : ValueType) : ofLetter? t.letter = some t := by
  cases t <;> rfl

theorem eq_letter_of_ofLetter? {c : Char} {t : ValueType} (h : ofLetter? c = some t) :
    c = t.letter := by
  unfold ofLetter? at h
  split at h <;> cases h <;> rfl

/-- The name of the type in messages. -/
def name : ValueType → String
  | boolean => "Boolean"
  | byte => "Byte"
  | short => "Short"
  | char => "Char"
  | int => "Int"
  | long => "Long"
  | float => "Float"
  | double => "Double"
  | address => "Address"
  | object => "Object"
  | void => "Void"

/-- Whether values of the type are floating-point numbers. -/
def isFloating : ValueType → Bool
  | float | double => true
  | _ => false

/-- The bank a value of the type travels in; nothing travels for `void`. -/
def bank? : ValueType → Option Bank
  | void => none
  | float | double => some .vector
  | _ => some .general

/-- Whether native code can pass or take back a value of the type. -/
def isNative : ValueType → Bool
  | object | void => false
  | _ => true

theorem bank?_eq_vector_iff (t : ValueType) : t.bank? = some .vector ↔ t.isFloating = true := by
  cases t <;> decide

end ValueType

end Trampoline
