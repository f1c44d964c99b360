/-!
# Numerals

Numbers are written with the digits of a radix, and may have a plus sign in front.  Reading stops at
the first fault, so a numeral that is too large before its first bad digit is too large.
-/

set_option autoImplicit false

namespace Trampoline.Text

/-- What can be wrong with a numeral. -/
inductive NumeralFault
  | empty
  | badDigit
  | tooLarge
  deriving DecidableEq, Repr

/-- How a bad numeral is reported. -/
def NumeralFault.message : NumeralFault → String
  | .empty => "cannot parse integer from empty string"
  | .badDigit => "invalid digit found in string"
  | .tooLarge => "number too large to fit in target type"

/-- The value of a digit below `radix`; letters follow the nine, in either case. -/
def digit? (radix : Nat) (c : Char) : Option Nat :=
  let value :=
    if '0' ≤ c ∧ c ≤ '9' then c.toNat - '0'.toNat
    else if 'a' ≤ c ∧ c ≤ 'z' then c.toNat - 'a'.toNat + 10
    else if 'A' ≤ c ∧ c ≤ 'Z' then c.toNat - 'A'.toNat + 10
    else radix
  if value < radix then some value else none

theorem digit?_lt {radix d : Nat} {c : Char} (h : digit? radix c = some d) : d < radix := by
  simp only [digit?, Option.ite_none_right_eq_some, Option.some.injEq] at h
  exact h.2 ▸ h.1

/-- Appends digits to the number read so far; the number stays below `bound`. -/
def readDigits (radix bound : Nat) : Nat → List Char → Except NumeralFault Nat
  | value, [] => .ok value
  | value, c :: rest =>
    match digit? radix c with
    | none => .error .badDigit
    | some d =>
      if value * radix + d < bound then readDigits radix bound (value * radix + d) rest
      else .error .tooLarge

/-- A number below `bound`: at least one digit, with or without a plus sign in front. -/
def readNumeral (radix bound : Nat) : List Char → Except NumeralFault Nat
  | [] => .error .empty
  | ['+'] => .error .badDigit
  | '+' :: rest => readDigits radix bound 0 rest
  | digits => readDigits radix bound 0 digits

example : readNumeral 10 256 "+007".toList = .ok 7 := by rfl

example : readNumeral 10 256 "256".toList = .error .tooLarge := by rfl

example : readNumeral 10 256 "-0".toList = .error .badDigit := by rfl

example : readNumeral 16 256 "fF".toList = .ok 255 := by rfl

theorem readDigits_lt {radix bound value n : Nat} {digits : List Char} (hv : value < bound)
    (h : readDigits radix bound value digits = .ok n) : n < bound := by
  induction digits generalizing value with
  | nil => cases h; exact hv
  | cons c rest ih =>
    rw [readDigits] at h
    split at h
    · cases h
    · split at h
      · exact ih ‹_› h
      · cases h

/-- A number that was read is below the bound. -/
theorem readNumeral_lt {radix bound n : Nat} {text : List Char} (hb : 0 < bound)
    (h : readNumeral radix bound text = .ok n) : n < bound := by
  unfold readNumeral at h
  split at h
  · cases h
  · cases h
  · exact readDigits_lt hb h
  · exact readDigits_lt hb h

end Trampoline.Text
