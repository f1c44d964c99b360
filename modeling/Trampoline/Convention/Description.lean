import Trampoline.Convention
import Trampoline.Register.Listing

/-!
# Descriptions of conventions

A convention is described by lines of the form `key = value`.  Blank lines and lines that start with
`#` mean nothing.  All lines must have the form before any value is looked at; then the values are
read in the order of the lines, and at last the settings they amount to are checked.

A description without a `name` has a name given from outside, and of two lines with one key the last
one counts, except that `volatile` lines add up.

`Convention.read` reads a description; `Settings.describe` writes one, with a line for every
setting.
-/

set_option autoImplicit false

namespace Trampoline.Convention

/-- What is wrong with a description. -/
inductive DescriptionFault
  | notASetting (line : Nat)
  | registers (line : Nat) (why : Register.ListingFault)
  | byteCount (line : Nat) (value : String) (why : Text.NumeralFault)
  | bufferRegister (line : Nat) (why : Error)
  | unknownKey (line : Nat) (key : String)
  /-- Every line is well-formed, but the settings are refused. -/
  | refused (why : Error)
  deriving DecidableEq

/-- The messages for a bad description, the outer one first. -/
def DescriptionFault.chain : DescriptionFault → List String
  | notASetting line => [s!"line {line}: invalid format, expected 'key = value'"]
  | registers line why => why.chain line
  | byteCount line value why => [s!"line {line}: invalid byte count '{value}'", why.message]
  | bufferRegister line why => [s!"line {line}: bad return buffer register", why.message]
  | unknownKey line key => [s!"line {line}: unknown key '{key}'"]
  | refused why => [why.message]

/-- One line of a description, with its number, without the blanks around key and value. -/
structure Setting where
  line : Nat
  key : List Char
  value : List Char
  deriving DecidableEq

/-- Whether a line without blanks around it means something. -/
def isSignificant : List Char → Bool
  | [] => false
  | c :: _ => c ≠ '#'

/-- The settings in numbered lines, or the first significant line that is none. -/
def readLines : Nat → List (List Char) → Except DescriptionFault (List Setting)
  | _, [] => .ok []
  | number, line :: rest =>
    let line := Text.trim line
    if isSignificant line then
      match Text.cut '=' line with
      | none => .error (.notASetting number)
      | some (key, value) =>
        (readLines (number + 1) rest).map (⟨number, Text.trim key, Text.trim value⟩ :: ·)
    else readLines (number + 1) rest

example :
    (readLines 1 ["# none".toList, " key = a=b ".toList]).toOption =
      some [⟨2, "key".toList, "a=b".toList⟩] := by decide

/-- A number of bytes: any that fits in a word. -/
def readBytes (line : Nat) (value : List Char) : Except DescriptionFault Nat :=
  match Text.readNumeral 10 wordLimit value with
  | .ok n => .ok n
  | .error why => .error (.byteCount line (String.ofList value) why)

/-- The registers that a value lists. -/
def readRegisters (line : Nat) (value : List Char) : Except DescriptionFault (List Register) :=
  match Register.readListing value with
  | .ok regs => .ok regs
  | .error why => .error (.registers line why)

/-- The settings with one more line taken into account. -/
def Settings.adjust (s : Settings) (x : Setting) : Except DescriptionFault Settings :=
  match String.ofList x.key with
  | "name" => .ok { s with name := String.ofList x.value }
  | "volatile" => (readRegisters x.line x.value).map fun regs =>
      { s with volatile := s.volatile ++ regs }
  | "int_args" => (readRegisters x.line x.value).map fun regs => { s with intArgs := regs }
  | "float_args" => (readRegisters x.line x.value).map fun regs => { s with floatArgs := regs }
  | "int_returns" => (readRegisters x.line x.value).map fun regs => { s with intReturns := regs }
  | "float_returns" =>
    (readRegisters x.line x.value).map fun regs => { s with floatReturns := regs }
  | "stack_alignment" => (readBytes x.line x.value).map fun n => { s with alignment := n }
  | "shadow_space" => (readBytes x.line x.value).map fun n => { s with shadowSpace := n }
  | "return_buffer" =>
    match Register.read x.value with
    | .ok reg => .ok { s with returnBuffer := some reg }
    | .error why => .error (.bufferRegister x.line why)
  | key => .error (.unknownKey x.line key)

/-- The settings with several lines taken into account, in order. -/
def Settings.adjustAll (s : Settings) : List Setting → Except DescriptionFault Settings
  | [] => .ok s
  | x :: rest =>
    match s.adjust x with
    | .error fault => .error fault
    | .ok s => s.adjustAll rest

/-- The convention that a text describes; `name` is for a text that gives no name. -/
def read (name : String) (text : String) : Except DescriptionFault Convention :=
  match readLines 1 (Text.lines text.toList) with
  | .error fault => .error fault
  | .ok settings =>
    match Settings.adjustAll { name } settings with
    | .error fault => .error fault
    | .ok s => (make s).mapError .refused

/-! ## Writing -/

/-- A line of a description. -/
def settingLine (key : String) (value : List Char) : List Char :=
  key.toList ++ [' ', '=', ' '] ++ value ++ ['\n']

example : settingLine "int_args" ['r', '0'] = "int_args = r0\n".toList := by decide

/-- A description with a line for every setting; a return buffer register that is not there has
none. -/
def Settings.describe (s : Settings) : List Char :=
  settingLine "name" s.name.toList ++
    settingLine "volatile" (Register.writeListing s.volatile) ++
    settingLine "int_args" (Register.writeListing s.intArgs) ++
    settingLine "float_args" (Register.writeListing s.floatArgs) ++
    settingLine "int_returns" (Register.writeListing s.intReturns) ++
    settingLine "float_returns" (Register.writeListing s.floatReturns) ++
    settingLine "stack_alignment" (Nat.toDigits 10 s.alignment) ++
    settingLine "shadow_space" (Nat.toDigits 10 s.shadowSpace) ++
    (s.returnBuffer.toList.flatMap fun reg => settingLine "return_buffer" reg.chars)

end Trampoline.Convention
