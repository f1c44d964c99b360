import Trampoline.Stub
import Trampoline.Text.Address
import Trampoline.Text.Lines

/-!
# Arguments

The command line has two commands, `generate` and `plan`, and takes everything else as options, each
of them at most once.  An option has a long name, and two of them a letter as well; its value
follows in the next argument, after an equals sign, or right behind the letter.  A next argument
that looks like an option is no value.

Whatever is not understood makes the whole line unusable: there is no partial reading of a command
line, and `Command.read?` does not say what was wrong.
-/

set_option autoImplicit false

namespace Trampoline.CommandLine

/-! ## Options -/

/-- The options of the commands. -/
inductive Key
  | signature
  | native
  | runtime
  | method
  | metadata
  | entry
  | receiver
  | weak
  | onEntry
  | onExit
  | uncaught
  | output
  | printShuffle
  | trace
  | json
  | returnBuffer
  | capacity
  deriving DecidableEq

namespace Key

/-- The long name of an option. -/
def name : Key → String
  | signature => "signature"
  | native => "native"
  | runtime => "runtime"
  | method => "method"
  | metadata => "method-metadata"
  | entry => "entry"
  | receiver => "receiver"
  | weak => "weak"
  | onEntry => "on-entry"
  | onExit => "on-exit"
  | uncaught => "uncaught-exception"
  | output => "output"
  | printShuffle => "print-shuffle"
  | trace => "trace"
  | json => "json"
  | returnBuffer => "return-buffer"
  | capacity => "code-capacity"

/-- The letter of an option. -/
def letter? : Key → Option Char
  | signature => some 's'
  | output => some 'o'
  | _ => none

/-- Whether the option takes no value. -/
def isFlag : Key → Bool
  | weak | printShuffle | trace | json => true
  | _ => false

/-- The options that describe a stub. -/
def describing : List Key :=
  [signature, native, runtime, method, metadata, entry, receiver, weak, onEntry, onExit, uncaught]

/-- The options on what to do with it. -/
def handling : List Key := [output, printShuffle, trace, json, returnBuffer, capacity]

end Key

/-! ## Reading options -/

/-- What an argument turns out to be. -/
inductive Token
  | complete (key : Key) (value : List Char)
  /-- An option whose value has to follow. -/
  | pending (key : Key)
  | unknown

/-- An argument that is an option by its long name. -/
def readLong (known : List Key) (text : List Char) : Token :=
  let (name, value) :=
    match Text.cut '=' text with
    | some (name, value) => (name, some value)
    | none => (text, none)
  match known.find? (·.name.toList = name), value with
  | none, _ => .unknown
  | some key, none => if key.isFlag then .complete key [] else .pending key
  | some key, some value => if key.isFlag then .unknown else .complete key value

/-- An argument that is an option by its letter, which every such option takes a value behind. -/
def readShort (known : List Key) (letter : Char) (behind : List Char) : Token :=
  match known.find? (·.letter? = some letter), behind with
  | none, _ => .unknown
  | some key, [] => .pending key
  | some key, '=' :: value => .complete key value
  | some key, value => .complete key value

/-- What an argument is by itself. -/
def readToken (known : List Key) : List Char → Token
  | '-' :: '-' :: text => readLong known text
  | '-' :: letter :: behind => readShort known letter behind
  | _ => .unknown

/-- Whether an argument can be the value of the option before it. -/
def isValue : List Char → Bool
  | '-' :: _ :: _ => false
  | _ => true

/-- The options of a command and their values; the value of a flag is empty.  Two hyphens may end
the line. -/
def readOptions (known : List Key) : List (List Char) → Option (List (Key × List Char))
  | [] => some []
  | [['-', '-']] => some []
  | argument :: rest =>
    match readToken known argument with
    | .unknown => none
    | .complete key value => (readOptions known rest).map ((key, value) :: ·)
    | .pending key =>
      match rest with
      | [] => none
      | value :: rest =>
        if isValue value then (readOptions known rest).map ((key, value) :: ·) else none

example :
    readOptions Key.describing ["-s()V".toList, "--weak".toList, "--entry=1".toList] =
      some [(.signature, "()V".toList), (.weak, []), (.entry, ['1'])] := by decide

example : readOptions Key.describing ["--entry".toList, "--weak".toList] = none := by decide

/-! ## Commands -/

/-- The description of a stub on the command line. -/
structure StubOptions where
  signature : String
  /-- The file that describes the native convention. -/
  native : Option String
  /-- The file that describes the runtime's convention. -/
  runtime : Option String
  method : String
  metadata : Word
  entry : Word
  receiver : Word
  weak : Bool
  onEntry : Word
  onExit : Word
  uncaught : Word

/-- What to do with a stub. -/
structure GenerateOptions where
  /-- The file that the stub is written to. -/
  output : Option String
  printShuffle : Bool
  trace : Bool
  json : Bool
  returnBuffer : Option Nat
  capacity : Nat

/-- A command with its options. -/
inductive Command
  | generate (stub : StubOptions) (how : GenerateOptions)
  | plan (stub : StubOptions)

/-- The options that were given, each of them once. -/
abbrev Given := List (Key × List Char)

namespace Given

variable (given : Given)

/-- Whether an option was given. -/
def has (key : Key) : Bool := (given.lookup key).isSome

/-- The text of an option. -/
def text? (key : Key) : Option String := (given.lookup key).map String.ofList

/-- The file that an option names, if it is given; the empty name is no file's. -/
def path (key : Key) : Option (Option String) :=
  match given.lookup key with
  | none => some none
  | some [] => none
  | some name => some (some (String.ofList name))

/-- The address that an option gives. -/
def address (key : Key) (default : Word) : Option Word :=
  match given.lookup key with
  | none => some default
  | some value => (Text.readAddress value).toOption

/-- The number that an option gives. -/
def number (key : Key) : Option (Option Nat) :=
  match given.lookup key with
  | none => some none
  | some value => (Text.readNumeral 10 wordLimit value).toOption.map some

end Given

/-- The description of a stub, if the signature is there and the values can be read. -/
def StubOptions.ofGiven? (given : Given) : Option StubOptions := do
  return {
    signature := ← given.text? .signature
    native := ← given.path .native
    runtime := ← given.path .runtime
    method := (given.text? .method).getD "target"
    metadata := ← given.address .metadata 0x90000
    entry := ← given.address .entry 0x50000
    receiver := ← given.address .receiver 0x70000
    weak := given.has .weak
    onEntry := ← given.address .onEntry 0x10000
    onExit := ← given.address .onExit 0x20000
    uncaught := ← given.address .uncaught 0x30000 }

/-- What to do with a stub, if the values can be read. -/
def GenerateOptions.ofGiven? (given : Given) : Option GenerateOptions := do
  return {
    output := ← given.path .output
    printShuffle := given.has .printShuffle
    trace := given.has .trace
    json := given.has .json
    returnBuffer := ← given.number .returnBuffer
    capacity := (← given.number .capacity).getD defaultCapacity }

/-- The options that the arguments give, if none of them is given twice. -/
def readGiven? (known : List Key) (arguments : List String) : Option Given := do
  let given ← readOptions known (arguments.map String.toList)
  if (given.map Prod.fst).Nodup then some given else none

/-- The command that the arguments give. -/
def Command.read? : List String → Option Command
  | "generate" :: arguments => do
    let given ← readGiven? (Key.describing ++ Key.handling) arguments
    return .generate (← StubOptions.ofGiven? given) (← GenerateOptions.ofGiven? given)
  | "plan" :: arguments => do
    let given ← readGiven? Key.describing arguments
    return .plan (← StubOptions.ofGiven? given)
  | _ => none

end Trampoline.CommandLine
