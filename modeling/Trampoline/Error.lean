import Trampoline.Location
import Trampoline.ValueType

/-!
# What can go wrong

One constructor per cause, with what the cause needs to be told, and one function that words it.
Causes fall into nine kinds (`Error.kind`); the wording of a kind comes first in a message and the
particulars follow (`Error.message`).  Nothing decides by a message, so the two functions at the end
of this file are the only place where wording matters.
-/

set_option autoImplicit false

namespace Trampoline

/-- What a stub needs a particular register for. -/
inductive Role
  | framePointer
  | linkRegister
  | stackPointer
  | thread
  | method
  | scratch
  | secondScratch
  | shuffle
  | returnBuffer
  deriving DecidableEq

/-- The name of a role in messages. -/
def Role.name : Role → String
  | framePointer => "frame pointer"
  | linkRegister => "link register"
  | stackPointer => "stack pointer"
  | thread => "thread register"
  | method => "method register"
  | scratch => "scratch register"
  | secondScratch => "second scratch register"
  | shuffle => "shuffle register"
  | returnBuffer => "return buffer register"

/-- The four register sequences of a convention. -/
inductive Sequence
  | intArgs
  | floatArgs
  | intReturns
  | floatReturns
  deriving DecidableEq

/-- What a register of the sequence is for, in messages. -/
def Sequence.use : Sequence → String
  | intArgs => "integer argument"
  | floatArgs => "float argument"
  | intReturns => "integer return"
  | floatReturns => "float return"

/-- The bank a sequence takes its registers from. -/
def Sequence.bank : Sequence → Bank
  | intArgs | intReturns => .general
  | floatArgs | floatReturns => .vector

/-- What can be wrong with the written form of a signature. -/
inductive SignatureFlaw
  | noOpening
  | noClosing
  | unknownType (letter : Char)
  | unterminatedList
  | notSingleReturn
  deriving DecidableEq

/-- How a flaw is worded. -/
def SignatureFlaw.message : SignatureFlaw → String
  | noOpening => "expected '('"
  | noClosing => "expected ')'"
  | unknownType letter => s!"unknown type character '{letter}'"
  | unterminatedList => "unterminated return register list"
  | notSingleReturn => "expected a single return type"

/-- Why a stub, or a part of one, cannot be had. -/
inductive Error
  -- names, targets and conventions
  | registerName (text : String)
  | framePairOutside (frame link : Register) (count : Nat)
  | framePointerShared
  | alignment (convention : String) (bytes : Nat)
  | shadowSpace (convention : String) (bytes : Nat)
  | wrongBank (convention : String) (reg : Register) (sequence : Sequence)
  | repeated (convention : String) (sequence : Sequence)
  | bufferBank (convention : String) (reg : Register)
  | absent (convention : String) (reg : Register)
  | reserved (convention : String) (reg : Register)
  | hookConvention (hook : String)
  | noBufferRegister (convention : String)
  | receiverPlace (convention : String) (place : Location)
  | noRegister (convention : String) (sequence : Sequence)
  -- signatures
  | signatureText (text : String) (flaw : SignatureFlaw)
  | argumentType (type : ValueType)
  | tooFewReturns (convention : String) (count : Nat)
  | returnType (type : ValueType)
  -- shuffles
  | argumentCount (native runtime : Nat)
  | scratchUsed (scratch : Register) (move : Move)
  | writesIncoming (move : Move)
  | writtenTwice (place : Location)
  | readTwice (place : Location)
  -- registers and sizes of one stub
  | registerRole (reg : Register) (role : Role)
  | bufferTooSmall (required provided : Nat)
  | codeTooLong (size capacity : Nat)
  -- what the other checks are there to exclude
  | offsetTooLarge (offset : Int)
  | noReceiverSlot
  | noBufferRegion
  deriving DecidableEq

namespace Error

/-- The kinds of causes. -/
inductive Kind
  | convention
  | signature
  | returnType
  | argumentCount
  | shuffle
  | register
  | returnBuffer
  | capacity
  | internal
  deriving DecidableEq

/-- The kind a cause belongs to. -/
def kind : Error → Kind
  | registerName _ | framePairOutside _ _ _ | framePointerShared | alignment _ _
  | shadowSpace _ _ | wrongBank _ _ _ | repeated _ _ | bufferBank _ _ | absent _ _
  | reserved _ _ | hookConvention _ | noBufferRegister _ | receiverPlace _ _
  | noRegister _ _ => .convention
  | signatureText _ _ | argumentType _ | tooFewReturns _ _ => .signature
  | returnType _ => .returnType
  | argumentCount _ _ => .argumentCount
  | scratchUsed _ _ | writesIncoming _ | writtenTwice _ | readTwice _ => .shuffle
  | registerRole _ _ => .register
  | bufferTooSmall _ _ => .returnBuffer
  | codeTooLong _ _ => .capacity
  | offsetTooLarge _ | noReceiverSlot | noBufferRegion => .internal

/-- What the message of a cause says after the words of its kind. -/
def particulars : Error → String
  | registerName text => s!"invalid register name '{text}'"
  | framePairOutside frame link count =>
    s!"frame pointer {frame} and link register {link} must be within r0..r{count}"
  | framePointerShared => "frame pointer must be distinct from the stack pointer and link register"
  | alignment convention bytes =>
    s!"{convention}: stack alignment {bytes} must be a power of two of at least 8"
  | shadowSpace convention bytes =>
    s!"{convention}: shadow space {bytes} is not a multiple of 8"
  | wrongBank convention reg sequence =>
    s!"{convention}: {reg} cannot be an {sequence.use} register"
  | repeated convention sequence => s!"{convention}: duplicate {sequence.use} register"
  | bufferBank convention reg =>
    s!"{convention}: return buffer register {reg} must be a general register"
  | absent convention reg => s!"{convention}: register {reg} does not exist on this target"
  | reserved convention reg => s!"{convention}: frame register {reg} cannot carry values"
  | hookConvention hook => s!"hook {hook} must be callable with the native ABI"
  | noBufferRegister convention =>
    s!"{convention}: a return buffer is needed but no return buffer register is defined"
  | receiverPlace convention place =>
    s!"{convention}: receiver must be passed in a general register, not {place}"
  | noRegister convention sequence => s!"{convention}: no {sequence.use} register"
  | signatureText text flaw => s!"'{text}': {flaw.message}"
  | argumentType type => s!"argument type {type.name} cannot be passed by a native caller"
  | tooFewReturns convention count =>
    s!"{convention}: not enough return registers for {count} values"
  | returnType type => type.name
  | argumentCount native runtime =>
    s!"{native} native arguments, {runtime} runtime arguments"
  | scratchUsed scratch move => s!"scratch register {scratch} used by move {move}"
  | writesIncoming move => s!"move {move} writes into the caller's argument area"
  | writtenTwice place => s!"destination {place} written twice"
  | readTwice place => s!"source {place} read by two arguments"
  | registerRole reg role => s!"{reg} cannot be used as {role.name}"
  | bufferTooSmall required provided =>
    s!"{provided} bytes provided, {required} bytes required"
  | codeTooLong size capacity => s!"{size} bytes emitted, capacity is {capacity}"
  | offsetTooLarge offset => s!"frame offset {offset} does not fit in an immediate"
  | noReceiverSlot => "runtime convention has no receiver slot"
  | noBufferRegion => "return buffer region missing from frame"

/-- The words a kind's messages begin with. -/
def Kind.heading : Kind → String
  | convention => "Invalid convention descriptor: "
  | signature => "Invalid signature: "
  | returnType => "Unsupported return type: "
  | argumentCount => "Argument count mismatch: "
  | shuffle => "Argument shuffle conflict: "
  | register => "Register "
  | returnBuffer => "Return buffer too small: "
  | capacity => "Code buffer overflow: "
  | internal => "Internal error: "

/-- The whole message. -/
def message (e : Error) : String := e.kind.heading ++ e.particulars

end Error

/-- The register that a text names; a text that names none is quoted without the blanks around
it. -/
def Register.read (text : List Char) : Except Error Register :=
  match ofChars? text with
  | some reg => .ok reg
  | none => .error (.registerName (String.ofList (Text.trim text)))

end Trampoline
