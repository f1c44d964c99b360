import Trampoline.CommandLine.Arguments
import Trampoline.CommandLine.Path
import Trampoline.Convention.Description
import Trampoline.Stub.Log
import Trampoline.Stub.Summary
import Trampoline.Text.Encoded

/-!
# Running a command

A command reads descriptions of conventions, generates or plans a stub, and reports.  What it needs
from its surroundings is a `Host`: to read and write files and to print.  The host's monad is a
parameter, so a command runs on real files and on imagined ones alike.

A failure is a chain of messages, each the cause of the one before it (`Failure`).  What has been
printed before it stays printed.
-/

set_option autoImplicit false

namespace Trampoline.CommandLine

/-- The messages of a failure, the outermost first. -/
abbrev Failure := List String

/-- The surroundings of a command.  A file operation that fails gives the reason. -/
structure Host (m : Type → Type) where
  read : String → m (Except String String)
  write : String → List Byte → m (Except String Unit)
  print : String → m Unit

/-- The text of a file with these bytes, or the reason why they are none. -/
def contents (bytes : List Byte) : Except String String :=
  match Text.decode? bytes with
  | some text => .ok text
  | none => .error "stream did not contain valid UTF-8"

section

variable {m : Type → Type} [Monad m]

/-- The result, or a failure with the error as its cause. -/
def orFail {α : Type} (context : String) (result : Except Error α) : ExceptT Failure m α :=
  match result with
  | .ok a => return a
  | .error e => throw [context, e.message]

/-- The convention that a file describes, or `preset` if there is no file. -/
def readConvention (host : Host m) (preset : Convention) (path : Option String) :
    ExceptT Failure m Convention :=
  match path with
  | none => return preset
  | some path => do
    match ← host.read path with
    | .error why => throw [s!"Failed to read {path}", why]
    | .ok text =>
      match Convention.read (stem path) text with
      | .ok c => return c
      | .error fault => throw (s!"Invalid descriptor {path}" :: fault.chain)

/-- The request that the options describe. -/
def request (host : Host m) (o : StubOptions) : ExceptT Failure m Request := do
  let signature ← orFail s!"Bad signature '{o.signature}'" (Signature.read o.signature)
  let native ← readConvention host .aapcs64 o.native
  let runtime ← readConvention host .aarch64Runtime o.runtime
  return {
    native
    runtime
    signature
    method := ⟨o.method, o.metadata, (({} : Cells).alloc o.entry).1⟩
    receiver := if o.weak then Handle.weak o.receiver else ⟨o.receiver⟩
    hooks := {
      onEntry := { name := "on_entry", address := o.onEntry }
      onExit := { name := "on_exit", address := o.onExit }
      uncaught := { name := "handle_uncaught_exception", address := o.uncaught } } }

/-- Generates a stub, and writes it to a file and a summary to the output if that is wanted. -/
def generate (host : Host m) (o : StubOptions) (how : GenerateOptions) :
    ExceptT Failure m Unit := do
  let r ← request host o
  let r :=
    match how.returnBuffer with
    | none => r
    | some bytes => { r with returnBuffer := .explicit bytes }
  host.print (String.join (r.log ⟨how.printShuffle, how.trace⟩ how.capacity))
  let stub ← orFail s!"Stub generation failed for {r.signature}" (r.generate how.capacity)
  if how.json then host.print (stub.summary.pretty ++ "\n")
  match how.output with
  | none => return
  | some path =>
    let bytes := stub.encode
    match ← host.write path bytes with
    | .error why => throw [s!"Failed to write output to {path}", why]
    | .ok () =>
      host.print
        (s!"Generated {stub.name} -> {path} ({bytes.length} bytes, " ++
          s!"frame {stub.layout.size} bytes)\n")

/-- Prints the argument shuffle that a stub would have. -/
def plan (host : Host m) (o : StubOptions) : ExceptT Failure m Unit := do
  let r ← request host o
  let shuffle ← orFail s!"Shuffle planning failed for {r.signature}" r.shuffle
  host.print shuffle.text

/-- Runs a command. -/
def Command.run (host : Host m) : Command → m (Except Failure Unit)
  | .generate o how => (CommandLine.generate host o how).run
  | .plan o => (CommandLine.plan host o).run

end

/-! ## Reporting a failure -/

/-- A cause in a report: blanks or a number in front of its first line, blanks in front of the
others. -/
def causeText (number : Option Nat) (cause : String) : String :=
  let (first, others) :=
    match number with
    | none => ("    ", "    ")
    | some n => (padded 5 n ++ ": ", "       ")
  first ++ ("\n" ++ others).intercalate
    ((Text.splitAll '\n' cause.toList).map String.ofList)

/-- The report of a failure.  Several causes are numbered. -/
def report : Failure → String
  | [] => "Error: \n"
  | [message] => s!"Error: {message}\n"
  | [message, cause] => s!"Error: {message}\n\nCaused by:\n{causeText none cause}\n"
  | message :: causes =>
    let lines := causes.zipIdx.map fun (cause, i) => causeText (some i) cause ++ "\n"
    s!"Error: {message}\n\nCaused by:\n" ++ String.join lines

/-- What is printed when the arguments are not understood. -/
def usage : String :=
  "Usage: trampoline <generate|plan> --signature <SIGNATURE> [OPTIONS]\n"

end Trampoline.CommandLine
