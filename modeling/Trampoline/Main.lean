import Trampoline.CommandLine.Run

/-!
# The program

Connects the command line to the files and the streams of the process.  It ends with 0 when all went
well, with 1 after a failure, and with 2 when the arguments were not understood.
-/

set_option autoImplicit false

namespace Trampoline.CommandLine

/-- The reason why a file operation failed, with the number that the system gives it. -/
def reason : IO.Error → String
  | .noFileOrDirectory _ code details | .interrupted _ code details
  | .alreadyExists _ code details | .invalidArgument _ code details
  | .permissionDenied _ code details | .resourceExhausted _ code details
  | .inappropriateType _ code details | .noSuchThing _ code details
  | .otherError code details | .resourceBusy code details
  | .resourceVanished code details | .unsupportedOperation code details
  | .hardwareFault code details | .unsatisfiedConstraints code details
  | .illegalOperation code details | .protocolError code details
  | .timeExpired code details => s!"{details} (os error {code})"
  | .unexpectedEof => "unexpected end of file"
  | .userError message => message

/-- What a file operation came to. -/
def attempt {α : Type} (action : IO α) : IO (Except String α) := do
  match ← action.toBaseIO with
  | .ok a => return .ok a
  | .error e => return .error (reason e)

/-- The process as the surroundings of a command. -/
def process : Host IO where
  read path := do
    match ← attempt (IO.FS.withFile path .read IO.FS.Handle.readBinToEnd) with
    | .error why => return .error why
    | .ok bytes => return contents (Text.unpacked bytes)
  write path bytes := attempt (IO.FS.writeBinFile path (Text.packed bytes))
  print := IO.print

end Trampoline.CommandLine

/-- Runs the command that the arguments give. -/
def main (arguments : List String) : IO UInt32 := do
  match Trampoline.CommandLine.Command.read? arguments with
  | none =>
    IO.eprint Trampoline.CommandLine.usage
    return 2
  | some command =>
    match ← command.run Trampoline.CommandLine.process with
    | .ok () => return 0
    | .error failure =>
      IO.eprint (Trampoline.CommandLine.report failure)
      return 1
