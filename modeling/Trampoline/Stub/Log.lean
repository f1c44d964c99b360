import Trampoline.Stub

/-!
# The log of a generation

On request, generating a stub leaves two entries in a log: the argument shuffle as soon as it is
known, and the finished stub.  The first is there even if the stub is never finished.

An entry goes to a terminal, so characters that a terminal might obey are written out.
-/

set_option autoImplicit false

namespace Trampoline

/-- What is to be logged. -/
structure LogFlags where
  shuffle : Bool := false
  stub : Bool := false

namespace Log

/-- A character of an entry; those that start or are terminal commands are spelled. -/
def escape (c : Char) : List Char :=
  let n := c.toNat
  if n = 0x07 ∨ n = 0x08 ∨ n = 0x0C ∨ n = 0x1B ∨ n = 0x7F then
    ['\\', 'x', Nat.digitChar (n / 16), Nat.digitChar (n % 16)]
  else if 0x80 ≤ n ∧ n ≤ 0x9F then
    ['\\', 'u', '\x7b', Nat.digitChar (n / 16), Nat.digitChar (n % 16), '\x7d']
  else [c]

/-- An entry, behind where the time of the day goes. -/
def entry (message : String) : String :=
  " INFO upcall_stub::upcall: " ++ String.ofList (message.toList.flatMap escape) ++ "\n"

end Log

/-- What generating a stub leaves in the log. -/
def Request.log (r : Request) (flags : LogFlags) (capacity : Nat) : List String :=
  match r.blueprint with
  | .error _ => []
  | .ok b =>
    let planned := if flags.shuffle then [Log.entry b.shuffle.text] else []
    match b.build capacity with
    | .error _ => planned
    | .ok stub => planned ++ if flags.stub then [Log.entry stub.text] else []

end Trampoline
