import Trampoline.Text.Lines

/-!
# Names of files

A convention that does not name itself is named after its file: the last component of the path,
without what follows its last dot.  A dot at the very start belongs to the name.
-/

set_option autoImplicit false

namespace Trampoline.CommandLine

/-- The last component of a path that names anything. -/
def lastComponent? (path : List Char) : Option (List Char) :=
  match ((Text.splitAll '/' path).filter fun part => part ≠ [] ∧ part ≠ ['.']).getLast? with
  | some ['.', '.'] => none
  | last => last

/-- A name without its last dot and what follows it, unless nothing comes before that. -/
def withoutExtension (name : List Char) : List Char :=
  match Text.cut '.' name.reverse with
  | none | some (_, []) => name
  | some (_, stem) => stem.reverse

/-- The name that a path gives to what is in the file. -/
def stem (path : String) : String :=
  match lastComponent? path.toList with
  | none => path
  | some name => String.ofList (withoutExtension name)

example : withoutExtension "a.b.conv".toList = "a.b".toList := by decide

example : withoutExtension ".conv".toList = ".conv".toList := by decide

example : lastComponent? "dir/./win.conv".toList = some "win.conv".toList := by decide

end Trampoline.CommandLine
