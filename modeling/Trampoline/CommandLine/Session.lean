import Trampoline.CommandLine.FileTree
import Trampoline.CommandLine.Run

/-!
# Sessions

A command run on a tree of files instead of the process's own: what it reads is looked up in the
tree, what it writes is put there, and what it prints is kept.  So a run is a function from one
session to the next (`Session.run`).
-/

set_option autoImplicit false

namespace Trampoline.CommandLine

/-- The files that commands run on, and what they have printed so far. -/
structure Session where
  files : FileTree
  printed : String

namespace Session

/-- The directory in which a session takes place. -/
def workplace : Place := ["work".toList, "tmp".toList]

/-- The tree of an empty session: the null device is all that there is beside the workplace. -/
def bare : FileTree :=
  let t : FileTree := ⟨[], workplace⟩
  (t.addDirectories workplace).add ["null".toList, "dev".toList] .sink

/-- A session in a directory that holds nothing but these texts by these names. -/
def ofFiles (files : List (String × String)) : Session where
  files := files.foldl
    (fun t (name, text) =>
      let names := (Text.splitAll '/' name.toList).filter (· ≠ [])
      t.add (names.reverse ++ workplace) (.file (Text.encode text))) bare
  printed := ""

/-- The bytes that a path reads. -/
def find? (s : Session) (path : String) : Option (List Byte) :=
  (s.files.read path.toList).toOption

/-- The session as the surroundings of a command. -/
def host : Host (StateM Session) where
  read path := do
    match (← get).files.read path.toList with
    | .error fault => return .error fault.message
    | .ok bytes => return contents bytes
  write path bytes := do
    match (← get).files.write path.toList bytes with
    | .error fault => return .error fault.message
    | .ok files =>
      modify fun s => { s with files }
      return .ok ()
  print text := modify fun s => { s with printed := s.printed ++ text }

/-- How a command ends, and the session after it. -/
def run (s : Session) (command : Command) : Except Failure Unit × Session :=
  StateT.run (command.run host) s

end Session

end Trampoline.CommandLine
