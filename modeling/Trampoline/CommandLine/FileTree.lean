import Trampoline.Text.Lines
import Trampoline.Word

/-!
# Trees of files

Directories and files as a value, and what a path leads to among them.  A path is walked name by
name, from the root if it begins with a slash and else from the tree's own starting point.  Every
name on the way must be that of a directory; one dot stays where it is, two dots go up, and the
root is its own parent.

## What is here

* `Route` — a path taken apart.  The last name is kept apart from the way to it, since what is
  asked of it depends on what the path is opened for; dots at the end belong to the way, so such a
  path always ends at a directory.
* `FileTree.walk` — the directory at the end of a way, or the reason why there is none.
* `FileTree.read` and `FileTree.write` — what opening a path comes to.  A slash at the end asks for
  a directory, so a path that has one is no file's in either case, but for different reasons.
* `FileTree.read_of_write` — what is written to a path is what the path reads, a sink apart.
-/

set_option autoImplicit false

namespace Trampoline.CommandLine

/-! ## Paths -/

/-- Why a path leads to no file. -/
inductive PathFault
  | missing
  | notDirectory
  | isDirectory
  | nameTooLong
  deriving DecidableEq

/-- The reason in words. -/
def PathFault.message : PathFault → String
  | missing => "No such file or directory (os error 2)"
  | notDirectory => "Not a directory (os error 20)"
  | isDirectory => "Is a directory (os error 21)"
  | nameTooLong => "File name too long (os error 36)"

/-- A path taken apart: the names on the way, the last one unless the path ends in dots or at the
root, and whether a slash follows it. -/
structure Route where
  absolute : Bool
  way : List (List Char)
  last : Option (List Char)
  slash : Bool
  deriving DecidableEq

/-- The number of bytes in the encoding of a text. -/
def encodedLength (text : List Char) : Nat := total Char.utf8Size text

/-- A path takes fewer bytes than this, and a name no more than `longestName`. -/
def pathLimit : Nat := 4096

/-- The number of bytes in the longest name that a directory can hold. -/
def longestName : Nat := 255

/-- Takes a path apart.  The empty path leads nowhere. -/
def Route.ofPath (path : List Char) : Except PathFault Route :=
  if path = [] then .error .missing
  else if pathLimit ≤ encodedLength path then .error .nameTooLong
  else
    let names := (Text.splitAll '/' path).filter (· ≠ [])
    let absolute := path.head? = some '/'
    match names.getLast? with
    | none | some ['.'] | some ['.', '.'] => .ok ⟨absolute, names, none, false⟩
    | some name => .ok ⟨absolute, names.dropLast, name, path.getLast? = some '/'⟩

example : Route.ofPath "/a//b/".toList = .ok ⟨true, [['a']], some ['b'], true⟩ := rfl

example : Route.ofPath "a/..".toList = .ok ⟨false, [['a'], ['.', '.']], none, false⟩ := rfl

/-! ## The tree -/

/-- What can be at a place in a tree.  A sink takes everything that is written to it and holds
nothing. -/
inductive Entry
  | directory
  | file (bytes : List Byte)
  | sink
  deriving DecidableEq

/-- The bytes that an entry holds, unless it is a directory. -/
def Entry.bytes? : Entry → Option (List Byte)
  | directory => none
  | file bytes => some bytes
  | sink => some []

/-- A place in a tree: the names that lead to it, the innermost first. -/
abbrev Place := List (List Char)

/-- Directories and files.  Of two entries for a place the first one counts. -/
structure FileTree where
  entries : List (Place × Entry)
  start : Place

namespace FileTree

/-- What is at a place.  The root is always there. -/
def find? (t : FileTree) : Place → Option Entry
  | [] => some .directory
  | place => t.entries.lookup place

/-- The tree with something else at a place. -/
def put (t : FileTree) (place : Place) (e : Entry) : FileTree :=
  { t with entries := (place, e) :: t.entries }

theorem find?_put_self (t : FileTree) (name : List Char) (place : Place) (e : Entry) :
    (t.put (name :: place) e).find? (name :: place) = some e := by
  simp [put, find?]

theorem find?_put_of_ne (t : FileTree) {p q : Place} (e : Entry) (h : q ≠ p) :
    (t.put p e).find? q = t.find? q := by
  cases q with
  | nil => rfl
  | cons name place =>
    have hne : (name :: place == p) = false := beq_eq_false_iff_ne.mpr h
    simp [put, find?, List.lookup_cons, hne]

/-- The tree with directories at a place and on the way to it. -/
def addDirectories (t : FileTree) : Place → FileTree
  | [] => t
  | name :: place => (t.addDirectories place).put (name :: place) .directory

/-- The tree with something at a place, and with directories on the way to it. -/
def add (t : FileTree) (place : Place) (e : Entry) : FileTree :=
  (t.addDirectories place.tail).put place e

/-! ## Walking -/

/-- What a directory holds by a name. -/
def lookUp (t : FileTree) (place : Place) (name : List Char) : Except PathFault (Option Entry) :=
  if longestName < encodedLength name then .error .nameTooLong
  else .ok (t.find? (name :: place))

theorem lookUp_put_of_ne (t : FileTree) {place q : Place} {name : List Char} (e : Entry)
    (h : name :: place ≠ q) : (t.put q e).lookUp place name = t.lookUp place name := by
  simp [lookUp, find?_put_of_ne t e h]

/-- The directory to which a name leads from a directory. -/
def enter (t : FileTree) (place : Place) (name : List Char) : Except PathFault Place :=
  if name = ['.'] then .ok place
  else if name = ['.', '.'] then .ok place.tail
  else
    match t.lookUp place name with
    | .error fault => .error fault
    | .ok (some .directory) => .ok (name :: place)
    | .ok (some _) => .error .notDirectory
    | .ok none => .error .missing

/-- The directory to which names lead, one after the other. -/
def walk (t : FileTree) (place : Place) (way : List (List Char)) : Except PathFault Place :=
  way.foldlM t.enter place

/-- The last name of a path and the directory in which it is to be looked up. -/
structure Spot where
  place : Place
  name : List Char
  slash : Bool

/-- Where a path ends.  A path without a last name ends at a directory. -/
def locate (t : FileTree) (path : List Char) : Except PathFault Spot := do
  let route ← Route.ofPath path
  let place ← t.walk (if route.absolute then [] else t.start) route.way
  match route.last with
  | none => throw .isDirectory
  | some name => return ⟨place, name, route.slash⟩

/-! ## Reading and writing -/

/-- The bytes at the end of a path. -/
def readAt (t : FileTree) (spot : Spot) : Except PathFault (List Byte) :=
  match t.lookUp spot.place spot.name with
  | .error fault => .error fault
  | .ok none => .error .missing
  | .ok (some e) =>
    match e.bytes? with
    | none => .error .isDirectory
    | some bytes => if spot.slash then .error .notDirectory else .ok bytes

/-- The tree with a file at the end of a path, be it a new one or not, unless a sink is there.  The
slash is looked at before the name in front of it. -/
def writeAt (t : FileTree) (spot : Spot) (bytes : List Byte) : Except PathFault FileTree :=
  if spot.slash then .error .isDirectory
  else
    match t.lookUp spot.place spot.name with
    | .error fault => .error fault
    | .ok (some .directory) => .error .isDirectory
    | .ok (some .sink) => .ok t
    | .ok (some (.file _)) | .ok none => .ok (t.put (spot.name :: spot.place) (.file bytes))

/-- What a path reads. -/
def read (t : FileTree) (path : List Char) : Except PathFault (List Byte) := do
  t.readAt (← t.locate path)

/-- The tree after bytes have been written to a path. -/
def write (t : FileTree) (path : List Char) (bytes : List Byte) : Except PathFault FileTree := do
  t.writeAt (← t.locate path) bytes

/-! ## Reading what was written -/

theorem lookUp_ok {t : FileTree} {place : Place} {name : List Char} {e : Option Entry}
    (h : t.lookUp place name = .ok e) :
    encodedLength name ≤ longestName ∧ t.find? (name :: place) = e := by
  unfold lookUp at h
  split at h
  · cases h
  · cases h
    exact ⟨by omega, rfl⟩

theorem lookUp_put_self {t : FileTree} {place : Place} {name : List Char} {e : Option Entry}
    (h : t.lookUp place name = .ok e) (f : Entry) :
    (t.put (name :: place) f).lookUp place name = .ok (some f) := by
  simp [lookUp, find?_put_self, Nat.not_lt.mpr (lookUp_ok h).1]

/-- What is put in place of no directory is in nobody's way. -/
theorem enter_put {t : FileTree} {place d q : Place} {name : List Char} {e : Entry}
    (hq : t.find? q ≠ some .directory) (h : t.enter place name = .ok d) :
    (t.put q e).enter place name = .ok d := by
  unfold enter at h ⊢
  split at h
  · simp_all
  · split at h
    · simp_all
    · by_cases heq : name :: place = q
      · subst heq
        split at h
        · cases h
        · rename_i hlook
          exact absurd (lookUp_ok hlook).2 hq
        · cases h
        · cases h
      · simp_all [lookUp_put_of_ne t e heq]

theorem walk_put {t : FileTree} {d q : Place} {e : Entry} (hq : t.find? q ≠ some .directory)
    (way : List (List Char)) (place : Place) (h : t.walk place way = .ok d) :
    (t.put q e).walk place way = .ok d := by
  induction way generalizing place with
  | nil => exact h
  | cons name way ih =>
    simp only [walk, List.foldlM_cons] at h ih ⊢
    cases hstep : t.enter place name with
    | error fault => rw [hstep] at h; cases h
    | ok next =>
      rw [hstep] at h
      rw [enter_put hq hstep]
      exact ih next h

theorem locate_put {t : FileTree} {path : List Char} {spot : Spot} {q : Place} {e : Entry}
    (hq : t.find? q ≠ some .directory) (h : t.locate path = .ok spot) :
    (t.put q e).locate path = .ok spot := by
  unfold locate at h ⊢
  cases hroute : Route.ofPath path with
  | error fault => rw [hroute] at h; cases h
  | ok route =>
    rw [hroute] at h
    cases hwalk : t.walk (if route.absolute then [] else t.start) route.way with
    | error fault => simp [bind, Except.bind, hwalk] at h
    | ok place =>
      have hput := walk_put (e := e) hq route.way _ hwalk
      simp only [bind, Except.bind, hwalk] at h
      simp only [bind, Except.bind, put] at hput ⊢
      rw [hput]
      exact h

theorem readAt_put {t : FileTree} {spot : Spot} {e : Option Entry} (hslash : spot.slash = false)
    (h : t.lookUp spot.place spot.name = .ok e) (bytes : List Byte) :
    (t.put (spot.name :: spot.place) (.file bytes)).readAt spot = .ok bytes := by
  simp [readAt, lookUp_put_self h, Entry.bytes?, hslash]

/-- **What is written to a path is what the path reads.**  A path that leads to a sink reads
nothing, and writing to it changes nothing. -/
theorem read_of_write {t u : FileTree} {path : List Char} {bytes : List Byte}
    (h : t.write path bytes = .ok u) :
    u.read path = .ok bytes ∨ u = t ∧ u.read path = .ok [] := by
  unfold write at h
  cases hspot : t.locate path with
  | error fault => rw [hspot] at h; cases h
  | ok spot =>
    rw [hspot] at h
    change t.writeAt spot bytes = .ok u at h
    unfold writeAt at h
    split at h
    · cases h
    · rename_i hslash
      have hslash : spot.slash = false := by simpa using hslash
      split at h <;> cases h <;> rename_i hlook
      · refine .inr ⟨rfl, ?_⟩
        simp [read, hspot, bind, Except.bind, readAt, hlook, Entry.bytes?, hslash]
      all_goals
        have hq : t.find? (spot.name :: spot.place) ≠ some .directory := by
          simp [(lookUp_ok hlook).2]
        rw [read, locate_put hq hspot]
        exact .inl (readAt_put hslash hlook bytes)

/-! ## Slashes and dots at the end -/

example (t : FileTree) (spot : Spot) (h : spot.slash = true) (bytes : List Byte) :
    t.writeAt spot bytes = .error .isDirectory := if_pos h

example :
    let t := add ⟨[], []⟩ [['f'], ['d']] (.file [])
    t.read "d/../d/./f".toList = .ok [] ∧ t.read "f".toList = .error .missing ∧
      t.read "d/f/".toList = .error .notDirectory ∧ t.read "d/f/.".toList = .error .notDirectory ∧
      t.read "d/.".toList = .error .isDirectory ∧ t.read "e/.".toList = .error .missing :=
  ⟨rfl, rfl, rfl, rfl, rfl, rfl⟩

end FileTree

end Trampoline.CommandLine
