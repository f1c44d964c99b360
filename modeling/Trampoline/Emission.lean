import Trampoline.Code
import Trampoline.Draft
import Trampoline.Phase

/-!
# Laying down code

An `Emission` is the code that has been laid down so far.  It keeps count of the bytes, so that the
start of a phase can be noted without encoding anything again.

A draft is laid down piece by piece; nothing is laid down behind a piece that cannot be had, and
what came before it stays.  A draft that can be had is laid down as its instructions
(`write_of_instructions`), and `offset_emitAll` says that the count is right.
-/

set_option autoImplicit false

namespace Trampoline

/-- Code that is being laid down. -/
structure Emission where
  instructions : List Instruction := []
  /-- The number of bytes laid down. -/
  offset : Nat := 0
  marks : List Mark := []

namespace Emission

/-- Lays down one instruction. -/
def emit (e : Emission) (i : Instruction) : Emission :=
  { e with instructions := e.instructions ++ [i], offset := e.offset + i.encode.length }

/-- Lays down instructions in order. -/
def emitAll (e : Emission) (is : List Instruction) : Emission := is.foldl emit e

/-- Lays down a draft, up to the first piece that cannot be had. -/
def write (e : Emission) : Draft → Emission × Option Error
  | [] => (e, none)
  | .error why :: _ => (e, some why)
  | .ok is :: rest => (e.emitAll is).write rest

/-- Notes that a phase starts here. -/
def beginPhase (e : Emission) (p : Phase) : Emission :=
  { e with marks := e.marks ++ [⟨p, e.offset⟩] }

/-- The finished code, if it is not longer than `capacity` bytes, and where its phases start. -/
def finish (e : Emission) (capacity : Nat) : Except Error (Code × List Mark) :=
  (Code.assemble e.instructions capacity).map fun code => (code, e.marks)

@[simp] theorem instructions_emitAll (e : Emission) (is : List Instruction) :
    (e.emitAll is).instructions = e.instructions ++ is := by
  induction is generalizing e with
  | nil => simp [emitAll]
  | cons i rest ih =>
    rw [emitAll, List.foldl_cons, ← emitAll, ih]
    simp [emit]

@[simp] theorem offset_emitAll (e : Emission) (is : List Instruction) :
    (e.emitAll is).offset = e.offset + codeSize is := by
  induction is generalizing e with
  | nil => simp [emitAll]
  | cons i rest ih =>
    rw [emitAll, List.foldl_cons, ← emitAll, ih, codeSize_cons, ← Nat.add_assoc]
    rfl

@[simp] theorem marks_emitAll (e : Emission) (is : List Instruction) :
    (e.emitAll is).marks = e.marks := by
  induction is generalizing e with
  | nil => rfl
  | cons i rest ih => rw [emitAll, List.foldl_cons, ← emitAll, ih, emit]

/-- A draft that can be had is laid down as its instructions. -/
theorem write_of_instructions {e : Emission} {d : Draft} {is : List Instruction}
    (h : d.instructions = .ok is) : e.write d = (e.emitAll is, none) := by
  fun_induction Draft.instructions d generalizing e is with
  | case1 => cases h; rfl
  | case2 => cases h
  | case3 first rest ih =>
    cases hr : Draft.instructions rest with
    | error why => rw [hr] at h; cases h
    | ok more =>
      rw [hr] at h
      cases h
      rw [write, ih hr, emitAll, emitAll, emitAll, List.foldl_append]

end Emission

end Trampoline
