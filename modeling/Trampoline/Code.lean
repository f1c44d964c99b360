import Trampoline.Error
import Trampoline.Instruction.Encoding

/-!
# Code

Code is a list of instructions that lie one behind the other.  Where each of them starts follows
from their sizes; a comment takes no room, so it starts where the next instruction does.

* `Code.assemble` accepts instructions up to a number of bytes.
* `Code.offsets` are the starts, `Code.offset?` is one of them, and `Code.startingAt?` goes back
  from a byte to the instruction that starts there, past any comments.
-/

set_option autoImplicit false

namespace Trampoline

/-- The bytes that instructions take together. -/
def codeSize (is : List Instruction) : Nat := total Instruction.size is

@[simp] theorem codeSize_nil : codeSize [] = 0 := rfl

@[simp] theorem codeSize_cons (i : Instruction) (is : List Instruction) :
    codeSize (i :: is) = i.size + codeSize is := rfl

@[simp] theorem codeSize_append (is js : List Instruction) :
    codeSize (is ++ js) = codeSize is + codeSize js :=
  total_append

/-- Instructions in their place. -/
structure Code where
  instructions : List Instruction
  deriving DecidableEq

namespace Code

/-- The code made of the instructions, if it is not longer than `capacity` bytes. -/
def assemble (instructions : List Instruction) (capacity : Nat) : Except Error Code :=
  if codeSize instructions ≤ capacity then .ok ⟨instructions⟩
  else .error (.codeTooLong (codeSize instructions) capacity)

/-- The start of each instruction, if the first one starts at `start`. -/
def offsetsFrom : Nat → List Instruction → List Nat
  | _, [] => []
  | start, i :: rest => start :: offsetsFrom (start + i.size) rest

theorem length_offsetsFrom (start : Nat) (is : List Instruction) :
    (offsetsFrom start is).length = is.length := by
  induction is generalizing start with
  | nil => rfl
  | cons i rest ih => simp [offsetsFrom, ih]

/-- An instruction starts where those before it end. -/
theorem getElem?_offsetsFrom {start n : Nat} {is : List Instruction} (h : n < is.length) :
    (offsetsFrom start is)[n]? = some (start + codeSize (is.take n)) := by
  induction is generalizing start n with
  | nil => simp at h
  | cons i rest ih =>
    cases n with
    | zero => simp [offsetsFrom]
    | succ n =>
      have hn : n < rest.length := by simpa using h
      simp [offsetsFrom, ih hn, Nat.add_assoc]

variable (code : Code)

/-- The bytes of the code. -/
def bytes : List Byte := code.instructions.flatMap Instruction.encode

/-- The number of bytes. -/
def size : Nat := codeSize code.instructions

theorem length_bytes : code.bytes.length = code.size := by
  unfold bytes size
  induction code.instructions with
  | nil => rfl
  | cons i rest ih => rw [List.flatMap_cons, List.length_append, ih, codeSize_cons]; rfl

/-- The start of each instruction. -/
def offsets : List Nat := offsetsFrom 0 code.instructions

/-- The byte at which an instruction starts. -/
def offset? (index : Nat) : Option Nat := code.offsets[index]?

theorem offset?_of_lt {index : Nat} (h : index < code.instructions.length) :
    code.offset? index = some (codeSize (code.instructions.take index)) := by
  rw [offset?, offsets, getElem?_offsetsFrom h, Nat.zero_add]

/-- Each instruction with its start. -/
def placed : List (Nat × Instruction) := code.offsets.zip code.instructions

/-- The instruction, other than a comment, that starts at a byte. -/
def startingAt? (offset : Nat) : Option Nat :=
  code.placed.findIdx? fun (start, i) => start = offset && !i.isComment

/-- The instructions, comments among them, that start at a byte from `first` on and before
`last`. -/
def between (first last : Nat) : List Instruction :=
  (code.placed.filter fun (start, _) => first ≤ start && start < last).map Prod.snd

/-- A line for each instruction, with its start in front. -/
def listing : String :=
  String.join (code.placed.map fun (start, i) => s!"{padded 5 start}: {i}\n")

end Code

end Trampoline
