import Trampoline.Word

/-!
# Methods and receivers

The method that a stub calls is known by the address of its metadata.  Inside the metadata is a cell
that holds the method's current entry; when the method is compiled anew, the runtime changes the
cell, so a stub asks for the entry at every call and never keeps it.  A cell therefore has an
identity of its own: two methods may share one, and then they change their entry together.  `Cells`
is the content of all cells there are.

The receiver is known by a `Handle`, the address of a slot that holds the object.  The lowest bit of
a handle is a tag that marks it as weak, and no part of the address.
-/

set_option autoImplicit false

namespace Trampoline

/-! ## Cells -/

/-- The identity of a cell. -/
abbrev CellId := Nat

/-- The entries that all cells hold. -/
structure Cells where
  entries : List Word := []
  deriving DecidableEq

namespace Cells

/-- A new cell that holds `entry`. -/
def alloc (cells : Cells) (entry : Word) : CellId × Cells :=
  (cells.entries.length, ⟨cells.entries ++ [entry]⟩)

/-- The entry that a cell holds now. -/
def load (cells : Cells) (cell : CellId) : Word := cells.entries.getD cell 0

/-- Makes a cell hold another entry. -/
def retarget (cells : Cells) (cell : CellId) (entry : Word) : Cells :=
  ⟨cells.entries.set cell entry⟩

theorem load_alloc (cells : Cells) (entry : Word) :
    (cells.alloc entry).2.load (cells.alloc entry).1 = entry := by
  simp [alloc, load]

theorem load_retarget {cells : Cells} {cell : CellId} (h : cell < cells.entries.length)
    (entry : Word) : (cells.retarget cell entry).load cell = entry := by
  simp [retarget, load, h]

theorem load_retarget_of_ne (cells : Cells) {cell other : CellId} (h : other ≠ cell)
    (entry : Word) : (cells.retarget cell entry).load other = cells.load other := by
  simp [retarget, load, Ne.symm h]

end Cells

/-! ## Methods -/

/-- The distance from a method's metadata to the cell in it. -/
def cellOffset : Imm := 0x30

/-- A managed method. -/
structure Method where
  name : String
  metadata : Word
  cell : CellId
  deriving DecidableEq

/-- The address of the method's cell. -/
def Method.cellAddress (m : Method) : Word := m.metadata + cellOffset.signExtend 64

/-! ## Receivers -/

/-- The bit that marks a handle as weak. -/
def weakTag : Word := 1

/-- A reference to an object by the slot that holds it. -/
structure Handle where
  raw : Word
  deriving DecidableEq

namespace Handle

/-- The weak handle for a slot. -/
def weak (raw : Word) : Handle := ⟨raw ||| weakTag⟩

variable (h : Handle)

/-- Whether the handle is tagged as weak. -/
def isWeak : Bool := h.raw &&& weakTag ≠ 0

/-- The address of the slot. -/
def slot : Word := h.raw &&& ~~~weakTag

/-- The slot's address, and a mark on a weak handle. -/
def text : String := hex h.slot.toNat ++ if h.isWeak then " (weak)" else ""

theorem isWeak_weak (raw : Word) : (weak raw).isWeak = true := by
  have h : (raw ||| weakTag) &&& weakTag = weakTag := by
    ext i hi
    simp only [BitVec.getElem_and, BitVec.getElem_or]
    cases raw[i] <;> simp
  simp only [isWeak, weak, h]
  decide

theorem slot_weak (raw : Word) : (weak raw).slot = (Handle.mk raw).slot := by
  ext i hi
  simp only [slot, weak, BitVec.getElem_and, BitVec.getElem_or, BitVec.getElem_not]
  cases raw[i] <;> simp

end Handle

end Trampoline
