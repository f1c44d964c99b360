import Trampoline.Text.Blank
import Trampoline.Text.Numeral
import Trampoline.Word

/-!
# Registers

A register is a bank and a hardware index.  The index is a whole byte although no machine here has
more than 32 registers in a bank: which registers exist is a property of a target, not of a name,
and a convention may name a register that its target turns out to lack.

A register is written `r5` or `v5`.  Reading is more generous than writing: `x5` and `d5` name the
same two registers, blanks around the name do not matter, and the index may have leading zeros or a
plus sign.

Lists of registers that stand for sets are kept in one order, general registers first and each bank
by index.  `Register.sorted` brings a list into it; since there are only 512 names it does so by
going through all of them, and that it keeps exactly the members (`mem_sorted`) needs no argument
about sorting.
-/

set_option autoImplicit false

namespace Trampoline

/-- The two banks of registers. -/
inductive Bank
  | general
  | vector
  deriving DecidableEq

/-- The hardware index of a register within its bank. -/
abbrev RegIndex := BitVec 8

/-- A physical register. -/
structure Register where
  bank : Bank
  index : RegIndex
  deriving DecidableEq

/-- The letter that a bank's registers are written with. -/
def Bank.letter : Bank → Char
  | .general => 'r'
  | .vector => 'v'

/-- The bank that a letter names; either bank has two. -/
def Bank.ofLetter? : Char → Option Bank
  | 'r' | 'x' => some .general
  | 'v' | 'd' => some .vector
  | _ => none

@[simp] theorem Bank.ofLetter?_letter (b : Bank) : Bank.ofLetter? b.letter = some b := by
  cases b <;> rfl

namespace Register

/-- The general register with this index. -/
abbrev general (index : RegIndex) : Register := ⟨.general, index⟩

/-- The vector register with this index. -/
abbrev vector (index : RegIndex) : Register := ⟨.vector, index⟩

/-- Whether the register is a general one. -/
def isGeneral (r : Register) : Bool := r.bank = .general

/-! ## Written form -/

/-- The bank's letter and the index in decimal. -/
def chars (r : Register) : List Char := r.bank.letter :: Nat.toDigits 10 r.index.toNat

instance : ToString Register := ⟨fun r => String.ofList r.chars⟩

/-- The register that a text names, if it names one. -/
def ofChars? (text : List Char) : Option Register :=
  match Text.trim text with
  | [] => none
  | letter :: digits =>
    match Text.readNumeral 10 256 digits, Bank.ofLetter? letter with
    | .ok index, some bank => some ⟨bank, BitVec.ofNat 8 index⟩
    | _, _ => none

example : ofChars? " x+07 ".toList = some (general 7) := by decide

example : ofChars? "v256".toList = none ∧ ofChars? "q1".toList = none := by decide

/-! ## Order -/

/-- The registers of one bank with the indices from `first` on, `count` of them. -/
def span (bank : Bank) (first count : Nat) : List Register :=
  (List.range' first count).map fun i => ⟨bank, BitVec.ofNat 8 i⟩

/-- Every name of a register, in order. -/
def all : List Register := span .general 0 256 ++ span .vector 0 256

theorem mem_all (r : Register) : r ∈ all := by
  obtain ⟨bank, index⟩ := r
  have h := index.isLt
  cases bank
  · refine List.mem_append_left _ (List.mem_map.mpr ⟨index.toNat, ?_, ?_⟩)
    · simpa [List.mem_range'] using h
    · simp
  · refine List.mem_append_right _ (List.mem_map.mpr ⟨index.toNat, ?_, ?_⟩)
    · simpa [List.mem_range'] using h
    · simp

/-- The members of a list in order, each of them once. -/
def sorted (rs : List Register) : List Register := all.filter rs.contains

@[simp] theorem mem_sorted {r : Register} {rs : List Register} : r ∈ sorted rs ↔ r ∈ rs := by
  simp [sorted, mem_all]

end Register

end Trampoline
