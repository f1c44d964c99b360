/-!
# Bytes, words and vectors

Four widths are all there is: memory is made of bytes, general registers and addresses are words of
64 bits, vector registers hold 128, and an instruction carries signed immediates of 32.  They are
bit vectors, so arithmetic on addresses wraps as it does on the machine.

* `littleEndian` writes a number as bytes, least significant first, and `ofLittleEndian` reads it
  back.
* `Imm.ofInt?` narrows an offset to an immediate, and refuses one that does not fit.
-/

set_option autoImplicit false

namespace Trampoline

/-- One byte of memory or code. -/
abbrev Byte := BitVec 8

/-- The content of a general register, or an address. -/
abbrev Word := BitVec 64

/-- The content of a whole vector register. -/
abbrev Quad := BitVec 128

/-- A signed immediate operand, in two's complement. -/
abbrev Imm := BitVec 32

/-- One more than the greatest word. -/
def wordLimit : Nat := 0x10000000000000000

/-! ## Little-endian bytes -/

/-- The `n` low bytes of `v`, least significant first. -/
def littleEndian : Nat → Nat → List Byte
  | 0, _ => []
  | n + 1, v => BitVec.ofNat 8 v :: littleEndian n (v / 256)

/-- The number that little-endian bytes stand for. -/
def ofLittleEndian : List Byte → Nat
  | [] => 0
  | b :: rest => b.toNat + 256 * ofLittleEndian rest

@[simp] theorem length_littleEndian (n v : Nat) : (littleEndian n v).length = n := by
  induction n generalizing v with
  | zero => rfl
  | succ n ih => simp [littleEndian, ih]

/-- Written and read back, a number is cut to the bytes that there are. -/
theorem ofLittleEndian_littleEndian (n v : Nat) :
    ofLittleEndian (littleEndian n v) = (BitVec.ofNat (8 * n) v).toNat := by
  rw [BitVec.toNat_ofNat, Nat.pow_mul]
  change _ = v % 256 ^ n
  induction n generalizing v with
  | zero => simp [littleEndian, ofLittleEndian, Nat.mod_one]
  | succ n ih =>
    rw [littleEndian, ofLittleEndian, ih, BitVec.toNat_ofNat, Nat.pow_succ 256 n,
      Nat.mul_comm (256 ^ n), Nat.mod_mul]

/-! ## Immediates -/

/-- The immediate for `n`, or `none` if `n` is not a signed 32-bit number. -/
def Imm.ofInt? (n : Int) : Option Imm :=
  if -0x80000000 ≤ n ∧ n < 0x80000000 then some (BitVec.ofInt 32 n) else none

theorem Imm.toInt_of_ofInt? {n : Int} {imm : Imm} (h : Imm.ofInt? n = some imm) :
    imm.toInt = n := by
  unfold Imm.ofInt? at h
  split at h
  · cases h
    rw [BitVec.toInt_ofInt, Int.bmod_def]
    split <;> omega
  · cases h

/-! ## Sizes -/

/-- The sizes of several things, added up. -/
def total {α : Type} (size : α → Nat) (xs : List α) : Nat := xs.foldr (fun x n => size x + n) 0

section

variable {α β : Type} {size : α → Nat} {size' : β → Nat} {x : α} {xs : List α} {ys : List β}

@[simp] theorem total_nil : total size [] = 0 := rfl

@[simp] theorem total_cons : total size (x :: xs) = size x + total size xs := rfl

theorem total_append {zs : List α} : total size (xs ++ zs) = total size xs + total size zs := by
  induction xs with
  | nil => simp
  | cons x rest ih => rw [List.cons_append, total_cons, total_cons, ih, Nat.add_assoc]

/-- Only the sizes count. -/
theorem total_congr (h : xs.map size = ys.map size') : total size xs = total size' ys := by
  have hsum := congrArg (List.foldr (· + ·) 0) h
  rwa [List.foldr_map, List.foldr_map] at hsum

end

/-! ## Written forms -/

/-- A number in hexadecimal, `0x` first, in lower case and without leading zeros. -/
def hex (n : Nat) : String := "0x" ++ String.ofList (Nat.toDigits 16 n)

/-- A number in decimal, with blanks in front up to `width` characters. -/
def padded (width n : Nat) : String :=
  let digits := Nat.toDigits 10 n
  String.ofList (List.replicate (width - digits.length) ' ' ++ digits)

end Trampoline
