import Trampoline.Word

/-!
# Numbers of variable length

A number below 2³² takes one to five bytes.  The one bits at the top of the first byte say how many
bytes follow; the rest of that byte is the most significant part of the number, and the bytes that
follow are the rest of it, least significant first.  With `l` bytes behind it the first byte has
`7 - l` bits for the number, `7 * (l + 1)` altogether, and as few bytes as possible are used.

`encode` writes a number and `decode?` reads one.  Reading does not insist on the fewest bytes.
-/

set_option autoImplicit false

namespace Trampoline.VarInt

/-- The number of bytes behind the first one. -/
def trailing (value : Nat) : Nat :=
  if value < 0x80 then 0
  else if value < 0x4000 then 1
  else if value < 0x200000 then 2
  else if value < 0x10000000 then 3
  else 4

/-- The first byte: `l` one bits, a zero, and the bits of the number from the byte `l` on. -/
def head (l value : Nat) : Byte := BitVec.ofNat 8 (0x100 - 1 <<< (8 - l) + value >>> (8 * l))

/-- The bytes of a number. -/
def encode (value : BitVec 32) : List Byte :=
  let l := trailing value.toNat
  head l value.toNat :: littleEndian l value.toNat

/-- How many of the bits at the top of a byte are ones, up to the first that is not. -/
def leadingOnes (b : Byte) : Nat := ((List.range 8).takeWhile b.getMsbD).length

/-- A number and what is behind it. -/
def decode? : List Byte → Option (Nat × List Byte)
  | [] => none
  | b :: rest =>
    let l := leadingOnes b
    if l ≤ rest.length then
      let high := b.toNat % (1 <<< (7 - l))
      some (high <<< (8 * l) + ofLittleEndian (rest.take l), rest.drop l)
    else none

example : encode 127 = [127] ∧ encode 128 = [0x80, 0x80] := by decide

example : encode 300 = [0x81, 0x2c] ∧ encode 16384 = [0xc0, 0x00, 0x40] := by decide

example : decode? [0x81, 0x2c, 0x05] = some (300, [0x05]) := by decide

example : decode? (encode 0xffffffff) = some (0xffffffff, []) := by decide

end Trampoline.VarInt
