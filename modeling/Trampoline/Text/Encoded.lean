import Trampoline.Word

/-!
# Texts as bytes

A file holds bytes, and a text is in it as its UTF-8 encoding.  Bytes that encode no text have no
decoding (`decode?`); those that `encode` writes decode to the text (`decode?_encode`).
-/

set_option autoImplicit false

namespace Trampoline.Text

/-- Bytes as an array. -/
def packed (bytes : List Byte) : ByteArray := ⟨(bytes.map UInt8.ofBitVec).toArray⟩

/-- The bytes of an array. -/
def unpacked (bytes : ByteArray) : List Byte := bytes.data.toList.map UInt8.toBitVec

theorem packed_unpacked (bytes : ByteArray) : packed (unpacked bytes) = bytes := by
  simp [packed, unpacked, Function.comp_def]

/-- The bytes of a text. -/
def encode (text : String) : List Byte := unpacked text.toUTF8

/-- The text that bytes encode, if there is one. -/
def decode? (bytes : List Byte) : Option String := String.fromUTF8? (packed bytes)

theorem decode?_encode (text : String) : decode? (encode text) = some text := by
  rw [decode?, encode, packed_unpacked]
  simp only [String.fromUTF8?, String.toUTF8_eq_toByteArray, dif_pos text.isValidUTF8]
  rfl

end Trampoline.Text
