/-!
# Encoded text

Bytes as text. Text is encoded in UTF-8; bytes that are no text are read as the characters among
them, each byte that belongs to no character standing for itself.
-/

namespace Runbook.Text

/-- A character, or nothing for a byte that belongs to no character. -/
abbrev Symbol := Option Char

/-- The symbols of some bytes from a position on. -/
def symbolsFrom (bytes : ByteArray) (i : Nat) : List Symbol :=
  if i < bytes.size then
    match bytes.utf8DecodeChar? i with
    | some c => some c :: symbolsFrom bytes (i + c.utf8Size)
    | none => none :: symbolsFrom bytes (i + 1)
  else []
termination_by bytes.size - i
decreasing_by
  · have := c.utf8Size_pos; omega
  · omega

/-- The symbols of some bytes: the characters of the text they encode, if they do. -/
def symbols (bytes : ByteArray) : List Symbol :=
  match String.fromUTF8? bytes with
  | some text => text.toList.map some
  | none => symbolsFrom bytes 0

/-- The bytes of a text encode it. -/
@[simp]
theorem fromUTF8?_toByteArray (text : String) :
    String.fromUTF8? text.toByteArray = some text := by
  simp only [String.fromUTF8?, text.isValidUTF8]
  rfl

/-- The symbols of an encoded text are its characters. -/
@[simp]
theorem symbols_toByteArray (text : String) :
    symbols text.toByteArray = text.toList.map some := by
  simp [symbols]

end Runbook.Text
