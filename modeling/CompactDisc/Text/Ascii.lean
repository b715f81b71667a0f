/-!
# CompactDisc.Text.Ascii

**Fixed texts in binary formats**, one byte for each plain character.
-/

namespace CompactDisc.Text

/-- The bytes of a text of plain characters. -/
def ascii (text : String) : List UInt8 := text.toList.map fun c => UInt8.ofNat c.toNat

@[simp] theorem length_ascii (text : String) : (ascii text).length = text.length := by
  simp [ascii, String.length_toList]

end CompactDisc.Text
