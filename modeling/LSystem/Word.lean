namespace LSystem

/-- A symbol is one byte. -/
abbrev Symbol := UInt8

abbrev Word := List Symbol

def Symbol.ofChar (c : Char) : Symbol := c.toUInt8

/-- Only the low byte of each character counts, so the text should be ASCII. -/
def Word.ofText (text : String) : Word := text.toList.map Symbol.ofChar

@[simp] theorem Word.length_ofText (text : String) :
    (Word.ofText text).length = text.toList.length := by
  simp [Word.ofText]

end LSystem
