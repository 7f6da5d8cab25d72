import ProtocolGraph.Text.CodeRange

/-!
# Blank characters

`isBlank` is the White_Space property of the character database: the characters that separate
words and are otherwise skipped. The information separators `U+001C` to `U+001F` and the
zero-width space `U+200B` do not have it.
-/

namespace ProtocolGraph.Text

/-- The runs of code points with the White_Space property. -/
def blankRanges : List CodeRange :=
  [⟨0x9, 0xD⟩, ⟨0x20, 0x20⟩, ⟨0x85, 0x85⟩, ⟨0xA0, 0xA0⟩, ⟨0x1680, 0x1680⟩, ⟨0x2000, 0x200A⟩,
   ⟨0x2028, 0x2029⟩, ⟨0x202F, 0x202F⟩, ⟨0x205F, 0x205F⟩, ⟨0x3000, 0x3000⟩]

/-- The character separates words. -/
def isBlank (c : Char) : Bool :=
  blankRanges.any (·.contains c.toNat)

@[simp] theorem isBlank_space : isBlank ' ' = true := by decide

end ProtocolGraph.Text
