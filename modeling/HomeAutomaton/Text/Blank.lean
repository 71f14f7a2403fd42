import HomeAutomaton.Text.CodePoint

/-!
# Blank characters

A character is blank when Unicode calls it white space, or when it is one of the four information
separators U+001C to U+001F. Attribute texts that hold only blanks count as missing, and texts are
trimmed of blanks on both sides.

* `Text.trim` removes the blanks at both ends, and nothing else.
* `Text.isBlankText` says that nothing is left by `Text.trim`.
-/

namespace HomeAutomaton.Text

/-- The code points of blank characters. -/
def blankRanges : CodeRanges :=
  [(0x09, 0x0D), (0x1C, 0x20), (0x85, 0x85), (0xA0, 0xA0), (0x1680, 0x1680), (0x2000, 0x200A),
   (0x2028, 0x2029), (0x202F, 0x202F), (0x205F, 0x205F), (0x3000, 0x3000)]

/-- Is the character blank? -/
def isBlank (c : Char) : Bool := inRanges blankRanges c.toNat

/-- Is the byte that of a blank of ASCII, separators apart? -/
def isBlankByte (b : UInt8) : Bool := b == 0x20 || (0x09 ≤ b && b ≤ 0x0D)

/-- The text without the blanks it starts with. -/
def trimStart (cs : List Char) : List Char := cs.dropWhile isBlank

/-- The text without the blanks it ends with. -/
def trimEnd (cs : List Char) : List Char := (cs.reverse.dropWhile isBlank).reverse

/-- The characters of a text without the blanks at either end. -/
def trimChars (cs : List Char) : List Char := trimEnd (trimStart cs)

/-- The text without the blanks at either end. -/
def trim (s : String) : String := String.ofList (trimChars s.toList)

/-- Does the text hold nothing but blanks? -/
def isBlankText (s : String) : Bool := s.toList.all isBlank

@[simp] theorem trimChars_nil : trimChars [] = [] := rfl

end HomeAutomaton.Text
