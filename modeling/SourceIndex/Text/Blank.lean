import SourceIndex.Text.Ranges
/-!
# Blank characters

Text is trimmed, and tested for content, against one fixed set of 29 blank characters: the white
space of Unicode and the four information separators.
-/

namespace SourceIndex.Text

def blankRanges : Ranges :=
  [(0x09, 0x0D), (0x1C, 0x20), (0x85, 0x85), (0xA0, 0xA0), (0x1680, 0x1680), (0x2000, 0x200A),
   (0x2028, 0x2029), (0x202F, 0x202F), (0x205F, 0x205F), (0x3000, 0x3000)]

def isBlankChar (c : Char) : Bool := blankRanges.has c.toNat

def isBlank (s : String) : Bool := s.toList.all isBlankChar

def trimChars (cs : List Char) : List Char :=
  ((cs.dropWhile isBlankChar).reverse.dropWhile isBlankChar).reverse

def trim (s : String) : String := String.ofList (trimChars s.toList)

end SourceIndex.Text
