import HashtagIndex.Text.Basic

/-!
# `HashtagIndex.Text.Blank` — blank characters and trimming

The blank characters are the ASCII controls from tab to carriage return and from file separator to
unit separator, the space, the next-line control, and the Unicode space, line and paragraph
separators. Zero-width characters and the byte order mark are not blank.
-/

namespace HashtagIndex

/-- The ranges of blank characters. -/
def blankRanges : List (Nat × Nat) :=
  [(0x9, 0xD), (0x1C, 0x20), (0x85, 0x85), (0xA0, 0xA0), (0x1680, 0x1680), (0x2000, 0x200A),
  (0x2028, 0x2029), (0x202F, 0x202F), (0x205F, 0x205F), (0x3000, 0x3000)]

/-- Whether a character is blank. -/
def isBlank (c : Char) : Bool := inRanges blankRanges c.toNat

/-- Text without the blanks at either end. -/
def Text.trim (t : Text) : Text :=
  ((t.dropWhile isBlank).reverse.dropWhile isBlank).reverse

example : Text.trim ['\u3000', ' ', 'a', ' ', 'b', '\n'] = ['a', ' ', 'b'] := by decide

end HashtagIndex
