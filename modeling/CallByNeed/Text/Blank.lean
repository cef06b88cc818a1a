import CallByNeed.Text.Ranges

/-!
# Blank characters

The characters with the property `White_Space`: the ASCII controls from tab to carriage return,
the space, and the spaces and line separators of the other scripts.  A newline is blank too; what
separates tokens on one line is any other blank.
-/

namespace CallByNeed.Text

/-- The code points with the property `White_Space`. -/
def blankRanges : Ranges :=
  [(0x9, 0xD), (0x20, 0x20), (0x85, 0x85), (0xA0, 0xA0), (0x1680, 0x1680), (0x2000, 0x200A),
   (0x2028, 0x2029), (0x202F, 0x202F), (0x205F, 0x205F), (0x3000, 0x3000)]

/-- A blank character. -/
def isBlank (c : Char) : Bool :=
  blankRanges.contains c.toNat

/-- A text that holds nothing but blanks. -/
def isBlankText (s : String) : Bool :=
  s.toList.all isBlank

end CallByNeed.Text
