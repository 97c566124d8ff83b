/-!
# Blank characters

The white space of Unicode together with the four information separators, and the removal of blank
characters from the ends of a text.
-/

namespace MoveBytecode.Text

/-- White space: the controls that move the position, the information separators, the spaces and
the line and paragraph separators. A zero-width space is none of these. -/
def isBlank (c : Char) : Bool :=
  let n := c.toNat
  (0x09 ≤ n && n ≤ 0x0D) || (0x1C ≤ n && n ≤ 0x20) || n == 0x85 || n == 0xA0 || n == 0x1680 ||
    (0x2000 ≤ n && n ≤ 0x200A) || n == 0x2028 || n == 0x2029 || n == 0x202F || n == 0x205F ||
    n == 0x3000

/-- The characters after the leading blank ones. -/
def dropBlank (text : List Char) : List Char :=
  text.dropWhile isBlank

/-- The characters up to the last that is not blank. -/
def dropBlankEnd (text : List Char) : List Char :=
  (dropBlank text.reverse).reverse

/-- A text without its leading and trailing blank characters. -/
def trim (text : String) : String :=
  String.ofList (dropBlankEnd (dropBlank text.toList))

end MoveBytecode.Text
