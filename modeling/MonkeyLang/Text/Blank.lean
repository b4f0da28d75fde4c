/-!
# Blanks

The white space of Unicode, and texts without the white space at their ends.

## Main definitions

* `Text.isBlank`: the characters that count as white space
* `Text.trim`: a text without white space at its ends
-/

namespace MonkeyLang.Text

/-- The code points with the Unicode property of white space. -/
def blanks : List Nat :=
  [0x09, 0x0A, 0x0B, 0x0C, 0x0D, 0x20, 0x85, 0xA0, 0x1680, 0x2000, 0x2001, 0x2002, 0x2003, 0x2004,
    0x2005, 0x2006, 0x2007, 0x2008, 0x2009, 0x200A, 0x2028, 0x2029, 0x202F, 0x205F, 0x3000]

/-- Whether a character is white space. -/
def isBlank (c : Char) : Bool := blanks.contains c.toNat

/-- The text without the white space at its front. -/
def trimLeft (text : List Char) : List Char := text.dropWhile isBlank

/-- The text without the white space at its ends. -/
def trim (text : List Char) : List Char := (trimLeft (trimLeft text).reverse).reverse

end MonkeyLang.Text
