import MonkeyLang.Text.Hex

/-!
# ASCII strings of JSON

A text is written as a JSON string that holds ASCII characters only.  The quote, the backslash
and the control characters are escaped as JSON demands, five of them by a letter.  A character
outside ASCII is written as the four-digit escapes of its UTF-16 code units, so a character
beyond the basic plane takes two escapes.

## Main definitions

* `Text.units16`: the UTF-16 code units of a character
* `Text.Json.escape`, `Text.Json.string`: a character and a text, as written in JSON
-/

namespace MonkeyLang.Text

/-- The UTF-16 code units of a character: one in the basic plane, a surrogate pair beyond it. -/
def units16 (c : Char) : List Nat :=
  if c.toNat < 0x10000 then [c.toNat]
  else [0xD800 + (c.toNat - 0x10000) / 0x400, 0xDC00 + (c.toNat - 0x10000) % 0x400]

namespace Json

/-- The escape of one UTF-16 code unit. -/
def unitEscape (unit : Nat) : List Char := '\\' :: 'u' :: hex4 unit

/-- The letter that names a control character in an escape, where it has one. -/
def shortEscape? (c : Char) : Option Char :=
  if c = '\x08' then some 'b'
  else if c = '\x0c' then some 'f'
  else if c = '\n' then some 'n'
  else if c = '\r' then some 'r'
  else if c = '\t' then some 't'
  else none

/-- A character as it stands between the quotes of an ASCII string. -/
def escape (c : Char) : List Char :=
  if c = '"' || c = '\\' then ['\\', c]
  else match shortEscape? c with
    | some letter => ['\\', letter]
    | none => if 0x20 ≤ c.toNat && c.toNat < 0x80 then [c] else (units16 c).flatMap unitEscape

/-- A text as an ASCII string with its quotes. -/
def string (text : List Char) : List Char := '"' :: text.flatMap escape ++ ['"']

end Json

end MonkeyLang.Text
