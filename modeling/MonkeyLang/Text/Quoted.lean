/-!
# Quoted texts

A text is quoted by double quotes around its characters.  Inside, the double quote, the backslash
and the three control characters that have an escape letter are written with a backslash; every
other character stands for itself.

## Main definitions

* `Text.Quoted.escape`, `Text.Quoted.encode`: a character and a text, as quoted
-/

namespace MonkeyLang.Text.Quoted

/-- A character as it stands between the quotes. -/
def escape : Char → List Char
  | '"' => ['\\', '"']
  | '\\' => ['\\', '\\']
  | '\n' => ['\\', 'n']
  | '\t' => ['\\', 't']
  | '\r' => ['\\', 'r']
  | c => [c]

/-- The quoted form of a text. -/
def encode (text : List Char) : List Char := '"' :: text.flatMap escape ++ ['"']

end MonkeyLang.Text.Quoted
