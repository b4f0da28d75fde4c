import MonkeyLang.Text.Hex
import MonkeyLang.Text.Visible

/-!
# Escaped texts

The form of a text in descriptions of functions, scopes and registries.  The text stands in double
quotes, and every character that does not show by itself is escaped: five characters by a letter
or by themselves, all others by their code point in braces.

## Main definitions

* `Text.Escaped.escape`, `Text.Escaped.encode`: a character and a text, in escaped form
* `Text.Escaped.list`: a list of texts in brackets
-/

namespace MonkeyLang.Text.Escaped

/-- The letter of an escape, for the characters that have one. -/
def shortEscape? (c : Char) : Option Char :=
  if c = '\x00' then some '0'
  else if c = '\t' then some 't'
  else if c = '\r' then some 'r'
  else if c = '\n' then some 'n'
  else if c = '"' then some '"'
  else if c = '\\' then some '\\'
  else none

/-- A character as it stands between the quotes. -/
def escape (c : Char) : List Char :=
  match shortEscape? c with
  | some letter => ['\\', letter]
  | none =>
    if isVisible c then [c] else '\\' :: 'u' :: '\x7b' :: hex c.toNat ++ ['\x7d']

/-- A text in escaped form with its quotes. -/
def encode (text : String) : String :=
  String.ofList ('"' :: text.toList.flatMap escape ++ ['"'])

/-- A list of texts in escaped form. -/
def list (texts : List String) : String := "[" ++ ", ".intercalate (texts.map encode) ++ "]"

end MonkeyLang.Text.Escaped
