import MonkeyLang.Value.Basic
import MonkeyLang.Program.Render
import MonkeyLang.Text.Escaped

/-!
# Values as text

How values are shown.  Strings are shown without quotes, arrays and hashes with commas and no
blanks, and a function by the canonical text of its literal.  A returned value is shown as the
value itself.

## Main definitions

* `Value.display`: the text of a value
* `Closure.describe`, `Builtin.describe`: descriptions of functions
-/

namespace MonkeyLang

/-- The canonical text of the literal of a function. -/
def Closure.literal (f : Closure) : List Char := (Expr.fn f.params f.body).render

/-- The numeral of a signed integer. -/
def signedNumeral (n : Int) : List Char :=
  if n < 0 then '-' :: numeral n.natAbs else numeral n.natAbs

mutual

/-- The text of a value. -/
def Value.display : Value → List Char
  | .int n => signedNumeral n.toInt
  | .float x => x.text
  | .bool b => boolWord b
  | .str text => text.toList
  | .null => ['n', 'u', 'l', 'l']
  | .array items => '[' :: separated ',' (displayAll items) ++ [']']
  | .hash entries => '\x7b' :: separated ',' (displayEntries entries) ++ ['\x7d']
  | .function f => f.literal
  | .builtin _ => "builtin function".toList
  | .returned v => v.display
  | .error message => "ERROR: ".toList ++ message.toList

/-- The texts of values. -/
def displayAll : List Value → List (List Char)
  | [] => []
  | v :: vs => v.display :: displayAll vs

/-- The texts of the entries of a hash. -/
def displayEntries : List (HashKey × Value × Value) → List (List Char)
  | [] => []
  | (_, key, value) :: rest => (key.display ++ ':' :: value.display) :: displayEntries rest

end

/-- The text of a value, as a string. -/
def Value.text (v : Value) : String := String.ofList v.display

/-- The description of a function by its literal. -/
def Closure.describe (f : Closure) : String :=
  "Function \x7b literal: " ++ Text.Escaped.encode (String.ofList f.literal) ++ ", .. \x7d"

/-- The description of a builtin by its name. -/
def Builtin.describe (b : Builtin) : String := "Builtin(" ++ b.name ++ ")"

/-- The description of a value that can be called. -/
def Value.describe? : Value → Option String
  | .function f => some f.describe
  | .builtin b => some b.describe
  | _ => none

end MonkeyLang
