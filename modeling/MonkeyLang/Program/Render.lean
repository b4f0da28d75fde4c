import MonkeyLang.Program.Tree
import MonkeyLang.Number.Numeral
import MonkeyLang.Text.Quoted

/-!
# The text of a program

Programs are written in one canonical form.  Every statement ends with a semicolon, the statements
of a program stand on lines of their own, and those of a block follow each other directly.  Every
application of an operator and every subscript is put in parentheses, and there are no other
blanks than those in a binding and behind the word `return`.

A label is the first word of a tree, as far as the tree still knows it.

## Main definitions

* `Expr.render`, `Stmt.render`, `Program.render`: the canonical text
* `renderStmts`: the canonical text of the statements of a block
* `separated`: texts with a character between each two
* `Expr.label`, `Stmt.label`, `Program.label`, `blockLabel`: the first word of a tree
-/

namespace MonkeyLang

/-- The decimal numeral of a natural number. -/
def numeral (n : Nat) : List Char := Nat.toDigits 10 n

/-- The word for a truth value. -/
def boolWord (b : Bool) : List Char :=
  if b then ['t', 'r', 'u', 'e'] else ['f', 'a', 'l', 's', 'e']

/-- Texts with a character between each two. -/
def separated (separator : Char) : List (List Char) → List Char
  | [] => []
  | [text] => text
  | text :: next :: rest => text ++ separator :: separated separator (next :: rest)

mutual

/-- The canonical text of an expression. -/
def Expr.render : Expr → List Char
  | .ident name => name.toList
  | .int value => numeral value.toNat
  | .float value => value.text
  | .bool value => boolWord value
  | .str text => Text.Quoted.encode text.toList
  | .array items => '[' :: separated ',' (renderAll items) ++ [']']
  | .hash pairs => '\x7b' :: separated ',' (renderPairs pairs) ++ ['\x7d']
  | .unary op operand => '(' :: op.sign ++ operand.render ++ [')']
  | .binary op left right => '(' :: left.render ++ op.sign ++ right.render ++ [')']
  | .cond test yes no =>
    ['i', 'f', '('] ++ test.render ++ [')', '\x7b'] ++ renderStmts yes ++ '\x7d' :: renderElse no
  | .fn params body =>
    ['f', 'n', '('] ++ separated ',' (params.map String.toList) ++ [')', '\x7b'] ++
      renderStmts body ++ ['\x7d']
  | .call callee args => callee.render ++ '(' :: separated ',' (renderAll args) ++ [')']
  | .index target subscript => '(' :: target.render ++ '[' :: subscript.render ++ [']', ')']

/-- The canonical texts of expressions. -/
def renderAll : List Expr → List (List Char)
  | [] => []
  | e :: es => e.render :: renderAll es

/-- The canonical texts of the entries of a hash literal. -/
def renderPairs : List (Expr × Expr) → List (List Char)
  | [] => []
  | (key, value) :: rest => (key.render ++ ':' :: value.render) :: renderPairs rest

/-- The canonical text of a segment that can be left out. -/
def renderOptional : Option Expr → List Char
  | none => []
  | some e => e.render

/-- The canonical text of a subscript, without its brackets. -/
def Subscript.render : Subscript → List Char
  | .empty => []
  | .item index => index.render
  | .slice start stop => renderOptional start ++ ':' :: renderOptional stop
  | .stepped start stop stride =>
    renderOptional start ++ ':' :: renderOptional stop ++ ':' :: renderOptional stride

/-- The canonical text of a statement. -/
def Stmt.render : Stmt → List Char
  | .bind name value =>
    ['l', 'e', 't', ' '] ++ name.toList ++ [' ', '=', ' '] ++ value.render ++ [';']
  | .ret value => ['r', 'e', 't', 'u', 'r', 'n', ' '] ++ value.render ++ [';']
  | .expr value => value.render ++ [';']

/-- The canonical texts of statements, one behind the other. -/
def renderStmts : List Stmt → List Char
  | [] => []
  | s :: ss => s.render ++ renderStmts ss

/-- The canonical text of the second block of a conditional. -/
def renderElse : Option (List Stmt) → List Char
  | none => []
  | some body => ['e', 'l', 's', 'e', '\x7b'] ++ renderStmts body ++ ['\x7d']

end

/-- The canonical text of a program: one statement a line. -/
def Program.render (p : Program) : String :=
  String.ofList (separated '\n' (p.statements.map Stmt.render))

/-- The first word of an expression. -/
def Expr.label : Expr → String
  | .ident name => name
  | .int value => String.ofList (numeral value.toNat)
  | .float value => String.ofList value.text
  | .bool value => String.ofList (boolWord value)
  | .str text => text
  | .array _ => "["
  | .hash _ => "\x7b"
  | .unary op _ => String.ofList op.sign
  | .binary _ left _ => left.label
  | .cond _ _ _ => "if"
  | .fn _ _ => "fn"
  | .call callee _ => callee.label
  | .index target _ => target.label

/-- The first word of a statement, behind the word that opens it; the name, for a binding. -/
def Stmt.label : Stmt → String
  | .bind name _ => name
  | .ret value => value.label
  | .expr value => value.label

/-- The first word of a program; nothing, if the program is empty. -/
def Program.label (p : Program) : String :=
  match p.statements with
  | [] => ""
  | s :: _ => s.label

/-- The first word of a block; its opening brace, if the block is empty. -/
def blockLabel : List Stmt → String
  | [] => "\x7b"
  | s :: _ => s.label

end MonkeyLang
