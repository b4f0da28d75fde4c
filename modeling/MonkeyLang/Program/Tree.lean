import MonkeyLang.Number.Binary64

/-!
# Programs as trees

The trees of programs.  A program is a list of statements, and so is a block.  Expressions,
subscripts and statements are defined together, since conditionals and functions hold blocks.

An integer literal is a natural number below `2 ^ 64`; the minus sign before a number is an
operator.  A subscript keeps which of its segments were written: `a[]`, `a[i]`, `a[i:j]` and
`a[i:j:k]` are four forms, and in the last two every segment can be left out.

## Main definitions

* `UnaryOp`, `BinaryOp`: the operators with their signs
* `Expr`, `Subscript`, `Stmt`, `Program`: the trees
-/

namespace MonkeyLang

/-- The operators before an operand. -/
inductive UnaryOp where
  | neg
  | not
deriving DecidableEq

/-- The sign of an operator before an operand. -/
def UnaryOp.sign : UnaryOp → List Char
  | neg => ['-']
  | not => ['!']

/-- The operators between two operands. -/
inductive BinaryOp where
  | add
  | sub
  | mul
  | div
  | eq
  | ne
  | lt
  | gt
deriving DecidableEq

/-- The sign of an operator between two operands. -/
def BinaryOp.sign : BinaryOp → List Char
  | add => ['+']
  | sub => ['-']
  | mul => ['*']
  | div => ['/']
  | eq => ['=', '=']
  | ne => ['!', '=']
  | lt => ['<']
  | gt => ['>']

mutual

/-- Expressions. -/
inductive Expr where
  /-- A name to be looked up. -/
  | ident (name : String)
  /-- An integer literal, below `2 ^ 64`. -/
  | int (value : UInt64)
  /-- A literal with a fraction. -/
  | float (value : Binary64)
  | bool (value : Bool)
  /-- A string literal, by its contents. -/
  | str (text : String)
  | array (items : List Expr)
  /-- A hash literal: keys with their values, in the order written. -/
  | hash (pairs : List (Expr × Expr))
  | unary (op : UnaryOp) (operand : Expr)
  | binary (op : BinaryOp) (left right : Expr)
  /-- A conditional with its block and the block behind the word for otherwise, if there is one. -/
  | cond (test : Expr) (yes : List Stmt) (no : Option (List Stmt))
  /-- A function literal. -/
  | fn (params : List String) (body : List Stmt)
  | call (callee : Expr) (args : List Expr)
  | index (target : Expr) (subscript : Subscript)

/-- What stands between the brackets behind an expression. -/
inductive Subscript where
  /-- Nothing at all. -/
  | empty
  /-- One index. -/
  | item (index : Expr)
  /-- Start and stop of a slice. -/
  | slice (start stop : Option Expr)
  /-- Start, stop and stride of a slice. -/
  | stepped (start stop stride : Option Expr)

/-- Statements. -/
inductive Stmt where
  /-- A binding of a name in the current scope. -/
  | bind (name : String) (value : Expr)
  /-- A return from the enclosing function or program. -/
  | ret (value : Expr)
  /-- An expression for its value. -/
  | expr (value : Expr)

end

/-- A program: its statements in order. -/
structure Program where
  /-- The statements. -/
  statements : List Stmt

/-- Whether the last statement of a program is a binding. -/
def Program.endsInBind (p : Program) : Bool :=
  match p.statements.getLast? with
  | some (.bind _ _) => true
  | _ => false

/-- The expression of a statement. -/
def Stmt.value : Stmt → Expr
  | bind _ value => value
  | ret value => value
  | expr value => value

end MonkeyLang
