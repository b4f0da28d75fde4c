import MonkeyLang.Grammar.Parse
import MonkeyLang.Program.Tree
import MonkeyLang.Number.Numeral

/-!
# Reading expressions and statements

The grammar of the language.  Operators bind by precedence: an operator takes everything to its
right that binds tighter than itself, and operators of one level group to the left.  The operators
before an operand stand between the sums and the products, so `-a * b` is `-(a * b)` and `-a + b`
is `(-a) + b`.

Expressions can be nested `maxNesting` deep.  Each expression that is being read uses one level,
and so does each operator, call or subscript that is joined to it.  Every reader below an
expression is given the reader for the expressions inside it, and `expression` hands down what is
left of the levels.

A list ends with its closing token, a block also with the text.  A statement that cannot be read
leaves its diagnostics, and reading goes on behind the token where it failed.

## Main definitions

* `Precedence`, `Token.Kind.precedence`, `BinaryOp.precedence`: the binding strengths
* `Grammar.statement`, `Grammar.block`, `Grammar.subscript`, …: the parts of the grammar, over the
  elementary readers and a reader for expressions
* `Grammar.expression`, `Grammar.climb`: expressions with a number of levels left
* `TokenStream.parse`, `parse`: the program of a token stream and of a source text, with its
  diagnostics
-/

namespace MonkeyLang

universe u

/-- Binding strengths, from the loosest to the tightest. -/
inductive Precedence where
  | lowest
  | equality
  | comparison
  | sum
  | unary
  | product
  | postfixed
deriving DecidableEq

/-- The rank of a binding strength. -/
def Precedence.rank : Precedence → Nat
  | lowest => 0
  | equality => 1
  | comparison => 2
  | sum => 3
  | unary => 4
  | product => 5
  | postfixed => 6

/-- How tightly an operator holds its operands. -/
def BinaryOp.precedence : BinaryOp → Precedence
  | eq | ne => .equality
  | lt | gt => .comparison
  | add | sub => .sum
  | mul | div => .product

/-- The operator between two operands that a kind of token stands for. -/
def BinaryOp.ofKind? : Token.Kind → Option BinaryOp
  | .plus => some .add
  | .minus => some .sub
  | .asterisk => some .mul
  | .slash => some .div
  | .eq => some .eq
  | .notEq => some .ne
  | .lt => some .lt
  | .gt => some .gt
  | _ => none

/-- How tightly a token binds to the expression before it. -/
def Token.Kind.precedence (kind : Token.Kind) : Precedence :=
  match kind with
  | .leftParen | .leftBracket => .postfixed
  | _ => match BinaryOp.ofKind? kind with
    | some op => op.precedence
    | none => .lowest

namespace Grammar

open Reading

/-- How deep expressions can be nested. -/
def maxNesting : Nat := 256

section Parts

variable {M : Type → Type u} [Monad M] [Reading M] (expr : Precedence → M Expr)

/-- Expressions with commas between them, up to the closing token. -/
def expressions (close : Token.Kind) : M (List Expr) := do
  if (← peek).kind = close then
    advance
    return []
  advance
  let first ← expr .lowest
  let rest ← many (fun s => s.peek.kind = .comma) do
    advance
    advance
    expr .lowest
  expect close
  return first :: rest

/-- The names of the parameters of a function, up to the closing parenthesis. -/
def parameters : M (List String) := do
  if (← peek).kind = .rightParen then
    advance
    return []
  expect .ident
  let first ← current
  let rest ← many (fun s => s.peek.kind = .comma) do
    advance
    expect .ident
    return (← current).literal
  expect .rightParen
  return first.literal :: rest

/-- One entry of a hash literal, with the comma behind it.  Before the closing brace the comma can
be left out. -/
def pair : M (Expr × Expr) := do
  advance
  let key ← expr .lowest
  expect .colon
  advance
  let value ← expr .lowest
  if (← peek).kind = .rightBrace then return (key, value)
  expect .comma
  return (key, value)

/-- The entries of a hash literal, up to the closing brace. -/
def pairs : M (List (Expr × Expr)) := do
  let entries ← many (fun s => s.peek.kind ≠ .rightBrace) (pair expr)
  expect .rightBrace
  return entries

/-- A segment of a slice: nothing, if one of the closing kinds comes next. -/
def segment (closing : List Token.Kind) : M (Option Expr) := do
  if closing.contains (← peek).kind then return none
  advance
  return some (← expr .lowest)

/-- The segments of a slice behind its start, from the colon to the closing bracket. -/
def sliceFrom (start : Option Expr) : M Subscript := do
  advance
  let stop ← segment expr [.colon, .rightBracket]
  if (← peek).kind = .colon then
    advance
    let stride ← segment expr [.rightBracket]
    expect .rightBracket
    return .stepped start stop stride
  expect .rightBracket
  return .slice start stop

/-- What stands between brackets behind an expression, from the opening bracket to the closing
one. -/
def subscript : M Subscript := do
  let next ← peek
  if next.kind = .rightBracket then
    advance
    return .empty
  if next.kind = .colon then sliceFrom expr none
  else
    advance
    let index ← expr .lowest
    if (← peek).kind = .colon then sliceFrom expr (some index)
    else
      expect .rightBracket
      return .item index

/-- A statement, with the semicolon behind it if there is one. -/
def statement : M Stmt := do
  match (← current).kind with
  | .letWord =>
    expect .ident
    let name ← current
    expect .assign
    advance
    let value ← expr .lowest
    skip .semicolon
    return .bind name.literal value
  | .returnWord =>
    advance
    let value ← expr .lowest
    skip .semicolon
    return .ret value
  | _ =>
    let value ← expr .lowest
    skip .semicolon
    return .expr value

/-- Statements as long as `more` holds.  A statement that cannot be read is left out. -/
def statements (more : ParseState → Bool) : M (List Stmt) := do
  let found ← many more do
    let stmt? ← attempt (statement expr)
    advance
    return stmt?
  return found.filterMap id

/-- A block, from its opening brace to its closing brace or the end of the text. -/
def block : M (List Stmt) := do
  advance
  statements expr fun s => s.current.kind ≠ .rightBrace && s.current.kind ≠ .eof

/-- An expression in parentheses. -/
def group : M Expr := do
  advance
  let inner ← expr .lowest
  expect .rightParen
  return inner

/-- A conditional. -/
def conditional : M Expr := do
  expect .leftParen
  advance
  let test ← expr .lowest
  expect .rightParen
  expect .leftBrace
  let yes ← block expr
  if (← peek).kind = .elseWord then
    advance
    expect .leftBrace
    return .cond test yes (some (← block expr))
  return .cond test yes none

/-- A function literal. -/
def function : M Expr := do
  expect .leftParen
  let params ← parameters
  expect .leftBrace
  return .fn params (← block expr)

/-- An integer literal; it has to be below `2 ^ 64`. -/
def integer (token : Token) : M Expr :=
  let value := digitsValue token.literal.toList
  if value < UInt64.size then return .int value.toUInt64
  else complain token.position (.integerTooLarge token.literal)

/-- The expression that the current token starts, without what is joined to it. -/
def operand : M Expr := do
  let token ← current
  match token.kind with
  | .ident => return .ident token.literal
  | .int => integer token
  | .float => return .float (.ofNumeral token.literal.toList)
  | .string => return .str token.literal
  | .trueWord => return .bool true
  | .falseWord => return .bool false
  | .bang =>
    advance
    return .unary .not (← expr .unary)
  | .minus =>
    advance
    return .unary .neg (← expr .unary)
  | .leftParen => group expr
  | .ifWord => conditional expr
  | .fnWord => function expr
  | .leftBracket => return .array (← expressions expr .rightBracket)
  | .leftBrace => return .hash (← pairs expr)
  | kind => complain token.position (.noOperand kind)

/-- What the current token joins to the expression before it: a call, a subscript, or an operator
with its right operand. -/
def joined (left : Expr) : M Expr := do
  let token ← current
  match token.kind with
  | .leftParen => return .call left (← expressions expr .rightParen)
  | .leftBracket => return .index left (← subscript expr)
  | kind =>
    match BinaryOp.ofKind? kind with
    | some op =>
      advance
      return .binary op left (← expr op.precedence)
    | none => return left

/-- The statements of a whole text. -/
def text : M (List Stmt) := statements expr fun s => s.current.kind ≠ .eof

end Parts

/-- Complains that expressions are nested too deeply. -/
def tooDeep : Parse Expr := do
  complain (← current).position .nestedTooDeeply

/-- Whether the next token binds tighter than `p` to the expression before it. -/
def binds (p : Precedence) : Parse Bool := do
  let kind := (← peek).kind
  return kind ≠ .semicolon && p.rank < kind.precedence.rank

mutual

/-- An expression up to the first token that binds no tighter than `p`, with a number of levels
left for nesting. -/
def expression : (room : Nat) → (p : Precedence) → Parse Expr
  | 0, _ => tooDeep
  | room + 1, p => do
    let left ← operand (expression room)
    climb room p left

/-- Joins to `left` all that binds tighter than `p`, with a number of levels left. -/
def climb : (room : Nat) → (p : Precedence) → (left : Expr) → Parse Expr
  | 0, p, left => do
    if ← binds p then tooDeep else return left
  | room + 1, p, left => do
    if ← binds p then
      advance
      let next ← joined (expression room) left
      climb room p next
    else return left

end

/-- The statements of a whole text, with all levels for nesting. -/
def program : Parse (List Stmt) := text (expression maxNesting)

end Grammar

/-- A program with what was found wrong in its text, the most recent first.  If something is wrong,
the program holds the statements that could be read. -/
structure Parsed where
  /-- The statements that could be read. -/
  program : Program
  /-- What was found wrong, the most recent first. -/
  diagnostics : List Diagnostic

/-- Reads the tokens of a text. -/
def TokenStream.parse (stream : TokenStream) : Parsed :=
  match Grammar.program (.start stream) with
  | (statements?, s) => ⟨⟨statements?.getD []⟩, s.diagnostics⟩

/-- Reads a source text. -/
def parse (source : String) : Parsed := (scan source).parse

end MonkeyLang
