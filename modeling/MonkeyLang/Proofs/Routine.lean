import MonkeyLang.Proofs.Reader

/-!
# The grammar, written out

A routine is a reader that is written out: its steps can be looked at one by one, and one of them is
the reading of an expression.  It has the elementary readers, so every part of the grammar is a
routine too, over the step that reads an expression.  Running it with a reader for expressions is
the same as the part of the grammar over this reader.

## Main definitions

* `Routine`, `Routine.run`: readers that are written out, and what they do
* `Routine.operand`, `Routine.joined`, `Routine.program`: the grammar as routines

## Main results

* `Routine.run_operand`, `Routine.run_joined`, `Routine.run_program`: the routines of the grammar
  do what the grammar does
-/

namespace MonkeyLang

/-- A reader that is written out. -/
inductive Routine : Type → Type 1 where
  /-- Ends with a result. -/
  | done {α : Type} (a : α) : Routine α
  /-- Gives the current token. -/
  | current : Routine Token
  /-- Gives the token behind the current one. -/
  | peek : Routine Token
  /-- Goes to the next token. -/
  | advance : Routine Unit
  /-- Fails with a diagnostic at a place. -/
  | complain {α : Type} (position : Position) (c : Complaint) : Routine α
  /-- One routine behind the other. -/
  | andThen {α β : Type} (first : Routine α) (next : α → Routine β) : Routine β
  /-- Runs a routine and never fails. -/
  | attempt {α : Type} (inner : Routine α) : Routine (Option α)
  /-- Repeats a routine as long as a condition holds. -/
  | many {α : Type} (more : ParseState → Bool) (round : Routine α) : Routine (List α)
  /-- Reads an expression up to the first token that binds no tighter than `p`. -/
  | expression (p : Precedence) : Routine Expr

namespace Routine

instance : Monad Routine where
  pure := done
  bind := andThen

instance : Reading Routine where
  current := current
  peek := peek
  advance := advance
  complain := complain
  attempt := attempt
  many := many

/-- What a routine does, given a reader for expressions. -/
def run (expr : Precedence → Parse Expr) {α : Type} : Routine α → Parse α
  | done a => pure a
  | current => Parse.current
  | peek => Parse.peek
  | advance => Parse.advance
  | complain position c => Parse.complain position c
  | andThen first next => first.run expr >>= fun a => (next a).run expr
  | attempt inner => Parse.attempt (inner.run expr)
  | many more round => Parse.many more (round.run expr)
  | expression p => expr p

/-- The expression that the current token starts. -/
def operand : Routine Expr := Grammar.operand expression

/-- What the current token joins to the expression before it. -/
def joined (left : Expr) : Routine Expr := Grammar.joined expression left

/-- The statements of a whole text. -/
def program : Routine (List Stmt) := Grammar.text expression

/-! ## What the grammar does -/

section Run

variable (expr : Precedence → Parse Expr) {α β : Type}

theorem run_bind (r : Routine α) (f : α → Routine β) :
    (r >>= f).run expr = r.run expr >>= fun a => (f a).run expr := rfl

theorem run_ite (c : Prop) [Decidable c] (r r' : Routine α) :
    (if c then r else r').run expr = if c then r.run expr else r'.run expr := by
  split <;> rfl

theorem run_expect (due : Token.Kind) :
    (Reading.expect due : Routine Unit).run expr = Reading.expect due := by
  simp only [Reading.expect, run_bind, run_ite]
  rfl

theorem run_skip (kind : Token.Kind) :
    (Reading.skip kind : Routine Unit).run expr = Reading.skip kind := by
  simp only [Reading.skip, run_bind, run_ite]
  rfl

theorem run_expressions (close : Token.Kind) :
    (Grammar.expressions expression close).run expr = Grammar.expressions expr close := by
  simp only [Grammar.expressions, run_bind, run_ite, run_expect]
  rfl

theorem run_parameters :
    (Grammar.parameters : Routine (List String)).run expr = Grammar.parameters := by
  simp only [Grammar.parameters, run_bind, run_ite, run_expect, Reading.many, run]
  rfl

theorem run_pair : (Grammar.pair expression).run expr = Grammar.pair expr := by
  simp only [Grammar.pair, run_bind, run_ite, run_expect]
  rfl

theorem run_pairs : (Grammar.pairs expression).run expr = Grammar.pairs expr := by
  simp only [Grammar.pairs, run_bind, run_expect, Reading.many, run, run_pair]
  rfl

theorem run_segment (closing : List Token.Kind) :
    (Grammar.segment expression closing).run expr = Grammar.segment expr closing := by
  simp only [Grammar.segment, run_bind, run_ite]
  rfl

theorem run_sliceFrom (start : Option Expr) :
    (Grammar.sliceFrom expression start).run expr = Grammar.sliceFrom expr start := by
  simp only [Grammar.sliceFrom, run_bind, run_ite, run_expect, run_segment]
  rfl

theorem run_subscript : (Grammar.subscript expression).run expr = Grammar.subscript expr := by
  simp only [Grammar.subscript, run_bind, run_ite, run_expect, run_sliceFrom]
  rfl

theorem run_statement : (Grammar.statement expression).run expr = Grammar.statement expr := by
  unfold Grammar.statement
  rw [run_bind]
  congr
  funext token
  cases token.kind with
  | letWord =>
    simp only [run_bind, run_expect, run_skip]
    rfl
  | _ =>
    simp only [run_bind, run_skip]
    rfl

theorem run_statements (more : ParseState → Bool) :
    (Grammar.statements expression more).run expr = Grammar.statements expr more := by
  simp only [Grammar.statements, run_bind, Reading.many, Reading.attempt, run, run_statement]
  rfl

theorem run_block : (Grammar.block expression).run expr = Grammar.block expr := by
  simp only [Grammar.block, run_bind, run_statements]
  rfl

theorem run_group : (Grammar.group expression).run expr = Grammar.group expr := by
  simp only [Grammar.group, run_bind, run_expect]
  rfl

theorem run_conditional : (Grammar.conditional expression).run expr = Grammar.conditional expr := by
  simp only [Grammar.conditional, run_bind, run_ite, run_expect, run_block]
  rfl

theorem run_function : (Grammar.function expression).run expr = Grammar.function expr := by
  simp only [Grammar.function, run_bind, run_expect, run_parameters, run_block]
  rfl

theorem run_integer (token : Token) :
    (Grammar.integer token : Routine Expr).run expr = Grammar.integer token := by
  simp only [Grammar.integer, run_ite]
  rfl

theorem run_operand : operand.run expr = Grammar.operand expr := by
  unfold operand Grammar.operand
  rw [run_bind]
  congr
  funext token
  cases token.kind with
  | int => exact run_integer expr token
  | leftParen => exact run_group expr
  | ifWord => exact run_conditional expr
  | fnWord => exact run_function expr
  | leftBracket =>
    simp only [run_bind, run_expressions]
    rfl
  | leftBrace =>
    simp only [run_bind, run_pairs]
    rfl
  | _ => rfl

theorem run_joined (left : Expr) : (joined left).run expr = Grammar.joined expr left := by
  unfold joined Grammar.joined
  rw [run_bind]
  congr
  funext token
  cases token.kind with
  | leftParen =>
    simp only [run_bind, run_expressions]
    rfl
  | leftBracket =>
    simp only [run_bind, run_subscript]
    rfl
  | _ => rfl

theorem run_program : program.run (Grammar.expression Grammar.maxNesting) = Grammar.program :=
  run_statements _ _

end Run

end Routine

end MonkeyLang
