import MonkeyLang.Builtin
import MonkeyLang.Evaluation.Outcome
import MonkeyLang.Operator
import MonkeyLang.Selection

/-!
# Evaluation

How programs run.  The rules follow the trees: the parts of an expression are evaluated from left to
right in the scope of the expression, and the first fault ends the whole evaluation.  Only a call
leaves the tree, for the body of the called function; the rules are given what a call does, and
`call` ties the knot with a limit on nested calls.

The blocks of a conditional have no scope of their own.  A call has one, inside the scope in which
the function was made.

A `return` wraps its value, and the wrapper ends the statements of the block it stands in.  The
call, or the program, takes the wrapper off.  In between the wrapper is a value like others: it is
true as a condition, it can be an item or an argument, and no operator takes it.

## Main definitions

* `Host`: the builtins, and what a call of one does
* `Machine`: a host, and what a call of a function does
* `Rule.array`, `Rule.cond`, `Rule.body`, …: the rules, for the evaluations of parts
* `Expr.eval`, `Stmt.eval`, `evalStmts`: the rules along a tree
* `call`: calls with a limit
* `execute`: a program
* `Node`, `evaluate`: any tree, with faults as error values
-/

namespace MonkeyLang

/-- What a builtin does with arguments by its own rule: it answers, and prints a text. -/
def Builtin.answer (b : Builtin) (args : List Value) : Eval Value := do
  let (value, text) ← Eval.lift (b.run args)
  Eval.print text
  return value

/-- What the host of a program provides. -/
structure Host where
  /-- The builtins for names that no scope binds. -/
  builtins : Registry
  /-- What a call of a builtin does. -/
  answer : Builtin → List Value → Eval Value

/-- The host with these builtins, each by its own rule. -/
def Host.ofRegistry (builtins : Registry) : Host := ⟨builtins, Builtin.answer⟩

instance : Coe Registry Host := ⟨Host.ofRegistry⟩

/-- The host with the standard builtins. -/
def Host.standard : Host := .ofRegistry .standard

/-- What the rules take from outside of the tree. -/
structure Machine where
  /-- The host of the program. -/
  host : Host
  /-- What a call of a function does. -/
  call : Closure → List Value → Eval Value

namespace Machine

/-- The value of a name: from the scopes, or else a builtin. -/
def identifier (m : Machine) (scope : ScopeId) (name : String) : Eval Value := do
  match ← Eval.lookup scope name with
  | some value => return value
  | none =>
    match NameMap.get? name m.host.builtins with
    | some b => return .builtin b
    | none => Eval.fail (.identifierNotFound name)

/-- Calls a value with arguments. -/
def apply (m : Machine) (callee : Value) (args : List Value) : Eval Value :=
  match callee with
  | .function f => m.call f args
  | .builtin b => m.host.answer b args
  | other => Eval.fail (.notCallable other.kind)

end Machine

/-- The hash key of a value, which has to be a key. -/
def hashKeyOf (key : Value) : Eval HashKey :=
  match key.hashKey? with
  | some hashKey => return hashKey
  | none => Eval.fail (.keyNotHashable key.kind)

/-- The integer that a segment of a subscript is. -/
def integerOf : Value → Eval Int64
  | .int n => return n
  | other => Eval.fail (.indexNotInteger other.kind)

/-- The name that a key of a hash literal stands for, if it is a bare name. -/
def bareKey? : Expr → Option String
  | .ident name => some name
  | _ => none

/-- The position of the start of a slice, if it was written. -/
def startOf (length : Nat) : Option Int64 → Eval (Option Int64)
  | none => return none
  | some index => do
    let position ← Eval.lift (resolveIndex length index)
    return some position

/-- The position of the stop of a slice, if it was written; nothing at all, if it lies before the
sequence. -/
def stopOf (length : Nat) : Option Int64 → Option (Option Int64)
  | none => some none
  | some index => (resolveStop length index).map some

/-- What a slice of a sequence picks, from the evaluations of its segments.  A stop before the
sequence ends the slice at once, without a look at the stride. -/
def sliceOf (length : Nat) (start stop stride : Eval (Option Int64)) : Eval Selection := do
  let start? ← start
  let first ← startOf length start?
  let stop? ← stop
  match stopOf length stop? with
  | none => return .several []
  | some last =>
    let stride? ← stride
    if stride?.getD 1 = 0 then Eval.fail .zeroStride
    else return .several (slicePositions length first last (stride?.getD 1))

/-- The items of an array that a selection picks. -/
def selectItems (items : List Value) : Selection → Value
  | .single position => (items[position]?).getD .null
  | .several positions => .array (Selection.itemsAt items positions)

/-- The characters of a string that a selection picks. -/
def selectChars (chars : List Char) : Selection → Value
  | .single position => .str (String.ofList (Selection.itemsAt chars [position]))
  | .several positions => .str (String.ofList (Selection.itemsAt chars positions))

/-! ## Rules

Each rule is given the evaluations of the parts. -/

namespace Rule

/-- An array literal. -/
def array (items : Eval (List Value)) : Eval Value := do
  let values ← items
  return .array values

/-- A hash literal. -/
def hash (entries : Eval (Table (Value × Value))) : Eval Value := do
  let filed ← entries
  return .hash filed

/-- One more entry of a hash literal.  A bare name is a key by itself. -/
def file (bare? : Option String) (key value : Eval Value) (entries : Table (Value × Value)) :
    Eval (Table (Value × Value)) := do
  let k ← (match bare? with
    | some name => pure (.str name)
    | none => key)
  let hashKey ← hashKeyOf k
  let v ← value
  return entries.insert hashKey (k, v)

/-- An operator before its operand. -/
def unary (op : UnaryOp) (operand : Eval Value) : Eval Value := do
  let value ← operand
  Eval.lift (op.apply value)

/-- An operator between its operands. -/
def binary (op : BinaryOp) (left right : Eval Value) : Eval Value := do
  let first ← left
  let second ← right
  Eval.lift (op.apply first second)

/-- A conditional, with its two blocks. -/
def cond (test yes no : Eval Value) : Eval Value := do
  let value ← test
  if value.isTruthy then yes else no

/-- A call. -/
def call (m : Machine) (callee : Eval Value) (args : Eval (List Value)) : Eval Value := do
  let function ← callee
  let values ← args
  m.apply function values

/-- A subscript, with what it picks out of a sequence of a given length and with its key. -/
def index (target : Eval Value) (select : (length : Nat) → Eval Selection) (key : Eval Value) :
    Eval Value := do
  match ← target with
  | .array items =>
    let selection ← select items.length
    return selectItems items selection
  | .str text =>
    let selection ← select text.toList.length
    return selectChars text.toList selection
  | .hash entries =>
    let k ← key
    let hashKey ← hashKeyOf k
    return ((Table.find? hashKey entries).map Prod.snd).getD .null
  | other => Eval.fail (.indexNotSupported other.kind)

/-- A subscript with nothing in it. -/
def emptyIndex {α : Type} : Eval α := Eval.fail .emptyIndex

/-- A slice of a hash. -/
def hashSlice : Eval Value := Eval.fail (.indexNotSupported .hash)

/-- The position of an item in a sequence of a given length. -/
def item (index : Eval Value) (length : Nat) : Eval Selection := do
  let value ← index
  let n ← integerOf value
  let position ← Eval.lift (resolveIndex length n)
  return .single position.toNatClampNeg

/-- The integer of a segment that was written. -/
def segment (value : Eval Value) : Eval (Option Int64) := do
  let v ← value
  let n ← integerOf v
  return some n

/-- A binding gives `null`; it does not bind a value that is being returned, but passes it on. -/
def bind (scope : ScopeId) (name : String) (value : Eval Value) : Eval Value := do
  let v ← value
  if v.isReturned then return v
  else
    Eval.bindName scope name v
    return .null

/-- A value that is returned. -/
def ret (value : Eval Value) : Eval Value := do
  let v ← value
  return .returned v.unwrap

/-- Statements behind a first one, which are not evaluated if it is being returned. -/
def behind (first : Eval Value) (rest : Value → Eval Value) : Eval Value := do
  let v ← first
  if v.isReturned then return v else rest v

/-- A call of a function: the arguments are bound in a new scope inside the scope of the function,
and the body is evaluated there. -/
def body (f : Closure) (args : List Value) (value : ScopeId → Eval Value) : Eval Value :=
  if f.params.length ≠ args.length then
    Eval.fail (.wrongArgumentCount args.length f.params.length)
  else do
    let scope ← Eval.enter f.scope (f.params.zip args)
    let v ← value scope
    return v.unwrap

end Rule

/-! ## Trees -/

section Trees

variable (m : Machine) (scope : ScopeId)

mutual

/-- The value of an expression. -/
def Expr.eval : Expr → Eval Value
  | .ident name => m.identifier scope name
  | .int value => return .int value.toInt64
  | .float value => return .float value
  | .bool value => return .bool value
  | .str text => return .str text
  | .array items => Rule.array (evalAll items)
  | .hash pairs => Rule.hash (evalPairs pairs [])
  | .unary op operand => Rule.unary op operand.eval
  | .binary op left right => Rule.binary op left.eval right.eval
  | .cond test yes no => Rule.cond test.eval (evalStmts yes .null) (evalElse no)
  | .fn params body => Eval.makeFunction params body scope
  | .call callee args => Rule.call m callee.eval (evalAll args)
  | .index target subscript => Rule.index target.eval subscript.select subscript.evalKey

/-- The values of expressions, from left to right. -/
def evalAll : List Expr → Eval (List Value)
  | [] => return []
  | e :: es => do
    let value ← e.eval
    let values ← evalAll es
    return value :: values

/-- The entries of a hash literal, filed from left to right. -/
def evalPairs : List (Expr × Expr) → Table (Value × Value) → Eval (Table (Value × Value))
  | [], entries => return entries
  | (key, value) :: rest, entries => do
    let filed ← Rule.file (bareKey? key) key.eval value.eval entries
    evalPairs rest filed

/-- The key that a subscript of a hash gives. -/
def Subscript.evalKey : Subscript → Eval Value
  | .empty => Rule.emptyIndex
  | .item index => index.eval
  | .slice _ _ => Rule.hashSlice
  | .stepped _ _ _ => Rule.hashSlice

/-- What a subscript picks out of a sequence of a given length. -/
def Subscript.select : Subscript → (length : Nat) → Eval Selection
  | .empty, _ => Rule.emptyIndex
  | .item index, length => Rule.item index.eval length
  | .slice start stop, length => sliceOf length (evalSegment start) (evalSegment stop) (pure none)
  | .stepped start stop stride, length =>
    sliceOf length (evalSegment start) (evalSegment stop) (evalSegment stride)

/-- The integer of a segment, if it was written. -/
def evalSegment : Option Expr → Eval (Option Int64)
  | none => return none
  | some e => Rule.segment e.eval

/-- The value of a statement. -/
def Stmt.eval : Stmt → Eval Value
  | .bind name value => Rule.bind scope name value.eval
  | .ret value => Rule.ret value.eval
  | .expr value => value.eval

/-- The value of the last of some statements, or the first that is being returned; `last`, if there
are none. -/
def evalStmts : List Stmt → (last : Value) → Eval Value
  | [], last => return last
  | s :: rest, _ => Rule.behind s.eval fun v => evalStmts rest v

/-- The value of the second block of a conditional; `null`, if there is none. -/
def evalElse : Option (List Stmt) → Eval Value
  | none => return .null
  | some body => evalStmts body .null

end

end Trees

/-- A call of a function.  At most `limit` calls can be nested. -/
def call (host : Host) : (limit : Nat) → Closure → List Value → Eval Value
  | 0, _, _ => Eval.exhaust
  | limit + 1, f, args =>
    Rule.body f args fun scope => evalStmts ⟨host, call host limit⟩ scope f.body .null

/-- The machine with this host and at most `limit` nested calls. -/
def Machine.withLimit (host : Host) (limit : Nat) : Machine := ⟨host, MonkeyLang.call host limit⟩

/-- Runs a program in a scope, up to the first statement that returns. -/
def execute (m : Machine) (scope : ScopeId) (p : Program) : Eval Value := do
  let value ← evalStmts m scope p.statements .null
  return value.unwrap

/-- A tree that can be evaluated by itself. -/
inductive Node where
  | program (p : Program)
  | statement (s : Stmt)
  | block (body : List Stmt)
  | expression (e : Expr)

/-- The value of a tree without the wrapper of a return. -/
def Node.eval (m : Machine) (scope : ScopeId) : Node → Eval Value
  | .program p => execute m scope p
  | .statement s => do
    let value ← s.eval m scope
    return value.unwrap
  | .block body => do
    let value ← evalStmts m scope body .null
    return value.unwrap
  | .expression e => do
    let value ← e.eval m scope
    return value.unwrap

/-- Evaluates a tree; a fault is an error value. -/
def evaluate (m : Machine) (scope : ScopeId) (node : Node) : Eval Value :=
  Eval.caught (node.eval m scope)

end MonkeyLang
