import MonkeyLang.Program.Tree
import MonkeyLang.Value.HashKey

/-!
# Values

The values of running programs.  A function is its literal with the scope it was made in, and an
identity: each evaluation of a function literal makes a new function.  A value that is being
returned is wrapped until it reaches the call it returns from, and an error that has been caught
is a value too.

Builtin functions are values that the host of a program provides.  Besides the standard ones there
are builtins with a fixed answer and builtins that collect their arguments.

## Main definitions

* `Closure`, `Value`, `Builtin`: functions, values and builtin functions
* `Value.kind`, `Value.isTruthy`, `Value.isError`: classes of values
* `Value.hashKey?`: what a value is filed under in a hash, if it can be a key
* `Value.unwrap`: a value without the wrapper of a return
-/

namespace MonkeyLang

/-- The number of a scope. -/
abbrev ScopeId : Type := Nat

/-- A function: its literal, the scope it was made in, and its identity. -/
structure Closure where
  /-- The identity, which no other function shares. -/
  identity : Nat
  /-- The names of the parameters. -/
  params : List String
  /-- The body. -/
  body : List Stmt
  /-- The scope in which the function was made. -/
  scope : ScopeId

mutual

/-- The values of running programs. -/
inductive Value where
  | int (n : Int64)
  | float (x : Binary64)
  | bool (b : Bool)
  | str (text : String)
  | null
  | array (items : List Value)
  /-- A hash: under each hash key a key and a value. -/
  | hash (entries : List (HashKey × Value × Value))
  | function (f : Closure)
  | builtin (b : Builtin)
  /-- A value on its way to the call it returns from. -/
  | returned (v : Value)
  /-- An error, by its message. -/
  | error (message : String)

/-- The functions that a host provides. -/
inductive Builtin where
  /-- The length of a string or an array. -/
  | len
  /-- An array with one more item. -/
  | append
  /-- Prints its arguments. -/
  | put
  /-- Answers the same value to all arguments. -/
  | constant (name : String) (result : Value)
  /-- Answers the array of its arguments. -/
  | collect (name : String)

end

/-- The name under which a builtin is known. -/
def Builtin.name : Builtin → String
  | len => "len"
  | append => "append"
  | put => "put"
  | constant name _ => name
  | collect name => name

namespace Value

/-- The kind of a value. -/
def kind : Value → ValueKind
  | int _ => .int
  | float _ => .float
  | bool _ => .boolean
  | str _ => .string
  | null => .null
  | array _ => .array
  | hash _ => .hash
  | function _ => .function
  | builtin _ => .builtin
  | returned _ => .returned
  | error _ => .error

/-- Whether a value counts as true in a condition: all do but `false` and `null`. -/
def isTruthy : Value → Bool
  | bool b => b
  | null => false
  | _ => true

/-- Whether a value is an error. -/
def isError : Value → Bool
  | error _ => true
  | _ => false

/-- Whether a value is on its way to the call it returns from. -/
def isReturned : Value → Bool
  | returned _ => true
  | _ => false

/-- The value without the wrapper of a return; one wrapper is taken off. -/
def unwrap : Value → Value
  | returned v => v
  | v => v

/-- What a value is filed under in a hash.  Only numbers, truth values and strings can be keys. -/
def hashKey? : Value → Option HashKey
  | int n => some ⟨.int, n.toUInt64⟩
  | float x => some ⟨.float, x.bits⟩
  | bool b => some ⟨.boolean, if b then 1 else 0⟩
  | str text => some ⟨.string, digest text⟩
  | _ => none

end Value

end MonkeyLang
