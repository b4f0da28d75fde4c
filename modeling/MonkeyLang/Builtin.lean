import MonkeyLang.Fault
import MonkeyLang.NameMap
import MonkeyLang.Value.Display

/-!
# Builtin functions

What the builtin functions do, and the registries in which a host keeps them.  A name that no scope
binds is looked up in the registry.

## Main definitions

* `Builtin.run`: the answer of a builtin to its arguments, with what it prints
* `Registry`, `Registry.register`, `Registry.standard`: collections of builtins by name
-/

namespace MonkeyLang

namespace Builtin

/-- The line that prints values: their texts with a blank between each two. -/
def line (args : List Value) : String :=
  String.ofList (separated ' ' (args.map Value.display) ++ ['\n'])

/-- The length of a string in characters, or of an array in items. -/
def length : Value → Except Fault Nat
  | .str text => .ok text.length
  | .array items => .ok items.length
  | v => .error (.unsupportedArgument "len" v.kind)

/-- The answer of a builtin to its arguments, and the text it prints. -/
def run (b : Builtin) (args : List Value) : Except Fault (Value × String) :=
  match b, args with
  | len, [v] => do
    let n ← length v
    return (.int (Int64.ofNat n), "")
  | len, _ => .error (.wrongArgumentCount args.length 1)
  | append, [.array items, v] => .ok (.array (items ++ [v]), "")
  | append, [v, _] => .error (.invalidFirstArgument "append" .array v.kind)
  | append, _ => .error (.wrongArgumentCount args.length 2)
  | put, _ => .ok (.null, line args)
  | constant _ result, _ => .ok (result, "")
  | collect _, _ => .ok (.array args, "")

end Builtin

/-- The builtins of a host by their names. -/
abbrev Registry : Type := NameMap Builtin

namespace Registry

/-- Adds a builtin under its name, in place of the one that had the name before. -/
def register (registry : Registry) (b : Builtin) : Registry := NameMap.set b.name b registry

/-- Adds builtins one after the other. -/
def registerAll (registry : Registry) (builtins : List Builtin) : Registry :=
  builtins.foldl register registry

/-- The standard builtins. -/
def standard : Registry := registerAll [] [.len, .append, .put]

/-- The description of an evaluator by the names of its builtins. -/
def describe (registry : Registry) : String :=
  "Evaluator \x7b builtins: BuiltinRegistry \x7b builtins: " ++
    Text.Escaped.list (NameMap.names registry) ++ " \x7d \x7d"

end Registry

end MonkeyLang
