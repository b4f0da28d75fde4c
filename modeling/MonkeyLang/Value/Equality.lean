import MonkeyLang.Value.Basic

/-!
# Equality of values

When two values are equal.  Values of different kinds are different, also the integer and the
fraction of one size.  Functions are equal if they are the same function, and builtins if they have
the same name.  Arrays are compared item by item.  Hashes are equal if they have the same number of
entries and each entry of the first is filed in the second with an equal key and an equal value.

Equality of numbers with a fraction is numeric, so a value that holds a NaN differs from itself.

## Main definitions

* `Value.equal`: equality of values
* `equalItems`: equality of lists of values
-/

namespace MonkeyLang

mutual

/-- Whether two values are equal. -/
def Value.equal : Value → Value → Bool
  | .int a, .int b => a == b
  | .float a, .float b => a.equal b
  | .bool a, .bool b => a == b
  | .str a, .str b => a == b
  | .null, .null => true
  | .array as, .array bs => equalItems as bs
  | .hash as, .hash bs => as.length == bs.length && entriesIn as bs
  | .function f, .function g => f.identity == g.identity
  | .builtin a, .builtin b => a.name == b.name
  | .returned a, .returned b => a.equal b
  | .error a, .error b => a == b
  | _, _ => false

/-- Whether two lists of values are equal. -/
def equalItems : List Value → List Value → Bool
  | [], [] => true
  | a :: as, b :: bs => a.equal b && equalItems as bs
  | _, _ => false

/-- Whether every entry of the first table is filed in the second one. -/
def entriesIn : List (HashKey × Value × Value) → List (HashKey × Value × Value) → Bool
  | [], _ => true
  | (hashKey, key, value) :: rest, table =>
    (match Table.find? hashKey table with
      | some (otherKey, otherValue) => key.equal otherKey && value.equal otherValue
      | none => false) && entriesIn rest table

end

/-- Whether a value is equal to the list of items of an array value. -/
def Value.equalElements (v other : Value) : Bool :=
  match v, other with
  | .array as, .array bs => equalItems as bs
  | _, _ => false

end MonkeyLang
