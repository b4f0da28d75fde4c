/-!
# Kinds of values

The kinds of run-time values, with the names that messages use for them.
-/

namespace MonkeyLang

/-- The kinds of values. -/
inductive ValueKind where
  | int
  | float
  | boolean
  | null
  | returned
  | error
  | function
  | string
  | builtin
  | array
  | hash
deriving DecidableEq

/-- The name of a kind in messages. -/
def ValueKind.name : ValueKind → String
  | int => "INT"
  | float => "FLOAT"
  | boolean => "BOOLEAN"
  | null => "NULL"
  | returned => "RETURN_VALUE"
  | error => "ERROR"
  | function => "FUNCTION"
  | string => "STRING"
  | builtin => "BUILTIN"
  | array => "ARRAY"
  | hash => "HASH"

end MonkeyLang
