import MonkeyLang.Program.Tree
import MonkeyLang.Value.Kind

/-!
# Faults

What can go wrong while a program runs.

## Main definitions

* `Fault`, `Fault.message`: the faults and their wording
-/

namespace MonkeyLang

/-- The ways in which evaluation fails. -/
inductive Fault where
  /-- A name is bound nowhere, and no builtin has it. -/
  | identifierNotFound (name : String)
  /-- An operator does not apply to values of these kinds. -/
  | unknownBinary (left : ValueKind) (op : BinaryOp) (right : ValueKind)
  /-- An operator does not apply to a value of this kind. -/
  | unknownUnary (op : UnaryOp) (operand : ValueKind)
  /-- An integer is divided by zero. -/
  | divisionByZero
  /-- A value that is no function is called. -/
  | notCallable (kind : ValueKind)
  /-- A call has the wrong number of arguments. -/
  | wrongArgumentCount (got want : Nat)
  /-- A builtin does not take an argument of this kind. -/
  | unsupportedArgument (builtin : String) (got : ValueKind)
  /-- The first argument of a builtin has to be of another kind. -/
  | invalidFirstArgument (builtin : String) (expected got : ValueKind)
  /-- An index lies outside of a sequence. -/
  | indexOutOfRange (index : Int64) (length : Nat)
  /-- Nothing stands between the brackets. -/
  | emptyIndex
  /-- An index is no integer. -/
  | indexNotInteger (kind : ValueKind)
  /-- The stride of a slice is zero. -/
  | zeroStride
  /-- Values of this kind have no items. -/
  | indexNotSupported (kind : ValueKind)
  /-- Values of this kind cannot be keys. -/
  | keyNotHashable (kind : ValueKind)
deriving DecidableEq

/-- The wording of a fault. -/
def Fault.message : Fault → String
  | identifierNotFound name => "identifier not found: " ++ name
  | unknownBinary left op right =>
    "unknown operator: " ++ left.name ++ String.ofList op.sign ++ right.name
  | unknownUnary op operand => "unknown operator: " ++ String.ofList op.sign ++ operand.name
  | divisionByZero => "division by zero"
  | notCallable kind => "not a function: " ++ kind.name
  | wrongArgumentCount got want =>
    "wrong number of arguments: got=" ++ toString got ++ ", want=" ++ toString want
  | unsupportedArgument builtin got =>
    "argument to " ++ builtin ++ " not supported: got " ++ got.name
  | invalidFirstArgument builtin expected got =>
    "first argument to `" ++ builtin ++ "` must be " ++ expected.name ++ ": got=" ++ got.name
  | indexOutOfRange index length =>
    "index " ++ toString index.toInt ++ " out of array with length " ++ toString length
  | emptyIndex => "array-like indexing with empty expression"
  | indexNotInteger kind => "array-like indexing expecting INT, but got " ++ kind.name
  | zeroStride => "array-like indexing expecting non-zero stride"
  | indexNotSupported kind => "index operator not supported: " ++ kind.name
  | keyNotHashable kind => "key type not hashable: " ++ kind.name

end MonkeyLang
