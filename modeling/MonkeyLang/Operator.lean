import MonkeyLang.Fault
import MonkeyLang.Value.Basic

/-!
# Operators on values

Truth values count as the numbers zero and one.  Two whole operands are computed in the integers of
64 bits, where results wrap around and division goes toward zero; if one operand has a fraction,
both are taken as numbers of double precision.  Strings can only be joined, and `null` can only be
compared with itself.  Every other combination is a fault.

## Main definitions

* `Value.whole?`, `Value.number?`: the operands of arithmetic
* `UnaryOp.apply`, `BinaryOp.apply`: the operators on values
-/

namespace MonkeyLang

/-- The integer zero or one of a truth value. -/
def boolInt (b : Bool) : Int64 := if b then 1 else 0

namespace Value

/-- The integer a value stands for, if it is an integer or a truth value. -/
def whole? : Value → Option Int64
  | int n => some n
  | bool b => some (boolInt b)
  | _ => none

/-- The number of double precision a value stands for, if it is a number or a truth value. -/
def number? : Value → Option Binary64
  | int n => some (.ofInt64 n)
  | bool b => some (.ofInt64 (boolInt b))
  | float x => some x
  | _ => none

end Value

/-- An operator before a value. -/
def UnaryOp.apply : UnaryOp → Value → Except Fault Value
  | .not, v => .ok (.bool (!v.isTruthy))
  | .neg, .int n => .ok (.int (-n))
  | .neg, .float x => .ok (.float x.neg)
  | .neg, .bool false => .ok (.bool false)
  | .neg, .bool true => .ok (.int (-1))
  | .neg, v => .error (.unknownUnary .neg v.kind)

namespace BinaryOp

/-- An operator between two integers. -/
def applyInt (op : BinaryOp) (a b : Int64) : Except Fault Value :=
  match op with
  | add => .ok (.int (a + b))
  | sub => .ok (.int (a - b))
  | mul => .ok (.int (a * b))
  | div => if b = 0 then .error .divisionByZero else .ok (.int (a / b))
  | lt => .ok (.bool (a < b))
  | gt => .ok (.bool (b < a))
  | eq => .ok (.bool (a = b))
  | ne => .ok (.bool (a ≠ b))

/-- An operator between two numbers of double precision. -/
def applyFloat (op : BinaryOp) (a b : Binary64) : Value :=
  match op with
  | add => .float (a.add b)
  | sub => .float (a.sub b)
  | mul => .float (a.mul b)
  | div => .float (a.div b)
  | lt => .bool (a.lt b)
  | gt => .bool (b.lt a)
  | eq => .bool (a.equal b)
  | ne => .bool (!a.equal b)

/-- An operator between two values that are not both whole and not both numbers. -/
def applyOther (op : BinaryOp) (left right : Value) : Except Fault Value :=
  match left, right, op with
  | .str a, .str b, add => .ok (.str (a ++ b))
  | .null, .null, eq => .ok (.bool true)
  | .null, .null, ne | .null, .null, lt | .null, .null, gt => .ok (.bool false)
  | _, _, _ => .error (.unknownBinary left.kind op right.kind)

/-- An operator between two values. -/
def apply (op : BinaryOp) (left right : Value) : Except Fault Value :=
  match left.whole?, right.whole? with
  | some a, some b => op.applyInt a b
  | _, _ =>
    match left.number?, right.number? with
    | some a, some b => .ok (op.applyFloat a b)
    | _, _ => op.applyOther left right

end BinaryOp

end MonkeyLang
