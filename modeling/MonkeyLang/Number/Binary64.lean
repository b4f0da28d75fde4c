/-!
# Double-precision numbers

A number with a fraction is an IEEE 754 binary64 datum, kept as its bit pattern.  The bits matter
because a number can be the key of a hash and is then filed under them: the two zeros are
different keys, and so are two NaNs of different sign.

Arithmetic on two numbers rounds to nearest, ties to even.  A NaN operand goes through an
operation unchanged, the left one first, and an operation on two numbers that has no result gives
the NaN with its sign bit set.

## Main definitions

* `Binary64`, `Binary64.isNaN`, `Binary64.negative`: the data and their classes
* `Binary64.neg`, `Binary64.add`, `Binary64.sub`, `Binary64.mul`, `Binary64.div`: arithmetic
* `Binary64.lt`, `Binary64.equal`: comparison, in which a NaN is unordered
* `Binary64.ofInt64`: the number nearest to an integer
* `Binary64.ofRatio`: the number nearest to a quotient of natural numbers
-/

namespace MonkeyLang

/-- A double-precision number, as its 64 bits. -/
structure Binary64 where
  /-- Sign, eleven bits of exponent, 52 bits of fraction. -/
  bits : UInt64
deriving DecidableEq

namespace Binary64

/-- The bit that holds the sign. -/
def signBit : UInt64 := 0x8000000000000000

/-- The bits of positive infinity; the magnitude bits of every NaN are above them. -/
def infinityBits : UInt64 := 0x7FF0000000000000

/-- Positive infinity. -/
def infinity : Binary64 := ⟨infinityBits⟩

/-- The NaN that a text names. -/
def nan : Binary64 := ⟨0x7FF8000000000000⟩

/-- The NaN that an operation on two numbers without a result gives. -/
def invalid : Binary64 := ⟨0xFFF8000000000000⟩

/-- The bits without the sign. -/
def magnitude (x : Binary64) : UInt64 := x.bits &&& 0x7FFFFFFFFFFFFFFF

/-- Whether the sign bit is set. -/
def negative (x : Binary64) : Bool := x.bits ≥ signBit

/-- Whether the datum is no number. -/
def isNaN (x : Binary64) : Bool := x.magnitude > infinityBits

/-- Whether the datum is an infinity. -/
def isInfinite (x : Binary64) : Bool := x.magnitude == infinityBits

/-- The machine number with these bits. -/
def toFloat (x : Binary64) : Float := Float.ofBits x.bits

/-- The bits of a machine number. -/
def ofFloat (x : Float) : Binary64 := ⟨x.toBits⟩

/-- The datum with the opposite sign; of a NaN too. -/
def neg (x : Binary64) : Binary64 := ⟨x.bits ^^^ signBit⟩

/-- An operation on numbers, extended to NaNs: the first NaN operand is the result. -/
def lift (op : Float → Float → Float) (x y : Binary64) : Binary64 :=
  if x.isNaN then x
  else if y.isNaN then y
  else
    let result := ofFloat (op x.toFloat y.toFloat)
    if result.isNaN then invalid else result

/-- Sum. -/
def add : Binary64 → Binary64 → Binary64 := lift (· + ·)

/-- Difference. -/
def sub : Binary64 → Binary64 → Binary64 := lift (· - ·)

/-- Product. -/
def mul : Binary64 → Binary64 → Binary64 := lift (· * ·)

/-- Quotient; a division by zero gives an infinity, or no number if the dividend is zero too. -/
def div : Binary64 → Binary64 → Binary64 := lift (· / ·)

/-- Strict order of the numbers; a NaN is not below anything. -/
def lt (x y : Binary64) : Bool := x.toFloat < y.toFloat

/-- Equality of numbers: the two zeros are equal, and a NaN is equal to nothing. -/
def equal (x y : Binary64) : Bool := x.toFloat == y.toFloat

/-- The number nearest to a signed integer, ties to even. -/
def ofInt64 (n : Int64) : Binary64 := ofFloat n.toFloat

/-- The exponent `e` at which `num / den` has its last bit: the quotient lies between `2 ^ 52` and
`2 ^ 53` units of `2 ^ e`, unless it is so small that the unit is the least one. -/
def unitExponent (num den : Nat) : Int :=
  let e : Int := (num.log2 : Int) - den.log2 - 52
  let low := if num * Nat.pow 2 (-e).toNat < Nat.pow 2 52 * den * Nat.pow 2 e.toNat then e - 1 else e
  max low (-1074)

/-- The quotient `num / den` rounded to a whole number, ties to even. -/
def roundDiv (num den : Nat) : Nat :=
  let q := num / den
  let r := num % den
  if 2 * r > den || (2 * r == den && q % 2 == 1) then q + 1 else q

/-- The number nearest to `num / den` for a positive `den`, ties to even.  A quotient beyond the
largest number is infinity. -/
def ofRatio (num den : Nat) : Binary64 :=
  if num = 0 then ⟨0⟩
  else
    let e := unitExponent num den
    let units := roundDiv (num * Nat.pow 2 (-e).toNat) (den * Nat.pow 2 e.toNat)
    ⟨(min ((e + 1074).toNat * Nat.pow 2 52 + units) infinityBits.toNat).toUInt64⟩

end Binary64

end MonkeyLang
