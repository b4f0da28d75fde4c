import MonkeyLang.Number.Binary64

/-!
# Shortest decimals

A positive number of double precision stands for all reals that round to it.  Its shortest decimal
is a decimal with the fewest digits among them, and of those the nearest to the number itself.

The reals that round to `m * 2 ^ e` form an interval between the midpoints with the two
neighbours; the midpoints belong to it if `m` is even.  On the grid of the decimals with `k`
digits, a decimal of the interval exists as soon as one of the two grid points around the number
lies in it, so only these two are tried.  Everything is computed on natural numbers: the number
and the ends of its interval are fractions with one common denominator.

## Main definitions

* `Decimal`: a whole number of units of a power of ten
* `RoundingRange`, `RoundingRange.ofBits`: a number with the interval that rounds to it
* `RoundingRange.decimal?`: the decimal of at most `k` digits, if there is one
* `RoundingRange.shortest`: the shortest decimal
-/

namespace MonkeyLang

/-- The decimal `digits * 10 ^ exponent`. -/
structure Decimal where
  /-- The digits, read as a whole number. -/
  digits : Nat
  /-- The power of ten of the last digit. -/
  exponent : Int

/-- A positive number `value / unit` with the ends `low / unit` and `high / unit` of the interval
of reals that round to it. -/
structure RoundingRange where
  /-- The number. -/
  value : Nat
  /-- The lower end. -/
  low : Nat
  /-- The upper end. -/
  high : Nat
  /-- The common denominator. -/
  unit : Nat
  /-- Whether the ends round to the number. -/
  closed : Bool

namespace RoundingRange

/-- The range of the positive finite number with magnitude bits `bits`.  The neighbour below a
power of two is only half as far away as the one above it. -/
def ofBits (bits : Nat) : RoundingRange :=
  let fraction := bits % Nat.pow 2 52
  let biased := bits / Nat.pow 2 52
  let m := if biased = 0 then fraction else fraction + Nat.pow 2 52
  let e : Int := (max biased 1 : Nat) - 1077
  let below := if fraction = 0 && 1 < biased then 1 else 2
  let scale := Nat.pow 2 e.toNat
  { value := 4 * m * scale
    low := (4 * m - below) * scale
    high := (4 * m + 2) * scale
    unit := Nat.pow 2 (-e).toNat
    closed := m % 2 == 0 }

/-- How many digits the decimal numeral of `n` has. -/
def digitCount (n : Nat) : Nat := (Nat.toDigits 10 n).length

/-- The power of ten of the first digit of the number. -/
def leading (r : RoundingRange) : Int :=
  if r.unit ≤ r.value then (digitCount (r.value / r.unit) : Int) - 1
  else -(digitCount ((r.unit - 1) / r.value) : Int)

/-- Whether `n / d` lies in the range. -/
def holds (r : RoundingRange) (n d : Nat) : Bool :=
  if r.closed then r.low * d ≤ n * r.unit && n * r.unit ≤ r.high * d
  else r.low * d < n * r.unit && n * r.unit < r.high * d

/-- The decimal of at most `k` digits in the range that is nearest to the number, if there is one.
Of two decimals that are equally near the larger is taken.  The grid point above the number can be
a power of ten, which has one digit. -/
def decimal? (r : RoundingRange) (k : Nat) : Option Decimal :=
  let exponent := r.leading + 1 - k
  let up := Nat.pow 10 exponent.toNat
  let down := Nat.pow 10 (-exponent).toNat
  let below := r.value * down / (r.unit * up)
  let above := below + 1
  let belowIn := r.holds (below * up) down
  let aboveIn := r.holds (above * up) down
  if aboveIn && (!belowIn || (below + above) * up * r.unit ≤ 2 * r.value * down) then
    if above = Nat.pow 10 k then some ⟨1, exponent + k⟩ else some ⟨above, exponent⟩
  else if belowIn then some ⟨below, exponent⟩
  else none

/-- The shortest decimal of the range.  Seventeen digits are always enough. -/
def shortest (r : RoundingRange) : Decimal :=
  ((List.range 17).findSome? fun k => r.decimal? (k + 1)).getD ⟨r.value / r.unit, 0⟩

end RoundingRange

end MonkeyLang
