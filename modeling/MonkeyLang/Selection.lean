import MonkeyLang.Fault

/-!
# Positions in a sequence

An index picks one position of a sequence, a slice picks several in the order in which it passes
them.  Negative numbers count from the end of the sequence.  The start of a slice has to lie in the
sequence, like an index; its stop is cut to the sequence instead, and a stop so far to the left
that it lies before the sequence makes the slice empty.

Indices, stops and strides are integers of 64 bits.  A step that would leave them ends the slice.

## Main definitions

* `Selection`, `Selection.pick`: positions, and the items at them
* `resolveIndex`, `resolveStop`: positions of written numbers
* `ascending`, `descending`, `slicePositions`: the positions a slice passes
-/

namespace MonkeyLang

/-- What a subscript picks out of a sequence. -/
inductive Selection where
  /-- One position. -/
  | single (position : Nat)
  /-- Positions in the order in which a slice passes them. -/
  | several (positions : List Nat)

/-- The position of an index in a sequence of a given length. -/
def resolveIndex (length : Nat) (index : Int64) : Except Fault Int64 :=
  if Int64.ofNat length ≤ index then .error (.indexOutOfRange index length)
  else if index < 0 then
    if length < index.toInt.natAbs then .error (.indexOutOfRange index length)
    else .ok (Int64.ofNat length + index)
  else .ok index

/-- The position of the stop of a slice, or nothing if it lies before the sequence. -/
def resolveStop (length : Nat) (stop : Int64) : Option Int64 :=
  if stop < 0 then
    if length < stop.toInt.natAbs then none else some (Int64.ofNat length + stop)
  else some (if stop ≤ Int64.ofNat length then stop else Int64.ofNat length)

/-- The sum of two integers, if it has 64 bits. -/
def addWithin? (a b : Int64) : Option Int64 :=
  if Int64.minValue.toInt ≤ a.toInt + b.toInt ∧ a.toInt + b.toInt ≤ Int64.maxValue.toInt then
    some (Int64.ofInt (a.toInt + b.toInt))
  else none

/-- A sum of 64 bits is the sum of the integers. -/
theorem toInt_of_addWithin?_eq_some {a b c : Int64} (h : addWithin? a b = some c) :
    c.toInt = a.toInt + b.toInt := by
  unfold addWithin? at h
  split at h
  · rename_i hrange
    cases h
    have greatest : Int64.maxValue.toInt = 9223372036854775807 := by decide
    exact Int64.toInt_ofInt_of_le (by simpa using hrange.1) (by omega)
  · simp at h

/-- The positions from `i` up to before `stop`, as long as the stride leads further up. -/
def ascending (stop stride i : Int64) : List Nat :=
  if i < stop then
    i.toNatClampNeg ::
      match addWithin? i stride with
      | some next => if i < next then ascending stop stride next else []
      | none => []
  else []
termination_by (stop.toInt - i.toInt).toNat
decreasing_by
  simp only [Int64.lt_iff_toInt_lt] at *
  omega

/-- The positions from `i` down to above `stop`, as long as the stride leads further down. -/
def descending (stop stride i : Int64) : List Nat :=
  if stop < i then
    i.toNatClampNeg ::
      match addWithin? i stride with
      | some next => if next < i then descending stop stride next else []
      | none => []
  else []
termination_by (i.toInt - stop.toInt).toNat
decreasing_by
  simp only [Int64.lt_iff_toInt_lt] at *
  omega

/-- The positions a slice passes, from its resolved start and stop.  Where they are left out, the
slice runs over the whole sequence in the direction of its stride. -/
def slicePositions (length : Nat) (start stop : Option Int64) (stride : Int64) : List Nat :=
  if 0 < stride then ascending (stop.getD (Int64.ofNat length)) stride (start.getD 0)
  else descending (stop.getD (-1)) stride (start.getD (Int64.ofNat length - 1))

namespace Selection

variable {α : Type}

/-- The items of a sequence at the given positions. -/
def itemsAt (items : List α) (positions : List Nat) : List α :=
  let sequence := items.toArray
  positions.filterMap fun i => sequence[i]?

end Selection

end MonkeyLang
