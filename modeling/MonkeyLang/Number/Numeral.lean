import MonkeyLang.Number.Shortest

/-!
# Numerals

The texts of numbers.  A number of double precision is written with its shortest decimal, always
in positional notation: zeros fill the places up to the point, there is no exponent, and a whole
number has no point.  Zero keeps its sign.

In the other direction, a numeral of the language is digits with a point and more digits, and it
stands for the number nearest to it.

## Main definitions

* `Decimal.positional`: positional notation
* `Binary64.text`: the text of a number
* `Binary64.ofNumeral`: the number of a numeral
* `Binary64.read?`: the number of a text, with sign and the names of the special data
-/

namespace MonkeyLang

/-- The value of a numeral of decimal digits. -/
def digitsValue (digits : List Char) : Nat :=
  digits.foldl (fun n d => 10 * n + (d.toNat - 48)) 0

/-- The decimal in positional notation, without an exponent. -/
def Decimal.positional (d : Decimal) : List Char :=
  let digits := Nat.toDigits 10 d.digits
  let places := (-d.exponent).toNat
  if places = 0 then digits ++ List.replicate d.exponent.toNat '0'
  else if places < digits.length then
    digits.take (digits.length - places) ++ '.' :: digits.drop (digits.length - places)
  else '0' :: '.' :: List.replicate (places - digits.length) '0' ++ digits

namespace Binary64

/-- The text of a number. -/
def text (x : Binary64) : List Char :=
  if x.isNaN then ['N', 'a', 'N']
  else
    let body :=
      if x.isInfinite then ['i', 'n', 'f']
      else if x.magnitude = 0 then ['0']
      else (RoundingRange.ofBits x.magnitude.toNat).shortest.positional
    if x.negative then '-' :: body else body

/-- The number nearest to a numeral: digits, and more digits behind a point. -/
def ofNumeral (numeral : List Char) : Binary64 :=
  let whole := numeral.takeWhile (· ≠ '.')
  let fraction := (numeral.dropWhile (· ≠ '.')).drop 1
  ofRatio (digitsValue (whole ++ fraction)) (Nat.pow 10 fraction.length)

/-- Whether a text is a numeral without a sign. -/
def isNumeral (text : List Char) : Bool :=
  !text.isEmpty && text.all fun c => c.isDigit || c == '.'

/-- The number that a text writes without a sign. -/
def readUnsigned? (text : List Char) : Option Binary64 :=
  if text = ['N', 'a', 'N'] then some nan
  else if text = ['i', 'n', 'f'] then some infinity
  else if isNumeral text then some (ofNumeral text)
  else none

/-- The number that a text writes. -/
def read? : List Char → Option Binary64
  | '-' :: text => (readUnsigned? text).map neg
  | text => readUnsigned? text

end Binary64

end MonkeyLang
