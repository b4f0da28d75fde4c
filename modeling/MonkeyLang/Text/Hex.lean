/-!
# Hexadecimal digits

Lower-case hexadecimal numerals, of the least width or padded with zeros to four digits.

## Main definitions

* `Text.hex n`: the numeral of `n` without leading zeros
* `Text.hex4 n`: the last four digits of `n`
-/

namespace MonkeyLang.Text

/-- The digit for a value below sixteen. -/
def hexDigit (n : Nat) : Char :=
  if n < 10 then Char.ofNat (48 + n) else Char.ofNat (87 + n)

/-- The hexadecimal numeral of `n`, without leading zeros. -/
def hex (n : Nat) : List Char :=
  if n < 16 then [hexDigit n] else hex (n / 16) ++ [hexDigit (n % 16)]

/-- The last four hexadecimal digits of `n`. -/
def hex4 (n : Nat) : List Char :=
  [hexDigit (n / 4096 % 16), hexDigit (n / 256 % 16), hexDigit (n / 16 % 16), hexDigit (n % 16)]

end MonkeyLang.Text
