import RuleAggregate.Decimal.Integer
import RuleAggregate.Decimal.Shortest

/-!
# Writing floating-point numbers

The digits of a number come from `Binary.shortest`; a `FloatFormat` says how they are laid out.
Between two powers of ten a number is written with a decimal point and at least one digit after
it (`100.0`, `0.001`); outside it is written with an exponent (`1e16`, `2.5e-7`).

## What is here

* `FloatFormat` — the choices: where the decimal point ends, the sign of an exponent, ties.
* `FloatFormat.write` — the text of a finite number.
-/

set_option autoImplicit false

namespace RuleAggregate

/-- How a finite floating-point number is laid out. -/
structure FloatFormat where
  /-- Numbers from `10 ^ least` up are written with a decimal point. -/
  least : Int
  /-- Numbers below `10 ^ bound` are written with a decimal point. -/
  bound : Int
  /-- Whether an exponent that is not negative gets a plus sign. -/
  plus : Bool
  /-- Which of two equally near decimals is written. -/
  tie : Decimal.Tie

namespace FloatFormat

/-- The digits with the decimal point at its place and at least one digit after it. -/
def positional (digits : List Char) (point : Int) : List Char :=
  if point ≤ 0 then
    ['0', '.'] ++ List.replicate (-point).toNat '0' ++ digits
  else
    let whole := digits ++ List.replicate (point.toNat - digits.length) '0'
    let rest := whole.drop point.toNat
    whole.take point.toNat ++ '.' :: (if rest.isEmpty then ['0'] else rest)

/-- One digit, the others after a decimal point, and the exponent. -/
def scientific (plus : Bool) (digits : List Char) (exponent : Int) : List Char :=
  let rest := digits.drop 1
  let sign := if exponent < 0 then ['-'] else if plus then ['+'] else []
  digits.take 1 ++ (if rest.isEmpty then [] else '.' :: rest)
    ++ 'e' :: sign ++ Decimal.digits exponent.natAbs

/-- The text of a finite number. -/
def write (f : FloatFormat) (x : Float) : List Char :=
  let sign := if x.toBits.toNat / Decimal.twoTo 63 % 2 = 1 then ['-'] else []
  let magnitude := Decimal.Binary.ofBits x.toBits
  if magnitude.mantissa = 0 then sign ++ ['0', '.', '0']
  else
    let d := magnitude.shortest f.tie
    let digits := Decimal.digits d.value
    if f.least < d.point ∧ d.point ≤ f.bound then sign ++ positional digits d.point
    else sign ++ scientific f.plus digits (d.point - 1)

end FloatFormat
end RuleAggregate
