import RuleAggregate.Decimal.Integer

/-!
# Reading decimals

A decimal is read to the floating-point number nearest to it; of two nearest ones the even one.

## What is here

* `Decimal.toFloat` — the number nearest to `m · 10 ^ e`.
* `Decimal.readFloat?` — signs, digits with an optional point and exponent, `inf` and `nan`.
-/

set_option autoImplicit false

namespace RuleAggregate
namespace Decimal

/-- The floating-point number nearest to `m · 10 ^ e`: zero below the least one, infinity above
the greatest one.  The two bounds keep the powers of ten small. -/
def toFloat (m : Nat) (e : Int) : Float :=
  if m = 0 then 0.0
  else
    let top := ((digits m).length : Int) + e
    if top < -330 then 0.0
    else if 330 < top then 1.0 / 0.0
    else if e < 0 then Float.ofScientific m true e.natAbs
    else Float.ofScientific m false e.natAbs

/-- Reads the exponent at the end of a number: nothing, or `e` with a signed run of digits. -/
def readExponent? : List Char → Option Int
  | [] => some 0
  | c :: r =>
    if c = 'e' ∨ c = 'E' then
      let (negative, ds) := splitSign r
      if ds.isEmpty || !ds.all isDigit then none
      else some (if negative then -(value ds : Int) else value ds)
    else none

/-- Reads an unsigned number: digits, possibly with a point among them or at either end, and an
optional exponent. -/
def readUnsigned? (s : List Char) : Option Float :=
  let whole := s.takeWhile isDigit
  let rest := s.dropWhile isDigit
  let (fraction, rest) :=
    match rest with
    | '.' :: r => (r.takeWhile isDigit, r.dropWhile isDigit)
    | r => ([], r)
  if whole.isEmpty && fraction.isEmpty then none
  else
    (readExponent? rest).map fun e => toFloat (value (whole ++ fraction)) (e - fraction.length)

/-- Reads a floating-point number.  The names of the infinities and of the number that is none
are recognised in any mixture of capitals. -/
def readFloat? (s : List Char) : Option Float :=
  let (negative, r) := splitSign s
  let name := r.map Char.toLower
  let magnitude :=
    if name = ['i', 'n', 'f'] ∨ name = ['i', 'n', 'f', 'i', 'n', 'i', 't', 'y'] then
      some (1.0 / 0.0)
    else if name = ['n', 'a', 'n'] then some (0.0 / 0.0)
    else readUnsigned? r
  magnitude.map fun x => if negative then -x else x

end Decimal
end RuleAggregate
