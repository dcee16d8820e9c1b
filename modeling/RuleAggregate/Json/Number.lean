import RuleAggregate.Decimal.Integer

/-!
# Numbers in JSON

An integer that fits 64 bits stays an integer.  Every other number is read to floating point in
one pass: the leading digits that fit 64 bits, scaled by one power of ten.  That is fast and may
miss the nearest number by a step.

## What is here

* `Json.Numeral` — the parts of a number as written.
* `Json.takeNumeral?` — splits a number off the front of a text.
* `Json.Numeral.value?` — what the number stands for; `none` if it is too large.
-/

set_option autoImplicit false

namespace RuleAggregate
namespace Json

/-- A number as written: sign, digits before and after the point, and exponent. -/
structure Numeral where
  negative : Bool
  whole : List Char
  /-- `none` if there is no point. -/
  fraction : Option (List Char)
  /-- `none` if there is no exponent. -/
  exponent : Option Int

/-- What a number stands for. -/
inductive Number where
  | int (n : Int64)
  | float (x : Float)

/-! ## Splitting a number off a text -/

/-- The digits before the point: a lone zero, or digits that do not start with a zero. -/
def takeWhole? (s : List Char) : Option (List Char × List Char) :=
  match s.takeWhile Decimal.isDigit with
  | [] => none
  | ['0'] => some (['0'], s.dropWhile Decimal.isDigit)
  | '0' :: _ => none
  | ds => some (ds, s.dropWhile Decimal.isDigit)

/-- One or more digits. -/
def takeDigits? (s : List Char) : Option (List Char × List Char) :=
  match s.takeWhile Decimal.isDigit with
  | [] => none
  | ds => some (ds, s.dropWhile Decimal.isDigit)

/-- The point and the digits after it, if the text starts with a point. -/
def takeFraction? : List Char → Option (Option (List Char) × List Char)
  | '.' :: r => (takeDigits? r).map fun (ds, r) => (some ds, r)
  | r => some (none, r)

/-- The exponent, if the text starts with one. -/
def takeExponent? : List Char → Option (Option Int × List Char)
  | c :: r =>
    if c = 'e' ∨ c = 'E' then
      let (negative, r) := Decimal.splitSign r
      (takeDigits? r).map fun (ds, r) =>
        (some (if negative then -(Decimal.value ds : Int) else Decimal.value ds), r)
    else some (none, c :: r)
  | [] => some (none, [])

/-- Splits a number off the front of a text. -/
def takeNumeral? (s : List Char) : Option (Numeral × List Char) :=
  let (negative, r) :=
    match s with
    | '-' :: r => (true, r)
    | r => (false, r)
  (takeWhole? r).bind fun (whole, r) =>
    (takeFraction? r).bind fun (fraction, r) =>
      (takeExponent? r).map fun (exponent, r) => (⟨negative, whole, fraction, exponent⟩, r)

/-! ## What a number stands for -/

/-- The largest number of 64 bits. -/
def maxWord : Nat := Decimal.twoTo 64 - 1

/-- Appends digits to `n` as long as the number fits 64 bits; the digits left over come second. -/
def appendDigits (n : Nat) : List Char → Nat × List Char
  | [] => (n, [])
  | c :: ds =>
    let m := 10 * n + Decimal.digitValue c
    if m ≤ maxWord then appendDigits m ds else (n, c :: ds)

/-- `10 ^ n`, to the nearest floating-point number. -/
def powerOfTen (n : Nat) : Float := Float.ofScientific 1 false n

/-- `x · 10 ^ e` by one multiplication or division; below `10 ^ -308` after further divisions by
`10 ^ 308`.  `none` if the result is too large. -/
def scale? (x : Float) (e : Int) : Option Float :=
  if 0 ≤ e then
    if e ≤ 308 then
      let y := x * powerOfTen e.natAbs
      if y.isInf then none else some y
    else if x == 0.0 then some x
    else none
  else if -308 ≤ e then some (x / powerOfTen e.natAbs)
  else if x == 0.0 then some x
  else scale? (x / powerOfTen 308) (e + 308)
termination_by e.natAbs
decreasing_by omega

/-- The floating-point number that the parts stand for, without the sign. -/
def Numeral.magnitude? (n : Numeral) : Option Float :=
  let (significand, dropped) := appendDigits 0 n.whole
  let (significand, used) :=
    match n.fraction with
    | none => (significand, 0)
    | some ds =>
      let (significand, rest) := appendDigits significand ds
      (significand, ds.length - rest.length)
  scale? (UInt64.ofNat significand).toFloat
    ((dropped.length : Int) - used + n.exponent.getD 0)

/-- What a number stands for: an integer if it is written as one and fits 64 bits, but a negative
zero keeps its sign as a floating-point number. -/
def Numeral.value? (n : Numeral) : Option Number :=
  let m := Decimal.value n.whole
  let i : Int := if n.negative then -(m : Int) else m
  if n.fraction.isNone ∧ n.exponent.isNone ∧ Int64.minValue.toInt ≤ i ∧ i ≤ Int64.maxValue.toInt
      ∧ ¬ (n.negative ∧ m = 0) then
    some (.int (Int64.ofInt i))
  else n.magnitude?.map fun x => .float (if n.negative then -x else x)

end Json
end RuleAggregate
