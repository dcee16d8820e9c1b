import RuleAggregate.Decimal.Integer

/-!
# The shortest decimal of a floating-point number

A floating-point number is written with the fewest digits that read back to it; of two such
decimals the nearer one is taken.  Everything here is exact arithmetic on natural numbers.

## What is here

* `Binary` — a positive number `mantissa · 2 ^ exponent` with the format's bounds, and the reals
  that round to it (`Binary.holds`).
* `Digits` — a decimal `0.d₁d₂…dₙ · 10 ^ point`.
* `shortest` — the search: grids of 1, 2, … 17 digits, the two neighbours on each.
* `Tie` — which of two equally near decimals is taken; that is the one choice left to a format.
-/

set_option autoImplicit false

namespace RuleAggregate
namespace Decimal

/-- Which of two equally near decimals is taken. -/
inductive Tie where
  /-- The one farther from zero. -/
  | up
  /-- The one whose last digit is even. -/
  | even
  deriving DecidableEq, Repr

/-- The positive number `mantissa · 2 ^ exponent` of the double format. -/
structure Binary where
  mantissa : Nat
  exponent : Int

/-- The decimal `0.d · 10 ^ point`, where `d` are the digits of `value` and there are `count` of
them. -/
structure Digits where
  value : Nat
  count : Nat
  point : Int
  deriving DecidableEq, Repr

/-- The magnitude that the bits of a finite double stand for. -/
def Binary.ofBits (bits : UInt64) : Binary :=
  let fraction := bits.toNat % twoTo 52
  let biased := bits.toNat / twoTo 52 % twoTo 11
  if biased = 0 then ⟨fraction, -1074⟩ else ⟨twoTo 52 + fraction, (biased : Int) - 1075⟩

namespace Binary

/-- Four times the mantissa, so that the halves and quarters of a step are whole numbers. -/
def quarters (b : Binary) : Nat := 4 * b.mantissa

/-- The lower end, in quarters of a step, of the reals that round to the number.  Just above a
power of two the step below is half as long. -/
def lower (b : Binary) : Nat :=
  if b.mantissa = twoTo 52 ∧ b.exponent ≠ -1074 then b.quarters - 1 else b.quarters - 2

/-- The upper end, in quarters of a step. -/
def upper (b : Binary) : Nat := b.quarters + 2

/-- A quarter of a step over a grid of `10 ^ grid`, as a fraction. -/
def ratio (b : Binary) (grid : Int) : Nat × Nat :=
  let step := b.exponent - 2
  (twoTo step.toNat * tenTo (-grid).toNat, twoTo (-step).toNat * tenTo grid.toNat)

/-- Whether `d · 10 ^ grid` is one of the reals that round to the number.  The ends belong to it
when the mantissa is even. -/
def holds (b : Binary) (grid : Int) (d : Nat) : Bool :=
  let (num, den) := b.ratio grid
  if b.mantissa % 2 = 0 then b.lower * num ≤ d * den && d * den ≤ b.upper * num
  else b.lower * num < d * den && d * den < b.upper * num

/-- The integer part of the number over `10 ^ grid`. -/
def floorOn (b : Binary) (grid : Int) : Nat :=
  let (num, den) := b.ratio grid
  b.quarters * num / den

/-- The position of the decimal point before the first digit: the least `p` with the number below
`10 ^ p`. -/
def point (b : Binary) : Int :=
  let e := ((b.mantissa.log2 : Int) + b.exponent) * 30103 / 100000
  if b.floorOn (e + 1) ≠ 0 then e + 2 else if b.floorOn e ≠ 0 then e + 1 else e

/-- The better of the two neighbours `d` and `d + 1` of the number on a grid, if one of them reads
back to the number. -/
def nearest? (b : Binary) (tie : Tie) (grid : Int) : Option Nat :=
  let d := b.floorOn grid
  let (num, den) := b.ratio grid
  match b.holds grid d, b.holds grid (d + 1) with
  | false, false => none
  | true, false => some d
  | false, true => some (d + 1)
  | true, true =>
    match compare (2 * (b.quarters * num)) ((2 * d + 1) * den) with
    | .lt => some d
    | .gt => some (d + 1)
    | .eq =>
      match tie with
      | .up => some (d + 1)
      | .even => some (if d % 2 = 0 then d else d + 1)

/-- The shortest decimal on the grids of `count` digits and more; `fuel` bounds how many more. -/
def shortestFrom (b : Binary) (tie : Tie) (point : Int) (count : Nat) : Nat → Digits
  | 0 => ⟨b.floorOn (point - count), count, point⟩
  | fuel + 1 =>
    match b.nearest? tie (point - count) with
    | some d => if d = tenTo count then ⟨1, 1, point + 1⟩ else ⟨d, count, point⟩
    | none => shortestFrom b tie point (count + 1) fuel

/-- The shortest decimal that reads back to the number.  Seventeen digits always do. -/
def shortest (b : Binary) (tie : Tie) : Digits := b.shortestFrom tie b.point 1 17

end Binary
end Decimal
end RuleAggregate
