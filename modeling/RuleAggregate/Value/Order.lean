import RuleAggregate.Value.Basic

/-!
# Equality and order of values

## What is here

* `Value.eq` — equality within a kind.  Floating-point numbers compare as numbers do: the two
  zeros are equal, and what is not a number equals nothing.  Facts are equal when their types
  agree and the same names carry equal values, in whatever order the names were set.
* `Value.compare?` — the order of two numbers, two texts or two truth values.
* `Value.NanFree` — nowhere inside the value is there a floating-point number that is none.
-/

set_option autoImplicit false

namespace RuleAggregate
namespace Value

/-! ## Equality -/

mutual

/-- Whether two values are equal. -/
def eq : Value → Value → Bool
  | null, null => true
  | bool a, bool b => a == b
  | int a, int b => a == b
  | float a, float b => a == b
  | text a, text b => a == b
  | list as, list bs => eqItems as bs
  | fact s fs, fact t gs => s == t && fs.length == gs.length && eqFields fs gs
  | _, _ => false

/-- Whether two lists have the same length and equal items at the same places. -/
def eqItems : List Value → List Value → Bool
  | [], [] => true
  | a :: as, b :: bs => eq a b && eqItems as bs
  | _, _ => false

/-- Whether every field of the first list has an equal one of the same name in the second. -/
def eqFields : List (String × Value) → List (String × Value) → Bool
  | [], _ => true
  | (k, a) :: fs, gs =>
    (match Assoc.get? k gs with
      | some b => eq a b
      | none => false) && eqFields fs gs

end

instance : BEq Value := ⟨eq⟩

mutual

/-- No floating-point number inside the value is NaN. -/
def NanFree : Value → Prop
  | float x => x.isNaN = false
  | list items => NanFreeItems items
  | fact _ fields => NanFreeFields fields
  | _ => True

/-- Every item is free of NaN. -/
def NanFreeItems : List Value → Prop
  | [] => True
  | v :: vs => NanFree v ∧ NanFreeItems vs

/-- The value of every field is free of NaN. -/
def NanFreeFields : List (String × Value) → Prop
  | [] => True
  | (_, v) :: fs => NanFree v ∧ NanFreeFields fs

end

/-! ## Order -/

/-- The order of two floating-point numbers, if both are numbers. -/
def compareFloat? (x y : Float) : Option Ordering :=
  if x < y then some .lt
  else if x == y then some .eq
  else if y < x then some .gt
  else none

/-- The order of two values: of integers as they are, of other numbers as floating-point numbers,
of texts by their characters, of truth values with `false` first.  Any other two values have no
order. -/
def compare? : Value → Value → Option Ordering
  | int a, int b => some (compare a.toInt b.toInt)
  | text a, text b => some (compare a b)
  | bool a, bool b => some (compare a b)
  | a, b =>
    match a.number?, b.number? with
    | some x, some y => compareFloat? x y
    | _, _ => none

end Value
end RuleAggregate
