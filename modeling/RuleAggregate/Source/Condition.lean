import RuleAggregate.Text.Blank
import RuleAggregate.Text.Slice

/-!
# Conditions as they are written

A condition is what an `accumulate` iterates over before offsets are assigned: patterns such as
`$o : Order($a : amount)`, combined by conjunction, disjunction, absence and presence.

## What is here

* `WrittenPattern`, `Condition` — patterns and their combinations.
* `Condition.isValid` — patterns name a type and no group is empty.
* `Condition.unwrap` — a conjunction of one condition is that condition.
* `Condition.patternCount` — how many patterns are written in a condition.
-/

set_option autoImplicit false

namespace RuleAggregate

/-- A field bound inside a pattern, `name : field`, with the type of the field. -/
structure FieldBinding where
  name : String
  field : String
  typeName : String
  deriving DecidableEq, Repr

/-- A pattern as it is written. -/
structure WrittenPattern where
  /-- The type of the matched object. -/
  typeName : String
  /-- The name bound to the matched object. -/
  name : Option String
  /-- The names bound to fields of the object. -/
  fields : List FieldBinding
  /-- Where the pattern is written. -/
  span : Text.Span
  deriving DecidableEq, Repr

namespace WrittenPattern

/-- Whether the pattern names a type. -/
def namesType (p : WrittenPattern) : Bool := !(Text.trim p.typeName.toList).isEmpty

end WrittenPattern

/-- A condition as it is written. -/
inductive Condition where
  | pattern (p : WrittenPattern)
  /-- Every one of the conditions holds. -/
  | all (children : List Condition)
  /-- Some one of the conditions holds. -/
  | any (children : List Condition)
  /-- There is no match. -/
  | absent (child : Condition)
  /-- There is some match. -/
  | present (child : Condition)

namespace Condition

mutual

/-- Whether the condition can be built: patterns name a type, and no group is empty. -/
def isValid : Condition → Bool
  | pattern p => p.namesType
  | all cs => !cs.isEmpty && areValid cs
  | any cs => !cs.isEmpty && areValid cs
  | absent c => isValid c
  | present c => isValid c

/-- Whether every one of the conditions can be built. -/
def areValid : List Condition → Bool
  | [] => true
  | c :: cs => isValid c && areValid cs

end

mutual

/-- How many patterns are written in the condition. -/
def patternCount : Condition → Nat
  | pattern _ => 1
  | all cs => patternCounts cs
  | any cs => patternCounts cs
  | absent c => patternCount c
  | present c => patternCount c

/-- How many patterns are written in the conditions. -/
def patternCounts : List Condition → Nat
  | [] => 0
  | c :: cs => patternCount c + patternCounts cs

end

/-- Replaces a conjunction of one condition by that condition, as often as possible. -/
def unwrap : Condition → Condition
  | all [c] => unwrap c
  | c => c

end Condition
end RuleAggregate
