import RuleAggregate.OrderedMap
import RuleAggregate.ValueType

/-!
# Values and facts

A value is what a tuple holds at one offset and what an aggregate function is given: nothing, a
truth value, a number, a text, a list, or a fact.

## What is here

* `Value` — runtime values, facts and lists nested to any depth.
* `Fact` — a fact on its own, whose field names are distinct by construction.
* `Value.WellFormed` — field names are distinct at every depth.  Whatever is built from facts by
  `Fact.set` is well formed.
* `Value.number?` — the numeric view of a value, in which integers are widened.
-/

set_option autoImplicit false

namespace RuleAggregate

/-- A runtime value.  The fields of a fact stand in the order in which they were first set. -/
inductive Value where
  | null
  | bool (b : Bool)
  | int (n : Int64)
  | float (x : Float)
  | text (s : String)
  | list (items : List Value)
  | fact (objectType : String) (fields : List (String × Value))
  deriving Inhabited

/-- The floating-point number nearest to an integer; of two nearest ones, the even one. -/
def widen (n : Int64) : Float :=
  if n.toInt < 0 then -(UInt64.ofNat n.toInt.natAbs).toFloat
  else (UInt64.ofNat n.toInt.natAbs).toFloat

/-- A typed object with named fields, in the order in which the names were first set. -/
structure Fact where
  /-- The name of the fact's type. -/
  objectType : String
  /-- The fields by name. -/
  fields : OrderedMap String Value

namespace Fact

/-- A fact of the given type without fields. -/
def ofType (objectType : String) : Fact := ⟨objectType, .empty⟩

/-- Assigns a field; a field that exists already keeps its place. -/
def set (f : Fact) (name : String) (v : Value) : Fact := { f with fields := f.fields.put name v }

/-- The value of a field. -/
def field? (f : Fact) (name : String) : Option Value := f.fields.get? name

/-- The fact as a value. -/
def toValue (f : Fact) : Value := .fact f.objectType f.fields.entries

end Fact

namespace Value

/-- The type of the value; `null` could be of any type. -/
def valueType : Value → ValueType
  | null => .any
  | bool _ => .boolean
  | int _ => .integer
  | float _ => .numeric
  | text _ => .text
  | list _ => .list
  | fact t _ => .object t

def isNull : Value → Bool
  | null => true
  | _ => false

/-- The value as a floating-point number, if it is a number.  Integers are widened. -/
def number? : Value → Option Float
  | int n => some (widen n)
  | float x => some x
  | _ => none

/-- The value as an integer, if it is one. -/
def integer? : Value → Option Int64
  | int n => some n
  | _ => none

/-- The items of a list. -/
def items? : Value → Option (List Value)
  | list items => some items
  | _ => none

/-- The type name of a fact. -/
def factType? : Value → Option String
  | fact t _ => some t
  | _ => none

mutual

/-- Field names are distinct in the value and in every value inside it. -/
def WellFormed : Value → Prop
  | list items => WellFormedItems items
  | fact _ fields => (Assoc.keys fields).Nodup ∧ WellFormedFields fields
  | _ => True

/-- Every item is well formed. -/
def WellFormedItems : List Value → Prop
  | [] => True
  | v :: vs => WellFormed v ∧ WellFormedItems vs

/-- The value of every field is well formed. -/
def WellFormedFields : List (String × Value) → Prop
  | [] => True
  | (_, v) :: fs => WellFormed v ∧ WellFormedFields fs

end

end Value
end RuleAggregate
