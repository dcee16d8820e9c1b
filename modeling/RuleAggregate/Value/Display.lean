import RuleAggregate.Decimal.Format
import RuleAggregate.Text.Quoted
import RuleAggregate.Value.Basic

/-!
# Values in messages

Values are shown as they would be written in a rule: texts between quotes, lists between brackets,
facts as `Type(name: value, …)`.

## What is here

* `Value.shownFloat` — the layout of floating-point numbers.
* `Value.display` — the text of a value.
* `Fact.display` — the text of a fact.
-/

set_option autoImplicit false

namespace RuleAggregate

/-- Joins texts with a separator between any two of them. -/
def joinWith (separator : String) : List String → String
  | [] => ""
  | [s] => s
  | s :: t :: rest => s ++ separator ++ joinWith separator (t :: rest)

namespace Value

/-- Numbers from `0.0001` up and below `10 ^ 16` are shown with a decimal point, exponents
without a plus sign, and of two equally near decimals the one farther from zero is taken. -/
def shownFloat : FloatFormat := ⟨-4, 16, false, .up⟩

/-- The text of a floating-point number, the ones that are not finite included. -/
def displayFloat (x : Float) : String :=
  if x.isNaN then "NaN"
  else if x.isInf then (if x < 0 then "-inf" else "inf")
  else String.ofList (shownFloat.write x)

mutual

/-- The text of a value in messages. -/
def display : Value → String
  | null => "null"
  | bool b => if b then "true" else "false"
  | int n => String.ofList (Decimal.writeInt n.toInt)
  | float x => displayFloat x
  | text s => Text.quote s
  | list items => "[" ++ joinWith ", " (displayItems items) ++ "]"
  | fact t fields => t ++ "(" ++ joinWith ", " (displayFields fields) ++ ")"

/-- The texts of the items of a list. -/
def displayItems : List Value → List String
  | [] => []
  | v :: vs => display v :: displayItems vs

/-- The fields of a fact, each as its name and its value. -/
def displayFields : List (String × Value) → List String
  | [] => []
  | (name, v) :: fs => (name ++ ": " ++ display v) :: displayFields fs

end

end Value

/-- The text of a fact in messages. -/
def Fact.display (f : Fact) : String := f.toValue.display

end RuleAggregate
