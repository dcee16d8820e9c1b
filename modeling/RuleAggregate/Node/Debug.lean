import RuleAggregate.Node.Memory
import RuleAggregate.Value.Display

/-!
# Memories written out for inspection

A memory is written with the number of its contexts and with all the matches that it holds.
Values show their kind, so that `1` and `1.0` and the text `1` can be told apart.

## What is here

* `Value.inspect`, `Tuple.inspect`, `Match.inspect`, `Memory.inspect`.
* `Memory.handlesJson` — the handles of the held facts as a JSON array.
-/

set_option autoImplicit false

namespace RuleAggregate

/-- Between braces, what follows the name of a record. -/
def inBraces (s : String) : String := "\x7b" ++ s ++ "\x7d"

/-- A record: its name and its fields. -/
def record (name : String) (fields : List (String × String)) : String :=
  name ++ " " ++ inBraces (" " ++ joinWith ", " (fields.map fun f => f.1 ++ ": " ++ f.2) ++ " ")

/-- A list between brackets. -/
def inBrackets (items : List String) : String := "[" ++ joinWith ", " items ++ "]"

namespace Value

mutual

/-- A value with its kind. -/
def inspect : Value → String
  | null => "Null"
  | bool b => "Bool(" ++ (if b then "true" else "false") ++ ")"
  | int n => "Int(" ++ String.ofList (Decimal.writeInt n.toInt) ++ ")"
  | float x => "Float(" ++ displayFloat x ++ ")"
  | text s => "Text(" ++ Text.quote s ++ ")"
  | list items => "List(" ++ inBrackets (inspectItems items) ++ ")"
  | fact t fields =>
    "Fact(" ++ record "Fact" [("object_type", Text.quote t),
      ("fields", inBraces (joinWith ", " (inspectFields fields)))] ++ ")"

/-- The items of a list with their kinds. -/
def inspectItems : List Value → List String
  | [] => []
  | v :: vs => inspect v :: inspectItems vs

/-- The fields of a fact: the quoted name and the value with its kind. -/
def inspectFields : List (String × Value) → List String
  | [] => []
  | (name, v) :: fs => (Text.quote name ++ ": " ++ inspect v) :: inspectFields fs

end

end Value

/-- A tuple with the kinds of its objects. -/
def Tuple.inspect (t : Tuple) : String :=
  record "Tuple" [("objects", inBrackets (t.objects.map Value.inspect))]

/-- A match: its tuple and its fact. -/
def Match.inspect (m : Match) : String :=
  record "Matched" [("tuple", m.tuple.inspect), ("fact", m.fact.inspect)]

/-- A memory: how many contexts there are, and the held matches by handle. -/
def Memory.inspect {σ : Type} (m : Memory σ) : String :=
  record "AccumulateMemory" [("contexts", toString m.contexts.length),
    ("matches", inBraces (joinWith ", " (m.held.entries.map fun (h, matched) =>
      s!"FactHandle({h.id.toNat}): " ++ matched.inspect)))]

/-- The handles of the held facts as a JSON array. -/
def Memory.handlesJson {σ : Type} (m : Memory σ) : String :=
  "[" ++ joinWith "," (m.handles.map fun h => toString h.id.toNat) ++ "]"

end RuleAggregate
