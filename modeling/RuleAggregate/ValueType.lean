/-!
# Semantic types

Types are coarse on purpose: they label declarations and aggregate results, and nothing is ever
rejected because of one.

## What is here

* `ValueType` — the seven kinds of type.
* `ValueType.ofTypeName` — the type that a type name written in rule source stands for.
* `ValueType.display` — how a type is named in messages.
-/

set_option autoImplicit false

namespace RuleAggregate

/-- The type of a declaration or of an aggregate result. -/
inductive ValueType where
  /-- Unknown, or decided only when the rule runs. -/
  | any
  | boolean
  /-- Signed 64-bit integers. -/
  | integer
  /-- Floating-point numbers. -/
  | numeric
  | text
  | list
  /-- Facts of the named type. -/
  | object (name : String)
  deriving DecidableEq, Repr, Inhabited

namespace ValueType

/-- The type that a type name stands for.  A name that is not one of the usual names of numbers,
text and collections is the type of facts of that name. -/
def ofTypeName (name : String) : ValueType :=
  match name with
  | "int" | "long" | "short" | "byte" | "Integer" | "Long" | "BigInteger" => integer
  | "double" | "float" | "Double" | "Float" | "Number" | "BigDecimal" => numeric
  | "boolean" | "Boolean" => boolean
  | "String" | "char" | "Character" => text
  | "List" | "Set" | "Collection" | "ArrayList" | "HashSet" => list
  | "Object" => any
  | other => object other

/-- Integers and floating-point numbers are numbers. -/
def isNumeric : ValueType → Bool
  | integer | numeric => true
  | _ => false

/-- The name of the type in messages; a fact type shows under its own name. -/
def display : ValueType → String
  | any => "any"
  | boolean => "boolean"
  | integer => "integer"
  | numeric => "numeric"
  | text => "text"
  | list => "list"
  | object name => name

end ValueType
end RuleAggregate
