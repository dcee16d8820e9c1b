import RuleAggregate.Tuple

/-!
# Declarations and patterns

A declaration is a variable of a rule.  It is bound by a pattern, which matches one object of
every tuple, and its value is read from that object.

## What is here

* `Declaration` — a name, the offset of its pattern, and an accessor.
* `Pattern` — an offset, the type of the matched object, and the declarations bound on it.
-/

set_option autoImplicit false

namespace RuleAggregate

/-- A variable of a rule. -/
structure Declaration where
  name : String
  /-- The offset of the pattern that binds the variable. -/
  offset : Nat
  /-- How the value is read from the object of the pattern. -/
  accessor : Accessor
  deriving DecidableEq, Repr

namespace Declaration

def valueType (d : Declaration) : ValueType := d.accessor.valueType

/-- The value of the variable in the object that its pattern matched. -/
def valueOf (d : Declaration) (v : Value) : Except ReadError Value := d.accessor.read v

/-- The value of the variable in a tuple. -/
def value (d : Declaration) (t : Tuple) : Except ReadError Value :=
  match t.object d.offset with
  | .ok v => d.valueOf v
  | .error e => .error e

end Declaration

/-- A pattern: matches the object at one offset of every tuple and owns what is bound on it. -/
structure Pattern where
  offset : Nat
  /-- The type of the matched object. -/
  objectType : ValueType
  /-- Whether the object comes from a source nested in the pattern. -/
  nested : Bool
  /-- The declarations bound on the pattern, by name, in binding order. -/
  bound : OrderedMap String Declaration

namespace Pattern

/-- A pattern on which nothing is bound. -/
def atOffset (offset : Nat) (objectType : ValueType) (nested : Bool) : Pattern :=
  ⟨offset, objectType, nested, .empty⟩

/-- Binds a name on the pattern.  A name that is bound already keeps its place and gets the new
accessor. -/
def bind (p : Pattern) (name : String) (accessor : Accessor) : Pattern :=
  { p with bound := p.bound.put name ⟨name, p.offset, accessor⟩ }

/-- The declaration of a name on the pattern. -/
def declaration? (p : Pattern) (name : String) : Option Declaration := p.bound.get? name

/-- The declarations in binding order. -/
def declarations (p : Pattern) : List Declaration := p.bound.values

theorem declaration?_bind (p : Pattern) (k name : String) (a : Accessor) :
    (p.bind k a).declaration? name =
      if k = name then some ⟨k, p.offset, a⟩ else p.declaration? name :=
  OrderedMap.get?_put p.bound k name _

end Pattern
end RuleAggregate
