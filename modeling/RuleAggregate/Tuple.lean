import RuleAggregate.Value.Order

/-!
# Tuples and how declarations read them

A tuple is a partial match of a rule: one object for every pattern matched so far.  A declaration
reads its value from the object of its pattern through an accessor.

## What is here

* `Tuple` — the objects, indexed by pattern offset.
* `Accessor` — the object itself, a field of it, or a slot of a list read from it.
* `ReadError` — why an object could not be read.
* `Accessor.read` — the value that an accessor finds in an object.
-/

set_option autoImplicit false

namespace RuleAggregate

/-- Why a value could not be read from a tuple. -/
inductive ReadError where
  /-- The tuple is too short. -/
  | missingObject (offset : Nat)
  /-- A field was asked of something that is no fact. -/
  | notAFact (found : ValueType)
  /-- The fact lacks the field. -/
  | missingField (objectType field : String)
  /-- A slot was asked of something that is no list. -/
  | notAList (found : ValueType)
  /-- The list is too short. -/
  | indexOutOfBounds (index length : Nat)
  deriving DecidableEq, Repr

namespace ReadError

/-- The wording of the error. -/
def message : ReadError → String
  | missingObject offset => s!"no object at tuple offset {offset}"
  | notAFact found => "expected a fact, found " ++ found.display
  | missingField objectType field => "`" ++ objectType ++ "` has no field `" ++ field ++ "`"
  | notAList found => "expected a list, found " ++ found.display
  | indexOutOfBounds index length =>
    s!"index {index} out of bounds for result array of length {length}"

end ReadError

/-! ## Tuples -/

/-- A partial match: one object per pattern offset. -/
structure Tuple where
  objects : List Value
  deriving Inhabited

namespace Tuple

def empty : Tuple := ⟨[]⟩

/-- The object at an offset. -/
def get? (t : Tuple) (offset : Nat) : Option Value := t.objects[offset]?

/-- The object at an offset, or the error that names the offset. -/
def object (t : Tuple) (offset : Nat) : Except ReadError Value :=
  match t.get? offset with
  | some v => .ok v
  | none => .error (.missingObject offset)

/-- The tuple with an object appended at the next offset. -/
def push (t : Tuple) (v : Value) : Tuple := ⟨t.objects ++ [v]⟩

/-- How many objects there are; the next free offset. -/
def size (t : Tuple) : Nat := t.objects.length

/-- The tuple with nulls appended until it has `n` objects. -/
def padTo (t : Tuple) (n : Nat) : Tuple :=
  ⟨t.objects ++ List.replicate (n - t.size) .null⟩

/-- The tuple with all the objects appended. -/
def append (t : Tuple) (vs : List Value) : Tuple := ⟨t.objects ++ vs⟩

/-- The object at the highest offset. -/
def last? (t : Tuple) : Option Value := t.objects.getLast?

/-- Whether two tuples hold equal objects. -/
def eq (s t : Tuple) : Bool := Value.eqItems s.objects t.objects

@[simp] theorem get?_push_size (t : Tuple) (v : Value) : (t.push v).get? t.size = some v := by
  simp [push, get?, size]

end Tuple

/-! ## Accessors -/

/-- How a value is read from the object that a pattern matched. -/
inductive Accessor where
  /-- The object itself. -/
  | itself (valueType : ValueType)
  /-- A field of a fact. -/
  | field (name : String) (valueType : ValueType)
  /-- A slot of the list that another accessor reads. -/
  | element (array : Accessor) (index : Nat) (valueType : ValueType)
  deriving DecidableEq, Repr

/-- The value of a field of an object. -/
def readField (v : Value) (name : String) : Except ReadError Value :=
  match v with
  | .fact t fields =>
    match Assoc.get? name fields with
    | some w => .ok w
    | none => .error (.missingField t name)
  | v => .error (.notAFact v.valueType)

/-- The value in a slot of a list. -/
def readElement (v : Value) (index : Nat) : Except ReadError Value :=
  match v with
  | .list items =>
    match items[index]? with
    | some w => .ok w
    | none => .error (.indexOutOfBounds index items.length)
  | v => .error (.notAList v.valueType)

namespace Accessor

/-- The type of the value that is read. -/
def valueType : Accessor → ValueType
  | itself t => t
  | field _ t => t
  | element _ _ t => t

/-- The slot, if a slot of a list is read. -/
def index? : Accessor → Option Nat
  | element _ i _ => some i
  | _ => none

/-- The value that the accessor finds in an object. -/
def read : Accessor → Value → Except ReadError Value
  | itself _, v => .ok v
  | field name _, v => readField v name
  | element array i _, v =>
    match array.read v with
    | .ok w => readElement w i
    | .error e => .error e

end Accessor
end RuleAggregate
