import RuleAggregate.Aggregate.Compiler
import RuleAggregate.Path.Basic

/-!
# Compiling path expressions

A name in an expression is looked up among the declarations of the source, then among the
required declarations, then among the globals.

## What is here

* `Argument` — an expression whose name has been looked up.
* `Argument.evaluate` — its value for a match.
* `Argument.resolve` — looks the name of an expression up.
* `Compiler.paths` — the compiler of function calls over path expressions.
-/

set_option autoImplicit false

namespace RuleAggregate

/-- Where the name of a path was found. -/
inductive Argument.Root where
  /-- A literal or the value of a global. -/
  | constant (v : Value)
  /-- A declaration of the source. -/
  | inner (d : Declaration)
  /-- A declaration of the rule around the clause. -/
  | outer (d : Declaration)

/-- An expression whose name has been looked up. -/
structure Argument where
  root : Argument.Root
  fields : List String
  /-- Whether declarations of the source are read from the tuple instead of the fact. -/
  fromTuple : Bool

namespace Argument

/-- Follows fields from a value, one after the other. -/
def follow (v : Value) : List String → Except ReadError Value
  | [] => .ok v
  | name :: names =>
    match readField v name with
    | .ok w => follow w names
    | .error e => .error e

/-- The value of the root for a match. -/
def rootValue (a : Argument) (t : Tuple) (fact : Value) : Except ReadError Value :=
  match a.root with
  | .constant v => .ok v
  | .inner d => if a.fromTuple then d.value t else d.valueOf fact
  | .outer d => d.value t

/-- The value of the expression for a match. -/
def evaluate (a : Argument) (t : Tuple) (fact : Value) : Except ReadError Value :=
  match a.rootValue t fact with
  | .ok v => follow v a.fields
  | .error e => .error e

/-- The first declaration of a name. -/
def declaration? (name : String) (ds : List Declaration) : Option Declaration :=
  ds.find? fun d => d.name = name

/-- Looks a name up. -/
def rootOf {σ : Type} (values : OrderedMap String Value) (request : Request σ) (name : String) :
    Except PathError Root :=
  match declaration? name request.inner with
  | some d => .ok (.inner d)
  | none =>
    match declaration? name request.required with
    | some d => .ok (.outer d)
    | none =>
      if request.globals.contains name then
        match values.get? name with
        | some v => .ok (.constant v)
        | none => .error (.globalWithoutValue name)
      else .error (.unknownName name)

/-- Reads an expression and looks its name up. -/
def resolve {σ : Type} (values : OrderedMap String Value) (request : Request σ)
    (expression : String) : Except PathError Argument :=
  match PathExpr.read expression with
  | .error e => .error e
  | .ok (.literal v) => .ok ⟨.constant v, [], request.fromTuple⟩
  | .ok (.path name fields) =>
    (rootOf values request name).map fun root => ⟨root, fields, request.fromTuple⟩

end Argument

/-- The compiler of function calls over path expressions, given the values of the globals. -/
def Compiler.paths {σ : Type} (values : OrderedMap String Value) : Compiler σ := fun request =>
  match request.kind with
  | .inline _ =>
    .error (.unsupported request.unit
      "inline accumulate code needs a host expression compiler")
  | .call f expression =>
    match Argument.resolve values request expression with
    | .ok a => .ok (.feeding f a.evaluate)
    | .error e => .error (.invalid request.unit e.message)

end RuleAggregate
