import RuleAggregate.Aggregate.Accumulator
import RuleAggregate.Code.Hoist
import RuleAggregate.Scope.Basic

/-!
# Requests to a compiler

Code is not interpreted while a clause is built.  Every unit of it goes to a compiler together
with all it may use, and comes back as an accumulator.

## What is here

* `Request σ` — a unit of code with the declarations and globals that it uses.
* `Compiler σ` — anything that turns requests into accumulators or fails.
* `Compiler.gathering`, `Compiler.refusing` — compilers that do not look at the code.
-/

set_option autoImplicit false

namespace RuleAggregate

/-- The fragments of an inline accumulate after its local variables became attributes. -/
structure InlineBody where
  init : String
  /-- The variables that init code declared. -/
  attributes : List Attribute
  action : String
  reverse : Option String
  result : String
  deriving DecidableEq, Repr

/-- The two kinds of unit. -/
inductive Request.Kind (σ : Type) where
  /-- An aggregate function fed with the value of an expression. -/
  | call (function : AggregateFunction σ) (expression : String)
  | inline (body : InlineBody)

/-- A unit to compile. -/
structure Request (σ : Type) where
  /-- The name of the unit. -/
  unit : String
  kind : Request.Kind σ
  /-- The declarations that the unit mentions, in the order of their first mention. -/
  required : List Declaration
  /-- The globals that the unit mentions. -/
  globals : OrderedMap String ValueType
  /-- The declarations of the source, by name in alphabetical order. -/
  inner : List Declaration
  /-- Whether declarations of the source are read from the tuple instead of the fact. -/
  fromTuple : Bool

/-- Why a unit could not be compiled. -/
inductive CompileError where
  /-- The compiler does not take units of the kind. -/
  | unsupported (unit reason : String)
  /-- The code of the unit is wrong. -/
  | invalid (unit message : String)
  deriving DecidableEq, Repr

namespace CompileError

/-- The wording of the error. -/
def message : CompileError → String
  | unsupported unit reason => "`" ++ unit ++ "` cannot be compiled: " ++ reason
  | invalid unit message => "invalid expression in `" ++ unit ++ "`: " ++ message

end CompileError

/-- Turns units into accumulators. -/
abbrev Compiler (σ : Type) := Request σ → Except CompileError (Accumulator σ)

namespace Compiler

/-- The compiler whose accumulators gather facts, but report the type and the reversibility that
the unit asks for. -/
def gathering : Compiler State := fun request =>
  match request.kind with
  | .call f _ => .ok (.gathering f.resultType f.supportsReverse)
  | .inline body => .ok (.gathering .any body.reverse.isSome)

/-- The compiler that refuses the unit of a name with a message. -/
def refusing {σ : Type} (unit message : String) (compile : Compiler σ) : Compiler σ :=
  fun request =>
    if request.unit = unit then .error (.invalid request.unit message) else compile request

end Compiler
end RuleAggregate
