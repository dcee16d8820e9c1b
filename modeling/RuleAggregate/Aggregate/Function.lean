import RuleAggregate.Outcome
import RuleAggregate.Value.Order

/-!
# Aggregate functions

An aggregate function folds values into a state, one after the other, and reads its result from
the state.  Some functions can also take a value back out of the state.

## What is here

* `AggregateFunction σ` — a named function whose states have type `σ`.
* `FunctionError` — why a function could not fold in, take back, or read.
-/

set_option autoImplicit false

namespace RuleAggregate

/-- Why an aggregate function failed. -/
inductive FunctionError where
  /-- The function takes numbers only. -/
  | notNumeric (function : String) (found : ValueType)
  /-- The function cannot take values back. -/
  | reverseUnsupported (function : String)
  /-- The value to take back was never folded in. -/
  | notAccumulated (function value : String)
  /-- The state is one of another function. -/
  | stateMismatch (function : String)
  deriving DecidableEq, Repr

namespace FunctionError

/-- The wording of the error. -/
def message : FunctionError → String
  | notNumeric function found =>
    "`" ++ function ++ "` expects a numeric value, found " ++ found.display
  | reverseUnsupported function =>
    "`" ++ function ++ "` cannot reverse an accumulated value"
  | notAccumulated function value =>
    "`" ++ function ++ "` was asked to reverse " ++ value ++ ", which it never accumulated"
  | stateMismatch function =>
    "state passed to `" ++ function ++ "` was created by another function"

end FunctionError

/-- A named aggregate computation over states of type `σ`. -/
structure AggregateFunction (σ : Type) where
  name : String
  /-- The type of the values that `result` answers. -/
  resultType : ValueType
  /-- The state into which nothing has been folded yet. -/
  init : σ
  /-- Folds a value into the state. -/
  accumulate : σ → Value → Outcome σ FunctionError
  /-- Takes a value back that was folded in before. -/
  reverse : σ → Value → Outcome σ FunctionError
  /-- Reads the result from the state. -/
  result : σ → Except FunctionError Value
  /-- Whether `reverse` is meant to be used. -/
  supportsReverse : Bool

end RuleAggregate
