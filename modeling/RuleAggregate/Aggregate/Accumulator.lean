import RuleAggregate.Aggregate.Builtin
import RuleAggregate.Tuple

/-!
# Accumulators

An accumulator is an aggregate function with everything it needs to find its values: it is handed
the tuple of a match and the fact to fold in, and keeps a context for every partial match.

## What is here

* `Accumulator σ` — an executable unit whose contexts have type `σ`.
* `Accumulator.feeding` — evaluates an argument for every match and feeds it to a function.
* `Accumulator.gathering` — gathers the facts themselves.
* `AccumulateError` — why an accumulator failed.
-/

set_option autoImplicit false

namespace RuleAggregate

/-- Why an accumulator failed. -/
inductive AccumulateError where
  /-- A value could not be read from the tuple or the fact. -/
  | read (e : ReadError)
  /-- The aggregate function failed. -/
  | function (e : FunctionError)
  /-- The accumulator cannot take facts back. -/
  | reverseUnsupported
  deriving DecidableEq, Repr

namespace AccumulateError

/-- The wording of the error. -/
def message : AccumulateError → String
  | read e => e.message
  | function e => e.message
  | reverseUnsupported => "accumulator cannot reverse"

end AccumulateError

/-- An executable aggregation unit with contexts of type `σ`. -/
structure Accumulator (σ : Type) where
  /-- The context of a partial match into which no fact has been folded yet. -/
  init : Tuple → Except AccumulateError σ
  /-- Folds a fact into the context. -/
  accumulate : σ → Tuple → Value → Outcome σ AccumulateError
  /-- Takes a fact back that was folded in before. -/
  reverse : σ → Tuple → Value → Outcome σ AccumulateError
  /-- Reads the result from the context. -/
  result : σ → Tuple → Except AccumulateError Value
  /-- Whether `reverse` is meant to be used. -/
  supportsReverse : Bool
  /-- The type of the values that `result` answers. -/
  resultType : ValueType

namespace Accumulator

variable {σ : Type}

/-- Hands the value of an argument to a step of a function. -/
def feed (step : σ → Value → Outcome σ FunctionError) (argument : Except ReadError Value) (s : σ) :
    Outcome σ AccumulateError :=
  match argument with
  | .error e => .failed s (.read e)
  | .ok v => (step s v).mapFailure .function

/-- Evaluates an argument for every match and feeds it to a function. -/
def feeding (f : AggregateFunction σ) (argument : Tuple → Value → Except ReadError Value) :
    Accumulator σ where
  init _ := .ok f.init
  accumulate s t fact := feed f.accumulate (argument t fact) s
  reverse s t fact := feed f.reverse (argument t fact) s
  result s _ := (f.result s).mapError .function
  supportsReverse := f.supportsReverse
  resultType := f.resultType

/-- Gathers the facts in the order in which they arrive, and never gives one back, whatever it
says about itself. -/
def gathering (resultType : ValueType) (supportsReverse : Bool) : Accumulator State where
  init _ := .ok (.items [])
  accumulate s _ fact := match s with
    | .items facts => .success (.items (facts ++ [fact]))
    | s => .success s
  reverse s _ _ := .failed s .reverseUnsupported
  result s _ := match s with
    | .items facts => .ok (.list facts)
    | _ => .ok (.list [])
  supportsReverse := supportsReverse
  resultType := resultType

end Accumulator
end RuleAggregate
