import RuleAggregate.Aggregate.Builtin

/-!
# Ledgers

A ledger is a running total that a user may register beside the built-in functions.  Its states
are those of `sum`.  It counts what is no number as zero, and it refuses to take back a negative
amount.  A capped ledger also refuses a value that lifts the total above its limit, but by then
the value has been added.

## What is here

* `AggregateFunction.bounded` — a ledger with an optional limit.
* `AggregateFunction.ledger`, `AggregateFunction.cap` — without a limit, and with the limit 100.
-/

set_option autoImplicit false

namespace RuleAggregate
namespace AggregateFunction

/-- The amount that a value stands for in a ledger. -/
def amount (v : Value) : Float := v.number?.getD 0.0

/-- A running total with an optional limit. -/
def bounded (name : String) (limit : Option Float) : AggregateFunction State where
  name := name
  resultType := .numeric
  init := .total 0.0
  accumulate s v := match s with
    | .total t =>
      let t := t + amount v
      if limit.any (fun l => l < t) then .failed (.total t) (.notNumeric name v.valueType)
      else .success (.total t)
    | s => mismatch name s
  reverse s v :=
    if amount v < 0.0 then .failed s (.reverseUnsupported name)
    else match s with
      | .total t => .success (.total (t - amount v))
      | s => mismatch name s
  result s := match s with
    | .total t => .ok (.float t)
    | _ => .error (.stateMismatch name)
  supportsReverse := true

/-- A running total. -/
def ledger : AggregateFunction State := bounded "ledger" none

/-- A running total of at most 100. -/
def cap : AggregateFunction State := bounded "cap" (some 100.0)

end AggregateFunction
end RuleAggregate
