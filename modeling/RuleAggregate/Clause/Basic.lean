import RuleAggregate.Source.Condition

/-!
# Accumulate clauses as they are written

## What is here

* `Call` — a function call, `$total : sum($o.amount)`.
* `InlineCode` — the fragments of an accumulate that is written out.
* `Clause` — an input condition with calls or with inline code.
-/

set_option autoImplicit false

namespace RuleAggregate

/-- A call of an aggregate function. -/
structure Call where
  function : String
  arguments : List String
  /-- The name that the result is bound to. -/
  binding : Option String
  /-- Where the call is written; empty if that is not known. -/
  span : Text.Span
  deriving DecidableEq, Repr

/-- The accumulated expression: the first argument, or an empty text if there are none. -/
def Call.argument (c : Call) : String := c.arguments.headD "\"\""

/-- The fragments of an accumulate that is written out. -/
structure InlineCode where
  init : String
  action : String
  reverse : Option String
  result : String
  deriving DecidableEq, Repr

/-- What a clause computes. -/
inductive Clause.Body where
  | calls (cs : List Call)
  | inline (code : InlineCode)

/-- An accumulate clause. -/
structure Clause where
  input : Option Condition
  body : Clause.Body
  /-- Where the clause is written. -/
  span : Text.Span

namespace Clause

/-- Whether there is an input that can be built. -/
def hasValidInput (c : Clause) : Bool := c.input.any Condition.isValid

/-- The input, if it can be built. -/
def validInput? (c : Clause) : Option Condition := c.input.filter Condition.isValid

/-- Whether several functions are called. -/
def isMulti (c : Clause) : Bool :=
  match c.body with
  | .calls cs => decide (1 < cs.length)
  | .inline _ => false

/-- Whether functions are meant to be called, but none is. -/
def isEmpty (c : Clause) : Bool :=
  match c.body with
  | .calls cs => cs.isEmpty
  | .inline _ => false

/-- Where a call of the clause is written: its own place, or that of the clause. -/
def callSpan (c : Clause) (call : Call) : Text.Span :=
  if call.span.isEmpty then c.span else call.span

end Clause
end RuleAggregate
