import RuleAggregate.Aggregate.Accumulator
import RuleAggregate.Source.Basic

/-!
# Aggregation nodes

## What is here

* `Node σ` — a built clause: a source, and the accumulators that its matches are folded into.
* `Node.accumulators` — the accumulators in the order of the calls.
* `Node.reverses` — whether a fact can be taken back without folding the others anew.
-/

set_option autoImplicit false

namespace RuleAggregate

variable {σ : Type}

/-- The accumulators of a node. -/
inductive Accumulators (σ : Type) where
  /-- One accumulator, whose result is the result of the node. -/
  | single (a : Accumulator σ)
  /-- One accumulator for every call; the result of the node is the list of their results. -/
  | several (as : List (Accumulator σ))

/-- A built clause. -/
structure Node (σ : Type) where
  /-- Where the facts come from. -/
  source : Source
  /-- The declarations that the accumulators read, in the order of their first mention. -/
  required : List Declaration
  shape : Accumulators σ
  /-- Whether the clause was built to take facts back in place. -/
  incremental : Bool

namespace Node

/-- The accumulators, in the order of the calls. -/
def accumulators (n : Node σ) : List (Accumulator σ) :=
  match n.shape with
  | .single a => [a]
  | .several as => as

/-- Whether the result of the node is a list of results. -/
def isMulti (n : Node σ) : Bool :=
  match n.shape with
  | .single _ => false
  | .several _ => true

/-- Whether facts are taken back in place: the node is meant to, and all accumulators can. -/
def reverses (n : Node σ) : Bool := n.incremental && n.accumulators.all (·.supportsReverse)

/-- The least offset of the source; zero if the source has no patterns. -/
def sourceOffset (n : Node σ) : Nat := n.source.firstOffset?.getD 0

end Node
end RuleAggregate
