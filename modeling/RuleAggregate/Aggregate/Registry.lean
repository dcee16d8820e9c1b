import RuleAggregate.Aggregate.Builtin

/-!
# Registries of aggregate functions

## What is here

* `Registry σ` — aggregate functions by the name under which rules call them, in the order in
  which the names were first registered.
* `Registry.register`, `Registry.registerAll` — add functions; the last one of a name wins.
* `Registry.builtins` — the registry of the built-in functions.
-/

set_option autoImplicit false

namespace RuleAggregate

/-- Aggregate functions by name. -/
abbrev Registry (σ : Type) := OrderedMap String (AggregateFunction σ)

namespace Registry

variable {σ : Type}

/-- Registers a function under a name.  A function that has the name already is replaced. -/
def register (r : Registry σ) (name : String) (f : AggregateFunction σ) : Registry σ :=
  r.put name f

/-- Registers functions under their own names. -/
def registerAll (r : Registry σ) (fs : List (AggregateFunction σ)) : Registry σ :=
  fs.foldl (fun r f => register r f.name f) r

/-- The registry of the built-in functions. -/
def builtins : Registry State := registerAll .empty AggregateFunction.builtins

end Registry
end RuleAggregate
