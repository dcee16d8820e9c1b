import RuleAggregate.Proofs.Clause.Calls
import RuleAggregate.Proofs.Node.Tracking

/-!
# Clauses over built-in functions

A clause of calls that only finds built-in functions becomes a node of `BuiltinCall`s, one for each
call, in the order of the calls.  What holds of such nodes holds of the clauses that rules have.

## What is here

* `Registry.mem_builtins_of_get?` — the registry of the built-in functions holds nothing else.
* `Builder.exists_builtinCalls` — **the node of a clause over built-in functions is one of
  `BuiltinCall`s.**
-/

set_option autoImplicit false

namespace RuleAggregate

/-! ## Registries -/

namespace Registry

variable {σ : Type}

/-- A function that is found after functions were registered is one of them, unless it was there
before. -/
theorem get?_registerAll {r : Registry σ} {fs : List (AggregateFunction σ)} {name : String}
    {f : AggregateFunction σ} (h : (registerAll r fs).get? name = some f) :
    f ∈ fs ∨ r.get? name = some f := by
  induction fs generalizing r with
  | nil => exact .inr h
  | cons g gs ih =>
    rcases ih h with hmem | hget
    · exact .inl (List.mem_cons_of_mem _ hmem)
    · have hput : (OrderedMap.put r g.name g).get? name = some f := hget
      rw [OrderedMap.get?_put] at hput
      split at hput
      · cases hput
        exact .inl List.mem_cons_self
      · exact .inr hput

theorem mem_builtins_of_get? {name : String} {f : AggregateFunction State}
    (h : builtins.get? name = some f) : f ∈ AggregateFunction.builtins := by
  rcases get?_registerAll h with hmem | hempty
  · exact hmem
  · rw [OrderedMap.get?_empty] at hempty
    cases hempty

end Registry

/-! ## Calls -/

/-- The call of a function whose argument is a path expression. -/
def BuiltinCall.ofArgument (f : AggregateFunction State) (hf : f ∈ AggregateFunction.builtins)
    (a : Argument) (ha : a.root.WellFormed) : BuiltinCall where
  function := f
  argument := a.evaluate
  mem_builtins := hf
  wellFormed ht hfact h := a.wellFormed_of_evaluate ha ht hfact h

namespace Builder

variable {b : Builder State} {values : OrderedMap String Value}

/-- What the compiler of path expressions makes of a call of a built-in function. -/
theorem exists_builtinCall_of_compiles (hcompiler : b.compiler = .paths values)
    (hvalues : ∀ name v, values.get? name = some v → v.WellFormed) {scope : ClauseScope}
    {f : AggregateFunction State} (hf : f ∈ AggregateFunction.builtins) {argument : String}
    {acc : Accumulator State} (h : b.Compiles scope f argument acc) :
    ∃ c : BuiltinCall, c.function = f ∧ c.accumulator = acc := by
  obtain ⟨a, found, -, -, unit, -, -, hcompile⟩ := h
  rw [hcompiler, Compiler.paths] at hcompile
  simp only [ClauseScope.request] at hcompile
  split at hcompile
  · next arg hresolve =>
    cases hcompile
    exact ⟨.ofArgument f hf arg (Argument.wellFormed_of_resolve hvalues hresolve), rfl, rfl⟩
  · cases hcompile

/-- **The node of a clause over built-in functions is one of `BuiltinCall`s**: one for each call of
the clause, of the function that the call names. -/
theorem exists_builtinCalls (hsources : b.sources = .patterns)
    (hcompiler : b.compiler = .paths values)
    (hvalues : ∀ name v, values.get? name = some v → v.WellFormed) {ctx : Context State}
    (hctx : ∀ name f, ctx.function? name = some f → f ∈ AggregateFunction.builtins)
    {clause : Clause} {calls : List Call} (hcalls : clause.body = .calls calls) {result : Pattern}
    {n : Node State} (hn : (b.build ctx clause result).node = .ok (some n)) :
    ∃ cs : List BuiltinCall, n.accumulators = cs.map BuiltinCall.accumulator ∧
      List.Forall₂ (fun call c => ctx.function? call.function = some c.function) calls cs := by
  obtain ⟨input, ctx', -, hsource, hcompiles⟩ := forall₂_compiles hcalls hn
  rw [hsources, SourceBuilder.patterns, Prod.mk.injEq] at hsource
  obtain ⟨-, rfl⟩ := hsource
  generalize n.accumulators = accs at hcompiles
  clear hcalls hn
  induction hcompiles with
  | nil => exact ⟨[], rfl, .nil⟩
  | cons h _ ih =>
    obtain ⟨f, hf, hcompile⟩ := h
    obtain ⟨c, rfl, rfl⟩ := exists_builtinCall_of_compiles hcompiler hvalues (hctx _ f hf) hcompile
    obtain ⟨cs, rfl, hcs⟩ := ih
    exact ⟨c :: cs, rfl, .cons hf hcs⟩

end Builder
end RuleAggregate
