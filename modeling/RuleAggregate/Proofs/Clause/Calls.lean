import Mathlib.Data.List.Forall2
import RuleAggregate.Clause.Build

/-!
# Nodes of calls

A clause of calls that becomes a node has an accumulator for every call, in the order of the calls:
the one that the compiler made of the call, its function and the names that its argument mentions.

## What is here

* `Builder.Compiles` — the compiler turns a call into an accumulator.
* `Builder.exists_progress_of_build` — how a clause of calls becomes a node, stage by stage.
* `Builder.forall₂_compiles` — **every call of a built clause was compiled**, in its place.
-/

set_option autoImplicit false

namespace RuleAggregate

variable {σ : Type}

/-- What stands in the same place of the other list. -/
theorem exists_of_forall₂ {α β : Type} {R : α → β → Prop} {as : List α} {bs : List β}
    (h : List.Forall₂ R as bs) {i : Nat} {a : α} (ha : as[i]? = some a) :
    ∃ b, bs[i]? = some b ∧ R a b := by
  induction h generalizing i with
  | nil => cases ha
  | cons hab _ ih =>
    cases i with
    | zero =>
      cases ha
      exact ⟨_, rfl, hab⟩
    | succ i => exact ih ha

/-- If all functions are found, then the first call is resolved in its place, and so are the
others after it. -/
theorem exists_of_resolveCalls_cons {ctx : Context σ} {c : Call} {cs : List Call} {k : Nat}
    {rs : List (ResolvedCall σ)} (h : resolveCalls ctx k (c :: cs) = .ok rs) :
    ∃ f ss, ctx.function? c.function = some f ∧ resolveCalls ctx (k + 1) cs = .ok ss ∧
      rs = ⟨k, c, f⟩ :: ss := by
  rw [resolveCalls] at h
  cases hf : ctx.function? c.function with
  | none =>
    rw [hf] at h
    cases h
  | some f =>
    rw [hf] at h
    cases hcs : resolveCalls ctx (k + 1) cs with
    | error d =>
      rw [hcs] at h
      cases h
    | ok ss =>
      rw [hcs] at h
      cases h
      exact ⟨f, ss, rfl, rfl, rfl⟩

theorem forall₂_resolveCalls {ctx : Context σ} {calls : List Call} :
    ∀ {k : Nat} {rs : List (ResolvedCall σ)}, resolveCalls ctx k calls = .ok rs →
      List.Forall₂ (fun c r => r.call = c ∧ ctx.function? c.function = some r.function)
        calls rs := by
  induction calls with
  | nil =>
    intro k rs h
    cases h
    exact .nil
  | cons c cs ih =>
    intro k rs h
    obtain ⟨f, ss, hf, hss, rfl⟩ := exists_of_resolveCalls_cons h
    exact .cons ⟨rfl, hf⟩ (ih hss)

namespace Progress

@[simp] theorem accumulators_bindResult (p : Progress σ) (result : Pattern) (span : Text.Span)
    (accessor : Accessor) (name : Option String) :
    (p.bindResult result span accessor name).accumulators = p.accumulators := by
  cases name with
  | none => rfl
  | some name =>
    rw [bindResult]
    split <;> rfl

@[simp] theorem accumulators_warnIgnored (p : Progress σ) (span : Text.Span) (call : Call) :
    (p.warnIgnored span call).accumulators = p.accumulators := by
  rw [warnIgnored]
  split <;> rfl

end Progress

namespace Builder

variable {b : Builder σ} {scope : ClauseScope}

/-- The compiler turns the call of a function into the accumulator, given the declarations and the
globals that the analyzer finds mentioned in the argument. -/
def Compiles (b : Builder σ) (scope : ClauseScope) (f : AggregateFunction σ) (argument : String)
    (acc : Accumulator σ) : Prop :=
  ∃ a found required required' unit,
    b.analyzer argument .expression scope.available = .ok a ∧
      requireAll scope.visible a.references required = (.ok found, required') ∧
      b.compiler (scope.request unit (.call f argument) found a.references) = .ok acc

theorem analyzer_of_analyze {ctx ctx' : Context σ} {span : Text.Span} {code : String}
    {kind : FragmentKind} {a : Analysis} (h : b.analyze ctx span code kind scope = (.ok a, ctx')) :
    b.analyzer code kind scope.available = .ok a := by
  rw [analyze] at h
  split at h
  · next ha =>
    cases h
    exact ha
  · cases h

theorem compiler_of_compile {ctx ctx' : Context σ} {span : Text.Span} {request : Request σ}
    {acc : Accumulator σ} (h : b.compile ctx span request = (.ok acc, ctx')) :
    b.compiler request = .ok acc := by
  simp only [compile] at h
  split at h
  · next hc =>
    cases h
    exact hc
  · cases h

/-- A call that is built adds its accumulator at the end. -/
theorem compiles_of_buildCall {clause : Clause} {result : Pattern} {p q : Progress σ}
    {c : ResolvedCall σ} (h : b.buildCall clause scope result p c = .success q) :
    ∃ acc, q.accumulators = p.accumulators ++ [acc] ∧
      b.Compiles scope c.function c.call.argument acc := by
  simp only [buildCall] at h
  split at h
  · cases h
  · next a ctx ha =>
    split at h
    · cases h
    · next found required' hreq =>
      split at h
      · cases h
      · next acc ctx' hc =>
        cases h
        refine ⟨acc, ?_, a, found, _, required', _, analyzer_of_analyze ha, hreq,
          compiler_of_compile hc⟩
        simp

theorem compiles_of_run {ctx : Context σ} {clause : Clause} {result : Pattern} {calls : List Call}
    {rs : List (ResolvedCall σ)}
    (hrs : List.Forall₂ (fun c r => r.call = c ∧ ctx.function? c.function = some r.function)
      calls rs) :
    ∀ {p q : Progress σ}, Outcome.run (b.buildCall clause scope result) p rs = .success q →
      ∃ accs, q.accumulators = p.accumulators ++ accs ∧
        List.Forall₂ (fun c acc => ∃ f, ctx.function? c.function = some f ∧
          b.Compiles scope f c.argument acc) calls accs := by
  induction hrs with
  | nil =>
    intro p q h
    cases h
    exact ⟨[], (List.append_nil _).symm, .nil⟩
  | @cons c r calls rs hr _ ih =>
    intro p q h
    obtain ⟨u, hstep, hrun⟩ := Outcome.run_cons_eq_success_iff.1 h
    obtain ⟨acc, hacc, hcompiles⟩ := compiles_of_buildCall hstep
    obtain ⟨accs, haccs, hall⟩ := ih hrun
    obtain ⟨rfl, hfun⟩ := hr
    refine ⟨acc :: accs, ?_, .cons ⟨_, hfun, hcompiles⟩ hall⟩
    rw [haccs, hacc, List.append_assoc]
    rfl

theorem accumulators_nodeOfCalls (source : Source) (p : Progress σ) :
    (nodeOfCalls source p).accumulators = p.accumulators := by
  rw [Node.accumulators, nodeOfCalls]
  match p.accumulators with
  | [] | [_] | _ :: _ :: _ => rfl

/-- **How a clause of calls becomes a node.**  Its input is valid and becomes a source, all its
functions exist, and the calls are built one after the other; then what they bind goes on the
result pattern. -/
theorem exists_progress_of_build {ctx : Context σ} {clause : Clause} {result : Pattern}
    {n : Node σ} {calls : List Call} (hcalls : clause.body = .calls calls)
    (h : (b.build ctx clause result).node = .ok (some n)) :
    ∃ input ctx' rs p, clause.validInput? = some input ∧
      b.sources ctx input.unwrap = (some n.source, ctx') ∧ resolveCalls ctx' 0 calls = .ok rs ∧
      Outcome.run (b.buildCall clause (ClauseScope.of ctx' n.source) result)
        ⟨ctx', .empty, [], []⟩ rs = .success p ∧
      n = nodeOfCalls n.source p ∧
      (b.build ctx clause result).pattern =
        p.bindings.foldl (fun r bound => r.bind bound.1 bound.2) result := by
  rw [build] at h ⊢
  split at h
  · cases h
  · next input hinput =>
    split at h
    · cases h
    · split at h
      · cases h
      · next hempty _ source ctx' hsource =>
        rw [hcalls] at h
        simp only [buildCalls] at h
        split at h
        · cases h
        · next rs hrs =>
          split at h
          · cases h
          · cases h
          · next hnone =>
            cases h
            refine ⟨input, ctx', rs, _, hinput, hsource, hrs, Outcome.eq_success_of_failure hnone,
              rfl, ?_⟩
            simp only [hempty, hcalls, buildCalls, hrs, hnone]
            rfl

/-- **Every call of a built clause was compiled**, in its place, against what its source makes
visible; and the source is what the builder made of the input. -/
theorem forall₂_compiles {ctx : Context σ} {clause : Clause} {result : Pattern} {n : Node σ}
    {calls : List Call} (hcalls : clause.body = .calls calls)
    (h : (b.build ctx clause result).node = .ok (some n)) :
    ∃ input ctx', clause.validInput? = some input ∧
      b.sources ctx input.unwrap = (some n.source, ctx') ∧
      List.Forall₂ (fun c acc => ∃ f, ctx'.function? c.function = some f ∧
        b.Compiles (ClauseScope.of ctx' n.source) f c.argument acc) calls n.accumulators := by
  obtain ⟨input, ctx', rs, p, hinput, hsource, hrs, hrun, hnode, -⟩ :=
    exists_progress_of_build hcalls h
  obtain ⟨accs, haccs, hall⟩ := compiles_of_run (forall₂_resolveCalls hrs) hrun
  refine ⟨input, ctx', hinput, hsource, ?_⟩
  rw [hnode, accumulators_nodeOfCalls, haccs]
  exact hall

end Builder
end RuleAggregate
