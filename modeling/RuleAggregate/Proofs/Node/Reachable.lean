import RuleAggregate.Proofs.Node.Contexts

/-!
# Reachable memories

A memory starts out empty for some left tuple, and then insertions and retractions change it.
Nothing makes the caller hand over the same left tuple every time, so here every operation may come
with another one.  What is shown of reachable memories is that accumulators and contexts still go
together in pairs, so that every accumulator answers into its own slot of the result.

## What is here

* `Node.Reachable` — the memories that a node can get into.
* `Node.Reachable.forall₂_contexts` — what every accumulator keeps of its context holds of them.
* `Node.Reachable.length_contexts` — there is one context for every accumulator.
* `Node.Reachable.exists_slots` — **a slot of the result is what the accumulator in its place
  answers.**
-/

set_option autoImplicit false

namespace RuleAggregate

variable {σ : Type}

namespace Node

/-- A memory that the node can get into by operations with any left tuples, the failed ones
included. -/
inductive Reachable (n : Node σ) : Memory σ → Prop
  | init {left : Tuple} {m : Memory σ} (h : n.init left = .ok m) : Reachable n m
  | perform {m : Memory σ} (hm : Reachable n m) (left : Tuple) (op : Operation) :
      Reachable n (n.perform left m op).state

theorem Reachable.run {n : Node σ} {m : Memory σ} (hm : n.Reachable m) (left : Tuple)
    (ops : List Operation) : n.Reachable (n.run left m ops) :=
  run_induction (fun _ op hm => hm.perform left op) ops m hm

/-! ## One context for every accumulator -/

/-- What every accumulator keeps of its own context holds of every memory that can be reached. -/
theorem Reachable.forall₂_contexts {P : Accumulator σ → σ → Prop} {Q : AccumulateError → Prop}
    {n : Node σ} (hn : ∀ a ∈ n.accumulators, a.Keeps (P a) Q) {m : Memory σ}
    (h : n.Reachable m) : List.Forall₂ P n.accumulators m.contexts := by
  induction h with
  | @init left m h =>
    have hfresh : AnswersIn (List.Forall₂ P n.accumulators) (Blames Q) (n.fresh left) :=
      answersIn_freshFrom hn 0
    rw [(init_eq_ok_iff.1 h).1] at hfresh
    exact hfresh
  | perform _ left op ih => exact (confined_perform hn left ih op).state

/-- **There is one context for every accumulator.** -/
theorem Reachable.length_contexts {n : Node σ} {m : Memory σ} (h : n.Reachable m) :
    m.contexts.length = n.accumulators.length :=
  (h.forall₂_contexts fun a _ => a.keeps_any).length_eq.symm

/-! ## Slots of the result -/

/-- Every accumulator answers into its own slot. -/
theorem exists_slot_of_resultsFrom {left : Tuple} {as : List (Accumulator σ)} :
    ∀ {k : Nat} {cs : List σ} {vs : List Value}, cs.length = as.length →
      resultsFrom k left as cs = .ok vs → vs.length = as.length ∧
        ∀ (i : Nat) (a : Accumulator σ), as[i]? = some a →
          ∃ c w, cs[i]? = some c ∧ vs[i]? = some w ∧ a.result c left = .ok w := by
  induction as with
  | nil =>
    intro k cs vs _ h
    cases h
    exact ⟨rfl, fun i a ha => nomatch ha⟩
  | cons a as ih =>
    intro k cs vs hlen h
    cases cs with
    | nil => cases hlen
    | cons c cs =>
      rw [resultsFrom] at h
      cases hv : a.result c left with
      | error e =>
        rw [hv] at h
        cases h
      | ok v =>
        rw [hv] at h
        cases hvs : resultsFrom (k + 1) left as cs with
        | error e =>
          rw [hvs] at h
          cases h
        | ok vs =>
          rw [hvs] at h
          cases h
          obtain ⟨hlength, hslots⟩ := ih (Nat.succ.inj hlen) hvs
          refine ⟨congrArg (· + 1) hlength, fun i b hb => ?_⟩
          cases i with
          | zero =>
            cases hb
            exact ⟨c, v, rfl, rfl, hv⟩
          | succ i => exact hslots i b hb

/-- **A slot of the result is what the accumulator in its place answers.**  A node with a single
accumulator answers the only slot. -/
theorem Reachable.exists_slots {n : Node σ} {m : Memory σ} (hm : n.Reachable m) {left : Tuple}
    {v : Value} (h : n.result left m = .ok v) :
    ∃ vs, (v = if n.isMulti then .list vs else vs.headD .null) ∧
      vs.length = n.accumulators.length ∧
      ∀ (i : Nat) (a : Accumulator σ), n.accumulators[i]? = some a →
        ∃ c w, m.contexts[i]? = some c ∧ vs[i]? = some w ∧ a.result c left = .ok w := by
  rw [result] at h
  cases hvs : resultsFrom 0 left n.accumulators m.contexts with
  | error e =>
    rw [hvs] at h
    cases h
  | ok vs =>
    rw [hvs] at h
    cases h
    exact ⟨vs, rfl, exists_slot_of_resultsFrom hm.length_contexts hvs⟩

end Node
end RuleAggregate
