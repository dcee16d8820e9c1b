import RuleAggregate.Proofs.Node.Tracking
import RuleAggregate.Proofs.Value.NanFree

/-!
# What counts and collections hold

Whatever was folded in, taken back, refused and restored on the way, a count is the number of the
held matches, and a collection holds the values of the held matches and no others.  Nothing is lost
and nothing is counted twice.

## What is here

* `AggregateFunction.tracks_count_iff`, `tracks_collectList_iff`, `tracks_collectSet_iff` — which
  states stand for given values.
* `Node.result_run_holds_values` — **counts and collections say what is held**, after every run.
-/

set_option autoImplicit false

namespace RuleAggregate

/-! ## States of counts and collections -/

namespace AggregateFunction

variable {s : State} {vs : List Value}

theorem tracks_count_iff : Tracks count s vs ↔ s = .tally (Int64.ofNat vs.length) := by
  constructor
  · intro h
    generalize hf : count = f at h
    cases h with
    | count => rfl
    | sum | average | collectList | collectSet => exact absurd (congrArg name hf) (by decide)
    | extremum => exact absurd (congrArg supportsReverse hf) Bool.false_ne_true.symm
  · rintro rfl
    exact .count vs

theorem tracks_collectList_iff :
    Tracks collectList s vs ↔
      ∃ ws, s = .items ws ∧ (∀ w ∈ ws, w.WellFormed) ∧ SameValues ws vs := by
  constructor
  · intro h
    generalize hf : collectList = f at h
    cases h with
    | collectList hwf h => exact ⟨_, rfl, hwf, h⟩
    | count | sum | average | collectSet => exact absurd (congrArg name hf) (by decide)
    | extremum => exact absurd (congrArg supportsReverse hf) Bool.false_ne_true.symm
  · rintro ⟨ws, rfl, hwf, h⟩
    exact .collectList hwf h

theorem tracks_collectSet_iff :
    Tracks collectSet s vs ↔
      ∃ es, s = .tallies es ∧ Counted es ∧
        ∀ u : Value, u.WellFormed → countOf u es = occurrences u vs := by
  constructor
  · intro h
    generalize hf : collectSet = f at h
    cases h with
    | collectSet hes h => exact ⟨_, rfl, hes, h⟩
    | count | sum | average | collectList => exact absurd (congrArg name hf) (by decide)
    | extremum => exact absurd (congrArg supportsReverse hf) Bool.false_ne_true.symm
  · rintro ⟨es, rfl, hes, h⟩
    exact .collectSet hes h

/-! ## Results -/

variable {f : AggregateFunction State} {v : Value}

/-- A count is the number of the values, as long as that is a 64-bit number. -/
theorem Tracks.result_count (h : Tracks f s vs) (hf : f = .count) (hv : f.result s = .ok v)
    (hlen : vs.length < 2 ^ 63) : ∃ k : Int64, v = .int k ∧ k.toInt = vs.length := by
  subst hf
  rw [tracks_count_iff.1 h] at hv
  cases hv
  exact ⟨_, rfl, Int64.toInt_ofNat_of_lt hlen⟩

/-- A list holds the values, up to equality and in some order. -/
theorem Tracks.result_collectList (h : Tracks f s vs) (hf : f = .collectList)
    (hv : f.result s = .ok v) (hvs : ∀ u ∈ vs, u.WellFormed) (hnan : ∀ u ∈ vs, u.NanFree) :
    ∃ ws, v = .list ws ∧ EqualInSomeOrder ws vs := by
  subst hf
  obtain ⟨ws, rfl, hwf, hsame⟩ := tracks_collectList_iff.1 h
  cases hv
  exact ⟨ws, rfl, hsame.equalInSomeOrder hwf hvs hnan⟩

/-- A set holds the distinct values, each of them once. -/
theorem Tracks.result_collectSet (h : Tracks f s vs) (hf : f = .collectSet)
    (hv : f.result s = .ok v) (hvs : ∀ u ∈ vs, u.WellFormed) (hnan : ∀ u ∈ vs, u.NanFree) :
    ∃ ws, v = .list ws ∧ DistinctOf ws vs := by
  subst hf
  obtain ⟨es, rfl, hes, hcount⟩ := tracks_collectSet_iff.1 h
  cases hv
  exact ⟨_, rfl, hes.distinctOf hvs hnan hcount⟩

end AggregateFunction

/-! ## Nodes -/

namespace Node

/-- The memory of a node over calls of built-in functions keeps track of what is held, whatever was
done to it. -/
theorem exists_tracking_run {n : Node State} {calls : List BuiltinCall}
    (hn : n.accumulators = calls.map BuiltinCall.accumulator) {left : Tuple}
    (hleft : left.WellFormed) {ops : List Operation} (hops : ∀ op ∈ ops, op.WellFormed) :
    ∃ m₀, n.init left = .ok m₀ ∧ Tracking (fun _ => False) calls (n.run left m₀ ops) := by
  obtain ⟨m₀, h₀⟩ := exists_init hn left
  exact ⟨m₀, h₀, Tracking.run hn hleft hops (tracking_init hn h₀) fun _ => False.elim⟩

/-- **Counts and collections say what is held.**  After every run on a memory of a node over calls
of built-in functions, the operations that failed included, each call had a value for each of the
held matches, and its own result is found in the result of the node.  If it counts, the result is
the number of the handles.  If it collects a list, and there is no NaN in the values, then the
result holds these values, up to equality and in some order; and if it collects a set, then the
result holds each of them once. -/
theorem result_run_holds_values (n : Node State) {calls : List BuiltinCall}
    (hn : n.accumulators = calls.map BuiltinCall.accumulator) {left : Tuple}
    (hleft : left.WellFormed) {ops : List Operation} (hops : ∀ op ∈ ops, op.WellFormed) :
    ∃ m₀, n.init left = .ok m₀ ∧
      ∃ vs, n.result left (n.run left m₀ ops) = .ok (n.answer vs) ∧ vs.length = calls.length ∧
        ∀ (i : Nat) (c : BuiltinCall) (v : Value), calls[i]? = some c → vs[i]? = some v →
          ∃ args, (n.run left m₀ ops).held.values.map (fun x => c.argument x.tuple x.fact) =
              args.map .ok ∧
            (c.function = .count → (n.run left m₀ ops).handles.length < 2 ^ 63 →
              ∃ k : Int64, v = .int k ∧ k.toInt = (n.run left m₀ ops).handles.length) ∧
            ((∀ w ∈ args, w.NanFree) →
              (c.function = .collectList → ∃ ws, v = .list ws ∧ EqualInSomeOrder ws args) ∧
              (c.function = .collectSet → ∃ ws, v = .list ws ∧ DistinctOf ws args)) := by
  obtain ⟨m₀, h₀, hm⟩ := exists_tracking_run hn hleft hops
  refine ⟨m₀, h₀, ?_⟩
  generalize n.run left m₀ ops = m at hm
  obtain ⟨vs, hvs, hlen, hslots⟩ :=
    exists_results (fun _ _ hs => hs.1.exists_result) hm.contexts left 0
  rw [← hn] at hvs
  refine ⟨vs, result_eq_answer hvs, hlen, fun i c v hc hv => ?_⟩
  obtain ⟨s, ⟨htracks, -⟩, hres⟩ := hslots i c v hc hv
  have haccepts : ∀ x ∈ m.held.values, c.Accepts x := hm.accepts c (List.mem_of_getElem? hc)
  have hargs := BuiltinCall.map_argument haccepts
  have hwf := BuiltinCall.wellFormed_of_mem_values haccepts
  have hhandles : m.handles.length = (c.values m.held.values).length := by
    have hlengths := congrArg List.length hargs
    rw [List.length_map, List.length_map] at hlengths
    rw [← hlengths, Memory.handles, OrderedMap.keys, OrderedMap.values, Assoc.keys, Assoc.values,
      List.length_map, List.length_map]
  refine ⟨_, hargs, fun hf hlt => ?_, fun hnan => ⟨fun hf => ?_, fun hf => ?_⟩⟩
  · rw [hhandles] at hlt ⊢
    exact htracks.result_count hf hres hlt
  · exact htracks.result_collectList hf hres hwf hnan
  · exact htracks.result_collectSet hf hres hwf hnan

/-- A fact without the field is refused, and of two equal zeros the second is taken back.  The list
gives up the first one for it, and still holds what is held up to equality. -/
theorem result_run_holds_values_of_zeros :
    let n := ofFields [(.count, "x"), (.collectList, "x"), (.collectSet, "x")]
    let calls : List BuiltinCall :=
      [.ofField .count (List.mem_of_getElem? (i := 0) rfl) "x",
        .ofField .collectList (List.mem_of_getElem? (i := 5) rfl) "x",
        .ofField .collectSet (List.mem_of_getElem? (i := 6) rfl) "x"]
    let m₀ : Memory State := ⟨[.tally 0, .items [], .tallies []], .empty⟩
    let ops := [insertFact 1 [("x", .float (-0.0))], insertFact 2 [("x", .float 0.0)],
      insertFact 3 [("x", .int 1)], insertFact 4 [("y", .int 1)], .retract ⟨2⟩,
      insertFact 5 [("x", .int 1)]]
    let args : List Value := [.float (-0.0), .int 1, .int 1]
    n.accumulators = calls.map BuiltinCall.accumulator ∧ Tuple.empty.WellFormed ∧
      (∀ op ∈ ops, op.WellFormed) ∧ (∀ w ∈ args, w.NanFree) ∧
      n.result .empty (n.run .empty m₀ ops) = .ok (.list [.int 3,
        .list [.float 0.0, .int 1, .int 1], .list [.float (-0.0), .int 1]]) ∧
      (∃ k : Int64, Value.int 3 = .int k ∧ k.toInt = (n.run .empty m₀ ops).handles.length) ∧
      EqualInSomeOrder [.float 0.0, .int 1, .int 1] args ∧
      DistinctOf [.float (-0.0), .int 1] args := by
  intro n calls m₀ ops args
  have hn : n.accumulators = calls.map BuiltinCall.accumulator := rfl
  have hleft : Tuple.empty.WellFormed := nofun
  have hops : ∀ op ∈ ops, op.WellFormed := by
    simp [ops, insertFact, Operation.WellFormed, Value.WellFormed, Value.WellFormedFields,
      Assoc.keys]
  have hnan : ∀ w ∈ args, w.NanFree := by
    have hzero : (Value.float (-0.0)).NanFree :=
      (Value.float_eq_self_iff _).1 (by decide +kernel)
    exact List.forall_mem_cons.2 ⟨hzero, by simp [Value.NanFree]⟩
  obtain ⟨m, hm, vs, hvs, -, hslots⟩ := result_run_holds_values n hn hleft hops
  have hm₀ : n.init .empty = .ok m₀ := rfl
  rw [hm₀] at hm
  cases hm
  have hresult : n.result .empty (n.run .empty m₀ ops) = .ok (.list [.int 3,
      .list [.float 0.0, .int 1, .int 1], .list [.float (-0.0), .int 1]]) := by decide +kernel
  rw [hresult] at hvs
  cases hvs
  have hheld : (n.run .empty m₀ ops).held.values.map (fun x => readField x.fact "x") =
      args.map .ok := by decide +kernel
  have hargs : ∀ {args' : List Value}, (n.run .empty m₀ ops).held.values.map
      (fun x => readField x.fact "x") = args'.map .ok → args' = args := fun h =>
    List.map_injective_iff.2 (fun _ _ => Except.ok.inj) (h.symm.trans hheld)
  obtain ⟨-, -, hcount, -⟩ := hslots 0 _ _ rfl rfl
  obtain ⟨_, hlist, -, hcollect⟩ := hslots 1 _ _ rfl rfl
  obtain ⟨_, hset, -, hdistinct⟩ := hslots 2 _ _ rfl rfl
  cases hargs hlist
  cases hargs hset
  obtain ⟨_, hws, hequal⟩ := (hcollect hnan).1 rfl
  obtain ⟨_, hes, hdist⟩ := (hdistinct hnan).2 rfl
  cases hws
  cases hes
  have hlt : (n.run .empty m₀ ops).handles.length < 2 ^ 63 := by decide +kernel
  exact ⟨hn, hleft, hops, hnan, hresult, hcount rfl hlt, hequal, hdist⟩

end Node
end RuleAggregate
