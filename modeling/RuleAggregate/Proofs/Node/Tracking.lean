import RuleAggregate.Proofs.Aggregate.Exact
import RuleAggregate.Proofs.Node.Recompute
import RuleAggregate.Proofs.Path.Evaluation

/-!
# Nodes over built-in functions

A node that reverses changes its contexts in place, so they need not be those of a replay of the
held matches.  For the built-in functions this file says how far apart the two can be: every
context still stands for the values of the held matches, and a replay never fails.

## What is here

* `BuiltinCall` — a built-in function with the argument that it is fed with.
* `Node.Tracking` — **the invariant**: the contexts stand for the values of the held matches, all
  of which are accepted.
* `Node.replay_of_accepts` — accepted matches can be replayed, and the contexts are the folded ones.
* `Node.Tracking.perform`, `Node.Tracking.run` — every operation keeps the invariant.
* `Node.exists_results` — the results of the accumulators, one by one.
-/

set_option autoImplicit false

namespace RuleAggregate

/-- No object that the operation hands over repeats the name of a field. -/
def Operation.WellFormed : Operation → Prop
  | .insert _ objects => ∀ v ∈ objects, v.WellFormed
  | .retract _ => True

/-! ## Calls -/

/-- A call of a built-in function with any argument. -/
structure BuiltinCall where
  function : AggregateFunction State
  argument : Tuple → Value → Except ReadError Value
  mem_builtins : function ∈ AggregateFunction.builtins
  /-- The argument makes no values of its own that repeat the name of a field. -/
  wellFormed : ∀ {t : Tuple} {fact v : Value}, t.WellFormed → fact.WellFormed →
    argument t fact = .ok v → v.WellFormed

namespace BuiltinCall

/-- The accumulator of the call. -/
def accumulator (c : BuiltinCall) : Accumulator State := .feeding c.function c.argument

/-- The value that the function is fed with for a match. -/
def value? (c : BuiltinCall) (x : Match) : Option Value := (c.argument x.tuple x.fact).toOption

/-- The values that the function is fed with for the matches. -/
def values (c : BuiltinCall) (xs : List Match) : List Value := xs.filterMap c.value?

/-- The match has a value, and the function takes it. -/
def Accepts (c : BuiltinCall) (x : Match) : Prop :=
  ∃ v, c.argument x.tuple x.fact = .ok v ∧ v.WellFormed ∧
    (c.function.accumulate c.function.init v).failure = none

theorem values_append (c : BuiltinCall) (xs ys : List Match) :
    c.values (xs ++ ys) = c.values xs ++ c.values ys := List.filterMap_append

theorem values_cons {c : BuiltinCall} {x : Match} {v : Value}
    (h : c.argument x.tuple x.fact = .ok v) (xs : List Match) :
    c.values (x :: xs) = v :: c.values xs := by
  have hv : c.value? x = some v := by
    rw [value?, h]
    rfl
  exact List.filterMap_cons_some hv

theorem values_concat {c : BuiltinCall} {x : Match} {v : Value}
    (h : c.argument x.tuple x.fact = .ok v) (xs : List Match) :
    c.values (xs ++ [x]) = c.values xs ++ [v] := by
  rw [values_append, values_cons h]
  rfl

theorem wellFormed_of_mem_values {c : BuiltinCall} {xs : List Match}
    (hxs : ∀ x ∈ xs, c.Accepts x) : ∀ v ∈ c.values xs, v.WellFormed := by
  intro v hv
  obtain ⟨x, hx, hxv⟩ := List.mem_filterMap.1 hv
  obtain ⟨w, hw, hwf, -⟩ := hxs x hx
  rw [value?, hw] at hxv
  cases hxv
  exact hwf

/-- Every accepted match has a value. -/
theorem map_argument {c : BuiltinCall} {xs : List Match}
    (hxs : ∀ x ∈ xs, c.Accepts x) :
    xs.map (fun x => c.argument x.tuple x.fact) = (c.values xs).map .ok := by
  induction xs with
  | nil => rfl
  | cons x xs ih =>
    rw [List.forall_mem_cons] at hxs
    obtain ⟨v, hv, -⟩ := hxs.1
    rw [List.map_cons, ih hxs.2, values_cons hv, List.map_cons, hv]

/-- A step of an accumulator that succeeds found a value and made the function step with it. -/
theorem feed_eq_success {σ : Type} {step : σ → Value → Outcome σ FunctionError}
    {argument : Except ReadError Value} {s : σ}
    (h : (Accumulator.feed step argument s).failure = none) :
    ∃ v, argument = .ok v ∧ (step s v).failure = none ∧
      Accumulator.feed step argument s = .success (step s v).state := by
  cases argument with
  | error e => exact absurd h (Option.some_ne_none _)
  | ok v =>
    have hv : (step s v).failure = none := Option.map_eq_none_iff.1 h
    refine ⟨v, rfl, hv, ?_⟩
    rw [Accumulator.feed, Outcome.eq_success_of_failure hv]
    rfl

/-- The call of a function over a field of the facts. -/
def ofField (f : AggregateFunction State) (hf : f ∈ AggregateFunction.builtins) (name : String) :
    BuiltinCall where
  function := f
  argument _ fact := readField fact name
  mem_builtins := hf
  wellFormed _ hfact hv := wellFormed_readField hfact hv

/-! ## Contexts -/

variable {good : BuiltinCall → Prop}

/-- The context of a call stands for the values of the matches.  For the calls singled out it is
even the state into which the values were folded. -/
def Stands (good : BuiltinCall → Prop) (xs : List Match) (c : BuiltinCall) (s : State) : Prop :=
  c.function.Tracks s (c.values xs) ∧ (good c → s = c.function.folded (c.values xs))

theorem stands_folded {c : BuiltinCall} {xs : List Match} (hxs : ∀ x ∈ xs, c.Accepts x) :
    c.Stands good xs (c.function.folded (c.values xs)) :=
  ⟨AggregateFunction.tracks_folded c.mem_builtins (wellFormed_of_mem_values hxs), fun _ => rfl⟩

/-- An accumulator that folds a match in accepts it, and its context stands for one match more. -/
theorem Stands.accumulate {c : BuiltinCall} {xs : List Match} {s : State} (h : c.Stands good xs s)
    {x : Match} (ht : x.tuple.WellFormed) (hfact : x.fact.WellFormed)
    (hok : (c.accumulator.accumulate s x.tuple x.fact).failure = none) :
    c.Accepts x ∧
      c.Stands good (xs ++ [x]) (c.accumulator.accumulate s x.tuple x.fact).state := by
  obtain ⟨htracks, hexact⟩ := h
  obtain ⟨v, hv, hstep, hstate⟩ := feed_eq_success hok
  have hwf : v.WellFormed := c.wellFormed ht hfact hv
  have hacc : c.accumulator.accumulate s x.tuple x.fact =
      .success (c.function.accumulate s v).state := hstate
  rw [hacc, Outcome.state_success]
  refine ⟨⟨v, hv, hwf, (htracks.failure_accumulate v).symm.trans hstep⟩, ?_⟩
  rw [Stands, values_concat hv]
  refine ⟨htracks.accumulate hwf, fun hgood => ?_⟩
  rw [hexact hgood, AggregateFunction.folded_concat]

/-- An accumulator that takes a match back has a context that stands for the other matches. -/
theorem Stands.reverse {c : BuiltinCall} {xs ys : List Match} {x : Match} {s : State}
    (h : c.Stands good (xs ++ x :: ys) s) (haccepts : ∀ y ∈ xs ++ x :: ys, c.Accepts y)
    (hexactOn : good c → c.function.ExactOn (c.values (xs ++ x :: ys)))
    (hok : (c.accumulator.reverse s x.tuple x.fact).failure = none) :
    c.Stands good (xs ++ ys) (c.accumulator.reverse s x.tuple x.fact).state := by
  obtain ⟨htracks, hexact⟩ := h
  obtain ⟨v, hv, hstep, hstate⟩ := feed_eq_success hok
  have hrev : c.accumulator.reverse s x.tuple x.fact =
      .success (c.function.reverse s v).state := hstate
  have hwf := wellFormed_of_mem_values haccepts
  have hvalues : c.values (xs ++ x :: ys) = c.values xs ++ v :: c.values ys := by
    rw [values_append, values_cons hv]
  rw [hvalues] at htracks hexact hexactOn hwf
  rw [hrev, Outcome.state_success, Stands, values_append]
  refine ⟨htracks.reverse (hwf v (by simp)) hstep, fun hgood => ?_⟩
  rw [hexact hgood] at hstep ⊢
  exact AggregateFunction.state_reverse_folded c.mem_builtins hwf (hexactOn hgood) hstep

/-- An accumulator folds in what its call accepts, whatever it accepted before. -/
theorem accumulate_folded {c : BuiltinCall} {xs : List Match} {x : Match}
    (hxs : ∀ y ∈ xs, c.Accepts y) (hx : c.Accepts x) :
    c.accumulator.accumulate (c.function.folded (c.values xs)) x.tuple x.fact =
      .success (c.function.folded (c.values (xs ++ [x]))) := by
  obtain ⟨v, hv, -, hok⟩ := hx
  have htracks := AggregateFunction.tracks_folded c.mem_builtins (wellFormed_of_mem_values hxs)
  have hstep : (c.function.accumulate (c.function.folded (c.values xs)) v).failure = none :=
    (htracks.failure_accumulate v).trans hok
  rw [values_concat hv, AggregateFunction.folded_concat]
  show Accumulator.feed c.function.accumulate (c.argument x.tuple x.fact) _ = _
  rw [hv, Accumulator.feed, Outcome.eq_success_of_failure hstep]
  rfl

end BuiltinCall

namespace Node

variable {n : Node State} {calls : List BuiltinCall} {left : Tuple} {good : BuiltinCall → Prop}

/-! ## Matches and replays -/

theorem wellFormed_matchOf (n : Node State) {left : Tuple} (hleft : left.WellFormed)
    {objects : List Value} (hobjects : ∀ v ∈ objects, v.WellFormed) :
    (n.matchOf left objects).tuple.WellFormed ∧ (n.matchOf left objects).fact.WellFormed := by
  have ht : (n.matchOf left objects).tuple.WellFormed := by
    intro v hv
    rcases List.mem_append.1 hv with hv | hv
    · rcases List.mem_append.1 hv with hv | hv
      · exact hleft v hv
      · rw [(List.mem_replicate.1 hv).2]
        exact trivial
    · exact hobjects v hv
  refine ⟨ht, ?_⟩
  show ((n.matchOf left objects).tuple.objects.getLast?.getD .null).WellFormed
  cases hlast : (n.matchOf left objects).tuple.objects.getLast? with
  | none => exact trivial
  | some v => exact ht v (List.mem_of_getLast? hlast)

/-- **Accepted matches can be replayed**, and the contexts are those into which their values were
folded. -/
theorem replay_of_accepts (hn : n.accumulators = calls.map BuiltinCall.accumulator)
    (left : Tuple) {xs : List Match} (hxs : ∀ c ∈ calls, ∀ x ∈ xs, c.Accepts x) :
    n.replay left xs = .ok (calls.map fun c => c.function.folded (c.values xs)) := by
  induction xs using List.reverseRecOn with
  | nil =>
    rw [replay_nil, fresh, hn, freshFrom_eq_ok_iff, List.forall₂_map_left_iff,
      List.forall₂_map_right_iff, List.forall₂_same]
    exact fun _ _ => rfl
  | append_singleton xs x ih =>
    have hpre : ∀ c ∈ calls, ∀ y ∈ xs, c.Accepts y := fun c hc y hy =>
      hxs c hc y (List.mem_append_left _ hy)
    refine replay_concat (ih hpre) ?_
    rw [fold, hn]
    exact stepFrom_map
      (fun c hc => BuiltinCall.accumulate_folded (hpre c hc) (hxs c hc x (by simp))) 0

/-! ## The invariant -/

/-- The contexts stand for the values of the held matches, and every call accepts all of them. -/
structure Tracking (good : BuiltinCall → Prop) (calls : List BuiltinCall) (m : Memory State) :
    Prop where
  contexts : List.Forall₂ (BuiltinCall.Stands good m.held.values) calls m.contexts
  accepts : ∀ c ∈ calls, ∀ x ∈ m.held.values, c.Accepts x

/-- Every call accepts what is left when a match is taken out. -/
theorem Tracking.accepts_erase {m : Memory State} (hm : Tracking good calls m) (h : Handle) :
    ∀ c ∈ calls, ∀ x ∈ (m.held.erase h).values, c.Accepts x := fun c hc x hx =>
  hm.accepts c hc x ((OrderedMap.values_erase_sublist m.held h).subset hx)

theorem forall₂_stands_folded {xs : List Match} (hxs : ∀ c ∈ calls, ∀ x ∈ xs, c.Accepts x) :
    List.Forall₂ (BuiltinCall.Stands good xs) calls
      (calls.map fun c => c.function.folded (c.values xs)) := by
  rw [List.forall₂_map_right_iff, List.forall₂_same]
  exact fun c hc => BuiltinCall.stands_folded (hxs c hc)

/-- A node over calls of built-in functions has a new memory for every left tuple. -/
theorem exists_init (hn : n.accumulators = calls.map BuiltinCall.accumulator) (left : Tuple) :
    ∃ m, n.init left = .ok m := by
  have hnone : ∀ c ∈ calls, ∀ x ∈ ([] : List Match), c.Accepts x := fun _ _ => nofun
  have hfresh := replay_of_accepts hn left hnone
  rw [replay_nil] at hfresh
  exact ⟨⟨_, .empty⟩, init_eq_ok_iff.2 ⟨hfresh, rfl⟩⟩

theorem tracking_init (hn : n.accumulators = calls.map BuiltinCall.accumulator) {m : Memory State}
    (h : n.init left = .ok m) : Tracking good calls m := by
  obtain ⟨hfresh, hheld⟩ := init_eq_ok_iff.1 h
  have hnone : ∀ c ∈ calls, ∀ x ∈ ([] : List Match), c.Accepts x := fun _ _ => nofun
  have hreplay := replay_of_accepts hn left hnone
  rw [replay_nil, hfresh, Except.ok.injEq] at hreplay
  obtain ⟨contexts, held⟩ := m
  subst hheld hreplay
  exact ⟨forall₂_stands_folded hnone, hnone⟩

/-- A failed step on the contexts of a tracking memory is restored to the folded contexts. -/
theorem Tracking.restore (hn : n.accumulators = calls.map BuiltinCall.accumulator)
    {m : Memory State} (hm : Tracking good calls m) (cs : List State) (e : RuntimeError) :
    Tracking good calls (n.restore left m cs e).state := by
  rw [restore_of_ok (replay_of_accepts hn left hm.accepts)]
  exact ⟨forall₂_stands_folded hm.accepts, hm.accepts⟩

theorem Tracking.fold (hn : n.accumulators = calls.map BuiltinCall.accumulator)
    {m : Memory State} (hm : Tracking good calls m) {x : Match} (ht : x.tuple.WellFormed)
    (hfact : x.fact.WellFormed) {h : Handle} (hc : m.contains h = false) {cs : List State}
    (hf : n.fold m.contexts x = .success cs) : Tracking good calls ⟨cs, m.held.put h x⟩ := by
  rw [Node.fold, hn] at hf
  have hfold := forall₂_stepFrom
    (Q := fun c s => c.Accepts x ∧ c.Stands good (m.held.values ++ [x]) s)
    (fun c s hcs hok => hcs.accumulate ht hfact hok) hm.contexts 0 (by rw [hf]; rfl)
  rw [hf, Outcome.state_success, List.forall₂_and_left] at hfold
  have hvalues := OrderedMap.values_put_of_not_contains x hc
  refine ⟨?_, fun c hcall y hy => ?_⟩
  · show List.Forall₂ (BuiltinCall.Stands good (m.held.put h x).values) calls cs
    rw [hvalues]
    exact hfold.2
  · have hy' : y ∈ (m.held.put h x).values := hy
    rw [hvalues, List.mem_append, List.mem_singleton] at hy'
    rcases hy' with hy' | rfl
    · exact hm.accepts c hcall y hy'
    · exact hfold.1 c hcall

theorem Tracking.unfold (hn : n.accumulators = calls.map BuiltinCall.accumulator)
    {m : Memory State} (hm : Tracking good calls m)
    (hexactOn : ∀ c, good c → c.function.ExactOn (c.values m.held.values)) {h : Handle} {x : Match}
    (hg : m.held.get? h = some x) {cs : List State} (hf : n.unfold m.contexts x = .success cs) :
    Tracking good calls ⟨cs, m.held.erase h⟩ := by
  obtain ⟨xs, ys, hvalues, herase⟩ := OrderedMap.exists_values_erase hg
  have hrest := hm.accepts_erase h
  obtain ⟨hcontexts, haccepts⟩ := hm
  rw [hvalues] at hcontexts haccepts hexactOn
  rw [Node.unfold, hn] at hf
  have hunfold := forall₂_stepFrom (Q := fun c s => c.Stands good (xs ++ ys) s)
    (fun c s hcs hok => hcs.2.reverse hcs.1 (hexactOn c) hok)
    ((List.forall₂_and_left _ _).2 ⟨haccepts, hcontexts⟩) 0 (by rw [hf]; rfl)
  rw [hf, Outcome.state_success, ← herase] at hunfold
  exact ⟨hunfold, hrest⟩

/-- **Every operation keeps the invariant.** -/
theorem Tracking.perform (hn : n.accumulators = calls.map BuiltinCall.accumulator)
    (hleft : left.WellFormed) {m : Memory State} (hm : Tracking good calls m)
    (hexactOn : ∀ c, good c → c.function.ExactOn (c.values m.held.values)) {op : Operation}
    (hop : op.WellFormed) : Tracking good calls (n.perform left m op).state := by
  have hs := step_perform n left m op
  generalize n.perform left m op = o at hs
  cases hs with
  | duplicate | unknown | replayFailed => exact hm
  | foldFailed | unfoldFailed => exact hm.restore hn _ _
  | folded hc hf =>
    obtain ⟨ht, hfact⟩ := wellFormed_matchOf n hleft hop
    exact hm.fold hn ht hfact hc hf
  | unfolded hr hg hf => exact hm.unfold hn hexactOn hg hf
  | @replayed h x cs hr hg hp =>
    have haccepts := hm.accepts_erase h
    rw [replay_of_accepts hn left haccepts, Except.ok.injEq] at hp
    rw [← hp]
    exact ⟨forall₂_stands_folded haccepts, haccepts⟩

/-- **Every run keeps the invariant**, as long as the calls singled out are exact on the values held
on the way. -/
theorem Tracking.run (hn : n.accumulators = calls.map BuiltinCall.accumulator)
    (hleft : left.WellFormed) {ops : List Operation} (hops : ∀ op ∈ ops, op.WellFormed) :
    ∀ {m : Memory State}, Tracking good calls m →
      (∀ c, good c → ∀ ops', ops' <+: ops →
        c.function.ExactOn (c.values (n.run left m ops').held.values)) →
      Tracking good calls (n.run left m ops) := by
  induction ops with
  | nil => exact fun hm _ => hm
  | cons op ops ih =>
    intro m hm hexactOn
    rw [List.forall_mem_cons] at hops
    rw [run_cons]
    refine ih hops.2 (hm.perform hn hleft (fun c hc => ?_) hops.1) fun c hc ops' hpre => ?_
    · exact hexactOn c hc [] (List.nil_prefix)
    · exact hexactOn c hc (op :: ops') (List.cons_prefix_cons.2 ⟨rfl, hpre⟩)

/-! ## Results -/

/-- The result of the node, given those of its accumulators. -/
def answer (n : Node State) (vs : List Value) : Value :=
  if n.isMulti then .list vs else vs.headD .null

theorem result_eq_answer {n : Node State} {left : Tuple} {m : Memory State} {vs : List Value}
    (h : resultsFrom 0 left n.accumulators m.contexts = .ok vs) :
    n.result left m = .ok (n.answer vs) := by
  rw [result, h, answer]

/-- Contexts of which each has a result have results together. -/
theorem exists_results {P : BuiltinCall → State → Prop} {cs : List State}
    (hP : ∀ c s, P c s → ∃ v, c.function.result s = .ok v) (h : List.Forall₂ P calls cs)
    (left : Tuple) (k : Nat) :
    ∃ vs, resultsFrom k left (calls.map BuiltinCall.accumulator) cs = .ok vs ∧
      vs.length = calls.length ∧
      ∀ (i : Nat) (c : BuiltinCall) (v : Value), calls[i]? = some c → vs[i]? = some v →
        ∃ s, P c s ∧ c.function.result s = .ok v := by
  induction h generalizing k with
  | nil => exact ⟨[], rfl, rfl, fun i c v hc => nomatch hc⟩
  | @cons c s calls cs hs _ ih =>
    obtain ⟨vs, hvs, hlen, hslots⟩ := ih (k + 1)
    obtain ⟨v, hv⟩ := hP c s hs
    have hresult : c.accumulator.result s left = .ok v := by
      show (c.function.result s).mapError AccumulateError.function = .ok v
      rw [hv]
      rfl
    refine ⟨v :: vs, ?_, congrArg (· + 1) hlen, fun i d w hd hw => ?_⟩
    · rw [List.map_cons, resultsFrom, hresult, hvs]
      rfl
    · cases i with
      | zero =>
        cases hd
        cases hw
        exact ⟨s, hs, hv⟩
      | succ i => exact hslots i d w hd hw

end Node
end RuleAggregate
