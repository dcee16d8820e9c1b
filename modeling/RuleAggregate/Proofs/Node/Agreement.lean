import RuleAggregate.Proofs.Aggregate.InPlace
import RuleAggregate.Proofs.Node.Tracking

/-!
# In place and anew

The results of a node that recomputes are those over the held matches.  A node that reverses changes
its contexts in place, and its results are made of all that was done to them.  What was done is kept
in a journal here, beside the memory: the matches that were folded in and taken back, one after the
other.  Where the contexts are built anew, which is also how a failed operation is undone, the
journal starts anew with the held matches.

## What is here

* `Entry`, `Node.record`, `Node.journal` — what was done to the contexts of a memory since they were
  last built anew.
* `BuiltinCall.uses` — what this was for a call.
* `Node.Journaled` — **the invariant**: the contexts are what the journal leaves.
* `Node.Journaled.perform`, `Node.Journaled.run` — every operation keeps the invariant.
* `Node.result_run_agrees` — **the results after a run, and those of inserting the held matches
  anew.**
-/

set_option autoImplicit false

namespace RuleAggregate

/-! ## Journals -/

/-- What was done to contexts: a match was folded in, or taken back in place. -/
inductive Entry where
  | folded (x : Match)
  | unfolded (x : Match)

namespace Node

variable {σ : Type}

/-- What was done to the contexts of a memory since they were last built anew, after one more
operation; `es` is what it was before.  An operation that is refused for its handle does nothing.
The contexts are built anew from the held matches when an operation fails half-way, and by every
retraction if the node recomputes. -/
def record (n : Node σ) (left : Tuple) (m : Memory σ) (es : List Entry) : Operation → List Entry
  | .insert h objects =>
    if m.contains h then es
    else match (n.fold m.contexts (n.matchOf left objects)).failure with
      | none => es ++ [.folded (n.matchOf left objects)]
      | some _ => m.held.values.map .folded
  | .retract h =>
    match m.held.get? h with
    | none => es
    | some x =>
      if n.reverses then
        match (n.unfold m.contexts x).failure with
        | none => es ++ [.unfolded x]
        | some _ => m.held.values.map .folded
      else (m.held.erase h).values.map .folded

/-- The same after all the operations. -/
def journal (n : Node σ) (left : Tuple) (m : Memory σ) (es : List Entry) :
    List Operation → List Entry
  | [] => es
  | op :: ops => n.journal left (n.perform left m op).state (n.record left m es op) ops

end Node

/-! ## Calls -/

namespace BuiltinCall

variable {c : BuiltinCall} {es : List Entry} {x : Match}

/-- What an entry means for the call: the value of the match is folded in or taken back. -/
def use? (c : BuiltinCall) : Entry → Option Use
  | .folded x => (c.value? x).map .add
  | .unfolded x => (c.value? x).map .takeBack

/-- What was done to the context of the call. -/
def uses (c : BuiltinCall) (es : List Entry) : List Use := es.filterMap c.use?

/-- The context that this leaves. -/
def contextAfter (c : BuiltinCall) (es : List Entry) : State := c.function.stateAfter (c.uses es)

theorem uses_concat {e : Entry} {u : Use} (h : c.use? e = some u) :
    c.uses (es ++ [e]) = c.uses es ++ [u] := by
  rw [uses, List.filterMap_append, List.filterMap_cons_some h]
  rfl

theorem uses_map_folded (c : BuiltinCall) (xs : List Match) :
    c.uses (xs.map .folded) = (c.values xs).map .add := by
  rw [uses, List.filterMap_map, values, List.map_filterMap]
  rfl

/-- Contexts that are built anew are the folded ones. -/
theorem contextAfter_map_folded (c : BuiltinCall) (xs : List Match) :
    c.contextAfter (xs.map .folded) = c.function.folded (c.values xs) := by
  rw [contextAfter, uses_map_folded, AggregateFunction.stateAfter_map_add]

/-- One more match is folded in. -/
theorem contextAfter_folded
    (hok : (c.accumulator.accumulate (c.contextAfter es) x.tuple x.fact).failure = none) :
    (c.accumulator.accumulate (c.contextAfter es) x.tuple x.fact).state =
      c.contextAfter (es ++ [.folded x]) := by
  obtain ⟨v, hv, -, hstate⟩ := feed_eq_success hok
  have huse : c.use? (.folded x) = some (.add v) := by rw [use?, value?, hv]; rfl
  rw [contextAfter, contextAfter, uses_concat huse, AggregateFunction.stateAfter_concat]
  exact congrArg Outcome.state hstate

/-- One more match is taken back. -/
theorem contextAfter_unfolded
    (hok : (c.accumulator.reverse (c.contextAfter es) x.tuple x.fact).failure = none) :
    (c.accumulator.reverse (c.contextAfter es) x.tuple x.fact).state =
      c.contextAfter (es ++ [.unfolded x]) := by
  obtain ⟨v, hv, -, hstate⟩ := feed_eq_success hok
  have huse : c.use? (.unfolded x) = some (.takeBack v) := by rw [use?, value?, hv]; rfl
  rw [contextAfter, contextAfter, uses_concat huse, AggregateFunction.stateAfter_concat]
  exact congrArg Outcome.state hstate

end BuiltinCall

namespace Node

variable {n : Node State} {calls : List BuiltinCall} {left : Tuple} {good : BuiltinCall → Prop}
  {m : Memory State} {es : List Entry}

/-! ## The invariant -/

/-- The contexts are what the journal leaves. -/
def Journaled (calls : List BuiltinCall) (m : Memory State) (es : List Entry) : Prop :=
  m.contexts = calls.map fun c => c.contextAfter es

/-- What every accumulator does with one more entry, all of them do together. -/
theorem eq_contextAfter_of_stepFrom
    {step : Accumulator State → State → Tuple → Value → Outcome State AccumulateError} {x : Match}
    {e : Entry}
    (hstep : ∀ c : BuiltinCall,
      (step c.accumulator (c.contextAfter es) x.tuple x.fact).failure = none →
        (step c.accumulator (c.contextAfter es) x.tuple x.fact).state = c.contextAfter (es ++ [e]))
    {cs : List State} (h : stepFrom step 0 x (calls.map BuiltinCall.accumulator)
      (calls.map fun c => c.contextAfter es) = .success cs) :
    cs = calls.map fun c => c.contextAfter (es ++ [e]) := by
  have hbefore : List.Forall₂ (fun (c : BuiltinCall) s => c.contextAfter es = s) calls
      (calls.map fun c => c.contextAfter es) := by
    rw [List.forall₂_map_right_iff, List.forall₂_same]
    exact fun _ _ => rfl
  have hafter := forall₂_stepFrom (Q := fun (c : BuiltinCall) s => c.contextAfter (es ++ [e]) = s)
    (fun c s hs hok => by rw [← hs] at hok ⊢; exact (hstep c hok).symm) hbefore 0 (by rw [h]; rfl)
  rw [h, Outcome.state_success, ← List.forall₂_map_left_iff, List.forall₂_eq_eq_eq] at hafter
  exact hafter.symm

/-- Contexts that are built anew start a new journal. -/
theorem journaled_of_replay (hn : n.accumulators = calls.map BuiltinCall.accumulator)
    {xs : List Match} (hxs : ∀ c ∈ calls, ∀ x ∈ xs, c.Accepts x) {cs : List State}
    (h : n.replay left xs = .ok cs) (held : OrderedMap Handle Match) :
    Journaled calls ⟨cs, held⟩ (xs.map .folded) := by
  rw [replay_of_accepts hn left hxs, Except.ok.injEq] at h
  rw [Journaled, ← h]
  exact List.map_congr_left fun c _ => (c.contextAfter_map_folded xs).symm

/-- **Every operation keeps the invariant.** -/
theorem Journaled.perform (hn : n.accumulators = calls.map BuiltinCall.accumulator)
    (hm : Tracking good calls m) (hj : Journaled calls m es) (op : Operation) :
    Journaled calls (n.perform left m op).state (n.record left m es op) := by
  have hreplay := replay_of_accepts hn left hm.accepts
  have hs := step_perform n left m op
  generalize n.perform left m op = o at hs
  cases hs with
  | duplicate hc =>
    rw [record, if_pos hc]
    exact hj
  | folded hc hf =>
    rw [record, hc, if_neg Bool.false_ne_true, hf]
    rw [fold, hn, hj] at hf
    exact eq_contextAfter_of_stepFrom (fun _ => BuiltinCall.contextAfter_folded) hf
  | foldFailed hc hf =>
    rw [record, hc, if_neg Bool.false_ne_true, hf, restore_of_ok hreplay]
    exact journaled_of_replay hn hm.accepts hreplay _
  | unknown hg =>
    rw [record, hg]
    exact hj
  | unfolded hr hg hf =>
    simp only [record, hg, hr, if_true, hf]
    rw [unfold, hn, hj] at hf
    exact eq_contextAfter_of_stepFrom (fun _ => BuiltinCall.contextAfter_unfolded) hf
  | unfoldFailed hr hg hf =>
    simp only [record, hg, hr, if_true, hf]
    rw [restore_of_ok hreplay]
    exact journaled_of_replay hn hm.accepts hreplay _
  | @replayed h x cs hr hg hp =>
    simp only [record, hg, hr, Bool.false_eq_true, if_false]
    exact journaled_of_replay hn (hm.accepts_erase h) hp _
  | @replayFailed h x e hr hg hp =>
    rw [replay_of_accepts hn left (hm.accepts_erase h)] at hp
    cases hp

/-- **Every run keeps the invariant.** -/
theorem Journaled.run (hn : n.accumulators = calls.map BuiltinCall.accumulator)
    (hleft : left.WellFormed) {ops : List Operation} (hops : ∀ op ∈ ops, op.WellFormed) :
    ∀ {m : Memory State} {es : List Entry}, Tracking (fun _ => False) calls m →
      Journaled calls m es → Journaled calls (n.run left m ops) (n.journal left m es ops) := by
  induction ops with
  | nil => exact fun _ hj => hj
  | cons op ops ih =>
    intro m es hm hj
    rw [List.forall_mem_cons] at hops
    rw [run_cons, journal]
    exact ih hops.2 (hm.perform hn hleft (fun _ => False.elim) hops.1) (hj.perform hn hm op)

theorem journaled_init (hn : n.accumulators = calls.map BuiltinCall.accumulator)
    (h : n.init left = .ok m) : Journaled calls m [] := by
  obtain ⟨contexts, held⟩ := m
  obtain ⟨hfresh, -⟩ := init_eq_ok_iff.1 h
  rw [← replay_nil] at hfresh
  have hnone : ∀ c ∈ calls, ∀ x ∈ ([] : List Match), c.Accepts x := fun _ _ => nofun
  exact journaled_of_replay hn hnone hfresh held

/-! ## Results -/

/-- **The results after a run, and those of inserting the held matches anew**, for every node over
calls of built-in functions and after every run, the operations that failed included.  Both results
exist.  Inserted anew, every call answers the result over the values of the held matches, in the
order of the handles.  If the node recomputes, the results are the same.  If it takes matches back
in place, then every call answers what was done to its context since it was last built anew.  The
results of a call are the same in any case if its function was exact on the values held on the
way. -/
theorem result_run_agrees (n : Node State) {calls : List BuiltinCall}
    (hn : n.accumulators = calls.map BuiltinCall.accumulator) {left : Tuple}
    (hleft : left.WellFormed) {ops : List Operation} (hops : ∀ op ∈ ops, op.WellFormed) :
    ∃ m₀, n.init left = .ok m₀ ∧ (∃ ops', n.Recreates left (n.run left m₀ ops) ops') ∧
      ∀ ops', n.Recreates left (n.run left m₀ ops) ops' →
        (n.run left m₀ ops').handles = (n.run left m₀ ops).handles ∧
        ∃ vs ws, n.result left (n.run left m₀ ops) = .ok (n.answer vs) ∧
          n.result left (n.run left m₀ ops') = .ok (n.answer ws) ∧
          vs.length = calls.length ∧ ws.length = calls.length ∧
          (n.reverses = false → vs = ws) ∧
          ∀ (i : Nat) (c : BuiltinCall) (v w : Value), calls[i]? = some c → vs[i]? = some v →
            ws[i]? = some w →
            ∃ args, (n.run left m₀ ops).held.values.map (fun x => c.argument x.tuple x.fact) =
                args.map .ok ∧
              c.function.Answers args w ∧
              (n.reverses = true →
                c.function.AnswersInPlace (c.uses (n.journal left m₀ [] ops)) args v) ∧
              ((∀ ops₀, ops₀ <+: ops →
                c.function.ExactOn (c.values (n.run left m₀ ops₀).held.values)) → v = w) := by
  obtain ⟨m₀, h₀⟩ := exists_init hn left
  refine ⟨m₀, h₀, exists_recreates h₀ ops, fun ops' hops' => ?_⟩
  -- the calls singled out are those that are exact on the values held on the way
  let good : BuiltinCall → Prop := fun c => ∀ ops₀, ops₀ <+: ops →
    c.function.ExactOn (c.values (n.run left m₀ ops₀).held.values)
  have hm : Tracking good calls (n.run left m₀ ops) :=
    Tracking.run hn hleft hops (tracking_init hn h₀) fun _ hc => hc
  have hj : Journaled calls (n.run left m₀ ops) (n.journal left m₀ [] ops) :=
    Journaled.run hn hleft hops (tracking_init hn h₀) (journaled_init hn h₀)
  generalize n.journal left m₀ [] ops = es at hj ⊢
  have hreplay := replay_of_accepts hn left hm.accepts
  rw [run_recreates h₀ hreplay hops']
  -- a context stands for the held matches, and it is what the journal leaves
  have hcontexts : List.Forall₂ (fun (c : BuiltinCall) s =>
      c.Stands good (n.run left m₀ ops).held.values s ∧ c.contextAfter es = s) calls
      (n.run left m₀ ops).contexts := by
    have hstands := hm.contexts
    rw [hj, List.forall₂_map_right_iff, List.forall₂_same] at hstands ⊢
    exact fun c hc => ⟨hstands c hc, rfl⟩
  obtain ⟨vs, hvs, hvlen, hvslots⟩ :=
    exists_results (fun _ _ hs => hs.1.1.exists_result) hcontexts left 0
  have hfolded : List.Forall₂ (BuiltinCall.Stands (fun _ => True) _) calls _ :=
    forall₂_stands_folded hm.accepts
  obtain ⟨ws, hws, hwlen, hwslots⟩ :=
    exists_results (fun _ _ hs => hs.1.exists_result) hfolded left 0
  rw [← hn] at hvs hws
  have hsame : n.reverses = false → vs = ws := by
    intro hr
    have hfaithful := faithful_run_of_not_reverses hr (faithful_init h₀) ops
    rw [Faithful, hreplay, Except.ok.injEq] at hfaithful
    rw [← hfaithful, hws, Except.ok.injEq] at hvs
    exact hvs.symm
  refine ⟨rfl, vs, ws, result_eq_answer hvs, result_eq_answer hws, hvlen, hwlen, hsame, ?_⟩
  intro i c v w hc hv hw
  obtain ⟨s, ⟨⟨htracks, hexact⟩, rfl⟩, hres⟩ := hvslots i c v hc hv
  obtain ⟨t, ⟨-, ht⟩, hres'⟩ := hwslots i c w hc hw
  rw [ht trivial] at hres'
  have hmem : c ∈ calls := List.mem_of_getElem? hc
  have haccepts := hm.accepts c hmem
  refine ⟨_, BuiltinCall.map_argument haccepts,
    AggregateFunction.answers_folded c.mem_builtins hres', fun hr => ?_, fun hgood => ?_⟩
  · rw [reverses, Bool.and_eq_true, hn, List.all_map, List.all_eq_true] at hr
    exact htracks.answersInPlace (BuiltinCall.wellFormed_of_mem_values haccepts) (hr.2 c hmem) hres
  · rw [hexact hgood, hres', Except.ok.injEq] at hres
    exact hres.symm

/-- The values 1, 2, 1 and amounts that are added to a sum.  The first fact is taken back in place,
and then a fourth one is as well.  List and set hold the right values, though not in the order of
the facts, and of the sum nothing is left, as the amount 10¹⁶ swallowed the amount 1. -/
theorem result_run_agrees_of_duplicates :
    let n := ofFields [(.collectList, "x"), (.collectSet, "x"), (.sum, "y")]
    let list := BuiltinCall.ofField .collectList (List.mem_of_getElem? (i := 5) rfl) "x"
    let set := BuiltinCall.ofField .collectSet (List.mem_of_getElem? (i := 6) rfl) "x"
    let sum := BuiltinCall.ofField .sum (List.mem_of_getElem? (i := 1) rfl) "y"
    let m₀ : Memory State := ⟨[.items [], .tallies [], .total 0.0], .empty⟩
    let ops := [insertFact 1 [("x", .int 1), ("y", .float 1e16)],
      insertFact 2 [("x", .int 2), ("y", .float 1.0)],
      insertFact 3 [("x", .int 1), ("y", .float 0.0)], .retract ⟨1⟩,
      insertFact 4 [("x", .int 2), ("y", .float 0.0)], .retract ⟨4⟩]
    let ops' := [insertFact 2 [("x", .int 2), ("y", .float 1.0)],
      insertFact 3 [("x", .int 1), ("y", .float 0.0)]]
    let es := n.journal .empty m₀ [] ops
    n.accumulators = [list, set, sum].map BuiltinCall.accumulator ∧ Tuple.empty.WellFormed ∧
      (∀ op ∈ ops, op.WellFormed) ∧ n.Recreates .empty (n.run .empty m₀ ops) ops' ∧
      AggregateFunction.AnswersInPlace .collectList (list.uses es) [.int 2, .int 1]
        (.list [.int 1, .int 2]) ∧
      AggregateFunction.AnswersInPlace .collectSet (set.uses es) [.int 2, .int 1]
        (.list [.int 1, .int 2]) ∧
      AggregateFunction.AnswersInPlace .sum (sum.uses es) [.float 1.0, .float 0.0] (.float 0.0) ∧
      AggregateFunction.Answers .sum [.float 1.0, .float 0.0] (.float 1.0) := by
  intro n list set sum m₀ ops ops' es
  have hn : n.accumulators = [list, set, sum].map BuiltinCall.accumulator := rfl
  have hleft : Tuple.empty.WellFormed := nofun
  have hops : ∀ op ∈ ops, op.WellFormed := by
    simp [ops, insertFact, Operation.WellFormed, Value.WellFormed, Value.WellFormedFields,
      Assoc.keys]
  have hre : n.Recreates .empty (n.run .empty m₀ ops) ops' := by decide +kernel
  obtain ⟨m, hm, -, hagrees⟩ := result_run_agrees n hn hleft hops
  have hm₀ : n.init .empty = .ok m₀ := rfl
  rw [hm₀] at hm
  cases hm
  obtain ⟨-, vs, ws, hvs, hws, -, -, -, hslots⟩ := hagrees ops' hre
  have hv : n.result .empty (n.run .empty m₀ ops) =
      .ok (.list [.list [.int 1, .int 2], .list [.int 1, .int 2], .float 0.0]) := by decide +kernel
  have hw : n.result .empty (n.run .empty m₀ ops') =
      .ok (.list [.list [.int 2, .int 1], .list [.int 2, .int 1], .float 1.0]) := by decide +kernel
  rw [hv] at hvs
  rw [hw] at hws
  cases hvs
  cases hws
  have hok : Function.Injective (List.map (Except.ok : Value → Except ReadError Value)) :=
    List.map_injective_iff.2 fun _ _ => Except.ok.inj
  have hheld : (n.run .empty m₀ ops).held.values =
      [n.matchOf .empty [.fact "Order" [("x", .int 2), ("y", .float 1.0)]],
        n.matchOf .empty [.fact "Order" [("x", .int 1), ("y", .float 0.0)]]] := by decide +kernel
  rw [hheld] at hslots
  obtain ⟨args, hargs, -, hlist, -⟩ := hslots 0 _ _ _ rfl rfl rfl
  obtain rfl : [.int 2, .int 1] = args := hok hargs
  obtain ⟨args, hargs, -, hset, -⟩ := hslots 1 _ _ _ rfl rfl rfl
  obtain rfl : [.int 2, .int 1] = args := hok hargs
  obtain ⟨args, hargs, hanew, hsum, -⟩ := hslots 2 _ _ _ rfl rfl rfl
  obtain rfl : [.float 1.0, .float 0.0] = args := hok hargs
  exact ⟨hn, hleft, hops, hre, hlist rfl, hset rfl, hsum rfl, hanew⟩

/-- **Taking matches back in place can give another result than inserting the others anew.**  After
the run the facts with the values 2 and 1 are held, in this order; the amount 10¹⁶ swallowed the
amount 1 before it was taken back. -/
theorem result_run_differs :
    let n := ofFields [(.collectList, "x"), (.collectSet, "x"), (.sum, "y")]
    let m₀ : Memory State := ⟨[.items [], .tallies [], .total 0.0], .empty⟩
    let ops := [insertFact 1 [("x", .int 1), ("y", .float 1e16)],
      insertFact 2 [("x", .int 2), ("y", .float 1.0)],
      insertFact 3 [("x", .int 1), ("y", .float 0.0)], .retract ⟨1⟩,
      insertFact 4 [("x", .int 2), ("y", .float 0.0)], .retract ⟨4⟩]
    let ops' := [insertFact 2 [("x", .int 2), ("y", .float 1.0)],
      insertFact 3 [("x", .int 1), ("y", .float 0.0)]]
    n.init .empty = .ok m₀ ∧ n.Recreates .empty (n.run .empty m₀ ops) ops' ∧
      n.result .empty (n.run .empty m₀ ops) =
        .ok (.list [.list [.int 1, .int 2], .list [.int 1, .int 2], .float 0.0]) ∧
      n.result .empty (n.run .empty m₀ ops') =
        .ok (.list [.list [.int 2, .int 1], .list [.int 2, .int 1], .float 1.0]) := by
  refine ⟨rfl, ?_, ?_, ?_⟩
  · decide +kernel
  · decide +kernel
  · decide +kernel

end Node
end RuleAggregate
