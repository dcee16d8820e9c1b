import RuleAggregate.Proofs.Node.Contents

/-!
# Which held matches can be taken back

A node that recomputes takes every held match back.  A node that reverses asks its functions for
it, and collections look for a value that is equal to the one they are handed.  NaN equals nothing,
so a collection keeps a value with NaN in it for good.  This file shows that nothing else is ever
in the way.

## What is here

* `AggregateFunction.Collects` — the functions that look for the value they take back.
* `Tracks.failure_reverse_iff` — **when such a function refuses to take back a value that it was
  given**, and with which error.
* `BuiltinCall.Returns` — the call can take a match back.
* `Node.retract_run_succeeds_iff` — **a held match is taken back exactly if all calls return it.**
* `Node.retract_keeps_nan` — a held match that is not taken back.
-/

set_option autoImplicit false

namespace RuleAggregate

/-! ## Values that are found again -/

/-- One of the values is equal to a value that one of them is like, exactly if there is no NaN in
it. -/
theorem any_eq_iff_nanFree {ws : List Value} (hws : ∀ w ∈ ws, w.WellFormed) {v : Value}
    (hv : v.WellFormed) (h : ∃ w ∈ ws, w.alike v = true) :
    ws.any (·.eq v) = true ↔ v.NanFree := by
  rw [List.any_eq_true, ← Value.eq_self_iff hv]
  constructor
  · rintro ⟨w, hw, heq⟩
    exact Value.eq_self_of_eq (hws w hw) hv heq
  · intro hself
    obtain ⟨w, hw, halike⟩ := h
    exact ⟨w, hw, Value.eq_of_alike hv ((Value.eq_self_iff hv).1 hself) halike⟩

theorem SameValues.any_eq_iff {ws vs : List Value} (h : SameValues ws vs)
    (hws : ∀ w ∈ ws, w.WellFormed) {v : Value} (hv : v.WellFormed) (hmem : v ∈ vs) :
    ws.any (·.eq v) = true ↔ v.NanFree := by
  have hpos := occurrences_self_pos hmem
  rw [← h v hv] at hpos
  exact any_eq_iff_nanFree hws hv (occurrences_pos_iff.1 hpos)

theorem Counted.removeOccurrence?_isSome_iff {es : List (Value × Nat)} (hes : Counted es)
    {vs : List Value} (h : ∀ u : Value, u.WellFormed → countOf u es = occurrences u vs) {v : Value}
    (hv : v.WellFormed) (hmem : v ∈ vs) :
    (RuleAggregate.removeOccurrence? v es).isSome = true ↔ v.NanFree := by
  have hpos := occurrences_self_pos hmem
  rw [← h v hv] at hpos
  obtain ⟨e, he, halike⟩ := exists_alike_of_countOf_pos hpos
  rw [removeOccurrence?_isSome]
  refine any_eq_iff_nanFree (fun w hw => ?_) hv ⟨e.1, List.mem_map_of_mem he, halike⟩
  obtain ⟨d, hd, rfl⟩ := List.mem_map.1 hw
  exact hes.wellFormed d hd

/-! ## Functions that refuse to take a value back -/

namespace AggregateFunction

/-- The function keeps its values, and looks for one that is equal when it takes one back. -/
def Collects (f : AggregateFunction State) : Prop := f = collectList ∨ f = collectSet

theorem not_collects_of_name {f : AggregateFunction State} (hlist : f.name ≠ "collectList")
    (hset : f.name ≠ "collectSet") : ¬ f.Collects := by
  rintro (rfl | rfl)
  · exact hlist rfl
  · exact hset rfl

/-- A function on numbers that took a value takes it with any other step as well, as long as that
step takes all numbers. -/
theorem failure_onNumber_of_accepts {name : String}
    {step step' : State → Float → Outcome State FunctionError} {s t : State} {v : Value}
    (haccepts : (onNumber name step s v).failure = none)
    (hstep : ∀ x, (step' t x).failure = none) : (onNumber name step' t v).failure = none := by
  rcases onNumber_cases name v with ⟨x, -, hx⟩ | ⟨-, hnone⟩ | ⟨-, err, herr⟩
  · rw [hx]
    exact hstep x
  · rw [hnone]
    rfl
  · rw [herr] at haccepts
    exact absurd haccepts (Option.some_ne_none err)

variable {f : AggregateFunction State} {s : State} {vs : List Value}

/-- **A function that can reverse refuses to take back a value that it was given exactly if it
collects values and there is NaN in this one.** -/
theorem Tracks.failure_reverse_iff (h : Tracks f s vs) {v : Value} (hv : v.WellFormed)
    (hmem : v ∈ vs) (haccepts : (f.accumulate f.init v).failure = none)
    (hr : f.supportsReverse = true) {e : FunctionError} :
    (f.reverse s v).failure = some e ↔
      f.Collects ∧ ¬ v.NanFree ∧ e = .notAccumulated f.name v.display := by
  have hother : ∀ {o : Outcome State FunctionError}, o.failure = none → ¬ f.Collects →
      (o.failure = some e ↔ f.Collects ∧ ¬ v.NanFree ∧ e = .notAccumulated f.name v.display) :=
    fun ho hf => iff_of_false (fun he => Option.some_ne_none e (he.symm.trans ho)) fun h => hf h.1
  cases h with
  | count => exact hother rfl (not_collects_of_name (by decide) (by decide))
  | sum | average =>
    refine hother ?_ (not_collects_of_name (by decide) (by decide))
    exact failure_onNumber_of_accepts haccepts fun _ => rfl
  | extremum => exact absurd hr Bool.false_ne_true
  | @collectList ws vs hwf h =>
    have hcollects : AggregateFunction.collectList.Collects := .inl rfl
    have hany := h.any_eq_iff hwf hv hmem
    simp only [AggregateFunction.collectList, ← hany]
    split
    · next hfound => simp [hfound]
    · next hmissing =>
      simp only [Outcome.failure_failed, Option.some_inj]
      exact ⟨fun he => ⟨hcollects, hmissing, he.symm⟩, fun he => he.2.2.symm⟩
  | @collectSet es vs hes h =>
    have hcollects : AggregateFunction.collectSet.Collects := .inr rfl
    have hsome := hes.removeOccurrence?_isSome_iff h hv hmem
    simp only [AggregateFunction.collectSet, ← hsome]
    cases removeOccurrence? v es with
    | some ds => simp
    | none =>
      simp only [Outcome.failure_failed, Option.some_inj]
      exact ⟨fun he => ⟨hcollects, Bool.false_ne_true, he.symm⟩, fun he => he.2.2.symm⟩

end AggregateFunction

/-! ## Calls and nodes -/

namespace BuiltinCall

/-- The call can take the match back in place: if it collects values, there is no NaN in the value
of the match. -/
def Returns (c : BuiltinCall) (x : Match) : Prop :=
  c.function.Collects → ∀ v, c.argument x.tuple x.fact = .ok v → v.NanFree

/-- A call that does not return a held match says so. -/
theorem Stands.failure_reverse_iff {good : BuiltinCall → Prop} {c : BuiltinCall} {xs : List Match}
    {s : State} (h : c.Stands good xs s) {x : Match} (hx : x ∈ xs) (haccepts : c.Accepts x)
    (hr : c.function.supportsReverse = true) {e : AccumulateError} :
    (c.accumulator.reverse s x.tuple x.fact).failure = some e ↔
      ∃ v, c.function.Collects ∧ c.argument x.tuple x.fact = .ok v ∧ ¬ v.NanFree ∧
        e = .function (.notAccumulated c.function.name v.display) := by
  obtain ⟨v, hv, hwf, hok⟩ := haccepts
  have hmem : v ∈ c.values xs := by
    refine List.mem_filterMap.2 ⟨x, hx, ?_⟩
    rw [value?, hv]
    rfl
  have hreverse : (c.accumulator.reverse s x.tuple x.fact).failure =
      (c.function.reverse s v).failure.map .function := by
    show (Accumulator.feed c.function.reverse (c.argument x.tuple x.fact) s).failure = _
    rw [hv]
    rfl
  rw [hreverse, Option.map_eq_some_iff]
  simp only [h.1.failure_reverse_iff hwf hmem hok hr, hv, Except.ok.injEq]
  constructor
  · rintro ⟨-, ⟨hcollects, hnan, rfl⟩, rfl⟩
    exact ⟨v, hcollects, rfl, hnan, rfl⟩
  · rintro ⟨w, hcollects, rfl, hnan, rfl⟩
    exact ⟨_, ⟨hcollects, hnan, rfl⟩, rfl⟩

end BuiltinCall

namespace Node

variable {n : Node State} {calls : List BuiltinCall} {left : Tuple} {good : BuiltinCall → Prop}

theorem supportsReverse_of_reverses (hn : n.accumulators = calls.map BuiltinCall.accumulator)
    (hr : n.reverses = true) : ∀ c ∈ calls, c.function.supportsReverse = true := by
  rw [reverses, Bool.and_eq_true, hn, List.all_map, List.all_eq_true] at hr
  exact hr.2

/-- A step that takes a held match back goes through exactly if all calls return the match. -/
theorem Tracking.unfold_failure_eq_none_iff
    (hn : n.accumulators = calls.map BuiltinCall.accumulator) (hr : n.reverses = true)
    {m : Memory State} (hm : Tracking good calls m) {x : Match} (hx : x ∈ m.held.values) :
    (n.unfold m.contexts x).failure = none ↔ ∀ c ∈ calls, c.Returns x := by
  rw [Node.unfold, hn]
  refine stepFrom_failure_eq_none_iff ?_ 0
  have hall : ∀ c ∈ calls, c.Accepts x ∧ c.function.supportsReverse = true := fun c hc =>
    ⟨hm.accepts c hc x hx, supportsReverse_of_reverses hn hr c hc⟩
  refine ((List.forall₂_and_left _ _).2 ⟨hall, hm.contexts⟩).imp fun c s hcs => ?_
  obtain ⟨⟨haccepts, hsupports⟩, hstands⟩ := hcs
  rw [← not_iff_not, ← ne_eq, Option.ne_none_iff_exists']
  simp only [hstands.failure_reverse_iff hx haccepts hsupports, BuiltinCall.Returns, not_forall]
  constructor
  · rintro ⟨e, v, hcollects, hv, hnan, -⟩
    exact ⟨hcollects, v, hv, hnan⟩
  · rintro ⟨hcollects, v, hv, hnan⟩
    exact ⟨_, v, hcollects, hv, hnan, rfl⟩

/-- The error of a step that does not take a held match back names the first call that does not
return it, and the value. -/
theorem Tracking.unfold_failure (hn : n.accumulators = calls.map BuiltinCall.accumulator)
    (hr : n.reverses = true) {m : Memory State} (hm : Tracking good calls m) {x : Match}
    (hx : x ∈ m.held.values) {e : RuntimeError} (he : (n.unfold m.contexts x).failure = some e) :
    ∃ i c v, calls[i]? = some c ∧ c.function.Collects ∧ c.argument x.tuple x.fact = .ok v ∧
      ¬ v.NanFree ∧
      e = .accumulate i (.function (.notAccumulated c.function.name v.display)) := by
  rw [Node.unfold, hn, stepFrom_failure_iff] at he
  obtain ⟨i, err, rfl, ⟨a, s, ha, hs, hfail⟩, -⟩ := he
  rw [List.getElem?_map, Option.map_eq_some_iff] at ha
  obtain ⟨c, hc, rfl⟩ := ha
  have hmem : c ∈ calls := List.mem_of_getElem? hc
  have hstands : c.Stands good m.held.values s := by
    obtain ⟨hlen, hget⟩ := List.forall₂_iff_get.1 hm.contexts
    obtain ⟨hi, rfl⟩ := List.getElem?_eq_some_iff.1 hc
    obtain ⟨hj, rfl⟩ := List.getElem?_eq_some_iff.1 hs
    exact hget i hi hj
  rw [hstands.failure_reverse_iff hx (hm.accepts c hmem x hx)
    (supportsReverse_of_reverses hn hr c hmem)] at hfail
  obtain ⟨v, hcollects, hv, hnan, rfl⟩ := hfail
  exact ⟨i, c, v, hc, hcollects, hv, hnan, by rw [Nat.zero_add]⟩

/-- **A held match is taken back exactly if the node recomputes or all calls return it.**  After
every run on a memory of a node over calls of built-in functions, the operations that failed
included, this decides for every handle that is held whether a retraction succeeds and removes it,
and nothing but it.  If it fails then the handles stay, and the error blames a collection for a
value with NaN in it, which it says it was never given. -/
theorem retract_run_succeeds_iff (n : Node State) {calls : List BuiltinCall}
    (hn : n.accumulators = calls.map BuiltinCall.accumulator) {left : Tuple}
    (hleft : left.WellFormed) {ops : List Operation} (hops : ∀ op ∈ ops, op.WellFormed) :
    ∃ m₀, n.init left = .ok m₀ ∧ ∀ h ∈ (n.run left m₀ ops).handles,
      ∃ x, (n.run left m₀ ops).held.get? h = some x ∧
        ((n.retract left (n.run left m₀ ops) h).failure = none ↔
          (n.reverses = true → ∀ c ∈ calls, c.Returns x)) ∧
        ((n.retract left (n.run left m₀ ops) h).failure = none →
          (n.retract left (n.run left m₀ ops) h).state.handles =
            (n.run left m₀ ops).handles.filter (fun h' => h' ≠ h)) ∧
        ∀ e, (n.retract left (n.run left m₀ ops) h).failure = some e →
          (n.retract left (n.run left m₀ ops) h).state.handles = (n.run left m₀ ops).handles ∧
          ∃ i c v, calls[i]? = some c ∧ c.function.Collects ∧
            c.argument x.tuple x.fact = .ok v ∧ ¬ v.NanFree ∧
            e = .accumulate i (.function (.notAccumulated c.function.name v.display)) := by
  obtain ⟨m₀, h₀, hm⟩ := exists_tracking_run hn hleft hops
  refine ⟨m₀, h₀, fun h hh => ?_⟩
  generalize n.run left m₀ ops = m at hm hh
  obtain ⟨x, hx⟩ := Option.isSome_iff_exists.1 (OrderedMap.contains_iff.2 hh)
  have hmem : x ∈ m.held.values :=
    List.mem_map_of_mem (OrderedMap.get?_eq_some_iff.1 hx)
  refine ⟨x, hx, ?_⟩
  have hs := step_perform n left m (.retract h)
  rw [Node.perform] at hs
  generalize n.retract left m h = o at hs
  cases hs with
  | unknown hnone =>
    rw [hx] at hnone
    exact absurd hnone (Option.some_ne_none x)
  | @unfolded _ y cs hr hy hf =>
    rw [hx, Option.some_inj] at hy
    subst hy
    have hnone : (n.unfold m.contexts x).failure = none := by rw [hf, Outcome.failure_success]
    have hreturns := (hm.unfold_failure_eq_none_iff hn hr hmem).1 hnone
    exact ⟨iff_of_true rfl fun _ => hreturns, fun _ => OrderedMap.keys_erase _ _,
      fun e he => absurd he.symm (Option.some_ne_none e)⟩
  | @unfoldFailed _ y cs e hr hy hf =>
    rw [hx, Option.some_inj] at hy
    subst hy
    have hfail : (n.unfold m.contexts x).failure = some e := by rw [hf, Outcome.failure_failed]
    rw [restore_of_ok (replay_of_accepts hn left hm.accepts), Outcome.failure_failed]
    refine ⟨iff_of_false (Option.some_ne_none e) fun hreturns => ?_,
      fun hok => absurd hok (Option.some_ne_none e), fun e' he => ?_⟩
    · rw [(hm.unfold_failure_eq_none_iff hn hr hmem).2 (hreturns hr)] at hfail
      exact absurd hfail.symm (Option.some_ne_none e)
    · cases he
      exact ⟨rfl, hm.unfold_failure hn hr hmem hfail⟩
  | @replayed _ y cs hr =>
    refine ⟨iff_of_true rfl fun hr' => ?_, fun _ => OrderedMap.keys_erase _ _,
      fun e he => absurd he.symm (Option.some_ne_none e)⟩
    rw [hr] at hr'
    exact absurd hr' Bool.false_ne_true
  | @replayFailed _ y e hr hy hp =>
    rw [replay_of_accepts hn left (hm.accepts_erase h)] at hp
    cases hp

/-- Of three facts the two with NaN in a list cannot be taken back; the one without can, although
it stands between them. -/
theorem retract_run_succeeds_iff_of_nan :
    let n := ofFields [(.count, "x"), (.collectSet, "x")]
    let calls : List BuiltinCall :=
      [.ofField .count (List.mem_of_getElem? (i := 0) rfl) "x",
        .ofField .collectSet (List.mem_of_getElem? (i := 6) rfl) "x"]
    let m₀ : Memory State := ⟨[.tally 0, .tallies []], .empty⟩
    let nan : Value := .list [.int 1, .float (0.0 / 0.0)]
    let ops := [insertFact 1 [("x", nan)], insertFact 2 [("x", .int 2)], insertFact 3 [("x", nan)]]
    let m := n.run .empty m₀ ops
    n.accumulators = calls.map BuiltinCall.accumulator ∧ Tuple.empty.WellFormed ∧
      (∀ op ∈ ops, op.WellFormed) ∧ n.init .empty = .ok m₀ ∧ n.reverses = true ∧
      ((n.retract .empty m ⟨2⟩).failure = none ∧
        (n.retract .empty m ⟨2⟩).state.handles = m.handles.filter (fun h => h ≠ ⟨2⟩)) ∧
      (n.retract .empty m ⟨3⟩).failure ≠ none := by
  intro n calls m₀ nan ops m
  have hn : n.accumulators = calls.map BuiltinCall.accumulator := rfl
  have hleft : Tuple.empty.WellFormed := nofun
  have hops : ∀ op ∈ ops, op.WellFormed := by
    simp [ops, nan, insertFact, Operation.WellFormed, Value.WellFormed, Value.WellFormedFields,
      Value.WellFormedItems, Assoc.keys]
  have hr : n.reverses = true := rfl
  obtain ⟨m', hm', hretract⟩ := retract_run_succeeds_iff n hn hleft hops
  have hm₀ : n.init .empty = .ok m₀ := rfl
  rw [hm₀] at hm'
  cases hm'
  obtain ⟨x, hx, hx₂, hhandles, -⟩ := hretract ⟨2⟩ (by decide +kernel)
  obtain ⟨y, hy, hy₃, -⟩ := hretract ⟨3⟩ (by decide +kernel)
  have hvx : (m.held.get? ⟨2⟩).map (fun x => readField x.fact "x") = some (.ok (.int 2)) := by
    decide +kernel
  have hvy : (m.held.get? ⟨3⟩).map (fun x => readField x.fact "x") = some (.ok nan) := by
    decide +kernel
  rw [hx, Option.map_some, Option.some_inj] at hvx
  rw [hy, Option.map_some, Option.some_inj] at hvy
  have hreturns : ∀ c ∈ calls, c.Returns x := by
    have harg : ∀ c ∈ calls, c.argument x.tuple x.fact = .ok (.int 2) :=
      List.forall_mem_cons.2 ⟨hvx, List.forall_mem_singleton.2 hvx⟩
    intro c hc _ v hv
    rw [harg c hc] at hv
    cases hv
    exact trivial
  have hkept : ¬ ∀ c ∈ calls, c.Returns y := by
    intro hall
    have hwf : nan.WellFormed := ⟨trivial, trivial, trivial⟩
    have hself : nan.eq nan = false := by decide +kernel
    have hnan : nan.NanFree := hall _ (List.mem_of_getElem? (i := 1) rfl) (.inr rfl) nan hvy
    rw [← Value.eq_self_iff hwf, hself] at hnan
    exact Bool.false_ne_true hnan
  have hok := hx₂.2 fun _ => hreturns
  exact ⟨hn, hleft, hops, rfl, hr, ⟨hok, hhandles hok⟩, fun hf => hkept (hy₃.1 hf hr)⟩

/-- **What was inserted cannot always be retracted.**  The only fact is held, and its value was
taken, but the list does not give it back. -/
theorem retract_keeps_nan :
    let n := ofFields [(.collectList, "x")]
    let calls : List BuiltinCall :=
      [.ofField .collectList (List.mem_of_getElem? (i := 5) rfl) "x"]
    let m₀ : Memory State := ⟨[.items []], .empty⟩
    let m := n.run .empty m₀ [insertFact 1 [("x", .float (0.0 / 0.0))]]
    n.accumulators = calls.map BuiltinCall.accumulator ∧ n.init .empty = .ok m₀ ∧
      m.handles = [⟨1⟩] ∧
      (n.retract .empty m ⟨1⟩).failure =
        some (.accumulate 0 (.function (.notAccumulated "collectList" "NaN"))) ∧
      (n.retract .empty m ⟨1⟩).state.handles = [⟨1⟩] := by
  refine ⟨rfl, rfl, ?_, ?_, ?_⟩
  · decide +kernel
  · decide +kernel
  · decide +kernel

end Node
end RuleAggregate
