import RuleAggregate.Proofs.Clause.Bindings
import RuleAggregate.Proofs.Clause.Diagnostics

/-!
# Clauses one after the other

The clauses of a rule share one counter for offsets.  A result pattern takes the next offset, and so
does every pattern of the source of its clause; but when the nodes run, a tuple only grows by one
object for each node.  The two ways of counting agree as long as there is a single clause.  After
that they drift apart: a name that a later clause binds is looked up too far to the right, by one
place for every source pattern of the clauses before.

## What is here

* `Stage`, `Chained` — clauses that are built one after the other, and whose nodes run one after the
  other.
* `sourcePatterns`, `tupleAfter` — how far the offsets and the tuple have come.
* `Chained.offset_eq` — the offset of a stage, in terms of the stages before it.
* `runStages?` — builds clauses and runs their nodes, so that stages can be computed.
* `Chained.value_of_bound` — **what is read under a bound name after all stages.**
* `second_result_is_missing` — two clauses, of which the second one does not deliver.
-/

set_option autoImplicit false

namespace RuleAggregate

variable {σ : Type}

/-! ## Stages -/

/-- A clause of calls that was built, and a run of its node. -/
structure Stage (σ : Type) where
  /-- What was built of the rule before the clause. -/
  context : Context σ
  clause : Clause
  calls : List Call
  /-- The pattern for the result, before the results are bound on it. -/
  result : Pattern
  node : Node σ
  /-- What the node has accumulated. -/
  memory : Memory σ
  /-- The result of the node. -/
  value : Value

namespace Stage

/-- What was built of the clause, once its result pattern had its offset. -/
def built (s : Stage σ) (b : Builder σ) : Built σ :=
  b.build s.context.takeOffset.2 s.clause s.result

/-- The clause was built with its result pattern at the next offset, and its node answered the
result for the left tuple. -/
structure Runs (s : Stage σ) (b : Builder σ) (left : Tuple) : Prop where
  calls : s.clause.body = .calls s.calls
  offset : s.result.offset = s.context.takeOffset.1
  node : (s.built b).node = .ok (some s.node)
  reachable : s.node.Reachable s.memory
  value : s.node.result left s.memory = .ok s.value

end Stage

/-- The stages follow each other: every one starts at the offset at which the one before it ended,
and its left tuple is what the node before it propagated.  Whatever else happens to the rule between
two stages does not matter. -/
inductive Chained (b : Builder σ) : Nat → Tuple → List (Stage σ) → Prop
  | nil (next : Nat) (left : Tuple) : Chained b next left []
  | cons {next : Nat} {left : Tuple} {s : Stage σ} {ss : List (Stage σ)}
      (hnext : s.context.nextOffset = next) (hs : s.Runs b left)
      (hss : Chained b (s.built b).context.nextOffset (Node.propagate left s.value) ss) :
      Chained b next left (s :: ss)

/-- The tuple after the nodes of all stages. -/
def tupleAfter (left : Tuple) (ss : List (Stage σ)) : Tuple :=
  ss.foldl (fun t s => Node.propagate t s.value) left

/-- How many patterns the sources of the stages have. -/
def sourcePatterns (ss : List (Stage σ)) : Nat :=
  (ss.map fun s => s.node.source.patterns.length).sum

/-! ## The tuple -/

theorem objects_tupleAfter (left : Tuple) (ss : List (Stage σ)) :
    (tupleAfter left ss).objects = left.objects ++ ss.map Stage.value := by
  induction ss generalizing left with
  | nil => exact (List.append_nil _).symm
  | cons s ss ih =>
    show (tupleAfter (Node.propagate left s.value) ss).objects = _
    rw [ih, Node.propagate, Tuple.push, List.append_assoc]
    rfl

/-- After the left tuple, the tuple holds the results. -/
theorem get?_tupleAfter (left : Tuple) (ss : List (Stage σ)) (i : Nat) :
    (tupleAfter left ss).get? (left.size + i) = (ss[i]?).map Stage.value := by
  rw [Tuple.get?, objects_tupleAfter, Tuple.size, List.getElem?_append_right (Nat.le_add_right _ _),
    Nat.add_sub_cancel_left, List.getElem?_map]

/-- What a declaration reads after all stages, if it is to be read from the object at a place after
the left tuple. -/
theorem value_tupleAfter {d : Declaration} {left : Tuple} {i : Nat} (h : d.offset = left.size + i)
    (ss : List (Stage σ)) : d.value (tupleAfter left ss) =
      match ss[i]? with
      | some s => d.accessor.read s.value
      | none => .error (.missingObject d.offset) := by
  rw [Declaration.value, Tuple.object, h, get?_tupleAfter]
  cases ss[i]? <;> rfl

/-! ## One stage -/

/-- The result of the node of a clause is read call by call. -/
theorem read_result_nodeOfCalls {clause : Clause} {calls : List Call}
    (hcalls : clause.body = .calls calls) {source : Source} {p : Progress σ}
    (hlen : p.accumulators.length = calls.length) {m : Memory σ}
    (hm : (Builder.nodeOfCalls source p).Reachable m) {left : Tuple} {v : Value}
    (hv : (Builder.nodeOfCalls source p).result left m = .ok v) {j : Nat} {acc : Accumulator σ}
    (hacc : p.accumulators[j]? = some acc) (t : ValueType) :
    ∃ c w, m.contexts[j]? = some c ∧ acc.result c left = .ok w ∧
      (resultAccessor clause.isMulti j t).read v = .ok w := by
  obtain ⟨vs, rfl, hvs, hslots⟩ := hm.exists_slots hv
  rw [Builder.accumulators_nodeOfCalls] at hvs hslots
  obtain ⟨c, w, hc, hw, hresult⟩ := hslots j acc hacc
  have hclause : clause.isMulti = decide (1 < vs.length) := by
    rw [Clause.isMulti, hcalls, hvs, hlen]
  have hpos : j < p.accumulators.length := (List.getElem?_eq_some_iff.1 hacc).1
  have hmulti : (Builder.nodeOfCalls source p).isMulti = clause.isMulti := by
    rw [Builder.isMulti_nodeOfCalls, hclause, hvs]
    exact decide_eq_decide.2 (by omega)
  rw [hmulti]
  exact ⟨c, w, hc, hresult, read_resultAccessor hclause hw t⟩

namespace Stage.Runs

variable {b : Builder σ} {s : Stage σ} {left : Tuple}

/-- A stage uses up one offset for its result, and one for every pattern of its source. -/
theorem nextOffset_built (hsources : b.sources = .patterns) (h : s.Runs b left) :
    (s.built b).context.nextOffset =
        s.context.nextOffset + 1 + s.node.source.patterns.length ∧
      0 < s.node.source.patterns.length := by
  obtain ⟨input, ctx', rs, p, -, hsource, -, hrun, hbuild⟩ :=
    Builder.exists_run_of_build h.calls h.node
  rw [hsources, SourceBuilder.patterns, Prod.mk.injEq] at hsource
  obtain ⟨hsource, rfl⟩ := hsource
  obtain ⟨-, hnext, hne⟩ := Source.numbered_ofCondition? (Prod.ext hsource rfl)
  obtain ⟨new, hextends, -⟩ := b.exists_accompanies_run s.clause
    (ClauseScope.of { s.context.takeOffset.2 with nextOffset := _ } s.node.source) s.result rs
    ⟨{ s.context.takeOffset.2 with nextOffset := _ }, .empty, [], []⟩
  rw [hrun] at hextends
  rw [Stage.built, hbuild]
  exact ⟨hextends.nextOffset.trans hnext, List.length_pos_iff.2 hne⟩

/-- **A bound name reads the result of its own accumulator, from the result of its node.** -/
theorem read_of_binds (hsources : b.sources = .patterns) (h : s.Runs b left) {j : Nat}
    {name : String} (hbinds : Binds s.context s.result s.calls j name) :
    ∃ d acc c w, (s.built b).pattern.declaration? name = some d ∧ d.offset = s.result.offset ∧
      s.node.accumulators[j]? = some acc ∧ s.memory.contexts[j]? = some c ∧
      acc.result c left = .ok w ∧ d.accessor.read s.value = .ok w := by
  obtain ⟨input, ctx', rs, p, -, hsource, hrs, hrun, hbuild⟩ :=
    Builder.exists_run_of_build h.calls h.node
  have hscope : ctx'.scope = s.context.scope := by
    rw [hsources, SourceBuilder.patterns, Prod.mk.injEq] at hsource
    rw [← hsource.2]
    rfl
  obtain ⟨call, f, hcall, -, -, hdecl⟩ :=
    (Builder.declaration?_build hrs hrun).1 j ((Builder.binds_congr hscope).2 hbinds)
  obtain ⟨accs, haccs, hall⟩ := Builder.compiles_of_run (forall₂_resolveCalls hrs) hrun
  rw [List.nil_append] at haccs
  obtain ⟨acc, hacc, -⟩ := exists_of_forall₂ hall hcall
  rw [← haccs] at hall hacc
  have hnode : s.node = Builder.nodeOfCalls s.node.source p := by
    have hn := h.node
    rw [Stage.built, hbuild, Except.ok.injEq, Option.some_inj] at hn
    exact hn.symm
  have hm := h.reachable
  have hv := h.value
  rw [hnode] at hm hv
  obtain ⟨c, w, hc, hw, hread⟩ :=
    read_result_nodeOfCalls h.calls hall.length_eq.symm hm hv hacc f.resultType
  refine ⟨⟨name, s.result.offset, resultAccessor s.clause.isMulti j f.resultType⟩, acc, c, w,
    ?_, rfl, ?_, hc, hw, hread⟩
  · rw [Stage.built, hbuild]
    exact hdecl
  · rw [hnode, Builder.accumulators_nodeOfCalls]
    exact hacc

end Stage.Runs

/-! ## All stages -/

namespace Chained

variable {b : Builder σ} {next : Nat} {left : Tuple} {ss : List (Stage σ)}

/-- **Where a stage stands**: it starts at an offset for every stage before it and for every pattern
of their sources, while the tuple has only grown by one object for each of them. -/
theorem offset_eq (hsources : b.sources = .patterns) (h : Chained b next left ss) {i : Nat}
    {s : Stage σ} (hs : ss[i]? = some s) :
    s.context.nextOffset = next + i + sourcePatterns (ss.take i) ∧
      i ≤ sourcePatterns (ss.take i) ∧ s.Runs b (tupleAfter left (ss.take i)) := by
  induction h generalizing i with
  | nil => cases hs
  | @cons next left s₀ ss hnext hs₀ _ ih =>
    cases i with
    | zero =>
      cases hs
      exact ⟨hnext, Nat.zero_le _, hs₀⟩
    | succ i =>
      obtain ⟨hoffset, hle, hruns⟩ := ih hs
      obtain ⟨hbuilt, hpos⟩ := hs₀.nextOffset_built hsources
      have hsum : sourcePatterns ((s₀ :: ss).take (i + 1)) =
          s₀.node.source.patterns.length + sourcePatterns (ss.take i) := by
        rw [List.take_succ_cons, sourcePatterns, List.map_cons, List.sum_cons, sourcePatterns]
      rw [hsum]
      -- the result of the first stage is counted by `i`, the patterns of its source by the sum
      exact ⟨by omega, by omega, hruns⟩

end Chained

/-! ## Running stages -/

/-- Builds a clause with its result pattern at the next offset, and runs its node. -/
def Stage.run? (b : Builder σ) (ctx : Context σ) (left : Tuple) (clause : Clause)
    (ops : List Operation) : Option (Stage σ) :=
  let result := Pattern.atOffset ctx.takeOffset.1 .any true
  match clause.body, (b.build ctx.takeOffset.2 clause result).node with
  | .calls calls, .ok (some n) =>
    match n.init left with
    | .ok m₀ =>
      match n.result left (n.run left m₀ ops) with
      | .ok v => some ⟨ctx, clause, calls, result, n, n.run left m₀ ops, v⟩
      | .error _ => none
    | .error _ => none
  | _, _ => none

theorem Stage.runs_of_run? {b : Builder σ} {ctx : Context σ} {left : Tuple} {clause : Clause}
    {ops : List Operation} {s : Stage σ} (h : Stage.run? b ctx left clause ops = some s) :
    s.context = ctx ∧ s.Runs b left := by
  simp only [Stage.run?] at h
  split at h
  · next calls n hcalls hn =>
    split at h
    · next m₀ hm₀ =>
      split at h
      · next v hv =>
        cases h
        exact ⟨rfl, hcalls, rfl, hn, (Node.Reachable.init hm₀).run left ops, hv⟩
      · cases h
    · cases h
  · cases h

/-- Builds clauses one after the other, and runs their nodes one after the other. -/
def runStages? (b : Builder σ) (ctx : Context σ) (left : Tuple) :
    List (Clause × List Operation) → Option (List (Stage σ))
  | [] => some []
  | (clause, ops) :: rest =>
    match Stage.run? b ctx left clause ops with
    | some s =>
      (runStages? b (s.built b).context (Node.propagate left s.value) rest).map (s :: ·)
    | none => none

theorem chained_of_runStages? {b : Builder σ} {cs : List (Clause × List Operation)} :
    ∀ {ctx : Context σ} {left : Tuple} {ss : List (Stage σ)},
      runStages? b ctx left cs = some ss → Chained b ctx.nextOffset left ss := by
  induction cs with
  | nil =>
    intro ctx left ss h
    cases h
    exact .nil _ _
  | cons c cs ih =>
    intro ctx left ss h
    obtain ⟨clause, ops⟩ := c
    rw [runStages?] at h
    split at h
    · next s hs =>
      obtain ⟨rest, hrest, rfl⟩ := Option.map_eq_some_iff.1 h
      obtain ⟨rfl, hruns⟩ := Stage.runs_of_run? hs
      exact .cons rfl hruns (ih hrest)
    · cases h

/-- The sum over the field `x` of the objects of a type, with one such object. -/
def sumOver (typeName name : String) (x : Int64) : Clause × List Operation :=
  (⟨some (Builder.objectOf typeName "o"), .calls [⟨"sum", ["o.x"], some name, ⟨0, 0⟩⟩], ⟨0, 0⟩⟩,
    [.insert ⟨1⟩ [.fact typeName [("x", .int x)]]])

/-! ## What is read -/

namespace Chained

variable {b : Builder σ} {left : Tuple} {ss : List (Stage σ)}

/-- **What is read under a bound name after all stages.**  The first result pattern stands at the
end of the left tuple.  Then the result of stage `i` is the object at place `i` after the left
tuple, and a name that it binds would read the result of its own call there.  But the name is read
from a place further to the right, by one for every source pattern of the stages before.  So the
first stage is read as it should be.  Instead of a later one some other stage is read, or there is no
object at all; the latter is what happens in the second half of the stages. -/
theorem value_of_bound (hsources : b.sources = .patterns) (h : Chained b left.size left ss)
    {i : Nat} {s : Stage σ} (hs : ss[i]? = some s) {j : Nat} {name : String}
    (hbinds : Binds s.context s.result s.calls j name) :
    ∃ d acc c w, (s.built b).pattern.declaration? name = some d ∧
      s.node.accumulators[j]? = some acc ∧ s.memory.contexts[j]? = some c ∧
      acc.result c (tupleAfter left (ss.take i)) = .ok w ∧ d.accessor.read s.value = .ok w ∧
      (tupleAfter left ss).get? (left.size + i) = some s.value ∧
      d.offset = left.size + i + sourcePatterns (ss.take i) ∧ i ≤ sourcePatterns (ss.take i) ∧
      d.value (tupleAfter left ss) =
        (match ss[i + sourcePatterns (ss.take i)]? with
        | some other => d.accessor.read other.value
        | none => .error (.missingObject d.offset)) ∧
      (i = 0 → d.value (tupleAfter left ss) = .ok w) ∧
      (ss.length ≤ 2 * i → d.value (tupleAfter left ss) = .error (.missingObject d.offset)) := by
  obtain ⟨hnext, hle, hruns⟩ := h.offset_eq hsources hs
  obtain ⟨d, acc, c, w, hd, hoffset, hacc, hc, hw, hread⟩ := hruns.read_of_binds hsources hbinds
  rw [hruns.offset] at hoffset
  have hplace : d.offset = left.size + (i + sourcePatterns (ss.take i)) := by
    rw [hoffset, ← Nat.add_assoc]
    exact hnext
  have hvalue := value_tupleAfter hplace ss
  refine ⟨d, acc, c, w, hd, hacc, hc, hw, hread, ?_, hplace.trans (Nat.add_assoc _ _ _).symm, hle,
    hvalue, ?_, ?_⟩
  · rw [get?_tupleAfter, hs]
    rfl
  · rintro rfl
    rw [hvalue, List.take_zero, sourcePatterns, List.map_nil, List.sum_nil, Nat.add_zero, hs]
    exact hread
  · intro hlast
    have hnone : ss[i + sourcePatterns (ss.take i)]? = none := by
      rw [List.getElem?_eq_none_iff]
      omega
    rw [hvalue, hnone]

end Chained

/-- Of three sums, the second one is 2.  But its name is read from the object that is the result of
the third one. -/
theorem Chained.value_of_bound_of_three :
    Builder.overPaths.sources = .patterns ∧ ∃ ss s d,
      Chained Builder.overPaths Tuple.empty.size .empty ss ∧
      ss.map Stage.value = [.float 1.0, .float 2.0, .float 4.0] ∧ ss[1]? = some s ∧
      Binds s.context s.result s.calls 0 "b" ∧
      (s.built Builder.overPaths).pattern.declaration? "b" = some d ∧
      d.accessor.read s.value = .ok (.float 2.0) ∧
      d.value (tupleAfter .empty ss) = .ok (.float 4.0) := by
  have htest : (runStages? Builder.overPaths Builder.emptyRule .empty
      [sumOver "P" "a" 1, sumOver "Q" "b" 2, sumOver "R" "c" 4]).any (fun ss => decide
        (ss.map Stage.value = [.float 1.0, .float 2.0, .float 4.0] ∧
          sourcePatterns (ss.take 1) = 1 ∧
          (ss[1]?).any fun s => decide (Binds s.context s.result s.calls 0 "b" ∧
            (s.built Builder.overPaths).pattern.declaration? "b" =
              some ⟨"b", 2, .itself .numeric⟩))) = true := by
    decide +kernel
  obtain ⟨ss, hss, hdecide⟩ := (Option.any_eq_true _ _).1 htest
  obtain ⟨hvalues, hpatterns, hstage⟩ := of_decide_eq_true hdecide
  obtain ⟨s, hs, hdecide⟩ := (Option.any_eq_true _ _).1 hstage
  obtain ⟨hbinds, hd⟩ := of_decide_eq_true hdecide
  have hchained : Chained Builder.overPaths Tuple.empty.size .empty ss := chained_of_runStages? hss
  have hplace : ∀ i v, (ss.map Stage.value)[i]? = some v →
      ∃ s : Stage State, ss[i]? = some s ∧ s.value = v :=
    fun i v h => Option.map_eq_some_iff.1 (List.getElem?_map.symm.trans h)
  obtain ⟨s', hs', hv⟩ := hplace 1 (.float 2.0) (by rw [hvalues]; rfl)
  obtain ⟨other, hother, hw⟩ := hplace 2 (.float 4.0) (by rw [hvalues]; rfl)
  rw [hs, Option.some_inj] at hs'
  subst hs'
  obtain ⟨d, _, _, _, hd', -, -, -, -, -, -, -, hvalue, -, -⟩ :=
    hchained.value_of_bound rfl hs hbinds
  rw [hd, Option.some_inj] at hd'
  subst hd'
  rw [hpatterns, hother] at hvalue
  refine ⟨rfl, ss, s, _, hchained, hvalues, hs, hbinds, hd, congrArg Except.ok hv, ?_⟩
  rw [hvalue, ← hw]
  rfl

/-- **The second of two clauses does not deliver.**  Its sum is 2, and it is read from an object
that the tuple does not have. -/
theorem second_result_is_missing :
    ∃ ss s d, Chained Builder.overPaths Tuple.empty.size .empty ss ∧ ss.length = 2 ∧
      ss[1]? = some s ∧
      Binds s.context s.result s.calls 0 "b" ∧
      (s.built Builder.overPaths).pattern.declaration? "b" = some d ∧ s.value = .float 2.0 ∧
      d.value (tupleAfter .empty ss) = .error (.missingObject 2) := by
  have htest : (runStages? Builder.overPaths Builder.emptyRule .empty
      [sumOver "P" "a" 1, sumOver "Q" "b" 2]).any (fun ss => decide
        (ss.length = 2 ∧ (ss[1]?).any fun s => decide
          (Binds s.context s.result s.calls 0 "b" ∧
            (s.built Builder.overPaths).pattern.declaration? "b" = some ⟨"b", 2, .itself .numeric⟩ ∧
            s.value = .float 2.0))) = true := by
    decide +kernel
  obtain ⟨ss, hss, hdecide⟩ := (Option.any_eq_true _ _).1 htest
  obtain ⟨hlength, hstage⟩ := of_decide_eq_true hdecide
  obtain ⟨s, hs, hdecide⟩ := (Option.any_eq_true _ _).1 hstage
  obtain ⟨hbinds, hd, hv⟩ := of_decide_eq_true hdecide
  have hnone : ss[2]? = none := List.getElem?_eq_none_iff.2 (Nat.le_of_eq hlength)
  refine ⟨ss, s, _, chained_of_runStages? hss, hlength, hs, hbinds, hd, hv, ?_⟩
  rw [value_tupleAfter (i := 2) rfl, hnone]

end RuleAggregate
