import RuleAggregate.Proofs.Clause.Steps

/-!
# Which results are bound

A call may ask for a name for its result.  It gets the name if nobody else has it: no declaration on
the result pattern, no declaration that is visible in the rule, and no earlier call of the clause.
Names of the source do not count, for they stay inside the clause.  A call that does not get its
name is reported, and is built all the same.  The names go on the result pattern at the end, when
nothing can stop the build any more; so a clause that is given up leaves the pattern as it was.

## What is here

* `ResolvedCall.granted?`, `ResolvedCall.refused?` — the name that a call gets, or does not get.
* `Progress.After` — the names that are taken after the first calls of a clause.
* `Builder.bindings_run` — what the calls bind, and what they report.
* `Builder.results_bound_exactly` — **results are bound exactly, or not at all.**
-/

set_option autoImplicit false

namespace RuleAggregate

variable {σ : Type}

/-! ## Names that calls get -/

instance (ctx : Context σ) (result : Pattern) (calls : List Call) (i : Nat) (name : String) :
    Decidable (Binds ctx result calls i name) :=
  decidable_of_iff (calls.findIdx? (fun c => c.binding == some name) = some i ∧
      result.declaration? name = none ∧ ctx.scope.contains name = false)
    ⟨fun ⟨hfirst, hunbound, hinvisible⟩ => ⟨hfirst, hunbound, hinvisible⟩,
      fun h => ⟨h.first, h.unbound, h.invisible⟩⟩

namespace ResolvedCall

/-- The name that the call asks for, if the call is the one that binds it. -/
def granted? (r : ResolvedCall σ) (ctx : Context σ) (result : Pattern) (calls : List Call) :
    Option String :=
  r.call.binding.filter fun name => Binds ctx result calls r.index name

/-- The name that the call asks for, if the call is not the one that binds it. -/
def refused? (r : ResolvedCall σ) (ctx : Context σ) (result : Pattern) (calls : List Call) :
    Option String :=
  r.call.binding.filter fun name => ¬Binds ctx result calls r.index name

end ResolvedCall

/-- Whether one of the calls asks for a name. -/
def anyAsks (calls : List Call) (name : String) : Bool := calls.any fun c => c.binding == some name

/-- The call after some others is the first one to ask for a name if none of these asks for it. -/
theorem findIdx?_asks_iff {pre : List Call} {c : Call} {name : String} (post : List Call)
    (hasked : c.binding = some name) :
    (pre ++ c :: post).findIdx? (fun c => c.binding == some name) = some pre.length ↔
      anyAsks pre name = false := by
  have hc : (c.binding == some name) = true := beq_iff_eq.2 hasked
  rw [List.findIdx?_append, List.findIdx?_cons, hc, anyAsks, ← List.findIdx?_isSome]
  cases hpre : pre.findIdx? (fun c => c.binding == some name) with
  | none => simp
  | some i =>
    obtain ⟨hi, -⟩ := List.findIdx?_eq_some_iff_getElem.1 hpre
    simp [Nat.ne_of_lt hi]

/-- A call binds the name that it asks for exactly if the name is free before it. -/
theorem binds_iff {ctx : Context σ} {result : Pattern} {pre post : List Call} {c : Call}
    {name : String} (hasked : c.binding = some name) :
    Binds ctx result (pre ++ c :: post) pre.length name ↔
      ((result.declaration? name).isSome || ctx.scope.contains name || anyAsks pre name) =
        false := by
  rw [Bool.or_eq_false_iff, Bool.or_eq_false_iff, Option.isSome_eq_false_iff,
    Option.isNone_iff_eq_none, ← findIdx?_asks_iff post hasked]
  exact ⟨fun h => ⟨⟨h.unbound, h.invisible⟩, h.first⟩, fun h => ⟨h.2, h.1.1, h.1.2⟩⟩

/-- A resolved call is a call with its place and its function. -/
theorem forall₂_zipIdx_of_resolveCalls {ctx : Context σ} {calls : List Call} :
    ∀ {k : Nat} {rs : List (ResolvedCall σ)}, resolveCalls ctx k calls = .ok rs →
      List.Forall₂ (fun c r => r.call = c.1 ∧ r.index = c.2 ∧
        ctx.function? c.1.function = some r.function) (calls.zipIdx k) rs := by
  induction calls with
  | nil =>
    intro k rs h
    cases h
    exact .nil
  | cons c cs ih =>
    intro k rs h
    obtain ⟨f, ss, hf, hss, rfl⟩ := exists_of_resolveCalls_cons h
    exact .cons ⟨rfl, rfl, hf⟩ (ih hss)

/-! ## What one call binds -/

namespace Progress

variable {ctx : Context σ} {result : Pattern} {pre : List Call} {p : Progress σ}

theorem bindings_bindResult (p : Progress σ) (result : Pattern) (span : Text.Span)
    (accessor : Accessor) (asked : Option String) :
    (p.bindResult result span accessor asked).bindings =
      p.bindings ++
        ((asked.filter fun name => !p.isTaken result name).map (·, accessor)).toList := by
  cases asked with
  | none => exact (List.append_nil _).symm
  | some name =>
    rw [bindResult, Option.filter_some]
    split
    · next htaken =>
      rw [htaken]
      exact (List.append_nil _).symm
    · next hfree =>
      rw [Bool.eq_false_iff.2 hfree]
      rfl

/-- How far the calls of a clause have been built after the calls `pre`, if what is visible in the
rule is `ctx`. -/
structure After (p : Progress σ) (ctx : Context σ) (result : Pattern) (pre : List Call) : Prop where
  rule : p.context.rule = ctx.rule
  config : p.context.config = ctx.config
  /-- The names that the next call cannot have. -/
  taken : ∀ name, p.isTaken result name =
    ((result.declaration? name).isSome || ctx.scope.contains name || anyAsks pre name)
  /-- No name is bound twice. -/
  nodup : (p.bindings.map Prod.fst).Nodup
  /-- What is bound is not on the result pattern. -/
  unbound : ∀ bound ∈ p.bindings, result.declaration? bound.1 = none

theorem after_start (ctx : Context σ) (result : Pattern) :
    After ⟨ctx, .empty, [], []⟩ ctx result [] :=
  ⟨rfl, rfl, fun _ => rfl, List.nodup_nil, nofun⟩

section Next

variable {r : ResolvedCall σ} {post : List Call} (h : p.After ctx result pre)
  (hindex : r.index = pre.length)

include h hindex

theorem After.decide_binds {name : String} (hasked : r.call.binding = some name) :
    decide (Binds ctx result (pre ++ r.call :: post) r.index name) = !p.isTaken result name := by
  rw [h.taken, hindex, Bool.eq_iff_iff, decide_eq_true_iff, binds_iff hasked, Bool.not_eq_true']

/-- The next call gets the name it asks for if the name is free. -/
theorem After.granted?_eq :
    r.granted? ctx result (pre ++ r.call :: post) =
      r.call.binding.filter fun name => !p.isTaken result name := by
  rw [ResolvedCall.granted?]
  cases hasked : r.call.binding with
  | none => rfl
  | some name => rw [Option.filter_some, Option.filter_some, h.decide_binds hindex hasked]

/-- The next call does not get the name it asks for if the name is taken. -/
theorem After.refused?_eq :
    r.refused? ctx result (pre ++ r.call :: post) =
      r.call.binding.filter (p.isTaken result) := by
  rw [ResolvedCall.refused?]
  cases hasked : r.call.binding with
  | none => rfl
  | some name =>
    rw [Option.filter_some, Option.filter_some, decide_not, h.decide_binds hindex hasked,
      Bool.not_not]

end Next

theorem isTaken_eq_false_iff {name : String} :
    p.isTaken result name = false ↔ result.declaration? name = none ∧
      p.context.scope.contains name = false ∧ ∀ bound ∈ p.bindings, bound.1 ≠ name := by
  simp [isTaken, and_assoc]

/-- Free names can be bound. -/
theorem After.bindResult (h : p.After ctx result pre) (span : Text.Span) (accessor : Accessor)
    (asked : Option String) :
    ((p.bindResult result span accessor asked).bindings.map Prod.fst).Nodup ∧
      ∀ bound ∈ (p.bindResult result span accessor asked).bindings,
        result.declaration? bound.1 = none := by
  cases asked with
  | none => exact ⟨h.nodup, h.unbound⟩
  | some name =>
    rw [Progress.bindResult]
    split
    · exact ⟨h.nodup, h.unbound⟩
    · next hfree =>
      obtain ⟨hunbound, -, hnew⟩ := isTaken_eq_false_iff.1 (Bool.eq_false_iff.2 hfree)
      constructor
      · have hmem : name ∉ p.bindings.map Prod.fst := by
          intro hmem
          obtain ⟨bound, hbound, hname⟩ := List.mem_map.1 hmem
          exact hnew bound hbound hname
        rw [List.map_append, List.map_singleton, ← List.concat_eq_append, List.nodup_concat]
        exact ⟨hmem, h.nodup⟩
      · intro bound hbound
        rcases List.mem_append.1 hbound with hbound | hbound
        · exact h.unbound bound hbound
        · rw [List.mem_singleton.1 hbound]
          exact hunbound

end Progress

/-! ## The pattern -/

/-- Names that are not on a pattern go to the end of it, each at its offset. -/
theorem Pattern.exists_foldl_bind {bs : List (String × Accessor)}
    (hnodup : (bs.map Prod.fst).Nodup) :
    ∀ p : Pattern, (∀ bound ∈ bs, p.declaration? bound.1 = none) →
      ∃ bound, bs.foldl (fun r bound => r.bind bound.1 bound.2) p = { p with bound } ∧
        bound.entries = p.bound.entries ++ bs.map fun bound =>
          (bound.1, ⟨bound.1, p.offset, bound.2⟩) := by
  induction bs with
  | nil => exact fun p _ => ⟨p.bound, rfl, (List.append_nil _).symm⟩
  | cons b bs ih =>
    intro p hunbound
    rw [List.map_cons, List.nodup_cons] at hnodup
    obtain ⟨hb, hbs⟩ := List.forall_mem_cons.1 hunbound
    obtain ⟨bound, hfold, hentries⟩ := ih hnodup.2 (p.bind b.1 b.2) (by
      intro c hc
      have hne : b.1 ≠ c.1 := fun he => hnodup.1 (he ▸ List.mem_map_of_mem hc)
      rw [declaration?_bind, if_neg hne]
      exact hbs c hc)
    refine ⟨bound, hfold, ?_⟩
    have hput : (p.bind b.1 b.2).bound.entries =
        p.bound.entries ++ [(b.1, ⟨b.1, p.offset, b.2⟩)] :=
      Assoc.put_of_not_mem (Assoc.get?_eq_none_iff.1 hb)
    rw [hentries, hput, List.append_assoc]
    rfl

/-! ## What all calls bind -/

namespace Builder

variable {b : Builder σ} {ctx : Context σ} {clause : Clause} {scope : ClauseScope}
  {result : Pattern}

/-- A call that is built counts among the calls before the next one. -/
theorem after_of_buildCall {pre : List Call} {p q : Progress σ} {r : ResolvedCall σ}
    (hp : p.After ctx result pre) (h : b.buildCall clause scope result p r = .success q) :
    q.After ctx result (pre ++ [r.call]) := by
  have hextends := extends_of_buildCall h
  obtain ⟨hnodup, hunbound⟩ := hp.bindResult (clause.callSpan r.call)
    (resultAccessor clause.isMulti r.index r.function.resultType) r.call.binding
  rw [← (bindings_of_buildCall h).1] at hnodup hunbound
  refine ⟨hextends.rule.trans hp.rule, hextends.config.trans hp.config, fun name => ?_, hnodup,
    hunbound⟩
  rw [isTaken_of_buildCall h, hp.taken, anyAsks, anyAsks, List.any_append]
  simp [Bool.or_assoc]

/-- What a call reports that becomes part of a node: that it does not get its name, if `ctx` is
what was visible before the build, and that it has arguments that are ignored. -/
def callReports (ctx ctx' : Context σ) (clause : Clause) (result : Pattern) (calls : List Call)
    (r : ResolvedCall σ) : List Diagnostic :=
  ctx'.refusal (clause.callSpan r.call) (r.refused? ctx result calls) ++
    ctx'.ignoredArguments (clause.callSpan r.call) r.call

/-- **What the calls bind, and what they report.** -/
theorem bindings_run {ctx' : Context σ} {post : List Call} :
    ∀ {pre : List Call} {p q : Progress σ} {rs : List (ResolvedCall σ)},
      resolveCalls ctx' pre.length post = .ok rs →
      Outcome.run (b.buildCall clause scope result) p rs = .success q →
      p.After ctx result pre →
        q.After ctx result (pre ++ post) ∧
        q.bindings = p.bindings ++ rs.filterMap (fun r =>
          (r.granted? ctx result (pre ++ post)).map
            (·, resultAccessor clause.isMulti r.index r.function.resultType)) ∧
        q.context.diagnostics = p.context.diagnostics ++
          rs.flatMap (callReports ctx ctx clause result (pre ++ post)) := by
  -- on the calls that are still to be built; `After` knows which names those before them took
  induction post with
  | nil =>
    intro pre p q rs hrs h hp
    cases hrs
    cases h
    rw [List.append_nil]
    exact ⟨hp, (List.append_nil _).symm, (List.append_nil _).symm⟩
  | cons c post ih =>
    intro pre p q rs hrs h hp
    obtain ⟨f, ss, hf, hss, rfl⟩ := exists_of_resolveCalls_cons hrs
    obtain ⟨u, hu, hrun⟩ := Outcome.run_cons_eq_success_iff.1 h
    have hlength : (pre ++ [c]).length = pre.length + 1 := List.length_append
    -- the call counts among those before the next one from now on
    rw [← hlength] at hss
    obtain ⟨hq, hbindings, hdiagnostics⟩ := ih hss hrun (after_of_buildCall hp hu)
    rw [List.append_assoc, List.singleton_append] at hq hbindings hdiagnostics
    refine ⟨hq, ?_, ?_⟩
    · rw [hbindings, (bindings_of_buildCall hu).1, Progress.bindings_bindResult,
        ← hp.granted?_eq rfl, List.append_assoc, List.filterMap_cons]
      cases ResolvedCall.granted? _ ctx result (pre ++ c :: post) <;> rfl
    · rw [hdiagnostics, (extends_of_buildCall hu).diagnostics, List.append_assoc, List.flatMap_cons,
        callReports, hp.refused?_eq rfl, Progress.notes, Context.refusal, Context.ignoredArguments,
        hp.rule, hp.config]
      rfl

/-- Of a context, only the names that are visible in it matter to what calls bind. -/
theorem binds_congr {ctx ctx' : Context σ} (h : ctx'.scope = ctx.scope) {calls : List Call}
    {i : Nat} {name : String} : Binds ctx' result calls i name ↔ Binds ctx result calls i name :=
  ⟨fun hb => ⟨hb.first, hb.unbound, h ▸ hb.invisible⟩,
    fun hb => ⟨hb.first, hb.unbound, h ▸ hb.invisible⟩⟩

theorem granted?_congr {ctx ctx' : Context σ} (h : ctx'.scope = ctx.scope) (r : ResolvedCall σ)
    (calls : List Call) : r.granted? ctx' result calls = r.granted? ctx result calls := by
  simp only [ResolvedCall.granted?, binds_congr h]

theorem callReports_congr {ctx ctx' : Context σ} (h : ctx'.scope = ctx.scope) (wording : Context σ)
    (calls : List Call) : callReports ctx' wording clause result calls =
      callReports ctx wording clause result calls := by
  funext r
  rw [callReports, callReports, ResolvedCall.refused?, ResolvedCall.refused?]
  simp only [binds_congr h]

/-- **Results are bound exactly, or not at all.**  A clause of calls that is given up leaves the
result pattern alone.  If it becomes a node, then what was on the pattern stays as it was, and after
it come, in the order of the calls, the names that calls get, each read as the result of its call.
A call gets its name if it is the first one to ask for it, and the name is neither on the pattern
nor visible in the rule before the build; what the source binds does not matter.  Every other call
that asks for a name is reported once, and every call has its accumulator. -/
theorem results_bound_exactly {b : Builder σ}
    (hsources : ∀ ctx c, (b.sources ctx c).2.scope = ctx.scope) (ctx : Context σ)
    {clause : Clause} {calls : List Call} (hcalls : clause.body = .calls calls)
    (result : Pattern) :
    ((∀ n, (b.build ctx clause result).node ≠ .ok (some n)) →
      (b.build ctx clause result).pattern = result) ∧
    ∀ n, (b.build ctx clause result).node = .ok (some n) → ∃ input ctx' rs bound,
      clause.validInput? = some input ∧ b.sources ctx input.unwrap = (some n.source, ctx') ∧
      List.Forall₂ (fun c r => r.call = c.1 ∧ r.index = c.2 ∧
        ctx'.function? c.1.function = some r.function) calls.zipIdx rs ∧
      (b.build ctx clause result).pattern = { result with bound } ∧
      bound.entries = result.bound.entries ++ rs.filterMap (fun r =>
        (r.granted? ctx result calls).map fun name => (name, ⟨name, result.offset,
          resultAccessor clause.isMulti r.index r.function.resultType⟩)) ∧
      (b.build ctx clause result).context.diagnostics =
        ctx'.diagnostics ++ rs.flatMap (callReports ctx ctx' clause result calls) ∧
      List.Forall₂ (fun call acc => ∃ f, ctx'.function? call.function = some f ∧
        b.Compiles (ClauseScope.of ctx' n.source) f call.argument acc) calls n.accumulators := by
  refine ⟨pattern_of_not_built, fun n hn => ?_⟩
  obtain ⟨input, ctx', rs, p, hinput, hsource, hrs, hrun, hbuild⟩ := exists_run_of_build hcalls hn
  have hscope : ctx'.scope = ctx.scope := by
    rw [← hsources ctx input.unwrap, hsource]
  have hstart : resolveCalls ctx' ([] : List Call).length calls = .ok rs := hrs
  obtain ⟨hafter, hbindings, hdiagnostics⟩ :=
    bindings_run hstart hrun (Progress.after_start ctx' result)
  obtain ⟨bound, hbound, hentries⟩ :=
    Pattern.exists_foldl_bind hafter.nodup result hafter.unbound
  obtain ⟨accs, haccs, hall⟩ := compiles_of_run (forall₂_resolveCalls hrs) hrun
  have hcompiles : n.accumulators = accs := by
    rw [hbuild, Except.ok.injEq, Option.some_inj] at hn
    rw [← hn, accumulators_nodeOfCalls, haccs]
    rfl
  rw [hbuild]
  refine ⟨input, ctx', rs, bound, hinput, hsource, forall₂_zipIdx_of_resolveCalls hrs, hbound,
    ?_, ?_, hcompiles ▸ hall⟩
  · rw [hentries, hbindings, List.nil_append, List.map_filterMap]
    simp only [granted?_congr hscope, Option.map_map, Function.comp_def, List.nil_append]
  · rw [hdiagnostics, callReports_congr hscope]
    rfl

/-- Of five calls, two ask for names that are taken from outside, on the pattern and in the rule,
and one asks for the name of the first.  All three are reported and run without a name.  The name of
the source can be had. -/
theorem results_bound_exactly_of_collisions :
    let call (function name : String) : Call := ⟨function, ["p.x"], some name, ⟨0, 0⟩⟩
    let calls := [call "sum" "s", call "max" "p", call "count" "s", call "min" "t",
      call "count" "r"]
    let ctx := emptyRule.declarePattern ((Pattern.atOffset 0 .any false).bind "t" (.itself .any))
    let result := (Pattern.atOffset 1 .list true).bind "r" (.itself .list)
    let clause : Clause := ⟨some (objectOf "P" "p"), .calls calls, ⟨0, 0⟩⟩
    let built := overPaths.build ctx clause result
    (∀ ctx c, (overPaths.sources ctx c).2.scope = ctx.scope) ∧ clause.body = .calls calls ∧
      ∃ n bound new, built.node = .ok (some n) ∧ n.accumulators.length = 5 ∧
        built.pattern = { result with bound } ∧ bound.entries = result.bound.entries ++ new ∧
        new.map Prod.fst = ["s", "p"] ∧
        built.context.diagnostics.map Diagnostic.kind =
          [.duplicateDeclaration, .duplicateDeclaration, .duplicateDeclaration] := by
  intro call calls ctx result clause built
  have hsources : ∀ ctx c, (overPaths.sources ctx c).2.scope = ctx.scope := fun _ _ => rfl
  have htest : built.node.toOption.any (·.any fun _ => true) = true := by decide +kernel
  obtain ⟨n, hn, -⟩ := exists_node_of_any htest
  have hcalls : clause.body = .calls calls := rfl
  obtain ⟨-, hbound⟩ := results_bound_exactly hsources ctx hcalls result
  obtain ⟨_, _, _, bound, -, -, -, hpattern, hentries, -, hall⟩ := hbound n hn
  refine ⟨hsources, hcalls, n, bound, _, hn, hall.length_eq.symm, hpattern, hentries, ?_, ?_⟩
  · have hkeys : built.pattern.bound.keys = result.bound.keys ++ ["s", "p"] := by decide +kernel
    have hsplit := congrArg (List.map Prod.fst) hentries
    rw [List.map_append] at hsplit
    have hpattern' : built.pattern.bound = bound := congrArg Pattern.bound hpattern
    rw [hpattern'] at hkeys
    exact List.append_cancel_left (hsplit.symm.trans hkeys)
  · decide +kernel

end Builder
end RuleAggregate
