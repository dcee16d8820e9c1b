import RuleAggregate.Proofs.Clause.Results

/-!
# What the building of a clause does to its context

While a clause is built, its context only grows: diagnostics and units for the compiler are added at
the end, and the next unit gets the next number.  The rule, its scope and its offsets stay as they
are.  A call can end in four ways, and so can inline code; in three of them the clause is given up.

## What is here

* `Context.Extends` — a context grows by the given diagnostics.
* `Builder.CallStep`, `Builder.callStep_buildCall` — **everything that the building of a call can
  do**: one case for every way in which it can end.
* `Builder.InlineStep`, `Builder.inlineStep_buildInline` — the same for inline code.
-/

set_option autoImplicit false

namespace RuleAggregate

variable {σ : Type}

/-! ## Contexts that grow -/

/-- A context grows by diagnostics, and by nothing else that the rule can see. -/
structure Context.Extends (ctx ctx' : Context σ) (new : List Diagnostic) : Prop where
  rule : ctx'.rule = ctx.rule
  config : ctx'.config = ctx.config
  package : ctx'.package = ctx.package
  scope : ctx'.scope = ctx.scope
  nextOffset : ctx'.nextOffset = ctx.nextOffset
  diagnostics : ctx'.diagnostics = ctx.diagnostics ++ new

namespace Context

theorem extends_refl (ctx : Context σ) : ctx.Extends ctx [] :=
  ⟨rfl, rfl, rfl, rfl, rfl, (List.append_nil _).symm⟩

theorem extends_report (ctx : Context σ) (kind : DiagnosticKind) (span : Text.Span)
    (detail : String) :
    ctx.Extends (ctx.report kind span detail) [.of ctx.rule kind span (some detail)] :=
  ⟨rfl, rfl, rfl, rfl, rfl, rfl⟩

/-- A unit gets its number and is sent to the compiler. -/
theorem extends_request (ctx : Context σ) (r : Request σ) :
    ctx.Extends (ctx.takeId.2.noteRequest r) [] :=
  ⟨rfl, rfl, rfl, rfl, rfl, (List.append_nil _).symm⟩

theorem Extends.trans {ctx ctx' ctx'' : Context σ} {new new' : List Diagnostic}
    (h : ctx.Extends ctx' new) (h' : ctx'.Extends ctx'' new') :
    ctx.Extends ctx'' (new ++ new') where
  rule := h'.rule.trans h.rule
  config := h'.config.trans h.config
  package := h'.package.trans h.package
  scope := h'.scope.trans h.scope
  nextOffset := h'.nextOffset.trans h.nextOffset
  diagnostics := by rw [h'.diagnostics, h.diagnostics, List.append_assoc]

end Context

/-! ## One call -/

/-- What is reported about a name that a call asks for and does not get. -/
def Context.refusal (ctx : Context σ) (span : Text.Span) (refused : Option String) :
    List Diagnostic :=
  refused.toList.map fun name => .of ctx.rule .duplicateDeclaration span (some name)

/-- What is reported about the arguments of a call after the first one. -/
def Context.ignoredArguments (ctx : Context σ) (span : Text.Span) (call : Call) :
    List Diagnostic :=
  if 1 < call.arguments.length ∧ ctx.config.warnsIgnoredArguments = true then
    [.of ctx.rule .ignoredArguments span (some call.function)]
  else []

namespace Progress

/-- What a call reports before its argument is analyzed. -/
def notes (p : Progress σ) (result : Pattern) (span : Text.Span) (call : Call) :
    List Diagnostic :=
  p.context.refusal span (call.binding.filter (p.isTaken result)) ++
    p.context.ignoredArguments span call

theorem extends_bindResult (p : Progress σ) (result : Pattern) (span : Text.Span)
    (accessor : Accessor) (asked : Option String) :
    p.context.Extends (p.bindResult result span accessor asked).context
      (p.context.refusal span (asked.filter (p.isTaken result))) := by
  cases asked with
  | none => exact p.context.extends_refl
  | some name =>
    rw [bindResult]
    split
    · next htaken =>
      rw [Option.filter_some, if_pos htaken]
      exact p.context.extends_report _ _ _
    · next hfree =>
      rw [Option.filter_some, if_neg hfree]
      exact p.context.extends_refl

theorem extends_warnIgnored (p : Progress σ) (span : Text.Span) (call : Call) :
    p.context.Extends (p.warnIgnored span call).context
      (p.context.ignoredArguments span call) := by
  rw [warnIgnored, Context.ignoredArguments]
  split
  · exact p.context.extends_report _ _ _
  · exact p.context.extends_refl

theorem aborts_of_mem_notes {p : Progress σ} {result : Pattern} {span : Text.Span} {call : Call}
    {d : Diagnostic} (hd : d ∈ p.notes result span call) : d.kind.aborts = false := by
  rcases List.mem_append.1 hd with hd | hd
  · obtain ⟨name, -, rfl⟩ := List.mem_map.1 hd
    rfl
  · rw [Context.ignoredArguments] at hd
    split at hd
    · rw [List.mem_singleton.1 hd]
      rfl
    · cases hd

end Progress

namespace Builder

variable {b : Builder σ} {clause : Clause} {scope : ClauseScope} {result : Pattern}

/-- How far the calls have been built when the argument of a call is about to be analyzed: its name
is bound or reported, and so are arguments that are ignored. -/
def announce (clause : Clause) (result : Pattern) (p : Progress σ) (c : ResolvedCall σ) :
    Progress σ :=
  (p.bindResult result (clause.callSpan c.call)
    (resultAccessor clause.isMulti c.index c.function.resultType) c.call.binding).warnIgnored
      (clause.callSpan c.call) c.call

theorem extends_announce (clause : Clause) (result : Pattern) (p : Progress σ)
    (c : ResolvedCall σ) :
    p.context.Extends (announce clause result p c).context
      (p.notes result (clause.callSpan c.call) c.call) := by
  have hbind := p.extends_bindResult result (clause.callSpan c.call)
    (resultAccessor clause.isMulti c.index c.function.resultType) c.call.binding
  have hwarn := (p.bindResult result (clause.callSpan c.call)
    (resultAccessor clause.isMulti c.index c.function.resultType)
    c.call.binding).extends_warnIgnored (clause.callSpan c.call) c.call
  rw [Context.ignoredArguments, hbind.rule, hbind.config] at hwarn
  exact hbind.trans hwarn

/-- The request for the unit of a call, if `p` is how far the calls have been built. -/
def callRequest (scope : ClauseScope) (p : Progress σ) (c : ResolvedCall σ)
    (found : List Declaration) (references : References) : Request σ :=
  scope.request (ClauseScope.unitName "accumulateExpression" p.context.nextId)
    (.call c.function c.call.argument) found references

/-- The ways in which the building of a call can end, if `p` is how far the calls have been built
when its argument is analyzed. -/
inductive CallStep (b : Builder σ) (clause : Clause) (scope : ClauseScope) (c : ResolvedCall σ)
    (p : Progress σ) : Outcome (Progress σ) Halt → Prop
  /-- The argument cannot be analyzed. -/
  | unanalyzed {e : AnalyzeError}
      (ha : b.analyzer c.call.argument .expression scope.available = .error e) :
      CallStep b clause scope c p
        (.failed (p.report .analysisFailed (clause.callSpan c.call) e.message) .reported)
  /-- The argument mentions a declaration that is not visible. -/
  | unresolved {a : Analysis} {name : String} {required : Required}
      (ha : b.analyzer c.call.argument .expression scope.available = .ok a)
      (hr : requireAll scope.visible a.references p.required = (.error name, required)) :
      CallStep b clause scope c p
        (.failed { p with required } (.broken (.unresolvedDeclaration name)))
  /-- The call cannot be compiled. -/
  | uncompiled {a : Analysis} {found : List Declaration} {required : Required} {e : CompileError}
      (ha : b.analyzer c.call.argument .expression scope.available = .ok a)
      (hr : requireAll scope.visible a.references p.required = (.ok found, required))
      (hc : b.compiler (callRequest scope p c found a.references) = .error e) :
      CallStep b clause scope c p
        (.failed { p with
          required
          context := (p.context.takeId.2.noteRequest
            (callRequest scope p c found a.references)).report .compileFailed
              (clause.callSpan c.call) e.message } .reported)
  /-- The call is built. -/
  | built {a : Analysis} {found : List Declaration} {required : Required} {acc : Accumulator σ}
      (ha : b.analyzer c.call.argument .expression scope.available = .ok a)
      (hr : requireAll scope.visible a.references p.required = (.ok found, required))
      (hc : b.compiler (callRequest scope p c found a.references) = .ok acc) :
      CallStep b clause scope c p
        (.success { p with
          required
          context := p.context.takeId.2.noteRequest (callRequest scope p c found a.references)
          accumulators := p.accumulators ++ [acc] })

/-- **The building of a call ends in one of these ways.** -/
theorem callStep_buildCall (b : Builder σ) (clause : Clause) (scope : ClauseScope)
    (result : Pattern) (p : Progress σ) (c : ResolvedCall σ) :
    b.CallStep clause scope c (announce clause result p c)
      (b.buildCall clause scope result p c) := by
  simp only [buildCall, announce]
  -- from here on it does not matter what was bound and reported
  generalize (p.bindResult _ _ _ _).warnIgnored _ _ = q
  rw [analyze]
  split
  · next h ctx ha =>
    split at ha
    · cases ha
    · next he =>
      cases ha
      exact .unanalyzed he
  · next a ctx ha =>
    split at ha
    · next hok =>
      cases ha
      split
      · next hr => exact .unresolved hok hr
      · next found required hr =>
        simp only [compile]
        split
        · next hc =>
          split at hc
          · cases hc
          · next he =>
            cases hc
            exact .uncompiled hok hr he
        · next hc =>
          split at hc
          · next hacc =>
            cases hc
            exact .built hok hr hacc
          · cases hc
    · cases ha

/-- A call that is built adds its reports to the context. -/
theorem extends_of_buildCall {p q : Progress σ} {c : ResolvedCall σ}
    (h : b.buildCall clause scope result p c = .success q) :
    p.context.Extends q.context (p.notes result (clause.callSpan c.call) c.call) := by
  have hstep := b.callStep_buildCall clause scope result p c
  rw [h] at hstep
  cases hstep with
  | built ha hr hc =>
    rw [← List.append_nil (p.notes _ _ _)]
    exact (extends_announce clause result p c).trans (Context.extends_request _ _)

/-! ## Inline code -/

/-- The fragments have the given analyses. -/
def Analyzes (b : Builder σ) (scope : ClauseScope) (fs : List (String × FragmentKind))
    (analyses : List Analysis) : Prop :=
  List.Forall₂ (fun f a => b.analyzer f.1 f.2 scope.available = .ok a) fs analyses

/-- **Fragments are analyzed up to the first that fails**, and then that is reported. -/
theorem analyzeAll_ok_or_reported (b : Builder σ) (ctx : Context σ) (span : Text.Span)
    (scope : ClauseScope) (fs : List (String × FragmentKind)) :
    (∃ analyses, b.analyzeAll ctx span scope fs = (.ok analyses, ctx) ∧
      b.Analyzes scope fs analyses) ∨
    ∃ e : AnalyzeError, b.analyzeAll ctx span scope fs =
      (.error .reported, ctx.report .analysisFailed span e.message) := by
  induction fs with
  | nil => exact .inl ⟨[], rfl, .nil⟩
  | cons f fs ih =>
    obtain ⟨code, kind⟩ := f
    rw [analyzeAll, analyze]
    cases ha : b.analyzer code kind scope.available with
    | error e => exact .inr ⟨e, rfl⟩
    | ok a =>
      obtain ⟨analyses, hrest, hall⟩ | ⟨e, hrest⟩ := ih
      · simp only [hrest]
        exact .inl ⟨a :: analyses, rfl, .cons ha hall⟩
      · simp only [hrest]
        exact .inr ⟨e, rfl⟩

/-- What the fragments mention together. -/
def allReferences (analyses : List Analysis) : References :=
  (analyses.map Analysis.references).foldl References.merge .empty

/-- The request for the unit of inline code, given what its fragments mention. -/
def inlineRequest (ctx : Context σ) (code : InlineCode) (source : Source)
    (found : List Declaration) (analyses : List Analysis) : Request σ :=
  (ClauseScope.of ctx source).request (ClauseScope.unitName "Accumulate" ctx.nextId)
    (.inline (inlineBody code ((analyses.head?.map Analysis.locals).getD []))) found
    (allReferences analyses)

/-- The ways in which the building of inline code can end. -/
inductive InlineStep (b : Builder σ) (ctx : Context σ) (clause : Clause) (code : InlineCode)
    (source : Source) (result : Pattern) : Built σ → Prop
  /-- A fragment cannot be analyzed. -/
  | unanalyzed (e : AnalyzeError) :
      InlineStep b ctx clause code source result
        ⟨.ok none, ctx.takeId.2.report .analysisFailed clause.span e.message, result⟩
  /-- A fragment mentions a declaration that is not visible. -/
  | unresolved {analyses : List Analysis} {name : String} {required : Required}
      (ha : b.Analyzes (ClauseScope.of ctx source) (fragments code) analyses)
      (hr : requireAll (ClauseScope.of ctx source).visible (allReferences analyses) .empty =
        (.error name, required)) :
      InlineStep b ctx clause code source result
        ⟨.error (.unresolvedDeclaration name), ctx.takeId.2, result⟩
  /-- The unit cannot be compiled. -/
  | uncompiled {analyses : List Analysis} {found : List Declaration} {required : Required}
      {e : CompileError}
      (ha : b.Analyzes (ClauseScope.of ctx source) (fragments code) analyses)
      (hr : requireAll (ClauseScope.of ctx source).visible (allReferences analyses) .empty =
        (.ok found, required))
      (hc : b.compiler (inlineRequest ctx code source found analyses) = .error e) :
      InlineStep b ctx clause code source result
        ⟨.ok none, (ctx.takeId.2.noteRequest (inlineRequest ctx code source found analyses)).report
          .compileFailed clause.span e.message, result⟩
  /-- The code is built. -/
  | built {analyses : List Analysis} {found : List Declaration} {required : Required}
      {acc : Accumulator σ}
      (ha : b.Analyzes (ClauseScope.of ctx source) (fragments code) analyses)
      (hr : requireAll (ClauseScope.of ctx source).visible (allReferences analyses) .empty =
        (.ok found, required))
      (hc : b.compiler (inlineRequest ctx code source found analyses) = .ok acc) :
      InlineStep b ctx clause code source result
        ⟨.ok (some ⟨source, required.values, .single acc, code.reverse.isSome⟩),
          ctx.takeId.2.noteRequest (inlineRequest ctx code source found analyses), result⟩

/-- **The building of inline code ends in one of these ways.** -/
theorem inlineStep_buildInline (b : Builder σ) (ctx : Context σ) (clause : Clause)
    (code : InlineCode) (source : Source) (result : Pattern) :
    b.InlineStep ctx clause code source result
      (b.buildInline ctx clause code source result) := by
  simp only [buildInline]
  obtain ⟨analyses, ha, hall⟩ | ⟨e, ha⟩ := b.analyzeAll_ok_or_reported ctx.takeId.2 clause.span
    (ClauseScope.of ctx source) (fragments code)
  · rw [ha]
    simp only
    split
    · next hr => exact .unresolved hall hr
    · next found required hr =>
      rw [compile]
      split
      · next hc =>
        split at hc
        · cases hc
        · next he =>
          cases hc
          exact .uncompiled hall hr he
      · next hc =>
        split at hc <;> cases hc
      · next hc =>
        split at hc
        · next hacc =>
          cases hc
          exact .built hall hr hacc
        · cases hc
  · rw [ha]
    exact .unanalyzed e

/-- Inline code binds nothing. -/
theorem pattern_buildInline (b : Builder σ) (ctx : Context σ) (clause : Clause)
    (code : InlineCode) (source : Source) (result : Pattern) :
    (b.buildInline ctx clause code source result).pattern = result := by
  have hstep := b.inlineStep_buildInline ctx clause code source result
  generalize b.buildInline ctx clause code source result = built at hstep ⊢
  cases hstep <;> rfl

/-! ## Clauses -/

/-- A clause without an input that can be built, or without calls, is given up at once. -/
theorem build_of_nothing (b : Builder σ) (ctx : Context σ) {clause : Clause}
    (result : Pattern) (h : clause.hasValidInput = false ∨ clause.isEmpty = true) :
    b.build ctx clause result = ⟨.ok none, ctx, result⟩ := by
  rw [build]
  split
  · rfl
  · next input hinput =>
    obtain ⟨hsome, hvalid⟩ := Option.filter_eq_some_iff.1 hinput
    rcases h with h | h
    · rw [Clause.hasValidInput, hsome, Option.any_some, hvalid] at h
      cases h
    · rw [if_pos h]

/-- A clause of calls becomes a node if its calls can be built one after the other. -/
theorem build_of_run {ctx ctx' : Context σ} {calls : List Call} {input : Condition}
    {source : Source} {rs : List (ResolvedCall σ)} {p : Progress σ}
    (hcalls : clause.body = .calls calls) (hnonempty : clause.isEmpty = false)
    (hinput : clause.validInput? = some input)
    (hsource : b.sources ctx input.unwrap = (some source, ctx'))
    (hrs : resolveCalls ctx' 0 calls = .ok rs)
    (hrun : Outcome.run (b.buildCall clause (ClauseScope.of ctx' source) result)
      ⟨ctx', .empty, [], []⟩ rs = .success p) :
    b.build ctx clause result = ⟨.ok (some (nodeOfCalls source p)), p.context,
      p.bindings.foldl (fun r bound => r.bind bound.1 bound.2) result⟩ := by
  rw [build]
  simp only [hinput, hnonempty, hsource, hcalls, buildCalls, hrs, hrun]
  rfl

/-- **How a clause of calls becomes a node**, and what the build leaves behind then: the context and
the bindings are those of the last call. -/
theorem exists_run_of_build {ctx : Context σ} {calls : List Call}
    (hcalls : clause.body = .calls calls) {n : Node σ}
    (hn : (b.build ctx clause result).node = .ok (some n)) :
    ∃ input ctx' rs p, clause.validInput? = some input ∧
      b.sources ctx input.unwrap = (some n.source, ctx') ∧ resolveCalls ctx' 0 calls = .ok rs ∧
      Outcome.run (b.buildCall clause (ClauseScope.of ctx' n.source) result)
        ⟨ctx', .empty, [], []⟩ rs = .success p ∧
      b.build ctx clause result = ⟨.ok (some (nodeOfCalls n.source p)), p.context,
        p.bindings.foldl (fun r bound => r.bind bound.1 bound.2) result⟩ := by
  obtain ⟨input, ctx', rs, p, hinput, hsource, hrs, hrun, -, -⟩ :=
    exists_progress_of_build hcalls hn
  have hnonempty : clause.isEmpty = false := by
    rw [← Bool.not_eq_true]
    intro hempty
    rw [build_of_nothing b ctx result (.inr hempty)] at hn
    cases hn
  exact ⟨input, ctx', rs, p, hinput, hsource, hrs, hrun,
    build_of_run hcalls hnonempty hinput hsource hrs hrun⟩

/-- A clause that is given up leaves the result pattern alone. -/
theorem pattern_of_not_built {ctx : Context σ}
    (h : ∀ n, (b.build ctx clause result).node ≠ .ok (some n)) :
    (b.build ctx clause result).pattern = result := by
  revert h
  rw [build]
  split
  · exact fun _ => rfl
  · split
    · exact fun _ => rfl
    · split
      · exact fun _ => rfl
      · split
        · rw [buildCalls]
          split
          · exact fun _ => rfl
          · simp only
            split
            · exact fun _ => rfl
            · exact fun _ => rfl
            · exact fun h => absurd rfl (h _)
        · exact fun _ => pattern_buildInline _ _ _ _ _ _

end Builder
end RuleAggregate
