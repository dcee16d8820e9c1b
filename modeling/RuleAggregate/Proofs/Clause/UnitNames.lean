import RuleAggregate.Proofs.Clause.Attributes

/-!
# Units of a rule have different names

Every unit that is sent to the compiler is named after its kind and the next number of its rule, and
a number is taken only once.  So it does not matter how many clauses a rule has, which of them are
given up half-way, or what else takes numbers in between: no two units of the rule get the same
name, as the two kinds of name and the decimal numbers after them tell each other apart.

## What is here

* `ClauseScope.unitName_eq_iff` — a name tells the kind of the unit and its number.
* `Context.Uses`, `Context.Session` — what can be done with a context: it is used in ways that
  neither give numbers back nor send units, and clauses are built in it.
* `Context.Issues` — a context grows by requests for units that are numbered from where it stood.
* `Builder.issues_buildCall`, `Builder.issues_buildInline`, `Builder.issues_build` — a call, inline
  code and a clause, however their building ends.
* `Context.Session.units_distinct` — **no two units of a rule have the same name.**
-/

set_option autoImplicit false

namespace RuleAggregate

variable {σ : Type}

/-! ## Names of units -/

theorem Decimal.digits_injective : Function.Injective Decimal.digits :=
  Function.LeftInverse.injective Decimal.value_digits

/-- What the name of a unit starts with. -/
def Request.Kind.word : Request.Kind σ → String
  | .call _ _ => "accumulateExpression"
  | .inline _ => "Accumulate"

/-- The first letter tells the two words apart. -/
theorem Request.Kind.word_eq_of_head? {k l : Request.Kind σ}
    (h : k.word.toList.head? = l.word.toList.head?) : k.word = l.word := by
  cases k <;> cases l <;> simp [word] at h ⊢

theorem ClauseScope.head?_unitName (k : Request.Kind σ) (n : Nat) :
    (unitName k.word n).toList.head? = k.word.toList.head? := by
  cases k <;> simp [unitName, Request.Kind.word]

/-- **A name tells the kind of a unit and its number.** -/
theorem ClauseScope.unitName_eq_iff {k l : Request.Kind σ} {m n : Nat} :
    unitName k.word m = unitName l.word n ↔ k.word = l.word ∧ m = n := by
  constructor
  · intro h
    have hword : k.word = l.word := by
      refine Request.Kind.word_eq_of_head? ?_
      rw [← head?_unitName k m, h, head?_unitName]
    rw [unitName, unitName, hword, String.append_right_inj] at h
    exact ⟨hword, Decimal.digits_injective (String.ofList_injective h)⟩
  · rintro ⟨hword, rfl⟩
    rw [hword]

/-- The unit of the request has a number. -/
def Request.HasNumber (r : Request σ) (n : Nat) : Prop :=
  r.unit = ClauseScope.unitName r.kind.word n

theorem Request.HasNumber.eq_of_unit_eq {r s : Request σ} {m n : Nat} (hr : r.HasNumber m)
    (hs : s.HasNumber n) (h : r.unit = s.unit) : m = n := by
  rw [hr, hs] at h
  exact (ClauseScope.unitName_eq_iff.1 h).2

/-! ## What is done with a context -/

namespace Context

/-- The context is used without building a clause in it.  The counter is private to the context: no
operation sets it back, and the one that reads it, `takeId`, advances it.  Units are sent to the
compiler by builds only.  So whatever a holder of the context does with it, however often and in
whatever order, it is used in this way: the operations one by one are below, and `Uses.trans` puts
them together. -/
structure Uses (ctx ctx' : Context σ) : Prop where
  nextId : ctx.nextId ≤ ctx'.nextId
  requests : ctx'.requests = ctx.requests

theorem uses_refl (ctx : Context σ) : ctx.Uses ctx := ⟨Nat.le_refl _, rfl⟩

theorem Uses.trans {ctx ctx' ctx'' : Context σ} (h : ctx.Uses ctx') (h' : ctx'.Uses ctx'') :
    ctx.Uses ctx'' :=
  ⟨h.nextId.trans h'.nextId, h'.requests.trans h.requests⟩

theorem uses_takeId (ctx : Context σ) : ctx.Uses ctx.takeId.2 := ⟨Nat.le_succ _, rfl⟩

theorem uses_takeOffset (ctx : Context σ) : ctx.Uses ctx.takeOffset.2 := ⟨Nat.le_refl _, rfl⟩

theorem uses_report (ctx : Context σ) (kind : DiagnosticKind) (span : Text.Span)
    (detail : String) : ctx.Uses (ctx.report kind span detail) :=
  ⟨Nat.le_refl _, rfl⟩

theorem uses_declarePattern (ctx : Context σ) (p : Pattern) : ctx.Uses (ctx.declarePattern p) :=
  ⟨Nat.le_refl _, rfl⟩

/-- The builder of patterns takes offsets. -/
theorem uses_patterns (ctx : Context σ) (input : Condition) :
    ctx.Uses (SourceBuilder.patterns ctx input).2 :=
  ⟨Nat.le_refl _, rfl⟩

/-- A rule is built: clauses are built in its context one after the other, each by a builder of its
own, and in between the context is used in other ways.  A builder of sources is handed the context
and may call its operations as it likes, which is all that it can do, as the counter is private;
`hsources` says no more than that.  Analyzers and compilers do not see the context. -/
inductive Session (ctx : Context σ) : Context σ → Prop
  | start : Session ctx ctx
  | use {ctx' ctx'' : Context σ} (h : Session ctx ctx') (huses : ctx'.Uses ctx'') :
      Session ctx ctx''
  | build {ctx' : Context σ} (h : Session ctx ctx') (b : Builder σ)
      (hsources : ∀ input, ctx'.Uses (b.sources ctx' input).2) (clause : Clause)
      (result : Pattern) : Session ctx (b.build ctx' clause result).context

/-! ## Requests that are numbered -/

/-- The context grows by requests.  Their units are numbered from the number on that was the next
one, and no two of them have the same name. -/
structure Issues (ctx ctx' : Context σ) (new : List (Request σ)) : Prop where
  nextId : ctx.nextId ≤ ctx'.nextId
  requests : ctx'.requests = ctx.requests ++ new
  numbered : ∀ r ∈ new, ∃ n, r.HasNumber n ∧ ctx.nextId ≤ n ∧ n < ctx'.nextId
  distinct : (new.map Request.unit).Nodup

variable {ctx ctx' ctx'' : Context σ} {new new' : List (Request σ)}

theorem Uses.issues (h : ctx.Uses ctx') : ctx.Issues ctx' [] where
  nextId := h.nextId
  requests := h.requests.trans (List.append_nil _).symm
  numbered := nofun
  distinct := .nil

/-- A unit takes the next number and is sent to the compiler. -/
theorem issues_request {r : Request σ} (hr : r.HasNumber ctx.nextId) :
    ctx.Issues (ctx.takeId.2.noteRequest r) [r] where
  nextId := Nat.le_succ _
  requests := rfl
  numbered := by
    intro s hs
    rw [List.mem_singleton.1 hs]
    exact ⟨ctx.nextId, hr, Nat.le_refl _, Nat.lt_succ_self _⟩
  distinct := List.nodup_singleton _

/-- **Growing twice**: what comes later has later numbers, and so it has other names. -/
theorem Issues.trans (h : ctx.Issues ctx' new) (h' : ctx'.Issues ctx'' new') :
    ctx.Issues ctx'' (new ++ new') where
  nextId := h.nextId.trans h'.nextId
  requests := by rw [h'.requests, h.requests, List.append_assoc]
  numbered := by
    intro r hr
    rcases List.mem_append.1 hr with hr | hr
    · obtain ⟨n, hn, hle, hlt⟩ := h.numbered r hr
      exact ⟨n, hn, hle, Nat.lt_of_lt_of_le hlt h'.nextId⟩
    · obtain ⟨n, hn, hle, hlt⟩ := h'.numbered r hr
      exact ⟨n, hn, h.nextId.trans hle, hlt⟩
  distinct := by
    rw [List.map_append]
    refine h.distinct.append h'.distinct fun unit hunit hunit' => ?_
    obtain ⟨r, hr, rfl⟩ := List.mem_map.1 hunit
    obtain ⟨s, hs, hsame⟩ := List.mem_map.1 hunit'
    obtain ⟨m, hm, -, hlt⟩ := h.numbered r hr
    obtain ⟨n, hn, hle, -⟩ := h'.numbered s hs
    obtain rfl := hn.eq_of_unit_eq hm hsame
    exact Nat.lt_irrefl _ (Nat.lt_of_lt_of_le hlt hle)

theorem Issues.use (h : ctx.Issues ctx' new) (huses : ctx'.Uses ctx'') : ctx.Issues ctx'' new := by
  have hboth := h.trans huses.issues
  rwa [List.append_nil] at hboth

theorem Uses.thenIssues (huses : ctx.Uses ctx') (h : ctx'.Issues ctx'' new) :
    ctx.Issues ctx'' new :=
  huses.issues.trans h

end Context

/-! ## Calls and inline code -/

theorem Progress.uses_bindResult (p : Progress σ) (result : Pattern) (span : Text.Span)
    (accessor : Accessor) (asked : Option String) :
    p.context.Uses (p.bindResult result span accessor asked).context := by
  rcases asked with - | name
  · exact p.context.uses_refl
  · rw [bindResult]
    split
    · exact p.context.uses_report _ _ _
    · exact p.context.uses_refl

theorem Progress.uses_warnIgnored (p : Progress σ) (span : Text.Span) (call : Call) :
    p.context.Uses (p.warnIgnored span call).context := by
  rw [warnIgnored]
  split
  · exact p.context.uses_report _ _ _
  · exact p.context.uses_refl

namespace Builder

variable {b : Builder σ} {clause : Clause} {source : Source} {result : Pattern}

theorem uses_announce (clause : Clause) (result : Pattern) (p : Progress σ) (c : ResolvedCall σ) :
    p.context.Uses (announce clause result p c).context :=
  (p.uses_bindResult result _ _ _).trans (Progress.uses_warnIgnored _ _ _)

/-- **One call**: however its building ends, its unit gets a number before it is sent. -/
theorem issues_buildCall (b : Builder σ) (clause : Clause) (scope : ClauseScope)
    (result : Pattern) (p : Progress σ) (c : ResolvedCall σ) :
    ∃ new, p.context.Issues (b.buildCall clause scope result p c).state.context new := by
  have hannounce := uses_announce clause result p c
  have hstep := b.callStep_buildCall clause scope result p c
  generalize announce clause result p c = q at hannounce hstep
  generalize b.buildCall clause scope result p c = o at hstep ⊢
  have hrequest : ∀ found references,
      q.context.Issues (q.context.takeId.2.noteRequest (callRequest scope q c found references))
        [callRequest scope q c found references] :=
    fun found references => Context.issues_request rfl
  cases hstep with
  | unanalyzed ha => exact ⟨[], (hannounce.trans (q.context.uses_report _ _ _)).issues⟩
  | unresolved ha hr => exact ⟨[], hannounce.issues⟩
  | uncompiled ha hr hc =>
    exact ⟨_, hannounce.thenIssues ((hrequest _ _).use (Context.uses_report _ _ _ _))⟩
  | built ha hr hc => exact ⟨_, hannounce.thenIssues (hrequest _ _)⟩

/-- **All calls**, up to the first whose building fails. -/
theorem issues_run (b : Builder σ) (clause : Clause) (scope : ClauseScope) (result : Pattern)
    (rs : List (ResolvedCall σ)) (p : Progress σ) :
    ∃ new, p.context.Issues
      (Outcome.run (b.buildCall clause scope result) p rs).state.context new := by
  suffices hconfined : (Outcome.run (b.buildCall clause scope result) p rs).Confined
      (fun q => ∃ new, p.context.Issues q.context new) (fun _ => True) from hconfined.state
  refine Outcome.confined_run (fun q hq r _ => ?_) ⟨[], p.context.uses_refl.issues⟩
  obtain ⟨new, hnew⟩ := hq
  obtain ⟨more, hmore⟩ := b.issues_buildCall clause scope result q r
  exact ⟨⟨new ++ more, hnew.trans hmore⟩, fun _ _ => trivial⟩

theorem issues_buildCalls (b : Builder σ) (ctx : Context σ) (clause : Clause) (calls : List Call)
    (source : Source) (result : Pattern) :
    ∃ new, ctx.Issues (b.buildCalls ctx clause calls source result).context new := by
  rw [buildCalls]
  split
  · exact ⟨[], (ctx.uses_report _ _ _).issues⟩
  · next rs _ =>
    obtain ⟨new, hnew⟩ := b.issues_run clause (ClauseScope.of ctx source) result rs
      ⟨ctx, .empty, [], []⟩
    refine ⟨new, ?_⟩
    simp only
    split <;> exact hnew

/-- **Inline code** takes its number first, and sends its unit under this number if it comes so
far. -/
theorem issues_buildInline (b : Builder σ) (ctx : Context σ) (clause : Clause) (code : InlineCode)
    (source : Source) (result : Pattern) :
    ∃ new, ctx.Issues (b.buildInline ctx clause code source result).context new := by
  have hstep := b.inlineStep_buildInline ctx clause code source result
  generalize b.buildInline ctx clause code source result = built at hstep ⊢
  have hrequest : ∀ found analyses,
      ctx.Issues (ctx.takeId.2.noteRequest (inlineRequest ctx code source found analyses))
        [inlineRequest ctx code source found analyses] :=
    fun found analyses => Context.issues_request rfl
  cases hstep with
  | unanalyzed e => exact ⟨[], (ctx.uses_takeId.trans (Context.uses_report _ _ _ _)).issues⟩
  | unresolved ha hr => exact ⟨[], ctx.uses_takeId.issues⟩
  | uncompiled ha hr hc => exact ⟨_, (hrequest _ _).use (Context.uses_report _ _ _ _)⟩
  | built ha hr hc => exact ⟨_, hrequest _ _⟩

/-! ## Clauses -/

/-- **A clause**, given up at once or built over a source. -/
theorem issues_build {ctx : Context σ} (hsources : ∀ input, ctx.Uses (b.sources ctx input).2)
    (clause : Clause) (result : Pattern) :
    ∃ new, ctx.Issues (b.build ctx clause result).context new := by
  rw [build]
  split
  · exact ⟨[], ctx.uses_refl.issues⟩
  · next input _ =>
    split
    · exact ⟨[], ctx.uses_refl.issues⟩
    · have huses := hsources input.unwrap
      generalize b.sources ctx input.unwrap = found at huses ⊢
      obtain ⟨- | source, ctx'⟩ := found
      · exact ⟨[], huses.issues⟩
      · rcases hbody : clause.body with calls | code
        · obtain ⟨new, hnew⟩ := b.issues_buildCalls ctx' clause calls source result
          exact ⟨new, huses.thenIssues hnew⟩
        · obtain ⟨new, hnew⟩ := b.issues_buildInline ctx' clause code source result
          exact ⟨new, huses.thenIssues hnew⟩

end Builder

/-! ## Rules -/

namespace Context.Session

theorem exists_issues {ctx ctx' : Context σ} (h : ctx.Session ctx') :
    ∃ new, ctx.Issues ctx' new := by
  induction h with
  | start => exact ⟨[], ctx.uses_refl.issues⟩
  | use _ huses ih =>
    obtain ⟨new, hnew⟩ := ih
    exact ⟨new, hnew.use huses⟩
  | build _ b hsources clause result ih =>
    obtain ⟨new, hnew⟩ := ih
    obtain ⟨more, hmore⟩ := Builder.issues_build hsources clause result
    exact ⟨new ++ more, hnew.trans hmore⟩

/-- **No two units of a rule have the same name**, whatever clauses are built, by which builders and
with which outcome.  Every name is that of the kind of the unit with a number that was not taken
before. -/
theorem units_distinct {ctx ctx' : Context σ} (h : ctx.Session ctx') :
    ∃ new, ctx'.requests = ctx.requests ++ new ∧ (new.map Request.unit).Nodup ∧
      ∀ r ∈ new, ∃ n, r.unit = ClauseScope.unitName r.kind.word n ∧
        ctx.nextId ≤ n ∧ n < ctx'.nextId := by
  obtain ⟨new, hnew⟩ := h.exists_issues
  exact ⟨new, hnew.requests, hnew.distinct, hnew.numbered⟩

/-- Two calls of which the second one is refused by the compiler, inline code that cannot be read,
and inline code that is built in the end. -/
theorem units_distinct_of_aborted :
    let refusing : Builder State :=
      ⟨.patterns, .lexical, Compiler.gathering.refusing "accumulateExpression1" "no"⟩
    let input := Builder.objectOf "P" "p"
    let calls : Clause :=
      ⟨some input, .calls [Builder.collectCall "p.x", Builder.collectCall "p.y"], ⟨0, 0⟩⟩
    let build (ctx : Context State) (clause : Clause) : Context State :=
      (refusing.build ctx.takeOffset.2 clause (.atOffset ctx.takeOffset.1 .any true)).context
    let last := build (build (build Builder.emptyRule calls)
      (Builder.inlineOver ⟨"(", "", none, "0"⟩)) (Builder.inlineOver ⟨"", "", none, "0"⟩)
    Builder.emptyRule.Session last ∧ last.requests.map Request.unit =
        ["accumulateExpression0", "accumulateExpression1", "Accumulate3"] ∧
      (last.requests.map Request.unit).Nodup := by
  intro refusing input calls build last
  have hbuild : ∀ {ctx} clause, Builder.emptyRule.Session ctx →
      Builder.emptyRule.Session (build ctx clause) := by
    intro ctx clause h
    exact (h.use ctx.uses_takeOffset).build refusing (Context.uses_patterns _) clause _
  have hsession : Builder.emptyRule.Session last := hbuild _ (hbuild _ (hbuild _ .start))
  have hunits : last.requests.map Request.unit =
      ["accumulateExpression0", "accumulateExpression1", "Accumulate3"] := by
    decide +kernel
  obtain ⟨new, hnew, hdistinct, -⟩ := units_distinct hsession
  obtain rfl : last.requests = new := hnew
  exact ⟨hsession, hunits, hdistinct⟩

end Context.Session
end RuleAggregate
