import RuleAggregate.Path.Compiler
import RuleAggregate.Proofs.Clause.Calls
import RuleAggregate.Proofs.Source.Numbering

/-!
# What the names in a clause stand for

The source of a clause comes before the rule around it: what it binds hides the declarations of the
rule, and any declaration hides the global of its name.  The scope of the clause, the analyzer and
the compiler of paths each have a part in this, and here they are put together.

## What is here

* `Context.declarationOver?` — what a name stands for: the last binding by the source, or else a
  declaration of the rule.
* `get?_visible`, `declaration?_inner` — the scope of a clause and the compiler look names up so.
* `rootOf_eq` — **a visible name is read as a binding by the source if it is one, and as a
  declaration of the rule otherwise.**
* `accumulator_of_compiles` — what becomes of a call over a path.
-/

set_option autoImplicit false

namespace RuleAggregate

variable {σ : Type}

/-! ## Names that are mentioned -/

/-- A declaration that is visible hides the global of its name. -/
theorem contains_globals_refer {available : Available} {name : String}
    (h : available.declarations.contains name = true) (names : List String) :
    ∀ {r : References}, r.globals.contains name = false →
      (names.foldl available.refer r).globals.contains name = false := by
  induction names with
  | nil => exact fun hr => hr
  | cons other names ih =>
    intro r hr
    refine ih ?_
    rw [Available.refer]
    split
    · exact hr
    · next hother =>
      split
      · have hne : other ≠ name := fun he => hother (he ▸ h)
        rw [References.addGlobal, OrderedMap.contains, OrderedMap.get?_put, if_neg hne]
        exact hr
      · exact hr

theorem contains_globals_of_lexical {code : String} {kind : FragmentKind} {available : Available}
    {a : Analysis} (ha : Analyzer.lexical code kind available = .ok a) {name : String}
    (h : available.declarations.contains name = true) :
    a.references.globals.contains name = false := by
  rw [Analyzer.lexical] at ha
  split at ha
  · cases ha
  · split at ha
    · cases ha
    · cases ha
      exact contains_globals_refer h _ rfl

/-- Required declarations come from the scope in which they are looked up. -/
theorem get?_of_mem_requireNames {visible : Scope} {names : List String} :
    ∀ {required required' : Required} {found : List Declaration},
      requireNames visible names required = (.ok found, required') →
        ∀ d ∈ found, ∃ name, visible.get? name = some d := by
  induction names with
  | nil =>
    intro required required' found h
    cases h
    exact nofun
  | cons name names ih =>
    intro required required' found h
    rw [requireNames] at h
    cases hget : visible.get? name with
    | none =>
      rw [hget] at h
      cases h
    | some d =>
      simp only [hget] at h
      cases hrest : requireNames visible names (required.insert d) with
      | mk outcome required'' =>
        rw [hrest] at h
        cases outcome with
        | error e => cases h
        | ok rest =>
          cases h
          rw [List.forall_mem_cons]
          exact ⟨⟨name, hget⟩, ih hrest⟩

/-! ## What names stand for -/

/-- What a name in a clause over a source stands for: the last binding by the source, or else a
declaration of the rule. -/
def Context.declarationOver? (ctx : Context σ) (source : Source) (name : String) :
    Option Declaration := source.binding? name <|> ctx.scope.get? name

theorem get?_visible (ctx : Context σ) (source : Source) (name : String) :
    (ClauseScope.of ctx source).visible.get? name = ctx.declarationOver? source name := by
  show (ctx.scope.declareAll source.outer.values).get? name = _
  rw [Scope.get?_declareAll, source.keyed_outer.lastNamed?_values, Source.get?_outer,
    Context.declarationOver?]

theorem declaration?_inner (ctx : Context σ) (source : Source) (name : String) :
    Argument.declaration? name (ClauseScope.of ctx source).inner = source.binding? name := by
  have hperm : (ClauseScope.of ctx source).inner.Perm source.outer.values :=
    sortByName_perm _
  rw [Argument.declaration?, source.keyed_outer.find?_eq_get? hperm, Source.get?_outer]

theorem declaration?_required {ctx : Context σ} (hscope : ctx.scope.Keyed) {source : Source}
    {found : List Declaration}
    (hfound : ∀ d ∈ found, ∃ k, (ClauseScope.of ctx source).visible.get? k = some d)
    {name : String} {d : Declaration} (h : Argument.declaration? name found = some d) :
    ctx.declarationOver? source name = some d := by
  obtain ⟨k, hk⟩ := hfound d (List.mem_of_find?_eq_some h)
  have hkeyed : (ClauseScope.of ctx source).visible.Keyed := hscope.declareAll _
  have hname : d.name = name := by simpa using List.find?_some h
  rw [← get?_visible, ← hname, hkeyed.name_eq hk]
  exact hk

/-- **The names of a clause are looked up as its scope says**: a binding by the source is read as
such, and any other visible name as a declaration of the rule. -/
theorem rootOf_eq {ctx : Context σ} (hscope : ctx.scope.Keyed) {source : Source}
    {values : OrderedMap String Value} {unit : String} {kind : Request.Kind σ}
    {found : List Declaration} {references : References} {name : String} {d : Declaration}
    {root : Argument.Root}
    (hfound : ∀ e ∈ found, ∃ k, (ClauseScope.of ctx source).visible.get? k = some e)
    (hglobal : references.globals.contains name = false)
    (hd : ctx.declarationOver? source name = some d)
    (h : Argument.rootOf values ((ClauseScope.of ctx source).request unit kind found references)
      name = .ok root) :
    root = if (source.binding? name).isSome then .inner d else .outer d := by
  rw [Argument.rootOf] at h
  split at h
  · next e hinner =>
    have hbinding : source.binding? name = some e := by
      rw [← declaration?_inner ctx]
      exact hinner
    rw [Context.declarationOver?, hbinding] at hd
    cases h
    cases hd
    rw [hbinding]
    rfl
  · next hinner =>
    have hbinding : source.binding? name = none := by
      rw [← declaration?_inner ctx]
      exact hinner
    rw [hbinding]
    split at h
    · next e hrequired =>
      rw [declaration?_required hscope hfound hrequired] at hd
      cases h
      cases hd
      rfl
    · next hrequired =>
      have hno : ((ClauseScope.of ctx source).request unit kind found
          references).globals.contains name = false := hglobal
      rw [hno, if_neg Bool.false_ne_true] at h
      cases h

/-! ## Arguments -/

/-- The argument of a call over a path, in a clause whose code is read by tokens. -/
theorem accumulator_of_compiles {b : Builder σ} {values : OrderedMap String Value}
    (hanalyzer : b.analyzer = .lexical) (hcompiler : b.compiler = .paths values)
    {ctx : Context σ} (hscope : ctx.scope.Keyed) {source : Source} {f : AggregateFunction σ}
    {argument root : String} {fields : List String} {d : Declaration} {acc : Accumulator σ}
    (hread : PathExpr.read argument = .ok (.path root fields))
    (hd : ctx.declarationOver? source root = some d)
    (h : b.Compiles (ClauseScope.of ctx source) f argument acc) :
    acc = .feeding f (Argument.evaluate
      ⟨if (source.binding? root).isSome then .inner d else .outer d, fields,
        source.isMultiPattern⟩) := by
  obtain ⟨a, found, required, required', unit, ha, hreq, hacc⟩ := h
  rw [hanalyzer] at ha
  rw [hcompiler] at hacc
  have hvisible : (ClauseScope.of ctx source).available.declarations.contains root = true := by
    show ((ClauseScope.of ctx source).visible.mapValues Declaration.valueType).contains root = true
    rw [OrderedMap.contains_iff, OrderedMap.keys_mapValues, ← OrderedMap.contains_iff,
      OrderedMap.contains, get?_visible, hd]
    rfl
  have hglobal := contains_globals_of_lexical ha hvisible
  simp only [Compiler.paths, ClauseScope.request, Argument.resolve, hread] at hacc
  cases hroot : Argument.rootOf values ((ClauseScope.of ctx source).request unit
      (.call f argument) found a.references) root with
  | error e =>
    simp only [ClauseScope.request] at hroot
    rw [hroot] at hacc
    cases hacc
  | ok r =>
    have hr := rootOf_eq hscope (get?_of_mem_requireNames hreq) hglobal hd hroot
    simp only [ClauseScope.request] at hroot
    rw [hroot] at hacc
    cases hacc
    rw [hr]
    rfl

end RuleAggregate
