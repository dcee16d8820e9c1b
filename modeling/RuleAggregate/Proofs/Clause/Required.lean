import RuleAggregate.Proofs.Clause.Diagnostics
import RuleAggregate.Proofs.Clause.Names
import RuleAggregate.Proofs.Code.Mentions

/-!
# What a clause requires

Every unit of a clause goes to the compiler with the declarations and the globals that its own
fragments mention.  The node keeps the declarations of all units together: they are collected in one
map, call after call, and what an earlier call required already is not required twice.

## What is here

* `Clause.units` — the units of a clause, each with its fragments.
* `Context.declarationsOver`, `Context.globalsOver` — what names stand for in a clause.
* `Request.Carries` — a request carries what the fragments of its unit mention.
* `Builder.gathers_buildCall`, `Builder.gathers_run` — one call, and all of them.
* `Builder.required_of_lexical` — **a node requires exactly what its units mention**, and no build
  fails over a declaration.
-/

set_option autoImplicit false

namespace RuleAggregate

variable {σ : Type}

/-! ## Units and what they mention -/

/-- The fragment of a call. -/
def Call.fragments (c : Call) : List (String × FragmentKind) := [(c.argument, .expression)]

/-- The fragments of the units of a clause, in the order in which the units are compiled: every call
is one, and so is inline code. -/
def Clause.units (clause : Clause) : List (List (String × FragmentKind)) :=
  match clause.body with
  | .calls cs => cs.map Call.fragments
  | .inline code => [Builder.fragments code]

/-- What fragments mention, one after the other. -/
def Fragment.namesOf (fs : List (String × FragmentKind)) : List String := fs.flatMap names

namespace Context

/-- The declarations that names stand for in a clause over a source, each once, in the order in
which the names were mentioned first. -/
def declarationsOver (ctx : Context σ) (source : Source) (names : List String) :
    List Declaration :=
  names.eraseDups.filterMap (ctx.declarationOver? source)

/-- The type of the global that a name stands for in a clause over a source. -/
def globalOver? (ctx : Context σ) (source : Source) (name : String) : Option ValueType :=
  if (ctx.declarationOver? source name).isSome then none else ctx.package.globals.get? name

/-- The globals that names stand for in a clause over a source, with their types, each once, in the
order in which the names were mentioned first. -/
def globalsOver (ctx : Context σ) (source : Source) (names : List String) :
    List (String × ValueType) :=
  names.eraseDups.filterMap fun name => (ctx.globalOver? source name).map (name, ·)

end Context

/-- The unit of a request consists of the fragments. -/
def Request.IsFor (r : Request σ) (fs : List (String × FragmentKind)) : Prop :=
  match r.kind with
  | .call _ expression => fs = [(expression, .expression)]
  | .inline body => ∃ code ts, fs = Builder.fragments code ∧
      Fragment.tokens code.init.toList = .ok ts ∧
      body = Builder.inlineBody code (Fragment.declared .block code.init.toList ts)

/-- A request carries the declarations and the globals that the fragments of its unit mention, and
the declarations of the source. -/
structure Request.Carries (ctx : Context σ) (source : Source) (r : Request σ)
    (fs : List (String × FragmentKind)) : Prop where
  isFor : r.IsFor fs
  /-- All fragments can be split into tokens. -/
  tokens : ∀ f ∈ fs, ∃ ts, Fragment.tokens f.1.toList = .ok ts
  inner : r.inner = (ClauseScope.of ctx source).inner
  required : r.required = ctx.declarationsOver source (Fragment.namesOf fs)
  globals : r.globals.entries = ctx.globalsOver source (Fragment.namesOf fs)

section Reports

variable {ctx : Context σ} {source : Source} {r : References} {names seen : List String}
  {required : Required}

theorem contains_available (ctx : Context σ) (source : Source) (name : String) :
    (ClauseScope.of ctx source).available.declarations.contains name =
      (ctx.declarationOver? source name).isSome := by
  rw [← get?_visible]
  exact Available.contains_ofScope (ClauseScope.of ctx source).visible ctx.package.globals name

theorem isSome_declaration?_available (ctx : Context σ) (source : Source) (name : String) :
    ((ClauseScope.of ctx source).available.declaration? name).isSome =
      (ctx.declarationOver? source name).isSome := by
  rw [Available.declaration?, contains_available]
  cases ctx.declarationOver? source name <;> rfl

theorem global?_available (ctx : Context σ) (source : Source) (name : String) :
    (ClauseScope.of ctx source).available.global? name = ctx.globalOver? source name := by
  rw [Available.global?, contains_available]
  rfl

theorem References.Report.globals_eq
    (h : r.Report (ClauseScope.of ctx source).available names) :
    r.globals.entries = ctx.globalsOver source names := by
  rw [h.globals, Context.globalsOver]
  simp only [global?_available]

theorem References.Report.names_eq
    (h : r.Report (ClauseScope.of ctx source).available names) :
    r.names = names.eraseDups.filter fun name => (ctx.declarationOver? source name).isSome := by
  rw [References.names, h.declarations.keys_eq]
  simp only [isSome_declaration?_available]

/-- In a scope that stores declarations under their names, a name stands for a declaration of that
name. -/
theorem name_of_declarationOver? (hscope : ctx.scope.Keyed) {name : String} {d : Declaration}
    (h : ctx.declarationOver? source name = some d) : d.name = name := by
  have hkeyed : (ClauseScope.of ctx source).visible.Keyed := hscope.declareAll _
  rw [← get?_visible] at h
  exact hkeyed.name_eq h

theorem map_name_declarationsOver (hscope : ctx.scope.Keyed) (source : Source)
    (names : List String) : (ctx.declarationsOver source names).map Declaration.name =
      names.eraseDups.filter fun name => (ctx.declarationOver? source name).isSome := by
  rw [Context.declarationsOver, List.map_filterMap, ← List.filterMap_eq_filter]
  refine List.filterMap_congr fun name _ => ?_
  cases hd : ctx.declarationOver? source name with
  | none => simp [Option.guard, hd]
  | some d => simp [Option.guard, hd, name_of_declarationOver? hscope hd]

/-- Declarations that names stand for are required after others. -/
theorem Required.lists_declarationsOver (hscope : ctx.scope.Keyed)
    (h : required.Lists (ctx.declarationOver? source) seen) (names : List String) :
    ((ctx.declarationsOver source names).foldl insert required).Lists
      (ctx.declarationOver? source)
      (seen ++ (ctx.declarationsOver source names).map Declaration.name) := by
  refine OrderedMap.Lists.foldl (fun d hd m mentioned hm => hm.putNew ?_) h
  obtain ⟨name, -, hname⟩ := List.mem_filterMap.1 hd
  rw [name_of_declarationOver? hscope hname, hname]

/-- **What is reported is found**: the declarations behind the mentioned names, and they are
required from then on. -/
theorem References.Report.requireAll_eq (hscope : ctx.scope.Keyed)
    (h : r.Report (ClauseScope.of ctx source).available names)
    (hrequired : required.Lists (ctx.declarationOver? source) seen) :
    ∃ required', requireAll (ClauseScope.of ctx source).visible r required =
        (.ok (ctx.declarationsOver source names), required') ∧
      required'.Lists (ctx.declarationOver? source) (seen ++ names) := by
  have hvisible : ∀ name ∈ r.names,
      (ClauseScope.of ctx source).visible.contains name = true := by
    intro name hname
    rw [h.names_eq, List.mem_filter] at hname
    rw [OrderedMap.contains, get?_visible]
    exact hname.2
  have hfound : r.names.filterMap (ClauseScope.of ctx source).visible.get? =
      ctx.declarationsOver source names := by
    rw [h.names_eq, Context.declarationsOver, List.filterMap_filter]
    refine List.filterMap_congr fun name _ => ?_
    rw [get?_visible]
    cases ctx.declarationOver? source name <;> rfl
  have hlists := Required.lists_declarationsOver hscope hrequired names
  rw [map_name_declarationsOver hscope, ← h.names_eq] at hlists
  refine ⟨_, by rw [requireAll, requireNames_eq_ok required hvisible, hfound],
    hlists.append_keys h.declarations fun name hname => ?_⟩
  rw [← Option.not_isSome_iff_eq_none, ← isSome_declaration?_available, hname]
  exact Bool.false_ne_true

end Reports

/-! ## One call after the other -/

/-- What has been collected when some units have been compiled: what they require, and their
requests. -/
structure Progress.Gathers (p : Progress σ) (ctx : Context σ) (source : Source)
    (units : List (List (String × FragmentKind))) : Prop where
  required : p.required.Lists (ctx.declarationOver? source) (Fragment.namesOf units.flatten)
  requests : ∃ new, p.context.requests = ctx.requests ++ new ∧
    List.Forall₂ (Request.Carries ctx source) new units

namespace Builder

variable {b : Builder σ} {ctx : Context σ} {clause : Clause} {source : Source} {result : Pattern}
  {units : List (List (String × FragmentKind))}

theorem required_announce (clause : Clause) (result : Pattern) (p : Progress σ)
    (c : ResolvedCall σ) : (announce clause result p c).required = p.required := by
  rw [announce, Progress.warnIgnored]
  cases c.call.binding <;> (rw [Progress.bindResult]; repeat' split) <;> rfl

theorem requests_announce (clause : Clause) (result : Pattern) (p : Progress σ)
    (c : ResolvedCall σ) :
    (announce clause result p c).context.requests = p.context.requests := by
  rw [announce, Progress.warnIgnored]
  cases c.call.binding <;> (rw [Progress.bindResult]; repeat' split) <;> rfl

/-- **One call**: unless its argument cannot be analyzed, it is one more unit. -/
theorem gathers_buildCall (hanalyzer : b.analyzer = .lexical) (hscope : ctx.scope.Keyed)
    {p : Progress σ} (hp : p.Gathers ctx source units) (clause : Clause) (result : Pattern)
    (c : ResolvedCall σ) :
    let o := b.buildCall clause (ClauseScope.of ctx source) result p c
    (o.state.Gathers ctx source units ∧ o.failure ≠ none) ∨
      o.state.Gathers ctx source (units ++ [c.call.fragments]) := by
  intro o
  have hstep : b.CallStep clause (ClauseScope.of ctx source) c (announce clause result p c) o :=
    b.callStep_buildCall clause (ClauseScope.of ctx source) result p c
  have hrequired := hp.required
  rw [← required_announce clause result p c] at hrequired
  obtain ⟨new, hnew, hcarries⟩ := hp.requests
  rw [← requests_announce clause result p c] at hnew
  generalize announce clause result p c = q at hstep hrequired hnew
  generalize o = o at hstep ⊢
  -- what the analyzer reports is found, and the request carries it
  have hfound : ∀ {a : Analysis},
      b.analyzer c.call.argument .expression (ClauseScope.of ctx source).available = .ok a →
      ∃ required, requireAll (ClauseScope.of ctx source).visible a.references q.required =
          (.ok (ctx.declarationsOver source (Fragment.namesOf c.call.fragments)), required) ∧
        required.Lists (ctx.declarationOver? source)
          (Fragment.namesOf (units ++ [c.call.fragments]).flatten) ∧
        List.Forall₂ (Request.Carries ctx source)
          (new ++ [callRequest (ClauseScope.of ctx source) q c
            (ctx.declarationsOver source (Fragment.namesOf c.call.fragments)) a.references])
          (units ++ [c.call.fragments]) := by
    intro a ha
    rw [hanalyzer] at ha
    obtain ⟨hreport, ts, hts, -⟩ :=
      Analyzer.report_of_lexical (f := (c.call.argument, .expression)) ha
    have hnames : Fragment.namesOf c.call.fragments =
        Fragment.names (c.call.argument, .expression) := List.flatMap_singleton _ _
    rw [← hnames] at hreport
    obtain ⟨required, hrequire, hlists⟩ := hreport.requireAll_eq hscope hrequired
    refine ⟨required, hrequire, ?_, List.rel_append hcarries
      (.cons ⟨rfl, fun f hf => ?_, rfl, rfl, hreport.globals_eq⟩ .nil)⟩
    · simpa [Fragment.namesOf] using hlists
    · rw [List.mem_singleton.1 hf]
      exact ⟨ts, hts⟩
  cases hstep with
  | unanalyzed ha => exact .inl ⟨⟨hrequired, new, hnew, hcarries⟩, Option.some_ne_none _⟩
  | unresolved ha hr =>
    obtain ⟨_, hrequire, -⟩ := hfound ha
    rw [hrequire] at hr
    cases hr
  | uncompiled ha hr | built ha hr =>
    obtain ⟨_, hrequire, hlists, hnext⟩ := hfound ha
    rw [hrequire] at hr
    cases hr
    refine .inr ⟨hlists, _, ?_, hnext⟩
    rw [← List.append_assoc, ← hnew]
    rfl

/-- **All calls**: the units of the first of them, and of all of them unless one fails. -/
theorem gathers_run (hanalyzer : b.analyzer = .lexical) (hscope : ctx.scope.Keyed)
    (clause : Clause) (result : Pattern) (rs : List (ResolvedCall σ)) :
    ∀ {p : Progress σ} {units : List (List (String × FragmentKind))},
      p.Gathers ctx source units →
      let o := Outcome.run (b.buildCall clause (ClauseScope.of ctx source) result) p rs
      ∃ n, o.state.Gathers ctx source (units ++ (rs.take n).map fun r => r.call.fragments) ∧
        (o.failure = none → rs.length ≤ n) := by
  induction rs with
  | nil =>
    intro p units hp
    exact ⟨0, by simpa using hp, fun _ => Nat.le_refl 0⟩
  | cons r rs ih =>
    intro p units hp o
    have hstep := gathers_buildCall hanalyzer hscope hp clause result r
    simp only at hstep
    simp only [o, Outcome.run_cons]
    cases hf : (b.buildCall clause (ClauseScope.of ctx source) result p r).failure with
    | some h =>
      rw [Outcome.eq_failed_of_failure hf, Outcome.andThen_failed]
      rcases hstep with ⟨hstep, -⟩ | hstep
      · exact ⟨0, by simpa using hstep, by rintro ⟨⟩⟩
      · exact ⟨1, by simpa using hstep, by rintro ⟨⟩⟩
    | none =>
      rw [Outcome.eq_success_of_failure hf, Outcome.andThen_success]
      obtain ⟨n, hn, hlength⟩ := ih (hstep.resolve_left fun h => h.2 hf)
      refine ⟨n + 1, ?_, fun h => Nat.succ_le_succ (hlength h)⟩
      rw [List.append_assoc] at hn
      exact hn

/-! ## Inline code -/

/-- **Inline code is one unit**: the reports of its fragments are put together, and all that is in
them is found. -/
theorem requireAll_of_analyzes (hanalyzer : b.analyzer = .lexical) (hscope : ctx.scope.Keyed)
    {code : InlineCode} {analyses : List Analysis}
    (ha : b.Analyzes (ClauseScope.of ctx source) (fragments code) analyses) :
    ∃ required, requireAll (ClauseScope.of ctx source).visible (allReferences analyses) .empty =
        (.ok (ctx.declarationsOver source (Fragment.namesOf (fragments code))), required) ∧
      required.values = ctx.declarationsOver source (Fragment.namesOf (fragments code)) ∧
      (inlineRequest ctx code source
        (ctx.declarationsOver source (Fragment.namesOf (fragments code))) analyses).Carries
          ctx source (fragments code) := by
  rw [Analyzes, hanalyzer] at ha
  have hreports : List.Forall₂ (fun f (r : References) =>
      r.Report (ClauseScope.of ctx source).available (Fragment.names f)) (fragments code)
      (analyses.map Analysis.references) :=
    List.forall₂_map_right_iff.2 (ha.imp fun _ _ h => (Analyzer.report_of_lexical h).1)
  have hreport := (References.Report.empty (ClauseScope.of ctx source).available).mergeAll hreports
  rw [List.nil_append] at hreport
  obtain ⟨required, hrequire, hlists⟩ :=
    hreport.requireAll_eq hscope (OrderedMap.lists_empty _)
  have htokens : ∀ f ∈ fragments code, ∃ ts, Fragment.tokens f.1.toList = .ok ts := by
    intro f hf
    obtain ⟨i, hi⟩ := List.mem_iff_getElem?.1 hf
    obtain ⟨a, -, hfa⟩ := exists_of_forall₂ ha hi
    obtain ⟨-, ts, hts, -⟩ := Analyzer.report_of_lexical hfa
    exact ⟨ts, hts⟩
  refine ⟨required, hrequire, hlists.values_eq, ?_, htokens, rfl, rfl, hreport.globals_eq⟩
  -- the attributes are the local variables of the first fragment
  rw [fragments] at ha
  cases ha with
  | cons hinit _ =>
    obtain ⟨-, ts, hts, hlocals⟩ :=
      Analyzer.report_of_lexical (f := (code.init, .block)) hinit
    refine ⟨code, ts, rfl, hts, ?_⟩
    rw [← hlocals]
    rfl

/-! ## Clauses -/

/-- A clause is built over a source, in the context that the building of the source leaves. -/
def IsOver (b : Builder σ) (ctx : Context σ) (clause : Clause) (source : Source)
    (ctx' : Context σ) : Prop :=
  ∃ input, clause.validInput? = some input ∧ clause.isEmpty = false ∧
    b.sources ctx input.unwrap = (some source, ctx')

/-- What is built accounts for the units of a clause over a source.  If there is a node, then no
unit is missing. -/
structure AccountsFor (built : Built σ) (ctx : Context σ) (source : Source)
    (units : List (List (String × FragmentKind))) : Prop where
  requests : ∃ new, built.context.requests = ctx.requests ++ new ∧
    List.Forall₂ (Request.Carries ctx source) new (units.take new.length) ∧
    ∀ n, built.node = .ok (some n) → new.length = units.length
  node : ∀ n, built.node = .ok (some n) → n.source = source ∧
    n.required = ctx.declarationsOver source (Fragment.namesOf units.flatten)

/-- Without a node, the requests are all that has to be accounted for. -/
theorem AccountsFor.of_no_node {built : Built σ} {new : List (Request σ)}
    (hnode : ∀ n, built.node ≠ .ok (some n)) (hnew : built.context.requests = ctx.requests ++ new)
    (hcarries : List.Forall₂ (Request.Carries ctx source) new (units.take new.length)) :
    AccountsFor built ctx source units :=
  ⟨⟨new, hnew, hcarries, fun n hn => absurd hn (hnode n)⟩, fun n hn => absurd hn (hnode n)⟩

theorem accountsFor_buildCalls (hanalyzer : b.analyzer = .lexical) (hscope : ctx.scope.Keyed)
    (calls : List Call) :
    AccountsFor (b.buildCalls ctx clause calls source result) ctx source
      (calls.map Call.fragments) := by
  rw [buildCalls]
  split
  · exact .of_no_node (by simp) (List.append_nil _).symm .nil
  · next rs hrs =>
    have hcalls : rs.map (fun r => r.call.fragments) = calls.map Call.fragments := by
      rw [← List.forall₂_eq_eq_eq, List.forall₂_map_left_iff, List.forall₂_map_right_iff]
      exact (forall₂_resolveCalls hrs).flip.imp fun r c h => congrArg Call.fragments h.1
    have hstart : (⟨ctx, .empty, [], []⟩ : Progress σ).Gathers ctx source [] :=
      ⟨OrderedMap.lists_empty _, [], (List.append_nil _).symm, .nil⟩
    obtain ⟨n, ⟨hrequired, new, hnew, hcarries⟩, hlength⟩ :=
      gathers_run hanalyzer hscope clause result rs hstart
    rw [List.nil_append, List.map_take, hcalls] at hrequired hcarries
    have hnewLength : new.length = min n (calls.map Call.fragments).length := by
      rw [hcarries.length_eq, List.length_take]
    have hall : (Outcome.run (b.buildCall clause (ClauseScope.of ctx source) result)
        ⟨ctx, .empty, [], []⟩ rs).failure = none → (calls.map Call.fragments).length ≤ n := by
      rw [← hcalls, List.length_map]
      exact hlength
    rw [List.take_eq_take_min, ← hnewLength] at hcarries
    simp only
    split
    · exact .of_no_node (by simp) hnew hcarries
    · exact .of_no_node (by simp) hnew hcarries
    · next hnone =>
      refine ⟨⟨new, hnew, hcarries, fun _ _ => hnewLength.trans (Nat.min_eq_right (hall hnone))⟩,
        fun m hm => ?_⟩
      cases hm
      rw [List.take_of_length_le (hall hnone)] at hrequired
      exact ⟨rfl, hrequired.values_eq⟩

theorem accountsFor_buildInline (hanalyzer : b.analyzer = .lexical) (hscope : ctx.scope.Keyed)
    (code : InlineCode) :
    AccountsFor (b.buildInline ctx clause code source result) ctx source [fragments code] := by
  have hstep := b.inlineStep_buildInline ctx clause code source result
  generalize b.buildInline ctx clause code source result = built at hstep ⊢
  cases hstep with
  | unanalyzed e => exact .of_no_node (by simp) (List.append_nil _).symm .nil
  | unresolved ha hr => exact .of_no_node (by simp) (List.append_nil _).symm .nil
  | uncompiled ha hr hc =>
    obtain ⟨required, hrequire, -, hcarries⟩ := requireAll_of_analyzes hanalyzer hscope ha
    rw [hrequire] at hr
    cases hr
    exact .of_no_node (by simp) rfl (.cons hcarries .nil)
  | built ha hr hc =>
    obtain ⟨required, hrequire, hvalues, hcarries⟩ := requireAll_of_analyzes hanalyzer hscope ha
    rw [hrequire] at hr
    cases hr
    refine ⟨⟨_, rfl, .cons hcarries .nil, fun _ _ => rfl⟩, fun n hn => ?_⟩
    cases hn
    rw [List.flatten_singleton]
    exact ⟨rfl, hvalues⟩

theorem build_of_isOver {ctx' : Context σ} (h : b.IsOver ctx clause source ctx')
    (result : Pattern) :
    b.build ctx clause result = match clause.body with
      | .calls calls => b.buildCalls ctx' clause calls source result
      | .inline code => b.buildInline ctx' clause code source result := by
  obtain ⟨input, hinput, hnonempty, hsource⟩ := h
  rw [build]
  simp only [hinput, hnonempty, hsource]
  rfl

/-- A clause that is not given up at once is built over a source. -/
theorem exists_isOver_of_build (h : (b.build ctx clause result).node ≠ .ok none) :
    ∃ source ctx', b.IsOver ctx clause source ctx' := by
  revert h
  rw [build]
  split
  · exact fun h => absurd rfl h
  · next input hinput =>
    split
    · exact fun h => absurd rfl h
    · next hnonempty =>
      split
      · exact fun h => absurd rfl h
      · next source ctx' hsource =>
        exact fun _ => ⟨source, ctx', input, hinput, Bool.eq_false_iff.2 hnonempty, hsource⟩

theorem accountsFor_build (hanalyzer : b.analyzer = .lexical) {ctx' : Context σ}
    (hover : b.IsOver ctx clause source ctx') (hscope : ctx'.scope.Keyed) (result : Pattern) :
    AccountsFor (b.build ctx clause result) ctx' source clause.units := by
  rw [build_of_isOver hover, Clause.units]
  cases clause.body with
  | calls calls => exact accountsFor_buildCalls hanalyzer hscope calls
  | inline code => exact accountsFor_buildInline hanalyzer hscope code

/-- Every request that a clause makes is for one of its units. -/
theorem exists_unit_of_mem_requests (hanalyzer : b.analyzer = .lexical) {ctx' : Context σ}
    (hover : b.IsOver ctx clause source ctx') (hscope : ctx'.scope.Keyed) (result : Pattern) :
    ∃ new, (b.build ctx clause result).context.requests = ctx'.requests ++ new ∧
      ∀ r ∈ new, ∃ fs ∈ clause.units, r.Carries ctx' source fs := by
  obtain ⟨new, hnew, hcarries, -⟩ := (accountsFor_build hanalyzer hover hscope result).requests
  refine ⟨new, hnew, fun r hr => ?_⟩
  obtain ⟨i, hi⟩ := List.mem_iff_getElem?.1 hr
  obtain ⟨fs, hfs, hr⟩ := exists_of_forall₂ hcarries hi
  exact ⟨fs, List.mem_of_mem_take (List.mem_of_getElem? hfs), hr⟩

/-- **A node requires exactly what its units mention**: the declarations that the names stand for,
each once, in the order of their first mention.  Every unit that went to the compiler carries the
declarations and the globals of its own fragments, and no build fails over a declaration that is not
visible.  The builder of sources is any that leaves a scope in which declarations stand under their
names, as they do in every scope that is made by declaring. -/
theorem required_of_lexical (hanalyzer : b.analyzer = .lexical)
    (hscope : ∀ c, (b.sources ctx c).2.scope.Keyed) (clause : Clause) (result : Pattern) :
    (∀ e, (b.build ctx clause result).node ≠ .error e) ∧
    (∀ n, (b.build ctx clause result).node = .ok (some n) →
      ∃ ctx', b.IsOver ctx clause n.source ctx' ∧
        n.required = ctx'.declarationsOver n.source (Fragment.namesOf clause.units.flatten)) ∧
    ∀ source ctx', b.IsOver ctx clause source ctx' →
      ∃ new, (b.build ctx clause result).context.requests = ctx'.requests ++ new ∧
        List.Forall₂ (Request.Carries ctx' source) new (clause.units.take new.length) ∧
        ∀ n, (b.build ctx clause result).node = .ok (some n) →
          new.length = clause.units.length := by
  have haccounts : ∀ {source ctx'}, b.IsOver ctx clause source ctx' →
      AccountsFor (b.build ctx clause result) ctx' source clause.units := by
    intro source ctx' hover
    refine accountsFor_build hanalyzer hover ?_ result
    obtain ⟨input, -, -, hsource⟩ := hover
    have hkeyed := hscope input.unwrap
    rw [hsource] at hkeyed
    exact hkeyed
  refine ⟨fun e he => ?_, fun n hn => ?_, fun source ctx' hover => (haccounts hover).requests⟩
  · have hnode : (b.build ctx clause result).node ≠ .ok none := by simp [he]
    obtain ⟨source, ctx', hover⟩ := exists_isOver_of_build hnode
    rw [build_of_isOver hover] at he
    split at he
    · exact node_buildCalls_of_lexical hanalyzer _ e he
    · exact node_buildInline_of_lexical hanalyzer _ e he
  · have hnode : (b.build ctx clause result).node ≠ .ok none := by simp [hn]
    obtain ⟨source, ctx', hover⟩ := exists_isOver_of_build hnode
    obtain ⟨rfl, hrequired⟩ := (haccounts hover).node n hn
    exact ⟨ctx', hover, hrequired⟩

/-- The declarations of three calls, the third of which mentions nothing new. -/
theorem required_of_lexical_of_repetition :
    let clause : Clause := ⟨some (.all [objectOf "P" "p", objectOf "Q" "q"]),
      .calls [collectCall "q.x", collectCall "p.q", collectCall "q.y"], ⟨0, 0⟩⟩
    let built := overPaths.build emptyRule clause (.atOffset 2 .list false)
    (∀ c, (overPaths.sources emptyRule c).2.scope.Keyed) ∧ (∀ e, built.node ≠ .error e) ∧
      ∃ n ctx', built.node = .ok (some n) ∧ overPaths.IsOver emptyRule clause n.source ctx' ∧
        n.required = ctx'.declarationsOver n.source ["q", "p", "q"] ∧
        n.required = [⟨"q", 1, .itself (.object "Q")⟩, ⟨"p", 0, .itself (.object "P")⟩] := by
  intro clause built
  have hscope : ∀ c, (overPaths.sources emptyRule c).2.scope.Keyed := fun _ => Scope.keyed_empty
  have hnames : Fragment.namesOf clause.units.flatten = ["q", "p", "q"] := by decide +kernel
  have htest : built.node.toOption.any (·.any fun n => decide
      (n.required = [⟨"q", 1, .itself (.object "Q")⟩, ⟨"p", 0, .itself (.object "P")⟩])) =
        true := by
    decide +kernel
  obtain ⟨hne, hnode, -⟩ := required_of_lexical (b := overPaths) rfl hscope clause
    (.atOffset 2 .list false)
  obtain ⟨n, hn, hbuilt⟩ := exists_node_of_any htest
  obtain ⟨ctx', hover, hrequired⟩ := hnode n hn
  rw [hnames] at hrequired
  exact ⟨hscope, hne, n, ctx', hn, hover, hrequired, of_decide_eq_true hbuilt⟩

end Builder
end RuleAggregate
