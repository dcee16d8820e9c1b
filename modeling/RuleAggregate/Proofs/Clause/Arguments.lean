import RuleAggregate.Proofs.Clause.Required
import RuleAggregate.Proofs.Path.Mentions

/-!
# Arguments that are read twice

The argument of a call is split into tokens by the analyzer, and then read as a path expression by
the compiler.  Since both find the same root, the request holds all that the compiler looks up, and
it only rejects names that stand for nothing.

## What is here

* `Compiler.paths_eq_unknown_iff` — when the compiler rejects a name.
* `Request.Carries.declaration?_root`, `Request.Carries.contains_root` — what the request for a path
  holds about its root.
* `Builder.argument_readers_agree` — **the analyzer reports the root of a path, and a path is
  rejected exactly if its root stands for nothing.**
* `Builder.argument_reports_literal` — literals whose words are reported.
-/

set_option autoImplicit false

namespace RuleAggregate

variable {σ : Type}

/-! ## Names that are rejected -/

theorem Argument.rootOf_eq_unknown_iff {values : OrderedMap String Value} {r : Request σ}
    {name : String} : rootOf values r name = .error (.unknownName name) ↔
      declaration? name r.inner = none ∧ declaration? name r.required = none ∧
        r.globals.contains name = false := by
  rw [rootOf]
  cases declaration? name r.inner with
  | some d => simp
  | none =>
    cases declaration? name r.required with
    | some d => simp
    | none =>
      cases r.globals.contains name with
      | false => simp
      | true => cases values.get? name <;> simp

theorem head?_toList_append (s t : String) {c : Char} (h : s.toList.head? = some c) :
    (s ++ t).toList.head? = some c := by
  rw [String.toList_append, List.head?_append, h]
  rfl

/-- The two complaints about a name are worded differently. -/
theorem PathError.message_globalWithoutValue_ne (name : String) :
    (globalWithoutValue name).message ≠ (unknownName name).message := by
  have hglobal : (globalWithoutValue name).message.toList.head? = some 'g' :=
    head?_toList_append _ _ (head?_toList_append _ _ (by decide))
  have hunknown : (unknownName name).message.toList.head? = some 'u' :=
    head?_toList_append _ _ (head?_toList_append _ _ (by decide))
  intro h
  rw [h, hunknown] at hglobal
  exact absurd hglobal (by decide)

theorem Argument.eq_or_eq_of_rootOf {values : OrderedMap String Value} {r : Request σ}
    {name : String} {err : PathError} (h : rootOf values r name = .error err) :
    err = .globalWithoutValue name ∨ err = .unknownName name := by
  rw [rootOf] at h
  split at h
  · cases h
  · split at h
    · cases h
    · split at h
      · split at h
        · cases h
        · cases h
          exact .inl rfl
      · cases h
        exact .inr rfl

/-- A path is rejected if its root is found nowhere. -/
theorem Compiler.paths_eq_unknown_iff {values : OrderedMap String Value} {r : Request σ}
    {f : AggregateFunction σ} {e root : String} {fields : List String}
    (hkind : r.kind = .call f e) (hread : PathExpr.read e = .ok (.path root fields)) :
    paths values r = .error (.invalid r.unit (PathError.unknownName root).message) ↔
      Argument.rootOf values r root = .error (.unknownName root) := by
  rw [paths, hkind]
  simp only [Argument.resolve, hread]
  cases hroot : Argument.rootOf values r root with
  | ok found => simp [Except.map]
  | error err =>
    simp only [Except.map, Except.error.injEq, CompileError.invalid.injEq, true_and]
    refine ⟨fun hmessage => ?_, fun h => h ▸ rfl⟩
    rcases Argument.eq_or_eq_of_rootOf hroot with rfl | rfl
    · exact absurd hmessage (PathError.message_globalWithoutValue_ne root)
    · rfl

namespace Request.Carries

variable {ctx : Context σ} {source : Source} {r : Request σ} {f : AggregateFunction σ}
  {e root : String} {fields : List String} {fs : List (String × FragmentKind)}

/-- The unit of a call over a path mentions the root. -/
theorem namesOf_eq (h : r.Carries ctx source fs) (hkind : r.kind = .call f e)
    (hread : PathExpr.read e = .ok (.path root fields)) : Fragment.namesOf fs = [root] := by
  have hfor := h.isFor
  rw [Request.IsFor, hkind] at hfor
  obtain rfl : fs = [(e, .expression)] := hfor
  obtain ⟨ts, hts⟩ := h.tokens _ List.mem_cons_self
  exact (List.flatMap_singleton _ _).trans (PathExpr.names_of_read hread hts)

/-- The required declarations hold what the root of a path stands for. -/
theorem declaration?_root (hscope : ctx.scope.Keyed) (h : r.Carries ctx source fs)
    (hkind : r.kind = .call f e) (hread : PathExpr.read e = .ok (.path root fields)) :
    Argument.declaration? root r.required = ctx.declarationOver? source root := by
  rw [h.required, h.namesOf_eq hkind hread, Context.declarationsOver, Argument.declaration?,
    eraseDups_singleton, List.filterMap_cons, List.filterMap_nil]
  cases hd : ctx.declarationOver? source root with
  | none => rfl
  | some d => simp [name_of_declarationOver? hscope hd]

theorem contains_root (h : r.Carries ctx source fs) (hkind : r.kind = .call f e)
    (hread : PathExpr.read e = .ok (.path root fields)) :
    r.globals.contains root = (ctx.globalOver? source root).isSome := by
  have hlists : r.globals.Lists (ctx.globalOver? source) [root] := by
    rw [← h.namesOf_eq hkind hread]
    exact h.globals
  rw [Bool.eq_iff_iff, hlists.contains_iff]
  simp

/-- **A root is found in the request if it stands for something.** -/
theorem rootOf_eq_unknown_iff (hscope : ctx.scope.Keyed) (h : r.Carries ctx source fs)
    (hkind : r.kind = .call f e) (hread : PathExpr.read e = .ok (.path root fields))
    {values : OrderedMap String Value} :
    Argument.rootOf values r root = .error (.unknownName root) ↔
      ctx.declarationOver? source root = none ∧ ctx.package.globals.get? root = none := by
  rw [Argument.rootOf_eq_unknown_iff, h.inner, declaration?_inner,
    h.declaration?_root hscope hkind hread, h.contains_root hkind hread, Context.globalOver?]
  constructor
  · rintro ⟨-, hd, hglobal⟩
    rw [hd] at hglobal
    exact ⟨hd, by simpa using hglobal⟩
  · rintro ⟨hd, hglobal⟩
    rw [hd, hglobal]
    rw [Context.declarationOver?, Option.orElse_eq_none] at hd
    exact ⟨hd.1, rfl, rfl⟩

/-- The request for the argument of a call is a call with that argument. -/
theorem exists_call (h : r.Carries ctx source [(e, .expression)]) : ∃ f, r.kind = .call f e := by
  have hfor := h.isFor
  rw [Request.IsFor] at hfor
  split at hfor
  · next f _ hkind =>
    cases hfor
    exact ⟨f, hkind⟩
  · obtain ⟨code, ts, hfragments, -⟩ := hfor
    simp [Builder.fragments] at hfragments

end Request.Carries

/-! ## Both readers -/

namespace Builder

/-- A path is rejected as an unknown name exactly if its root is neither a visible declaration nor a
global of the package. -/
theorem compiler_eq_unknown_iff {b : Builder σ} {values : OrderedMap String Value}
    (hanalyzer : b.analyzer = .lexical) (hcompiler : b.compiler = .paths values)
    {ctx ctx' : Context σ} {clause : Clause} {source : Source}
    (hover : b.IsOver ctx clause source ctx') (hscope : ctx'.scope.Keyed) (result : Pattern) :
    ∃ new, (b.build ctx clause result).context.requests = ctx'.requests ++ new ∧
      ∀ r ∈ new, ∀ f e root fields, r.kind = .call f e →
        PathExpr.read e = .ok (.path root fields) →
        (b.compiler r = .error (.invalid r.unit (PathError.unknownName root).message) ↔
          ctx'.declarationOver? source root = none ∧
            ctx'.package.globals.get? root = none) := by
  obtain ⟨new, hnew, hcarries⟩ := exists_unit_of_mem_requests hanalyzer hover hscope result
  refine ⟨new, hnew, fun r hr f e root fields hkind hread => ?_⟩
  obtain ⟨fs, -, hr⟩ := hcarries r hr
  rw [hcompiler, Compiler.paths_eq_unknown_iff hkind hread,
    hr.rootOf_eq_unknown_iff hscope hkind hread]

/-- **The analyzer and the reader of paths agree.**  Of a path, exactly the root is reported, and of
a literal nothing but the word that it is spelled by.  So in a clause a path is rejected as an
unknown name exactly if its root is neither a visible declaration nor a global. -/
theorem argument_readers_agree :
    (∀ (e : String) (available : Available) (a : Analysis),
      Analyzer.lexical e .expression available = .ok a →
        (∀ root fields, PathExpr.read e = .ok (.path root fields) →
          a.references.IsOf available root) ∧
        (∀ v, PathExpr.read e = .ok (.literal v) →
          PathExpr.literalWord? (Text.trim e.toList) = none → a.references = .empty) ∧
        ∀ v word, PathExpr.read e = .ok (.literal v) →
          PathExpr.literalWord? (Text.trim e.toList) = some word →
            a.references.IsOf available word) ∧
    ∀ (b : Builder σ) (values : OrderedMap String Value), b.analyzer = .lexical →
      b.compiler = .paths values → ∀ (ctx ctx' : Context σ) (clause : Clause) (source : Source)
        (result : Pattern), b.IsOver ctx clause source ctx' → ctx'.scope.Keyed →
        ∃ new, (b.build ctx clause result).context.requests = ctx'.requests ++ new ∧
          ∀ r ∈ new, ∀ f e root fields, r.kind = .call f e →
            PathExpr.read e = .ok (.path root fields) →
            (b.compiler r = .error (.invalid r.unit (PathError.unknownName root).message) ↔
              ctx'.declarationOver? source root = none ∧
                ctx'.package.globals.get? root = none) := by
  refine ⟨fun e available a ha => ⟨fun root fields => PathExpr.isOf_of_path ha,
    fun v => PathExpr.references_of_literal ha, fun v word => PathExpr.isOf_of_literal ha⟩, ?_⟩
  intro b values hanalyzer hcompiler ctx ctx' clause source result hover hscope
  exact compiler_eq_unknown_iff hanalyzer hcompiler hover hscope result

/-- A path over a global, and a path whose root stands for nothing. -/
theorem argument_readers_agree_of_paths :
    let available : Available := ⟨.empty, OrderedMap.empty.put "rate" .numeric⟩
    let source : Source := .pattern (Source.buildPattern 0 ⟨"P", some "p", [], ⟨0, 0⟩⟩)
    let ctx' : Context State := { emptyRule with nextOffset := 1 }
    (∃ a, Analyzer.lexical " rate . x" .expression available = .ok a ∧
      PathExpr.read " rate . x" = .ok (.path "rate" ["x"]) ∧ a.references.IsOf available "rate") ∧
    ctx'.scope.Keyed ∧ ctx'.declarationOver? source "q" = none ∧
    ∃ r, (collecting (objectOf "P" "p") "q.x").context.requests = [r] ∧
      overPaths.compiler r = .error (.invalid r.unit (PathError.unknownName "q").message) := by
  intro available source ctx'
  obtain ⟨hanalysis, hbuild⟩ := argument_readers_agree (σ := State)
  have hread : PathExpr.read " rate . x" = .ok (.path "rate" ["x"]) := by rfl
  have hok : (Analyzer.lexical " rate . x" .expression available).isOk = true := by decide +kernel
  have hscope : ctx'.scope.Keyed := Scope.keyed_empty
  have hover : overPaths.IsOver emptyRule ⟨some (objectOf "P" "p"), .calls [collectCall "q.x"],
      ⟨0, 0⟩⟩ source ctx' := ⟨objectOf "P" "p", rfl, rfl, rfl⟩
  have hunknown : ctx'.declarationOver? source "q" = none := by decide +kernel
  have hlength : (collecting (objectOf "P" "p") "q.x").context.requests.length = 1 := by
    decide +kernel
  obtain ⟨r, hr⟩ := List.length_eq_one_iff.1 hlength
  refine ⟨?_, hscope, hunknown, r, hr, ?_⟩
  · cases ha : Analyzer.lexical " rate . x" .expression available with
    | error e =>
      rw [ha] at hok
      cases hok
    | ok a => exact ⟨a, rfl, hread, (hanalysis _ _ _ ha).1 _ _ hread⟩
  · obtain ⟨new, hnew, hunits⟩ := exists_unit_of_mem_requests (b := overPaths) rfl hover hscope
      (.atOffset 2 .list false)
    obtain rfl : new = [r] := hnew.symm.trans hr
    obtain ⟨fs, hfs, hcarries⟩ := hunits r (List.mem_singleton_self r)
    obtain rfl := List.mem_singleton.1 hfs
    obtain ⟨f, hcall⟩ := hcarries.exists_call
    obtain ⟨new, hnew, hall⟩ := hbuild overPaths .empty rfl rfl emptyRule ctx' _ source
      (.atOffset 2 .list false) hover hscope
    obtain rfl : new = [r] := hnew.symm.trans hr
    exact (hall r (List.mem_singleton_self r) f _ "q" ["x"] hcall (by rfl)).2 ⟨hunknown, rfl⟩

/-- **The analyzer takes words for names, also where they are literals**: it reports a declaration
that is called `true`, and one that is called `inf`. -/
theorem argument_reports_literal :
    let named (name : String) : Available := ⟨OrderedMap.empty.put name .any, .empty⟩
    (∃ a, Analyzer.lexical "true" .expression (named "true") = .ok a ∧
      PathExpr.read "true" = .ok (.literal (.bool true)) ∧ a.references.names = ["true"]) ∧
    ∃ a x, Analyzer.lexical "-inf" .expression (named "inf") = .ok a ∧
      PathExpr.read "-inf" = .ok (.literal (.float x)) ∧ a.references.names = ["inf"] := by
  intro named
  have hreports : ∀ (e : String) (available : Available) (names : List String),
      (Analyzer.lexical e .expression available).toOption.map (·.references.names) = some names →
      ∃ a, Analyzer.lexical e .expression available = .ok a ∧ a.references.names = names := by
    intro e available names h
    obtain ⟨a, ha, hnames⟩ := Option.map_eq_some_iff.1 h
    cases hok : Analyzer.lexical e .expression available with
    | error e =>
      rw [hok] at ha
      cases ha
    | ok a' =>
      rw [hok] at ha
      cases ha
      exact ⟨a, rfl, hnames⟩
  obtain ⟨a, ha, hnames⟩ := hreports "true" (named "true") ["true"] (by decide +kernel)
  obtain ⟨a', ha', hnames'⟩ := hreports "-inf" (named "inf") ["inf"] (by decide +kernel)
  exact ⟨⟨a, ha, by rfl, hnames⟩, a', _, ha', by rfl, hnames'⟩

end Builder
end RuleAggregate
