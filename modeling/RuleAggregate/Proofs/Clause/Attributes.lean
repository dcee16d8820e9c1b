import RuleAggregate.Proofs.Clause.Required

/-!
# Attributes and rule variables of the same name

The local variables of init code become attributes, which the other fragments share.  But every
fragment is analyzed on its own: a declaration in init code hides a rule variable or a global of its
name from there on in init code, and nowhere else.  Where action, reverse or result code uses an
attribute, a rule variable of the same name is required as well.

## What is here

* `InlineCode.Mentions` — one of the fragments mentions a name.
* `Request.Carries.mem_required_iff`, `Request.Carries.mem_globals_iff` — which names a request
  carries.
* `Builder.attribute_required_iff` — **when a rule variable or a global is required that has the
  name of an attribute.**
* `Builder.attribute_requires_variable` — init code never mentions it, and still it is required.
-/

set_option autoImplicit false

namespace RuleAggregate

variable {σ : Type}

/-- The names of the local variables that a block declares. -/
def Fragment.localNames (code : String) : List String :=
  match tokens code.toList with
  | .error _ => []
  | .ok ts => (locals code.toList ts).flatMap fun l => l.names.map LocalName.name

/-- One of the fragments mentions a name, before it declares a local variable of that name. -/
def InlineCode.Mentions (code : InlineCode) (name : String) : Prop :=
  Fragment.Mentions (code.init, .block) name ∨ Fragment.Mentions (code.action, .block) name ∨
    (∃ reverse, code.reverse = some reverse ∧ Fragment.Mentions (reverse, .block) name) ∨
    Fragment.Mentions (code.result, .expression) name

theorem InlineCode.mentions_iff {code : InlineCode} {name : String} :
    code.Mentions name ↔ name ∈ Fragment.namesOf (Builder.fragments code) := by
  simp only [Fragment.namesOf, List.mem_flatMap, Fragment.mem_names_iff, Builder.fragments,
    List.cons_append, List.exists_mem_cons_iff, List.mem_append, List.mem_singleton, or_and_right,
    exists_or, exists_eq_left, Mentions]
  cases code.reverse <;> simp

theorem Builder.fragments_injective : Function.Injective Builder.fragments := by
  rintro ⟨init, action, reverse, result⟩ ⟨init', action', reverse', result'⟩ h
  cases reverse <;> cases reverse' <;> simp_all [fragments]

namespace Request.Carries

variable {ctx : Context σ} {source : Source} {r : Request σ} {fs : List (String × FragmentKind)}

/-- A request carries the declarations that its fragments mention. -/
theorem mem_required_iff (hscope : ctx.scope.Keyed) (h : r.Carries ctx source fs)
    {name : String} : name ∈ r.required.map Declaration.name ↔
      (ctx.declarationOver? source name).isSome = true ∧ name ∈ Fragment.namesOf fs := by
  rw [h.required, map_name_declarationsOver hscope, List.mem_filter, List.mem_eraseDups, and_comm]

/-- A request carries the globals that its fragments mention. -/
theorem mem_globals_iff (h : r.Carries ctx source fs) {name : String} :
    name ∈ r.globals.keys ↔
      (ctx.globalOver? source name).isSome = true ∧ name ∈ Fragment.namesOf fs := by
  have hlists : r.globals.Lists (ctx.globalOver? source) (Fragment.namesOf fs) := h.globals
  rw [hlists.keys_eq, List.mem_filter, List.mem_eraseDups, and_comm]

/-- The request for inline code carries what the local variables of init code become. -/
theorem kind_eq {code : InlineCode} (h : r.Carries ctx source (Builder.fragments code)) :
    ∃ ts, Fragment.tokens code.init.toList = .ok ts ∧
      r.kind = .inline (Builder.inlineBody code (Fragment.locals code.init.toList ts)) := by
  have hfor := h.isFor
  rw [Request.IsFor] at hfor
  split at hfor
  · simp [Builder.fragments] at hfor
  · next body hkind =>
    obtain ⟨other, ts, hfragments, hts, rfl⟩ := hfor
    obtain rfl := Builder.fragments_injective hfragments
    exact ⟨ts, hts, hkind⟩

end Request.Carries

namespace Builder

variable {b : Builder σ} {ctx ctx' : Context σ} {clause : Clause} {source : Source}

/-- **When a rule variable or a global is required that has the name of an attribute**: it has to be
visible, and init code mentions the name before declaring it, or another fragment mentions it. -/
theorem attribute_required_iff (hanalyzer : b.analyzer = .lexical) {code : InlineCode}
    (hcode : clause.body = .inline code) (hover : b.IsOver ctx clause source ctx')
    (hscope : ctx'.scope.Keyed) (result : Pattern) :
    ∃ new, (b.build ctx clause result).context.requests = ctx'.requests ++ new ∧
      ∀ r ∈ new, (∃ ts, Fragment.tokens code.init.toList = .ok ts ∧
          r.kind = .inline (inlineBody code (Fragment.locals code.init.toList ts))) ∧
        ∀ name ∈ Fragment.localNames code.init,
          (name ∈ r.required.map Declaration.name ↔
            (ctx'.declarationOver? source name).isSome = true ∧ code.Mentions name) ∧
          (name ∈ r.globals.keys ↔
            (ctx'.globalOver? source name).isSome = true ∧ code.Mentions name) := by
  obtain ⟨new, hnew, hcarries⟩ := exists_unit_of_mem_requests hanalyzer hover hscope result
  rw [Clause.units, hcode] at hcarries
  refine ⟨new, hnew, fun r hr => ?_⟩
  obtain ⟨fs, hfs, hr⟩ := hcarries r hr
  obtain rfl := List.mem_singleton.1 hfs
  refine ⟨hr.kind_eq, fun name _ => ?_⟩
  rw [InlineCode.mentions_iff]
  exact ⟨hr.mem_required_iff hscope, hr.mem_globals_iff⟩

/-- The builder whose clauses are read by tokens and whose units gather facts. -/
def gatheringFacts : Builder State := ⟨.patterns, .lexical, .gathering⟩

/-- A rule that has a variable `total`. -/
def ruleWithTotal : Context State :=
  { emptyRule with scope := .declare .empty ⟨"total", 0, .itself .any⟩ }

/-- The clause of inline code over the objects of a type. -/
def inlineOver (code : InlineCode) : Clause := ⟨some (objectOf "P" "p"), .inline code, ⟨0, 0⟩⟩

/-- What is built of inline code in the rule that has a variable `total`. -/
def totalling (code : InlineCode) : Built State :=
  gatheringFacts.build ruleWithTotal (inlineOver code) (.atOffset 1 .list false)

/-- Init code that mentions the variable and then declares an attribute of its name. -/
theorem attribute_required_of_earlier_mention :
    let code : InlineCode := ⟨"start = total; int total = 0;", "n += 1;", none, "n"⟩
    let source : Source := .pattern (Source.buildPattern 0 ⟨"P", some "p", [], ⟨0, 0⟩⟩)
    let ctx' : Context State := { ruleWithTotal with nextOffset := 1 }
    gatheringFacts.IsOver ruleWithTotal (inlineOver code) source ctx' ∧ ctx'.scope.Keyed ∧
      "total" ∈ Fragment.localNames code.init ∧ code.Mentions "total" ∧
      ∃ r, (totalling code).context.requests = [r] ∧
        "total" ∈ r.required.map Declaration.name := by
  intro code source ctx'
  have hover : gatheringFacts.IsOver ruleWithTotal (inlineOver code) source ctx' :=
    ⟨objectOf "P" "p", rfl, rfl, rfl⟩
  have hscope : ctx'.scope.Keyed := Scope.keyed_empty.declare _
  have hlocal : "total" ∈ Fragment.localNames code.init := by decide +kernel
  have hmentions : code.Mentions "total" := by
    refine .inl (Fragment.mem_names_iff.1 ?_)
    decide +kernel
  have hvisible : (ctx'.declarationOver? source "total").isSome = true := by decide +kernel
  have hlength : (totalling code).context.requests.length = 1 := by decide +kernel
  obtain ⟨r, hr⟩ := List.length_eq_one_iff.1 hlength
  obtain ⟨new, hnew, hall⟩ := attribute_required_iff (b := gatheringFacts) rfl rfl hover hscope
    (.atOffset 1 .list false)
  obtain rfl : new = [r] := hnew.symm.trans hr
  obtain ⟨-, hnames⟩ := hall r (List.mem_singleton_self r)
  obtain ⟨hrequired, -⟩ := hnames "total" hlocal
  exact ⟨hover, hscope, hlocal, hmentions, r, hr, hrequired.2 ⟨hvisible, hmentions⟩⟩

/-- **An attribute makes the variable of its name required**: init code declares it without
mentioning the variable, and only the other fragments use the name. -/
theorem attribute_requires_variable :
    let code : InlineCode := ⟨"int total = 0;", "total += 1;", none, "total"⟩
    "total" ∈ Fragment.localNames code.init ∧
      ¬ Fragment.Mentions (code.init, .block) "total" ∧
      ∃ n r, (totalling code).node = .ok (some n) ∧ (totalling code).context.requests = [r] ∧
        r.required = [⟨"total", 0, .itself .any⟩] ∧
        n.required = [⟨"total", 0, .itself .any⟩] := by
  intro code
  have hlocal : "total" ∈ Fragment.localNames code.init := by decide +kernel
  have hmentions : ¬ Fragment.Mentions (code.init, .block) "total" := by
    rw [← Fragment.mem_names_iff]
    decide +kernel
  have htest : (totalling code).node.toOption.any (·.any fun n => decide
      (n.required = [⟨"total", 0, .itself .any⟩])) = true := by
    decide +kernel
  have hrequests : (totalling code).context.requests.map Request.required =
      [[⟨"total", 0, .itself .any⟩]] := by
    decide +kernel
  obtain ⟨r, hr, hrequired⟩ := List.map_eq_singleton_iff.1 hrequests
  obtain ⟨n, hn, hnames⟩ := exists_node_of_any htest
  exact ⟨hlocal, hmentions, n, r, hn, hr, hrequired, of_decide_eq_true hnames⟩

end Builder
end RuleAggregate
