import RuleAggregate.Code.Analysis
import RuleAggregate.Proofs.Scope.FirstMentions

/-!
# What fragments mention

A fragment mentions an identifier unless the identifier names a member or is the name of a local
variable that was declared before.  What the analyzer reports is what these identifiers stand for,
each once, in the order of their first mention; and so are the reports of several fragments
together.

## What is here

* `Fragment.names`, `Fragment.Mentions` — the identifiers that a fragment mentions, as a list and
  as a condition on its tokens; `Fragment.mem_names_iff` says that they are the same.
* `References.Report` — what is reported if the names are mentioned in this order.
* `Analyzer.report_of_lexical` — **the analyzer reports what the fragment mentions.**
* `References.Report.mergeAll` — reports of several fragments.
-/

set_option autoImplicit false

namespace RuleAggregate

/-! ## Mentioned identifiers -/

namespace Fragment

/-- The local variables that a fragment declares.  Expressions declare none. -/
def declared (kind : FragmentKind) (code : List Char) (ts : List Token) : List Local :=
  match kind with
  | .block => locals code ts
  | .expression => []

/-- The identifiers that a fragment mentions, one after the other. -/
def names (f : String × FragmentKind) : List String :=
  match tokens f.1.toList with
  | .error _ => []
  | .ok ts => (mentions (declared f.2 f.1.toList ts) ts).map Token.name

/-- An identifier that does not name a member. -/
def Refers (ts : List Token) (t : Token) : Prop :=
  t.kind = .identifier ∧ ∃ pre post, ts = pre ++ t :: post ∧
    ∀ u, pre.getLast? = some u → u.kind ≠ .dot

/-- A fragment mentions a name, and does so before every place that is recorded for a local variable
of that name. -/
def Mentions (f : String × FragmentKind) (name : String) : Prop :=
  ∃ ts t, tokens f.1.toList = .ok ts ∧ Refers ts t ∧ t.name = name ∧
    ∀ l ∈ declared f.2 f.1.toList ts, ∀ n ∈ l.names, n.name = name → t.start < n.span.start

theorem isShadowed_eq_false_iff {ls : List Local} {t : Token} :
    isShadowed ls t = false ↔
      ∀ l ∈ ls, ∀ n ∈ l.names, n.name = t.name → t.start < n.span.start := by
  simp [isShadowed]

/-- An identifier is mentioned where it does not follow a dot and is not shadowed. -/
theorem mem_mentionsFrom_iff {ls : List Local} {t : Token} {ts : List Token} :
    ∀ {afterDot : Bool}, t ∈ mentionsFrom ls afterDot ts ↔
      t.kind = .identifier ∧ isShadowed ls t = false ∧ ∃ pre post, ts = pre ++ t :: post ∧
        (pre = [] → afterDot = false) ∧ ∀ u, pre.getLast? = some u → u.kind ≠ .dot := by
  induction ts with
  | nil => simp [mentionsFrom]
  | cons u ts ih =>
    intro afterDot
    have hstep : t ∈ mentionsFrom ls afterDot (u :: ts) ↔
        (t = u ∧ u.kind = .identifier ∧ afterDot = false ∧ isShadowed ls u = false) ∨
          t ∈ mentionsFrom ls (u.kind = .dot) ts := by
      rw [mentionsFrom]
      split
      · next h => rw [List.mem_cons]; simp [h]
      · next h => simp [h]
    rw [hstep, ih]
    constructor
    · rintro (⟨rfl, hkind, hdot, hshadow⟩ | ⟨hkind, hshadow, pre, post, rfl, hpre, hlast⟩)
      · exact ⟨hkind, hshadow, [], ts, rfl, fun _ => hdot, nofun⟩
      · refine ⟨hkind, hshadow, u :: pre, post, rfl, nofun, fun v hv => ?_⟩
        rw [List.getLast?_cons] at hv
        cases hp : pre.getLast? with
        | none =>
          rw [hp] at hv
          cases hv
          exact of_decide_eq_false (hpre (List.getLast?_eq_none_iff.1 hp))
        | some w =>
          rw [hp] at hv
          cases hv
          exact hlast _ hp
    · rintro ⟨hkind, hshadow, pre, post, hts, hpre, hlast⟩
      cases pre with
      | nil =>
        cases hts
        exact .inl ⟨rfl, hkind, hpre rfl, hshadow⟩
      | cons w pre =>
        cases hts
        refine .inr ⟨hkind, hshadow, pre, post, rfl, ?_, fun v hv => hlast v ?_⟩
        · rintro rfl
          exact decide_eq_false (hlast _ rfl)
        · rw [List.getLast?_cons, hv]
          rfl

/-- **The list of the mentioned names and the condition on the tokens agree.** -/
theorem mem_names_iff {f : String × FragmentKind} {name : String} :
    name ∈ names f ↔ Mentions f name := by
  rw [names, Mentions]
  cases tokens f.1.toList with
  | error e => simp
  | ok ts =>
    simp only [mentions, List.mem_map, mem_mentionsFrom_iff, isShadowed_eq_false_iff]
    constructor
    · rintro ⟨t, ⟨hkind, hshadow, pre, post, hts, -, hlast⟩, rfl⟩
      exact ⟨ts, t, rfl, ⟨hkind, pre, post, hts, hlast⟩, rfl, hshadow⟩
    · rintro ⟨_, t, hok, ⟨hkind, pre, post, hts, hlast⟩, rfl, hshadow⟩
      cases hok
      exact ⟨t, ⟨hkind, hshadow, pre, post, hts, fun _ => trivial, hlast⟩, rfl⟩

end Fragment

/-! ## Reports -/

namespace Available

/-- Whether a name stands for a declaration. -/
def declaration? (a : Available) (name : String) : Option Unit :=
  if a.declarations.contains name then some () else none

/-- The type of the global that a name stands for.  A declaration hides the global of its name. -/
def global? (a : Available) (name : String) : Option ValueType :=
  if a.declarations.contains name then none else a.globals.get? name

end Available

/-- What is reported if the names are mentioned in this order. -/
structure References.Report (r : References) (available : Available) (names : List String) :
    Prop where
  declarations : r.declarations.Lists available.declaration? names
  globals : r.globals.Lists available.global? names

namespace References.Report

variable {r s : References} {available : Available} {names others : List String}

theorem empty (available : Available) : References.empty.Report available [] :=
  ⟨OrderedMap.lists_empty _, OrderedMap.lists_empty _⟩

/-- One more name is mentioned. -/
theorem refer (h : r.Report available names) (name : String) :
    (available.refer r name).Report available (names ++ [name]) := by
  rw [Available.refer]
  split
  · next hd =>
    have hdeclaration : available.declaration? name = some () := if_pos hd
    refine ⟨?_, h.globals.skip (if_pos hd)⟩
    show (r.declarations.put name ()).Lists _ _
    rw [h.declarations.put_eq_putNew hdeclaration]
    exact h.declarations.putNew hdeclaration
  · next hd =>
    have hdeclaration : available.declaration? name = none := if_neg hd
    have hglobal : available.global? name = available.globals.get? name := if_neg hd
    split
    · next t ht =>
      refine ⟨h.declarations.skip hdeclaration, ?_⟩
      show (r.globals.put name t).Lists _ _
      rw [h.globals.put_eq_putNew (hglobal.trans ht)]
      exact h.globals.putNew (hglobal.trans ht)
    · next ht => exact ⟨h.declarations.skip hdeclaration, h.globals.skip (hglobal.trans ht)⟩

theorem foldl_refer (h : r.Report available names) (others : List String) :
    (others.foldl available.refer r).Report available (names ++ others) := by
  induction others generalizing r names with
  | nil => rwa [List.append_nil]
  | cons name others ih =>
    rw [List.append_cons]
    exact ih (h.refer name)

/-- A report of other names is added: it is as if they had been mentioned afterwards. -/
theorem merge (h : r.Report available names) (hs : s.Report available others) :
    (r.merge s).Report available (names ++ others) where
  declarations := by
    have hadded : (r.merge s).declarations.Lists available.declaration? (names ++ s.names) := by
      rw [← List.map_id s.names]
      refine OrderedMap.Lists.foldl (fun name hname m seen hm => ?_) h.declarations
      obtain ⟨u, hu⟩ : ∃ u, available.declaration? name = some u := by
        rw [References.names, hs.declarations.keys_eq, List.mem_filter] at hname
        exact Option.isSome_iff_exists.1 hname.2
      rw [hm.put_eq_putNew hu]
      exact hm.putNew hu
    exact hadded.append_keys hs.declarations fun _ => id
  globals := by
    have hadded : (r.merge s).globals.Lists available.global? (names ++ s.globals.keys) := by
      refine OrderedMap.Lists.foldl (fun p hp m seen hm => hm.putNew ?_) h.globals
      rw [hs.globals, List.mem_filterMap] at hp
      obtain ⟨name, -, hname⟩ := hp
      obtain ⟨t, ht, rfl⟩ := Option.map_eq_some_iff.1 hname
      exact ht
    exact hadded.append_keys hs.globals fun _ => id

/-- Reports of several things that mention names are added one after the other. -/
theorem mergeAll {γ : Type} {mentioned : γ → List String} {cs : List γ} {rs : List References}
    (h : r.Report available names)
    (hrs : List.Forall₂ (fun c s => s.Report available (mentioned c)) cs rs) :
    (rs.foldl References.merge r).Report available (names ++ cs.flatMap mentioned) := by
  induction hrs generalizing r names with
  | nil => simpa using h
  | cons hs _ ih =>
    rw [List.flatMap_cons, ← List.append_assoc]
    exact ih (h.merge hs)

end References.Report

/-- **The analyzer reports what the fragment mentions**, and the local variables that it
declares. -/
theorem Analyzer.report_of_lexical {f : String × FragmentKind} {available : Available}
    {a : Analysis} (h : lexical f.1 f.2 available = .ok a) :
    a.references.Report available (Fragment.names f) ∧
      ∃ ts, Fragment.tokens f.1.toList = .ok ts ∧
        a.locals = Fragment.declared f.2 f.1.toList ts := by
  rw [lexical] at h
  rw [Fragment.names]
  split at h
  · cases h
  · next ts hts =>
    split at h
    · cases h
    · cases h
      simp only [hts]
      exact ⟨(References.Report.empty available).foldl_refer _, ts, rfl, rfl⟩

end RuleAggregate
