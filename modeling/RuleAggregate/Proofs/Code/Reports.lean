import RuleAggregate.Proofs.Code.Maximal
import RuleAggregate.Proofs.Code.Mentions

/-!
# What the analyzer reports

The analyzer goes through the tokens of a fragment once and collects names in maps that keep the
order of insertion.  What it collects can be told without the loop: a name is reported if some token
mentions it and it is available, and of two names the one that is mentioned first is reported first.

## What is here

* `Fragment.IsMention`, `Fragment.mem_mentions_iff` — the tokens that mention their names.
* `Fragment.MentionedBefore` — a name is mentioned before another one is.
* `References.Report.mem_names_iff`, `References.Report.mem_globals_iff` — the names in a report.
* `References.Report.pairwise` — and their order.
* `Analyzer.report_mentions` — the report of a fragment in terms of its tokens.
* `Analyzer.reports_exactly` — **the report, told without the loop.**
-/

set_option autoImplicit false

namespace RuleAggregate

namespace Fragment

variable {ls : List Local} {ts : List Token} {t : Token}

/-- The token is an identifier that mentions what its name stands for: it does not name a member,
and it stands before every place that is recorded for a local variable of its name. -/
def IsMention (ls : List Local) (ts : List Token) (t : Token) : Prop :=
  Refers ts t ∧ ∀ l ∈ ls, ∀ n ∈ l.names, n.name = t.name → t.start < n.span.start

theorem mem_mentions_iff : t ∈ mentions ls ts ↔ IsMention ls ts t := by
  rw [mentions, mem_mentionsFrom_iff, isShadowed_eq_false_iff, IsMention, Refers]
  constructor
  · rintro ⟨hkind, hshadow, pre, post, hts, -, hlast⟩
    exact ⟨⟨hkind, pre, post, hts, hlast⟩, hshadow⟩
  · rintro ⟨⟨hkind, pre, post, hts, hlast⟩, hshadow⟩
    exact ⟨hkind, hshadow, pre, post, hts, fun _ => rfl, hlast⟩

theorem mentionsFrom_sublist (ls : List Local) (ts : List Token) :
    ∀ afterDot, (mentionsFrom ls afterDot ts).Sublist ts := by
  induction ts with
  | nil => exact fun _ => .slnil
  | cons t ts ih =>
    intro afterDot
    rw [mentionsFrom]
    split
    · exact (ih _).cons_cons t
    · exact (ih _).cons t

/-- The first name is mentioned, and before all mentions of the second one. -/
def MentionedBefore (ls : List Local) (ts : List Token) (first second : String) : Prop :=
  ∃ t, IsMention ls ts t ∧ t.name = first ∧
    ∀ u, IsMention ls ts u → u.name = second → t.start < u.start

theorem mem_map_mentions_iff {name : String} :
    name ∈ (mentions ls ts).map Token.name ↔ ∃ t, IsMention ls ts t ∧ t.name = name := by
  simp only [List.mem_map, mem_mentions_iff]

/-- First mentions stand in the order of the tokens. -/
theorem pairwise_mentions (hts : ts.Pairwise fun t u => t.start < u.start) :
    ((mentions ls ts).map Token.name).eraseDups.Pairwise (MentionedBefore ls ts) := by
  have hmentions := hts.sublist (mentionsFrom_sublist ls ts false)
  refine (pairwise_eraseDups_map (f := Token.name) hmentions).imp fun {a b} h => ?_
  obtain ⟨t, ht, hname, hall⟩ := h
  exact ⟨t, mem_mentions_iff.1 ht, hname, fun u hu => hall u (mem_mentions_iff.2 hu)⟩

end Fragment

/-! ## Reports -/

namespace References.Report

variable {r : References} {available : Available} {names : List String}

theorem mem_names_iff (h : r.Report available names) {name : String} :
    name ∈ r.names ↔ available.declarations.contains name = true ∧ name ∈ names := by
  have hsome : (available.declaration? name).isSome = available.declarations.contains name := by
    rw [Available.declaration?]
    cases available.declarations.contains name <;> rfl
  rw [References.names, h.declarations.keys_eq, List.mem_filter, List.mem_eraseDups, hsome,
    and_comm]

theorem mem_globals_iff (h : r.Report available names) {name : String} {type : ValueType} :
    (name, type) ∈ r.globals.entries ↔ available.declarations.contains name = false ∧
      available.globals.get? name = some type ∧ name ∈ names := by
  have hglobal : available.global? name = some type ↔
      available.declarations.contains name = false ∧ available.globals.get? name = some type := by
    rw [Available.global?]
    cases available.declarations.contains name <;> simp
  rw [h.globals, List.mem_filterMap, ← and_assoc, ← hglobal]
  constructor
  · rintro ⟨k, hk, hpair⟩
    obtain ⟨u, hu, heq⟩ := Option.map_eq_some_iff.1 hpair
    cases heq
    exact ⟨hu, List.mem_eraseDups.1 hk⟩
  · rintro ⟨hu, hk⟩
    exact ⟨name, List.mem_eraseDups.2 hk, by rw [hu]; rfl⟩

/-- Only what is mentioned is reported. -/
theorem mem_of_mem_keys (h : r.Report available names) {name : String}
    (hname : name ∈ r.names ∨ name ∈ r.globals.keys) : name ∈ names := by
  rw [References.names, h.declarations.keys_eq, h.globals.keys_eq] at hname
  rcases hname with hname | hname
  all_goals exact List.mem_eraseDups.1 (List.mem_of_mem_filter hname)

/-- What is reported stands in the order of the first mentions. -/
theorem pairwise (h : r.Report available names) {R : String → String → Prop}
    (hnames : names.eraseDups.Pairwise R) :
    r.names.Pairwise R ∧ r.globals.keys.Pairwise R := by
  rw [References.names, h.declarations.keys_eq, h.globals.keys_eq]
  exact ⟨hnames.filter _, hnames.filter _⟩

end References.Report

/-! ## Analysis -/

namespace Analyzer

/-- What is reported is what the tokens mention. -/
theorem report_mentions {code : String} {kind : FragmentKind} {available : Available}
    {a : Analysis} (h : lexical code kind available = .ok a) :
    ∃ ts, Fragment.tokens code.toList = .ok ts ∧
      a.locals = Fragment.declared kind code.toList ts ∧
      a.references.Report available ((Fragment.mentions a.locals ts).map Token.name) := by
  obtain ⟨hreport, ts, hts, hlocals⟩ := report_of_lexical (f := (code, kind)) h
  refine ⟨ts, hts, hlocals, ?_⟩
  rw [hlocals]
  simpa only [Fragment.names, hts] using hreport

/-- An outcome that passes a test is an analysis. -/
theorem exists_of_any {outcome : Except AnalyzeError Analysis} {p : Analysis → Prop}
    [DecidablePred p] (h : outcome.toOption.any (fun a => decide (p a)) = true) :
    ∃ a, outcome = .ok a ∧ p a := by
  rcases outcome with e | a
  · cases h
  · exact ⟨a, rfl, of_decide_eq_true h⟩

/-- **The report of the analyzer, told without its loop.**  It names the available declarations that
some token mentions, and with their types the available globals that are no declarations and that
some token mentions; each of them once, in the order of their first mentions.  Only blocks declare
local variables. -/
theorem reports_exactly {code : String} {kind : FragmentKind} {available : Available}
    {a : Analysis} (h : lexical code kind available = .ok a) :
    ∃ ts, Fragment.tokens code.toList = .ok ts ∧
      (∀ name, name ∈ a.references.names ↔ available.declarations.contains name = true ∧
        ∃ t, Fragment.IsMention a.locals ts t ∧ t.name = name) ∧
      (∀ name type, (name, type) ∈ a.references.globals.entries ↔
        available.declarations.contains name = false ∧
          available.globals.get? name = some type ∧
          ∃ t, Fragment.IsMention a.locals ts t ∧ t.name = name) ∧
      (a.references.names.Nodup ∧
        a.references.names.Pairwise (Fragment.MentionedBefore a.locals ts)) ∧
      (a.references.globals.keys.Nodup ∧
        a.references.globals.keys.Pairwise (Fragment.MentionedBefore a.locals ts)) ∧
      (kind = .block → a.locals = Fragment.locals code.toList ts) ∧
      (kind = .expression → a.locals = []) := by
  obtain ⟨ts, hts, hlocals, hreport⟩ := report_mentions h
  have horder := hreport.pairwise (Fragment.pairwise_mentions (Fragment.pairwise_tokensFrom hts))
  refine ⟨ts, hts, fun name => ?_, fun name type => ?_,
    ⟨a.references.declarations.nodup, horder.1⟩, ⟨a.references.globals.nodup, horder.2⟩,
    ?_, ?_⟩
  · rw [hreport.mem_names_iff, Fragment.mem_map_mentions_iff]
  · rw [hreport.mem_globals_iff, Fragment.mem_map_mentions_iff]
  · rintro rfl
    exact hlocals
  · rintro rfl
    exact hlocals

/-- A member, a name that is a declaration and a global, and local variables: `k` is available and
mentioned, but only behind the local variable of its name, so the block does not report it.  The
same text as an expression declares no variables and reports it. -/
theorem reports_exactly_of_shadowing :
    let code := "o.c + rate + c.o; int c = o, k = c; k + rate"
    let available : Available := ⟨.ofList [("c", .any), ("k", .any), ("o", .any)],
      .ofList [("o", .text), ("rate", .numeric)]⟩
    (∃ a ts, lexical code .block available = .ok a ∧ Fragment.tokens code.toList = .ok ts ∧
      a.references.names = ["o", "c"] ∧ a.references.globals.entries = [("rate", .numeric)] ∧
      Fragment.MentionedBefore a.locals ts "o" "c" ∧
      (∃ t, Fragment.IsMention a.locals ts t ∧ t.name = "rate") ∧
      ¬ ∃ t, Fragment.IsMention a.locals ts t ∧ t.name = "k") ∧
    ∃ b ts, lexical code .expression available = .ok b ∧ Fragment.tokens code.toList = .ok ts ∧
      b.references.names = ["o", "c", "k"] ∧
      ∃ t, Fragment.IsMention b.locals ts t ∧ t.name = "k" := by
  intro code available
  constructor
  · obtain ⟨a, ha, hnames, hglobals⟩ : ∃ a, lexical code .block available = .ok a ∧
        a.references.names = ["o", "c"] ∧ a.references.globals.entries = [("rate", .numeric)] :=
      exists_of_any (by decide +kernel)
    obtain ⟨ts, hts, hdeclared, hall, ⟨-, horder⟩, -⟩ := reports_exactly ha
    rw [hnames] at horder
    refine ⟨a, ts, ha, hts, hnames, hglobals, ?_, ((hall "rate" .numeric).1 ?_).2.2, fun hk => ?_⟩
    · exact (List.pairwise_cons.1 horder).1 "c" (List.mem_singleton_self _)
    · rw [hglobals]
      exact List.mem_singleton_self _
    · have hreported := (hdeclared "k").2 ⟨by decide, hk⟩
      rw [hnames] at hreported
      exact absurd hreported (by decide)
  · obtain ⟨b, hb, hnames⟩ : ∃ b, lexical code .expression available = .ok b ∧
        b.references.names = ["o", "c", "k"] := exists_of_any (by decide +kernel)
    obtain ⟨ts, hts, hdeclared, -⟩ := reports_exactly hb
    refine ⟨b, ts, hb, hts, hnames, ((hdeclared "k").1 ?_).2⟩
    rw [hnames]
    decide

end Analyzer
end RuleAggregate
