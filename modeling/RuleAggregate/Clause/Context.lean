import RuleAggregate.Aggregate.Compiler
import RuleAggregate.Aggregate.Registry
import RuleAggregate.Report.Diagnostic
import RuleAggregate.Source.Basic

/-!
# What a rule build keeps

The clauses of a rule are built one after the other and share a context: the declarations of the
rule so far, the diagnostics, and the counters for offsets and units.

## What is here

* `Config`, `Package` — the functions and globals that rules may use.
* `Context` — what the clauses of one rule share.
* `Context.function?` — the function of a name: the configuration comes before the package.
* `SourceBuilder` — anything that builds conditions; `SourceBuilder.patterns` numbers patterns.
-/

set_option autoImplicit false

namespace RuleAggregate

variable {σ : Type}

/-- What all rules share. -/
structure Config (σ : Type) where
  functions : Registry σ
  /-- Whether arguments after the first one are reported. -/
  warnsIgnoredArguments : Bool

/-- What the rules of one package share. -/
structure Package (σ : Type) where
  name : String
  functions : Registry σ
  globals : OrderedMap String ValueType

/-- What the clauses of one rule share. -/
structure Context (σ : Type) where
  /-- The name of the rule. -/
  rule : String
  config : Config σ
  package : Package σ
  /-- The declarations of the rule so far. -/
  scope : Scope
  /-- All diagnostics so far, oldest first. -/
  diagnostics : List Diagnostic
  /-- The number of the next unit. -/
  nextId : Nat
  /-- The offset of the next pattern. -/
  nextOffset : Nat
  /-- All units that were sent to the compiler so far, oldest first. -/
  requests : List (Request σ)

namespace Context

/-- The context of a rule of which nothing has been built. -/
def start (rule : String) (config : Config σ) (package : Package σ) : Context σ :=
  ⟨rule, config, package, .empty, [], 0, 0, []⟩

/-- The function of a name: that of the configuration if there is one, else that of the
package. -/
def function? (ctx : Context σ) (name : String) : Option (AggregateFunction σ) :=
  ctx.config.functions.get? name <|> ctx.package.functions.get? name

/-- Reports a diagnostic against the rule. -/
def report (ctx : Context σ) (kind : DiagnosticKind) (span : Text.Span) (detail : String) :
    Context σ :=
  { ctx with diagnostics := ctx.diagnostics ++ [.of ctx.rule kind span (some detail)] }

/-- Takes the number of the next unit. -/
def takeId (ctx : Context σ) : Nat × Context σ :=
  (ctx.nextId, { ctx with nextId := ctx.nextId + 1 })

/-- Takes the offset of the next pattern. -/
def takeOffset (ctx : Context σ) : Nat × Context σ :=
  (ctx.nextOffset, { ctx with nextOffset := ctx.nextOffset + 1 })

/-- Makes the declarations of a pattern visible in the rule. -/
def declarePattern (ctx : Context σ) (p : Pattern) : Context σ :=
  { ctx with scope := ctx.scope.declarePattern p }

/-- Notes that a unit was sent to the compiler. -/
def noteRequest (ctx : Context σ) (r : Request σ) : Context σ :=
  { ctx with requests := ctx.requests ++ [r] }

end Context

/-- Builds a condition, or gives up. -/
abbrev SourceBuilder (σ : Type) := Context σ → Condition → Option Source × Context σ

namespace SourceBuilder

/-- Gives every pattern of the condition the next offset. -/
def patterns : SourceBuilder σ := fun ctx c =>
  let (source, next) := Source.ofCondition? ctx.nextOffset c
  (source, { ctx with nextOffset := next })

/-- The builder that does not look at the condition. -/
def always (source : Option Source) : SourceBuilder σ := fun ctx _ => (source, ctx)

end SourceBuilder
end RuleAggregate
