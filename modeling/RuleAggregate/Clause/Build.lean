import RuleAggregate.Clause.Basic
import RuleAggregate.Clause.Context
import RuleAggregate.Code.Analysis
import RuleAggregate.Node.Basic

/-!
# Building clauses

A clause becomes a node: its input becomes a source, every fragment of code is analyzed against
the names that it can see and compiled, and the results are bound on the pattern that consumes
them.  A clause either becomes a node or is given up; what is wrong with it has been reported then.

## What is here

* `Builder σ` — how sources are built, and fragments analyzed and compiled.
* `ClauseScope` — the names that the fragments of a clause can see.
* `Builder.buildCalls`, `Builder.buildInline` — the two kinds of clause.
* `Builder.build` — builds a clause in the context of its rule.
-/

set_option autoImplicit false

namespace RuleAggregate

variable {σ : Type}

/-- A mention of a declaration that is not visible: the analyzer and the scope disagree. -/
inductive BuildError where
  | unresolvedDeclaration (name : String)
  deriving DecidableEq, Repr

/-- The wording of the error. -/
def BuildError.message : BuildError → String
  | unresolvedDeclaration name =>
    "declaration `" ++ name ++ "` is referenced but not in scope"

/-- Why the building of a clause ended before there was a node. -/
inductive Halt where
  /-- A diagnostic says why. -/
  | reported
  | broken (e : BuildError)
  deriving DecidableEq, Repr

/-- How clauses are built. -/
structure Builder (σ : Type) where
  sources : SourceBuilder σ
  analyzer : Analyzer
  compiler : Compiler σ

/-- What the building of a clause leaves behind. -/
structure Built (σ : Type) where
  /-- The node, or nothing if the clause was given up. -/
  node : Except BuildError (Option (Node σ))
  context : Context σ
  /-- The pattern that consumes the result, with the results bound on it. -/
  pattern : Pattern

/-! ## Scope -/

/-- The names that the fragments of a clause can see. -/
structure ClauseScope where
  /-- The declarations of the rule, and over them those of the source. -/
  visible : Scope
  available : Available
  /-- The declarations of the source, by name in alphabetical order. -/
  inner : List Declaration
  /-- Whether declarations of the source are read from the tuple instead of the fact. -/
  fromTuple : Bool

namespace ClauseScope

/-- The names that the fragments of a clause over a source can see. -/
def of (ctx : Context σ) (source : Source) : ClauseScope :=
  let outer := source.outer.values
  let visible := ctx.scope.declareAll outer
  { visible
    available := .ofScope visible ctx.package.globals
    inner := sortByName outer
    fromTuple := source.isMultiPattern }

/-- The name of a unit: what kind of unit it is, and its number. -/
def unitName (kind : String) (id : Nat) : String := kind ++ String.ofList (Decimal.digits id)

/-- The request for a unit, given what it mentions. -/
def request (scope : ClauseScope) (unit : String) (kind : Request.Kind σ)
    (required : List Declaration) (references : References) : Request σ :=
  ⟨unit, kind, required, references.globals, scope.inner, scope.fromTuple⟩

end ClauseScope

namespace Builder

/-! ## Fragments and units -/

/-- Analyzes a fragment, and reports it if that fails. -/
def analyze (b : Builder σ) (ctx : Context σ) (span : Text.Span) (code : String)
    (kind : FragmentKind) (scope : ClauseScope) : Except Halt Analysis × Context σ :=
  match b.analyzer code kind scope.available with
  | .ok a => (.ok a, ctx)
  | .error e => (.error .reported, ctx.report .analysisFailed span e.message)

/-- Analyzes fragments one after the other, up to the first that fails. -/
def analyzeAll (b : Builder σ) (ctx : Context σ) (span : Text.Span) (scope : ClauseScope) :
    List (String × FragmentKind) → Except Halt (List Analysis) × Context σ
  | [] => (.ok [], ctx)
  | (code, kind) :: rest =>
    match b.analyze ctx span code kind scope with
    | (.error h, ctx) => (.error h, ctx)
    | (.ok a, ctx) =>
      let (as, ctx) := b.analyzeAll ctx span scope rest
      (as.map (a :: ·), ctx)

/-- Compiles a unit, and reports it if that fails. -/
def compile (b : Builder σ) (ctx : Context σ) (span : Text.Span) (request : Request σ) :
    Except Halt (Accumulator σ) × Context σ :=
  let ctx := ctx.noteRequest request
  match b.compiler request with
  | .ok a => (.ok a, ctx)
  | .error e => (.error .reported, ctx.report .compileFailed span e.message)

end Builder

/-! ## Function calls -/

/-- How far the calls of a clause have been built. -/
structure Progress (σ : Type) where
  context : Context σ
  required : Required
  /-- The names to bind on the result pattern, and how their values are read from the result. -/
  bindings : List (String × Accessor)
  accumulators : List (Accumulator σ)

/-- A call with its place in the clause and the function that it calls. -/
structure ResolvedCall (σ : Type) where
  index : Nat
  call : Call
  function : AggregateFunction σ

/-- How the result of a call is read from the result of the node: it is a slot of the list if
there are several calls. -/
def resultAccessor (isMulti : Bool) (index : Nat) (t : ValueType) : Accessor :=
  if isMulti then .element (.itself .list) index t else .itself t

namespace Progress

/-- Whether a name is bound on the result pattern, visible in the rule, or bound by an earlier call
of the clause. -/
def isTaken (p : Progress σ) (result : Pattern) (name : String) : Bool :=
  (result.declaration? name).isSome || p.context.scope.contains name
    || p.bindings.any fun b => b.1 == name

/-- Reports a diagnostic. -/
def report (p : Progress σ) (kind : DiagnosticKind) (span : Text.Span) (detail : String) :
    Progress σ :=
  { p with context := p.context.report kind span detail }

/-- Binds the result of a call to the name it asks for.  A taken name is reported, and the result
stays unbound. -/
def bindResult (p : Progress σ) (result : Pattern) (span : Text.Span) (accessor : Accessor) :
    Option String → Progress σ
  | none => p
  | some name =>
    if p.isTaken result name then p.report .duplicateDeclaration span name
    else { p with bindings := p.bindings ++ [(name, accessor)] }

/-- Reports arguments after the first one, unless the configuration is silent about them. -/
def warnIgnored (p : Progress σ) (span : Text.Span) (call : Call) : Progress σ :=
  if 1 < call.arguments.length ∧ p.context.config.warnsIgnoredArguments = true then
    p.report .ignoredArguments span call.function
  else p

end Progress

/-- Looks the functions of calls up; the first call without a function is the error. -/
def resolveCalls (ctx : Context σ) (index : Nat) :
    List Call → Except Call (List (ResolvedCall σ))
  | [] => .ok []
  | c :: cs =>
    match ctx.function? c.function with
    | none => .error c
    | some f => (resolveCalls ctx (index + 1) cs).map (⟨index, c, f⟩ :: ·)

namespace Builder

/-- Builds one call: binds its result, analyzes its argument and compiles it. -/
def buildCall (b : Builder σ) (clause : Clause) (scope : ClauseScope) (result : Pattern)
    (p : Progress σ) (c : ResolvedCall σ) : Outcome (Progress σ) Halt :=
  let span := clause.callSpan c.call
  let accessor := resultAccessor clause.isMulti c.index c.function.resultType
  let p := (p.bindResult result span accessor c.call.binding).warnIgnored span c.call
  match b.analyze p.context span c.call.argument .expression scope with
  | (.error h, context) => .failed { p with context } h
  | (.ok a, context) =>
    match requireAll scope.visible a.references p.required with
    | (.error name, required) =>
      .failed { p with context, required } (.broken (.unresolvedDeclaration name))
    | (.ok found, required) =>
      let (id, context) := context.takeId
      let request := scope.request (ClauseScope.unitName "accumulateExpression" id)
        (.call c.function c.call.argument) found a.references
      match b.compile context span request with
      | (.error h, context) => .failed { p with context, required } h
      | (.ok acc, context) =>
        .success { p with context, required, accumulators := p.accumulators ++ [acc] }

/-- The node of the accumulators of all calls. -/
def nodeOfCalls (source : Source) (p : Progress σ) : Node σ where
  source := source
  required := p.required.values
  shape := match p.accumulators with
    | [a] => .single a
    | as => .several as
  incremental := p.accumulators.all (·.supportsReverse)

/-- Builds a clause of calls.  Unless all its functions exist, nothing of it is built. -/
def buildCalls (b : Builder σ) (ctx : Context σ) (clause : Clause) (calls : List Call)
    (source : Source) (result : Pattern) : Built σ :=
  match resolveCalls ctx 0 calls with
  | .error call =>
    ⟨.ok none, ctx.report .unknownFunction (clause.callSpan call) call.function, result⟩
  | .ok resolved =>
    let scope := ClauseScope.of ctx source
    let o := Outcome.run (b.buildCall clause scope result) ⟨ctx, .empty, [], []⟩ resolved
    match o.failure with
    | some .reported => ⟨.ok none, o.state.context, result⟩
    | some (.broken e) => ⟨.error e, o.state.context, result⟩
    | none =>
      ⟨.ok (some (nodeOfCalls source o.state)), o.state.context,
        o.state.bindings.foldl (fun r bound => r.bind bound.1 bound.2) result⟩

/-! ## Inline code -/

/-- The fragments of inline code in the order in which they are analyzed. -/
def fragments (code : InlineCode) : List (String × FragmentKind) :=
  (code.init, .block) :: (code.action, .block)
    :: (code.reverse.toList.map fun reverse => (reverse, .block)) ++ [(code.result, .expression)]

/-- Inline code whose init code declares the given local variables, with these as attributes. -/
def inlineBody (code : InlineCode) (locals : List Local) : InlineBody :=
  let hoisted := (Fragment.hoist? code.init locals).getD ⟨code.init, []⟩
  ⟨hoisted.code, hoisted.attributes, code.action, code.reverse, code.result⟩

/-- Builds a clause of inline code, which becomes a single unit. -/
def buildInline (b : Builder σ) (ctx : Context σ) (clause : Clause) (code : InlineCode)
    (source : Source) (result : Pattern) : Built σ :=
  let scope := ClauseScope.of ctx source
  let (id, ctx) := ctx.takeId
  match b.analyzeAll ctx clause.span scope (fragments code) with
  | (.error .reported, ctx) => ⟨.ok none, ctx, result⟩
  | (.error (.broken e), ctx) => ⟨.error e, ctx, result⟩
  | (.ok analyses, ctx) =>
    let references := (analyses.map Analysis.references).foldl References.merge .empty
    match requireAll scope.visible references .empty with
    | (.error name, _) => ⟨.error (.unresolvedDeclaration name), ctx, result⟩
    | (.ok found, required) =>
      let locals := (analyses.head?.map Analysis.locals).getD []
      let kind := .inline (inlineBody code locals)
      let request :=
        scope.request (ClauseScope.unitName "Accumulate" id) kind found references
      match b.compile ctx clause.span request with
      | (.error .reported, ctx) => ⟨.ok none, ctx, result⟩
      | (.error (.broken e), ctx) => ⟨.error e, ctx, result⟩
      | (.ok acc, ctx) =>
        ⟨.ok (some ⟨source, required.values, .single acc, code.reverse.isSome⟩), ctx, result⟩

/-! ## Clauses -/

/-- Builds a clause in the context of its rule; `result` is the pattern that consumes the result of
the node.  A clause without an input that can be built, or without calls, is given up silently. -/
def build (b : Builder σ) (ctx : Context σ) (clause : Clause) (result : Pattern) : Built σ :=
  match clause.validInput? with
  | none => ⟨.ok none, ctx, result⟩
  | some input =>
    if clause.isEmpty then ⟨.ok none, ctx, result⟩
    else
      match b.sources ctx input.unwrap with
      | (none, ctx) => ⟨.ok none, ctx, result⟩
      | (some source, ctx) =>
        match clause.body with
        | .calls calls => b.buildCalls ctx clause calls source result
        | .inline code => b.buildInline ctx clause code source result

end Builder
end RuleAggregate
