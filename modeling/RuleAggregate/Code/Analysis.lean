import RuleAggregate.Code.Balance
import RuleAggregate.Code.Locals
import RuleAggregate.Scope.Basic

/-!
# What a fragment mentions

Every identifier of a fragment is looked up among the visible declarations and then among the
globals.  The name of a member (`x.name`) is not looked up, and neither is a name from the place
on where the fragment itself declares a local variable of that name.

## What is here

* `Available` — the declarations and globals that a fragment may mention, with their types.
* `Fragment.mentions` — the identifiers that are looked up.
* `Analysis` — what a fragment mentions, and the local variables that it declares.
* `Analyzer` — anything that analyzes fragments; `Analyzer.lexical` reads tokens.
-/

set_option autoImplicit false

namespace RuleAggregate

/-- Fragments are blocks of statements, which may declare local variables, or expressions. -/
inductive FragmentKind where
  | block
  | expression
  deriving DecidableEq, Repr

/-! ## Available names -/

/-- The names that a fragment may mention, with their types. -/
structure Available where
  declarations : OrderedMap String ValueType
  globals : OrderedMap String ValueType

namespace Available

/-- The declarations of a scope, and the globals. -/
def ofScope (visible : Scope) (globals : OrderedMap String ValueType) : Available :=
  ⟨visible.mapValues Declaration.valueType, globals⟩

/-- Adds what a name stands for: a declaration if there is one, else a global if there is one. -/
def refer (a : Available) (r : References) (name : String) : References :=
  if a.declarations.contains name then r.addDeclaration name
  else match a.globals.get? name with
    | some t => r.addGlobal name t
    | none => r

end Available

/-! ## Mentions -/

namespace Fragment

/-- Whether a local variable of the same name is recorded at the place of the token or before
it. -/
def isShadowed (ls : List Local) (t : Token) : Bool :=
  ls.any fun l => l.names.any fun n => n.name == t.name && decide (n.span.start ≤ t.start)

/-- The identifiers that do not name members and are not shadowed.  `afterDot` says whether a dot
precedes the first token. -/
def mentionsFrom (ls : List Local) (afterDot : Bool) : List Token → List Token
  | [] => []
  | t :: ts =>
    if t.kind = .identifier ∧ afterDot = false ∧ isShadowed ls t = false then
      t :: mentionsFrom ls (t.kind = .dot) ts
    else mentionsFrom ls (t.kind = .dot) ts

/-- The identifiers that do not name members and are not shadowed. -/
def mentions (ls : List Local) (ts : List Token) : List Token := mentionsFrom ls false ts

end Fragment

/-! ## Analysis -/

/-- What a fragment mentions, and the local variables that it declares in source order. -/
structure Analysis where
  references : References
  locals : List Local

/-- Analyzes a fragment of the given kind against the available names. -/
abbrev Analyzer := String → FragmentKind → Available → Except AnalyzeError Analysis

namespace Analyzer

/-- The analyzer that splits fragments into tokens. -/
def lexical : Analyzer := fun code kind available =>
  match Fragment.tokens code.toList with
  | .error e => .error e
  | .ok ts =>
    match Fragment.checkBalance ts with
    | .error e => .error e
    | .ok () =>
      let ls := match kind with
        | .block => Fragment.locals code.toList ts
        | .expression => []
      let names := (Fragment.mentions ls ts).map Token.name
      .ok ⟨names.foldl available.refer .empty, ls⟩

/-- The analyzer that does not look at its input. -/
def always (outcome : Except AnalyzeError Analysis) : Analyzer := fun _ _ _ => outcome

/-- The analyzer that finds the given declarations mentioned in every fragment. -/
def mentioning (names : List String) : Analyzer :=
  always (.ok ⟨names.foldl References.addDeclaration .empty, []⟩)

end Analyzer
end RuleAggregate
