import RuleAggregate.Scope.Basic
import RuleAggregate.Source.Condition

/-!
# Sources

A source is a built condition.  Every pattern in it has an offset into the tuples and knows what
is bound on it.

## What is here

* `Source` — patterns, and groups of sources.
* `Source.patterns`, `Source.firstOffset?` — the patterns, depth first, and their least offset.
* `Source.outer` — the declarations that code after the source may use.
* `Source.ofCondition?` — builds a condition, one offset for every pattern.
-/

set_option autoImplicit false

namespace RuleAggregate

/-- How the sources of a group are combined. -/
inductive GroupKind where
  | all
  | any
  | absent
  | present
  deriving DecidableEq, Repr

namespace GroupKind

/-- Whether names bound inside the group can be used outside it. -/
def isOpen : GroupKind → Bool
  | all | any => true
  | absent | present => false

end GroupKind

/-- A built condition. -/
inductive Source where
  | pattern (p : Pattern)
  | group (kind : GroupKind) (children : List Source)

namespace Source

/-! ## Views -/

mutual

/-- All patterns, depth first. -/
def patterns : Source → List Pattern
  | pattern p => [p]
  | group _ children => patternsOf children

/-- All patterns of the sources, one after the other. -/
def patternsOf : List Source → List Pattern
  | [] => []
  | s :: ss => patterns s ++ patternsOf ss

end

mutual

/-- The patterns whose names can be used outside the source: those that are not inside a group of
absence or presence. -/
def openPatterns : Source → List Pattern
  | pattern p => [p]
  | group kind children => if kind.isOpen then openPatternsOf children else []

/-- The patterns of the sources whose names can be used outside. -/
def openPatternsOf : List Source → List Pattern
  | [] => []
  | s :: ss => openPatterns s ++ openPatternsOf ss

end

/-- The declarations that can be used outside the source, by name.  The last pattern that binds a
name counts, but the name keeps the place of the first. -/
def outer (s : Source) : Scope := s.openPatterns.foldl Scope.declarePattern .empty

/-- Whether one match of the source consists of several objects. -/
def isMultiPattern : Source → Bool
  | pattern p => p.nested
  | group _ children => decide (1 < children.length)

/-- The least offset of a pattern. -/
def firstOffset? (s : Source) : Option Nat := (s.patterns.map Pattern.offset).min?

/-- The pattern, if the source is a single one. -/
def pattern? : Source → Option Pattern
  | pattern p => some p
  | group _ _ => none

/-! ## Building -/

/-- The pattern that is written, at an offset: first the object is bound, then its fields. -/
def buildPattern (offset : Nat) (p : WrittenPattern) : Pattern :=
  let t := ValueType.ofTypeName p.typeName
  let built := Pattern.atOffset offset t false
  let built := match p.name with
    | some name => built.bind name (.itself t)
    | none => built
  p.fields.foldl
    (fun built f => built.bind f.name (.field f.field (.ofTypeName f.typeName))) built

/-- A group of sources, if there are any. -/
def groupOf? (kind : GroupKind) : Option (List Source) → Option Source
  | some (s :: ss) => some (group kind (s :: ss))
  | _ => none

mutual

/-- Builds a condition whose first pattern gets the offset `next`, and answers the next free
offset as well.  Offsets that were given to patterns before the first condition that cannot be
built stay taken. -/
def ofCondition? (next : Nat) : Condition → Option Source × Nat
  | .pattern p =>
    if p.namesType then (some (pattern (buildPattern next p)), next + 1) else (none, next)
  | .all cs => let (ss, next) := ofConditions? next cs; (groupOf? .all ss, next)
  | .any cs => let (ss, next) := ofConditions? next cs; (groupOf? .any ss, next)
  | .absent c =>
    let (s, next) := ofCondition? next c; (s.map fun s => group .absent [s], next)
  | .present c =>
    let (s, next) := ofCondition? next c; (s.map fun s => group .present [s], next)

/-- Builds conditions one after the other, up to the first one that cannot be built. -/
def ofConditions? (next : Nat) : List Condition → Option (List Source) × Nat
  | [] => (some [], next)
  | c :: cs =>
    match ofCondition? next c with
    | (none, next) => (none, next)
    | (some s, next) =>
      let (ss, next) := ofConditions? next cs
      (ss.map (s :: ·), next)

end

end Source
end RuleAggregate
