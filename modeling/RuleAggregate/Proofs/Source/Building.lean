import Mathlib.Data.List.Basic
import RuleAggregate.Clause.Context
import RuleAggregate.Proofs.Source.Numbering

/-!
# What is built of a condition

A valid condition becomes a source of the same shape.  Each of its patterns is built as it is
written, at the next offset, and the names that the source makes visible are those of the patterns
that are not inside a group of absence or presence.

Five recursions have to agree on this: the one that builds, the validity check, and the three that
read patterns, open patterns and the shape off the result.  `Source.follows_ofCondition?` runs
through all of them at once; everything else is read off it.

## What is here

* `Outline` — the shape of a condition or a source, its patterns left out.
* `Condition.placed`, `Condition.placedOpen` — the written patterns with the offsets they get.
* `WrittenPattern.bindings`, `WrittenPattern.accessor?` — what a written pattern binds, and how.
* `Source.follows_ofCondition?` — **a built source follows its condition**, pattern by pattern.
* `SourceBuilder.build_follows_condition` — **exactly the valid conditions are built, and their
  patterns are numbered without a gap.**
-/

set_option autoImplicit false

namespace RuleAggregate

variable {σ : Type}

/-! ## Shapes -/

/-- The shape of a condition or a source: how its groups are nested. -/
inductive Outline where
  | pattern
  | group (kind : GroupKind) (children : List Outline)

namespace Condition

mutual

/-- How the groups of a condition are nested. -/
def outline : Condition → Outline
  | pattern _ => .pattern
  | all cs => .group .all (outlines cs)
  | any cs => .group .any (outlines cs)
  | absent c => .group .absent [outline c]
  | present c => .group .present [outline c]

def outlines : List Condition → List Outline
  | [] => []
  | c :: cs => outline c :: outlines cs

end

end Condition

namespace Source

mutual

/-- How the groups of a source are nested. -/
def outline : Source → Outline
  | pattern _ => .pattern
  | group kind ss => .group kind (outlines ss)

def outlines : List Source → List Outline
  | [] => []
  | s :: ss => outline s :: outlines ss

end

end Source

/-! ## Patterns with their offsets -/

namespace Condition

mutual

/-- The patterns of a condition, depth first, with their offsets if the first one gets `next`. -/
def placed (next : Nat) : Condition → List (Nat × WrittenPattern)
  | pattern p => [(next, p)]
  | all cs => placedAll next cs
  | any cs => placedAll next cs
  | absent c => placed next c
  | present c => placed next c

def placedAll (next : Nat) : List Condition → List (Nat × WrittenPattern)
  | [] => []
  | c :: cs => placed next c ++ placedAll (next + c.patternCount) cs

end

mutual

/-- The patterns that are not inside a group of absence or presence, with their offsets. -/
def placedOpen (next : Nat) : Condition → List (Nat × WrittenPattern)
  | pattern p => [(next, p)]
  | all cs => placedOpenAll next cs
  | any cs => placedOpenAll next cs
  | absent _ => []
  | present _ => []

def placedOpenAll (next : Nat) : List Condition → List (Nat × WrittenPattern)
  | [] => []
  | c :: cs => placedOpen next c ++ placedOpenAll (next + c.patternCount) cs

end

mutual

theorem offsets_placed : ∀ (c : Condition) (next : Nat),
    (c.placed next).map Prod.fst = List.range' next c.patternCount
  | pattern _, _ => rfl
  | all cs, next | any cs, next => offsets_placedAll cs next
  | absent c, next | present c, next => offsets_placed c next

theorem offsets_placedAll : ∀ (cs : List Condition) (next : Nat),
    (placedAll next cs).map Prod.fst = List.range' next (patternCounts cs)
  | [], _ => rfl
  | c :: cs, next => by
    rw [placedAll, List.map_append, offsets_placed c, offsets_placedAll cs, patternCounts,
      List.range'_append_1]

end

end Condition

/-! ## Names of a pattern -/

namespace WrittenPattern

/-- What a pattern binds, in the order in which it is written: the object, and then its fields. -/
def bindings (p : WrittenPattern) : List (String × Accessor) :=
  p.name.toList.map (fun name => (name, .itself (.ofTypeName p.typeName))) ++
    p.fields.map fun f => (f.name, .field f.field (.ofTypeName f.typeName))

/-- How a pattern binds a name.  The last binding counts. -/
def accessor? (p : WrittenPattern) (name : String) : Option Accessor :=
  (p.bindings.filter fun bound => bound.1 = name).getLast?.map Prod.snd

end WrittenPattern

namespace Source

/-- If a name is bound more than once, the last binding counts. -/
theorem declaration?_foldl_bind_last (bs : List (String × Accessor)) (name : String) :
    ∀ p : Pattern, (bs.foldl (fun r bound => r.bind bound.1 bound.2) p).declaration? name =
      (((bs.filter fun bound => bound.1 = name).getLast?.map fun bound =>
        ⟨name, p.offset, bound.2⟩) <|> p.declaration? name) := by
  induction bs with
  | nil => exact fun _ => rfl
  | cons b bs ih =>
    intro p
    rw [List.foldl_cons, ih, Pattern.declaration?_bind, getLast?_filter_cons]
    by_cases hb : b.1 = name <;> cases (bs.filter fun bound => bound.1 = name).getLast? <;>
      simp [hb, Pattern.bind]

theorem buildPattern_eq_foldl (offset : Nat) (p : WrittenPattern) :
    buildPattern offset p = p.bindings.foldl (fun r bound => r.bind bound.1 bound.2)
      (.atOffset offset (.ofTypeName p.typeName) false) := by
  rw [buildPattern, WrittenPattern.bindings, List.foldl_append, List.foldl_map]
  cases p.name <;> rfl

/-- What is bound on a pattern that is built. -/
theorem declaration?_buildPattern (offset : Nat) (p : WrittenPattern) (name : String) :
    (buildPattern offset p).declaration? name =
      (p.accessor? name).map fun a => ⟨name, offset, a⟩ := by
  rw [buildPattern_eq_foldl, declaration?_foldl_bind_last, WrittenPattern.accessor?]
  cases (p.bindings.filter fun bound => bound.1 = name).getLast? <;> rfl

theorem keyed_buildPattern (offset : Nat) (p : WrittenPattern) :
    Scope.Keyed (buildPattern offset p).bound := by
  intro q hq
  have hget : (buildPattern offset p).declaration? q.1 = some q.2 :=
    OrderedMap.get?_eq_some_iff.2 hq
  rw [declaration?_buildPattern] at hget
  obtain ⟨a, -, ha⟩ := Option.map_eq_some_iff.1 hget
  rw [← ha]

end Source

/-! ## Built sources -/

namespace Source

/-- The pattern that is written, at the offset that it gets. -/
def buildPlaced (q : Nat × WrittenPattern) : Pattern := buildPattern q.1 q.2

/-- The source is what becomes of the condition if its first pattern gets the offset `next`. -/
structure Follows (next : Nat) (c : Condition) (s : Source) : Prop where
  outline : s.outline = c.outline
  patterns : s.patterns = (c.placed next).map buildPlaced
  openPatterns : s.openPatterns = (c.placedOpen next).map buildPlaced

/-- The sources are what becomes of the conditions, one after the other. -/
structure FollowAll (next : Nat) (cs : List Condition) (ss : List Source) : Prop where
  outlines : outlines ss = Condition.outlines cs
  patterns : patternsOf ss = (Condition.placedAll next cs).map buildPlaced
  openPatterns : openPatternsOf ss = (Condition.placedOpenAll next cs).map buildPlaced

mutual

/-- **A built source follows its condition**, and its patterns take one offset each. -/
theorem follows_ofCondition? : ∀ {c : Condition} {next next' : Nat} {s : Source},
    ofCondition? next c = (some s, next') →
      Follows next c s ∧ next' = next + c.patternCount
  | .pattern p, next, next', s, h => by
    rw [ofCondition?] at h
    split at h
    · cases h
      exact ⟨⟨rfl, rfl, rfl⟩, rfl⟩
    · cases h
  | .all cs, next, next', s, h | .any cs, next, next', s, h => by
    rw [ofCondition?, Prod.mk.injEq] at h
    obtain ⟨ss, hss, -, rfl⟩ := eq_group_of_groupOf? h.1
    obtain ⟨hall, hnext⟩ := follows_ofConditions? (Prod.ext hss h.2)
    exact ⟨⟨congrArg (Outline.group _) hall.outlines, hall.patterns, hall.openPatterns⟩, hnext⟩
  | .absent c, next, next', s, h | .present c, next, next', s, h => by
    rw [ofCondition?, Prod.mk.injEq] at h
    obtain ⟨s₀, hs₀, rfl⟩ := Option.map_eq_some_iff.1 h.1
    obtain ⟨hs, hnext⟩ := follows_ofCondition? (Prod.ext hs₀ h.2)
    refine ⟨⟨?_, ?_, rfl⟩, hnext⟩
    · rw [Source.outline, outlines, outlines, Condition.outline, hs.outline]
    · rw [Source.patterns, patternsOf, patternsOf, List.append_nil, Condition.placed, hs.patterns]

theorem follows_ofConditions? : ∀ {cs : List Condition} {next next' : Nat} {ss : List Source},
    ofConditions? next cs = (some ss, next') →
      FollowAll next cs ss ∧ next' = next + Condition.patternCounts cs
  | [], next, next', ss, h => by
    cases h
    exact ⟨⟨rfl, rfl, rfl⟩, rfl⟩
  | c :: cs, next, next', ss, h => by
    rw [ofConditions?] at h
    split at h
    · cases h
    · next s next₁ hc =>
      rw [Prod.mk.injEq] at h
      obtain ⟨ss', hss', rfl⟩ := Option.map_eq_some_iff.1 h.1
      obtain ⟨hs, rfl⟩ := follows_ofCondition? hc
      obtain ⟨hall, hnext⟩ := follows_ofConditions? (Prod.ext hss' h.2)
      refine ⟨⟨?_, ?_, ?_⟩, ?_⟩
      · rw [outlines, hs.outline, hall.outlines, Condition.outlines]
      · rw [patternsOf, hs.patterns, hall.patterns, Condition.placedAll, List.map_append]
      · rw [openPatternsOf, hs.openPatterns, hall.openPatterns, Condition.placedOpenAll,
          List.map_append]
      · rw [hnext, Condition.patternCounts, Nat.add_assoc]

end

/-- The last binding of a name is the one on the last open pattern that binds it. -/
theorem Follows.binding?_eq {next : Nat} {c : Condition} {s : Source} (h : Follows next c s)
    (name : String) : s.binding? name = ((c.placedOpen next).filterMap fun q =>
      (q.2.accessor? name).map fun a => ⟨name, q.1, a⟩).getLast? := by
  rw [binding?, lastNamed?, h.openPatterns, List.filter_flatMap, List.flatMap_map]
  have hpattern : ∀ q : Nat × WrittenPattern,
      (buildPlaced q).declarations.filter (fun d => d.name = name) =
        ((q.2.accessor? name).map fun a => ⟨name, q.1, a⟩).toList := by
    intro q
    rw [← declaration?_buildPattern]
    exact (keyed_buildPattern q.1 q.2).filter_values name
  simp only [hpattern, List.filterMap_eq_flatMap_toList]

end Source

/-- **Exactly the valid conditions are built.**  A condition of `n` patterns takes `n` offsets from
the next free one on.  It becomes a source of the same shape, its patterns have these offsets in
the order in which they are written, and the least offset is the first one.  A name is visible
outside the source if a pattern binds it that is not inside a group of absence or presence, and it
stands for what the last such pattern binds. -/
theorem SourceBuilder.build_follows_condition (ctx : Context σ) (c : Condition) :
    (patterns ctx c).1.isSome = c.isValid ∧
      ∀ s ctx', patterns ctx c = (some s, ctx') →
        ctx' = { ctx with nextOffset := ctx.nextOffset + c.patternCount } ∧
        s.outline = c.outline ∧
        s.patterns = (c.placed ctx.nextOffset).map Source.buildPlaced ∧
        s.patterns.map Pattern.offset = List.range' ctx.nextOffset c.patternCount ∧
        s.firstOffset? = some ctx.nextOffset ∧
        ∀ name, s.outer.get? name = ((c.placedOpen ctx.nextOffset).filterMap fun q =>
          (q.2.accessor? name).map fun a => ⟨name, q.1, a⟩).getLast? := by
  refine ⟨Source.isSome_ofCondition? c ctx.nextOffset, fun s ctx' h => ?_⟩
  rw [patterns, Prod.mk.injEq] at h
  obtain ⟨hs, rfl⟩ := h
  obtain ⟨hfollows, hnext⟩ := Source.follows_ofCondition? (Prod.ext hs rfl)
  obtain ⟨hnumbered, -, hne⟩ := Source.numbered_ofCondition? (Prod.ext hs rfl)
  have hlength : s.patterns.length = c.patternCount := by
    rw [hfollows.patterns, List.length_map, ← List.length_map, Condition.offsets_placed,
      List.length_range']
  have hctx : { ctx with nextOffset := (Source.ofCondition? ctx.nextOffset c).2 } =
      { ctx with nextOffset := ctx.nextOffset + c.patternCount } := by
    rw [← hnext]
  refine ⟨hctx, hfollows.outline, hfollows.patterns, ?_,
    Source.firstOffset?_of_numbered hnumbered hne, fun name => ?_⟩
  · rw [hnumbered.offsets, hlength]
  · rw [Source.get?_outer, hfollows.binding?_eq]

/-- In a disjunction, the second binding of a name counts; a name bound inside an absence is not
visible, although its pattern has an offset. -/
theorem SourceBuilder.build_follows_condition_of_absence :
    let written (typeName name : String) : Condition :=
      .pattern ⟨typeName, some name, [], ⟨0, 0⟩⟩
    let c : Condition := .any [.all [written "P" "p", .absent (written "Q" "q")], written "R" "p"]
    let ctx : Context State := { Context.start "r" ⟨.empty, false⟩ ⟨"a", .empty, .empty⟩ with
      nextOffset := 2 }
    ∃ s ctx', patterns ctx c = (some s, ctx') ∧ ctx'.nextOffset = 5 ∧
      s.outline = .group .any [.group .all [.pattern, .group .absent [.pattern]], .pattern] ∧
      s.patterns.map Pattern.offset = [2, 3, 4] ∧ s.firstOffset? = some 2 ∧
      s.outer.get? "p" = some ⟨"p", 4, .itself (.object "R")⟩ ∧ s.outer.get? "q" = none := by
  intro written c ctx
  have hsome : (patterns ctx c).1.isSome = true := by decide +kernel
  obtain ⟨s, hs⟩ := Option.isSome_iff_exists.1 hsome
  obtain ⟨-, hbuilt⟩ := build_follows_condition ctx c
  obtain ⟨hctx, houtline, -, hoffsets, hfirst, hnames⟩ := hbuilt s _ (Prod.ext hs rfl)
  refine ⟨s, _, Prod.ext hs rfl, ?_, houtline, hoffsets, hfirst, ?_, ?_⟩
  · rw [hctx]
    rfl
  · rw [hnames]
    decide +kernel
  · rw [hnames]
    decide +kernel

end RuleAggregate
