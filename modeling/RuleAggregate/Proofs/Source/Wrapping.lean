import RuleAggregate.Proofs.Source.Building

/-!
# Conjunctions of one condition

A conjunction of a single condition says no more than that condition.  Only those at the top are
taken off before a condition is built, so that elsewhere they become groups with one child in the
built source.  These groups do not show: the patterns and their offsets, the names that are visible
and the number of children at the top are those of the condition without them.

## What is here

* `Condition.Wraps` — one condition is the other one with conjunctions of one condition around
  some of its parts; `Condition.WrapsInside` is the same with none around the whole.
* `Condition.wrapsInside_unwrap` — what is left once those at the top are taken off.
* `Source.Alike`, `Source.built_of_wraps` — **what is built of both is alike.**
* `SourceBuilder.build_ignores_wrapping` — **a conjunction of one condition changes nothing.**
-/

set_option autoImplicit false

namespace RuleAggregate

/-! ## Conditions with conjunctions around their parts -/

namespace Condition

mutual

/-- The second condition is the first one, in which any number of parts, the whole included, have
been replaced by conjunctions of just that part. -/
inductive Wraps : Condition → Condition → Prop
  | wrap {c c' : Condition} (h : Wraps c c') : Wraps c (all [c'])
  | keep {c c' : Condition} (h : WrapsInside c c') : Wraps c c'

/-- The same, but the whole has not been replaced. -/
inductive WrapsInside : Condition → Condition → Prop
  | pattern (p : WrittenPattern) : WrapsInside (pattern p) (pattern p)
  | all {cs cs' : List Condition} (h : WrapsAll cs cs') : WrapsInside (all cs) (all cs')
  | any {cs cs' : List Condition} (h : WrapsAll cs cs') : WrapsInside (any cs) (any cs')
  | absent {c c' : Condition} (h : Wraps c c') : WrapsInside (absent c) (absent c')
  | present {c c' : Condition} (h : Wraps c c') : WrapsInside (present c) (present c')

/-- The same for conditions side by side. -/
inductive WrapsAll : List Condition → List Condition → Prop
  | nil : WrapsAll [] []
  | cons {c c' : Condition} {cs cs' : List Condition} (h : Wraps c c') (hs : WrapsAll cs cs') :
      WrapsAll (c :: cs) (c' :: cs')

end

theorem unwrap_unwrap (c : Condition) : c.unwrap.unwrap = c.unwrap := by
  fun_induction unwrap c with
  | case1 c ih => exact ih
  | case2 c h => rw [unwrap]; exact h

mutual

theorem wrapsInside_unwrap : ∀ {c c' : Condition}, Wraps c c' → WrapsInside c.unwrap c'.unwrap
  | _, all [_], .wrap h => by
    rw [unwrap]
    exact wrapsInside_unwrap h
  | _, _, .keep h => wrapsInside_unwrap_of_inside h

theorem wrapsInside_unwrap_of_inside : ∀ {c c' : Condition}, WrapsInside c c' →
    WrapsInside c.unwrap c'.unwrap
  | _, _, .pattern p => .pattern p
  | _, _, .any h => .any h
  | _, _, .absent h => .absent h
  | _, _, .present h => .present h
  | _, _, .all h => wrapsInside_unwrap_all h

theorem wrapsInside_unwrap_all : ∀ {cs cs' : List Condition}, WrapsAll cs cs' →
    WrapsInside (all cs).unwrap (all cs').unwrap
  | [], [], h => .all h
  | [_], [_], .cons h _ => by
    rw [unwrap, unwrap]
    exact wrapsInside_unwrap h
  | _ :: _ :: _, _ :: _ :: _, h => .all h
  | [_], _ :: _ :: _, .cons _ hs | _ :: _ :: _, [_], .cons _ hs => nomatch hs

end

end Condition

/-! ## What is built of them -/

namespace Source

open Condition

/-- The sources have the same patterns, and make the same names visible. -/
structure Alike (s t : Source) : Prop where
  patterns : t.patterns = s.patterns
  openPatterns : t.openPatterns = s.openPatterns

/-- The same for sources side by side. -/
structure AllAlike (ss ts : List Source) : Prop where
  length : ts.length = ss.length
  patterns : patternsOf ts = patternsOf ss
  openPatterns : openPatternsOf ts = openPatternsOf ss

/-- One match of both sources consists of one object, or of several objects of both. -/
def AlikeAtTop (s t : Source) : Prop := Alike s t ∧ t.isMultiPattern = s.isMultiPattern

theorem Alike.outer {s t : Source} (h : Alike s t) : t.outer = s.outer := by
  rw [Source.outer, h.openPatterns, Source.outer]

theorem Alike.firstOffset? {s t : Source} (h : Alike s t) : t.firstOffset? = s.firstOffset? := by
  rw [Source.firstOffset?, h.patterns, Source.firstOffset?]

/-- A group of a single source is like that source, if names can be used outside it. -/
theorem Alike.group {s t : Source} (h : Alike s t) : Alike s (group .all [t]) := by
  refine ⟨?_, ?_⟩
  · rw [Source.patterns, patternsOf, patternsOf, List.append_nil, h.patterns]
  · rw [Source.openPatterns, openPatternsOf, openPatternsOf, List.append_nil, h.openPatterns]
    rfl

theorem AllAlike.group {ss ts : List Source} (h : AllAlike ss ts) (kind : GroupKind) :
    AlikeAtTop (group kind ss) (group kind ts) := by
  refine ⟨⟨h.patterns, ?_⟩, ?_⟩
  · rw [Source.openPatterns, Source.openPatterns, h.openPatterns]
  · rw [isMultiPattern, isMultiPattern, h.length]

theorem AllAlike.cons {s t : Source} {ss ts : List Source} (h : Alike s t)
    (hs : AllAlike ss ts) : AllAlike (s :: ss) (t :: ts) := by
  refine ⟨?_, ?_, ?_⟩
  · rw [List.length_cons, List.length_cons, hs.length]
  · rw [patternsOf, patternsOf, h.patterns, hs.patterns]
  · rw [openPatternsOf, openPatternsOf, h.openPatterns, hs.openPatterns]

/-- The next free offset is the same, and either nothing is built or what is built is related. -/
inductive SameBuild {α : Type} (R : α → α → Prop) : Option α × Nat → Option α × Nat → Prop
  | nothing (next : Nat) : SameBuild R (none, next) (none, next)
  | built {a b : α} (h : R a b) (next : Nat) : SameBuild R (some a, next) (some b, next)

namespace SameBuild

theorem mono {α : Type} {R S : α → α → Prop} {x y : Option α × Nat} (h : SameBuild R x y)
    (hrs : ∀ a b, R a b → S a b) : SameBuild S x y := by
  cases h with
  | nothing next => exact .nothing next
  | built hab next => exact .built (hrs _ _ hab) next

/-- Groups are built of the sources. -/
theorem groupOf? {x y : Option (List Source) × Nat} (h : SameBuild AllAlike x y)
    (kind : GroupKind) :
    SameBuild AlikeAtTop (Source.groupOf? kind x.1, x.2) (Source.groupOf? kind y.1, y.2) := by
  cases h with
  | nothing next => exact .nothing next
  | @built ss ts hall next =>
    cases ss with
    | nil =>
      obtain rfl := List.eq_nil_of_length_eq_zero hall.length
      exact .nothing next
    | cons s ss =>
      obtain ⟨t, ts, rfl⟩ := List.exists_cons_of_length_eq_add_one hall.length
      exact .built (hall.group kind) next

/-- Each source becomes a group of its own. -/
theorem group {x y : Option Source × Nat} (h : SameBuild Alike x y) (kind : GroupKind) :
    SameBuild AlikeAtTop (x.1.map fun s => .group kind [s], x.2)
      (y.1.map fun s => .group kind [s], y.2) := by
  cases h with
  | nothing next => exact .nothing next
  | built halike next => exact .built ((AllAlike.cons halike ⟨rfl, rfl, rfl⟩).group kind) next

/-- The second source becomes a conjunction of its own. -/
theorem wrap {c c' : Condition} {next : Nat}
    (h : SameBuild Alike (ofCondition? next c) (ofCondition? next c')) :
    SameBuild Alike (ofCondition? next c) (ofCondition? next (.all [c'])) := by
  rw [ofCondition?, ofConditions?]
  generalize ofCondition? next c = x, ofCondition? next c' = y at h ⊢
  cases h with
  | nothing next => exact .nothing next
  | built halike next => exact .built halike.group next

/-- One more source is built, and then the others. -/
theorem cons {c c' : Condition} {cs cs' : List Condition} {next : Nat}
    (h : SameBuild Alike (ofCondition? next c) (ofCondition? next c'))
    (hs : ∀ next, SameBuild AllAlike (ofConditions? next cs) (ofConditions? next cs')) :
    SameBuild AllAlike (ofConditions? next (c :: cs)) (ofConditions? next (c' :: cs')) := by
  rw [ofConditions?, ofConditions?]
  generalize ofCondition? next c = x, ofCondition? next c' = y at h ⊢
  cases h with
  | nothing next => exact .nothing next
  | built halike next =>
    specialize hs next
    simp only
    generalize ofConditions? next cs = xs, ofConditions? next cs' = ys at hs ⊢
    cases hs with
    | nothing next => exact .nothing next
    | built hall next => exact .built (.cons halike hall) next

end SameBuild

mutual

theorem built_of_wrapsInside : ∀ {c c' : Condition}, WrapsInside c c' → ∀ next : Nat,
    SameBuild AlikeAtTop (ofCondition? next c) (ofCondition? next c')
  | _, _, .pattern p, next => by
    rw [ofCondition?]
    split
    · exact .built ⟨⟨rfl, rfl⟩, rfl⟩ _
    · exact .nothing _
  | _, _, .all h, next | _, _, .any h, next => by
    rw [ofCondition?, ofCondition?]
    exact (built_of_wrapsAll h next).groupOf? _
  | _, _, .absent h, next | _, _, .present h, next => by
    rw [ofCondition?, ofCondition?]
    exact (built_of_wraps h next).group _

/-- **What is built is alike**, wherever there are conjunctions of one condition. -/
theorem built_of_wraps : ∀ {c c' : Condition}, Wraps c c' → ∀ next : Nat,
    SameBuild Alike (ofCondition? next c) (ofCondition? next c')
  | _, _, .wrap h, next => (built_of_wraps h next).wrap
  | _, _, .keep h, next => (built_of_wrapsInside h next).mono fun _ _ => And.left

theorem built_of_wrapsAll : ∀ {cs cs' : List Condition}, WrapsAll cs cs' → ∀ next : Nat,
    SameBuild AllAlike (ofConditions? next cs) (ofConditions? next cs')
  | _, _, .nil, _ => .built ⟨rfl, rfl, rfl⟩ _
  | _, _, .cons h hs, next => (built_of_wraps h next).cons (built_of_wrapsAll hs)

end

theorem isValid_of_wraps {c c' : Condition} (h : Wraps c c') : c'.isValid = c.isValid := by
  rw [← isSome_ofCondition? c 0, ← isSome_ofCondition? c' 0]
  have hbuilt := built_of_wraps h 0
  generalize ofCondition? 0 c = x, ofCondition? 0 c' = y at hbuilt ⊢
  cases hbuilt <;> rfl

end Source

variable {σ : Type}

namespace SourceBuilder

/-- **A conjunction of one condition changes nothing.**  Whichever parts of a condition are replaced
by conjunctions of just that part, it stays as valid as it was.  Conjunctions at the top are taken
off, and doing so twice does no more than doing so once.  What is built then has the same patterns
at the same offsets, makes the same names visible, and consists of several objects if it did so
before; and the context goes on with the same offset, even if nothing is built. -/
theorem build_ignores_wrapping (ctx : Context σ) {c c' : Condition} (h : c.Wraps c') :
    c'.isValid = c.isValid ∧ c.unwrap.unwrap = c.unwrap ∧
      (patterns ctx c.unwrap).1.isSome = c.isValid ∧
      (patterns ctx c'.unwrap).2 = (patterns ctx c.unwrap).2 ∧
      ∀ s, (patterns ctx c.unwrap).1 = some s →
        ∃ s', (patterns ctx c'.unwrap).1 = some s' ∧ s'.outer = s.outer ∧
          s'.patterns = s.patterns ∧ s'.firstOffset? = s.firstOffset? ∧
          s'.isMultiPattern = s.isMultiPattern := by
  refine ⟨Source.isValid_of_wraps h, c.unwrap_unwrap, ?_, ?_⟩
  · rw [← Source.isValid_unwrap]
    exact Source.isSome_ofCondition? c.unwrap ctx.nextOffset
  · have hbuilt := Source.built_of_wrapsInside (Condition.wrapsInside_unwrap h) ctx.nextOffset
    simp only [patterns]
    generalize Source.ofCondition? ctx.nextOffset c.unwrap = x,
      Source.ofCondition? ctx.nextOffset c'.unwrap = y at hbuilt ⊢
    cases hbuilt with
    | nothing next => exact ⟨rfl, fun t ht => by cases ht⟩
    | @built s s' halike next =>
      refine ⟨rfl, fun t ht => ?_⟩
      cases ht
      exact ⟨s', rfl, halike.1.outer, halike.1.patterns, halike.1.firstOffset?, halike.2⟩

/-- A conjunction of two patterns inside a disjunction, with a conjunction around it, around one of
its patterns and around the whole. -/
theorem build_ignores_wrapping_of_pair :
    let written (typeName name : String) : Condition :=
      .pattern ⟨typeName, some name, [], ⟨0, 0⟩⟩
    let c : Condition := .any [.all [written "P" "p", written "Q" "q"]]
    let c' : Condition := .all [.any [.all [.all [.all [written "P" "p"], written "Q" "q"]]]]
    let ctx : Context State := Context.start "r" ⟨.empty, false⟩ ⟨"a", .empty, .empty⟩
    c.Wraps c' ∧ c'.isValid = c.isValid ∧
      ∃ s s', (patterns ctx c.unwrap).1 = some s ∧ (patterns ctx c'.unwrap).1 = some s' ∧
        s'.outer = s.outer ∧ s'.patterns = s.patterns ∧ s'.firstOffset? = s.firstOffset? ∧
        s'.isMultiPattern = s.isMultiPattern ∧ s'.isMultiPattern = false ∧
        s'.patterns.map Pattern.offset = [0, 1] ∧ s'.outline ≠ s.outline := by
  intro written c c' ctx
  have hwraps : c.Wraps c' := by
    have hpair : Condition.Wraps (.all [written "P" "p", written "Q" "q"])
        (.all [.all [.all [written "P" "p"], written "Q" "q"]]) :=
      .wrap (.keep (.all (.cons (.wrap (.keep (.pattern _)))
        (.cons (.keep (.pattern _)) .nil))))
    exact .wrap (.keep (.any (.cons hpair .nil)))
  obtain ⟨hvalid, -, hsome, -, hbuilt⟩ := build_ignores_wrapping ctx hwraps
  obtain ⟨s, hs⟩ := Option.isSome_iff_exists.1 (hsome.trans (by decide +kernel : c.isValid = true))
  obtain ⟨s', hs', houter, hpatterns, hfirst, hmulti⟩ := hbuilt s hs
  refine ⟨hwraps, hvalid, s, s', hs, hs', houter, hpatterns, hfirst, hmulti, ?_⟩
  cases hs
  cases hs'
  exact ⟨rfl, by decide +kernel, nofun⟩

end SourceBuilder
end RuleAggregate
