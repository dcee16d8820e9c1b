import RuleAggregate.Proofs.Scope.Keyed
import RuleAggregate.Source.Basic

/-!
# The offsets of built sources

However a condition is nested, its patterns get consecutive offsets, depth first, and what is bound
on a pattern carries the offset of that pattern.  So one object for every pattern, in this order,
fills the offsets of the source without a gap.

## What is here

* `Numbered` — patterns with consecutive offsets that own their declarations.
* `Source.numbered_ofCondition?` — **built sources are numbered.**
* `Source.isSome_ofCondition?` — the conditions that can be built are the valid ones.
* `Source.binding?`, `Source.get?_outer` — the last binding of a name by an open pattern is what
  the source makes visible.
* `Source.exists_pattern_of_binding?` — a binding lies at the offset of some pattern.
-/

set_option autoImplicit false

namespace RuleAggregate

/-! ## Patterns that own their declarations -/

namespace Pattern

/-- The declarations of the pattern lie at its offset. -/
def Owned (p : Pattern) : Prop := ∀ q ∈ p.bound.entries, q.2.offset = p.offset

theorem owned_atOffset (offset : Nat) (t : ValueType) (nested : Bool) :
    (atOffset offset t nested).Owned := nofun

theorem Owned.bind {p : Pattern} (hp : p.Owned) (name : String) (accessor : Accessor) :
    (p.bind name accessor).Owned := by
  intro q hq
  have hget : (p.bind name accessor).bound.get? q.1 = some q.2 :=
    OrderedMap.get?_eq_some_iff.2 hq
  rw [Pattern.bind, OrderedMap.get?_put] at hget
  split at hget
  · rw [Option.some_inj] at hget
    rw [← hget]
    rfl
  · exact hp _ (OrderedMap.get?_eq_some_iff.1 hget)

theorem Owned.offset_of_mem {p : Pattern} (hp : p.Owned) {d : Declaration}
    (hd : d ∈ p.declarations) : d.offset = p.offset := by
  obtain ⟨q, hq, rfl⟩ := List.mem_map.1 hd
  exact hp q hq

end Pattern

/-- The patterns have consecutive offsets from `next` on, and own their declarations. -/
structure Numbered (next : Nat) (ps : List Pattern) : Prop where
  offsets : ps.map Pattern.offset = List.range' next ps.length
  owned : ∀ p ∈ ps, p.Owned

theorem numbered_nil (next : Nat) : Numbered next [] := ⟨rfl, nofun⟩

theorem Numbered.append {next : Nat} {ps qs : List Pattern} (hp : Numbered next ps)
    (hq : Numbered (next + ps.length) qs) : Numbered next (ps ++ qs) := by
  refine ⟨?_, fun p hmem => ?_⟩
  · rw [List.map_append, hp.offsets, hq.offsets, List.range'_append_1, List.length_append]
  · rcases List.mem_append.1 hmem with h | h
    · exact hp.owned p h
    · exact hq.owned p h

theorem Numbered.mem_range {next : Nat} {ps : List Pattern} (h : Numbered next ps) {p : Pattern}
    (hp : p ∈ ps) : next ≤ p.offset ∧ p.offset < next + ps.length := by
  have hmem : p.offset ∈ List.range' next ps.length := by
    rw [← h.offsets]
    exact List.mem_map_of_mem hp
  rw [List.mem_range'_1] at hmem
  exact hmem

/-- The pattern at the highest offset. -/
theorem Numbered.exists_last {next : Nat} {ps : List Pattern} (h : Numbered next ps)
    (hne : ps ≠ []) : ∃ p ∈ ps, p.offset + 1 = next + ps.length := by
  have hpos : 0 < ps.length := List.length_pos_iff.2 hne
  have hmem : next + (ps.length - 1) ∈ ps.map Pattern.offset := by
    rw [h.offsets, List.mem_range'_1]
    omega
  obtain ⟨p, hp, heq⟩ := List.mem_map.1 hmem
  exact ⟨p, hp, by omega⟩

namespace Source

/-! ## Numbering -/

theorem offset_buildPattern (offset : Nat) (p : WrittenPattern) :
    (buildPattern offset p).offset = offset := by
  have hfields : ∀ (fs : List FieldBinding) (q : Pattern),
      (fs.foldl (fun q f => q.bind f.name (.field f.field (.ofTypeName f.typeName))) q).offset =
        q.offset := by
    intro fs
    induction fs with
    | nil => exact fun _ => rfl
    | cons f fs ih => exact fun q => ih _
  rw [buildPattern, hfields]
  cases p.name <;> rfl

theorem owned_buildPattern (offset : Nat) (p : WrittenPattern) :
    (buildPattern offset p).Owned := by
  have hfields : ∀ (fs : List FieldBinding) (q : Pattern), q.Owned →
      (fs.foldl (fun q f => q.bind f.name (.field f.field (.ofTypeName f.typeName))) q).Owned := by
    intro fs
    induction fs with
    | nil => exact fun _ hq => hq
    | cons f fs ih => exact fun q hq => ih _ (hq.bind _ _)
  refine hfields _ _ ?_
  cases p.name with
  | none => exact Pattern.owned_atOffset _ _ _
  | some name => exact (Pattern.owned_atOffset _ _ _).bind _ _

theorem eq_group_of_groupOf? {kind : GroupKind} {o : Option (List Source)} {s : Source}
    (h : groupOf? kind o = some s) : ∃ ss, o = some ss ∧ ss ≠ [] ∧ s = group kind ss := by
  match o with
  | none | some [] => cases h
  | some (s₀ :: ss) =>
    cases h
    exact ⟨s₀ :: ss, rfl, List.cons_ne_nil _ _, rfl⟩

mutual

/-- **Built sources are numbered** from the offset on at which the building began, and the next
free offset is the one after them. -/
theorem numbered_ofCondition? : ∀ {c : Condition} {next next' : Nat} {s : Source},
    ofCondition? next c = (some s, next') →
      Numbered next s.patterns ∧ next' = next + s.patterns.length ∧ s.patterns ≠ []
  | .pattern p, next, next', s, h => by
    rw [ofCondition?] at h
    split at h
    · cases h
      refine ⟨⟨?_, ?_⟩, rfl, List.cons_ne_nil _ _⟩
      · rw [patterns, List.map_singleton, offset_buildPattern]
        rfl
      · rw [patterns, List.forall_mem_singleton]
        exact owned_buildPattern next p
    · cases h
  | .all cs, next, next', s, h | .any cs, next, next', s, h => by
    rw [ofCondition?, Prod.mk.injEq] at h
    obtain ⟨ss, hss, hne, rfl⟩ := eq_group_of_groupOf? h.1
    obtain ⟨hn, hnext, hpne⟩ := numbered_ofConditions? (Prod.ext hss h.2)
    exact ⟨hn, hnext, hpne hne⟩
  | .absent c, next, next', s, h | .present c, next, next', s, h => by
    rw [ofCondition?, Prod.mk.injEq] at h
    obtain ⟨s₀, hs₀, rfl⟩ := Option.map_eq_some_iff.1 h.1
    have hpatterns : ∀ kind, (group kind [s₀]).patterns = s₀.patterns := fun kind => by
      rw [patterns, patternsOf, patternsOf, List.append_nil]
    rw [hpatterns]
    exact numbered_ofCondition? (Prod.ext hs₀ h.2)

/-- Built conditions are numbered one after the other. -/
theorem numbered_ofConditions? : ∀ {cs : List Condition} {next next' : Nat} {ss : List Source},
    ofConditions? next cs = (some ss, next') →
      Numbered next (patternsOf ss) ∧ next' = next + (patternsOf ss).length ∧
        (ss ≠ [] → patternsOf ss ≠ [])
  | [], next, next', ss, h => by
    cases h
    exact ⟨numbered_nil next, rfl, fun h => absurd rfl h⟩
  | c :: cs, next, next', ss, h => by
    rw [ofConditions?] at h
    split at h
    · cases h
    · next s next₁ hc =>
      rw [Prod.mk.injEq] at h
      obtain ⟨ss', hss', rfl⟩ := Option.map_eq_some_iff.1 h.1
      obtain ⟨hn, rfl, hne⟩ := numbered_ofCondition? hc
      obtain ⟨hns, hnext, -⟩ := numbered_ofConditions? (Prod.ext hss' h.2)
      refine ⟨hn.append hns, ?_, fun _ => ?_⟩
      · rw [hnext, patternsOf, List.length_append, Nat.add_assoc]
      · rw [patternsOf]
        exact List.append_ne_nil_of_left_ne_nil hne _

end

/-! ## Which conditions are built -/

theorem isSome_groupOf? (kind : GroupKind) (o : Option (List Source)) :
    (groupOf? kind o).isSome = o.any (!·.isEmpty) := by
  match o with
  | none | some [] | some (_ :: _) => rfl

/-- A group is built if there is something in it and all of it is built. -/
theorem isSome_groupOf?_ofConditions? (kind : GroupKind) (next : Nat) (cs : List Condition) :
    (groupOf? kind (ofConditions? next cs).1).isSome =
      (!cs.isEmpty && (ofConditions? next cs).1.isSome) := by
  rw [isSome_groupOf?]
  cases cs with
  | nil => rfl
  | cons c cs =>
    rw [ofConditions?]
    split
    · rfl
    · next s next₁ _ =>
      show ((ofConditions? next₁ cs).1.map (s :: ·)).any _ =
        (true && ((ofConditions? next₁ cs).1.map (s :: ·)).isSome)
      cases (ofConditions? next₁ cs).1 <;> rfl

mutual

/-- **The conditions that can be built are the valid ones**, whatever offsets they get. -/
theorem isSome_ofCondition? : ∀ (c : Condition) (next : Nat),
    (ofCondition? next c).1.isSome = c.isValid
  | .pattern p, next => by
    rw [ofCondition?, Condition.isValid]
    split
    · next h => exact h.symm
    · next h => exact (Bool.eq_false_iff.2 h).symm
  | .all cs, next | .any cs, next => by
    rw [ofCondition?, Condition.isValid, ← isSome_ofConditions? cs next]
    exact isSome_groupOf?_ofConditions? _ next cs
  | .absent c, next | .present c, next => by
    rw [ofCondition?, Condition.isValid, ← isSome_ofCondition? c next]
    exact Option.isSome_map

theorem isSome_ofConditions? : ∀ (cs : List Condition) (next : Nat),
    (ofConditions? next cs).1.isSome = Condition.areValid cs
  | [], next => rfl
  | c :: cs, next => by
    rw [ofConditions?, Condition.areValid, ← isSome_ofCondition? c next]
    split
    · next h => rw [h]; rfl
    · next s next₁ h =>
      rw [h, ← isSome_ofConditions? cs next₁]
      exact Option.isSome_map

end

theorem isValid_unwrap (c : Condition) : c.unwrap.isValid = c.isValid := by
  fun_induction Condition.unwrap c with
  | case1 c ih => rw [ih, Condition.isValid, Condition.areValid, Condition.areValid]; simp
  | case2 => rfl

/-- The least offset of a numbered source is the first one. -/
theorem firstOffset?_of_numbered {s : Source} {next : Nat} (h : Numbered next s.patterns)
    (hne : s.patterns ≠ []) : s.firstOffset? = some next := by
  rw [firstOffset?, h.offsets, List.min?_eq_some_iff]
  have hpos := List.length_pos_iff.2 hne
  refine ⟨List.mem_range'_1.2 (by omega), fun k hk => ?_⟩
  exact (List.mem_range'_1.1 hk).1

/-! ## Bindings -/

/-- The last binding of a name by a pattern that is not inside a group of absence or presence. -/
def binding? (s : Source) (name : String) : Option Declaration :=
  lastNamed? name (s.openPatterns.flatMap Pattern.declarations)

theorem foldl_declarePattern (s : Scope) (ps : List Pattern) :
    ps.foldl Scope.declarePattern s = s.declareAll (ps.flatMap Pattern.declarations) := by
  induction ps generalizing s with
  | nil => rfl
  | cons p ps ih =>
    rw [List.foldl_cons, ih, List.flatMap_cons, Scope.declareAll, Scope.declareAll,
      List.foldl_append]
    rfl

theorem keyed_outer (s : Source) : s.outer.Keyed := by
  rw [outer, foldl_declarePattern]
  exact Scope.keyed_empty.declareAll _

/-- **What a source makes visible under a name is the last binding of the name.** -/
theorem get?_outer (s : Source) (name : String) : s.outer.get? name = s.binding? name := by
  rw [outer, foldl_declarePattern, Scope.get?_declareAll, binding?]
  cases lastNamed? name (s.openPatterns.flatMap Pattern.declarations) <;> rfl

mutual

theorem openPatterns_sublist : ∀ s : Source, s.openPatterns.Sublist s.patterns
  | .pattern _ => .refl _
  | .group kind ss => by
    rw [openPatterns, patterns]
    split
    · exact openPatternsOf_sublist ss
    · exact List.nil_sublist _

theorem openPatternsOf_sublist : ∀ ss : List Source,
    (openPatternsOf ss).Sublist (patternsOf ss)
  | [] => .refl _
  | s :: ss => by
    rw [openPatternsOf, patternsOf]
    exact (openPatterns_sublist s).append (openPatternsOf_sublist ss)

end

/-- A binding lies at the offset of some pattern. -/
theorem exists_pattern_of_binding? {s : Source} {next : Nat} (h : Numbered next s.patterns)
    {name : String} {d : Declaration} (hd : s.binding? name = some d) :
    ∃ p ∈ s.patterns, d.offset = p.offset := by
  have hmem := List.mem_of_getLast? hd
  obtain ⟨p, hp, hdp⟩ := List.mem_flatMap.1 (List.mem_filter.1 hmem).1
  have hpat := (openPatterns_sublist s).subset hp
  exact ⟨p, hpat, (h.owned p hpat).offset_of_mem hdp⟩

end Source
end RuleAggregate
