import RuleAggregate.Proofs.Value.Occurrences

/-!
# Values without NaN

What keeps equality from being reflexive is NaN, anywhere inside a value.  Among values without it
there is no difference between being like a value and being equal to it, so that collected values
can be compared with the values that were handed in by equality alone.

## What is here

* `Value.eq_self_iff` — **a value equals itself exactly if there is no NaN in it.**
* `EqualInSomeOrder` — lists that hold the same values up to equality, in any order.
* `DistinctOf` — a list of the distinct values among others.
* `SameValues.equalInSomeOrder`, `Counted.distinctOf` — what lists with the same occurrences, and
  the keys of counted values, are then.
-/

set_option autoImplicit false

namespace RuleAggregate

namespace Value

/-! ## Reflexivity -/

theorem float_eq_self_iff (x : Float) : (float x).eq (float x) = true ↔ (float x).NanFree := by
  rw [eq, NanFree, Float.beq_self_iff, Float.isNaN_eq_decide_eq_nan, decide_eq_false_iff_not]

mutual

/-- **A value equals itself exactly if there is no NaN in it.** -/
theorem eq_self_iff : ∀ {v : Value}, v.WellFormed → (v.eq v = true ↔ v.NanFree)
  | null, _ => iff_of_true rfl trivial
  | bool _, _ => iff_of_true (beq_self_eq_true _) trivial
  | int _, _ => iff_of_true (beq_self_eq_true _) trivial
  | text _, _ => iff_of_true (beq_self_eq_true _) trivial
  | float x, _ => float_eq_self_iff x
  | list _, h => eqItems_self_iff h
  | fact t fs, h => by
    have hget : ∀ p ∈ fs, Assoc.get? p.1 fs = some p.2 := fun p hp =>
      Assoc.get?_eq_some_of_mem h.1 hp
    rw [eq, beq_self_eq_true, beq_self_eq_true, Bool.true_and, Bool.true_and, eqFields_iff, NanFree,
      ← fields_eq_self_iff h.2]
    refine forall₂_congr fun p hp => ?_
    rw [hget p hp]
    simp

theorem eqItems_self_iff : ∀ {vs : List Value}, WellFormedItems vs →
    (eqItems vs vs = true ↔ NanFreeItems vs)
  | [], _ => iff_of_true rfl trivial
  | v :: vs, h => by
    rw [eqItems, Bool.and_eq_true, NanFreeItems, eq_self_iff h.1, eqItems_self_iff h.2]

theorem fields_eq_self_iff : ∀ {fs : List (String × Value)}, WellFormedFields fs →
    ((∀ p ∈ fs, p.2.eq p.2 = true) ↔ NanFreeFields fs)
  | [], _ => iff_of_true nofun trivial
  | (k, v) :: fs, h => by
    rw [List.forall_mem_cons, NanFreeFields, eq_self_iff h.1, fields_eq_self_iff h.2]

end

/-- What is like a value without NaN is equal to it. -/
theorem eq_of_alike {v w : Value} (hw : w.WellFormed) (hnan : w.NanFree) (h : v.alike w = true) :
    v.eq w = true := by
  rcases alike_iff.1 h with rfl | heq
  · exact (eq_self_iff hw).2 hnan
  · exact heq

end Value

/-! ## The same values in another order -/

/-- The lists hold the same values up to equality, though perhaps in another order. -/
def EqualInSomeOrder (vs ws : List Value) : Prop :=
  ∃ us, us.Perm vs ∧ List.Forall₂ (fun u w => u.eq w = true) us ws

theorem occurrences_pos_iff {u : Value} {vs : List Value} :
    0 < occurrences u vs ↔ ∃ v ∈ vs, v.alike u = true := List.countP_pos_iff

theorem occurrences_self_pos {v : Value} {vs : List Value} (h : v ∈ vs) : 0 < occurrences v vs :=
  occurrences_pos_iff.2 ⟨v, h, Value.alike_iff.2 (.inl rfl)⟩

/-- **Lists in which all values occur equally often are equal in some order**, if there is no NaN
in one of them. -/
theorem SameValues.equalInSomeOrder {vs ws : List Value} (hvs : ∀ v ∈ vs, v.WellFormed)
    (hws : ∀ w ∈ ws, w.WellFormed) (hnan : ∀ w ∈ ws, w.NanFree) (h : SameValues vs ws) :
    EqualInSomeOrder vs ws := by
  induction ws generalizing vs with
  | nil =>
    cases vs with
    | nil => exact ⟨[], .nil, .nil⟩
    | cons v vs =>
      have hpos := occurrences_self_pos (List.mem_cons_self (a := v) (l := vs))
      rw [h v (hvs v List.mem_cons_self), occurrences_nil] at hpos
      exact absurd hpos (Nat.lt_irrefl 0)
  | cons w ws ih =>
    rw [List.forall_mem_cons] at hws hnan
    -- some value of the other list is equal to the first one; it is taken out of the list
    have hpos := occurrences_self_pos (List.mem_cons_self (a := w) (l := ws))
    rw [← h w hws.1] at hpos
    obtain ⟨v, hv, halike⟩ := occurrences_pos_iff.1 hpos
    have heq : v.eq w = true := Value.eq_of_alike hws.1 hnan.1 halike
    obtain ⟨xs, ys, rfl⟩ := List.append_of_mem hv
    have hothers : ∀ u ∈ xs ++ ys, u.WellFormed := fun u hu => hvs u
      (((List.Sublist.refl xs).append (List.sublist_cons_self v ys)).subset hu)
    have hrest : SameValues (xs ++ ys) ws := by
      intro u hu
      have hcount := h u hu
      rw [occurrences_middle, occurrences_cons, Value.alike_congr (hvs v hv) hws.1 heq] at hcount
      exact Nat.add_right_cancel hcount
    obtain ⟨us, hperm, hall⟩ := ih hothers hws.2 hnan.2 hrest
    exact ⟨v :: us, (hperm.cons v).trans List.perm_middle.symm, .cons heq hall⟩

/-! ## Distinct values -/

/-- The list `ws` holds each of the values `vs` once, up to equality, and no others. -/
structure DistinctOf (ws vs : List Value) : Prop where
  distinct : ws.Pairwise fun v w => v.eq w = false
  sound : ∀ w ∈ ws, ∃ v ∈ vs, w.eq v = true
  complete : ∀ v ∈ vs, ∃ w ∈ ws, w.eq v = true

theorem countOf_pos_of_mem {e : Value × Nat} {es : List (Value × Nat)} (he : e ∈ es)
    (hpos : 0 < e.2) : 0 < countOf e.1 es := by
  induction es with
  | nil => cases he
  | cons d es ih =>
    rw [countOf]
    rcases List.mem_cons.1 he with rfl | he
    · rw [if_pos (Value.alike_iff.2 (.inl rfl))]
      omega
    · have := ih he
      omega

theorem exists_alike_of_countOf_pos {u : Value} {es : List (Value × Nat)} (h : 0 < countOf u es) :
    ∃ e ∈ es, e.1.alike u = true := by
  by_contra hnone
  have hzero : countOf u es = 0 := countOf_eq_zero fun e he => by
    rw [Bool.eq_false_iff]
    exact fun halike => hnone ⟨e, he, halike⟩
  omega

/-- **The keys of counted values are the distinct ones** among the values that were counted, if
there is no NaN in these. -/
theorem Counted.distinctOf {es : List (Value × Nat)} {vs : List Value} (hes : Counted es)
    (hvs : ∀ v ∈ vs, v.WellFormed) (hnan : ∀ v ∈ vs, v.NanFree)
    (h : ∀ u : Value, u.WellFormed → countOf u es = occurrences u vs) :
    DistinctOf (es.map Prod.fst) vs where
  distinct := List.pairwise_map.2 hes.distinct
  sound := by
    intro w hw
    obtain ⟨e, he, rfl⟩ := List.mem_map.1 hw
    have hwf := hes.wellFormed e he
    have hpos := countOf_pos_of_mem he (hes.pos e he)
    rw [h e.1 hwf] at hpos
    obtain ⟨v, hv, halike⟩ := occurrences_pos_iff.1 hpos
    rcases Value.alike_iff.1 halike with rfl | heq
    · exact ⟨e.1, hv, (Value.eq_self_iff hwf).2 (hnan _ hv)⟩
    · exact ⟨v, hv, Value.eq_symm (hvs v hv) hwf heq⟩
  complete := by
    intro v hv
    have hpos := occurrences_self_pos hv
    rw [← h v (hvs v hv)] at hpos
    obtain ⟨e, he, halike⟩ := exists_alike_of_countOf_pos hpos
    exact ⟨e.1, List.mem_map_of_mem he, Value.eq_of_alike (hvs v hv) (hnan v hv) halike⟩

end RuleAggregate
