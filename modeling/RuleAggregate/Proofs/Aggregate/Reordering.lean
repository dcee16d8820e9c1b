import Mathlib.Data.List.Perm.Basic
import RuleAggregate.Proofs.Aggregate.Extremes

/-!
# Extreme values in another order

The best number is known by what it is compared with, and not by where it stands: two numbers none
of which beats the other are equal.  NaN is the exception.  It is compared with nothing, so it
neither beats the number before it nor is it beaten by the one after it.  As the first number it is
kept to the end; anywhere else it is given up at once.

## What is here

* `StartsWithNaN` — the first number of a list is NaN.
* `isNaN_best_iff` — **the result is NaN exactly if the first number is.**
* `Extreme.compare?_ne` — of two best numbers of the same values neither beats the other.
* `AggregateFunction.extremum_reordered_iff` — **when the order of the values does not matter.**
-/

set_option autoImplicit false

namespace RuleAggregate

namespace Value

/-- The number is NaN. -/
def IsNaN (v : Value) : Prop := ∃ x, v = .float x ∧ x.isNaN = true

/-- Numbers are free of NaN if they are no NaN themselves. -/
theorem nanFree_of_not_isNaN {v : Value} {x : Float} (hv : v.number? = some x) (h : ¬ v.IsNaN) :
    v.NanFree := by
  cases v with
  | int n => trivial
  | float y => exact Bool.eq_false_iff.2 fun hy => h ⟨y, rfl, hy⟩
  | _ => cases hv

/-- NaN has no order. -/
theorem IsNaN.compare?_eq_none {v w : Value} (h : v.IsNaN) : v.compare? w = none := by
  obtain ⟨x, rfl, hx⟩ := h
  cases w with
  | int n => exact compareFloat?_of_isNaN (.inl hx)
  | float y => exact compareFloat?_of_isNaN (.inl hx)
  | _ => rfl

theorem compare?_eq_none_of_isNaN {v w : Value} (h : w.IsNaN) : v.compare? w = none := by
  rw [compare?_swap w v, h.compare?_eq_none]
  rfl

theorem not_isNaN_null : ¬ null.IsNaN := nofun

theorem not_isNaN_int (n : Int64) : ¬ (int n).IsNaN := nofun

theorem isNaN_float_iff (x : Float) : (float x).IsNaN ↔ x.isNaN = true := by
  simp only [IsNaN, float.injEq, exists_eq_left']

end Value

namespace AggregateFunction

/-! ## NaN at the front -/

/-- The first number in the list is NaN. -/
def StartsWithNaN (vs : List Value) : Prop :=
  ∃ v, vs.find? (fun v => !v.isNull) = some v ∧ v.IsNaN

variable {keep : Ordering} {vs ws : List Value} {b b' v : Value}

theorem find?_isNull_eq_none_iff :
    vs.find? (fun v => !v.isNull) = none ↔ ∀ v ∈ vs, v = .null := by
  rw [List.find?_eq_none]
  refine forall₂_congr fun v _ => ?_
  cases v <;> simp [Value.isNull]

theorem not_startsWithNaN_of_null (h : ∀ v ∈ vs, v = .null) : ¬ StartsWithNaN vs := by
  rintro ⟨v, hv, -⟩
  rw [find?_isNull_eq_none_iff.2 h] at hv
  cases hv

theorem not_startsWithNaN_of_nanFree (h : ∀ v ∈ vs, v.NanFree) : ¬ StartsWithNaN vs := by
  rintro ⟨v, hv, x, rfl, hx⟩
  exact Bool.false_ne_true ((h _ (List.mem_of_find?_eq_some hv)).symm.trans hx)

/-- What follows a number does not change which number is the first. -/
theorem startsWithNaN_append_iff (h : ¬ ∀ v ∈ vs, v = .null) :
    StartsWithNaN (vs ++ ws) ↔ StartsWithNaN vs := by
  obtain ⟨w, hw⟩ := Option.ne_none_iff_exists'.1 (mt find?_isNull_eq_none_iff.1 h)
  rw [StartsWithNaN, StartsWithNaN, List.find?_append, hw]
  rfl

theorem startsWithNaN_concat_iff (h : ∀ v ∈ vs, v = .null) (hv : v ≠ .null) :
    StartsWithNaN (vs ++ [v]) ↔ v.IsNaN := by
  have hfind : (vs ++ [v]).find? (fun v => !v.isNull) = some v := by
    rw [List.find?_append, find?_isNull_eq_none_iff.2 h, Option.none_or, List.find?_singleton,
      Value.isNull_eq_false hv]
    rfl
  simp only [StartsWithNaN, hfind, Option.some_inj, exists_eq_left']

/-- **The result is NaN exactly if the first number is.**  NaN is beaten by nothing once it has been
taken, and it is only taken if there is nothing to be compared with. -/
theorem isNaN_best_iff (name : String) (hkeep : keep ≠ .eq) (hvs : ∀ v ∈ vs, v.IsNumeric)
    (hrun : Outcome.run (extremum name keep).accumulate (extremum name keep).init vs =
      .success (.best b)) : b.IsNaN ↔ StartsWithNaN vs := by
  induction vs using List.reverseRecOn generalizing b with
  | nil =>
    cases hrun
    exact iff_of_false Value.not_isNaN_null (not_startsWithNaN_of_null nofun)
  | append_singleton vs v ih =>
    rw [List.forall_mem_append, List.forall_mem_singleton] at hvs
    obtain ⟨a, ha, hbest⟩ := exists_extreme name hkeep hvs.1
    have hstep : (extremum name keep).accumulate (.best a) v = .success (.best b) := by
      rw [Outcome.run_append, ha, Outcome.andThen_success, Outcome.run_cons_eq_success_iff] at hrun
      obtain ⟨s, hs, hend⟩ := hrun
      cases hend
      exact hs
    have hstart := ih hvs.1 ha
    rcases hvs.2 with rfl | ⟨x, hx⟩
    · -- a `null` is skipped, and is no first number
      cases hstep
      rw [hstart]
      by_cases hnull : ∀ v ∈ vs, v = .null
      · refine iff_of_false (not_startsWithNaN_of_null hnull) (not_startsWithNaN_of_null ?_)
        exact List.forall_mem_append.2 ⟨hnull, List.forall_mem_singleton.2 rfl⟩
      · exact (startsWithNaN_append_iff hnull).symm
    · rw [accumulate_number name hx] at hstep
      cases hstep
      by_cases ha : a = .null
      · rw [startsWithNaN_concat_iff (hbest.null_iff.1 ha) (Value.number?_ne_null hx), ha]
        rfl
      · rw [startsWithNaN_append_iff (mt hbest.null_iff.2 ha), ← hstart, Value.isNull_eq_false ha,
          Bool.false_or]
        split
        · next hbeats =>
          -- the two were compared, so neither of them is NaN
          have hcompare := beq_iff_eq.1 hbeats
          refine iff_of_false (fun hv => ?_) (fun ha => ?_)
          · rw [hv.compare?_eq_none] at hcompare
            cases hcompare
          · rw [Value.compare?_eq_none_of_isNaN ha] at hcompare
            cases hcompare
        · rfl

/-! ## The same values in another order -/

/-- The results are both `null`, equal to each other, or both NaN. -/
def Agree (b b' : Value) : Prop :=
  b = .null ∧ b' = .null ∨ b.compare? b' = some .eq ∨ b.IsNaN ∧ b'.IsNaN

/-- Of two best values of the same values neither beats the other. -/
theorem Extreme.compare?_ne (h : Extreme keep vs b) (h' : Extreme keep ws b') (hperm : vs.Perm ws)
    (hb : b ≠ .null) (hb' : b' ≠ .null) :
    b.compare? b' ≠ some keep ∧ b.compare? b' ≠ some keep.swap := by
  refine ⟨h'.unbeaten b (hperm.mem_iff.1 (h.mem hb)), fun hswap => ?_⟩
  refine h.unbeaten b' (hperm.mem_iff.2 (h'.mem hb')) ?_
  rw [Value.compare?_swap b b', hswap, Option.map_some, Ordering.swap_swap]

/-- **The best values of the same values are equal**, if none of them is NaN. -/
theorem Extreme.compare?_eq (hkeep : keep ≠ .eq) (hvs : ∀ v ∈ vs, v.IsNumeric)
    (h : Extreme keep vs b) (h' : Extreme keep ws b') (hperm : vs.Perm ws) (hb : b ≠ .null)
    (hb' : b' ≠ .null) (hnan : ¬ b.IsNaN) (hnan' : ¬ b'.IsNaN) : b.compare? b' = some .eq := by
  obtain ⟨x, hx⟩ := (hvs b (h.mem hb)).resolve_left hb
  obtain ⟨y, hy⟩ := (hvs b' (hperm.mem_iff.2 (h'.mem hb'))).resolve_left hb'
  obtain ⟨o, ho⟩ := Value.exists_compare? hx hy (Value.nanFree_of_not_isNaN hx hnan)
    (Value.nanFree_of_not_isNaN hy hnan')
  have hne := h.compare?_ne h' hperm hb hb'
  rw [ho] at hne ⊢
  cases o <;> cases keep <;> simp_all

/-- Best values of the same values agree exactly if both of them are NaN or none is. -/
theorem Extreme.agree_iff (hkeep : keep ≠ .eq) (hvs : ∀ v ∈ vs, v.IsNumeric)
    (h : Extreme keep vs b) (h' : Extreme keep ws b') (hperm : vs.Perm ws) :
    Agree b b' ↔ (b.IsNaN ↔ b'.IsNaN) := by
  have hnull : b = .null ↔ b' = .null := by
    rw [h.null_iff, h'.null_iff]
    exact forall_congr' fun v => by rw [hperm.mem_iff]
  by_cases hb : b = .null
  · have hb' := hnull.1 hb
    refine iff_of_true (.inl ⟨hb, hb'⟩) ?_
    rw [hb, hb']
  have hb' := mt hnull.2 hb
  by_cases hnan : b.IsNaN
  · rw [Agree, hnan.compare?_eq_none]
    simp [hb, hnan]
  by_cases hnan' : b'.IsNaN
  · rw [Agree, Value.compare?_eq_none_of_isNaN hnan']
    simp [hb, hnan, hnan']
  · exact iff_of_true (.inr (.inl (h.compare?_eq hkeep hvs h' hperm hb hb' hnan hnan')))
      (iff_of_false hnan hnan')

/-- **When the order of the values does not matter.**  Folding the same numbers in, `null` among
them, in two orders never fails.  The two results are both `null`, equal to each other or both NaN
exactly if NaN is the first number in both orders or in neither; so they are if there is no NaN. -/
theorem extremum_reordered_iff {f : AggregateFunction State} {vs ws : List Value}
    (hf : f = min ∨ f = max) (hvs : ∀ v ∈ vs, v.IsNumeric) (hperm : vs.Perm ws) :
    ∃ b b' s s', Outcome.run f.accumulate f.init vs = .success s ∧ f.result s = .ok b ∧
      Outcome.run f.accumulate f.init ws = .success s' ∧ f.result s' = .ok b' ∧
      (b.IsNaN ↔ StartsWithNaN vs) ∧ (b'.IsNaN ↔ StartsWithNaN ws) ∧
      (Agree b b' ↔ (StartsWithNaN vs ↔ StartsWithNaN ws)) ∧
      ((∀ v ∈ vs, v.NanFree) → Agree b b') := by
  obtain ⟨name, keep, rfl, hkeep⟩ : ∃ name keep, f = extremum name keep ∧ keep ≠ .eq := by
    rcases hf with rfl | rfl
    · exact ⟨"min", .lt, rfl, nofun⟩
    · exact ⟨"max", .gt, rfl, nofun⟩
  have hws : ∀ v ∈ ws, v.IsNumeric := fun v hv => hvs v (hperm.mem_iff.2 hv)
  obtain ⟨b, hrun, hb⟩ := exists_extreme name hkeep hvs
  obtain ⟨b', hrun', hb'⟩ := exists_extreme name hkeep hws
  have hstart := isNaN_best_iff name hkeep hvs hrun
  have hstart' := isNaN_best_iff name hkeep hws hrun'
  have hagree := hb.agree_iff hkeep hvs hb' hperm
  rw [hstart, hstart'] at hagree
  refine ⟨b, b', .best b, .best b', hrun, rfl, hrun', rfl, hstart, hstart', hagree, fun hnan => ?_⟩
  exact hagree.2 (iff_of_false (not_startsWithNaN_of_nanFree hnan)
    (not_startsWithNaN_of_nanFree fun v hv => hnan v (hperm.mem_iff.2 hv)))

/-- An integer and the number that it is rounded to, with NaN between them: the smallest one is
whichever comes first, and the two are equal. -/
theorem extremum_reordered_iff_of_rounded :
    let vs : List Value :=
      [.null, .int 9007199254740993, .float (0.0 / 0.0), .float 9007199254740992.0]
    (min = min ∨ min = max) ∧ (∀ v ∈ vs, v.IsNumeric) ∧ vs.Perm vs.reverse ∧
      ¬ StartsWithNaN vs ∧ ¬ StartsWithNaN vs.reverse ∧
      Outcome.run min.accumulate min.init vs = .success (.best (.int 9007199254740993)) ∧
      Outcome.run min.accumulate min.init vs.reverse =
        .success (.best (.float 9007199254740992.0)) ∧
      Agree (.int 9007199254740993) (.float 9007199254740992.0) := by
  intro vs
  have hvs : ∀ v ∈ vs, v.IsNumeric := by
    simp [vs, Value.IsNumeric, Value.number?]
  have hperm : vs.Perm vs.reverse := (List.reverse_perm vs).symm
  have hrun : Outcome.run min.accumulate min.init vs =
      .success (.best (.int 9007199254740993)) := by rfl
  have hrun' : Outcome.run min.accumulate min.init vs.reverse =
      .success (.best (.float 9007199254740992.0)) := by rfl
  obtain ⟨b, b', s, s', hs, hb, hs', hb', hstart, hstart', hagree, -⟩ :=
    extremum_reordered_iff (.inl rfl) hvs hperm
  rw [hrun] at hs
  rw [hrun'] at hs'
  cases hs
  cases hs'
  cases hb
  cases hb'
  have hnot : ¬ StartsWithNaN vs := mt hstart.2 (Value.not_isNaN_int _)
  have hnot' : ¬ StartsWithNaN vs.reverse := by
    rw [← hstart', Value.isNaN_float_iff]
    decide +kernel
  exact ⟨.inl rfl, hvs, hperm, hnot, hnot', hrun, hrun', hagree.2 (iff_of_false hnot hnot')⟩

/-- **The order of the values does matter.**  NaN is the smallest of two values if it comes first,
and else the other one is. -/
theorem min_depends_on_order :
    let vs : List Value := [.float (0.0 / 0.0), .int 1]
    let ws : List Value := [.int 1, .float (0.0 / 0.0)]
    (∀ v ∈ vs, v.IsNumeric) ∧ vs.Perm ws ∧
      Outcome.run min.accumulate min.init vs = .success (.best (.float (0.0 / 0.0))) ∧
      Outcome.run min.accumulate min.init ws = .success (.best (.int 1)) ∧
      ¬ Agree (.float (0.0 / 0.0)) (.int 1) := by
  refine ⟨by simp [Value.IsNumeric, Value.number?], .swap _ _ _, by rfl, by rfl, ?_⟩
  have hcompare : (Value.float (0.0 / 0.0)).compare? (.int 1) = none := by decide +kernel
  rintro (⟨hnull, -⟩ | heq | ⟨-, hint⟩)
  · cases hnull
  · rw [hcompare] at heq
    cases heq
  · exact Value.not_isNaN_int 1 hint

end AggregateFunction
end RuleAggregate
