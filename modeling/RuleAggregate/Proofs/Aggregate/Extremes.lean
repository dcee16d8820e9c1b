import RuleAggregate.Proofs.Aggregate.Folding
import RuleAggregate.Proofs.Value.Comparison
import RuleAggregate.Proofs.Value.NanFree

/-!
# The smallest and the largest number

What is folded in is compared only with the best number so far, and not with those that were given
up before.  None of these is better than the one that is kept in the end, because what is less than
less is less, though numbers that are equal to a third one need not be equal.

## What is here

* `Value.IsNumeric` — what functions on numbers take.
* `AggregateFunction.Extreme` — **the invariant**: the best number among the values.
* `Extreme.concat` — folding a value in keeps it.
* `AggregateFunction.extremum_unbeaten` — **the result is the best of the values.**
-/

set_option autoImplicit false

namespace RuleAggregate

/-- The value is a number, or `null`, which functions on numbers skip. -/
def Value.IsNumeric (v : Value) : Prop := v = .null ∨ ∃ x, v.number? = some x

namespace Value

theorem number?_ne_null {v : Value} {x : Float} (h : v.number? = some x) : v ≠ .null := by
  rintro rfl
  cases h

theorem isNull_eq_false {v : Value} (h : v ≠ .null) : v.isNull = false := by
  cases v with
  | null => exact absurd rfl h
  | _ => rfl

theorem compare?_null (v : Value) : v.compare? null = none := by
  cases v <;> rfl

theorem null_compare? (v : Value) : null.compare? v = none := by
  cases v <;> rfl

end Value

namespace AggregateFunction

/-! ## The best value so far -/

/-- The value `b` is the best of the values: it is one of them and none of them beats it, or there
is no number among them and it is `null`. -/
structure Extreme (keep : Ordering) (vs : List Value) (b : Value) : Prop where
  null_iff : b = .null ↔ ∀ v ∈ vs, v = .null
  mem : b ≠ .null → b ∈ vs
  unbeaten : ∀ v ∈ vs, v.compare? b ≠ some keep

variable {keep : Ordering} {vs : List Value} {b v : Value}

theorem Extreme.nil : Extreme keep [] .null :=
  ⟨iff_of_true rfl nofun, fun h => absurd rfl h, nofun⟩

/-- A `null` is skipped. -/
theorem Extreme.concat_null (h : Extreme keep vs b) : Extreme keep (vs ++ [.null]) b where
  null_iff := by
    rw [h.null_iff, List.forall_mem_append, List.forall_mem_singleton]
    exact (and_iff_left rfl).symm
  mem hb := List.mem_append_left _ (h.mem hb)
  unbeaten := by
    rw [List.forall_mem_append, List.forall_mem_singleton, Value.null_compare?]
    exact ⟨h.unbeaten, nofun⟩

/-- A number that does not beat the best one is given up. -/
theorem Extreme.concat_worse (h : Extreme keep vs b) (hb : b ≠ .null)
    (hv : v.compare? b ≠ some keep) : Extreme keep (vs ++ [v]) b where
  null_iff := by
    refine iff_of_false hb fun hall => hb (h.null_iff.2 fun w hw => ?_)
    exact hall w (List.mem_append_left _ hw)
  mem _ := List.mem_append_left _ (h.mem hb)
  unbeaten := by
    rw [List.forall_mem_append, List.forall_mem_singleton]
    exact ⟨h.unbeaten, hv⟩

/-- A number that beats the best one, or is the first one, is the best one from now on. -/
theorem Extreme.concat_better {x : Float} (hkeep : keep ≠ .eq) (hvs : ∀ v ∈ vs, v.IsNumeric)
    (h : Extreme keep vs b) (hv : v.number? = some x)
    (hbetter : b = .null ∨ v.compare? b = some keep) : Extreme keep (vs ++ [v]) v where
  null_iff := by
    refine iff_of_false (Value.number?_ne_null hv) fun hall => Value.number?_ne_null hv ?_
    exact hall v (List.mem_append_right _ (List.mem_singleton_self v))
  mem _ := List.mem_append_right _ (List.mem_singleton_self v)
  unbeaten := by
    rw [List.forall_mem_append, List.forall_mem_singleton]
    refine ⟨fun w hw hwv => ?_, Value.compare?_self_ne v hkeep⟩
    rcases hvs w hw with rfl | ⟨y, hy⟩
    · rw [Value.null_compare?] at hwv
      cases hwv
    rcases hbetter with rfl | hvb
    · exact Value.number?_ne_null hy (h.null_iff.1 rfl w hw)
    -- what beats the new number beats the one that it replaces
    · rcases hvs b (h.mem fun hb => by rw [hb, Value.compare?_null] at hvb; cases hvb) with
        rfl | ⟨z, hz⟩
      · rw [Value.compare?_null] at hvb
        cases hvb
      · exact h.unbeaten w hw (Value.compare?_trans hkeep hy hv hz hwv hvb)

/-! ## Folding values in -/

/-- What folding a number in does: it becomes the best value if it beats it or is the first one. -/
theorem accumulate_number (name : String) {x : Float} (hx : v.number? = some x) :
    (extremum name keep).accumulate (.best b) v =
      .success (.best (if b.isNull || v.compare? b == some keep then v else b)) := by
  have hnumeric : numeric name v = .ok (some x) := by
    rw [numeric, Value.isNull_eq_false (Value.number?_ne_null hx), if_neg Bool.false_ne_true, hx]
  simp only [extremum, onNumber, hnumeric]

/-- **Folding a number or `null` in succeeds and keeps the best value.** -/
theorem Extreme.accumulate (name : String) (hkeep : keep ≠ .eq) (hvs : ∀ v ∈ vs, v.IsNumeric)
    (h : Extreme keep vs b) (hv : v.IsNumeric) :
    ∃ b', (extremum name keep).accumulate (.best b) v = .success (.best b') ∧
      Extreme keep (vs ++ [v]) b' := by
  rcases hv with rfl | ⟨x, hx⟩
  · exact ⟨b, rfl, h.concat_null⟩
  refine ⟨_, accumulate_number name hx, ?_⟩
  by_cases hb : b = .null
  · subst hb
    exact h.concat_better hkeep hvs hx (.inl rfl)
  · rw [Value.isNull_eq_false hb, Bool.false_or]
    split
    · next hbetter => exact h.concat_better hkeep hvs hx (.inr (beq_iff_eq.1 hbetter))
    · next hworse => exact h.concat_worse hb fun heq => hworse (beq_iff_eq.2 heq)

/-- Folding numbers in leaves the best of them. -/
theorem exists_extreme (name : String) (hkeep : keep ≠ .eq) (hvs : ∀ v ∈ vs, v.IsNumeric) :
    ∃ b, Outcome.run (extremum name keep).accumulate (extremum name keep).init vs =
      .success (.best b) ∧ Extreme keep vs b := by
  induction vs using List.reverseRecOn with
  | nil => exact ⟨.null, rfl, .nil⟩
  | append_singleton vs v ih =>
    rw [List.forall_mem_append, List.forall_mem_singleton] at hvs
    obtain ⟨b, hrun, hb⟩ := ih hvs.1
    obtain ⟨b', haccumulate, hb'⟩ := hb.accumulate name hkeep hvs.1 hvs.2
    refine ⟨b', ?_, hb'⟩
    rw [Outcome.run_append, hrun, Outcome.andThen_success, Outcome.run_cons, haccumulate]
    rfl

/-- **The smallest and the largest of the values.**  Folding in numbers, `null` among them, never
fails.  The result is `null` if there is no number, and else one of the values, as it was written.
None of the values is less than the smallest one or greater than the largest one; if there is no NaN
among them, this is because each of the numbers is equal to it or on the other side of it. -/
theorem extremum_unbeaten {f : AggregateFunction State} {keep : Ordering} {vs : List Value}
    (hf : f = min ∧ keep = .lt ∨ f = max ∧ keep = .gt) (hvs : ∀ v ∈ vs, v.IsNumeric) :
    ∃ b s, Outcome.run f.accumulate f.init vs = .success s ∧ f.result s = .ok b ∧
      (b = .null ↔ ∀ v ∈ vs, v = .null) ∧ (b ≠ .null → b ∈ vs) ∧
      (∀ v ∈ vs, v.compare? b ≠ some keep) ∧
      ((∀ v ∈ vs, v.NanFree) → ∀ v ∈ vs, v ≠ .null →
        v.compare? b = some .eq ∨ v.compare? b = some keep.swap) := by
  obtain ⟨name, rfl, hkeep⟩ : ∃ name, f = extremum name keep ∧ keep ≠ .eq := by
    rcases hf with ⟨rfl, rfl⟩ | ⟨rfl, rfl⟩
    · exact ⟨"min", rfl, nofun⟩
    · exact ⟨"max", rfl, nofun⟩
  obtain ⟨b, hrun, hb⟩ := exists_extreme name hkeep hvs
  refine ⟨b, .best b, hrun, rfl, hb.null_iff, hb.mem, hb.unbeaten, fun hnan v hv hne => ?_⟩
  have hbne : b ≠ .null := fun h => hne (hb.null_iff.1 h v hv)
  obtain ⟨x, hx⟩ := (hvs v hv).resolve_left hne
  obtain ⟨y, hy⟩ := (hvs b (hb.mem hbne)).resolve_left hbne
  obtain ⟨o, ho⟩ := Value.exists_compare? hx hy (hnan v hv) (hnan b (hb.mem hbne))
  have hunbeaten := hb.unbeaten v hv
  rw [ho] at hunbeaten ⊢
  cases o <;> cases keep <;> simp_all

/-- Of two integers that are rounded to the same number, and this number, the smallest is the
smaller integer, though neither of them is less than the number. -/
theorem extremum_unbeaten_of_rounded :
    let vs : List Value :=
      [.null, .int 9007199254740993, .float 9007199254740992.0, .null, .int 9007199254740992]
    (∀ v ∈ vs, v.IsNumeric) ∧ (∀ v ∈ vs, v.NanFree) ∧
      Outcome.run min.accumulate min.init vs = .success (.best (.int 9007199254740992)) ∧
      (Value.int 9007199254740993).compare? (.float 9007199254740992.0) = some .eq ∧
      ∀ v ∈ vs, v ≠ .null → v.compare? (.int 9007199254740992) = some .eq ∨
        v.compare? (.int 9007199254740992) = some .gt := by
  intro vs
  have hvs : ∀ v ∈ vs, v.IsNumeric := by
    simp [vs, Value.IsNumeric, Value.number?]
  have hnan : ∀ v ∈ vs, v.NanFree := by
    have hfloat : (Value.float 9007199254740992.0).NanFree :=
      (Value.float_eq_self_iff _).1 (by decide +kernel)
    simp only [vs, List.forall_mem_cons]
    exact ⟨trivial, trivial, hfloat, trivial, trivial, nofun⟩
  have hrun : Outcome.run min.accumulate min.init vs =
      .success (.best (.int 9007199254740992)) := by rfl
  obtain ⟨b, s, hrun', hb, -, -, -, hcompare⟩ := extremum_unbeaten (.inl ⟨rfl, rfl⟩) hvs
  rw [hrun] at hrun'
  cases hrun'
  cases hb
  exact ⟨hvs, hnan, hrun, by decide +kernel, hcompare hnan⟩

end AggregateFunction
end RuleAggregate
