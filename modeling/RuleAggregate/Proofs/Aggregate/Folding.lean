import Mathlib.Data.List.Induction
import RuleAggregate.Proofs.Value.Occurrences

/-!
# Folding values in and taking them back

What the state of a built-in function has to do with the values that it stands for, whatever was
folded in and taken back on the way.  Counts are exact.  Sums are only as good as floating-point
subtraction, and collections keep the values but neither their order nor their representation.

## What is here

* `numbers`, `total`, `bestOf` — the numbers among values, their sum, and the best of them.
* `AggregateFunction.folded` — the state into which values were folded, one after the other.
* `AggregateFunction.Tracks` — **the invariant**: a state stands for the given values.
* `Tracks.accumulate`, `Tracks.reverse` — folding a value in and taking one back keep it.
* `Tracks.failure_accumulate` — whether a value is refused does not depend on the state.
* `AggregateFunction.tracks_folded`, `Tracks.exists_result` — the state into which values were
  folded stands for them, and states that stand for values have results.
-/

set_option autoImplicit false

namespace RuleAggregate

/-! ## Numbers -/

/-- The numbers among the values. -/
def numbers (vs : List Value) : List Float := vs.filterMap Value.number?

/-- The sum of the numbers, added up from the first one on. -/
def total (xs : List Float) : Float := xs.foldl (· + ·) 0.0

theorem numbers_append (vs ws : List Value) :
    numbers (vs ++ ws) = numbers vs ++ numbers ws := List.filterMap_append

theorem numbers_cons_of_some {v : Value} {x : Float} (h : v.number? = some x) (vs : List Value) :
    numbers (v :: vs) = x :: numbers vs := List.filterMap_cons_some h

theorem numbers_cons_of_none {v : Value} (h : v.number? = none) (vs : List Value) :
    numbers (v :: vs) = numbers vs := List.filterMap_cons_none h

theorem total_concat (xs : List Float) (x : Float) : total (xs ++ [x]) = total xs + x := by
  rw [total, List.foldl_append]
  rfl

/-- The best of the numbers among the values: one after the other, each takes the place of the best
one so far if it is the first or compares to it as `keep`; `null` if there are none. -/
def bestOf (keep : Ordering) (vs : List Value) : Value :=
  vs.foldl (fun b v => if v.number?.isSome && (b.isNull || v.compare? b == some keep) then v else b)
    .null

theorem bestOf_concat (keep : Ordering) (vs : List Value) (v : Value) :
    bestOf keep (vs ++ [v]) =
      if v.number?.isSome && ((bestOf keep vs).isNull || v.compare? (bestOf keep vs) == some keep)
      then v else bestOf keep vs := by
  rw [bestOf, List.foldl_append]
  rfl

namespace AggregateFunction

/-- A function on numbers steps with the number in the value, skips the value, or refuses it; which
of these it does depends on the value alone. -/
theorem onNumber_cases (name : String) (v : Value) :
    (∃ x, v.number? = some x ∧ ∀ step s, onNumber name step s v = step s x) ∨
      (v.number? = none ∧ ∀ step s, onNumber name step s v = .success s) ∨
        v.number? = none ∧ ∃ e, ∀ step s, onNumber name step s v = .failed s e := by
  cases v with
  | int n => exact .inl ⟨widen n, rfl, fun _ _ => rfl⟩
  | float x => exact .inl ⟨x, rfl, fun _ _ => rfl⟩
  | null => exact .inr (.inl ⟨rfl, fun _ _ => rfl⟩)
  | _ => exact .inr (.inr ⟨rfl, _, fun _ _ => rfl⟩)

/-- What a step of a function on numbers leaves behind: it stepped with the number in the value, or
there was none and the state is as before. -/
theorem state_onNumber {P : State → Prop} {name : String}
    {step : State → Float → Outcome State FunctionError} {s : State} {v : Value}
    (hstep : ∀ x, v.number? = some x → P (step s x).state) (hnone : v.number? = none → P s) :
    P (onNumber name step s v).state := by
  rcases onNumber_cases name v with ⟨x, hx, h⟩ | ⟨hn, h⟩ | ⟨hn, e, h⟩
  · rw [h]
    exact hstep x hx
  · rw [h]
    exact hnone hn
  · rw [h]
    exact hnone hn

/-! ## States and the values they stand for -/

/-- The state into which the values were folded, one after the other. -/
def folded {σ : Type} (f : AggregateFunction σ) (vs : List Value) : σ :=
  vs.foldl (fun s v => (f.accumulate s v).state) f.init

theorem folded_concat {σ : Type} (f : AggregateFunction σ) (vs : List Value) (v : Value) :
    f.folded (vs ++ [v]) = (f.accumulate (f.folded vs) v).state := by
  rw [folded, List.foldl_append]
  rfl

/-- The state of a built-in function stands for the values: it can be what remains after they and
others were folded in, in any order, and the others were taken back. -/
inductive Tracks : AggregateFunction State → State → List Value → Prop
  | count (vs : List Value) : Tracks count (.tally (Int64.ofNat vs.length)) vs
  | sum (x : Float) (vs : List Value) : Tracks sum (.total x) vs
  | average (x : Float) (vs : List Value) : Tracks average (.mean x (numbers vs).length) vs
  | extremum (name : String) (keep : Ordering) (v : Value) (vs : List Value) :
      Tracks (extremum name keep) (.best v) vs
  | collectList {ws vs : List Value} (hwf : ∀ w ∈ ws, w.WellFormed) (h : SameValues ws vs) :
      Tracks collectList (.items ws) vs
  | collectSet {es : List (Value × Nat)} {vs : List Value} (hes : Counted es)
      (h : ∀ u : Value, u.WellFormed → countOf u es = occurrences u vs) :
      Tracks collectSet (.tallies es) vs

variable {f : AggregateFunction State} {s : State} {vs : List Value}

/-- Folding a value in makes the state stand for one value more.  A value that is refused changes
nothing, but then it is none that the state keeps. -/
theorem Tracks.accumulate (h : Tracks f s vs) {v : Value} (hv : v.WellFormed) :
    Tracks f (f.accumulate s v).state (vs ++ [v]) := by
  cases h with
  | count vs =>
    have hlen : Int64.ofNat vs.length + 1 = Int64.ofNat (vs ++ [v]).length := by
      rw [List.length_append, Int64.ofNat_add]
      rfl
    show Tracks AggregateFunction.count (.tally (Int64.ofNat vs.length + 1)) _
    rw [hlen]
    exact .count _
  | sum x vs =>
    exact state_onNumber (P := fun s => Tracks AggregateFunction.sum s _)
      (fun _ _ => .sum _ _) fun _ => .sum _ _
  | average x vs =>
    refine state_onNumber (P := fun s => Tracks AggregateFunction.average s _)
      (fun y hy => ?_) fun hn => ?_
    · have hlen : (numbers vs).length + 1 = (numbers (vs ++ [v])).length := by
        rw [numbers_append, numbers_cons_of_some hy, List.length_append]
        rfl
      show Tracks AggregateFunction.average (.mean (x + y) ((numbers vs).length + 1)) _
      rw [hlen]
      exact .average _ _
    · have hnum : numbers vs = numbers (vs ++ [v]) := by
        rw [numbers_append, numbers_cons_of_none hn]
        exact (List.append_nil _).symm
      rw [hnum]
      exact .average _ _
  | extremum name keep b vs =>
    exact state_onNumber (P := fun s => Tracks (AggregateFunction.extremum name keep) s _)
      (fun _ _ => .extremum _ _ _ _) fun _ => .extremum _ _ _ _
  | @collectList ws vs hwf h =>
    refine .collectList (fun w hw => ?_) fun u hu => ?_
    · rcases List.mem_append.1 hw with hw | hw
      · exact hwf w hw
      · rw [List.mem_singleton.1 hw]
        exact hv
    · rw [occurrences_concat, occurrences_concat, h u hu]
  | collectSet hes h =>
    refine .collectSet (hes.addOccurrence hv) fun u hu => ?_
    rw [countOf_addOccurrence hv hes, occurrences_concat, h u hu]

/-- Taking a value back leaves a state that stands for the others, wherever the value stood among
them. -/
theorem Tracks.reverse {xs ys : List Value} {v : Value} (h : Tracks f s (xs ++ v :: ys))
    (hv : v.WellFormed) (hok : (f.reverse s v).failure = none) :
    Tracks f (f.reverse s v).state (xs ++ ys) := by
  generalize hvs : xs ++ v :: ys = vs at h
  cases h with
  | count vs =>
    have hlen : Int64.ofNat vs.length - 1 = Int64.ofNat (xs ++ ys).length := by
      rw [← hvs, List.length_append, List.length_cons, ← Nat.add_assoc, ← List.length_append,
        Int64.ofNat_add]
      exact Int64.add_sub_cancel _ _
    show Tracks AggregateFunction.count (.tally (Int64.ofNat vs.length - 1)) _
    rw [hlen]
    exact .count _
  | sum x vs =>
    exact state_onNumber (P := fun s => Tracks AggregateFunction.sum s _)
      (fun _ _ => .sum _ _) fun _ => .sum _ _
  | average x vs =>
    refine state_onNumber (P := fun s => Tracks AggregateFunction.average s _)
      (fun y hy => ?_) fun hn => ?_
    · have hlen : (numbers vs).length - 1 = (numbers (xs ++ ys)).length := by
        rw [← hvs, numbers_append, numbers_cons_of_some hy, List.length_append, List.length_cons,
          numbers_append, List.length_append]
        rfl
      show Tracks AggregateFunction.average (.mean (x - y) ((numbers vs).length - 1)) _
      rw [hlen]
      exact .average _ _
    · have hnum : numbers vs = numbers (xs ++ ys) := by
        rw [← hvs, numbers_append, numbers_cons_of_none hn, numbers_append]
      rw [hnum]
      exact .average _ _
  | extremum name keep b vs => exact absurd hok (Option.some_ne_none _)
  | @collectList ws vs hwf h =>
    simp only [AggregateFunction.collectList] at hok ⊢
    split at hok
    · next hany =>
      rw [if_pos hany]
      refine .collectList (fun w hw => hwf w (List.mem_of_mem_eraseP hw)) fun u hu => ?_
      have hcount := h u hu
      rw [← hvs, occurrences_middle, occurrences_eraseP hv hwf hany] at hcount
      exact Nat.add_right_cancel hcount
    · exact absurd hok (Option.some_ne_none _)
  | @collectSet es vs hes h =>
    simp only [AggregateFunction.collectSet] at hok ⊢
    cases hr : removeOccurrence? v es with
    | none =>
      rw [hr] at hok
      exact absurd hok (Option.some_ne_none _)
    | some ds =>
      refine .collectSet (hes.removeOccurrence? hr) fun u hu => ?_
      have hcount := h u hu
      rw [← hvs, occurrences_middle, countOf_removeOccurrence? hv hes hr] at hcount
      exact Nat.add_right_cancel hcount

/-- Whether a value is refused does not depend on what was folded in before. -/
theorem Tracks.failure_accumulate (h : Tracks f s vs) (v : Value) :
    (f.accumulate s v).failure = (f.accumulate f.init v).failure := by
  have hnumber : ∀ {name : String} {step : State → Float → Outcome State FunctionError}
      {s t : State}, (∀ x, (step s x).failure = (step t x).failure) →
      (onNumber name step s v).failure = (onNumber name step t v).failure := by
    intro name step s t hst
    rcases onNumber_cases name v with ⟨x, -, h⟩ | ⟨-, h⟩ | ⟨-, e, h⟩
    · rw [h, h]
      exact hst x
    · rw [h, h]
      rfl
    · rw [h, h]
      rfl
  cases h with
  | count | collectList | collectSet => rfl
  | sum | average => exact hnumber fun _ => rfl
  | extremum name keep b vs => exact hnumber fun _ => rfl

/-! ## Folded states -/

theorem folded_count (vs : List Value) : count.folded vs = .tally (Int64.ofNat vs.length) := by
  induction vs using List.reverseRecOn with
  | nil => rfl
  | append_singleton vs v ih =>
    rw [folded_concat, ih, List.length_append, Int64.ofNat_add]
    rfl

theorem folded_sum (vs : List Value) : sum.folded vs = .total (total (numbers vs)) := by
  induction vs using List.reverseRecOn with
  | nil => rfl
  | append_singleton vs v ih =>
    rw [folded_concat, ih, numbers_append]
    refine state_onNumber (P := fun s => s = _) (fun x hx => ?_) fun hn => ?_
    · rw [numbers_cons_of_some hx]
      exact congrArg State.total (total_concat _ x).symm
    · rw [numbers_cons_of_none hn]
      exact congrArg (fun xs => State.total (total xs)) (List.append_nil _).symm

theorem folded_average (vs : List Value) :
    average.folded vs = .mean (total (numbers vs)) (numbers vs).length := by
  induction vs using List.reverseRecOn with
  | nil => rfl
  | append_singleton vs v ih =>
    rw [folded_concat, ih, numbers_append]
    refine state_onNumber (P := fun s => s = _) (fun x hx => ?_) fun hn => ?_
    · rw [numbers_cons_of_some hx, List.length_append]
      exact congrArg (State.mean · _) (total_concat _ x).symm
    · rw [numbers_cons_of_none hn]
      exact congrArg (fun xs => State.mean (total xs) xs.length) (List.append_nil _).symm

theorem folded_extremum (name : String) (keep : Ordering) (vs : List Value) :
    (extremum name keep).folded vs = .best (bestOf keep vs) := by
  induction vs using List.reverseRecOn with
  | nil => rfl
  | append_singleton vs v ih =>
    rw [folded_concat, ih, bestOf_concat]
    refine state_onNumber (P := fun s => s = _) (fun x hx => ?_) fun hn => ?_
    · rw [hx]
      rfl
    · rw [hn]
      rfl

theorem folded_collectList (vs : List Value) : collectList.folded vs = .items vs := by
  induction vs using List.reverseRecOn with
  | nil => rfl
  | append_singleton vs v ih =>
    rw [folded_concat, ih]
    rfl

theorem folded_collectSet {vs : List Value} (hvs : ∀ v ∈ vs, v.WellFormed) :
    ∃ es, collectSet.folded vs = .tallies es ∧ Counted es ∧
      ∀ u : Value, u.WellFormed → countOf u es = occurrences u vs := by
  induction vs using List.reverseRecOn with
  | nil => exact ⟨[], rfl, counted_nil, fun _ _ => rfl⟩
  | append_singleton vs v ih =>
    rw [List.forall_mem_append, List.forall_mem_singleton] at hvs
    obtain ⟨es, hes, hc, hcount⟩ := ih hvs.1
    refine ⟨addOccurrence v es, by rw [folded_concat, hes]; rfl, hc.addOccurrence hvs.2, ?_⟩
    intro u hu
    rw [countOf_addOccurrence hvs.2 hc, occurrences_concat, hcount u hu]

/-- The state into which the values were folded stands for them. -/
theorem tracks_folded (hf : f ∈ builtins) (hvs : ∀ v ∈ vs, v.WellFormed) :
    Tracks f (f.folded vs) vs := by
  simp only [builtins, List.mem_cons, List.not_mem_nil, or_false] at hf
  rcases hf with rfl | rfl | rfl | rfl | rfl | rfl | rfl
  · rw [folded_count]
    exact .count vs
  · rw [folded_sum]
    exact .sum _ vs
  · rw [folded_average]
    exact .average _ vs
  · rw [AggregateFunction.min, folded_extremum]
    exact .extremum _ _ _ vs
  · rw [AggregateFunction.max, folded_extremum]
    exact .extremum _ _ _ vs
  · rw [folded_collectList]
    exact .collectList hvs (.refl vs)
  · obtain ⟨es, hes, hc, hcount⟩ := folded_collectSet hvs
    rw [hes]
    exact .collectSet hc hcount

/-! ## Results -/

theorem Tracks.exists_result (h : Tracks f s vs) : ∃ v, f.result s = .ok v := by
  cases h <;> exact ⟨_, rfl⟩

end AggregateFunction
end RuleAggregate
