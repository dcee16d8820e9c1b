import RuleAggregate.Proofs.Aggregate.Collecting
import RuleAggregate.Proofs.Aggregate.Folding

/-!
# What results are made of

The result over values that were folded in one after the other can be told without states: it is
how many they are, their sum or mean, the best of them, or they themselves.  Where values were also
taken back in place, the result is made of all that was done: a sum is what the additions and
subtractions come to, and from a list the first value was removed that equals the one to be taken
back, whichever of several equal ones that is.

## What is here

* `mean`, `distinct` — the mean of numbers, and values without repetition.
* `AggregateFunction.Answers` — **the result over values**, and `AggregateFunction.answers_folded`.
* `runningTotal`, `listAfter`, `keysAfter` — what uses come to, one after the other.
* `AggregateFunction.AnswersInPlace` — **the result after uses**, and `Tracks.answersInPlace`.
-/

set_option autoImplicit false

namespace RuleAggregate

/-! ## Means, and values without repetition -/

/-- The mean of numbers of which the sum and the count are known; zero if there are none. -/
def mean (total : Float) (count : Nat) : Float :=
  if count = 0 then 0.0 else total / (UInt64.ofNat count).toFloat

/-- The values without those that an earlier one equals, in the order of their first occurrences. -/
def distinct (vs : List Value) : List Value :=
  vs.foldl (fun ws v => if ws.any (·.eq v) then ws else ws ++ [v]) []

theorem distinct_concat (vs : List Value) (v : Value) :
    distinct (vs ++ [v]) =
      if (distinct vs).any (·.eq v) then distinct vs else distinct vs ++ [v] := by
  rw [distinct, List.foldl_append]
  rfl

/-- Counting a value adds a key if no key equals it. -/
theorem keys_addOccurrence (v : Value) (es : List (Value × Nat)) :
    (addOccurrence v es).map Prod.fst =
      if (es.map Prod.fst).any (·.eq v) then es.map Prod.fst else es.map Prod.fst ++ [v] := by
  induction es with
  | nil => rfl
  | cons e es ih =>
    obtain ⟨w, n⟩ := e
    rw [addOccurrence, List.map_cons, List.any_cons]
    cases hw : w.eq v with
    | true => rfl
    | false =>
      rw [if_neg Bool.false_ne_true, List.map_cons, ih, Bool.false_or]
      split <;> rfl

/-! ## What uses come to -/

namespace Use

/-- What a use does to a sum: a number that is folded in is added, and one that is taken back is
subtracted. -/
def onTotal (t : Float) : Use → Float
  | add v => v.number?.elim t (t + ·)
  | takeBack v => v.number?.elim t (t - ·)

/-- What a use does to a list: a value that is folded in goes to the end, and for one that is taken
back the first one that equals it is removed. -/
def onList (vs : List Value) : Use → List Value
  | add v => vs ++ [v]
  | takeBack v => vs.eraseP (·.eq v)

/-- What a use does to counted values. -/
def onTallies (es : List (Value × Nat)) : Use → List (Value × Nat)
  | add v => addOccurrence v es
  | takeBack v => (removeOccurrence? v es).getD es

end Use

/-- What the additions and subtractions come to, one after the other and from zero on. -/
def runningTotal (us : List Use) : Float := us.foldl Use.onTotal 0.0

/-- The list that the uses leave. -/
def listAfter (us : List Use) : List Value := us.foldl Use.onList []

/-- The distinct values that the uses leave. -/
def keysAfter (us : List Use) : List Value := (us.foldl Use.onTallies []).map Prod.fst

theorem runningTotal_concat (us : List Use) (u : Use) :
    runningTotal (us ++ [u]) = u.onTotal (runningTotal us) := by
  rw [runningTotal, List.foldl_append]
  rfl

theorem listAfter_concat (us : List Use) (u : Use) :
    listAfter (us ++ [u]) = u.onList (listAfter us) := by
  rw [listAfter, List.foldl_append]
  rfl

namespace AggregateFunction

/-- Folding values in is one way to use them. -/
theorem stateAfter_map_add {σ : Type} (f : AggregateFunction σ) (vs : List Value) :
    f.stateAfter (vs.map .add) = f.folded vs := by
  rw [stateAfter, List.foldl_map]
  rfl

theorem stateAfter_sum (us : List Use) : sum.stateAfter us = .total (runningTotal us) := by
  induction us using List.reverseRecOn with
  | nil => rfl
  | append_singleton us u ih =>
    rw [stateAfter_concat, ih, runningTotal_concat]
    cases u with
    | add v | takeBack v =>
      simp only [apply, sum, Use.onTotal]
      refine state_onNumber (P := fun s => s = _) (fun x hx => ?_) fun hn => ?_
      · rw [hx]
        rfl
      · rw [hn]
        rfl

theorem stateAfter_average (us : List Use) :
    ∃ n, average.stateAfter us = .mean (runningTotal us) n := by
  induction us using List.reverseRecOn with
  | nil => exact ⟨0, rfl⟩
  | append_singleton us u ih =>
    obtain ⟨n, hn⟩ := ih
    rw [stateAfter_concat, hn, runningTotal_concat]
    cases u with
    | add v | takeBack v =>
      simp only [apply, average, Use.onTotal]
      refine state_onNumber (P := fun s => ∃ n, s = State.mean _ n) (fun x hx => ?_) fun hn => ?_
      · rw [hx]
        exact ⟨_, rfl⟩
      · rw [hn]
        exact ⟨n, rfl⟩

theorem stateAfter_collectList (us : List Use) :
    collectList.stateAfter us = .items (listAfter us) := by
  induction us using List.reverseRecOn with
  | nil => rfl
  | append_singleton us u ih =>
    rw [stateAfter_concat, ih, listAfter_concat]
    cases u with
    | add v => rfl
    | takeBack v =>
      simp only [apply, collectList, Use.onList]
      split
      · rfl
      · next hnone =>
        -- nothing equals the value, so nothing is erased
        rw [List.any_eq_true] at hnone
        rw [List.eraseP_of_forall_not fun w hw heq => hnone ⟨w, hw, heq⟩]
        rfl

theorem stateAfter_collectSet (us : List Use) :
    collectSet.stateAfter us = .tallies (us.foldl Use.onTallies []) := by
  induction us using List.reverseRecOn with
  | nil => rfl
  | append_singleton us u ih =>
    rw [stateAfter_concat, ih, List.foldl_append]
    cases u with
    | add v => rfl
    | takeBack v =>
      simp only [apply, collectSet, List.foldl_cons, List.foldl_nil, Use.onTallies]
      cases removeOccurrence? v (us.foldl Use.onTallies []) <;> rfl

theorem keys_folded_collectSet {vs : List Value} {es : List (Value × Nat)}
    (h : collectSet.folded vs = .tallies es) : es.map Prod.fst = distinct vs := by
  induction vs using List.reverseRecOn generalizing es with
  | nil =>
    cases h
    rfl
  | append_singleton vs v ih =>
    obtain ⟨ds, hds⟩ : ∃ ds, collectSet.folded vs = .tallies ds := by
      rw [← stateAfter_map_add, stateAfter_collectSet]
      exact ⟨_, rfl⟩
    rw [folded_concat, hds] at h
    cases h
    rw [keys_addOccurrence, ih hds, distinct_concat]

/-! ## Results over values -/

/-- **The result over the values**, folded in one after the other. -/
inductive Answers : AggregateFunction State → List Value → Value → Prop
  | count (vs : List Value) : Answers count vs (.int (Int64.ofNat vs.length))
  | sum (vs : List Value) : Answers sum vs (.float (total (numbers vs)))
  | average (vs : List Value) :
      Answers average vs (.float (mean (total (numbers vs)) (numbers vs).length))
  | extremum (name : String) (keep : Ordering) (vs : List Value) :
      Answers (extremum name keep) vs (bestOf keep vs)
  | collectList (vs : List Value) : Answers collectList vs (.list vs)
  | collectSet (vs : List Value) : Answers collectSet vs (.list (distinct vs))

variable {f : AggregateFunction State} {s : State} {us : List Use} {vs : List Value} {v : Value}

theorem answers_folded (hf : f ∈ builtins) (h : f.result (f.folded vs) = .ok v) :
    f.Answers vs v := by
  simp only [builtins, List.mem_cons, List.not_mem_nil, or_false] at hf
  rcases hf with rfl | rfl | rfl | rfl | rfl | rfl | rfl
  · rw [folded_count] at h
    cases h
    exact .count vs
  · rw [folded_sum] at h
    cases h
    exact .sum vs
  · rw [folded_average] at h
    cases h
    exact .average vs
  · rw [AggregateFunction.min, folded_extremum] at h
    cases h
    exact .extremum _ _ vs
  · rw [AggregateFunction.max, folded_extremum] at h
    cases h
    exact .extremum _ _ vs
  · rw [folded_collectList] at h
    cases h
    exact .collectList vs
  · rw [← stateAfter_map_add, stateAfter_collectSet] at h
    cases h
    rw [keys_folded_collectSet (by rw [← stateAfter_map_add, stateAfter_collectSet])]
    exact .collectSet vs

/-! ## Results after uses -/

/-- **The result after the uses**, where the values are those that are left: folded in, and not
taken back.  A count is theirs.  A sum is what the additions and subtractions come to, and a mean is
that divided by how many numbers are left.  A list and the keys of a set are what the uses leave,
and these are the values, or the distinct ones among them, up to order and to which of several equal
ones stands for them. -/
inductive AnswersInPlace : AggregateFunction State → List Use → List Value → Value → Prop
  | count (us : List Use) (vs : List Value) :
      AnswersInPlace count us vs (.int (Int64.ofNat vs.length))
  | sum (us : List Use) (vs : List Value) : AnswersInPlace sum us vs (.float (runningTotal us))
  | average (us : List Use) (vs : List Value) :
      AnswersInPlace average us vs (.float (mean (runningTotal us) (numbers vs).length))
  | collectList {us : List Use} {vs : List Value} (h : SameValues (listAfter us) vs) :
      AnswersInPlace collectList us vs (.list (listAfter us))
  | collectSet {us : List Use} {vs : List Value} (h : SameValues (keysAfter us) (distinct vs)) :
      AnswersInPlace collectSet us vs (.list (keysAfter us))

/-- A state that the uses leave and that stands for values answers what was done. -/
theorem Tracks.answersInPlace (h : Tracks f (f.stateAfter us) vs) (hvs : ∀ v ∈ vs, v.WellFormed)
    (hr : f.supportsReverse = true) (hv : f.result (f.stateAfter us) = .ok v) :
    f.AnswersInPlace us vs v := by
  generalize hs : f.stateAfter us = s at h hv
  cases h with
  | count =>
    cases hv
    exact .count us vs
  | sum x =>
    rw [stateAfter_sum] at hs
    cases hs
    cases hv
    exact .sum us vs
  | average x =>
    obtain ⟨n, hn⟩ := stateAfter_average us
    rw [hn] at hs
    cases hs
    cases hv
    exact .average us vs
  | extremum => exact absurd hr Bool.false_ne_true
  | collectList hwf h =>
    rw [stateAfter_collectList] at hs
    cases hs
    cases hv
    exact .collectList h
  | collectSet hes h =>
    rw [stateAfter_collectSet] at hs
    cases hs
    cases hv
    refine .collectSet ?_
    obtain ⟨ds, hds, hc, hcount⟩ := folded_collectSet hvs
    rw [← keys_folded_collectSet hds]
    exact sameValues_keys hes hc fun u hu => (h u hu).trans (hcount u hu).symm

end AggregateFunction
end RuleAggregate
