import RuleAggregate.Aggregate.Accumulator

/-!
# Functions and their own states

A state does not say which function it belongs to, and a function that is handed the state of
another one refuses it.  A built-in function that starts from its own initial state never meets
another one, whatever it folds in and takes back on the way, and whether it accepts that or not.

## What is here

* `Outcome.Confined` — a step ends in a given set of states, and fails only with given errors.
* `AggregateFunction.Readable` — the function can read its result from the state.
* `AggregateFunction.keepsReadable_of_mem_builtins` — **built-in functions keep their states
  readable**, and never complain about a state that they can read.
* `Accumulator.keeps_feeding` — so do the accumulators that feed them.
-/

set_option autoImplicit false

namespace RuleAggregate

variable {σ ε δ α : Type}

/-! ## Confined steps -/

/-- The step ends in a state of `P`, and if it fails, then with an error of `Q`. -/
structure Outcome.Confined (P : σ → Prop) (Q : ε → Prop) (o : Outcome σ ε) : Prop where
  state : P o.state
  failure : ∀ e, o.failure = some e → Q e

namespace Outcome

variable {P : σ → Prop} {Q : ε → Prop} {s : σ}

theorem confined_success (hs : P s) : (success s).Confined P Q := ⟨hs, nofun⟩

theorem confined_failed (hs : P s) {e : ε} (he : Q e) : (failed s e).Confined P Q := by
  refine ⟨hs, fun e' he' => ?_⟩
  rw [failure_failed, Option.some_inj] at he'
  exact he' ▸ he

theorem Confined.mapFailure {o : Outcome σ ε} (h : o.Confined P Q) {R : δ → Prop} {f : ε → δ}
    (hf : ∀ e, Q e → R (f e)) : (o.mapFailure f).Confined P R := by
  refine ⟨h.state, fun e he => ?_⟩
  obtain ⟨e', he', rfl⟩ := Option.map_eq_some_iff.1 he
  exact hf e' (h.failure e' he')

/-- What every step of a run keeps, the run keeps. -/
theorem confined_run {step : σ → α → Outcome σ ε} {as : List α}
    (hstep : ∀ s, P s → ∀ a ∈ as, (step s a).Confined P Q) (hs : P s) :
    (run step s as).Confined P Q := by
  induction as generalizing s with
  | nil => exact confined_success hs
  | cons a as ih =>
    have ha := hstep s hs a List.mem_cons_self
    rw [run_cons]
    cases hf : (step s a).failure with
    | some e =>
      rw [eq_failed_of_failure hf, andThen_failed]
      exact confined_failed ha.state (ha.failure e hf)
    | none =>
      rw [eq_success_of_failure hf, andThen_success]
      exact ih (fun t ht b hb => hstep t ht b (List.mem_cons_of_mem a hb)) ha.state

end Outcome

/-! ## Functions -/

/-- The error is about the value, not about a state that some other function made. -/
def FunctionError.IsAboutValue (e : FunctionError) : Prop := ∀ name, e ≠ stateMismatch name

namespace AggregateFunction

/-- The function can read its result from the state. -/
def Readable (f : AggregateFunction σ) (s : σ) : Prop := ∃ v, f.result s = .ok v

/-- Folding in and taking back keep states readable, and never fail because of a readable state. -/
structure KeepsReadable (f : AggregateFunction σ) : Prop where
  init : f.Readable f.init
  accumulate : ∀ {s}, f.Readable s → ∀ v,
    (f.accumulate s v).Confined f.Readable FunctionError.IsAboutValue
  reverse : ∀ {s}, f.Readable s → ∀ v,
    (f.reverse s v).Confined f.Readable FunctionError.IsAboutValue

/-! Every function reads states of one kind only.  So a readable state is of that kind, and the
steps of the function leave that kind of state behind. -/

theorem keepsReadable_count : count.KeepsReadable where
  init := ⟨_, rfl⟩
  accumulate {s} hs v := by
    obtain ⟨w, hw⟩ := hs
    cases s with
    | tally n => exact Outcome.confined_success ⟨_, rfl⟩
    | _ => cases hw
  reverse {s} hs v := by
    obtain ⟨w, hw⟩ := hs
    cases s with
    | tally n => exact Outcome.confined_success ⟨_, rfl⟩
    | _ => cases hw

theorem keepsReadable_sum : sum.KeepsReadable where
  init := ⟨_, rfl⟩
  accumulate {s} hs v := by
    obtain ⟨w, hw⟩ := hs
    cases s with
    | total t =>
      cases v with
      | null | int | float => exact Outcome.confined_success ⟨_, rfl⟩
      | _ => exact Outcome.confined_failed ⟨_, rfl⟩ nofun
    | _ => cases hw
  reverse {s} hs v := by
    obtain ⟨w, hw⟩ := hs
    cases s with
    | total t =>
      cases v with
      | null | int | float => exact Outcome.confined_success ⟨_, rfl⟩
      | _ => exact Outcome.confined_failed ⟨_, rfl⟩ nofun
    | _ => cases hw

theorem keepsReadable_average : average.KeepsReadable where
  init := ⟨_, rfl⟩
  accumulate {s} hs v := by
    obtain ⟨w, hw⟩ := hs
    cases s with
    | mean t n =>
      cases v with
      | null | int | float => exact Outcome.confined_success ⟨_, rfl⟩
      | _ => exact Outcome.confined_failed ⟨_, rfl⟩ nofun
    | _ => cases hw
  reverse {s} hs v := by
    obtain ⟨w, hw⟩ := hs
    cases s with
    | mean t n =>
      cases v with
      | null | int | float => exact Outcome.confined_success ⟨_, rfl⟩
      | _ => exact Outcome.confined_failed ⟨_, rfl⟩ nofun
    | _ => cases hw

theorem keepsReadable_extremum (name : String) (keep : Ordering) :
    (extremum name keep).KeepsReadable where
  init := ⟨_, rfl⟩
  accumulate {s} hs v := by
    obtain ⟨w, hw⟩ := hs
    cases s with
    | best b =>
      cases v with
      | null | int | float => exact Outcome.confined_success ⟨_, rfl⟩
      | _ => exact Outcome.confined_failed ⟨_, rfl⟩ nofun
    | _ => cases hw
  reverse hs v := Outcome.confined_failed hs nofun

theorem keepsReadable_collectList : collectList.KeepsReadable where
  init := ⟨_, rfl⟩
  accumulate {s} hs v := by
    obtain ⟨w, hw⟩ := hs
    cases s with
    | items vs => exact Outcome.confined_success ⟨_, rfl⟩
    | _ => cases hw
  reverse {s} hs v := by
    obtain ⟨w, hw⟩ := hs
    cases s with
    | items vs =>
      show Outcome.Confined _ _ (if vs.any (·.eq v) then _ else _)
      split
      · exact Outcome.confined_success ⟨_, rfl⟩
      · exact Outcome.confined_failed ⟨_, rfl⟩ nofun
    | _ => cases hw

theorem keepsReadable_collectSet : collectSet.KeepsReadable where
  init := ⟨_, rfl⟩
  accumulate {s} hs v := by
    obtain ⟨w, hw⟩ := hs
    cases s with
    | tallies es => exact Outcome.confined_success ⟨_, rfl⟩
    | _ => cases hw
  reverse {s} hs v := by
    obtain ⟨w, hw⟩ := hs
    cases s with
    | tallies es =>
      cases hremove : removeOccurrence? v es with
      | some rest =>
        have hreverse : collectSet.reverse (.tallies es) v = .success (.tallies rest) := by
          simp only [collectSet, hremove]
        rw [hreverse]
        exact Outcome.confined_success ⟨_, rfl⟩
      | none =>
        have hreverse : collectSet.reverse (.tallies es) v =
            .failed (.tallies es) (.notAccumulated "collectSet" v.display) := by
          simp only [collectSet, hremove]
        rw [hreverse]
        exact Outcome.confined_failed ⟨_, rfl⟩ nofun
    | _ => cases hw

/-- **Built-in functions keep their states readable**, and never complain about a state that they
can read. -/
theorem keepsReadable_of_mem_builtins {f : AggregateFunction State} (hf : f ∈ builtins) :
    f.KeepsReadable := by
  simp only [builtins, List.mem_cons, List.not_mem_nil, or_false] at hf
  rcases hf with rfl | rfl | rfl | rfl | rfl | rfl | rfl
  · exact keepsReadable_count
  · exact keepsReadable_sum
  · exact keepsReadable_average
  · exact keepsReadable_extremum "min" .lt
  · exact keepsReadable_extremum "max" .gt
  · exact keepsReadable_collectList
  · exact keepsReadable_collectSet

end AggregateFunction

/-! ## Accumulators -/

/-- The computation answers something in `P`, or fails with an error of `Q`. -/
def AnswersIn (P : α → Prop) (Q : ε → Prop) : Except ε α → Prop
  | .ok a => P a
  | .error e => Q e

/-- The error is none about a state that some other function made. -/
def AccumulateError.IsAboutValue (e : AccumulateError) : Prop :=
  ∀ name, e ≠ function (.stateMismatch name)

namespace Accumulator

/-- The accumulator keeps its contexts in `P`, and fails only with errors of `Q`. -/
structure Keeps (P : σ → Prop) (Q : AccumulateError → Prop) (a : Accumulator σ) : Prop where
  init : ∀ left, AnswersIn P Q (a.init left)
  accumulate : ∀ {c}, P c → ∀ t v, (a.accumulate c t v).Confined P Q
  reverse : ∀ {c}, P c → ∀ t v, (a.reverse c t v).Confined P Q

/-- Nothing is asked of the contexts and of the errors. -/
theorem keeps_any (a : Accumulator σ) : a.Keeps (fun _ => True) fun _ => True where
  init left := by cases a.init left <;> trivial
  accumulate _ _ _ := ⟨trivial, fun _ _ => trivial⟩
  reverse _ _ _ := ⟨trivial, fun _ _ => trivial⟩

/-- The accumulator can read its result from the context. -/
def Readable (a : Accumulator σ) (c : σ) : Prop := ∀ left, ∃ v, a.result c left = .ok v

variable {f : AggregateFunction σ} {argument : Tuple → Value → Except ReadError Value}

theorem readable_feeding_iff {s : σ} : (feeding f argument).Readable s ↔ f.Readable s := by
  have hresult : ∀ left, (feeding f argument).result s left =
      (f.result s).mapError AccumulateError.function := fun _ => rfl
  cases hs : f.result s with
  | ok v => exact iff_of_true (fun left => ⟨v, by rw [hresult, hs]; rfl⟩) ⟨v, hs⟩
  | error e =>
    refine iff_of_false (fun h => ?_) fun ⟨v, hv⟩ => ?_
    · obtain ⟨v, hv⟩ := h .empty
      rw [hresult, hs] at hv
      cases hv
    · rw [hs] at hv
      cases hv

/-- Feeding a value to a step fails because of the argument, or because the step fails. -/
theorem confined_feed {P : σ → Prop} {step : σ → Value → Outcome σ FunctionError} {s : σ}
    (hs : P s) (hstep : ∀ v, (step s v).Confined P FunctionError.IsAboutValue)
    (a : Except ReadError Value) : (feed step a s).Confined P AccumulateError.IsAboutValue := by
  cases a with
  | error e => exact Outcome.confined_failed hs nofun
  | ok v =>
    refine (hstep v).mapFailure fun e he name hname => ?_
    cases hname
    exact he name rfl

/-- **Accumulators that feed built-in functions keep their contexts readable**, and never complain
about them. -/
theorem keeps_feeding {f : AggregateFunction State} (hf : f ∈ AggregateFunction.builtins)
    (argument : Tuple → Value → Except ReadError Value) :
    (feeding f argument).Keeps (feeding f argument).Readable AccumulateError.IsAboutValue := by
  have hreadable : (feeding f argument).Readable = f.Readable :=
    funext fun _ => propext readable_feeding_iff
  have hkeeps := AggregateFunction.keepsReadable_of_mem_builtins hf
  rw [hreadable]
  exact {
    init := fun _ => hkeeps.init
    accumulate := fun hs t v => confined_feed hs (hkeeps.accumulate hs) (argument t v)
    reverse := fun hs t v => confined_feed hs (hkeeps.reverse hs) (argument t v) }

end Accumulator
end RuleAggregate
