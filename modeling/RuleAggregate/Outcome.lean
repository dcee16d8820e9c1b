/-!
# Steps that may fail part-way

A step changes a state and may then fail.  What it changed before it failed stays visible, so the
new state is answered whether the step fails or not.

## What is here

* `Outcome σ ε` — the state after a step, and why the step failed if it did.
* `Outcome.run` — runs a step for every item of a list, up to the first failure.
-/

set_option autoImplicit false

namespace RuleAggregate

/-- What a step leaves behind. -/
structure Outcome (σ ε : Type) where
  /-- The state after the step, the failed step included. -/
  state : σ
  /-- Why the step failed, if it did. -/
  failure : Option ε
  deriving Repr

namespace Outcome

variable {σ τ ε δ α : Type}

/-- The outcome of a step that succeeds. -/
def success (s : σ) : Outcome σ ε := ⟨s, none⟩

/-- The outcome of a step that fails. -/
def failed (s : σ) (e : ε) : Outcome σ ε := ⟨s, some e⟩

/-- Whether the step succeeded. -/
def succeeded (o : Outcome σ ε) : Bool := o.failure.isNone

/-- Goes on with another step unless the first one failed. -/
def andThen (o : Outcome σ ε) (step : σ → Outcome σ ε) : Outcome σ ε :=
  match o.failure with
  | none => step o.state
  | some e => ⟨o.state, some e⟩

/-- Rephrases the failure. -/
def mapFailure (f : ε → δ) (o : Outcome σ ε) : Outcome σ δ := ⟨o.state, o.failure.map f⟩

/-- Runs a step for every item, up to the first failure. -/
def run (step : σ → α → Outcome σ ε) (s : σ) : List α → Outcome σ ε
  | [] => success s
  | a :: as => (step s a).andThen fun s => run step s as

@[simp] theorem state_success (s : σ) : (success s : Outcome σ ε).state = s := rfl

@[simp] theorem failure_success (s : σ) : (success s : Outcome σ ε).failure = none := rfl

@[simp] theorem state_failed (s : σ) (e : ε) : (failed s e).state = s := rfl

@[simp] theorem failure_failed (s : σ) (e : ε) : (failed s e).failure = some e := rfl

theorem eq_success_of_failure {o : Outcome σ ε} (h : o.failure = none) : o = success o.state := by
  cases o
  exact congrArg (Outcome.mk _) h

theorem eq_failed_of_failure {o : Outcome σ ε} {e : ε} (h : o.failure = some e) :
    o = failed o.state e := by
  cases o
  exact congrArg (Outcome.mk _) h

@[simp] theorem andThen_success (s : σ) (step : σ → Outcome σ ε) :
    (success s).andThen step = step s := rfl

@[simp] theorem andThen_failed (s : σ) (e : ε) (step : σ → Outcome σ ε) :
    (failed s e).andThen step = failed s e := rfl

@[simp] theorem run_nil (step : σ → α → Outcome σ ε) (s : σ) : run step s [] = success s := rfl

theorem run_cons (step : σ → α → Outcome σ ε) (s : σ) (a : α) (as : List α) :
    run step s (a :: as) = (step s a).andThen fun s => run step s as := rfl

/-- A run over a list succeeds if its first step does, and the others do after it. -/
theorem run_cons_eq_success_iff {step : σ → α → Outcome σ ε} {s t : σ} {a : α} {as : List α} :
    run step s (a :: as) = success t ↔ ∃ u, step s a = success u ∧ run step u as = success t := by
  rw [run_cons]
  constructor
  · intro h
    cases hf : (step s a).failure with
    | some e =>
      rw [eq_failed_of_failure hf, andThen_failed] at h
      cases h
    | none =>
      rw [eq_success_of_failure hf, andThen_success] at h
      exact ⟨_, eq_success_of_failure hf, h⟩
  · rintro ⟨u, hu, h⟩
    rw [hu, andThen_success, h]

theorem run_append (step : σ → α → Outcome σ ε) (s : σ) (as bs : List α) :
    run step s (as ++ bs) = (run step s as).andThen fun s => run step s bs := by
  induction as generalizing s with
  | nil => rfl
  | cons a as ih =>
    simp only [List.cons_append, run_cons]
    cases h : (step s a).failure with
    | none => simp [andThen, h, ih]
    | some e => simp [andThen, h]

end Outcome
end RuleAggregate
