import RuleAggregate.Proofs.Aggregate.Readable
import RuleAggregate.Proofs.Node.Run

/-!
# What accumulators keep of their contexts

A memory has one context for every accumulator.  Operations change contexts in place, replace them
by a replay, or leave them behind when a step fails half-way and the replay that should restore
them fails as well.  What every accumulator keeps of its own context in all its steps, the failed
ones included, therefore holds of the memory all the time; and what the steps of the accumulators
can fail with is what operations can fail with.

## What is here

* `Node.Blames`, `Node.Refuses` — the errors of accumulators, and those about handles.
* `Node.answersIn_replay`, `Node.confined_stepFrom` — replays and single steps.
* `Node.confined_perform` — **what every accumulator keeps of its context, every operation keeps.**
-/

set_option autoImplicit false

namespace RuleAggregate

variable {σ : Type}

namespace Node

/-- The error is that of an accumulator, and one of the given ones. -/
def Blames (Q : AccumulateError → Prop) (e : RuntimeError) : Prop :=
  ∃ i err, e = .accumulate i err ∧ Q err

/-- An operation is refused for its handle. -/
inductive Refuses (m : Memory σ) : Operation → RuntimeError → Prop
  | duplicate {h : Handle} (objects : List Value) (hc : m.contains h = true) :
      Refuses m (.insert h objects) (.duplicateHandle h)
  | unknown {h : Handle} (hg : m.held.get? h = none) :
      Refuses m (.retract h) (.unknownHandle h)

/-! ## Steps and replays -/

section Contexts

variable {P : Accumulator σ → σ → Prop} {Q : AccumulateError → Prop} {n : Node σ}

theorem answersIn_freshFrom {left : Tuple} {as : List (Accumulator σ)}
    (has : ∀ a ∈ as, a.Keeps (P a) Q) (k : Nat) :
    AnswersIn (List.Forall₂ P as) (Blames Q) (freshFrom k left as) := by
  induction as generalizing k with
  | nil => exact .nil
  | cons a as ih =>
    rw [List.forall_mem_cons] at has
    have ha := has.1.init left
    rw [freshFrom]
    cases hc : a.init left with
    | error e =>
      rw [hc] at ha
      exact ⟨k, e, rfl, ha⟩
    | ok c =>
      rw [hc] at ha
      have hrest := ih has.2 (k + 1)
      cases hcs : freshFrom (k + 1) left as with
      | error e =>
        rw [hcs] at hrest
        exact hrest
      | ok cs =>
        rw [hcs] at hrest
        exact .cons ha hrest

theorem confined_stepFrom {step : Accumulator σ → σ → Tuple → Value → Outcome σ AccumulateError}
    {x : Match} {as : List (Accumulator σ)} {cs : List σ}
    (hstep : ∀ a ∈ as, ∀ c, P a c → (step a c x.tuple x.fact).Confined (P a) Q)
    (hcs : List.Forall₂ P as cs) (k : Nat) :
    (stepFrom step k x as cs).Confined (List.Forall₂ P as) (Blames Q) := by
  induction hcs generalizing k with
  | nil => exact Outcome.confined_success .nil
  | @cons a c as cs hac hcs ih =>
    rw [List.forall_mem_cons] at hstep
    have ha := hstep.1 c hac
    cases hf : (step a c x.tuple x.fact).failure with
    | some e =>
      rw [stepFrom_cons_of_failure hf]
      exact Outcome.confined_failed (.cons ha.state hcs) ⟨k, e, rfl, ha.failure e hf⟩
    | none =>
      have hrest := ih hstep.2 (k + 1)
      rw [stepFrom_cons_of_success hf]
      exact ⟨.cons ha.state hrest.state, hrest.failure⟩

variable (hn : ∀ a ∈ n.accumulators, a.Keeps (P a) Q)

include hn

theorem confined_fold {cs : List σ} (hcs : List.Forall₂ P n.accumulators cs) (x : Match) :
    (n.fold cs x).Confined (List.Forall₂ P n.accumulators) (Blames Q) :=
  confined_stepFrom (fun a ha _ hc => (hn a ha).accumulate hc x.tuple x.fact) hcs 0

theorem confined_unfold {cs : List σ} (hcs : List.Forall₂ P n.accumulators cs) (x : Match) :
    (n.unfold cs x).Confined (List.Forall₂ P n.accumulators) (Blames Q) :=
  confined_stepFrom (fun a ha _ hc => (hn a ha).reverse hc x.tuple x.fact) hcs 0

theorem answersIn_replay (left : Tuple) (xs : List Match) :
    AnswersIn (List.Forall₂ P n.accumulators) (Blames Q) (n.replay left xs) := by
  have hfresh : AnswersIn (List.Forall₂ P n.accumulators) (Blames Q) (n.fresh left) :=
    answersIn_freshFrom hn 0
  rw [replay]
  cases hcs : n.fresh left with
  | error e =>
    rw [hcs] at hfresh
    exact hfresh
  | ok cs =>
    rw [hcs] at hfresh
    have hstep : ∀ cs, List.Forall₂ P n.accumulators cs → ∀ x ∈ xs,
        (n.fold cs x).Confined (List.Forall₂ P n.accumulators) (Blames Q) :=
      fun _ hcs x _ => confined_fold hn hcs x
    have hrun := Outcome.confined_run hstep hfresh
    cases hf : (Outcome.run n.fold cs xs).failure with
    | some e =>
      simp only [hf]
      exact hrun.failure e hf
    | none =>
      simp only [hf]
      exact hrun.state

theorem confined_restore (left : Tuple) (m : Memory σ) {cs : List σ} {e : RuntimeError}
    (hcs : List.Forall₂ P n.accumulators cs) (he : Blames Q e) :
    (n.restore left m cs e).Confined (fun m => List.Forall₂ P n.accumulators m.contexts)
      (Blames Q) := by
  have hreplay := answersIn_replay hn left m.held.values
  cases hp : n.replay left m.held.values with
  | ok ds =>
    rw [hp] at hreplay
    rw [restore_of_ok hp]
    refine Outcome.confined_failed ?_ he
    exact hreplay
  | error e' =>
    rw [hp] at hreplay
    rw [restore_of_error hp]
    refine Outcome.confined_failed ?_ ?_
    · exact hcs
    · exact hreplay

/-! ## Operations -/

/-- **What every accumulator keeps of its context, every operation keeps**, whichever step of it
fails.  If it fails, then it was refused for its handle, or the error is that of an accumulator. -/
theorem confined_perform (left : Tuple) {m : Memory σ}
    (hm : List.Forall₂ P n.accumulators m.contexts) (op : Operation) :
    (n.perform left m op).Confined (fun m => List.Forall₂ P n.accumulators m.contexts)
      (fun e => Refuses m op e ∨ Blames Q e) := by
  have hs := step_perform n left m op
  generalize n.perform left m op = o at hs
  cases hs with
  | duplicate hc => exact ⟨hm, fun e he => .inl (Option.some_inj.1 he ▸ .duplicate _ hc)⟩
  | unknown hg => exact ⟨hm, fun e he => .inl (Option.some_inj.1 he ▸ .unknown hg)⟩
  | @folded h objects cs _ hf =>
    have hfold := confined_fold hn hm (n.matchOf left objects)
    rw [hf] at hfold
    exact ⟨hfold.state, nofun⟩
  | @unfolded h x cs _ _ hf =>
    have hunfold := confined_unfold hn hm x
    rw [hf] at hunfold
    exact ⟨hunfold.state, nofun⟩
  | @foldFailed h objects cs e _ hf =>
    have hfold := confined_fold hn hm (n.matchOf left objects)
    rw [hf] at hfold
    have hrestore := confined_restore hn left m hfold.state (hfold.failure e rfl)
    exact ⟨hrestore.state, fun e he => .inr (hrestore.failure e he)⟩
  | @unfoldFailed h x cs e _ _ hf =>
    have hunfold := confined_unfold hn hm x
    rw [hf] at hunfold
    have hrestore := confined_restore hn left m hunfold.state (hunfold.failure e rfl)
    exact ⟨hrestore.state, fun e he => .inr (hrestore.failure e he)⟩
  | @replayed h x cs _ _ hp =>
    have hreplay := answersIn_replay hn left (m.held.erase h).values
    rw [hp] at hreplay
    exact ⟨hreplay, nofun⟩
  | @replayFailed h x e _ _ hp =>
    have hreplay := answersIn_replay hn left (m.held.erase h).values
    rw [hp] at hreplay
    exact ⟨hm, fun e he => .inr (Option.some_inj.1 he ▸ hreplay)⟩

end Contexts

end Node
end RuleAggregate
