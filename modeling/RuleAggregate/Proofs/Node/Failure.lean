import RuleAggregate.Aggregate.Ledger
import RuleAggregate.Proofs.Node.Recompute
import RuleAggregate.Proofs.Value.Equality

/-!
# What a failed operation leaves behind

When a step on the contexts fails half-way, the contexts are rebuilt from the held matches.  So a
failed operation keeps what can be observed of the memory if the rebuilt contexts answer what the
old ones answered.  This file says exactly when that is.

## What is here

* `Node.Raises` — the error that an operation itself gives rise to.
* `Node.Recovers` — rebuilding the contexts gives the old result back.
* `Node.failed_perform_unobservable_iff` — **a failed operation never changes the handles; it keeps
  the result and answers its own error exactly if the node recovers.**  Nodes that recompute always
  recover, and so does every node from whose memory nothing has been retracted.
* `Node.failed_insert_leaves_partial_fold` — a run after which a node does not recover.
-/

set_option autoImplicit false

namespace RuleAggregate

variable {σ : Type}

namespace Node

/-! ## The error of an operation -/

/-- The error that an operation gives rise to: it is refused for its handle, or some accumulator is
the first to fail. -/
inductive Raises (n : Node σ) (left : Tuple) (m : Memory σ) : Operation → RuntimeError → Prop
  | duplicate {h : Handle} {objects : List Value} (hc : m.contains h = true) :
      Raises n left m (.insert h objects) (.duplicateHandle h)
  | fold {h : Handle} {objects : List Value} {i : Nat} {err : AccumulateError}
      (hc : m.contains h = false)
      (hf : FirstFailure Accumulator.accumulate (n.matchOf left objects) n.accumulators m.contexts
        i err) :
      Raises n left m (.insert h objects) (.accumulate i err)
  | unknown {h : Handle} (hg : m.held.get? h = none) :
      Raises n left m (.retract h) (.unknownHandle h)
  | unfold {h : Handle} {x : Match} {i : Nat} {err : AccumulateError} (hr : n.reverses = true)
      (hg : m.held.get? h = some x)
      (hf : FirstFailure Accumulator.reverse x n.accumulators m.contexts i err) :
      Raises n left m (.retract h) (.accumulate i err)
  | replay {h : Handle} {x : Match} {e : RuntimeError} (hr : n.reverses = false)
      (hg : m.held.get? h = some x) (hp : n.replay left (m.held.erase h).values = .error e) :
      Raises n left m (.retract h) e

theorem raises_insert_iff {n : Node σ} {left : Tuple} {m : Memory σ} {h : Handle}
    (hc : m.contains h = false) (objects : List Value) (e : RuntimeError) :
    n.Raises left m (.insert h objects) e ↔
      (n.fold m.contexts (n.matchOf left objects)).failure = some e := by
  rw [Node.fold, stepFrom_failure_iff]
  constructor
  · intro he
    cases he with
    | duplicate hd =>
      rw [hc] at hd
      exact absurd hd Bool.false_ne_true
    | @fold _ _ i err _ hf => exact ⟨i, err, by rw [Nat.zero_add], hf⟩
  · rintro ⟨i, err, rfl, hf⟩
    rw [Nat.zero_add]
    exact .fold hc hf

theorem raises_retract_iff {n : Node σ} {left : Tuple} {m : Memory σ} {h : Handle} {x : Match}
    (hr : n.reverses = true) (hg : m.held.get? h = some x) (e : RuntimeError) :
    n.Raises left m (.retract h) e ↔ (n.unfold m.contexts x).failure = some e := by
  rw [Node.unfold, stepFrom_failure_iff]
  constructor
  · intro he
    cases he with
    | unknown hn =>
      rw [hg] at hn
      exact absurd hn (Option.some_ne_none x)
    | @unfold _ y i err _ hy hf =>
      rw [hg, Option.some_inj] at hy
      exact ⟨i, err, by rw [Nat.zero_add], hy ▸ hf⟩
    | replay hn =>
      rw [hr] at hn
      exact absurd hn.symm Bool.false_ne_true
  · rintro ⟨i, err, rfl, hf⟩
    rw [Nat.zero_add]
    exact .unfold hr hg hf

/-! ## Recovery -/

/-- The step on the contexts that an operation takes in place.  It takes none if it is refused for
its handle, or if it rebuilds the contexts. -/
def attempt (n : Node σ) (left : Tuple) (m : Memory σ) :
    Operation → Option (Outcome (List σ) RuntimeError)
  | .insert h objects =>
    if m.contains h then none else some (n.fold m.contexts (n.matchOf left objects))
  | .retract h => if n.reverses then (m.held.get? h).map (n.unfold m.contexts) else none

/-- A failed step on the contexts that left `cs` behind is undone for every observer: a replay of
the held matches gives contexts with the old result.  Should the replay fail, then `cs` must have
the old result, and the error of the replay must be the error of the step. -/
def Recovers (n : Node σ) (left : Tuple) (m : Memory σ) (op : Operation) : Prop :=
  ∀ o, n.attempt left m op = some o →
    match n.replay left m.held.values with
    | .ok cs => n.result left { m with contexts := cs } = n.result left m
    | .error e =>
      o.failure = some e ∧ n.result left { m with contexts := o.state } = n.result left m

theorem Faithful.recovers {n : Node σ} {left : Tuple} {m : Memory σ} (hm : n.Faithful left m)
    (op : Operation) : n.Recovers left m op := by
  intro o _
  have hp : n.replay left m.held.values = .ok m.contexts := hm
  rw [hp]

/-- An operation that takes no step in place has nothing to recover from. -/
theorem recovers_of_attempt_eq_none {n : Node σ} {left : Tuple} {m : Memory σ} {op : Operation}
    (h : n.attempt left m op = none) : n.Recovers left m op := by
  intro o ho
  rw [h] at ho
  exact absurd ho.symm (Option.some_ne_none o)

/-- A restored memory is observed unchanged, with the error of the step, exactly if the node
recovers. -/
theorem restore_unobservable_iff {n : Node σ} {left : Tuple} {m : Memory σ} {op : Operation}
    {cs : List σ} {e₀ e : RuntimeError} (ho : n.attempt left m op = some (.failed cs e₀))
    (hf : (n.restore left m cs e₀).failure = some e) :
    (n.result left (n.restore left m cs e₀).state = n.result left m ∧ e₀ = e) ↔
      n.Recovers left m op := by
  rw [Recovers, ho]
  cases hp : n.replay left m.held.values with
  | ok ds =>
    rw [restore_of_ok hp, Outcome.failure_failed, Option.some_inj] at hf
    rw [restore_of_ok hp, Outcome.state_failed]
    constructor
    · rintro ⟨hres, -⟩ o -
      exact hres
    · intro h
      exact ⟨h _ rfl, hf⟩
  | error e' =>
    rw [restore_of_error hp, Outcome.failure_failed, Option.some_inj] at hf
    rw [restore_of_error hp, Outcome.state_failed, hf]
    constructor
    · rintro ⟨hres, rfl⟩ o hso
      cases hso
      exact ⟨rfl, hres⟩
    · intro h
      obtain ⟨he, hres⟩ := h _ rfl
      rw [Outcome.failure_failed, Option.some_inj] at he
      exact ⟨hres, he⟩

/-! ## Failed operations -/

/-- A failed operation keeps the matches: whatever it does to the contexts, it forgets no fact and
adds none. -/
theorem held_of_failure {n : Node σ} {left : Tuple} {m : Memory σ} {op : Operation}
    {e : RuntimeError} (hf : (n.perform left m op).failure = some e) :
    (n.perform left m op).state.held = m.held := by
  have hs := step_perform n left m op
  revert hf
  generalize n.perform left m op = o at hs
  intro hf
  cases hs with
  | duplicate | unknown | replayFailed => rfl
  | folded | unfolded | replayed => exact absurd hf.symm (Option.some_ne_none e)
  | foldFailed | unfoldFailed => exact held_restore _ _ _ _ _

theorem unobservable_iff_recovers {n : Node σ} {left : Tuple} {m : Memory σ} {op : Operation}
    {e : RuntimeError} (hf : (n.perform left m op).failure = some e) :
    (n.result left (n.perform left m op).state = n.result left m ∧ n.Raises left m op e) ↔
      n.Recovers left m op := by
  have hs := step_perform n left m op
  revert hf
  generalize n.perform left m op = o at hs
  intro hf
  cases hs with
  | folded | unfolded | replayed => exact absurd hf.symm (Option.some_ne_none e)
  | duplicate hc =>
    rw [Outcome.failure_failed, Option.some_inj] at hf
    exact iff_of_true ⟨rfl, hf ▸ .duplicate hc⟩
      (recovers_of_attempt_eq_none (by rw [attempt, if_pos hc]))
  | unknown hg =>
    rw [Outcome.failure_failed, Option.some_inj] at hf
    refine iff_of_true ⟨rfl, hf ▸ .unknown hg⟩ (recovers_of_attempt_eq_none ?_)
    rw [attempt, hg, Option.map_none, ite_self]
  | replayFailed hr hg hp =>
    rw [Outcome.failure_failed, Option.some_inj] at hf
    refine iff_of_true ⟨rfl, hf ▸ .replay hr hg hp⟩ (recovers_of_attempt_eq_none ?_)
    rw [attempt, if_neg (by rw [hr]; exact Bool.false_ne_true)]
  | foldFailed hc hfold =>
    rw [raises_insert_iff hc, hfold, Outcome.failure_failed, Option.some_inj]
    refine restore_unobservable_iff ?_ hf
    rw [attempt, if_neg (by rw [hc]; exact Bool.false_ne_true), hfold]
  | unfoldFailed hr hg hunfold =>
    rw [raises_retract_iff hr hg, hunfold, Outcome.failure_failed, Option.some_inj]
    refine restore_unobservable_iff ?_ hf
    rw [attempt, if_pos hr, hg, Option.map_some, hunfold]

theorem faithful_run_of_no_retract {n : Node σ} {left : Tuple} {m : Memory σ}
    (hm : n.Faithful left m) {ops : List Operation} (hops : ∀ h, .retract h ∉ ops) :
    n.Faithful left (n.run left m ops) := by
  induction ops generalizing m with
  | nil => exact hm
  | cons op ops ih =>
    rw [run_cons]
    refine ih (hm.perform (.inr fun h hop => ?_)) fun h hmem => ?_
    · exact hops h (hop ▸ List.mem_cons_self)
    · exact hops h (List.mem_cons_of_mem _ hmem)

/-- **A failed operation never changes the handles; it keeps the result and answers its own error
exactly if the node recovers.**  A node that recomputes always recovers, and every node does as
long as nothing was retracted. -/
theorem failed_perform_unobservable_iff (n : Node σ) (left : Tuple) {m₀ : Memory σ}
    (h₀ : n.init left = .ok m₀) (ops : List Operation) (op : Operation) (e : RuntimeError)
    (hf : (n.perform left (n.run left m₀ ops) op).failure = some e) :
    (n.perform left (n.run left m₀ ops) op).state.handles = (n.run left m₀ ops).handles ∧
      ((n.result left (n.perform left (n.run left m₀ ops) op).state
            = n.result left (n.run left m₀ ops) ∧ n.Raises left (n.run left m₀ ops) op e) ↔
        n.Recovers left (n.run left m₀ ops) op) ∧
      (n.reverses = false ∨ (∀ h, .retract h ∉ ops) → n.Recovers left (n.run left m₀ ops) op) := by
  refine ⟨congrArg OrderedMap.keys (held_of_failure hf), unobservable_iff_recovers hf, ?_⟩
  rintro (hr | hops)
  · exact (faithful_run_of_not_reverses hr (faithful_init h₀) ops).recovers op
  · exact (faithful_run_of_no_retract (faithful_init h₀) hops).recovers op

/-- A retraction that a ledger refuses when the count has been lowered already: both are restored,
and the error is that of the ledger. -/
theorem failed_perform_unobservable_of_ledger :
    let n := ofFields [(.count, "x"), (.ledger, "x")]
    let m₀ : Memory State := ⟨[.tally 0, .total 0.0], .empty⟩
    let ops := [insertFact 1 [("x", .int 10)], insertFact 2 [("x", .int (-3))]]
    let m := n.run .empty m₀ ops
    let e := RuntimeError.accumulate 1 (.function (.reverseUnsupported "ledger"))
    n.init .empty = .ok m₀ ∧ (n.perform .empty m (.retract ⟨2⟩)).failure = some e ∧
      (n.perform .empty m (.retract ⟨2⟩)).state.handles = m.handles ∧
      n.result .empty (n.perform .empty m (.retract ⟨2⟩)).state = n.result .empty m ∧
      n.Raises .empty m (.retract ⟨2⟩) e := by
  intro n m₀ ops m e
  have h₀ : n.init .empty = .ok m₀ := rfl
  have hf : (n.perform .empty m (.retract ⟨2⟩)).failure = some e := rfl
  obtain ⟨hh, hiff, hrec⟩ := failed_perform_unobservable_iff n .empty h₀ ops (.retract ⟨2⟩) e hf
  obtain ⟨hres, hraise⟩ := hiff.2 (hrec (.inr fun h hmem => by simp [ops, insertFact] at hmem))
  exact ⟨h₀, hf, hh, hres, hraise⟩

/-! ## A run without recovery -/

/-- **A failed insertion can leave its fact in the results.**  A list, a capped ledger and a sum
are given NaN and then 200, which the cap does not notice in a total of NaN.  When the first fact
is gone, a text is inserted: list and cap take it, the sum refuses it, and the restoring replay
fails because 200 lies above the cap.  The text's fact stays in the list, and the error is that of
the replay. -/
theorem failed_insert_leaves_partial_fold :
    let n := ofFields [(.collectList, "y"), (.cap, "x"), (.sum, "x")]
    let nan : Float := 0.0 / 0.0
    let m₀ : Memory State := ⟨[.items [], .total 0.0, .total 0.0], .empty⟩
    let m := n.run .empty m₀ [insertFact 1 [("x", .float nan), ("y", .int 1)],
      insertFact 2 [("x", .int 200), ("y", .int 2)], .retract ⟨1⟩]
    let op := insertFact 3 [("x", .text "a"), ("y", .int 3)]
    n.init .empty = .ok m₀ ∧
      n.Raises .empty m op (.accumulate 2 (.function (.notNumeric "sum" .text))) ∧
      (n.perform .empty m op).failure =
        some (.accumulate 1 (.function (.notNumeric "cap" .integer))) ∧
      n.result .empty m = .ok (.list [.list [.int 2], .float nan, .float nan]) ∧
      n.result .empty (n.perform .empty m op).state =
        .ok (.list [.list [.int 2, .int 3], .float nan, .float nan]) := by
  refine ⟨rfl, (raises_insert_iff rfl _ _).2 rfl, rfl, ?_, ?_⟩
  · decide +kernel
  · decide +kernel

end Node
end RuleAggregate
