import Mathlib.Data.List.Forall2
import RuleAggregate.Node.Memory

/-!
# Runs of operations on a memory

`RuleAggregate.Node.Memory` says what one insertion and one retraction do.  This file looks at
whole runs: operations carried out one after the other on the memory of one left tuple, whether
they succeed or not.

## What is here

* `Operation`, `Node.perform`, `Node.run` — operations as data, and runs of them.
* `FirstFailure`, `Node.stepFrom_failure_iff` — a step with all accumulators fails with the error
  of the first accumulator that fails, and only then.
* `Node.Step`, `Node.step_perform` — **everything that an operation can do**: one case for every
  way in which it can end.  Whatever is true of all operations is proved by these cases.
* `Node.run_induction` — what every operation preserves, a run preserves.
* `Node.ofFields` — small nodes, on which runs can be evaluated.
-/

set_option autoImplicit false

namespace RuleAggregate

variable {σ : Type}

/-! ## Operations -/

/-- An operation on a memory. -/
inductive Operation where
  /-- Folds in the match of the objects under a handle. -/
  | insert (h : Handle) (objects : List Value)
  /-- Takes back the match that is held under a handle. -/
  | retract (h : Handle)

/-- The accumulator at the index fails to take a step with the match, and those before it take
it. -/
def FirstFailure (step : Accumulator σ → σ → Tuple → Value → Outcome σ AccumulateError) (m : Match)
    (as : List (Accumulator σ)) (cs : List σ) (index : Nat) (e : AccumulateError) : Prop :=
  (∃ a c, as[index]? = some a ∧ cs[index]? = some c ∧
      (step a c m.tuple m.fact).failure = some e) ∧
    ∀ j < index, ∀ a c, as[j]? = some a → cs[j]? = some c →
      (step a c m.tuple m.fact).failure = none

namespace Node

/-- Carries out an operation on a memory of the left tuple. -/
def perform (n : Node σ) (left : Tuple) (m : Memory σ) :
    Operation → Outcome (Memory σ) RuntimeError
  | .insert h objects => n.insert left m h objects
  | .retract h => n.retract left m h

/-- The memory after all the operations, the failed ones included. -/
def run (n : Node σ) (left : Tuple) (m : Memory σ) (ops : List Operation) : Memory σ :=
  ops.foldl (fun m op => (n.perform left m op).state) m

theorem run_cons (n : Node σ) (left : Tuple) (m : Memory σ) (op : Operation)
    (ops : List Operation) :
    n.run left m (op :: ops) = n.run left (n.perform left m op).state ops := rfl

theorem run_induction {n : Node σ} {left : Tuple} {P : Memory σ → Prop}
    (hstep : ∀ m op, P m → P (n.perform left m op).state) (ops : List Operation) :
    ∀ m, P m → P (n.run left m ops) := by
  induction ops with
  | nil => exact fun _ h => h
  | cons op ops ih =>
    intro m h
    rw [run_cons]
    exact ih _ (hstep m op h)

/-! ## Steps with all accumulators -/

section Accumulators

variable {step : Accumulator σ → σ → Tuple → Value → Outcome σ AccumulateError} {m : Match}

theorem stepFrom_nil (k : Nat) (cs : List σ) : stepFrom step k m [] cs = .success cs := by
  rw [stepFrom]
  simp

theorem stepFrom_nil_right (k : Nat) (as : List (Accumulator σ)) :
    stepFrom step k m as [] = .success [] := by
  rw [stepFrom]
  simp

theorem stepFrom_cons_of_success {a : Accumulator σ} {c : σ}
    (h : (step a c m.tuple m.fact).failure = none) (k : Nat) (as : List (Accumulator σ))
    (cs : List σ) :
    stepFrom step k m (a :: as) (c :: cs) =
      ⟨(step a c m.tuple m.fact).state :: (stepFrom step (k + 1) m as cs).state,
        (stepFrom step (k + 1) m as cs).failure⟩ := by
  simp only [stepFrom, h]

theorem stepFrom_cons_of_failure {a : Accumulator σ} {c : σ} {e : AccumulateError}
    (h : (step a c m.tuple m.fact).failure = some e) (k : Nat) (as : List (Accumulator σ))
    (cs : List σ) :
    stepFrom step k m (a :: as) (c :: cs) =
      .failed ((step a c m.tuple m.fact).state :: cs) (.accumulate k e) := by
  simp only [stepFrom, h]

theorem firstFailure_zero_iff {a : Accumulator σ} {as : List (Accumulator σ)} {c : σ} {cs : List σ}
    {e : AccumulateError} :
    FirstFailure step m (a :: as) (c :: cs) 0 e ↔
      (step a c m.tuple m.fact).failure = some e := by
  simp [FirstFailure]

theorem firstFailure_succ_iff {a : Accumulator σ} {as : List (Accumulator σ)} {c : σ} {cs : List σ}
    {i : Nat} {e : AccumulateError} :
    FirstFailure step m (a :: as) (c :: cs) (i + 1) e ↔
      (step a c m.tuple m.fact).failure = none ∧ FirstFailure step m as cs i e := by
  constructor
  · rintro ⟨hf, hs⟩
    refine ⟨hs 0 (by omega) a c rfl rfl, by simpa using hf, fun j hj b d hb hd => ?_⟩
    exact hs (j + 1) (by omega) b d (by simpa using hb) (by simpa using hd)
  · rintro ⟨ha, hf, hs⟩
    refine ⟨by simpa using hf, fun j hj b d hb hd => ?_⟩
    cases j with
    | zero =>
      rw [List.getElem?_cons_zero, Option.some_inj] at hb hd
      rw [← hb, ← hd]
      exact ha
    | succ j => exact hs j (by omega) b d (by simpa using hb) (by simpa using hd)

/-- **A step fails with the error of the first accumulator that fails.** -/
theorem stepFrom_failure_iff (as : List (Accumulator σ)) :
    ∀ (k : Nat) (cs : List σ) (e : RuntimeError),
      (stepFrom step k m as cs).failure = some e ↔
        ∃ i err, e = .accumulate (k + i) err ∧ FirstFailure step m as cs i err := by
  induction as with
  | nil =>
    intro k cs e
    simp [stepFrom_nil, FirstFailure]
  | cons a as ih =>
    intro k cs e
    cases cs with
    | nil => simp [stepFrom_nil_right, FirstFailure]
    | cons c cs =>
      cases ha : (step a c m.tuple m.fact).failure with
      | some err =>
        rw [stepFrom_cons_of_failure ha, Outcome.failure_failed, Option.some_inj]
        constructor
        · rintro rfl
          exact ⟨0, err, rfl, firstFailure_zero_iff.2 ha⟩
        · rintro ⟨i, err', rfl, hf⟩
          cases i with
          | zero =>
            rw [firstFailure_zero_iff, ha, Option.some_inj] at hf
            rw [hf, Nat.add_zero]
          | succ i =>
            rw [firstFailure_succ_iff, ha] at hf
            exact absurd hf.1 (Option.some_ne_none _)
      | none =>
        rw [stepFrom_cons_of_success ha]
        refine (ih (k + 1) cs e).trans ⟨?_, ?_⟩
        · rintro ⟨i, err, rfl, hf⟩
          exact ⟨i + 1, err, by rw [Nat.add_assoc, Nat.add_comm 1 i],
            firstFailure_succ_iff.2 ⟨ha, hf⟩⟩
        · rintro ⟨i, err, rfl, hf⟩
          cases i with
          | zero =>
            rw [firstFailure_zero_iff, ha] at hf
            exact absurd hf.symm (Option.some_ne_none _)
          | succ i =>
            exact ⟨i, err, by rw [Nat.add_assoc, Nat.add_comm 1 i],
              (firstFailure_succ_iff.1 hf).2⟩

section Families

variable {ι : Type} {acc : ι → Accumulator σ}

/-- If every accumulator takes the step, so do all of them together. -/
theorem stepFrom_map {c d : ι → σ} {is : List ι}
    (hstep : ∀ i ∈ is, step (acc i) (c i) m.tuple m.fact = .success (d i)) (k : Nat) :
    stepFrom step k m (is.map acc) (is.map c) = .success (is.map d) := by
  induction is generalizing k with
  | nil => exact stepFrom_nil k []
  | cons i is ih =>
    rw [List.forall_mem_cons] at hstep
    have hi : (step (acc i) (c i) m.tuple m.fact).failure = none := by
      rw [hstep.1, Outcome.failure_success]
    rw [List.map_cons, List.map_cons, stepFrom_cons_of_success hi, ih hstep.2, hstep.1]
    rfl

/-- What every accumulator establishes by a step, all of them establish together. -/
theorem forall₂_stepFrom {P Q : ι → σ → Prop}
    (hstep : ∀ i c, P i c → (step (acc i) c m.tuple m.fact).failure = none →
      Q i (step (acc i) c m.tuple m.fact).state) {is : List ι} {cs : List σ}
    (h : List.Forall₂ P is cs) (k : Nat)
    (hf : (stepFrom step k m (is.map acc) cs).failure = none) :
    List.Forall₂ Q is (stepFrom step k m (is.map acc) cs).state := by
  induction h generalizing k with
  | nil => exact .nil
  | @cons i c is cs hic _ ih =>
    rw [List.map_cons] at hf ⊢
    cases hi : (step (acc i) c m.tuple m.fact).failure with
    | some e =>
      rw [stepFrom_cons_of_failure hi, Outcome.failure_failed] at hf
      exact absurd hf (Option.some_ne_none _)
    | none =>
      rw [stepFrom_cons_of_success hi] at hf ⊢
      exact .cons (hstep _ _ hic hi) (ih (k + 1) hf)

/-- Accumulators that go together with contexts take a step together exactly if each of them takes
it. -/
theorem stepFrom_failure_eq_none_iff {P : ι → Prop} {is : List ι} {cs : List σ}
    (h : List.Forall₂ (fun i c => (step (acc i) c m.tuple m.fact).failure = none ↔ P i) is cs)
    (k : Nat) : (stepFrom step k m (is.map acc) cs).failure = none ↔ ∀ i ∈ is, P i := by
  induction h generalizing k with
  | nil => simp [stepFrom_nil]
  | @cons i c is cs hic _ ih =>
    rw [List.map_cons, List.forall_mem_cons, ← hic]
    cases hf : (step (acc i) c m.tuple m.fact).failure with
    | some e => simp [stepFrom_cons_of_failure hf]
    | none => simp [stepFrom_cons_of_success hf, ih]

end Families

end Accumulators

/-! ## Fresh contexts and replay -/

theorem freshFrom_eq_ok_iff {left : Tuple} {as : List (Accumulator σ)} (k : Nat) {cs : List σ} :
    freshFrom k left as = .ok cs ↔ List.Forall₂ (fun a c => a.init left = .ok c) as cs := by
  induction as generalizing k cs with
  | nil => simp [freshFrom, eq_comm]
  | cons a as ih =>
    rw [freshFrom, List.forall₂_cons_left_iff]
    cases ha : a.init left with
    | error e => simp
    | ok c =>
      constructor
      · intro h
        cases hf : freshFrom (k + 1) left as with
        | error e =>
          rw [hf] at h
          exact absurd h (by simp [Except.map])
        | ok ds =>
          rw [hf] at h
          cases h
          exact ⟨c, ds, rfl, (ih (k + 1)).1 hf, rfl⟩
      · rintro ⟨d, ds, hd, hds, rfl⟩
        cases hd
        simp only [(ih (k + 1)).2 hds, Except.map]

theorem replay_eq_ok_iff {n : Node σ} {left : Tuple} {ms : List Match} {cs : List σ} :
    n.replay left ms = .ok cs ↔
      ∃ c₀, n.fresh left = .ok c₀ ∧ Outcome.run n.fold c₀ ms = .success cs := by
  rw [replay]
  cases n.fresh left with
  | error e => simp
  | ok c₀ =>
    simp only [Except.ok.injEq, exists_eq_left']
    generalize Outcome.run n.fold c₀ ms = o
    obtain ⟨ds, f⟩ := o
    cases f <;> simp [Outcome.success]

theorem replay_nil (n : Node σ) (left : Tuple) : n.replay left [] = n.fresh left := by
  rw [replay]
  cases n.fresh left <;> rfl

/-- Replaying one more match folds it into what the others left behind. -/
theorem replay_concat {n : Node σ} {left : Tuple} {ms : List Match} {m : Match} {cs ds : List σ}
    (hr : n.replay left ms = .ok cs) (hf : n.fold cs m = .success ds) :
    n.replay left (ms ++ [m]) = .ok ds := by
  obtain ⟨c₀, h₀, hms⟩ := replay_eq_ok_iff.1 hr
  refine replay_eq_ok_iff.2 ⟨c₀, h₀, ?_⟩
  rw [Outcome.run_append, hms, Outcome.andThen_success, Outcome.run_cons, hf,
    Outcome.andThen_success, Outcome.run_nil]

theorem init_eq_ok_iff {n : Node σ} {left : Tuple} {m : Memory σ} :
    n.init left = .ok m ↔ n.fresh left = .ok m.contexts ∧ m.held = .empty := by
  obtain ⟨contexts, held⟩ := m
  rw [init]
  cases n.fresh left <;> simp [Except.map, eq_comm]

/-! ## What an operation can do -/

/-- The ways in which an operation can end. -/
inductive Step (n : Node σ) (left : Tuple) (m : Memory σ) :
    Operation → Outcome (Memory σ) RuntimeError → Prop
  /-- The handle is held already. -/
  | duplicate {h : Handle} {objects : List Value} (hc : m.contains h = true) :
      Step n left m (.insert h objects) (.failed m (.duplicateHandle h))
  /-- The match is folded in. -/
  | folded {h : Handle} {objects : List Value} {cs : List σ} (hc : m.contains h = false)
      (hf : n.fold m.contexts (n.matchOf left objects) = .success cs) :
      Step n left m (.insert h objects) (.success ⟨cs, m.held.put h (n.matchOf left objects)⟩)
  /-- The match cannot be folded in, and what was changed is restored. -/
  | foldFailed {h : Handle} {objects : List Value} {cs : List σ} {e : RuntimeError}
      (hc : m.contains h = false)
      (hf : n.fold m.contexts (n.matchOf left objects) = .failed cs e) :
      Step n left m (.insert h objects) (n.restore left m cs e)
  /-- The handle is not held. -/
  | unknown {h : Handle} (hg : m.held.get? h = none) :
      Step n left m (.retract h) (.failed m (.unknownHandle h))
  /-- The match is taken back in place. -/
  | unfolded {h : Handle} {x : Match} {cs : List σ} (hr : n.reverses = true)
      (hg : m.held.get? h = some x) (hf : n.unfold m.contexts x = .success cs) :
      Step n left m (.retract h) (.success ⟨cs, m.held.erase h⟩)
  /-- The match cannot be taken back in place, and what was changed is restored. -/
  | unfoldFailed {h : Handle} {x : Match} {cs : List σ} {e : RuntimeError}
      (hr : n.reverses = true) (hg : m.held.get? h = some x)
      (hf : n.unfold m.contexts x = .failed cs e) :
      Step n left m (.retract h) (n.restore left m cs e)
  /-- The contexts are rebuilt without the match. -/
  | replayed {h : Handle} {x : Match} {cs : List σ} (hr : n.reverses = false)
      (hg : m.held.get? h = some x) (hp : n.replay left (m.held.erase h).values = .ok cs) :
      Step n left m (.retract h) (.success ⟨cs, m.held.erase h⟩)
  /-- The contexts cannot be rebuilt without the match. -/
  | replayFailed {h : Handle} {x : Match} {e : RuntimeError} (hr : n.reverses = false)
      (hg : m.held.get? h = some x) (hp : n.replay left (m.held.erase h).values = .error e) :
      Step n left m (.retract h) (.failed m e)

/-- **Every operation ends in one of these ways.** -/
theorem step_perform (n : Node σ) (left : Tuple) (m : Memory σ) (op : Operation) :
    Step n left m op (n.perform left m op) := by
  cases op with
  | insert h objects =>
    cases hc : m.contains h with
    | true =>
      rw [perform, insert, hc]
      exact .duplicate hc
    | false =>
      simp only [perform, insert, hc, Bool.false_eq_true, if_false]
      cases hf : (n.fold m.contexts (n.matchOf left objects)).failure with
      | none => exact .folded hc (Outcome.eq_success_of_failure hf)
      | some e => exact .foldFailed hc (Outcome.eq_failed_of_failure hf)
  | retract h =>
    cases hg : m.held.get? h with
    | none =>
      rw [perform, retract, hg]
      exact .unknown hg
    | some x =>
      cases hr : n.reverses with
      | true =>
        simp only [perform, retract, hg, hr, if_true]
        cases hf : (n.unfold m.contexts x).failure with
        | none => exact .unfolded hr hg (Outcome.eq_success_of_failure hf)
        | some e => exact .unfoldFailed hr hg (Outcome.eq_failed_of_failure hf)
      | false =>
        simp only [perform, retract, hg, hr, Bool.false_eq_true, if_false]
        cases hp : n.replay left (m.held.erase h).values with
        | error e => exact .replayFailed hr hg hp
        | ok cs => exact .replayed hr hg hp

theorem restore_of_ok {n : Node σ} {left : Tuple} {m : Memory σ} {ds : List σ}
    (hp : n.replay left m.held.values = .ok ds) (cs : List σ) (e : RuntimeError) :
    n.restore left m cs e = .failed { m with contexts := ds } e := by
  rw [restore, hp]

theorem restore_of_error {n : Node σ} {left : Tuple} {m : Memory σ} {e' : RuntimeError}
    (hp : n.replay left m.held.values = .error e') (cs : List σ) (e : RuntimeError) :
    n.restore left m cs e = .failed { m with contexts := cs } e' := by
  rw [restore, hp]

theorem held_restore (n : Node σ) (left : Tuple) (m : Memory σ) (cs : List σ) (e : RuntimeError) :
    (n.restore left m cs e).state.held = m.held := by
  rw [restore]
  cases n.replay left m.held.values <;> rfl

/-- The match that an operation inserts, with its handle. -/
def insertion? (n : Node σ) (left : Tuple) : Operation → Option (Handle × Match)
  | .insert h objects => some (h, n.matchOf left objects)
  | .retract _ => none

/-- A match that is held after an operation was held before it, or is the one that was inserted. -/
theorem mem_held_perform {n : Node σ} {left : Tuple} {m : Memory σ} {op : Operation}
    {p : Handle × Match} (hp : p ∈ (n.perform left m op).state.held.entries) :
    p ∈ m.held.entries ∨ n.insertion? left op = some p := by
  have hs := step_perform n left m op
  revert hp
  generalize n.perform left m op = o at hs
  intro hp
  cases hs with
  | duplicate | unknown | replayFailed => exact .inl hp
  | foldFailed | unfoldFailed =>
    rw [held_restore] at hp
    exact .inl hp
  | unfolded | replayed => exact .inl ((Assoc.erase_sublist _ _).subset hp)
  | @folded h objects cs hc =>
    have hnew : h ∉ m.held.entries.keys := by
      rw [Memory.contains, Bool.eq_false_iff, ne_eq, OrderedMap.contains_iff] at hc
      exact hc
    have hput : (m.held.put h (n.matchOf left objects)).entries =
        m.held.entries ++ [(h, n.matchOf left objects)] := Assoc.put_of_not_mem hnew
    rw [Outcome.state_success, hput, List.mem_append, List.mem_singleton] at hp
    rcases hp with hp | rfl
    · exact .inl hp
    · exact .inr rfl

/-! ## Nodes over single facts -/

/-- The node over single facts that feeds a field of every fact to each of the functions. -/
def ofFields (calls : List (AggregateFunction State × String)) : Node State where
  source := .pattern (.atOffset 0 .any false)
  required := []
  shape := .several (calls.map fun c => .feeding c.1 fun _ fact => readField fact c.2)
  incremental := true

/-- The operation that inserts a single fact with the given fields. -/
def insertFact (id : UInt64) (fields : List (String × Value)) : Operation :=
  .insert ⟨id⟩ [.fact "Order" fields]

end Node
end RuleAggregate
