import RuleAggregate.Proofs.Node.Run
import RuleAggregate.Proofs.Value.Equality

/-!
# Memories whose contexts are those of a replay

A memory is *faithful* when its contexts are what one gets by folding the matches that it holds
into fresh contexts.  A new memory is faithful, and only a retraction in place can change that.
So the memories of a node that recomputes are always faithful, whatever its accumulators do.

## What is here

* `Node.Faithful` — the contexts of a memory are those of a replay of its matches.
* `Node.Faithful.perform` — insertions and recomputing retractions keep a memory faithful.
* `Node.Faithful.state_of_failure` — a failed operation leaves a faithful memory as it was.
* `Node.Recreates`, `Node.run_recreates` — inserting the held matches anew ends in the contexts of
  their replay.
* `Node.contexts_run_eq_replay` — **a node that recomputes is a function of the held matches.**
-/

set_option autoImplicit false

namespace RuleAggregate

variable {σ : Type}

namespace Node

/-! ## Faithful memories -/

/-- The contexts of the memory are those of a replay of its matches. -/
def Faithful (n : Node σ) (left : Tuple) (m : Memory σ) : Prop :=
  n.replay left m.held.values = .ok m.contexts

theorem faithful_init {n : Node σ} {left : Tuple} {m : Memory σ} (h : n.init left = .ok m) :
    n.Faithful left m := by
  obtain ⟨hf, hm⟩ := init_eq_ok_iff.1 h
  rw [Faithful, hm]
  exact (replay_nil n left).trans hf

/-- A step on the contexts that failed is undone entirely in a faithful memory. -/
theorem Faithful.restore_eq {n : Node σ} {left : Tuple} {m : Memory σ} (hm : n.Faithful left m)
    (cs : List σ) (e : RuntimeError) : n.restore left m cs e = .failed m e :=
  restore_of_ok hm cs e

/-- **A failed operation leaves a faithful memory as it was.**  This holds for every node: it is
the restoring replay that makes it true, and the replay gives the old contexts back. -/
theorem Faithful.state_of_failure {n : Node σ} {left : Tuple} {m : Memory σ}
    (hm : n.Faithful left m) {op : Operation} {e : RuntimeError}
    (hf : (n.perform left m op).failure = some e) : (n.perform left m op).state = m := by
  have hs := step_perform n left m op
  revert hf
  generalize n.perform left m op = o at hs
  intro hf
  cases hs with
  | duplicate | unknown | replayFailed => rfl
  | folded | unfolded | replayed => exact absurd hf.symm (Option.some_ne_none e)
  | foldFailed | unfoldFailed => rw [hm.restore_eq, Outcome.state_failed]

/-- **Only a retraction in place can make a memory unfaithful.** -/
theorem Faithful.perform {n : Node σ} {left : Tuple} {m : Memory σ} (hm : n.Faithful left m)
    {op : Operation} (hop : n.reverses = false ∨ ∀ h, op ≠ .retract h) :
    n.Faithful left (n.perform left m op).state := by
  have hs := step_perform n left m op
  generalize n.perform left m op = o at hs
  cases hs with
  | duplicate | unknown | replayFailed => exact hm
  | foldFailed | unfoldFailed => rw [hm.restore_eq, Outcome.state_failed]; exact hm
  | folded hc hf =>
    show n.replay left (m.held.put _ _).values = _
    rw [OrderedMap.values_put_of_not_contains _ hc]
    exact replay_concat hm hf
  | @unfolded h x cs hr =>
    rcases hop with hop | hop
    · rw [hr] at hop
      exact absurd hop Bool.false_ne_true.symm
    · exact absurd rfl (hop h)
  | replayed hr hg hp => exact hp

theorem faithful_run_of_not_reverses {n : Node σ} {left : Tuple} (hr : n.reverses = false)
    {m : Memory σ} (hm : n.Faithful left m) (ops : List Operation) :
    n.Faithful left (n.run left m ops) :=
  run_induction (fun _ _ h => h.perform (.inl hr)) ops m hm

/-! ## Inserting the held matches anew -/

/-- The operations insert the matches that a memory holds, under their handles and in their
order. -/
def Recreates (n : Node σ) (left : Tuple) (m : Memory σ) (ops : List Operation) : Prop :=
  ops.map (n.insertion? left) = m.held.entries.map some

instance decidableEqMatch : DecidableEq Match := fun x y =>
  decidable_of_iff (x.tuple = y.tuple ∧ x.fact = y.fact) (by cases x; cases y; simp)

instance decidableRecreates (n : Node σ) (left : Tuple) (m : Memory σ) (ops : List Operation) :
    Decidable (n.Recreates left m ops) :=
  inferInstanceAs (Decidable (ops.map (n.insertion? left) = m.held.entries.map some))

theorem run_of_map_insertion? {n : Node σ} {left : Tuple} (es : Assoc Handle Match) :
    ∀ (ops : List Operation) (m : Memory σ) (cs : List σ),
      ops.map (n.insertion? left) = es.map some → (m.held.entries ++ es).keys.Nodup →
      Outcome.run n.fold m.contexts es.values = .success cs →
        (n.run left m ops).contexts = cs ∧
          (n.run left m ops).held.entries = m.held.entries ++ es := by
  induction es with
  | nil =>
    intro ops m cs hops _ hfold
    rw [List.map_nil, List.map_eq_nil_iff] at hops
    rw [hops]
    cases hfold
    exact ⟨rfl, (List.append_nil _).symm⟩
  | cons e es ih =>
    intro ops m cs hops hnodup hfold
    obtain ⟨op, ops', rfl, hop, hops'⟩ := List.map_eq_cons_iff.1 hops
    obtain ⟨h, objects, rfl, rfl⟩ : ∃ h objects, op = .insert h objects ∧
        (h, n.matchOf left objects) = e := by
      cases op with
      | insert h objects => exact ⟨h, objects, rfl, Option.some.inj hop⟩
      | retract h => cases hop
    have hnew : h ∉ m.held.entries.keys := by
      rw [Assoc.keys, List.map_append, List.nodup_append] at hnodup
      exact fun he => hnodup.2.2 h he h List.mem_cons_self rfl
    have hc : m.contains h = false := by
      rw [Bool.eq_false_iff, ne_eq, Memory.contains, OrderedMap.contains_iff]
      exact hnew
    have hsplit : (n.fold m.contexts (n.matchOf left objects)).andThen
        (fun cs => Outcome.run n.fold cs (Assoc.values es)) = .success cs := hfold
    cases hf : (n.fold m.contexts (n.matchOf left objects)).failure with
    | some err =>
      rw [Outcome.eq_failed_of_failure hf, Outcome.andThen_failed] at hsplit
      cases hsplit
    | none =>
      rw [Outcome.eq_success_of_failure hf, Outcome.andThen_success] at hsplit
      have hput : (m.held.put h (n.matchOf left objects)).entries =
          m.held.entries ++ [(h, n.matchOf left objects)] := Assoc.put_of_not_mem hnew
      have hperform : (n.perform left m (.insert h objects)).state =
          ⟨(n.fold m.contexts (n.matchOf left objects)).state,
            m.held.put h (n.matchOf left objects)⟩ := by
        simp only [perform, insert, hc, hf, Bool.false_eq_true, if_false]
        rfl
      rw [run_cons, hperform]
      obtain ⟨hcs, hes⟩ := ih ops' ⟨_, m.held.put h (n.matchOf left objects)⟩ cs hops'
        (by rw [hput, List.append_assoc]; exact hnodup) hsplit
      exact ⟨hcs, by rw [hes, hput, List.append_assoc]; rfl⟩

/-- **Inserting the held matches anew ends in the contexts of their replay.** -/
theorem run_recreates {n : Node σ} {left : Tuple} {m₀ m : Memory σ} (h₀ : n.init left = .ok m₀)
    {cs : List σ} (hr : n.replay left m.held.values = .ok cs) {ops : List Operation}
    (hops : n.Recreates left m ops) : n.run left m₀ ops = ⟨cs, m.held⟩ := by
  obtain ⟨hfresh, hempty⟩ := init_eq_ok_iff.1 h₀
  obtain ⟨c₀, hc₀, hfold⟩ := replay_eq_ok_iff.1 hr
  rw [hfresh] at hc₀
  cases hc₀
  have hnodup : (m₀.held.entries ++ m.held.entries).keys.Nodup := by
    rw [hempty]
    exact m.held.nodup
  obtain ⟨hcs, hes⟩ := run_of_map_insertion? m.held.entries ops m₀ cs hops hnodup hfold
  rw [hempty] at hes
  have hheld : (n.run left m₀ ops).held = m.held := OrderedMap.ext_entries hes
  rw [← hcs, ← hheld]

/-- Whatever a memory holds after a run was inserted by the run, so it can be inserted anew. -/
theorem exists_recreates {n : Node σ} {left : Tuple} {m₀ : Memory σ} (h₀ : n.init left = .ok m₀)
    (ops : List Operation) : ∃ ops', n.Recreates left (n.run left m₀ ops) ops' := by
  have hplaced : ∀ p ∈ (n.run left m₀ ops).held.entries,
      ∃ op, n.insertion? left op = some p := by
    refine run_induction (P := fun m => ∀ p ∈ m.held.entries,
      ∃ op, n.insertion? left op = some p) (fun m op hm p hp => ?_) ops m₀ ?_
    · rcases mem_held_perform hp with hp | h
      · exact hm p hp
      · exact ⟨op, h⟩
    · rw [(init_eq_ok_iff.1 h₀).2]
      exact nofun
  show ∃ ops' : List Operation,
    ops'.map (n.insertion? left) = (n.run left m₀ ops).held.entries.map some
  generalize (n.run left m₀ ops).held.entries = es at hplaced
  induction es with
  | nil => exact ⟨[], rfl⟩
  | cons p es ih =>
    rw [List.forall_mem_cons] at hplaced
    obtain ⟨op, hop⟩ := hplaced.1
    obtain ⟨ops', hops'⟩ := ih hplaced.2
    exact ⟨op :: ops', by rw [List.map_cons, List.map_cons, hop, hops']⟩

/-! ## Nodes that recompute -/

/-- An insertion under a new handle into a faithful memory fails with the error of the first
accumulator that fails to fold in the match. -/
theorem Faithful.firstFailure_of_insert {n : Node σ} {left : Tuple} {m : Memory σ}
    (hm : n.Faithful left m) {h : Handle} {objects : List Value} (hc : m.contains h = false)
    {e : RuntimeError} (hf : (n.perform left m (.insert h objects)).failure = some e) :
    ∃ i err, e = .accumulate i err ∧
      FirstFailure Accumulator.accumulate (n.matchOf left objects) n.accumulators m.contexts
        i err := by
  have hs := step_perform n left m (.insert h objects)
  revert hf
  generalize n.perform left m (.insert h objects) = o at hs
  intro hf
  cases hs with
  | duplicate hd =>
    rw [hc] at hd
    exact absurd hd Bool.false_ne_true
  | folded => exact absurd hf.symm (Option.some_ne_none e)
  | foldFailed _ hfold =>
    rw [hm.restore_eq, Outcome.failure_failed, Option.some_inj] at hf
    have hfail : (n.fold m.contexts (n.matchOf left objects)).failure = some e := by
      rw [hfold, Outcome.failure_failed, hf]
    obtain ⟨i, err, he, hfirst⟩ := (stepFrom_failure_iff _ _ _ _).1 hfail
    exact ⟨i, err, by rw [he, Nat.zero_add], hfirst⟩

/-- **A node that recomputes is a function of the held matches.**  After any run from the new
memory of a left tuple, the contexts are those of a replay of the held matches.  An operation that
fails leaves the memory as it was; an insertion that is not refused for its handle fails with the
error of the first accumulator that fails to fold in its match. -/
theorem contexts_run_eq_replay (n : Node σ) (left : Tuple) (hr : n.reverses = false)
    {m₀ : Memory σ} (h₀ : n.init left = .ok m₀) (ops : List Operation) :
    n.replay left (n.run left m₀ ops).held.values = .ok (n.run left m₀ ops).contexts ∧
      ∀ op e, (n.perform left (n.run left m₀ ops) op).failure = some e →
        (n.perform left (n.run left m₀ ops) op).state = n.run left m₀ ops ∧
          ∀ h objects, op = .insert h objects → (n.run left m₀ ops).contains h = false →
            ∃ i err, e = .accumulate i err ∧
              FirstFailure Accumulator.accumulate (n.matchOf left objects) n.accumulators
                (n.run left m₀ ops).contexts i err := by
  have hm := faithful_run_of_not_reverses hr (faithful_init h₀) ops
  refine ⟨hm, fun op e hf => ⟨hm.state_of_failure hf, ?_⟩⟩
  rintro h objects rfl hc
  exact hm.firstFailure_of_insert hc hf

/-- The smallest value and the number of values over three operations.  The retraction recomputes;
the second insertion fails in the second accumulator, when the first has counted its fact. -/
theorem contexts_run_eq_replay_of_count_min :
    let n := ofFields [(.count, "x"), (.min, "x")]
    let m₀ : Memory State := ⟨[.tally 0, .best .null], .empty⟩
    let m := n.run .empty m₀
      [insertFact 1 [("x", .int 3)], insertFact 2 [("x", .int 1)], .retract ⟨2⟩]
    let op := insertFact 4 [("x", .text "a")]
    let e := RuntimeError.accumulate 1 (.function (.notNumeric "min" .text))
    n.reverses = false ∧ n.init .empty = .ok m₀ ∧
      n.replay .empty m.held.values = .ok m.contexts ∧
      (n.perform .empty m op).failure = some e ∧ (n.perform .empty m op).state = m ∧
      ∃ i err, e = .accumulate i err ∧
        FirstFailure Accumulator.accumulate (n.matchOf .empty [.fact "Order" [("x", .text "a")]])
          n.accumulators m.contexts i err := by
  intro n m₀ m op e
  have hr : n.reverses = false := rfl
  have h₀ : n.init .empty = .ok m₀ := rfl
  have hf : (n.perform .empty m op).failure = some e := by decide +kernel
  obtain ⟨hp, hfail⟩ := contexts_run_eq_replay n .empty hr h₀
    [insertFact 1 [("x", .int 3)], insertFact 2 [("x", .int 1)], .retract ⟨2⟩]
  obtain ⟨hstate, hfirst⟩ := hfail op e hf
  have hc : m.contains ⟨4⟩ = false := by decide +kernel
  exact ⟨hr, h₀, hp, hf, hstate, hfirst _ _ rfl hc⟩

end Node
end RuleAggregate
