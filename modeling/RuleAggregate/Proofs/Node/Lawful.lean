import RuleAggregate.Proofs.Node.Recompute

/-!
# Accumulators that can be trusted to take matches back

A node that reverses never looks at the held matches when it takes one back: it relies on its
accumulators to undo what they folded in, wherever in the history that was.  This file states the
contract that an accumulator must keep for this, and shows that it is enough.

## What is here

* `Accumulator.Folds` — the context in which folding matches in, one after the other, ends.
* `Accumulator.Lawful` — **the contract**: taking any match of the history back gives the context
  into which the others were folded.
* `Node.replay_eq_ok_iff_folds` — a replay is a replay of every accumulator on its own.
* `Node.Faithful.retract_of_lawful` — taking a held match back succeeds and gives a replay.
* `Node.lawful_contexts_run` — **nodes over lawful accumulators are functions of the held matches**,
  and the counting function is lawful.
-/

set_option autoImplicit false

namespace RuleAggregate

variable {σ : Type}

/-! ## The contract -/

namespace Accumulator

/-- Folding the matches into the context, one after the other, succeeds with the context `d`. -/
def FoldsFrom (a : Accumulator σ) (c : σ) (xs : List Match) (d : σ) : Prop :=
  Outcome.run (fun c x => a.accumulate c x.tuple x.fact) c xs = .success d

/-- Folding the matches into the fresh context of the left tuple succeeds with the context `c`. -/
def Folds (a : Accumulator σ) (left : Tuple) (xs : List Match) (c : σ) : Prop :=
  ∃ c₀, a.init left = .ok c₀ ∧ a.FoldsFrom c₀ xs c

/-- **The contract of taking back.**  Whatever matches were folded in before and after a match, the
others can be folded in without it, and taking it back gives the very context in which that
ends. -/
def Lawful (a : Accumulator σ) : Prop :=
  ∀ (left : Tuple) (xs ys : List Match) (x : Match) (c : σ), a.Folds left (xs ++ x :: ys) c →
    ∃ d, a.Folds left (xs ++ ys) d ∧ a.reverse c x.tuple x.fact = .success d

theorem foldsFrom_nil_iff {a : Accumulator σ} {c d : σ} : a.FoldsFrom c [] d ↔ c = d := by
  simp [FoldsFrom, Outcome.success]

theorem foldsFrom_cons_iff {a : Accumulator σ} {c e : σ} {x : Match} {xs : List Match} :
    a.FoldsFrom c (x :: xs) e ↔
      ∃ d, a.accumulate c x.tuple x.fact = .success d ∧ a.FoldsFrom d xs e :=
  Outcome.run_cons_eq_success_iff

/-! ## Counting is lawful -/

section Count

variable {argument : Tuple → Value → Except ReadError Value}

/-- Counting goes through exactly if every match has a value, and then counts the matches. -/
theorem foldsFrom_count_iff {xs : List Match} :
    ∀ {k : Int64} {s : State}, (feeding .count argument).FoldsFrom (.tally k) xs s ↔
      (∀ x ∈ xs, ∃ v, argument x.tuple x.fact = .ok v) ∧
        s = .tally (k + Int64.ofNat xs.length) := by
  induction xs with
  | nil =>
    intro k s
    have hzero : k + Int64.ofNat 0 = k := Int64.add_zero k
    rw [foldsFrom_nil_iff, List.length_nil, hzero]
    simp [eq_comm]
  | cons x xs ih =>
    intro k s
    have hlen : k + 1 + Int64.ofNat xs.length = k + Int64.ofNat (x :: xs).length := by
      rw [List.length_cons, Nat.add_comm, Int64.ofNat_add, ← Int64.add_assoc]
      rfl
    rw [foldsFrom_cons_iff, List.forall_mem_cons]
    cases hv : argument x.tuple x.fact with
    | error e =>
      have hstep : (feeding .count argument).accumulate (.tally k) x.tuple x.fact =
          .failed (.tally k) (.read e) := by
        show feed _ (argument x.tuple x.fact) _ = _
        rw [hv]
        rfl
      simp [hstep, Outcome.success, Outcome.failed]
    | ok v =>
      have hstep : (feeding .count argument).accumulate (.tally k) x.tuple x.fact =
          .success (.tally (k + 1)) := by
        show feed _ (argument x.tuple x.fact) _ = _
        rw [hv]
        rfl
      have hsuccess : ∀ {d : State}, (Outcome.success (State.tally (k + 1)) :
          Outcome State AccumulateError) = .success d ↔ State.tally (k + 1) = d := by
        simp [Outcome.success]
      simp only [hstep, hsuccess, exists_eq_left', ih, hlen, Except.ok.injEq, exists_eq', true_and]

/-- **Counting is lawful**, whatever is counted. -/
theorem lawful_count : (feeding .count argument).Lawful := by
  rintro left xs ys x s ⟨c₀, h₀, hfolds⟩
  cases h₀
  obtain ⟨hall, rfl⟩ := foldsFrom_count_iff.1 hfolds
  rw [List.forall_mem_append, List.forall_mem_cons] at hall
  obtain ⟨hxs, ⟨v, hv⟩, hys⟩ := hall
  have hothers : (feeding .count argument).FoldsFrom (.tally 0) (xs ++ ys)
      (.tally (0 + Int64.ofNat (xs ++ ys).length)) :=
    foldsFrom_count_iff.2 ⟨List.forall_mem_append.2 ⟨hxs, hys⟩, rfl⟩
  refine ⟨_, ⟨_, rfl, hothers⟩, ?_⟩
  have hlen : 0 + Int64.ofNat (xs ++ x :: ys).length - 1 = 0 + Int64.ofNat (xs ++ ys).length := by
    rw [List.length_append, List.length_cons, ← Nat.add_assoc, ← List.length_append,
      Int64.ofNat_add, ← Int64.add_assoc]
    exact Int64.add_sub_cancel _ _
  show feed _ (argument x.tuple x.fact) _ = _
  rw [hv, ← hlen]
  rfl

end Count

end Accumulator

namespace Node

/-! ## Replaying every accumulator on its own -/

theorem stepFrom_cons_eq_success_iff
    {step : Accumulator σ → σ → Tuple → Value → Outcome σ AccumulateError} {x : Match}
    {a : Accumulator σ} {as : List (Accumulator σ)} {c : σ} {cs es : List σ} {k : Nat} :
    stepFrom step k x (a :: as) (c :: cs) = .success es ↔
      ∃ d ds, step a c x.tuple x.fact = .success d ∧
        stepFrom step (k + 1) x as cs = .success ds ∧ es = d :: ds := by
  cases hf : (step a c x.tuple x.fact).failure with
  | some e =>
    rw [stepFrom_cons_of_failure hf, Outcome.eq_failed_of_failure hf]
    simp [Outcome.success, Outcome.failed]
  | none =>
    rw [stepFrom_cons_of_success hf, Outcome.eq_success_of_failure hf]
    generalize stepFrom step (k + 1) x as cs = o
    obtain ⟨ds, f⟩ := o
    cases f <;> simp [Outcome.success, eq_comm]

/-- Accumulators that each take a step take it together. -/
theorem exists_stepFrom_eq_success
    {step : Accumulator σ → σ → Tuple → Value → Outcome σ AccumulateError} {x : Match}
    {Q : Accumulator σ → σ → Prop} {as : List (Accumulator σ)} {cs : List σ}
    (h : List.Forall₂ (fun a c => ∃ d, Q a d ∧ step a c x.tuple x.fact = .success d) as cs)
    (k : Nat) : ∃ ds, stepFrom step k x as cs = .success ds ∧ List.Forall₂ Q as ds := by
  induction h generalizing k with
  | nil => exact ⟨[], stepFrom_nil k [], .nil⟩
  | cons hac _ ih =>
    obtain ⟨d, hd, hstep⟩ := hac
    obtain ⟨ds, hds, hall⟩ := ih (k + 1)
    exact ⟨d :: ds, stepFrom_cons_eq_success_iff.2 ⟨d, ds, hstep, hds, rfl⟩, .cons hd hall⟩

theorem run_stepFrom_nil_eq_success_iff {k : Nat} {xs : List Match} {es : List σ} :
    Outcome.run (fun cs x => stepFrom Accumulator.accumulate k x [] cs) [] xs = .success es ↔
      es = [] := by
  induction xs with
  | nil => simp [Outcome.success, eq_comm]
  | cons x xs ih =>
    rw [Outcome.run_cons_eq_success_iff]
    simpa [stepFrom_nil, Outcome.success] using ih

theorem run_stepFrom_cons_eq_success_iff {a : Accumulator σ} {as : List (Accumulator σ)} {k : Nat}
    {xs : List Match} : ∀ {c : σ} {cs es : List σ},
      Outcome.run (fun cs x => stepFrom Accumulator.accumulate k x (a :: as) cs) (c :: cs) xs =
          .success es ↔
        ∃ d ds, a.FoldsFrom c xs d ∧
          Outcome.run (fun cs x => stepFrom Accumulator.accumulate (k + 1) x as cs) cs xs =
            .success ds ∧ es = d :: ds := by
  induction xs with
  | nil =>
    intro c cs es
    simp [Accumulator.foldsFrom_nil_iff, Outcome.success, eq_comm]
  | cons x xs ih =>
    intro c cs es
    simp only [Outcome.run_cons_eq_success_iff, stepFrom_cons_eq_success_iff,
      Accumulator.foldsFrom_cons_iff]
    constructor
    · rintro ⟨_, ⟨d, ds, hd, hds, rfl⟩, hrun⟩
      obtain ⟨e, es, he, hes, rfl⟩ := ih.1 hrun
      exact ⟨e, es, ⟨d, hd, he⟩, ⟨ds, hds, hes⟩, rfl⟩
    · rintro ⟨e, es, ⟨d, hd, he⟩, ⟨ds, hds, hes⟩, rfl⟩
      exact ⟨d :: ds, ⟨d, ds, hd, hds, rfl⟩, ih.2 ⟨e, es, he, hes, rfl⟩⟩

theorem exists_run_eq_success_iff {left : Tuple} {xs : List Match} {as : List (Accumulator σ)} :
    ∀ {k : Nat} {cs : List σ},
      (∃ cs₀, List.Forall₂ (fun a c => a.init left = .ok c) as cs₀ ∧
        Outcome.run (fun cs x => stepFrom Accumulator.accumulate k x as cs) cs₀ xs =
          .success cs) ↔
        List.Forall₂ (fun a c => a.Folds left xs c) as cs := by
  induction as with
  | nil =>
    intro k cs
    simp [run_stepFrom_nil_eq_success_iff]
  | cons a as ih =>
    intro k cs
    simp only [List.forall₂_cons_left_iff]
    constructor
    · rintro ⟨_, ⟨c₀, cs₀, hc₀, hcs₀, rfl⟩, hrun⟩
      obtain ⟨d, ds, hd, hds, rfl⟩ := run_stepFrom_cons_eq_success_iff.1 hrun
      exact ⟨d, ds, ⟨c₀, hc₀, hd⟩, ih.1 ⟨cs₀, hcs₀, hds⟩, rfl⟩
    · rintro ⟨d, ds, ⟨c₀, hc₀, hd⟩, hds, rfl⟩
      obtain ⟨cs₀, hcs₀, hrun⟩ := ih.2 hds
      exact ⟨c₀ :: cs₀, ⟨c₀, cs₀, hc₀, hcs₀, rfl⟩,
        run_stepFrom_cons_eq_success_iff.2 ⟨d, ds, hd, hrun, rfl⟩⟩

/-- **A replay of a node is a replay of every accumulator on its own.** -/
theorem replay_eq_ok_iff_folds {n : Node σ} {left : Tuple} {xs : List Match} {cs : List σ} :
    n.replay left xs = .ok cs ↔ List.Forall₂ (fun a c => a.Folds left xs c) n.accumulators cs := by
  rw [replay_eq_ok_iff, ← exists_run_eq_success_iff (k := 0)]
  refine exists_congr fun cs₀ => and_congr_left fun _ => ?_
  exact freshFrom_eq_ok_iff 0

/-! ## Nodes over lawful accumulators -/

/-- Lawful accumulators take a held match back, and leave the contexts of a replay of the
others. -/
theorem Faithful.retract_of_lawful {n : Node σ} {left : Tuple} {m : Memory σ}
    (hm : n.Faithful left m) (hlawful : ∀ a ∈ n.accumulators, a.Lawful) (hr : n.reverses = true)
    {h : Handle} {x : Match} (hg : m.held.get? h = some x) :
    ∃ cs, n.perform left m (.retract h) = .success ⟨cs, m.held.erase h⟩ ∧
      n.replay left (m.held.erase h).values = .ok cs := by
  obtain ⟨xs, ys, hvalues, herase⟩ := OrderedMap.exists_values_erase hg
  have hfolds := replay_eq_ok_iff_folds.1 hm
  rw [hvalues] at hfolds
  have hsteps := ((List.forall₂_and_left _ _).2 ⟨hlawful, hfolds⟩).imp
    fun a c hac => hac.1 left xs ys x c hac.2
  obtain ⟨cs, hcs, hreplay⟩ := exists_stepFrom_eq_success hsteps 0
  have hunfold : n.unfold m.contexts x = .success cs := hcs
  refine ⟨cs, ?_, ?_⟩
  · simp only [Node.perform, retract, hg, hr, hunfold, if_true]
    rfl
  · rw [herase]
    exact replay_eq_ok_iff_folds.2 hreplay

theorem Faithful.perform_of_lawful {n : Node σ} {left : Tuple} {m : Memory σ}
    (hm : n.Faithful left m) (hlawful : ∀ a ∈ n.accumulators, a.Lawful) (hr : n.reverses = true)
    (op : Operation) : n.Faithful left (n.perform left m op).state := by
  cases op with
  | insert h objects => exact hm.perform (.inr fun _ => nofun)
  | retract h =>
    cases hg : m.held.get? h with
    | none =>
      rw [Node.perform, retract, hg]
      exact hm
    | some x =>
      obtain ⟨cs, hperform, hreplay⟩ := hm.retract_of_lawful hlawful hr hg
      rw [hperform]
      exact hreplay

/-- **Nodes over lawful accumulators are functions of the held matches.**  If a node takes matches
back in place and all its accumulators keep the contract, then after any run the contexts are those
of a replay of the held matches; every held match can be taken back; and an insertion that fails
leaves the memory as it was.  The counting function keeps the contract, whatever it is fed with. -/
theorem lawful_contexts_run :
    (∀ (σ : Type) (n : Node σ) (left : Tuple) (m₀ : Memory σ),
      (∀ a ∈ n.accumulators, a.Lawful ∧ a.supportsReverse = true) → n.incremental = true →
      n.init left = .ok m₀ → ∀ ops : List Operation,
        n.replay left (n.run left m₀ ops).held.values = .ok (n.run left m₀ ops).contexts ∧
          (∀ h ∈ (n.run left m₀ ops).handles, ∃ cs,
            n.retract left (n.run left m₀ ops) h =
              .success ⟨cs, (n.run left m₀ ops).held.erase h⟩) ∧
          ∀ h objects e, (n.insert left (n.run left m₀ ops) h objects).failure = some e →
            (n.insert left (n.run left m₀ ops) h objects).state = n.run left m₀ ops) ∧
      ∀ argument, (Accumulator.feeding .count argument).Lawful := by
  refine ⟨fun σ n left m₀ hall hinc h₀ ops => ?_, fun argument => Accumulator.lawful_count⟩
  have hlawful : ∀ a ∈ n.accumulators, a.Lawful := fun a ha => (hall a ha).1
  have hr : n.reverses = true := by
    rw [reverses, hinc, Bool.true_and, List.all_eq_true]
    exact fun a ha => (hall a ha).2
  have hm : n.Faithful left (n.run left m₀ ops) :=
    run_induction (fun _ op hm => hm.perform_of_lawful hlawful hr op) ops m₀ (faithful_init h₀)
  refine ⟨hm, fun h hh => ?_, fun h objects e hf => ?_⟩
  · obtain ⟨x, hx⟩ := Option.isSome_iff_exists.1 (OrderedMap.contains_iff.2 hh)
    obtain ⟨cs, hperform, -⟩ := hm.retract_of_lawful hlawful hr hx
    exact ⟨cs, hperform⟩
  · have hperform : (n.perform left (n.run left m₀ ops) (.insert h objects)).failure = some e := hf
    exact hm.state_of_failure hperform

/-- Two counts over four operations.  The third insertion fails when its fact has been counted
once, and the first fact is taken back from under the second. -/
theorem lawful_contexts_run_of_counts :
    let n := ofFields [(.count, "x"), (.count, "y")]
    let m₀ : Memory State := ⟨[.tally 0, .tally 0], .empty⟩
    let m := n.run .empty m₀ [insertFact 1 [("x", .int 5), ("y", .int 6)],
      insertFact 2 [("x", .int 7), ("y", .null)], insertFact 3 [("x", .int 8)], .retract ⟨1⟩]
    let partial? := n.insert .empty m ⟨4⟩ [.fact "Order" [("x", .int 9)]]
    (∀ a ∈ n.accumulators, a.Lawful ∧ a.supportsReverse = true) ∧ n.incremental = true ∧
      n.init .empty = .ok m₀ ∧ m.contexts = [.tally 1, .tally 1] ∧
      n.replay .empty m.held.values = .ok m.contexts ∧
      (∃ cs, n.retract .empty m ⟨2⟩ = .success ⟨cs, m.held.erase ⟨2⟩⟩) ∧
      partial?.failure = some (.accumulate 1 (.read (.missingField "Order" "y"))) ∧
      partial?.state = m := by
  intro n m₀ m partial?
  obtain ⟨hrun, hcount⟩ := lawful_contexts_run
  have hall : ∀ a ∈ n.accumulators, a.Lawful ∧ a.supportsReverse = true :=
    List.forall_mem_cons.2 ⟨⟨hcount _, rfl⟩, List.forall_mem_singleton.2 ⟨hcount _, rfl⟩⟩
  have hinc : n.incremental = true := rfl
  have h₀ : n.init .empty = .ok m₀ := rfl
  have hf : partial?.failure = some (.accumulate 1 (.read (.missingField "Order" "y"))) := by
    decide +kernel
  have hheld : ⟨2⟩ ∈ m.handles := by decide +kernel
  obtain ⟨hreplay, hretract, hinsert⟩ := hrun State n .empty m₀ hall hinc h₀ _
  exact ⟨hall, hinc, h₀, rfl, hreplay, hretract _ hheld, hf, hinsert _ _ _ hf⟩

end Node
end RuleAggregate
