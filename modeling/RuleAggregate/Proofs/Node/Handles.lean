import RuleAggregate.Proofs.Node.Failure
import RuleAggregate.Proofs.Node.Reachable

/-!
# Which handles are held

Contexts are changed in place, replaced by a replay, or left behind by a replay that fails, but the
held matches change only when an operation succeeds.  So whatever the accumulators do, the handles
of a memory can be told from the operations that succeeded, and from nothing else.

## What is here

* `standing` — the handles of the insertions that no later operation with the same handle follows.
* `Node.succeeding`, `Node.handles_run` — the operations of a run that succeed, and **the handles
  after the run**: those that these operations leave standing.
* `Node.Bookkeeping` — what handles and contexts have to do with the operations that succeeded.
* `Node.handles_run_exact` — **the bookkeeping is exact**, for every node and every run; and nodes
  over built-in functions never meet a state that some other function made.
-/

set_option autoImplicit false

namespace RuleAggregate

variable {σ : Type}

/-! ## What operations leave standing -/

namespace Operation

/-- The handle that the operation is about. -/
def handle : Operation → Handle
  | insert h _ => h
  | retract h => h

/-- Whether the operation is an insertion. -/
def isInsert : Operation → Bool
  | insert _ _ => true
  | retract _ => false

end Operation

/-- The handles of the insertions that no later operation with the same handle follows, in the
order of these insertions. -/
def standing : List Operation → List Handle
  | [] => []
  | op :: ops =>
    if op.isInsert = true ∧ ∀ later ∈ ops, later.handle ≠ op.handle then
      op.handle :: standing ops
    else standing ops

/-- One more operation takes its handle away, and puts it at the end if it is an insertion. -/
theorem standing_concat (ops : List Operation) (op : Operation) :
    standing (ops ++ [op]) =
      (standing ops).filter (fun h => h ≠ op.handle) ++
        if op.isInsert then [op.handle] else [] := by
  induction ops with
  | nil => simp [standing]
  | cons first ops ih =>
    rw [List.cons_append, standing, standing, ih]
    have hlater : (first.isInsert = true ∧ ∀ later ∈ ops ++ [op], later.handle ≠ first.handle) ↔
        (first.isInsert = true ∧ ∀ later ∈ ops, later.handle ≠ first.handle) ∧
          op.handle ≠ first.handle := by
      rw [List.forall_mem_append, List.forall_mem_singleton, and_assoc]
    by_cases hfirst : first.isInsert = true ∧ ∀ later ∈ ops, later.handle ≠ first.handle
    · rw [if_pos hfirst]
      by_cases hsame : op.handle = first.handle
      · rw [if_neg fun h => (hlater.1 h).2 hsame, List.filter_cons_of_neg (by simp [hsame])]
      · rw [if_pos (hlater.2 ⟨hfirst, hsame⟩),
          List.filter_cons_of_pos (by simpa using Ne.symm hsame), List.cons_append]
    · rw [if_neg hfirst, if_neg fun h => hfirst (hlater.1 h).1]

/-- A handle is left standing exactly if the last operation about it is an insertion. -/
theorem mem_standing_iff {ops : List Operation} {h : Handle} :
    h ∈ standing ops ↔
      ∃ objects, (ops.filter fun op => op.handle = h).getLast? = some (.insert h objects) := by
  induction ops using List.reverseRecOn with
  | nil => simp [standing]
  | append_singleton ops op ih =>
    rw [standing_concat, List.filter_append]
    by_cases hop : op.handle = h
    · have hlast : [op].filter (fun op => op.handle = h) = [op] := by simp [hop]
      rw [hlast, List.getLast?_concat]
      cases op with
      | insert k objects =>
        obtain rfl : k = h := hop
        exact iff_of_true (by simp [Operation.isInsert, Operation.handle]) ⟨objects, rfl⟩
      | retract k =>
        obtain rfl : k = h := hop
        exact iff_of_false (by simp [Operation.isInsert, Operation.handle]) nofun
    · have hother : [op].filter (fun op => op.handle = h) = [] := by simp [hop]
      have hne : h ≠ op.handle := Ne.symm hop
      rw [hother, List.append_nil, ← ih, List.mem_append, List.mem_filter]
      cases op.isInsert <;> simp [hne]

/-! ## Handles after a run -/

namespace Node

/-- The operations of a run that succeed, in their order. -/
def succeeding (n : Node σ) (left : Tuple) (m : Memory σ) : List Operation → List Operation
  | [] => []
  | op :: ops =>
    let o := n.perform left m op
    if o.succeeded then op :: n.succeeding left o.state ops else n.succeeding left o.state ops

/-- An operation that succeeds takes its handle away, and puts it at the end if it is an
insertion. -/
theorem handles_of_success {n : Node σ} {left : Tuple} {m : Memory σ} {op : Operation}
    (hf : (n.perform left m op).failure = none) :
    (n.perform left m op).state.handles =
      m.handles.filter (fun h => h ≠ op.handle) ++ if op.isInsert then [op.handle] else [] := by
  have hs := step_perform n left m op
  revert hf
  generalize n.perform left m op = o at hs
  intro hf
  cases hs with
  | duplicate | unknown | replayFailed => cases hf
  | foldFailed | unfoldFailed =>
    rw [restore] at hf
    split at hf <;> cases hf
  | @folded h objects cs hc =>
    have hnew : h ∉ m.held.keys := by
      rw [← OrderedMap.contains_iff]
      exact Bool.eq_false_iff.1 hc
    have hrest : m.held.keys.filter (fun k => k ≠ h) = m.held.keys :=
      List.filter_eq_self.2 fun k hk => decide_eq_true fun he => hnew (he ▸ hk)
    show (m.held.put h _).keys = m.held.keys.filter (fun k => k ≠ h) ++ [h]
    rw [hrest, OrderedMap.keys_put, if_neg hnew]
  | unfolded | replayed =>
    show (m.held.erase _).keys = m.held.keys.filter _ ++ []
    rw [OrderedMap.keys_erase, List.append_nil]
    rfl

/-- **The handles after a run** are those that the operations that succeeded leave standing. -/
theorem handles_run (n : Node σ) (left : Tuple) (ops : List Operation) :
    ∀ {m : Memory σ} {log : List Operation}, m.handles = standing log →
      (n.run left m ops).handles = standing (log ++ n.succeeding left m ops) := by
  induction ops with
  | nil =>
    intro m log hm
    rw [succeeding, List.append_nil]
    exact hm
  | cons op ops ih =>
    intro m log hm
    rw [run_cons, succeeding]
    cases hf : (n.perform left m op).failure with
    | none =>
      have hop : (n.perform left m op).state.handles = standing (log ++ [op]) := by
        rw [handles_of_success hf, standing_concat, hm]
      simp only [Outcome.succeeded, hf, Option.isNone_none, if_true]
      rw [ih hop, List.append_assoc, List.singleton_append]
    | some e =>
      have hop : (n.perform left m op).state.handles = standing log := by
        rw [Memory.handles, held_of_failure hf]
        exact hm
      simp only [Outcome.succeeded, hf, Option.isNone_some, Bool.false_eq_true, if_false]
      exact ih hop

/-! ## Refused operations -/

theorem mem_handles_iff {m : Memory σ} {h : Handle} : h ∈ m.handles ↔ m.contains h = true :=
  OrderedMap.contains_iff.symm

/-- An insertion is refused exactly if its handle is held. -/
theorem insert_duplicateHandle_iff {n : Node σ} {left : Tuple} {m : Memory σ}
    (hm : n.Reachable m) {h k : Handle} {objects : List Value} :
    (n.insert left m h objects).failure = some (.duplicateHandle k) ↔ k = h ∧ h ∈ m.handles := by
  have hcontexts := hm.forall₂_contexts fun a _ => a.keeps_any
  rw [mem_handles_iff]
  constructor
  · intro hf
    have herror := (confined_perform (fun a _ => a.keeps_any) left hcontexts
      (.insert h objects)).failure _ hf
    rcases herror with hrefused | ⟨i, err, herr, -⟩
    · cases hrefused with
      | duplicate _ hc => exact ⟨rfl, hc⟩
    · cases herr
  · rintro ⟨rfl, hc⟩
    rw [insert, if_pos hc, Outcome.failure_failed]

/-- A retraction is refused exactly if its handle is not held. -/
theorem retract_unknownHandle_iff {n : Node σ} {left : Tuple} {m : Memory σ}
    (hm : n.Reachable m) {h k : Handle} :
    (n.retract left m h).failure = some (.unknownHandle k) ↔ k = h ∧ h ∉ m.handles := by
  have hcontexts := hm.forall₂_contexts fun a _ => a.keeps_any
  have hnone : h ∉ m.handles ↔ m.held.get? h = none := OrderedMap.get?_eq_none_iff.symm
  rw [hnone]
  constructor
  · intro hf
    have herror := (confined_perform (fun a _ => a.keeps_any) left hcontexts
      (.retract h)).failure _ hf
    rcases herror with hrefused | ⟨i, err, herr, -⟩
    · cases hrefused with
      | unknown hg => exact ⟨rfl, hg⟩
    · cases herr
  · rintro ⟨rfl, hg⟩
    rw [retract, hg, Outcome.failure_failed]

/-! ## Bookkeeping -/

/-- The memory of a left tuple keeps the books on the operations that succeeded. -/
structure Bookkeeping (n : Node σ) (left : Tuple) (m : Memory σ) (succeeded : List Operation) :
    Prop where
  /-- The handles stand in the order of the insertions that brought them in. -/
  handles : m.handles = standing succeeded
  /-- A handle is held exactly if the last operation about it that succeeded is an insertion. -/
  last : ∀ h, h ∈ m.handles ↔
    ∃ objects, (succeeded.filter fun op => op.handle = h).getLast? = some (.insert h objects)
  /-- No handle is held twice. -/
  nodup : m.handles.Nodup
  /-- A held handle cannot be inserted, and no other insertion is refused for its handle. -/
  duplicate : ∀ h k objects,
    (n.insert left m h objects).failure = some (.duplicateHandle k) ↔ k = h ∧ h ∈ m.handles
  /-- Only a held handle can be retracted, and no retraction of one is refused for its handle. -/
  unknown : ∀ h k,
    (n.retract left m h).failure = some (.unknownHandle k) ↔ k = h ∧ h ∉ m.handles
  /-- An operation that fails changes no handle. -/
  failed : ∀ op e, (n.perform left m op).failure = some e →
    (n.perform left m op).state.handles = m.handles
  /-- There is one context for every accumulator. -/
  contexts : m.contexts.length = n.accumulators.length

theorem bookkeeping_run {n : Node σ} {left : Tuple} {m₀ : Memory σ} (h₀ : n.init left = .ok m₀)
    (ops : List Operation) :
    n.Bookkeeping left (n.run left m₀ ops) (n.succeeding left m₀ ops) := by
  have hm : n.Reachable (n.run left m₀ ops) := (Reachable.init h₀).run left ops
  have hnone : m₀.handles = standing [] := by
    rw [Memory.handles, (init_eq_ok_iff.1 h₀).2]
    rfl
  have hhandles := handles_run n left ops hnone
  rw [List.nil_append] at hhandles
  exact {
    handles := hhandles
    last := fun h => by rw [hhandles, mem_standing_iff]
    nodup := (n.run left m₀ ops).held.nodup
    duplicate := fun h k objects => insert_duplicateHandle_iff hm
    unknown := fun h k => retract_unknownHandle_iff hm
    failed := fun op e hf => congrArg OrderedMap.keys (held_of_failure hf)
    contexts := hm.length_contexts }

/-- The accumulators of the node feed built-in functions. -/
def OverBuiltins (n : Node State) : Prop :=
  ∀ a ∈ n.accumulators, ∃ f ∈ AggregateFunction.builtins, ∃ argument, a = .feeding f argument

theorem OverBuiltins.keeps {n : Node State} (hn : n.OverBuiltins) :
    ∀ a ∈ n.accumulators, a.Keeps a.Readable AccumulateError.IsAboutValue := by
  intro a ha
  obtain ⟨f, hf, argument, rfl⟩ := hn a ha
  exact Accumulator.keeps_feeding hf argument

theorem exists_freshFrom {left : Tuple} {as : List (Accumulator σ)}
    (h : ∀ a ∈ as, ∃ c, a.init left = .ok c) (k : Nat) : ∃ cs, freshFrom k left as = .ok cs := by
  induction as generalizing k with
  | nil => exact ⟨[], rfl⟩
  | cons a as ih =>
    rw [List.forall_mem_cons] at h
    obtain ⟨c, hc⟩ := h.1
    obtain ⟨cs, hcs⟩ := ih h.2 (k + 1)
    refine ⟨c :: cs, ?_⟩
    simp only [freshFrom, hc, hcs, Except.map]

theorem OverBuiltins.exists_init {n : Node State} (hn : n.OverBuiltins) (left : Tuple) :
    ∃ m₀, n.init left = .ok m₀ := by
  have hinit : ∀ a ∈ n.accumulators, ∃ c, a.init left = .ok c := by
    intro a ha
    obtain ⟨f, -, argument, rfl⟩ := hn a ha
    exact ⟨f.init, rfl⟩
  obtain ⟨cs, hcs⟩ := exists_freshFrom hinit 0
  exact ⟨⟨cs, .empty⟩, init_eq_ok_iff.2 ⟨hcs, rfl⟩⟩

/-- Accumulators that can read their contexts all have a result. -/
theorem exists_resultsFrom {as : List (Accumulator σ)} {cs : List σ}
    (h : List.Forall₂ Accumulator.Readable as cs) (k : Nat) (left : Tuple) :
    ∃ vs, resultsFrom k left as cs = .ok vs := by
  induction h generalizing k with
  | nil => exact ⟨[], rfl⟩
  | cons hac _ ih =>
    obtain ⟨v, hv⟩ := hac left
    obtain ⟨vs, hvs⟩ := ih (k + 1)
    refine ⟨v :: vs, ?_⟩
    rw [resultsFrom, hv, hvs]
    rfl

/-- **The bookkeeping of handles is exact**, for any accumulators, every left tuple and every run
from the initial memory.  Over built-in functions there is an initial memory for every left tuple,
there is a result after every run, and no operation fails because of a state that some other
function made. -/
theorem handles_run_exact :
    (∀ {σ : Type} (n : Node σ) (left : Tuple) (m₀ : Memory σ), n.init left = .ok m₀ →
      ∀ ops, n.Bookkeeping left (n.run left m₀ ops) (n.succeeding left m₀ ops)) ∧
    ∀ n : Node State, n.OverBuiltins → ∀ left, ∃ m₀, n.init left = .ok m₀ ∧
      ∀ ops, (∃ v, n.result left (n.run left m₀ ops) = .ok v) ∧
        ∀ op i name, (n.perform left (n.run left m₀ ops) op).failure ≠
          some (.accumulate i (.function (.stateMismatch name))) := by
  refine ⟨fun n left m₀ h₀ ops => bookkeeping_run h₀ ops, fun n hn left => ?_⟩
  obtain ⟨m₀, h₀⟩ := hn.exists_init left
  refine ⟨m₀, h₀, fun ops => ?_⟩
  have hcontexts := ((Reachable.init h₀).run left ops).forall₂_contexts hn.keeps
  constructor
  · obtain ⟨vs, hvs⟩ := exists_resultsFrom hcontexts 0 left
    exact ⟨_, by rw [result, hvs]⟩
  · intro op i name hf
    have herror := (confined_perform hn.keeps left hcontexts op).failure _ hf
    rcases herror with hrefused | ⟨j, err, herr, hvalue⟩
    · cases hrefused
    · cases herr
      exact hvalue name rfl

/-- A refused value and a refused handle leave no trace, and a fact that is inserted again stands
at the end. -/
theorem handles_run_exact_of_reinsertion :
    let n := ofFields [(.count, "x"), (.sum, "x")]
    let m₀ : Memory State := ⟨[.tally 0, .total 0.0], .empty⟩
    let ops := [insertFact 1 [("x", .int 1)], insertFact 2 [("x", .text "a")],
      insertFact 2 [("x", .int 2)], insertFact 1 [("x", .int 5)], .retract ⟨1⟩, .retract ⟨3⟩,
      insertFact 1 [("x", .int 4)]]
    let m := n.run .empty m₀ ops
    n.init .empty = .ok m₀ ∧ n.OverBuiltins ∧ m.handles = [⟨2⟩, ⟨1⟩] ∧
      (n.insert .empty m ⟨2⟩ []).failure = some (.duplicateHandle ⟨2⟩) ∧
      (n.retract .empty m ⟨3⟩).failure = some (.unknownHandle ⟨3⟩) ∧
      m.contexts.length = 2 ∧
      ∀ i name, (n.perform .empty m (insertFact 3 [("x", .text "a")])).failure ≠
        some (.accumulate i (.function (.stateMismatch name))) := by
  intro n m₀ ops m
  have h₀ : n.init .empty = .ok m₀ := rfl
  have hn : n.OverBuiltins := by
    intro a ha
    simp only [n, accumulators, ofFields, List.map_cons, List.map_nil, List.mem_cons,
      List.not_mem_nil, or_false] at ha
    rcases ha with rfl | rfl
    · exact ⟨.count, List.mem_of_getElem? (i := 0) rfl, _, rfl⟩
    · exact ⟨.sum, List.mem_of_getElem? (i := 1) rfl, _, rfl⟩
  obtain ⟨hbooks, hbuiltin⟩ := handles_run_exact
  have hm := hbooks n .empty m₀ h₀ ops
  have hhandles : m.handles = [⟨2⟩, ⟨1⟩] := hm.handles.trans (by decide +kernel)
  obtain ⟨m₁, h₁, hruns⟩ := hbuiltin n hn .empty
  rw [h₀] at h₁
  cases h₁
  refine ⟨h₀, hn, hhandles, (hm.duplicate _ _ _).2 ⟨rfl, ?_⟩, (hm.unknown _ _).2 ⟨rfl, ?_⟩,
    hm.contexts, (hruns ops).2 _⟩
  · rw [hhandles]
    decide
  · rw [hhandles]
    decide

end Node
end RuleAggregate
