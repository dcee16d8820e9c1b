import RuleAggregate.Node.Basic

/-!
# Memories of aggregation nodes

A memory holds what a node has accumulated for one partial match, the left tuple: a context for
every accumulator, and the matches that were folded into the contexts.  When a step fails half-way
the contexts are rebuilt from the matches.

## What is here

* `Handle`, `Match`, `Memory` — the matches by handle, in the order in which they were inserted.
* `Node.init`, `Node.insert`, `Node.retract`, `Node.result` — the operations on a memory.
* `Node.replay` — the contexts into which given matches have been folded from scratch.
* `Node.propagate` — the tuple that the patterns after the node see.
-/

set_option autoImplicit false

namespace RuleAggregate

variable {σ : Type}

/-- The identity of an inserted fact. -/
structure Handle where
  id : UInt64
  deriving DecidableEq, Repr

/-- The text of a handle in messages. -/
def Handle.display (h : Handle) : String := s!"#{h.id.toNat}"

/-- A match of the source. -/
structure Match where
  /-- The left tuple with the objects of the source appended. -/
  tuple : Tuple
  /-- The fact to accumulate: the last object of the match. -/
  fact : Value

/-- What a node has accumulated for one partial match. -/
structure Memory (σ : Type) where
  /-- One context for every accumulator. -/
  contexts : List σ
  /-- The matches that are held, in the order in which they were inserted. -/
  held : OrderedMap Handle Match

/-- Why an operation on a memory failed. -/
inductive RuntimeError where
  /-- The accumulator at the index failed. -/
  | accumulate (index : Nat) (e : AccumulateError)
  | unknownHandle (h : Handle)
  | duplicateHandle (h : Handle)
  | read (e : ReadError)
  deriving DecidableEq, Repr

namespace RuntimeError

/-- The wording of the error. -/
def message : RuntimeError → String
  | accumulate index e => s!"accumulator {index} failed: " ++ e.message
  | unknownHandle h => "fact " ++ h.display ++ " was never inserted"
  | duplicateHandle h => "fact " ++ h.display ++ " is already inserted"
  | read e => e.message

end RuntimeError

namespace Memory

/-- The handles of the held facts, in the order in which they were inserted. -/
def handles (m : Memory σ) : List Handle := m.held.keys

/-- How many facts are held. -/
def size (m : Memory σ) : Nat := m.held.size

def isEmpty (m : Memory σ) : Bool := m.held.isEmpty

def contains (m : Memory σ) (h : Handle) : Bool := m.held.contains h

end Memory

namespace Node

/-! ## Contexts

The accumulators of a node and the contexts of a memory go together in pairs.  Every function
counts the accumulators from `i` on, since errors name the one that failed. -/

/-- The contexts of a partial match into which nothing has been folded. -/
def freshFrom (i : Nat) (left : Tuple) : List (Accumulator σ) → Except RuntimeError (List σ)
  | [] => .ok []
  | a :: as =>
    match a.init left with
    | .error e => .error (.accumulate i e)
    | .ok c => (freshFrom (i + 1) left as).map (c :: ·)

/-- Takes a step with every accumulator, up to the first one that fails. -/
def stepFrom (step : Accumulator σ → σ → Tuple → Value → Outcome σ AccumulateError) (i : Nat)
    (m : Match) : List (Accumulator σ) → List σ → Outcome (List σ) RuntimeError
  | a :: as, c :: cs =>
    let o := step a c m.tuple m.fact
    match o.failure with
    | some e => .failed (o.state :: cs) (.accumulate i e)
    | none =>
      let rest := stepFrom step (i + 1) m as cs
      ⟨o.state :: rest.state, rest.failure⟩
  | _, cs => .success cs

/-- The results of all accumulators. -/
def resultsFrom (i : Nat) (left : Tuple) :
    List (Accumulator σ) → List σ → Except RuntimeError (List Value)
  | a :: as, c :: cs =>
    match a.result c left with
    | .error e => .error (.accumulate i e)
    | .ok v => (resultsFrom (i + 1) left as cs).map (v :: ·)
  | _, _ => .ok []

/-- The contexts of a partial match into which nothing has been folded. -/
def fresh (n : Node σ) (left : Tuple) : Except RuntimeError (List σ) :=
  freshFrom 0 left n.accumulators

/-- Folds a match into all contexts. -/
def fold (n : Node σ) (contexts : List σ) (m : Match) : Outcome (List σ) RuntimeError :=
  stepFrom Accumulator.accumulate 0 m n.accumulators contexts

/-- Takes a match back out of all contexts. -/
def unfold (n : Node σ) (contexts : List σ) (m : Match) : Outcome (List σ) RuntimeError :=
  stepFrom Accumulator.reverse 0 m n.accumulators contexts

/-- Fresh contexts into which the matches have been folded, one after the other. -/
def replay (n : Node σ) (left : Tuple) (ms : List Match) : Except RuntimeError (List σ) :=
  match n.fresh left with
  | .error e => .error e
  | .ok contexts =>
    let o := Outcome.run n.fold contexts ms
    match o.failure with
    | some e => .error e
    | none => .ok o.state

/-! ## Operations -/

/-- The memory of a partial match without any facts. -/
def init (n : Node σ) (left : Tuple) : Except RuntimeError (Memory σ) :=
  (n.fresh left).map fun contexts => ⟨contexts, .empty⟩

/-- The match of the given objects: they stand at the offsets of the source, after the left
tuple. -/
def matchOf (n : Node σ) (left : Tuple) (objects : List Value) : Match :=
  let t := (left.padTo n.sourceOffset).append objects
  ⟨t, t.last?.getD .null⟩

/-- What remains of a memory after a step on its contexts failed: they are rebuilt from the held
matches.  If that fails as well, they stay as the step left them, and the second error counts. -/
def restore (n : Node σ) (left : Tuple) (m : Memory σ) (contexts : List σ) (e : RuntimeError) :
    Outcome (Memory σ) RuntimeError :=
  match n.replay left m.held.values with
  | .ok contexts => .failed { m with contexts } e
  | .error e => .failed { m with contexts } e

/-- Folds in a match under a handle that is not held yet. -/
def insert (n : Node σ) (left : Tuple) (m : Memory σ) (h : Handle) (objects : List Value) :
    Outcome (Memory σ) RuntimeError :=
  if m.contains h then .failed m (.duplicateHandle h)
  else
    let matched := n.matchOf left objects
    let o := n.fold m.contexts matched
    match o.failure with
    | some e => n.restore left m o.state e
    | none => .success ⟨o.state, m.held.put h matched⟩

/-- Takes back the match that is held under a handle.  If the node does not reverse, the contexts
are rebuilt from the other matches. -/
def retract (n : Node σ) (left : Tuple) (m : Memory σ) (h : Handle) :
    Outcome (Memory σ) RuntimeError :=
  match m.held.get? h with
  | none => .failed m (.unknownHandle h)
  | some matched =>
    if n.reverses then
      let o := n.unfold m.contexts matched
      match o.failure with
      | some e => n.restore left m o.state e
      | none => .success ⟨o.state, m.held.erase h⟩
    else
      match n.replay left (m.held.erase h).values with
      | .error e => .failed m e
      | .ok contexts => .success ⟨contexts, m.held.erase h⟩

/-- The result of the node: of its single accumulator, or the list of all results. -/
def result (n : Node σ) (left : Tuple) (m : Memory σ) : Except RuntimeError Value :=
  match resultsFrom 0 left n.accumulators m.contexts with
  | .error e => .error e
  | .ok vs => .ok (if n.isMulti then .list vs else vs.headD .null)

/-- The tuple that the patterns after the node see: the left tuple and the result. -/
def propagate (left : Tuple) (result : Value) : Tuple := left.push result

end Node
end RuleAggregate
