import RuleAggregate.Proofs.Clause.Names
import RuleAggregate.Proofs.Node.Run
import RuleAggregate.Proofs.Value.Equality

/-!
# Which object an argument reads

A path in an argument starts at a name.  The name stands for the last binding by the source, or
else for a declaration of the rule around the clause, and it should be read from the object that
the pattern of this declaration matched.  A source of several patterns is read from the tuple, any
other source from the accumulated fact; so it matters which sources count as the former.

## What is here

* `Source.objectAt` — the object that the pattern at an offset matched.
* `Declaration.follow` — what should be read: the declaration in an object, and then the fields.
* `Builder.argument_reads_object_iff` — **the argument reads the object that its name was bound on,
  exactly if** the source counts as one of several patterns, or does not bind the name, or binds it
  on the last pattern.
-/

set_option autoImplicit false

namespace RuleAggregate

variable {σ : Type}

/-! ## Objects of a match -/

/-- The object at an offset: one of the left tuple, or the one that the pattern of the source at
this offset matched. -/
def Source.objectAt (s : Source) (left : Tuple) (objects : List Value) (offset : Nat) :
    Option Value :=
  left.get? offset <|> ((s.patterns.map Pattern.offset).zip objects).lookup offset

theorem lookup_zip_range' (vs : List Value) :
    ∀ next j : Nat, ((List.range' next vs.length).zip vs).lookup (next + j) = vs[j]? := by
  induction vs with
  | nil => exact fun _ _ => rfl
  | cons v vs ih =>
    intro next j
    rw [List.length_cons, List.range'_succ, List.zip_cons_cons, List.lookup_cons]
    cases j with
    | zero => simp
    | succ j =>
      have hne : (next + (j + 1) == next) = false := by simp
      have hassoc : next + (j + 1) = next + 1 + j := by omega
      rw [hne, List.getElem?_cons_succ, ← ih (next + 1) j, hassoc]

section Matches

variable {n : Node σ} {next : Nat} {left : Tuple} {objects : List Value}

theorem objectAt_of_lt (s : Source) {offset : Nat} (h : offset < left.size)
    (objects : List Value) : s.objectAt left objects offset = left.get? offset := by
  have hsome : left.get? offset = some left.objects[offset] := List.getElem?_eq_getElem h
  rw [Source.objectAt, hsome]
  rfl

theorem objectAt_add {s : Source} (hs : Numbered next s.patterns) (hleft : left.size ≤ next)
    (hobjects : objects.length = s.patterns.length) (j : Nat) :
    s.objectAt left objects (next + j) = objects[j]? := by
  have hnone : left.get? (next + j) = none := by
    rw [Tuple.get?, List.getElem?_eq_none_iff]
    exact Nat.le_trans hleft (Nat.le_add_right next j)
  rw [Source.objectAt, hnone, hs.offsets, ← hobjects, lookup_zip_range']
  rfl

theorem get?_matchOf_of_lt {offset : Nat} (h : offset < left.size) (objects : List Value) :
    (n.matchOf left objects).tuple.get? offset = left.get? offset := by
  show ((left.objects ++ _) ++ objects)[offset]? = left.objects[offset]?
  rw [List.append_assoc]
  exact List.getElem?_append_left h

theorem get?_matchOf_add (hoffset : n.sourceOffset = next) (hleft : left.size ≤ next) (j : Nat) :
    (n.matchOf left objects).tuple.get? (next + j) = objects[j]? := by
  have hlen : (left.padTo next).objects.length = next := by
    rw [Tuple.padTo, List.length_append, List.length_replicate]
    exact Nat.add_sub_cancel' hleft
  show ((left.padTo n.sourceOffset).objects ++ objects)[next + j]? = objects[j]?
  rw [hoffset, List.getElem?_append_right (by omega), hlen, Nat.add_sub_cancel_left]

/-- The accumulated fact is the last object of the match. -/
theorem fact_matchOf (hne : objects ≠ []) :
    some (n.matchOf left objects).fact = objects[objects.length - 1]? := by
  have hlast : (n.matchOf left objects).tuple.last? = some (objects.getLast hne) := by
    show ((left.padTo n.sourceOffset).objects ++ objects).getLast? = _
    rw [List.getLast?_append_of_ne_nil _ hne, List.getLast?_eq_some_getLast hne]
  show some ((n.matchOf left objects).tuple.last?.getD .null) = _
  rw [hlast, ← List.getLast?_eq_getElem?, List.getLast?_eq_some_getLast hne]
  rfl

end Matches

/-! ## Reading -/

/-- What should be read: the value of the declaration in the object that its pattern matched, and
from there the fields. -/
def Declaration.follow (d : Declaration) (fields : List String) (object : Value) :
    Except ReadError Value :=
  match d.valueOf object with
  | .ok v => Argument.follow v fields
  | .error e => .error e

theorem evaluate_of_get? {root : Argument.Root} {fields : List String} {fromTuple : Bool}
    {d : Declaration} (hroot : root = .outer d ∨ root = .inner d ∧ fromTuple = true) {t : Tuple}
    {object : Value} (h : t.get? d.offset = some object) (fact : Value) :
    Argument.evaluate ⟨root, fields, fromTuple⟩ t fact = d.follow fields object := by
  have hvalue : d.value t = d.valueOf object := by
    rw [Declaration.value, Tuple.object, h]
  have hrootValue : Argument.rootValue ⟨root, fields, fromTuple⟩ t fact = d.valueOf object := by
    rcases hroot with rfl | ⟨rfl, rfl⟩ <;> exact hvalue
  rw [Argument.evaluate, hrootValue]
  rfl

/-- No accessor reads the same from nothing and from a number. -/
theorem read_null_ne_read_int (a : Accessor) :
    a.read .null = .ok .null ∧ a.read (.int 1) = .ok (.int 1) ∨
      ∃ e e', a.read .null = .error e ∧ a.read (.int 1) = .error e' ∧ e ≠ e' := by
  induction a with
  | itself t => exact .inl ⟨rfl, rfl⟩
  | field name t => exact .inr ⟨_, _, rfl, rfl, by simp [Value.valueType]⟩
  | element a i t ih =>
    right
    rcases ih with ⟨hnull, hint⟩ | ⟨e, e', hnull, hint, hne⟩
    · rw [Accessor.read, Accessor.read, hnull, hint]
      exact ⟨_, _, rfl, rfl, by simp [Value.valueType]⟩
    · rw [Accessor.read, Accessor.read, hnull, hint]
      exact ⟨e, e', rfl, rfl, hne⟩

theorem follow_null_ne_follow_int (d : Declaration) (fields : List String) :
    d.follow fields .null ≠ d.follow fields (.int 1) := by
  rw [Declaration.follow, Declaration.follow, Declaration.valueOf, Declaration.valueOf]
  rcases read_null_ne_read_int d.accessor with ⟨hnull, hint⟩ | ⟨e, e', hnull, hint, hne⟩
  · rw [hnull, hint]
    cases fields with
    | nil => simp [Argument.follow]
    | cons name names => simp [Argument.follow, readField, Value.valueType]
  · rw [hnull, hint]
    simpa using hne

/-- The argument, evaluated for the matches of the node, reads the declaration and the fields from
the object that the pattern of the declaration matched. -/
def Node.ReadsObject (n : Node σ) (argument : Tuple → Value → Except ReadError Value)
    (d : Declaration) (fields : List String) (left : Tuple) (objects : List Value) : Prop :=
  ∃ object, n.source.objectAt left objects d.offset = some object ∧
    argument (n.matchOf left objects).tuple (n.matchOf left objects).fact = d.follow fields object

section Matches

variable {n : Node σ} {next : Nat} {d : Declaration} {left : Tuple} {objects : List Value}
  (fields : List String)

/-- A declaration of the rule is read from the left tuple. -/
theorem readsObject_outer (fromTuple : Bool) (hd : d.offset < left.size) (objects : List Value) :
    n.ReadsObject (Argument.evaluate ⟨.outer d, fields, fromTuple⟩) d fields left objects := by
  have hobject : left.get? d.offset = some left.objects[d.offset] := List.getElem?_eq_getElem hd
  refine ⟨_, (objectAt_of_lt n.source hd objects).trans hobject, ?_⟩
  exact evaluate_of_get? (.inl rfl) ((get?_matchOf_of_lt hd objects).trans hobject) _

variable (hs : Numbered next n.source.patterns) (hleft : left.size ≤ next)
  (hobjects : objects.length = n.source.patterns.length)

include hs hleft hobjects

/-- A declaration of the source is read from the tuple, if declarations of the source are. -/
theorem readsObject_inner (hoffset : n.sourceOffset = next) {p : Pattern}
    (hp : p ∈ n.source.patterns) (hd : d.offset = p.offset) :
    n.ReadsObject (Argument.evaluate ⟨.inner d, fields, true⟩) d fields left objects := by
  obtain ⟨hle, hlt⟩ := hs.mem_range hp
  obtain ⟨j, hj⟩ := Nat.exists_eq_add_of_le hle
  have hjlt : j < objects.length := by omega
  have hobject : objects[j]? = some objects[j] := List.getElem?_eq_getElem hjlt
  have hdj : d.offset = next + j := hd.trans hj
  refine ⟨objects[j], ?_, ?_⟩
  · rw [hdj, objectAt_add hs hleft hobjects, hobject]
  · refine evaluate_of_get? (.inr ⟨rfl, rfl⟩) ?_ _
    rw [hdj, get?_matchOf_add hoffset hleft, hobject]

/-- A declaration of the last pattern can just as well be read from the accumulated fact. -/
theorem readsObject_fact_of_last {p : Pattern} (hp : p ∈ n.source.patterns)
    (hd : d.offset = p.offset) (hlast : ∀ q ∈ n.source.patterns, q.offset ≤ d.offset) :
    n.ReadsObject (Argument.evaluate ⟨.inner d, fields, false⟩) d fields left objects := by
  obtain ⟨q, hq, hqlast⟩ := hs.exists_last (List.ne_nil_of_mem hp)
  have hdlast : d.offset = next + (objects.length - 1) := by
    have := hlast q hq
    have := hs.mem_range hp
    omega
  have hne : objects ≠ [] := by
    rw [← List.length_pos_iff, hobjects]
    exact List.length_pos_of_mem hp
  refine ⟨(n.matchOf left objects).fact, ?_, rfl⟩
  rw [hdlast, objectAt_add hs hleft hobjects, fact_matchOf hne]

end Matches

/-- A declaration of a pattern that is not the last one is not always read right from the
accumulated fact: with nothing in its place and a number at the end the two can be told apart. -/
theorem not_readsObject_fact {n : Node σ} {next : Nat} (hs : Numbered next n.source.patterns)
    (fields : List String) {d : Declaration} {p q : Pattern} (hp : p ∈ n.source.patterns)
    (hd : d.offset = p.offset) (hq : q ∈ n.source.patterns) (hlt : d.offset < q.offset) :
    ∃ objects : List Value, objects.length = n.source.patterns.length ∧
      ¬n.ReadsObject (Argument.evaluate ⟨.inner d, fields, false⟩) d fields .empty objects := by
  let objects : List Value := List.replicate (n.source.patterns.length - 1) .null ++ [.int 1]
  have hlen : objects.length = n.source.patterns.length := by
    have := List.length_pos_of_mem hp
    simp only [objects, List.length_append, List.length_replicate, List.length_singleton]
    omega
  refine ⟨objects, hlen, ?_⟩
  rintro ⟨object, hobject, heq⟩
  obtain ⟨hle, -⟩ := hs.mem_range hp
  obtain ⟨-, hqlt⟩ := hs.mem_range hq
  obtain ⟨j, hj⟩ := Nat.exists_eq_add_of_le hle
  have hjlt : j < n.source.patterns.length - 1 := by omega
  have hnull : objects[j]? = some .null := by
    rw [List.getElem?_append_left (by rw [List.length_replicate]; exact hjlt),
      List.getElem?_replicate, if_pos hjlt]
  have hfact : (n.matchOf .empty objects).fact = .int 1 := by
    have hlast : some (n.matchOf .empty objects).fact = objects[objects.length - 1]? :=
      fact_matchOf (by simp [objects])
    simpa [objects] using hlast
  rw [hd, hj, objectAt_add hs (Nat.zero_le _) hlen, hnull, Option.some_inj] at hobject
  rw [hfact, ← hobject] at heq
  exact follow_null_ne_follow_int d fields heq.symm

namespace Builder

/-- **An argument reads the object that its name was bound on, exactly if** the source counts as one
of several patterns, or does not bind the name itself, or binds it on its last pattern.

The clause is one of calls, built with numbered patterns, tokens and paths; the argument is a path
whose name is visible.  A left tuple must end before the source begins and cover the declarations
of the rule that are read; every match has one object for each pattern of the source. -/
theorem argument_reads_object_iff {b : Builder σ} {values : OrderedMap String Value}
    (hsources : b.sources = .patterns) (hanalyzer : b.analyzer = .lexical)
    (hcompiler : b.compiler = .paths values) {ctx : Context σ} (hscope : ctx.scope.Keyed)
    {clause : Clause} {calls : List Call} (hcalls : clause.body = .calls calls)
    {result : Pattern} {n : Node σ} (hn : (b.build ctx clause result).node = .ok (some n))
    {i : Nat} {call : Call} (hcall : calls[i]? = some call) {root : String} {fields : List String}
    (hread : PathExpr.read call.argument = .ok (.path root fields)) {d : Declaration}
    (hd : ctx.declarationOver? n.source root = some d) :
    ∃ f argument, ctx.function? call.function = some f ∧
      n.accumulators[i]? = some (.feeding f argument) ∧
      ((∀ (left : Tuple) (objects : List Value), left.size ≤ n.sourceOffset →
          objects.length = n.source.patterns.length →
          (n.source.binding? root = none → d.offset < left.size) →
          n.ReadsObject argument d fields left objects) ↔
        n.source.isMultiPattern = true ∨ n.source.binding? root = none ∨
          ∀ p ∈ n.source.patterns, p.offset ≤ d.offset) := by
  obtain ⟨input, ctx', hinput, hsource, hcompiles⟩ := forall₂_compiles hcalls hn
  rw [hsources, SourceBuilder.patterns, Prod.mk.injEq] at hsource
  obtain ⟨hbuilt, rfl⟩ := hsource
  obtain ⟨hs, -, hne⟩ := Source.numbered_ofCondition? (Prod.ext hbuilt rfl)
  have hoffset : n.sourceOffset = ctx.nextOffset := by
    rw [Node.sourceOffset, Source.firstOffset?_of_numbered hs hne]
    rfl
  obtain ⟨acc, hacc, f, hf, hcompiles⟩ := exists_of_forall₂ hcompiles hcall
  refine ⟨f, _, hf, hacc.trans (congrArg some
    (accumulator_of_compiles hanalyzer hcompiler hscope hread hd hcompiles)), ?_⟩
  rw [hoffset]
  cases hbinding : n.source.binding? root with
  | none =>
    refine iff_of_true (fun left objects _ _ hcovered => ?_) (.inr (.inl rfl))
    exact readsObject_outer fields _ (hcovered rfl) objects
  | some e =>
    rw [Context.declarationOver?, hbinding] at hd
    cases hd
    obtain ⟨p, hp, hdp⟩ := Source.exists_pattern_of_binding? hs hbinding
    simp only [Option.isSome_some, if_true]
    cases hmulti : n.source.isMultiPattern with
    | true =>
      refine iff_of_true (fun left objects hleft hobjects _ => ?_) (.inl rfl)
      exact readsObject_inner fields hs hleft hobjects hoffset hp hdp
    | false =>
      constructor
      · intro h
        refine .inr (.inr fun q hq => Nat.le_of_not_lt fun hlt => ?_)
        obtain ⟨objects, hobjects, hnot⟩ := not_readsObject_fact hs fields hp hdp hq hlt
        refine hnot (h .empty objects (Nat.zero_le _) hobjects fun hnone => ?_)
        exact absurd hnone (Option.some_ne_none d)
      · rintro (h | h | hlast) left objects hleft hobjects -
        · exact absurd h Bool.false_ne_true
        · exact absurd h (Option.some_ne_none _)
        · exact readsObject_fact_of_last fields hs hleft hobjects hp hdp hlast

/-! ## Clauses over two patterns -/

/-- The builder whose clauses are read by tokens and whose arguments are paths. -/
def overPaths : Builder State := ⟨.patterns, .lexical, .paths .empty⟩

/-- The rule before any of it has been built, with the built-in functions. -/
def emptyRule : Context State := .start "r" ⟨.builtins, false⟩ ⟨"p", .empty, .empty⟩

/-- The call that collects the values of an argument. -/
def collectCall (argument : String) : Call := ⟨"collectList", [argument], none, ⟨0, 0⟩⟩

/-- What is built of the clause that collects the values of an argument over a condition. -/
def collecting (input : Condition) (argument : String) : Built State :=
  overPaths.build emptyRule ⟨some input, .calls [collectCall argument], ⟨0, 0⟩⟩
    (.atOffset 2 .list false)

/-- The node of the clause. -/
def collecting? (input : Condition) (argument : String) : Option (Node State) :=
  match (collecting input argument).node with
  | .ok n => n
  | .error _ => none

theorem node_of_collecting? {input : Condition} {argument : String} {n : Node State}
    (h : collecting? input argument = some n) :
    (collecting input argument).node = .ok (some n) := by
  rw [collecting?] at h
  split at h
  · next o ho => rw [ho, h]
  · cases h

/-- The condition that there is an object of a type, bound to a name. -/
def objectOf (typeName name : String) : Condition := .pattern ⟨typeName, some name, [], ⟨0, 0⟩⟩

/-- A conjunction of two patterns is read from the tuple, the first of them included. -/
theorem argument_reads_object_iff_of_pair :
    let input : Condition := .all [objectOf "P" "p", objectOf "Q" "q"]
    let d : Declaration := ⟨"p", 0, .itself (.object "P")⟩
    emptyRule.scope.Keyed ∧ PathExpr.read (collectCall "p.x").argument = .ok (.path "p" ["x"]) ∧
      ∃ n, (collecting input "p.x").node = .ok (some n) ∧
        emptyRule.declarationOver? n.source "p" = some d ∧
        ∃ f argument, n.accumulators[0]? = some (.feeding f argument) ∧
          ∀ (left : Tuple) (objects : List Value), left.size ≤ n.sourceOffset →
            objects.length = n.source.patterns.length →
            n.ReadsObject argument d ["x"] left objects := by
  intro input d
  have hscope : emptyRule.scope.Keyed := Scope.keyed_empty
  have hread : PathExpr.read (collectCall "p.x").argument = .ok (.path "p" ["x"]) := by rfl
  have hbuilt : (collecting? input "p.x").any (fun n => decide
      (emptyRule.declarationOver? n.source "p" = some d ∧ n.source.isMultiPattern = true ∧
        n.source.binding? "p" = some d)) = true := by
    decide +kernel
  obtain ⟨n, hn, hall⟩ := (Option.any_eq_true _ _).1 hbuilt
  obtain ⟨hd, hmulti, hbinding⟩ := of_decide_eq_true hall
  have hnode := node_of_collecting? hn
  obtain ⟨f, argument, -, hacc, hiff⟩ := argument_reads_object_iff rfl rfl rfl hscope rfl hnode
    (i := 0) rfl hread hd
  refine ⟨hscope, hread, n, hnode, hd, f, argument, hacc, fun left objects hleft hobjects => ?_⟩
  refine hiff.2 (.inl hmulti) left objects hleft hobjects fun hnone => ?_
  rw [hbinding] at hnone
  exact absurd hnone (Option.some_ne_none d)

/-- **A conjunction inside a disjunction of its own is read from the accumulated fact.**  The name
is bound on the first of two patterns, but its field is read from the object of the second. -/
theorem argument_reads_other_object :
    let input : Condition := .any [.all [objectOf "P" "p", objectOf "Q" "q"]]
    let p : Value := .fact "P" [("x", .int 1)]
    let q : Value := .fact "Q" [("x", .int 2)]
    let d : Declaration := ⟨"p", 0, .itself (.object "P")⟩
    ∃ n m₀, (collecting input "p.x").node = .ok (some n) ∧
      emptyRule.declarationOver? n.source "p" = some d ∧
      n.source.objectAt .empty [p, q] d.offset = some p ∧ d.follow ["x"] p = .ok (.int 1) ∧
      n.init .empty = .ok m₀ ∧
      n.result .empty (n.run .empty m₀ [.insert ⟨1⟩ [p, q]]) = .ok (.list [.int 2]) := by
  intro input p q d
  have hbuilt : (collecting? input "p.x").any (fun n => decide
      (emptyRule.declarationOver? n.source "p" = some d ∧
        n.source.objectAt .empty [p, q] d.offset = some p ∧
        (n.init .empty).map (fun m₀ => n.result .empty (n.run .empty m₀ [.insert ⟨1⟩ [p, q]])) =
          .ok (.ok (.list [.int 2])))) = true := by
    decide +kernel
  obtain ⟨n, hn, hall⟩ := (Option.any_eq_true _ _).1 hbuilt
  obtain ⟨hd, hobject, hresult⟩ := of_decide_eq_true hall
  cases hm₀ : n.init .empty with
  | error e =>
    rw [hm₀] at hresult
    cases hresult
  | ok m₀ =>
    rw [hm₀] at hresult
    exact ⟨n, m₀, node_of_collecting? hn, hd, hobject, rfl, hm₀, Except.ok.inj hresult⟩

end Builder
end RuleAggregate
