import RuleAggregate.Proofs.Clause.Reading
import RuleAggregate.Proofs.Node.Reachable

/-!
# How bound results are read

The result of a clause of several calls is a list, and a name that a call asks for is bound to its
slot.  Names are collected while the calls are built, some of them are refused, and what remains
goes on the result pattern at the end, while the list is put together when the node runs.  This
file shows that a bound name reads the result of its own call all the same.

## What is here

* `Binds` — the call at an index is the one that binds a name.
* `Builder.mem_bindings_run_iff` — what the calls of a clause bind, given what was bound before.
* `Pattern.declaration?_foldl_bind` — what is found on a pattern after names were bound on it.
* `Builder.bound_results_read_back` — **a bound name reads the result of its own accumulator.**
-/

set_option autoImplicit false

namespace RuleAggregate

variable {σ : Type}

/-- The call at index `i` binds the name on the result pattern: it is the first one that asks for
it, and the name is neither on the pattern nor visible in the rule. -/
structure Binds (ctx : Context σ) (result : Pattern) (calls : List Call) (i : Nat)
    (name : String) : Prop where
  first : calls.findIdx? (fun c => c.binding == some name) = some i
  unbound : result.declaration? name = none
  invisible : ctx.scope.contains name = false

/-! ## Patterns with names bound on them -/

namespace Pattern

theorem offset_foldl_bind (bs : List (String × Accessor)) (p : Pattern) :
    (bs.foldl (fun r bound => r.bind bound.1 bound.2) p).offset = p.offset := by
  induction bs generalizing p with
  | nil => rfl
  | cons b bs ih => exact ih (p.bind b.1 b.2)

/-- If a name is bound in one way only, then that is what is found; a name that is not bound is
found as before. -/
theorem declaration?_foldl_bind {name : String} {a : Accessor} {bs : List (String × Accessor)}
    (h : ∀ a', (name, a') ∈ bs → a' = a) (p : Pattern) :
    (bs.foldl (fun r bound => r.bind bound.1 bound.2) p).declaration? name =
      if (name, a) ∈ bs then some ⟨name, p.offset, a⟩ else p.declaration? name := by
  induction bs generalizing p with
  | nil => rfl
  | cons b bs ih =>
    obtain ⟨k, a'⟩ := b
    rw [List.foldl_cons, ih (fun a'' ha => h a'' (List.mem_cons_of_mem _ ha)), declaration?_bind]
    by_cases hk : k = name
    · subst hk
      cases h a' List.mem_cons_self
      simp [bind]
    · have hne : (name, a) ≠ (k, a') := fun he => hk (Prod.mk.inj he).1.symm
      simp [hk, hne, bind]

end Pattern

/-! ## Reading slots -/

@[simp] theorem valueType_resultAccessor (isMulti : Bool) (index : Nat) (t : ValueType) :
    (resultAccessor isMulti index t).valueType = t := by
  cases isMulti <;> rfl

/-- The only slot is the first one. -/
theorem headD_eq_of_length_le_one {vs : List Value} (hle : vs.length ≤ 1) {i : Nat} {w : Value}
    (hw : vs[i]? = some w) : vs.headD .null = w := by
  have hlt : i < vs.length := (List.getElem?_eq_some_iff.1 hw).1
  obtain rfl : i = 0 := by omega
  rw [List.headD_eq_head?_getD, List.head?_eq_getElem?, hw]
  rfl

/-- The slot of a call is found in the result, whether that is a list or the only slot itself. -/
theorem read_resultAccessor {isMulti : Bool} {vs : List Value}
    (hmulti : isMulti = decide (1 < vs.length)) {i : Nat} {w : Value} (hw : vs[i]? = some w)
    (t : ValueType) :
    (resultAccessor isMulti i t).read (if isMulti then .list vs else vs.headD .null) = .ok w := by
  cases isMulti with
  | true =>
    show readElement (.list vs) i = .ok w
    rw [readElement, hw]
  | false =>
    have hle : vs.length ≤ 1 := Nat.le_of_not_lt (of_decide_eq_false hmulti.symm)
    exact congrArg Except.ok (headD_eq_of_length_le_one hle hw)

/-- A declaration at the offset after the left tuple reads the propagated result. -/
theorem value_propagate {d : Declaration} {left : Tuple} (h : left.size = d.offset) (v : Value) :
    d.value (Node.propagate left v) = d.accessor.read v := by
  rw [Declaration.value, Tuple.object, ← h, Node.propagate, Tuple.get?_push_size]
  rfl

/-! ## What one call binds -/

namespace Progress

variable {p : Progress σ} {result : Pattern} {span : Text.Span} {accessor : Accessor}

@[simp] theorem bindings_warnIgnored (p : Progress σ) (span : Text.Span) (call : Call) :
    (p.warnIgnored span call).bindings = p.bindings := by
  rw [warnIgnored]
  split <;> rfl

@[simp] theorem scope_warnIgnored (p : Progress σ) (span : Text.Span) (call : Call) :
    (p.warnIgnored span call).context.scope = p.context.scope := by
  rw [warnIgnored]
  split <;> rfl

@[simp] theorem scope_bindResult (p : Progress σ) (result : Pattern) (span : Text.Span)
    (accessor : Accessor) (name : Option String) :
    (p.bindResult result span accessor name).context.scope = p.context.scope := by
  cases name with
  | none => rfl
  | some name =>
    rw [bindResult]
    split <;> rfl

/-- A call binds its name unless it is taken. -/
theorem mem_bindings_bindResult {asked : Option String} {name : String} {a : Accessor} :
    (name, a) ∈ (p.bindResult result span accessor asked).bindings ↔
      (name, a) ∈ p.bindings ∨
        p.isTaken result name = false ∧ asked = some name ∧ a = accessor := by
  cases asked with
  | none => simp [bindResult]
  | some k =>
    rw [bindResult, Option.some_inj]
    split
    · next htaken =>
      refine (or_iff_left ?_).symm
      rintro ⟨hfree, rfl, -⟩
      rw [htaken] at hfree
      exact absurd hfree.symm Bool.false_ne_true
    · next hfree =>
      rw [List.mem_append, List.mem_singleton, Prod.mk.injEq]
      refine or_congr_right ⟨?_, ?_⟩
      · rintro ⟨rfl, rfl⟩
        exact ⟨Bool.eq_false_iff.2 hfree, rfl, rfl⟩
      · rintro ⟨-, rfl, rfl⟩
        exact ⟨rfl, rfl⟩

/-- After a call a name is taken if it was before, or if the call asks for it. -/
theorem isTaken_bindResult {asked : Option String} {name : String} :
    (p.bindResult result span accessor asked).isTaken result name =
      (p.isTaken result name || asked == some name) := by
  cases asked with
  | none => simp [bindResult]
  | some k =>
    rw [bindResult]
    split
    · next htaken =>
      show p.isTaken result name = _
      by_cases hk : k = name
      · subst hk
        rw [htaken, Bool.true_or]
      · simp [hk]
    · simp [isTaken, Bool.or_assoc]

end Progress

namespace Builder

variable {b : Builder σ} {clause : Clause} {scope : ClauseScope} {result : Pattern}

theorem scope_of_analyze {ctx ctx' : Context σ} {span : Text.Span} {code : String}
    {kind : FragmentKind} {o : Except Halt Analysis}
    (h : b.analyze ctx span code kind scope = (o, ctx')) : ctx'.scope = ctx.scope := by
  rw [analyze] at h
  split at h <;> cases h <;> rfl

theorem scope_of_compile {ctx ctx' : Context σ} {span : Text.Span} {request : Request σ}
    {o : Except Halt (Accumulator σ)} (h : b.compile ctx span request = (o, ctx')) :
    ctx'.scope = ctx.scope := by
  simp only [compile] at h
  split at h <;> cases h <;> rfl

/-- A call that is built binds its result, and leaves the scope of the rule alone. -/
theorem bindings_of_buildCall {p q : Progress σ} {r : ResolvedCall σ}
    (h : b.buildCall clause scope result p r = .success q) :
    q.bindings = (p.bindResult result (clause.callSpan r.call)
        (resultAccessor clause.isMulti r.index r.function.resultType) r.call.binding).bindings ∧
      q.context.scope = p.context.scope := by
  simp only [buildCall] at h
  split at h
  · cases h
  · next a ctx ha =>
    split at h
    · cases h
    · split at h
      · cases h
      · next acc ctx' hc =>
        cases h
        refine ⟨by simp, ?_⟩
        have hcompile : ctx'.scope = ctx.scope :=
          (scope_of_compile hc : ctx'.scope = ctx.takeId.2.scope)
        show ctx'.scope = _
        rw [hcompile, scope_of_analyze ha]
        simp

/-- After a call that is built, a name is taken if it was before, or if the call asks for it. -/
theorem isTaken_of_buildCall {p q : Progress σ} {r : ResolvedCall σ}
    (h : b.buildCall clause scope result p r = .success q) (name : String) :
    q.isTaken result name = (p.isTaken result name || r.call.binding == some name) := by
  obtain ⟨hbindings, hscope⟩ := bindings_of_buildCall h
  rw [← Progress.isTaken_bindResult, Progress.isTaken, Progress.isTaken, hbindings, hscope,
    Progress.scope_bindResult]

/-! ## What all calls bind -/

/-- **What the calls bind.**  A name that was free is bound by the first call that asks for it. -/
theorem mem_bindings_run_iff {name : String} {a : Accessor} {rs : List (ResolvedCall σ)} :
    ∀ {p q : Progress σ}, Outcome.run (b.buildCall clause scope result) p rs = .success q →
      ((name, a) ∈ q.bindings ↔ (name, a) ∈ p.bindings ∨ p.isTaken result name = false ∧
        ∃ r, rs.find? (fun r => r.call.binding == some name) = some r ∧
          a = resultAccessor clause.isMulti r.index r.function.resultType) := by
  induction rs with
  | nil =>
    intro p q h
    cases h
    simp
  | cons r rs ih =>
    intro p q h
    obtain ⟨u, hu, hrun⟩ := Outcome.run_cons_eq_success_iff.1 h
    rw [ih hrun, (bindings_of_buildCall hu).1, Progress.mem_bindings_bindResult,
      isTaken_of_buildCall hu, List.find?_cons]
    by_cases hasked : r.call.binding = some name
    · simp [hasked]
    · have hother : (r.call.binding == some name) = false := beq_eq_false_iff_ne.2 hasked
      simp [hasked, hother]

/-- The first call that asks for something is resolved in its place, and it is the first one that
asks for it among the resolved calls. -/
theorem exists_find?_of_findIdx? {ctx : Context σ} {asks : Call → Bool} {calls : List Call} :
    ∀ {k i : Nat} {rs : List (ResolvedCall σ)}, resolveCalls ctx k calls = .ok rs →
      calls.findIdx? asks = some i →
        ∃ r, rs.find? (fun r => asks r.call) = some r ∧ r.index = k + i ∧
          calls[i]? = some r.call ∧ ctx.function? r.call.function = some r.function := by
  induction calls with
  | nil => exact fun _ h => nomatch h
  | cons c cs ih =>
    intro k i rs h hi
    obtain ⟨f, ss, hf, hcs, rfl⟩ := exists_of_resolveCalls_cons h
    rw [List.findIdx?_cons] at hi
    cases hasks : asks c with
    | true =>
      rw [hasks] at hi
      cases hi
      exact ⟨⟨k, c, f⟩, by rw [List.find?_cons, hasks], rfl, rfl, hf⟩
    | false =>
      rw [hasks] at hi
      obtain ⟨j, hj, rfl⟩ := Option.map_eq_some_iff.1 hi
      obtain ⟨r, hr, hindex, hcall, hfun⟩ := ih hcs hj
      refine ⟨r, by rw [List.find?_cons, hasks]; exact hr, ?_, hcall, hfun⟩
      rw [hindex, Nat.add_assoc, Nat.add_comm 1 j]

theorem call_mem_of_resolveCalls {ctx : Context σ} {calls : List Call} {k : Nat}
    {rs : List (ResolvedCall σ)} (hrs : resolveCalls ctx k calls = .ok rs) {r : ResolvedCall σ}
    (hr : r ∈ rs) : r.call ∈ calls := by
  have hall := forall₂_resolveCalls hrs
  clear hrs
  induction hall with
  | nil => cases hr
  | cons h _ ih =>
    rcases List.mem_cons.1 hr with rfl | hr
    · rw [h.1]
      exact List.mem_cons_self
    · exact List.mem_cons_of_mem _ (ih hr)

/-- What a resolved call asks for, some call is the first one to ask for. -/
theorem exists_findIdx?_of_find? {ctx : Context σ} {asks : Call → Bool} {calls : List Call}
    {k : Nat} {rs : List (ResolvedCall σ)} (hrs : resolveCalls ctx k calls = .ok rs)
    {r : ResolvedCall σ} (hr : rs.find? (fun r => asks r.call) = some r) :
    ∃ i, calls.findIdx? asks = some i := by
  have hasks : asks r.call = true :=
    List.find?_some (p := fun r : ResolvedCall σ => asks r.call) hr
  rw [← Option.isSome_iff_exists, List.findIdx?_isSome, List.any_eq_true]
  exact ⟨r.call, call_mem_of_resolveCalls hrs (List.mem_of_find?_eq_some hr), hasks⟩

theorem isMulti_nodeOfCalls (source : Source) (p : Progress σ) :
    (nodeOfCalls source p).isMulti = decide (p.accumulators.length ≠ 1) := by
  rw [Node.isMulti, nodeOfCalls]
  rcases p.accumulators with _ | ⟨a, _ | ⟨a', as⟩⟩
  · rfl
  · rfl
  · simp

/-- **A name is found on the result pattern as the calls bound it, or else as before.** -/
theorem declaration?_build {ctx' : Context σ} {calls : List Call} {name : String}
    {rs : List (ResolvedCall σ)} {p : Progress σ} (hrs : resolveCalls ctx' 0 calls = .ok rs)
    (hrun : Outcome.run (b.buildCall clause scope result) ⟨ctx', .empty, [], []⟩ rs = .success p) :
    (∀ i, Binds ctx' result calls i name → ∃ call f, calls[i]? = some call ∧
      call.binding = some name ∧ ctx'.function? call.function = some f ∧
        (p.bindings.foldl (fun r bound => r.bind bound.1 bound.2) result).declaration? name =
          some ⟨name, result.offset, resultAccessor clause.isMulti i f.resultType⟩) ∧
      ((∀ i, ¬ Binds ctx' result calls i name) →
        (p.bindings.foldl (fun r bound => r.bind bound.1 bound.2) result).declaration? name =
          result.declaration? name) := by
  have hfree : Progress.isTaken ⟨ctx', .empty, [], []⟩ result name = false ↔
      result.declaration? name = none ∧ ctx'.scope.contains name = false := by
    simp [Progress.isTaken]
  have hmem : ∀ a, (name, a) ∈ p.bindings ↔
      (result.declaration? name = none ∧ ctx'.scope.contains name = false) ∧
        ∃ r, rs.find? (fun r => r.call.binding == some name) = some r ∧
          a = resultAccessor clause.isMulti r.index r.function.resultType := by
    intro a
    rw [mem_bindings_run_iff hrun, hfree]
    exact or_iff_right List.not_mem_nil
  constructor
  · rintro i ⟨hfirst, hunbound, hinvisible⟩
    obtain ⟨r, hr, hindex, hcall, hfun⟩ := exists_find?_of_findIdx? hrs hfirst
    rw [Nat.zero_add] at hindex
    have hasked : (r.call.binding == some name) = true :=
      List.find?_some (p := fun r : ResolvedCall σ => r.call.binding == some name) hr
    have huniq : ∀ a, (name, a) ∈ p.bindings →
        a = resultAccessor clause.isMulti i r.function.resultType := by
      intro a ha
      obtain ⟨-, r', hr', rfl⟩ := (hmem a).1 ha
      rw [hr, Option.some_inj] at hr'
      rw [← hr', hindex]
    have hbound : (name, resultAccessor clause.isMulti i r.function.resultType) ∈ p.bindings :=
      (hmem _).2 ⟨⟨hunbound, hinvisible⟩, r, hr, by rw [hindex]⟩
    refine ⟨r.call, r.function, hcall, beq_iff_eq.1 hasked, hfun, ?_⟩
    rw [Pattern.declaration?_foldl_bind huniq, if_pos hbound]
  · intro hnone
    have habsent : ∀ a, (name, a) ∉ p.bindings := by
      intro a ha
      obtain ⟨⟨hunbound, hinvisible⟩, r, hr, -⟩ := (hmem a).1 ha
      obtain ⟨i, hfirst⟩ : ∃ i, calls.findIdx? (fun c => c.binding == some name) = some i :=
        exists_findIdx?_of_find? hrs hr
      exact hnone i ⟨hfirst, hunbound, hinvisible⟩
    rw [Pattern.declaration?_foldl_bind fun a ha => absurd ha (habsent a),
      if_neg (habsent (.itself .any))]

/-- **A bound name reads the result of its own accumulator.**  A clause of calls that becomes a
node has an accumulator for every call, in the order of the calls.  The result pattern declares
what was declared on it before, and the names that the calls bind.  Whatever the node went through,
if it has a result then each of these names has, after the result was propagated, the value that
the accumulator of its call answers, and the type that the function of the call declares. -/
theorem bound_results_read_back {ctx : Context σ} {clause : Clause} {result : Pattern}
    {calls : List Call} (hcalls : clause.body = .calls calls) {n : Node σ}
    (hn : (b.build ctx clause result).node = .ok (some n)) :
    ∃ input ctx', clause.validInput? = some input ∧
      b.sources ctx input.unwrap = (some n.source, ctx') ∧
      List.Forall₂ (fun call acc => ∃ f, ctx'.function? call.function = some f ∧
        b.Compiles (ClauseScope.of ctx' n.source) f call.argument acc) calls n.accumulators ∧
      (∀ name, (∀ i, ¬ Binds ctx' result calls i name) →
        (b.build ctx clause result).pattern.declaration? name = result.declaration? name) ∧
      ∀ m, n.Reachable m → ∀ left, left.size = (b.build ctx clause result).pattern.offset →
        ∀ v, n.result left m = .ok v → ∀ i name, Binds ctx' result calls i name →
          ∃ call f d acc c w, calls[i]? = some call ∧ call.binding = some name ∧
            ctx'.function? call.function = some f ∧
            (b.build ctx clause result).pattern.declaration? name = some d ∧
            d.valueType = f.resultType ∧
            n.accumulators[i]? = some acc ∧ m.contexts[i]? = some c ∧ acc.result c left = .ok w ∧
            d.value (Node.propagate left v) = .ok w ∧
            (calls.length = 1 → v = w) ∧
            (1 < calls.length → ∃ vs, v = .list vs ∧ vs[i]? = some w) := by
  obtain ⟨input, ctx', rs, p, hinput, hsource, hrs, hrun, hnode, hpattern⟩ :=
    exists_progress_of_build hcalls hn
  obtain ⟨accs, haccs, hall⟩ := compiles_of_run (forall₂_resolveCalls hrs) hrun
  have hcompiles : n.accumulators = accs := by
    rw [hnode, accumulators_nodeOfCalls, haccs]
    rfl
  have hlen : calls.length = n.accumulators.length := by
    rw [hcompiles]
    exact hall.length_eq
  rw [← hcompiles] at hall
  refine ⟨input, ctx', hinput, hsource, hall, ?_⟩
  rw [hpattern]
  refine ⟨fun name => (declaration?_build hrs hrun).2, ?_⟩
  intro m hm left hleft v hv i name hbinds
  rw [Pattern.offset_foldl_bind] at hleft
  obtain ⟨call, f, hcall, hasked, hfun, hdecl⟩ := (declaration?_build hrs hrun).1 i hbinds
  obtain ⟨acc, hacc, -⟩ := exists_of_forall₂ hall hcall
  obtain ⟨vs, rfl, hvs, hslots⟩ := hm.exists_slots hv
  obtain ⟨c, w, hc, hw, hresult⟩ := hslots i acc hacc
  have hpos : i < calls.length := (List.getElem?_eq_some_iff.1 hcall).1
  have hclause : clause.isMulti = decide (1 < vs.length) := by
    rw [Clause.isMulti, hcalls, hvs, ← hlen]
  have hmulti : n.isMulti = clause.isMulti := by
    rw [hnode, isMulti_nodeOfCalls, hclause, hvs, ← accumulators_nodeOfCalls n.source, ← hnode,
      ← hlen]
    exact decide_eq_decide.2 (by omega)
  refine ⟨call, f, _, acc, c, w, hcall, hasked, hfun, hdecl, valueType_resultAccessor _ _ _, hacc,
    hc, hresult, ?_, fun hone => ?_, fun hmore => ?_⟩
  · rw [value_propagate hleft, hmulti]
    exact read_resultAccessor hclause hw _
  · have hle : vs.length ≤ 1 := by omega
    rw [hmulti, hclause, decide_eq_false (Nat.not_lt.2 hle)]
    exact headD_eq_of_length_le_one hle hw
  · rw [hmulti, hclause, hvs, ← hlen, decide_eq_true hmore]
    exact ⟨vs, rfl, hw⟩

/-- A test of what was built can only succeed on a node. -/
theorem exists_node_of_any {built : Built σ} {test : Node σ → Bool}
    (h : built.node.toOption.any (·.any test) = true) :
    ∃ n, built.node = .ok (some n) ∧ test n = true := by
  obtain ⟨o, ho, hany⟩ := (Option.any_eq_true _ _).1 h
  obtain ⟨n, rfl, htest⟩ := (Option.any_eq_true _ _).1 hany
  cases hnode : built.node with
  | error e =>
    rw [hnode] at ho
    cases ho
  | ok o =>
    rw [hnode] at ho
    cases ho
    exact ⟨n, rfl, htest⟩

/-- Of three calls the second one asks for the name of the first, and binds nothing.  The third one
is still read from the third slot. -/
theorem bound_results_read_back_of_duplicate :
    let call (function name : String) : Call := ⟨function, ["p.x"], some name, ⟨0, 0⟩⟩
    let calls := [call "sum" "s", call "max" "s", call "count" "n"]
    let result := Pattern.atOffset 0 .list true
    let built := overPaths.build emptyRule ⟨some (objectOf "P" "p"), .calls calls, ⟨0, 0⟩⟩ result
    let ops : List Operation :=
      [.insert ⟨1⟩ [.fact "P" [("x", .int 1)]], .insert ⟨2⟩ [.fact "P" [("x", .int 4)]]]
    let v : Value := .list [.float 5.0, .int 4, .int 2]
    built.pattern.bound.keys = ["s", "n"] ∧ ∃ n m₀ d, built.node = .ok (some n) ∧
      n.Reachable (n.run .empty m₀ ops) ∧ Tuple.empty.size = built.pattern.offset ∧
      n.result .empty (n.run .empty m₀ ops) = .ok v ∧ Binds emptyRule result calls 2 "n" ∧
      built.pattern.declaration? "n" = some d ∧ d.valueType = .integer ∧
      d.value (Node.propagate .empty v) = .ok (.int 2) := by
  intro call calls result built ops v
  have hkeys : built.pattern.bound.keys = ["s", "n"] := by decide +kernel
  have htest : built.node.toOption.any (·.any fun n => decide
      ((n.init .empty).map (fun m₀ => n.result .empty (n.run .empty m₀ ops)) = .ok (.ok v))) =
        true := by
    decide +kernel
  obtain ⟨n, hn, hdecide⟩ := exists_node_of_any htest
  have hresult := of_decide_eq_true hdecide
  cases h₀ : n.init .empty with
  | error e =>
    rw [h₀] at hresult
    cases hresult
  | ok m₀ =>
    rw [h₀] at hresult
    have hv : n.result .empty (n.run .empty m₀ ops) = .ok v := Except.ok.inj hresult
    have hm : n.Reachable (n.run .empty m₀ ops) := (Node.Reachable.init h₀).run .empty ops
    have hsize : Tuple.empty.size = built.pattern.offset := by decide +kernel
    have hbinds : Binds emptyRule result calls 2 "n" :=
      ⟨by decide +kernel, by decide +kernel, by decide +kernel⟩
    obtain ⟨input, ctx', -, hsource, -, -, hread⟩ := bound_results_read_back rfl hn
    obtain ⟨-, rfl⟩ := Prod.mk.inj hsource
    obtain ⟨c, f, d, acc, s, w, hc, -, hf, hd, htype, -, -, -, hvalue, -, hslot⟩ :=
      hread _ hm .empty hsize v hv 2 "n" ⟨hbinds.first, hbinds.unbound, hbinds.invisible⟩
    obtain ⟨vs, hvs, hw⟩ := hslot (by decide)
    obtain rfl := Value.list.inj hvs
    cases hw
    cases hc
    have hcount : (emptyRule.function? "count").map (·.resultType) = some .integer := by
      decide +kernel
    have hf' : emptyRule.function? "count" = some f := hf
    rw [hf', Option.map_some, Option.some_inj] at hcount
    exact ⟨hkeys, n, m₀, d, hn, hm, hsize, hv, hbinds, hd, htype.trans hcount, hvalue⟩

end Builder
end RuleAggregate
