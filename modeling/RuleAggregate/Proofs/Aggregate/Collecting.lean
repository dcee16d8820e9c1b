import RuleAggregate.Proofs.Value.NanFree

/-!
# Sets count what lists hold

A list keeps every value that is folded in, a set keeps one of several equal ones and counts them.
Whatever is folded in and taken back, in whatever order, the counters say how often a value stands
in the list, so that both collections refuse to take back the same values.

## What is here

* `Use`, `AggregateFunction.apply` — a value is folded in or taken back.
* `AggregateFunction.stateAfter`, `AggregateFunction.succeeding` — the state after uses one after
  the other, and which of them succeed.
* `Use.additions`, `Use.removals` — how often a value was folded in and taken back.
* `AggregateFunction.Counts` — **the invariant** that every use keeps.
* `AggregateFunction.collectSet_counts_collectList` — **a set is the list with its values counted.**
-/

set_option autoImplicit false

namespace RuleAggregate

/-! ## Values that are free of NaN -/

/-- A value without NaN is like those that equal it, and like no others. -/
theorem Value.alike_eq_eq {v w : Value} (hw : w.WellFormed) (hnan : w.NanFree) :
    v.alike w = v.eq w := by
  rw [Bool.eq_iff_iff, Value.alike_iff]
  exact ⟨fun h => Value.eq_of_alike hw hnan (Value.alike_iff.2 h), .inr⟩

theorem occurrences_eq_countP {u : Value} (hu : u.WellFormed) (hnan : u.NanFree)
    (vs : List Value) : occurrences u vs = vs.countP (·.eq u) := by
  simp only [occurrences, Value.alike_eq_eq hu hnan]

theorem any_eq_iff_occurrences {u : Value} (hu : u.WellFormed) (hnan : u.NanFree)
    {vs : List Value} : vs.any (·.eq u) = true ↔ 0 < occurrences u vs := by
  rw [occurrences_eq_countP hu hnan, List.countP_pos_iff, List.any_eq_true]

/-- The count of a key is the one that stands beside it. -/
theorem Counted.countOf_key {es : List (Value × Nat)} (hes : Counted es) {e : Value × Nat}
    (he : e ∈ es) (hself : e.1.eq e.1 = true) : countOf e.1 es = e.2 := by
  induction es with
  | nil => cases he
  | cons d es ih =>
    obtain ⟨v, n⟩ := d
    obtain ⟨⟨hv, -, -, hd⟩, hrest⟩ := counted_cons_iff.1 hes
    rw [countOf]
    rcases List.mem_cons.1 he with rfl | he
    · have hothers : countOf v es = 0 := by
        refine countOf_eq_zero fun d hd' => ?_
        rw [Bool.eq_false_iff, ne_eq, Value.alike_iff]
        rintro (rfl | h)
        · exact Bool.false_ne_true ((hd d hd').symm.trans hself)
        · have := Value.eq_symm (hrest.wellFormed d hd') hv h
          exact Bool.false_ne_true ((hd d hd').symm.trans this)
      rw [hothers, Value.alike_iff.2 (.inl rfl), if_pos rfl, Nat.zero_add]
    · have hnot : v.alike e.1 = false := by
        rw [Bool.eq_false_iff, ne_eq, Value.alike_iff]
        rintro (heq | h)
        · exact Bool.false_ne_true ((hd e he).symm.trans (heq ▸ hself))
        · exact Bool.false_ne_true ((hd e he).symm.trans h)
      rw [ih hrest he, hnot, if_neg Bool.false_ne_true, Nat.add_zero]

/-! ## Uses -/

/-- What is done with a value: it is folded in, or taken back. -/
inductive Use where
  | add (v : Value)
  | takeBack (v : Value)

namespace Use

def value : Use → Value
  | add v | takeBack v => v

/-- How often a value was folded in, equal ones included. -/
def additions (v : Value) (us : List Use) : Nat :=
  us.countP fun
    | add w => w.eq v
    | takeBack _ => false

/-- How often a value was taken back, equal ones included. -/
def removals (v : Value) (us : List Use) : Nat :=
  us.countP fun
    | add _ => false
    | takeBack w => w.eq v

variable (u v : Value) (us : List Use)

theorem additions_concat_add :
    additions u (us ++ [add v]) = additions u us + if v.eq u then 1 else 0 := by
  rw [additions, List.countP_append, List.countP_singleton, additions]

theorem additions_concat_takeBack : additions u (us ++ [takeBack v]) = additions u us := by
  rw [additions, List.countP_append, List.countP_singleton, additions]
  rfl

theorem removals_concat_add : removals u (us ++ [add v]) = removals u us := by
  rw [removals, List.countP_append, List.countP_singleton, removals]
  rfl

theorem removals_concat_takeBack :
    removals u (us ++ [takeBack v]) = removals u us + if v.eq u then 1 else 0 := by
  rw [removals, List.countP_append, List.countP_singleton, removals]

end Use

namespace AggregateFunction

section Uses

variable {σ : Type} (f : AggregateFunction σ)

/-- What a use does to a state. -/
def apply (s : σ) : Use → Outcome σ FunctionError
  | .add v => f.accumulate s v
  | .takeBack v => f.reverse s v

/-- The state after the uses, one after the other.  One that fails leaves behind what it leaves. -/
def stateAfter (us : List Use) : σ := us.foldl (fun s u => (f.apply s u).state) f.init

/-- The uses that succeed, if the first one is made of the state. -/
def succeedingFrom (s : σ) : List Use → List Use
  | [] => []
  | u :: us =>
    (if (f.apply s u).succeeded then [u] else []) ++ succeedingFrom (f.apply s u).state us

/-- The uses that succeed, one after the other. -/
def succeeding (us : List Use) : List Use := f.succeedingFrom f.init us

theorem stateAfter_concat (us : List Use) (u : Use) :
    f.stateAfter (us ++ [u]) = (f.apply (f.stateAfter us) u).state := by
  rw [stateAfter, List.foldl_append]
  rfl

theorem succeeding_concat (us : List Use) (u : Use) :
    f.succeeding (us ++ [u]) =
      f.succeeding us ++ if (f.apply (f.stateAfter us) u).succeeded then [u] else [] := by
  rw [succeeding, succeeding, stateAfter]
  generalize f.init = s
  induction us generalizing s with
  | nil => exact List.append_nil _
  | cons v us ih =>
    rw [List.cons_append, succeedingFrom, ih, succeedingFrom, List.append_assoc]
    rfl

end Uses

/-! ## The invariant -/

/-- After the uses the list holds `vs` and the set holds `es`, which are the values of the list with
their counts. -/
structure Counts (us : List Use) (vs : List Value) (es : List (Value × Nat)) : Prop where
  items : collectList.stateAfter us = .items vs
  tallies : collectSet.stateAfter us = .tallies es
  values : ∀ v ∈ vs, v.WellFormed ∧ v.NanFree
  counted : Counted es
  count : ∀ u : Value, u.WellFormed → countOf u es = occurrences u vs
  succeeding : collectSet.succeeding us = collectList.succeeding us
  balance : ∀ v : Value, v.WellFormed → v.NanFree →
    Use.additions v (collectList.succeeding us) =
      Use.removals v (collectList.succeeding us) + occurrences v vs

namespace Counts

variable {us : List Use} {vs : List Value} {es : List (Value × Nat)} {v : Value}

theorem nil : Counts [] [] [] :=
  ⟨rfl, rfl, nofun, counted_nil, fun _ _ => rfl, rfl, fun _ _ _ => rfl⟩

/-- A value is folded in. -/
theorem add (h : Counts us vs es) (hv : v.WellFormed) (hnan : v.NanFree) :
    Counts (us ++ [.add v]) (vs ++ [v]) (addOccurrence v es) := by
  have hlist : collectList.apply (collectList.stateAfter us) (.add v) =
      .success (.items (vs ++ [v])) := by
    rw [h.items]
    rfl
  have hset : collectSet.apply (collectSet.stateAfter us) (.add v) =
      .success (.tallies (addOccurrence v es)) := by
    rw [h.tallies]
    rfl
  refine ⟨?_, ?_, ?_, h.counted.addOccurrence hv, fun u hu => ?_, ?_, fun u hu hnanu => ?_⟩
  · rw [stateAfter_concat, hlist]
    rfl
  · rw [stateAfter_concat, hset]
    rfl
  · rw [List.forall_mem_append, List.forall_mem_singleton]
    exact ⟨h.values, hv, hnan⟩
  · rw [countOf_addOccurrence hv h.counted, occurrences_concat, h.count u hu]
  · rw [succeeding_concat, succeeding_concat, hlist, hset, h.succeeding]
    rfl
  · have hbalance := h.balance u hu hnanu
    rw [succeeding_concat, hlist, occurrences_concat, Value.alike_eq_eq hu hnanu]
    show Use.additions u (_ ++ [_]) = Use.removals u (_ ++ [_]) + _
    rw [Use.additions_concat_add, Use.removals_concat_add, hbalance, Nat.add_assoc]

/-- The set has a key that equals a value if the list has such a value. -/
theorem any_keys (h : Counts us vs es) (hv : v.WellFormed) (hnan : v.NanFree) :
    (es.map Prod.fst).any (·.eq v) = vs.any (·.eq v) := by
  have hself : v.eq v = true := (Value.eq_self_iff hv).2 hnan
  have hkeys := occurrences_keys hv h.counted
  rw [if_pos hself, h.count v hv] at hkeys
  rw [Bool.eq_iff_iff, any_eq_iff_occurrences hv hnan, any_eq_iff_occurrences hv hnan, hkeys]
  exact Nat.lt_min.trans (and_iff_right Nat.one_pos)

/-- The set has an occurrence to take away if the list has such a value. -/
theorem isSome_removeOccurrence? (h : Counts us vs es) (hv : v.WellFormed) (hnan : v.NanFree) :
    (removeOccurrence? v es).isSome = vs.any (·.eq v) :=
  removeOccurrence?_isSome.trans (h.any_keys hv hnan)

/-- What taking a value back does to the list. -/
theorem apply_list (h : Counts us vs es) :
    collectList.apply (collectList.stateAfter us) (.takeBack v) =
      if vs.any (·.eq v) then .success (.items (vs.eraseP (·.eq v)))
      else .failed (.items vs) (.notAccumulated "collectList" v.display) := by
  rw [h.items]
  rfl

/-- What taking a value back does to the set. -/
theorem apply_set (h : Counts us vs es) :
    collectSet.apply (collectSet.stateAfter us) (.takeBack v) =
      match removeOccurrence? v es with
      | some ds => .success (.tallies ds)
      | none => .failed (.tallies es) (.notAccumulated "collectSet" v.display) := by
  rw [h.tallies]
  rfl

/-- A value is taken back, or refused by both. -/
theorem takeBack (h : Counts us vs es) (hv : v.WellFormed) (hnan : v.NanFree) :
    ∃ vs' es', Counts (us ++ [.takeBack v]) vs' es' := by
  have hlist := h.apply_list (v := v)
  have hset := h.apply_set (v := v)
  have hsome := h.isSome_removeOccurrence? hv hnan
  rcases hfound : vs.any (·.eq v) with _ | _
  · rw [hfound] at hlist hsome
    rw [Option.isSome_eq_false_iff, Option.isNone_iff_eq_none] at hsome
    rw [hsome] at hset
    refine ⟨vs, es, ?_, ?_, h.values, h.counted, h.count, ?_, ?_⟩
    · rw [stateAfter_concat, hlist]
      rfl
    · rw [stateAfter_concat, hset]
      rfl
    · rw [succeeding_concat, succeeding_concat, hlist, hset, h.succeeding]
      rfl
    · rw [succeeding_concat, hlist]
      exact (List.append_nil _).symm ▸ h.balance
  · rw [hfound] at hlist hsome
    obtain ⟨ds, hds⟩ := Option.isSome_iff_exists.1 hsome
    rw [hds] at hset
    have hwf : ∀ w ∈ vs, w.WellFormed := fun w hw => (h.values w hw).1
    refine ⟨vs.eraseP (·.eq v), ds, ?_, ?_, ?_, h.counted.removeOccurrence? hds, fun u hu => ?_, ?_,
      fun u hu hnanu => ?_⟩
    · rw [stateAfter_concat, hlist]
      rfl
    · rw [stateAfter_concat, hset]
      rfl
    · exact fun w hw => h.values w (List.mem_of_mem_eraseP hw)
    · have hcount := h.count u hu
      rw [countOf_removeOccurrence? hv h.counted hds, occurrences_eraseP hv hwf hfound] at hcount
      exact Nat.add_right_cancel hcount
    · rw [succeeding_concat, succeeding_concat, hlist, hset, h.succeeding]
      rfl
    · have hbalance := h.balance u hu hnanu
      rw [occurrences_eraseP hv hwf hfound, Value.alike_eq_eq hu hnanu] at hbalance
      rw [succeeding_concat, hlist]
      show Use.additions u (_ ++ [_]) = Use.removals u (_ ++ [_]) + _
      rw [Use.additions_concat_takeBack, Use.removals_concat_takeBack, hbalance]
      omega

end Counts

/-- **The invariant holds after all uses.** -/
theorem exists_counts {us : List Use}
    (hus : ∀ u ∈ us, u.value.WellFormed ∧ u.value.NanFree) : ∃ vs es, Counts us vs es := by
  induction us using List.reverseRecOn with
  | nil => exact ⟨[], [], .nil⟩
  | append_singleton us u ih =>
    rw [List.forall_mem_append, List.forall_mem_singleton] at hus
    obtain ⟨vs, es, h⟩ := ih hus.1
    cases u with
    | add v => exact ⟨_, _, h.add hus.2.1 hus.2.2⟩
    | takeBack v => exact h.takeBack hus.2.1 hus.2.2

/-- A value is in the list if it was folded in more often than taken back. -/
theorem Counts.any_iff {us : List Use} {vs : List Value} {es : List (Value × Nat)}
    (h : Counts us vs es) {v : Value} (hv : v.WellFormed) (hnan : v.NanFree) :
    vs.any (·.eq v) = true ↔ ¬ Use.additions v (collectList.succeeding us) ≤
      Use.removals v (collectList.succeeding us) := by
  rw [any_eq_iff_occurrences hv hnan, h.balance v hv hnan]
  omega

/-- **When a collection refuses to take a value back**: if it was folded in no more often than taken
back. -/
theorem Counts.failure_takeBack {us : List Use} {vs : List Value} {es : List (Value × Nat)}
    (h : Counts us vs es) {v : Value} (hv : v.WellFormed) (hnan : v.NanFree)
    {f : AggregateFunction State} (hf : f = collectList ∨ f = collectSet) :
    (f.apply (f.stateAfter us) (.takeBack v)).failure =
      if Use.additions v (f.succeeding us) ≤ Use.removals v (f.succeeding us)
      then some (.notAccumulated f.name v.display) else none := by
  have hany := h.any_iff hv hnan
  rcases hf with rfl | rfl
  · rw [h.apply_list]
    split
    · next hfound => rw [if_neg (hany.1 hfound)]; rfl
    · next hmissing => rw [if_pos (Decidable.not_not.1 (mt hany.2 hmissing))]; rfl
  · have hsome := h.isSome_removeOccurrence? hv hnan
    rw [h.apply_set, h.succeeding]
    split
    · next ds hds =>
      rw [hds] at hsome
      rw [if_neg (hany.1 hsome.symm)]
      rfl
    · next hnone =>
      rw [hnone] at hsome
      rw [if_pos (Decidable.not_not.1 (mt hany.2 (hsome ▸ Bool.false_ne_true)))]
      rfl

/-- Every value of the list equals a key of the set. -/
theorem Counts.exists_key {us : List Use} {vs : List Value} {es : List (Value × Nat)}
    (h : Counts us vs es) {v : Value} (hv : v ∈ vs) : ∃ e ∈ es, v.eq e.1 = true := by
  obtain ⟨hwf, hnan⟩ := h.values v hv
  have hany : vs.any (·.eq v) = true :=
    List.any_eq_true.2 ⟨v, hv, (Value.eq_self_iff hwf).2 hnan⟩
  rw [← h.any_keys hwf hnan, List.any_map, List.any_eq_true] at hany
  obtain ⟨e, he, heq⟩ := hany
  exact ⟨e, he, Value.eq_symm (h.counted.wellFormed e he) hwf heq⟩

/-- A key is counted as often as values of the list equal it. -/
theorem Counts.count_key {us : List Use} {vs : List Value} {es : List (Value × Nat)}
    (h : Counts us vs es) {e : Value × Nat} (he : e ∈ es) :
    1 ≤ e.2 ∧ e.2 = vs.countP (·.eq e.1) := by
  have hwf := h.counted.wellFormed e he
  -- a key is counted, so it is like some value of the list, and that one is free of NaN
  have hpos := countOf_pos_of_mem he (h.counted.pos e he)
  rw [h.count e.1 hwf] at hpos
  obtain ⟨v, hv, halike⟩ := occurrences_pos_iff.1 hpos
  obtain ⟨hvwf, hvnan⟩ := h.values v hv
  have hself : e.1.eq e.1 = true := by
    rcases Value.alike_iff.1 halike with rfl | heq
    · exact (Value.eq_self_iff hvwf).2 hvnan
    · exact Value.eq_self_of_eq hvwf hwf heq
  have hnan := (Value.eq_self_iff hwf).1 hself
  refine ⟨h.counted.pos e he, ?_⟩
  rw [← h.counted.countOf_key he hself, h.count e.1 hwf, occurrences_eq_countP hwf hnan]

/-- **A set is the list with its values counted.**  Values without NaN are folded into a list and a
set and taken back, in any order.  At every point no two keys of the set are equal, each of them is
counted as often as values that equal it stand in the list, which is at least once, and every value
of the list equals a key.  Whatever is done next, both collections do it or both refuse.  Nothing
that is folded in is refused; a value is refused when it is to be taken back exactly if it was
folded in no more often than it was taken back, equal values included, and this is what the error
says. -/
theorem collectSet_counts_collectList {us : List Use}
    (hus : ∀ u ∈ us, u.value.WellFormed ∧ u.value.NanFree) :
    ∃ vs es, collectList.stateAfter us = .items vs ∧ collectSet.stateAfter us = .tallies es ∧
      es.Pairwise (fun d e => d.1.eq e.1 = false) ∧
      (∀ e ∈ es, 1 ≤ e.2 ∧ e.2 = vs.countP (·.eq e.1)) ∧
      (∀ v ∈ vs, ∃ e ∈ es, v.eq e.1 = true) ∧
      ∀ u : Use, u.value.WellFormed → u.value.NanFree →
        (collectList.apply (collectList.stateAfter us) u).succeeded =
          (collectSet.apply (collectSet.stateAfter us) u).succeeded ∧
        ∀ f, f = collectList ∨ f = collectSet →
          (f.apply (f.stateAfter us) u).failure = match u with
            | .add _ => none
            | .takeBack v =>
              if Use.additions v (f.succeeding us) ≤ Use.removals v (f.succeeding us)
              then some (.notAccumulated f.name v.display) else none := by
  obtain ⟨vs, es, h⟩ := exists_counts hus
  refine ⟨vs, es, h.items, h.tallies, h.counted.distinct, fun e he => h.count_key he,
    fun v hv => h.exists_key hv, fun u hu hnan => ?_⟩
  cases u with
  | add v =>
    rw [h.items, h.tallies]
    refine ⟨rfl, fun f hf => ?_⟩
    rcases hf with rfl | rfl
    · rw [h.items]
      rfl
    · rw [h.tallies]
      rfl
  | takeBack v =>
    have hfailure := fun {f} => h.failure_takeBack (v := v) hu hnan (f := f)
    refine ⟨?_, fun f hf => hfailure hf⟩
    rw [Outcome.succeeded, Outcome.succeeded, hfailure (.inl rfl), hfailure (.inr rfl),
      h.succeeding]
    split <;> rfl

/-- Of two equal zeros the second is taken back, and the list gives up the first one for it.  Two
facts are equal though their fields were set in different orders, and an integer is refused that was
never folded in. -/
theorem collectSet_counts_collectList_of_zeros :
    let f₁ : Value := .fact "P" [("a", .int 1), ("b", .int 2)]
    let f₂ : Value := .fact "P" [("b", .int 2), ("a", .int 1)]
    let us : List Use := [.add (.float (-0.0)), .add (.float 0.0), .takeBack (.int 1), .add f₁,
      .takeBack (.float 0.0), .add f₂]
    (∀ u ∈ us, u.value.WellFormed ∧ u.value.NanFree) ∧
      collectList.stateAfter us = .items [.float 0.0, f₁, f₂] ∧
      collectSet.stateAfter us = .tallies [(.float (-0.0), 1), (f₁, 2)] ∧
      (Value.float (-0.0)).eq f₁ = false ∧
      2 = [.float 0.0, f₁, f₂].countP (·.eq f₁) ∧
      (∃ e ∈ [(.float (-0.0), 1), (f₁, 2)], f₂.eq e.1 = true) ∧
      (collectSet.apply (collectSet.stateAfter us) (.takeBack (.int 1))).failure =
        some (.notAccumulated "collectSet" "1") := by
  intro f₁ f₂ us
  have hus : ∀ u ∈ us, u.value.WellFormed ∧ u.value.NanFree := by
    have hzero : ∀ x : Float, (Value.float x).eq (.float x) = true → (Value.float x).NanFree :=
      fun x => (Value.float_eq_self_iff x).1
    have hneg := hzero (-0.0) (by decide +kernel)
    have hpos := hzero 0.0 (by decide +kernel)
    have hf₁ : f₁.WellFormed ∧ f₁.NanFree := by
      simp [f₁, Value.WellFormed, Value.WellFormedFields, Assoc.keys, Value.NanFree,
        Value.NanFreeFields]
    have hf₂ : f₂.WellFormed ∧ f₂.NanFree := by
      simp [f₂, Value.WellFormed, Value.WellFormedFields, Assoc.keys, Value.NanFree,
        Value.NanFreeFields]
    simp only [us, List.forall_mem_cons]
    exact ⟨⟨trivial, hneg⟩, ⟨trivial, hpos⟩, ⟨trivial, trivial⟩, hf₁, ⟨trivial, hpos⟩, hf₂,
      List.forall_mem_nil _⟩
  have hlist : collectList.stateAfter us = .items [.float 0.0, f₁, f₂] := by rfl
  have hset : collectSet.stateAfter us = .tallies [(.float (-0.0), 1), (f₁, 2)] := by rfl
  obtain ⟨vs, es, hvs, hes, hdistinct, hcounts, hkeys, hnext⟩ := collectSet_counts_collectList hus
  rw [hlist] at hvs
  rw [hset] at hes
  cases hvs
  cases hes
  have hrefused := (hnext (.takeBack (.int 1)) trivial trivial).2 collectSet (.inr rfl)
  dsimp only at hrefused
  rw [if_pos (by decide +kernel), show (Value.int 1).display = "1" by decide +kernel] at hrefused
  exact ⟨hus, hlist, hset, List.rel_of_pairwise_cons hdistinct List.mem_cons_self,
    (hcounts (f₁, 2) (by simp)).2, hkeys f₂ (by simp), hrefused⟩

end AggregateFunction
end RuleAggregate
