import RuleAggregate.Proofs.Aggregate.Folding
import RuleAggregate.Proofs.Value.Integers

/-!
# When taking values back is exact

Taking a value back leaves a state that stands for the other values.  This file says when it is the
very state into which the others were folded: numbers must be subtracted without rounding, which is
so for integers that are not too large, and collected values must be told apart by equality.

## What is here

* `AggregateFunction.ExactOn` — what makes taking a value back exact.
* `AggregateFunction.state_reverse_folded` — **taking a value back is as good as never having folded
  it in.**
* `AggregateFunction.exactOn_of_integers` — sums and averages are exact on integers whose absolute
  values add up to less than 2⁵³.
-/

set_option autoImplicit false

namespace RuleAggregate

/-- Subtracting any one of the numbers from their sum gives the sum of the others: nothing was
rounded off. -/
def Cancels (xs : List Float) : Prop :=
  ∀ ys x zs, xs = ys ++ x :: zs → total xs - x = total (ys ++ zs)

/-! ## Sums of integers -/

/-- The sum of the absolute values. -/
def magnitude (ns : List Int) : Nat := (ns.map Int.natAbs).sum

theorem natAbs_sum_le_magnitude (ns : List Int) : ns.sum.natAbs ≤ magnitude ns := by
  induction ns with
  | nil => exact Nat.le_refl 0
  | cons n ns ih =>
    rw [List.sum_cons, magnitude, List.map_cons, List.sum_cons]
    exact (Int.natAbs_add_le n ns.sum).trans (Nat.add_le_add_left ih _)

theorem magnitude_append (ns ms : List Int) :
    magnitude (ns ++ ms) = magnitude ns + magnitude ms := by
  rw [magnitude, List.map_append, List.sum_append]
  rfl

theorem total_integers {ns : List Int} (h : magnitude ns < 2 ^ 53) :
    total (ns.map integer) = integer ns.sum := by
  induction ns using List.reverseRecOn with
  | nil => exact integer_zero.symm
  | append_singleton ns n ih =>
    have hsum := natAbs_sum_le_magnitude ns
    have hall := natAbs_sum_le_magnitude (ns ++ [n])
    have hn := natAbs_sum_le_magnitude [n]
    have hmag := magnitude_append ns [n]
    rw [List.sum_append] at hall
    rw [List.sum_singleton] at hall hn
    rw [List.map_append, List.map_singleton, total_concat, ih (by omega),
      integer_add (by omega) (by omega) (by omega), List.sum_append, List.sum_singleton]

/-- **Integers cancel** as long as their absolute values add up to less than 2⁵³. -/
theorem cancels_integers {ns : List Int} (h : magnitude ns < 2 ^ 53) :
    Cancels (ns.map integer) := by
  intro ys x zs hsplit
  obtain ⟨ks, ls, rfl, rfl, hls⟩ := List.map_eq_append_iff.1 hsplit
  obtain ⟨n, ms, rfl, rfl, rfl⟩ := List.map_eq_cons_iff.1 hls
  have hall := natAbs_sum_le_magnitude (ks ++ n :: ms)
  have hrest := natAbs_sum_le_magnitude (ks ++ ms)
  have hn := natAbs_sum_le_magnitude [n]
  have hmag := magnitude_append ks (n :: ms)
  have hmag' := magnitude_append ks ms
  have hcons := magnitude_append [n] ms
  have hdiff : (ks ++ n :: ms).sum - n = (ks ++ ms).sum := by
    rw [List.sum_append, List.sum_append, List.sum_cons]
    omega
  rw [List.sum_singleton] at hn
  rw [List.singleton_append] at hcons
  rw [total_integers h, ← List.map_append, total_integers (by omega),
    integer_sub (by omega) (by omega) (by rw [hdiff]; omega), hdiff]

namespace AggregateFunction

/-! ## Exact states -/

/-- What makes taking a value back from the values as good as never having folded it in: numbers are
subtracted without rounding, and collected values are told apart by equality. -/
structure ExactOn (f : AggregateFunction State) (vs : List Value) : Prop where
  cancels : f = sum ∨ f = average → Cancels (numbers vs)
  distinct : f = collectList ∨ f = collectSet → vs.Pairwise fun v w => v.eq w = false

variable {f : AggregateFunction State}

/-- If the values are told apart by equality, none of the others equals the one in the middle. -/
theorem eq_false_of_pairwise {xs ys : List Value} {v : Value}
    (hwf : ∀ w ∈ xs ++ v :: ys, w.WellFormed)
    (hd : (xs ++ v :: ys).Pairwise fun v w => v.eq w = false) :
    (∀ w ∈ xs, w.eq v = false) ∧ ∀ w ∈ ys, w.eq v = false := by
  obtain ⟨-, hvys, hxs⟩ := List.pairwise_append.1 hd
  refine ⟨fun w hw => hxs w hw v List.mem_cons_self, fun w hw => ?_⟩
  rw [Bool.eq_false_iff]
  intro heq
  have hsymm : v.eq w = true := Value.eq_symm (hwf w (by simp [hw])) (hwf v (by simp)) heq
  rw [(List.pairwise_cons.1 hvys).1 w hw] at hsymm
  exact Bool.false_ne_true hsymm

theorem folded_collectSet_of_pairwise {vs : List Value}
    (hd : vs.Pairwise fun v w => v.eq w = false) :
    collectSet.folded vs = .tallies (vs.map fun v => (v, 1)) := by
  induction vs using List.reverseRecOn with
  | nil => rfl
  | append_singleton vs v ih =>
    obtain ⟨hvs, -, hv⟩ := List.pairwise_append.1 hd
    have hadd : ∀ ws : List Value, (∀ w ∈ ws, w.eq v = false) →
        addOccurrence v (ws.map fun w => (w, 1)) = (ws ++ [v]).map fun w => (w, 1) := by
      intro ws hws
      induction ws with
      | nil => rfl
      | cons w ws ih =>
        rw [List.forall_mem_cons] at hws
        rw [List.map_cons, addOccurrence, hws.1, if_neg Bool.false_ne_true, ih hws.2]
        rfl
    rw [folded_concat, ih hvs]
    exact congrArg State.tallies (hadd vs fun w hw => hv w hw v List.mem_cons_self)

theorem eraseP_middle {xs ys : List Value} {v : Value} (hxs : ∀ w ∈ xs, w.eq v = false)
    (hys : ∀ w ∈ ys, w.eq v = false) (hany : (xs ++ v :: ys).any (·.eq v) = true) :
    (xs ++ v :: ys).eraseP (·.eq v) = xs ++ ys := by
  have hself : v.eq v = true := by
    obtain ⟨w, hw, heq⟩ := List.any_eq_true.1 hany
    rcases List.mem_append.1 hw with hw | hw
    · rw [hxs w hw] at heq
      exact absurd heq Bool.false_ne_true
    · rcases List.mem_cons.1 hw with rfl | hw
      · exact heq
      · rw [hys w hw] at heq
        exact absurd heq Bool.false_ne_true
  have hnot : ∀ w ∈ xs, ¬w.eq v = true := fun w hw => by
    rw [hxs w hw]
    exact Bool.false_ne_true
  exact (List.eraseP_append_right _ hnot).trans (congrArg (xs ++ ·) (List.eraseP_cons_of_pos hself))

theorem removeOccurrence?_append {v : Value} {xs : List Value} (hxs : ∀ w ∈ xs, w.eq v = false)
    (es : List (Value × Nat)) :
    removeOccurrence? v (xs.map (fun w => (w, 1)) ++ es) =
      (removeOccurrence? v es).map (xs.map (fun w => (w, 1)) ++ ·) := by
  induction xs with
  | nil => cases hr : removeOccurrence? v es <;> simp [hr]
  | cons w xs ih =>
    rw [List.forall_mem_cons] at hxs
    rw [List.map_cons, List.cons_append, removeOccurrence?, hxs.1, if_neg Bool.false_ne_true,
      ih hxs.2, Option.map_map]
    rfl

theorem removeOccurrence?_middle {xs ys : List Value} {v : Value}
    (hxs : ∀ w ∈ xs, w.eq v = false) (hys : ∀ w ∈ ys, w.eq v = false) {ds : List (Value × Nat)}
    (h : removeOccurrence? v ((xs ++ v :: ys).map fun v => (v, 1)) = some ds) :
    ds = (xs ++ ys).map fun v => (v, 1) := by
  rw [List.map_append, removeOccurrence?_append hxs, List.map_cons, removeOccurrence?] at h
  split at h
  · rw [if_pos (Nat.le_refl 1), Option.map_some, Option.some_inj] at h
    rw [← h, List.map_append]
  · have hnone := removeOccurrence?_append hys []
    rw [List.append_nil] at hnone
    rw [hnone] at h
    exact absurd h.symm (Option.some_ne_none ds)

/-- **Taking a value back is as good as never having folded it in**, if the function is exact on
the values. -/
theorem state_reverse_folded (hf : f ∈ builtins) {xs ys : List Value} {v : Value}
    (hwf : ∀ w ∈ xs ++ v :: ys, w.WellFormed) (hE : f.ExactOn (xs ++ v :: ys))
    (hok : (f.reverse (f.folded (xs ++ v :: ys)) v).failure = none) :
    (f.reverse (f.folded (xs ++ v :: ys)) v).state = f.folded (xs ++ ys) := by
  simp only [builtins, List.mem_cons, List.not_mem_nil, or_false] at hf
  rcases hf with rfl | rfl | rfl | rfl | rfl | rfl | rfl
  · have hlen : Int64.ofNat (xs ++ v :: ys).length - 1 = Int64.ofNat (xs ++ ys).length := by
      rw [List.length_append, List.length_cons, ← Nat.add_assoc, ← List.length_append,
        Int64.ofNat_add]
      exact Int64.add_sub_cancel _ _
    rw [folded_count, folded_count]
    exact congrArg State.tally hlen
  · rw [folded_sum, folded_sum]
    refine state_onNumber (P := fun s => s = _) (fun x hx => ?_) fun hn => ?_
    · have hsub := hE.cancels (.inl rfl) (numbers xs) x (numbers ys)
        (by rw [numbers_append, numbers_cons_of_some hx])
      rw [numbers_append xs ys]
      exact congrArg State.total hsub
    · rw [numbers_append, numbers_cons_of_none hn, numbers_append]
  · rw [folded_average, folded_average]
    refine state_onNumber (P := fun s => s = _) (fun x hx => ?_) fun hn => ?_
    · have hsub := hE.cancels (.inr rfl) (numbers xs) x (numbers ys)
        (by rw [numbers_append, numbers_cons_of_some hx])
      have hlen : (numbers (xs ++ v :: ys)).length - 1 = (numbers xs ++ numbers ys).length := by
        rw [numbers_append, numbers_cons_of_some hx, List.length_append, List.length_cons,
          List.length_append]
        rfl
      rw [numbers_append xs ys, ← hlen, ← hsub]
      rfl
    · rw [numbers_append, numbers_cons_of_none hn, numbers_append]
  · exact absurd hok (Option.some_ne_none _)
  · exact absurd hok (Option.some_ne_none _)
  · obtain ⟨hxs, hys⟩ := eq_false_of_pairwise hwf (hE.distinct (.inl rfl))
    rw [folded_collectList] at hok ⊢
    rw [folded_collectList]
    simp only [collectList] at hok ⊢
    split at hok
    · next hany =>
      rw [if_pos hany, eraseP_middle hxs hys hany]
      rfl
    · exact absurd hok (Option.some_ne_none _)
  · have hd := hE.distinct (.inr rfl)
    obtain ⟨hxs, hys⟩ := eq_false_of_pairwise hwf hd
    rw [folded_collectSet_of_pairwise hd] at hok ⊢
    rw [folded_collectSet_of_pairwise
      (hd.sublist ((List.Sublist.refl xs).append (List.sublist_cons_self v ys)))]
    simp only [collectSet] at hok ⊢
    cases hr : removeOccurrence? v ((xs ++ v :: ys).map fun v => (v, 1)) with
    | none =>
      rw [hr] at hok
      exact absurd hok (Option.some_ne_none _)
    | some ds =>
      rw [removeOccurrence?_middle hxs hys hr]
      rfl

/-- **Sums and averages are exact on integers** whose absolute values add up to less than 2⁵³,
among any values that are no numbers. -/
theorem exactOn_of_integers (hf : f = sum ∨ f = average) {vs : List Value} {ns : List Int64}
    (hns : numbers vs = ns.map widen) (h : magnitude (ns.map Int64.toInt) < 2 ^ 53) :
    f.ExactOn vs where
  cancels _ := by
    have hwiden : ns.map widen = (ns.map Int64.toInt).map integer := by
      rw [List.map_map]
      refine List.map_congr_left fun n hn => widen_eq_integer (Nat.lt_of_le_of_lt ?_ h)
      exact List.single_le_sum (fun _ _ => Nat.zero_le _) _
        (List.mem_map_of_mem (List.mem_map_of_mem hn))
    rw [hns, hwiden]
    exact cancels_integers h
  distinct hf' := by
    have hname : ["sum", "average"].contains f.name = true := by rcases hf with rfl | rfl <;> rfl
    rcases hf' with rfl | rfl <;> cases hname

end AggregateFunction
end RuleAggregate
