import RuleAggregate.Aggregate.Builtin
import RuleAggregate.Proofs.Value.Equality

/-!
# How often a value occurs

Collecting functions give values back by equality, so two states can hold the same values in
another order, or with one of two equal values in place of the other.  What such states have in
common is how often every value occurs in them.

## What is here

* `Value.alike` — whether two values are the same one or equal ones.  Unlike equality this is
  reflexive: NaN is like itself.
* `occurrences` — how often a value occurs in a list, and `SameValues`, that all values do so
  equally often.
* `Counted`, `countOf` — lists of counted values, and the count of a value in one.
* `countOf_addOccurrence`, `countOf_removeOccurrence?` — counting up and down does what it says.
-/

set_option autoImplicit false

namespace RuleAggregate

/-! ## Alike values -/

namespace Value

/-- Whether two values are the same one, or equal ones. -/
def alike (v w : Value) : Bool := decide (v = w) || v.eq w

theorem alike_iff {v w : Value} : v.alike w = true ↔ v = w ∨ v.eq w = true := by
  rw [alike, Bool.or_eq_true, decide_eq_true_eq]

/-- Values that are equal to one another are like the same values. -/
theorem alike_congr {v w u : Value} (hv : v.WellFormed) (hw : w.WellFormed)
    (h : v.eq w = true) : v.alike u = w.alike u := by
  have hs : w.eq v = true := eq_symm hv hw h
  rw [Bool.eq_iff_iff, alike_iff, alike_iff]
  constructor
  · rintro (rfl | hu)
    · exact .inr hs
    · exact .inr (eq_trans hs hu)
  · rintro (rfl | hu)
    · exact .inr h
    · exact .inr (eq_trans h hu)

/-- A value that equals some value equals itself. -/
theorem eq_self_of_eq {v w : Value} (hv : v.WellFormed) (hw : w.WellFormed) (h : v.eq w = true) :
    w.eq w = true := eq_trans (eq_symm hv hw h) h

end Value

/-! ## Occurrences in a list -/

/-- How often a value occurs in a list, alike values included. -/
def occurrences (u : Value) (vs : List Value) : Nat := vs.countP fun v => v.alike u

/-- Every value occurs equally often in both lists. -/
def SameValues (vs ws : List Value) : Prop :=
  ∀ u : Value, u.WellFormed → occurrences u vs = occurrences u ws

theorem SameValues.refl (vs : List Value) : SameValues vs vs := fun _ _ => rfl

theorem occurrences_nil (u : Value) : occurrences u [] = 0 := rfl

theorem occurrences_cons (u v : Value) (vs : List Value) :
    occurrences u (v :: vs) = occurrences u vs + if v.alike u then 1 else 0 := by
  rw [occurrences, List.countP_cons, occurrences]

theorem occurrences_append (u : Value) (vs ws : List Value) :
    occurrences u (vs ++ ws) = occurrences u vs + occurrences u ws := List.countP_append

theorem occurrences_concat (u v : Value) (vs : List Value) :
    occurrences u (vs ++ [v]) = occurrences u vs + if v.alike u then 1 else 0 := by
  rw [occurrences_append, occurrences_cons, occurrences_nil, Nat.zero_add]

/-- Where a value stands in a list does not matter. -/
theorem occurrences_middle (u v : Value) (vs ws : List Value) :
    occurrences u (vs ++ v :: ws) = occurrences u (vs ++ ws) + if v.alike u then 1 else 0 := by
  rw [occurrences_append, occurrences_cons, occurrences_append, Nat.add_assoc]

/-- Removing the first value that equals `v` removes one occurrence of `v`. -/
theorem occurrences_eraseP {u v : Value} {vs : List Value} (hv : v.WellFormed)
    (hvs : ∀ w ∈ vs, w.WellFormed) (h : vs.any (·.eq v) = true) :
    occurrences u vs =
      occurrences u (vs.eraseP (·.eq v)) + if v.alike u then 1 else 0 := by
  obtain ⟨w, hw, heq⟩ := List.any_eq_true.1 h
  obtain ⟨a, xs, ys, -, ha, hsplit, herase⟩ := List.exists_of_eraseP (p := fun w => w.eq v) hw heq
  have hawf : a.WellFormed := hvs a (by rw [hsplit]; simp)
  rw [herase, hsplit, occurrences_middle, Value.alike_congr hawf hv ha]

/-! ## Counted values -/

/-- How often a value was counted. -/
def countOf (u : Value) : List (Value × Nat) → Nat
  | [] => 0
  | (v, n) :: es => countOf u es + if v.alike u then n else 0

/-- A list of counted values: no two of them are equal, none of them has the count zero, and what
does not equal itself was counted once. -/
structure Counted (es : List (Value × Nat)) : Prop where
  wellFormed : ∀ e ∈ es, e.1.WellFormed
  pos : ∀ e ∈ es, 0 < e.2
  once : ∀ e ∈ es, e.1.eq e.1 = false → e.2 = 1
  distinct : es.Pairwise fun d e => d.1.eq e.1 = false

theorem counted_nil : Counted [] := ⟨nofun, nofun, nofun, .nil⟩

theorem counted_cons_iff {v : Value} {n : Nat} {es : List (Value × Nat)} :
    Counted ((v, n) :: es) ↔
      (v.WellFormed ∧ 0 < n ∧ (v.eq v = false → n = 1) ∧ ∀ e ∈ es, v.eq e.1 = false) ∧
        Counted es := by
  constructor
  · rintro ⟨hw, hp, ho, hd⟩
    rw [List.forall_mem_cons] at hw hp ho
    rw [List.pairwise_cons] at hd
    exact ⟨⟨hw.1, hp.1, ho.1, hd.1⟩, ⟨hw.2, hp.2, ho.2, hd.2⟩⟩
  · rintro ⟨⟨hv, hn, ho, hd⟩, hes⟩
    exact ⟨List.forall_mem_cons.2 ⟨hv, hes.wellFormed⟩, List.forall_mem_cons.2 ⟨hn, hes.pos⟩,
      List.forall_mem_cons.2 ⟨ho, hes.once⟩, List.pairwise_cons.2 ⟨hd, hes.distinct⟩⟩

theorem countOf_addOccurrence {u v : Value} {es : List (Value × Nat)} (hv : v.WellFormed)
    (hes : Counted es) :
    countOf u (addOccurrence v es) = countOf u es + if v.alike u then 1 else 0 := by
  induction es with
  | nil => rfl
  | cons e es ih =>
    obtain ⟨w, n⟩ := e
    obtain ⟨⟨hw, -⟩, hes⟩ := counted_cons_iff.1 hes
    rw [addOccurrence]
    split
    · next h =>
      rw [countOf, countOf, Value.alike_congr hw hv h]
      split <;> omega
    · rw [countOf, countOf, ih hes]
      omega

/-- Counting a value adds no key but the value itself. -/
theorem mem_addOccurrence {v : Value} {es : List (Value × Nat)} {e : Value × Nat}
    (he : e ∈ addOccurrence v es) : e.1 = v ∨ ∃ d ∈ es, d.1 = e.1 := by
  induction es with
  | nil =>
    rw [addOccurrence, List.mem_singleton] at he
    exact .inl (by rw [he])
  | cons d es ih =>
    obtain ⟨w, n⟩ := d
    rw [addOccurrence] at he
    split at he
    · rcases List.mem_cons.1 he with rfl | he
      · exact .inr ⟨(w, n), by simp, rfl⟩
      · exact .inr ⟨e, List.mem_cons_of_mem _ he, rfl⟩
    · rcases List.mem_cons.1 he with rfl | he
      · exact .inr ⟨(w, n), by simp, rfl⟩
      · rcases ih he with h | ⟨d, hd, h⟩
        · exact .inl h
        · exact .inr ⟨d, List.mem_cons_of_mem _ hd, h⟩

theorem Counted.addOccurrence {v : Value} {es : List (Value × Nat)} (hv : v.WellFormed)
    (hes : Counted es) : Counted (addOccurrence v es) := by
  induction es with
  | nil =>
    rw [RuleAggregate.addOccurrence]
    exact counted_cons_iff.2 ⟨⟨hv, Nat.one_pos, fun _ => rfl, nofun⟩, counted_nil⟩
  | cons e es ih =>
    obtain ⟨w, n⟩ := e
    obtain ⟨⟨hw, hn, ho, hd⟩, hes⟩ := counted_cons_iff.1 hes
    rw [RuleAggregate.addOccurrence]
    split
    · next h =>
      have hself : w.eq w = true := Value.eq_trans h (Value.eq_symm hw hv h)
      refine counted_cons_iff.2 ⟨⟨hw, Nat.succ_pos n, fun hne => ?_, hd⟩, hes⟩
      rw [hself] at hne
      exact absurd hne.symm Bool.false_ne_true
    · next h =>
      refine counted_cons_iff.2 ⟨⟨hw, hn, ho, fun e he => ?_⟩, ih hes⟩
      rcases mem_addOccurrence he with hev | ⟨d, hd', hde⟩
      · rw [hev]
        exact Bool.eq_false_iff.2 h
      · rw [← hde]
        exact hd d hd'

theorem countOf_removeOccurrence? {u v : Value} {es ds : List (Value × Nat)} (hv : v.WellFormed)
    (hes : Counted es) (h : removeOccurrence? v es = some ds) :
    countOf u es = countOf u ds + if v.alike u then 1 else 0 := by
  induction es generalizing ds with
  | nil => simp [removeOccurrence?] at h
  | cons e es ih =>
    obtain ⟨w, n⟩ := e
    obtain ⟨⟨hw, hn, -⟩, hes⟩ := counted_cons_iff.1 hes
    rw [removeOccurrence?] at h
    split at h
    · next heq =>
      rw [Option.some_inj] at h
      rw [← h, countOf, ← Value.alike_congr hw hv heq]
      by_cases hone : n ≤ 1
      · have : n = 1 := by omega
        rw [if_pos hone, this]
      · rw [if_neg hone, countOf]
        split <;> omega
    · obtain ⟨cs, hcs, rfl⟩ := Option.map_eq_some_iff.1 h
      rw [countOf, countOf, ih hes hcs]
      omega

/-- A value can be taken back if it equals a key. -/
theorem removeOccurrence?_isSome {v : Value} {es : List (Value × Nat)} :
    (removeOccurrence? v es).isSome = (es.map Prod.fst).any (·.eq v) := by
  induction es with
  | nil => rfl
  | cons e es ih =>
    obtain ⟨w, n⟩ := e
    rw [removeOccurrence?, List.map_cons, List.any_cons]
    cases w.eq v with
    | true => rfl
    | false => simpa using ih

/-- Taking back a value adds no key. -/
theorem mem_removeOccurrence? {v : Value} {es ds : List (Value × Nat)} {d : Value × Nat}
    (h : removeOccurrence? v es = some ds) (hd : d ∈ ds) : ∃ e ∈ es, e.1 = d.1 := by
  induction es generalizing ds with
  | nil => simp [removeOccurrence?] at h
  | cons e es ih =>
    obtain ⟨w, n⟩ := e
    rw [removeOccurrence?] at h
    split at h
    · rw [Option.some_inj] at h
      rw [← h] at hd
      split at hd
      · exact ⟨d, List.mem_cons_of_mem _ hd, rfl⟩
      · rcases List.mem_cons.1 hd with rfl | hd
        · exact ⟨(w, n), by simp, rfl⟩
        · exact ⟨d, List.mem_cons_of_mem _ hd, rfl⟩
    · obtain ⟨cs, hcs, rfl⟩ := Option.map_eq_some_iff.1 h
      rcases List.mem_cons.1 hd with rfl | hd
      · exact ⟨(w, n), by simp, rfl⟩
      · obtain ⟨e, he, hed⟩ := ih hcs hd
        exact ⟨e, List.mem_cons_of_mem _ he, hed⟩

theorem Counted.removeOccurrence? {v : Value} {es ds : List (Value × Nat)} (hes : Counted es)
    (h : removeOccurrence? v es = some ds) : Counted ds := by
  induction es generalizing ds with
  | nil => simp [RuleAggregate.removeOccurrence?] at h
  | cons e es ih =>
    obtain ⟨w, n⟩ := e
    obtain ⟨⟨hw, hn, ho, hd⟩, hes⟩ := counted_cons_iff.1 hes
    rw [RuleAggregate.removeOccurrence?] at h
    split at h
    · rw [Option.some_inj] at h
      rw [← h]
      split
      · exact hes
      · refine counted_cons_iff.2 ⟨⟨hw, by omega, fun hne => ?_, hd⟩, hes⟩
        have := ho hne
        omega
    · obtain ⟨cs, hcs, rfl⟩ := Option.map_eq_some_iff.1 h
      refine counted_cons_iff.2 ⟨⟨hw, hn, ho, fun d hd' => ?_⟩, ih hes hcs⟩
      obtain ⟨e, he, hed⟩ := mem_removeOccurrence? hcs hd'
      rw [← hed]
      exact hd e he

/-! ## The keys of counted values -/

theorem countOf_eq_zero {u : Value} {es : List (Value × Nat)}
    (h : ∀ e ∈ es, e.1.alike u = false) : countOf u es = 0 := by
  induction es with
  | nil => rfl
  | cons e es ih =>
    obtain ⟨v, n⟩ := e
    rw [List.forall_mem_cons] at h
    rw [countOf, ih h.2, h.1]
    rfl

/-- A value that equals itself is a key once, if it was counted at all; any other value is a key as
often as it was counted. -/
theorem occurrences_keys {u : Value} (hu : u.WellFormed) {es : List (Value × Nat)}
    (hes : Counted es) :
    occurrences u (es.map Prod.fst) =
      if u.eq u = true then Nat.min 1 (countOf u es) else countOf u es := by
  induction es with
  | nil => simp [occurrences_nil, countOf]
  | cons e es ih =>
    obtain ⟨v, n⟩ := e
    obtain ⟨⟨hv, hn, ho, hd⟩, hes⟩ := counted_cons_iff.1 hes
    rw [List.map_cons, occurrences_cons, ih hes, countOf]
    cases hvu : v.alike u with
    | false => rfl
    | true =>
      by_cases hself : u.eq u = true
      · have heq : v.eq u = true := by
          rcases Value.alike_iff.1 hvu with rfl | h
          · exact hself
          · exact h
        have hzero : countOf u es = 0 := by
          refine countOf_eq_zero fun e he => ?_
          rw [Bool.eq_false_iff, ne_eq, Value.alike_iff]
          rintro (rfl | h)
          · rw [hd e he] at heq
            exact Bool.false_ne_true heq
          · have := Value.eq_trans heq (Value.eq_symm (hes.wellFormed e he) hu h)
            rw [hd e he] at this
            exact Bool.false_ne_true this
        rw [if_pos hself, if_pos hself, hzero]
        show 0 + 1 = Nat.min 1 (0 + n)
        rw [Nat.zero_add, Nat.zero_add]
        exact (Nat.min_eq_left hn).symm
      · have hvu' : v = u := by
          rcases Value.alike_iff.1 hvu with h | h
          · exact h
          · exact absurd (Value.eq_self_of_eq hv hu h) hself
        rw [if_neg hself, if_neg hself, ho (hvu' ▸ Bool.eq_false_iff.2 hself)]

/-- Lists that count all values equally often have the same keys. -/
theorem sameValues_keys {ds es : List (Value × Nat)} (hds : Counted ds) (hes : Counted es)
    (h : ∀ u : Value, u.WellFormed → countOf u ds = countOf u es) :
    SameValues (ds.map Prod.fst) (es.map Prod.fst) := by
  intro u hu
  rw [occurrences_keys hu hds, occurrences_keys hu hes, h u hu]

end RuleAggregate
