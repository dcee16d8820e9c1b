import Mathlib
import RuleAggregate.Tuple

/-!
# The laws of equality

Equality of values is not the identity: the two zeros are equal, facts are equal in whatever order
their fields were set, and NaN equals nothing.  What is left is symmetry and transitivity, which
hold for all values that can be built, that is for all well-formed ones.

## What is here

* `Value.same` — the identity of values, as a test; it makes `DecidableEq Value`.
* `Value.eq_symm`, `Value.eq_trans` — **equality is symmetric and transitive.**
-/

set_option autoImplicit false

namespace RuleAggregate

/-! ## Identity -/

namespace Value

mutual

/-- Whether two values are the same one, in the same representation. -/
def same : Value → Value → Bool
  | null, null => true
  | bool a, bool b => decide (a = b)
  | int a, int b => decide (a = b)
  | float x, float y => decide (x = y)
  | text s, text t => decide (s = t)
  | list vs, list ws => sameItems vs ws
  | fact s fs, fact t gs => decide (s = t) && sameFields fs gs
  | _, _ => false

/-- Whether two lists hold the same values at the same places. -/
def sameItems : List Value → List Value → Bool
  | [], [] => true
  | v :: vs, w :: ws => same v w && sameItems vs ws
  | _, _ => false

/-- Whether two lists hold the same fields at the same places. -/
def sameFields : List (String × Value) → List (String × Value) → Bool
  | [], [] => true
  | (k, v) :: fs, (l, w) :: gs => decide (k = l) && same v w && sameFields fs gs
  | _, _ => false

end

mutual

theorem same_iff : ∀ v w : Value, same v w = true ↔ v = w
  | null, w => by cases w <;> simp [same]
  | bool _, w => by cases w <;> simp [same]
  | int _, w => by cases w <;> simp [same]
  | float _, w => by cases w <;> simp [same]
  | text _, w => by cases w <;> simp [same]
  | list vs, w => by cases w <;> simp [same, sameItems_iff vs]
  | fact _ fs, w => by cases w <;> simp [same, sameFields_iff fs]

theorem sameItems_iff : ∀ vs ws : List Value, sameItems vs ws = true ↔ vs = ws
  | [], ws => by cases ws <;> simp [sameItems]
  | v :: vs, ws => by cases ws <;> simp [sameItems, same_iff v, sameItems_iff vs]

theorem sameFields_iff : ∀ fs gs : List (String × Value), sameFields fs gs = true ↔ fs = gs
  | [], gs => by cases gs <;> simp [sameFields]
  | (k, v) :: fs, gs => by
    cases gs with
    | nil => simp [sameFields]
    | cons g gs =>
      simp only [sameFields, Bool.and_eq_true, decide_eq_true_eq, same_iff v, sameFields_iff fs,
        List.cons.injEq, Prod.ext_iff]

end

instance decidableEqValue : DecidableEq Value := fun v w => decidable_of_iff _ (same_iff v w)

end Value

instance decidableEqTuple : DecidableEq Tuple := fun s t =>
  decidable_of_iff (s.objects = t.objects) (by cases s; cases t; simp)

namespace Value

/-! ## Equality of values -/

theorem wellFormedItems_iff {vs : List Value} :
    WellFormedItems vs ↔ ∀ v ∈ vs, v.WellFormed := by
  induction vs with
  | nil => simp [WellFormedItems]
  | cons v vs ih => simp [WellFormedItems, ih]

theorem wellFormedFields_iff {fs : List (String × Value)} :
    WellFormedFields fs ↔ ∀ p ∈ fs, p.2.WellFormed := by
  induction fs with
  | nil => simp [WellFormedFields]
  | cons p fs ih => simp [WellFormedFields, ih]

theorem eqFields_iff {fs gs : List (String × Value)} :
    eqFields fs gs = true ↔ ∀ p ∈ fs, ∃ w, Assoc.get? p.1 gs = some w ∧ p.2.eq w = true := by
  induction fs with
  | nil => simp [eqFields]
  | cons p fs ih =>
    obtain ⟨k, v⟩ := p
    rw [eqFields, Bool.and_eq_true, ih, List.forall_mem_cons]
    refine and_congr_left fun _ => ?_
    cases Assoc.get? k gs <;> simp

/-- Names that carry equal values are there. -/
theorem keys_subset_of_eqFields {fs gs : List (String × Value)} (h : eqFields fs gs = true) :
    Assoc.keys fs ⊆ Assoc.keys gs := by
  intro k hk
  obtain ⟨p, hp, rfl⟩ := List.mem_map.1 hk
  obtain ⟨w, hw, -⟩ := eqFields_iff.1 h p hp
  exact List.mem_map.2 ⟨_, Assoc.mem_of_get?_eq_some hw, rfl⟩

/-- If every name of one list of fields is in another one that is no longer, then every name of
the other one is in the first. -/
theorem keys_subset_of_length {fs gs : List (String × Value)} (hf : (Assoc.keys fs).Nodup)
    (hl : fs.length = gs.length) (hs : Assoc.keys fs ⊆ Assoc.keys gs) :
    Assoc.keys gs ⊆ Assoc.keys fs := by
  have hlength : (Assoc.keys gs).length = (Assoc.keys fs).length := by
    rw [Assoc.keys, Assoc.keys, List.length_map, List.length_map, hl]
  have hp : (Assoc.keys fs).Perm (Assoc.keys gs) :=
    (List.subperm_of_subset hf hs).perm_of_length_le (Nat.le_of_eq hlength)
  exact hp.symm.subset

mutual

/-- **Equality is symmetric.** -/
theorem eq_symm : ∀ {v w : Value}, v.WellFormed → w.WellFormed → v.eq w = true → w.eq v = true
  | null, w, _, _, h => by cases w <;> simp_all [eq]
  | bool _, w, _, _, h => by cases w <;> simp_all [eq]
  | int _, w, _, _, h => by cases w <;> simp_all [eq]
  | text _, w, _, _, h => by cases w <;> simp_all [eq]
  | float x, w, _, _, h => by
    cases w with
    | float y => exact BEq.symm h
    | _ => simp [eq] at h
  | list vs, w, hv, hw, h => by
    cases w with
    | list ws => exact eqItems_symm hv hw h
    | _ => simp [eq] at h
  | fact s fs, w, hv, hw, h => by
    cases w with
    | fact t gs =>
      simp only [eq, Bool.and_eq_true, beq_iff_eq] at h ⊢
      obtain ⟨⟨rfl, hl⟩, h⟩ := h
      refine ⟨⟨rfl, hl.symm⟩, eqFields_iff.2 fun q hq => ?_⟩
      have hsub := keys_subset_of_eqFields h
      rw [eqFields_iff] at h
      obtain ⟨p, hp, hpq⟩ := List.mem_map.1
        (keys_subset_of_length hv.1 hl hsub (List.mem_map.2 ⟨q, hq, rfl⟩))
      obtain ⟨w, hget, heq⟩ := h p hp
      have hqw : Assoc.get? p.1 gs = some q.2 := by
        rw [hpq]
        exact Assoc.get?_eq_some_of_mem hw.1 hq
      rw [hqw, Option.some_inj] at hget
      refine ⟨p.2, ?_, ?_⟩
      · rw [← hpq]
        exact Assoc.get?_eq_some_of_mem hv.1 hp
      · rw [hget]
        exact eqFields_symm hv.2 p hp (hget ▸ wellFormedFields_iff.1 hw.2 q hq) heq
    | _ => simp [eq] at h

theorem eqItems_symm : ∀ {vs ws : List Value}, WellFormedItems vs → WellFormedItems ws →
    eqItems vs ws = true → eqItems ws vs = true
  | [], [], _, _, _ => rfl
  | [], _ :: _, _, _, h => by simp [eqItems] at h
  | _ :: _, [], _, _, h => by simp [eqItems] at h
  | v :: vs, w :: ws, hv, hw, h => by
    rw [eqItems, Bool.and_eq_true] at h ⊢
    exact ⟨eq_symm hv.1 hw.1 h.1, eqItems_symm hv.2 hw.2 h.2⟩

theorem eqFields_symm : ∀ {fs : List (String × Value)}, WellFormedFields fs →
    ∀ p ∈ fs, ∀ {w : Value}, w.WellFormed → p.2.eq w = true → w.eq p.2 = true
  | (k, v) :: fs, hf, p, hp, w, hw, h => by
    rcases List.mem_cons.1 hp with rfl | hp
    · exact eq_symm hf.1 hw h
    · exact eqFields_symm hf.2 p hp hw h

end

mutual

/-- **Equality is transitive.** -/
theorem eq_trans : ∀ {u v w : Value}, u.eq v = true → v.eq w = true → u.eq w = true
  | null, v, w, h, h' => by cases v <;> cases w <;> simp_all [eq]
  | bool _, v, w, h, h' => by cases v <;> cases w <;> simp_all [eq]
  | int _, v, w, h, h' => by cases v <;> cases w <;> simp_all [eq]
  | text _, v, w, h, h' => by cases v <;> cases w <;> simp_all [eq]
  | float x, v, w, h, h' => by
    cases v with
    | float y =>
      cases w with
      | float z => exact BEq.trans h h'
      | _ => simp [eq] at h'
    | _ => simp [eq] at h
  | list us, v, w, h, h' => by
    cases v with
    | list vs =>
      cases w with
      | list ws => exact eqItems_trans h h'
      | _ => simp [eq] at h'
    | _ => simp [eq] at h
  | fact s fs, v, w, h, h' => by
    cases v with
    | fact t gs =>
      cases w with
      | fact r hs =>
        simp only [eq, Bool.and_eq_true, beq_iff_eq] at h h' ⊢
        obtain ⟨⟨rfl, hl⟩, h⟩ := h
        obtain ⟨⟨rfl, hl'⟩, h'⟩ := h'
        refine ⟨⟨rfl, hl.trans hl'⟩, eqFields_iff.2 fun p hp => ?_⟩
        obtain ⟨b, hb, hpb⟩ := eqFields_iff.1 h p hp
        obtain ⟨c, hc, hbc⟩ := eqFields_iff.1 h' _ (Assoc.mem_of_get?_eq_some hb)
        exact ⟨c, hc, eqFields_trans p hp hpb hbc⟩
      | _ => simp [eq] at h'
    | _ => simp [eq] at h

theorem eqItems_trans : ∀ {us vs ws : List Value}, eqItems us vs = true →
    eqItems vs ws = true → eqItems us ws = true
  | [], [], _, _, h' => h'
  | [], _ :: _, _, h, _ => by simp [eqItems] at h
  | _ :: _, [], _, h, _ => by simp [eqItems] at h
  | _ :: _, _ :: _, [], _, h' => by simp [eqItems] at h'
  | u :: us, v :: vs, w :: ws, h, h' => by
    rw [eqItems, Bool.and_eq_true] at h h' ⊢
    exact ⟨eq_trans h.1 h'.1, eqItems_trans h.2 h'.2⟩

theorem eqFields_trans : ∀ {fs : List (String × Value)}, ∀ p ∈ fs, ∀ {v w : Value},
    p.2.eq v = true → v.eq w = true → p.2.eq w = true
  | (k, u) :: fs, p, hp, v, w, h, h' => by
    rcases List.mem_cons.1 hp with rfl | hp
    · exact eq_trans h h'
    · exact eqFields_trans p hp h h'

end

end Value
end RuleAggregate
