import RuleAggregate.Proofs.Value.Comparison
import RuleAggregate.Proofs.Value.Nearest

/-!
# The order of numbers

Numbers are compared as the numbers that they are, with one exception: an integer is equal to the
floating-point number that it is rounded to.  Two integers that are rounded to the same number are
then equal to it, but not to each other.  This is the only way in which the order of numbers fails
to be transitive.

## What is here

* `Value.exactNumber?` — the number that a value is.
* `Value.widensTo` — an integer and the floating-point number that it is rounded to.
* `Value.compare?_of_exact` — **numbers are compared exactly, but for what is rounded.**
* `Value.rank_le_of_compare?_ne_gt` — what is not greater does not stand behind.
* `Value.compare?_orders_numbers` — **how numbers are ordered, and when the order is transitive.**
-/

set_option autoImplicit false

namespace RuleAggregate
namespace Value

open ExtendedRat

/-! ## Exact values -/

/-- The number that a value is, without rounding.  NaN is none, and values of other kinds are none
either. -/
def exactNumber? : Value → Option ExtendedRat
  | int n => some (ofRat n.toInt)
  | float x => if x.isNaN then none else some (exactValue x.toModel.unpack)
  | _ => none

/-- Whether the first value is an integer that is widened to the second one. -/
def widensTo : Value → Value → Bool
  | int n, float x => widen n == x
  | _, _ => false

@[simp] theorem int_widensTo_float (n : Int64) (x : Float) :
    (int n).widensTo (float x) = (widen n == x) := rfl

@[simp] theorem float_widensTo (x : Float) (v : Value) : (float x).widensTo v = false := rfl

theorem exactNumber?_float_eq_some_iff {x : Float} {p : ExtendedRat} :
    (float x).exactNumber? = some p ↔ x.isNaN = false ∧ exactValue x.toModel.unpack = p := by
  rw [exactNumber?]
  cases x.isNaN <;> simp

/-- What is a number exactly is a number that is compared. -/
theorem number?_of_exact {v : Value} {p : ExtendedRat} (h : v.exactNumber? = some p) :
    ∃ x, v.number? = some x ∧ x.isNaN = false := by
  cases v with
  | int n => exact ⟨_, rfl, isNaN_widen n⟩
  | float x => exact ⟨x, rfl, (exactNumber?_float_eq_some_iff.1 h).1⟩
  | _ => cases h

/-- Floating-point numbers are equal if they stand at the same place. -/
theorem beq_iff_rank {x y : Float} (hx : x.isNaN = false) (hy : y.isNaN = false) :
    (x == y) = true ↔ rank x = rank y := by
  rw [float_beq_iff_compare, rank, rank]
  exact (compare_iff_unpackedRank (unpack_ne_notANumber hx) (unpack_ne_notANumber hy)).2

/-- An integer is compared exactly with a floating-point number, if it is not rounded to it. -/
theorem compare?_int_float (n : Int64) {x : Float} (hx : x.isNaN = false) :
    (int n).compare? (float x) = some (if widen n == x then .eq
      else compare (ofRat n.toInt) (exactValue x.toModel.unpack)) := by
  have hrank := beq_iff_rank (isNaN_widen n) hx
  have hcompare := compare_rank (widen n) x
  show compareFloat? (widen n) x = _
  rw [compareFloat?_of_numbers (isNaN_widen n) hx]
  split
  · next heq => rw [compare_eq_iff_eq.2 (hrank.1 heq)]
  · next hne =>
    have hvalue : exactValue (widen n).toModel.unpack ≠ exactValue x.toModel.unpack := by
      intro h
      rw [compare_eq_iff_eq.2 h, compare_eq_iff_eq, ← hrank] at hcompare
      exact hne hcompare
    rw [unpack_widen] at hcompare hvalue
    rw [hcompare, compare_nearest n.toInt (canonical_toModel x) hvalue]

/-- **Numbers are compared exactly**, but an integer is equal to what it is rounded to. -/
theorem compare?_of_exact {v w : Value} {p q : ExtendedRat} (hv : v.exactNumber? = some p)
    (hw : w.exactNumber? = some q) :
    v.compare? w = some (if v.widensTo w || w.widensTo v then .eq else compare p q) := by
  cases v <;> cases w
  case int.int m n =>
    cases hv
    cases hw
    have hcast : compare (m.toInt : ℚ) n.toInt = compare m.toInt n.toInt := by
      rw [← cmp_eq_compare, ← cmp_eq_compare, Int.cast_strictMono.cmp_map_eq]
    rw [compare_ofRat, hcast]
    rfl
  case int.float n x =>
    cases hv
    obtain ⟨hx, rfl⟩ := exactNumber?_float_eq_some_iff.1 hw
    rw [compare?_int_float n hx, int_widensTo_float, float_widensTo, Bool.or_false]
  case float.int x n =>
    cases hw
    obtain ⟨hx, rfl⟩ := exactNumber?_float_eq_some_iff.1 hv
    rw [compare?_swap (int n), compare?_int_float n hx, int_widensTo_float, float_widensTo,
      Bool.false_or, Option.map_some, apply_ite Ordering.swap, ← Std.OrientedCmp.eq_swap]
    rfl
  case float.float x y =>
    obtain ⟨hx, rfl⟩ := exactNumber?_float_eq_some_iff.1 hv
    obtain ⟨hy, rfl⟩ := exactNumber?_float_eq_some_iff.1 hw
    rw [float_widensTo, float_widensTo, ← compare_rank]
    exact compareFloat?_of_numbers hx hy
  all_goals first | cases hv; done | cases hw

/-! ## Transitivity -/

variable {u v w : Value} {x y z : Float}

/-- What is not greater does not stand behind. -/
theorem rank_le_of_compare?_ne_gt (hv : v.number? = some x) (hw : w.number? = some y)
    (hx : x.isNaN = false) (hy : y.isNaN = false) (h : v.compare? w ≠ some .gt) :
    rank x ≤ rank y := by
  refine le_of_not_gt fun hlt => h ?_
  rw [compare?_swap w v, compare?_of_rank_lt hw hv hy hx hlt]
  rfl

/-- **When not greater than not greater is greater**: between two integers stands a floating-point
number that both of them are rounded to. -/
theorem compare?_gt_iff_of_ne_gt (hu : u.number? = some x) (hv : v.number? = some y)
    (hw : w.number? = some z) (hx : x.isNaN = false) (hy : y.isNaN = false) (hz : z.isNaN = false)
    (huv : u.compare? v ≠ some .gt) (hvw : v.compare? w ≠ some .gt) :
    u.compare? w = some .gt ↔ ∃ m n, u = int m ∧ w = int n ∧ n.toInt < m.toInt ∧
      u.widensTo v = true ∧ w.widensTo v = true := by
  have hxy := rank_le_of_compare?_ne_gt hu hv hx hy huv
  have hyz := rank_le_of_compare?_ne_gt hv hw hy hz hvw
  constructor
  · intro hgt
    rcases compare?_cases hu hw with ⟨m, n, rfl, rfl⟩ | hfloat
    · cases hu
      cases hw
      have hnm : n.toInt < m.toInt := by
        rwa [compare?, Option.some_inj, compare_gt_iff_gt] at hgt
      have hzx := rank_widen_mono hnm.le
      cases v with
      | int k =>
        -- three integers are compared as they are
        simp only [compare?, ne_eq, Option.some_inj, compare_gt_iff_gt, not_lt] at huv hvw
        omega
      | float y =>
        cases hv
        exact ⟨m, n, rfl, rfl, hnm, (beq_iff_rank hx hy).2 (le_antisymm hxy (hyz.trans hzx)),
          (beq_iff_rank hz hy).2 (le_antisymm (hzx.trans hxy) hyz)⟩
      | _ => cases hv
    · obtain ⟨-, -, hlt⟩ := compareFloat?_eq_some_iff.1 (hfloat.symm.trans hgt)
      exact absurd (hxy.trans hyz) (compare_gt_iff_gt.1 hlt).not_ge
  · rintro ⟨m, n, rfl, rfl, hnm, -, -⟩
    rw [compare?, Option.some_inj, compare_gt_iff_gt]
    exact hnm

/-- **How numbers are ordered.**  Any two values compare the other way round as they should.
Numbers, that is integers and floating-point numbers without NaN, can always be compared: they are
ordered exactly as numbers, but an integer is equal to the floating-point number that it is rounded
to.  So not greater than not greater is not greater, except for an integer and a smaller one if the
number between them is what both of them are rounded to. -/
theorem compare?_orders_numbers {u v w : Value} {p q r : ExtendedRat} (hu : u.exactNumber? = some p)
    (hv : v.exactNumber? = some q) (hw : w.exactNumber? = some r) :
    (∀ a b : Value, b.compare? a = (a.compare? b).map Ordering.swap) ∧
      u.compare? v = some (if u.widensTo v || v.widensTo u then .eq else compare p q) ∧
      (u.compare? v ≠ some .gt → v.compare? w ≠ some .gt →
        (u.compare? w = some .gt ↔ ∃ m n, u = int m ∧ w = int n ∧ n.toInt < m.toInt ∧
          u.widensTo v = true ∧ w.widensTo v = true)) := by
  refine ⟨compare?_swap, compare?_of_exact hu hv, ?_⟩
  obtain ⟨x, hux, hx⟩ := number?_of_exact hu
  obtain ⟨y, hvy, hy⟩ := number?_of_exact hv
  obtain ⟨z, hwz, hz⟩ := number?_of_exact hw
  exact compare?_gt_iff_of_ne_gt hux hvy hwz hx hy hz

/-- The two largest integers are rounded to `2 ^ 63`, which is larger than both of them. -/
theorem compare?_orders_numbers_of_largest :
    let u : Value := .int 9223372036854775807
    let v : Value := .float 9223372036854775808.0
    let w : Value := .int 9223372036854775806
    u.exactNumber? = some (ofRat 9223372036854775807) ∧
      v.exactNumber? = some (ofRat 9223372036854775808) ∧
      w.exactNumber? = some (ofRat 9223372036854775806) ∧
      u.compare? v ≠ some .gt ∧ v.compare? w ≠ some .gt ∧ v.compare? u = some .eq ∧
      u.compare? w = some .gt := by
  intro u v w
  have hu : u.exactNumber? = some (ofRat 9223372036854775807) := by decide +kernel
  have hv : v.exactNumber? = some (ofRat 9223372036854775808) := by decide +kernel
  have hw : w.exactNumber? = some (ofRat 9223372036854775806) := by decide +kernel
  have huv : u.widensTo v = true := by decide +kernel
  have hwv : w.widensTo v = true := by decide +kernel
  obtain ⟨hswap, hcompare, htrans⟩ := compare?_orders_numbers hu hv hw
  have hcompare' : v.compare? w = some .eq := by
    obtain ⟨-, h, -⟩ := compare?_orders_numbers hv hw hu
    rw [h, hwv, Bool.or_true, if_pos rfl]
  rw [huv, Bool.true_or, if_pos rfl] at hcompare
  have hne : u.compare? v ≠ some .gt := by
    rw [hcompare]
    exact nofun
  have hne' : v.compare? w ≠ some .gt := by
    rw [hcompare']
    exact nofun
  refine ⟨hu, hv, hw, hne, hne', ?_, (htrans hne hne').2 ⟨_, _, rfl, rfl, by decide, huv, hwv⟩⟩
  rw [hswap u v, hcompare]
  rfl

/-- **Not all numbers are compared exactly, and being equal is not transitive.**  An integer is
equal to a smaller floating-point number, and this number to a smaller integer. -/
theorem compare?_equates_unequal :
    let u : Value := .int 9007199254740993
    let v : Value := .float 9007199254740992.0
    let w : Value := .int 9007199254740992
    u.exactNumber? = some (ofRat 9007199254740993) ∧
      v.exactNumber? = some (ofRat 9007199254740992) ∧
      w.exactNumber? = some (ofRat 9007199254740992) ∧
      u.compare? v = some .eq ∧ v.compare? w = some .eq ∧ u.compare? w = some .gt := by
  refine ⟨?_, ?_, ?_, ?_, ?_, ?_⟩ <;> decide +kernel

end Value
end RuleAggregate
