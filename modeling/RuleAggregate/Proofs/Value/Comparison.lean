import RuleAggregate.Proofs.Value.Rounding

/-!
# How values compare

Comparing two values the other way round gives the mirrored answer.  Two integers are compared as
they are and any other two numbers as floating-point numbers, so that what is equal to one number
need not be equal to the next.  What is less does stay less, for widening an integer never puts it
on the other side of a number.

## What is here

* `compare?_swap` — comparing the other way round.
* `rank_le_of_compare?`, `compare?_of_rank_lt` — what comparisons have to do with ranks.
* `compare?_trans` — **less than less is less**, in any mixture of numbers, and greater likewise.
* `exists_compare?` — numbers without NaN can be compared.
-/

set_option autoImplicit false

namespace RuleAggregate
namespace Value

/-! ## Mirrored comparisons -/

theorem compareFloat?_swap (x y : Float) :
    compareFloat? y x = (compareFloat? x y).map Ordering.swap := by
  rcases hx : x.isNaN with _ | _
  · rcases hy : y.isNaN with _ | _
    · have hswap : compare (rank y) (rank x) = (compare (rank x) (rank y)).swap :=
        Std.OrientedCmp.eq_swap
      rw [compareFloat?_of_numbers hx hy, compareFloat?_of_numbers hy hx, hswap]
      rfl
    · rw [compareFloat?_of_isNaN (.inr hy), compareFloat?_of_isNaN (.inl hy)]
      rfl
  · rw [compareFloat?_of_isNaN (.inl hx), compareFloat?_of_isNaN (.inr hx)]
    rfl

/-- **Values compare the other way round as they should.** -/
theorem compare?_swap (v w : Value) : w.compare? v = (v.compare? w).map Ordering.swap := by
  have hord : ∀ {α : Type} [Ord α] [Std.OrientedOrd α] (a b : α),
      some (compare b a) = (some (compare a b)).map Ordering.swap := fun a b =>
    congrArg some Std.OrientedCmp.eq_swap
  cases v <;> cases w
  case int.int a b => exact hord a.toInt b.toInt
  case text.text s t => exact hord s t
  case bool.bool a b => exact hord a b
  case int.float n x => exact compareFloat?_swap (widen n) x
  case float.int x n => exact compareFloat?_swap x (widen n)
  case float.float x y => exact compareFloat?_swap x y
  all_goals rfl

/-! ## Numbers -/

theorem isNaN_of_number? {v : Value} {x : Float} (hnan : v.NanFree) (hv : v.number? = some x) :
    x.isNaN = false := by
  cases v with
  | int n =>
    cases hv
    exact isNaN_widen n
  | float y =>
    cases hv
    exact hnan
  | _ => cases hv

/-- Two numbers are integers, or they are compared as floating-point numbers. -/
theorem compare?_cases {v w : Value} {x y : Float} (hv : v.number? = some x)
    (hw : w.number? = some y) :
    (∃ m n, v = int m ∧ w = int n) ∨ v.compare? w = compareFloat? x y := by
  cases v <;> cases w <;> cases hv <;> cases hw
  case int.int m n => exact .inl ⟨m, n, rfl, rfl⟩
  all_goals exact .inr rfl

/-- What compares is no NaN, and as floating-point numbers it is in no other order. -/
theorem compareFloat?_eq_some_iff {x y : Float} {o : Ordering} :
    compareFloat? x y = some o ↔
      x.isNaN = false ∧ y.isNaN = false ∧ compare (rank x) (rank y) = o := by
  rcases hx : x.isNaN with _ | _
  · rcases hy : y.isNaN with _ | _
    · simp [compareFloat?_of_numbers hx hy]
    · simp [compareFloat?_of_isNaN (.inr hy)]
  · simp [compareFloat?_of_isNaN (.inl hx)]

variable {u v w : Value} {x y z : Float}

theorem compare?_int_lt_iff {m n : Int64} :
    (int m).compare? (int n) = some .lt ↔ m.toInt < n.toInt := by
  rw [compare?, Option.some_inj, compare_lt_iff_lt]

/-- A number that is less than another one does not stand behind it. -/
theorem rank_le_of_compare? (hv : v.number? = some x) (hw : w.number? = some y)
    (h : v.compare? w = some .lt) : x.isNaN = false ∧ y.isNaN = false ∧ rank x ≤ rank y := by
  rcases compare?_cases hv hw with ⟨m, n, rfl, rfl⟩ | hfloat
  · cases hv
    cases hw
    exact ⟨isNaN_widen m, isNaN_widen n, rank_widen_mono (compare?_int_lt_iff.1 h).le⟩
  · obtain ⟨hx, hy, hlt⟩ := compareFloat?_eq_some_iff.1 (hfloat.symm.trans h)
    exact ⟨hx, hy, (compare_lt_iff_lt.1 hlt).le⟩

/-- A number that stands before another one is less, if they are not both integers that were rounded
to the same number. -/
theorem compare?_of_rank_lt (hv : v.number? = some x) (hw : w.number? = some y)
    (hx : x.isNaN = false) (hy : y.isNaN = false) (h : rank x < rank y) :
    v.compare? w = some .lt := by
  rcases compare?_cases hv hw with ⟨m, n, rfl, rfl⟩ | hfloat
  · cases hv
    cases hw
    exact compare?_int_lt_iff.2 (Int.not_le.1 fun hle => (rank_widen_mono hle).not_gt h)
  · rw [hfloat, compareFloat?_eq_some_iff]
    exact ⟨hx, hy, compare_lt_iff_lt.2 h⟩

/-- **Less than less is less**, whether the numbers are integers or floating-point numbers. -/
theorem compare?_lt_trans (hu : u.number? = some x) (hv : v.number? = some y)
    (hw : w.number? = some z) (huv : u.compare? v = some .lt) (hvw : v.compare? w = some .lt) :
    u.compare? w = some .lt := by
  obtain ⟨hx, -, hle⟩ := rank_le_of_compare? hu hv huv
  obtain ⟨-, hz, hle'⟩ := rank_le_of_compare? hv hw hvw
  -- unless all three are integers, one of the two comparisons was made on ranks and is strict
  rcases compare?_cases hu hv with ⟨a, b, rfl, rfl⟩ | hfloat
  · rcases compare?_cases hv hw with ⟨b', c, hb, rfl⟩ | hfloat
    · cases hb
      exact compare?_int_lt_iff.2
        ((compare?_int_lt_iff.1 huv).trans (compare?_int_lt_iff.1 hvw))
    · obtain ⟨-, -, hlt⟩ := compareFloat?_eq_some_iff.1 (hfloat.symm.trans hvw)
      exact compare?_of_rank_lt hu hw hx hz (hle.trans_lt (compare_lt_iff_lt.1 hlt))
  · obtain ⟨-, -, hlt⟩ := compareFloat?_eq_some_iff.1 (hfloat.symm.trans huv)
    exact compare?_of_rank_lt hu hw hx hz ((compare_lt_iff_lt.1 hlt).trans_le hle')

/-- Greater than greater is greater, too.  The like does not hold of being equal: integers that are
rounded to the same number are equal to it, but not to each other. -/
theorem compare?_trans {o : Ordering} (ho : o ≠ .eq) (hu : u.number? = some x)
    (hv : v.number? = some y) (hw : w.number? = some z) (huv : u.compare? v = some o)
    (hvw : v.compare? w = some o) : u.compare? w = some o := by
  cases o with
  | eq => exact absurd rfl ho
  | lt => exact compare?_lt_trans hu hv hw huv hvw
  | gt =>
    have hvu : v.compare? u = some .lt := by rw [compare?_swap u, huv]; rfl
    have hwv : w.compare? v = some .lt := by rw [compare?_swap v, hvw]; rfl
    rw [compare?_swap w, compare?_lt_trans hw hv hu hwv hvu]
    rfl

/-- No value is less or greater than itself. -/
theorem compare?_self_ne (v : Value) {o : Ordering} (ho : o ≠ .eq) : v.compare? v ≠ some o := by
  intro h
  have hswap := compare?_swap v v
  rw [h] at hswap
  cases o with
  | eq => exact ho rfl
  | _ => cases hswap

/-- **Numbers without NaN can be compared.** -/
theorem exists_compare? (hv : v.number? = some x) (hw : w.number? = some y) (hvnan : v.NanFree)
    (hwnan : w.NanFree) : ∃ o, v.compare? w = some o := by
  rcases compare?_cases hv hw with ⟨m, n, rfl, rfl⟩ | hfloat
  · exact ⟨_, rfl⟩
  · exact ⟨_, hfloat.trans (compareFloat?_of_numbers (isNaN_of_number? hvnan hv)
      (isNaN_of_number? hwnan hw))⟩

end Value
end RuleAggregate
