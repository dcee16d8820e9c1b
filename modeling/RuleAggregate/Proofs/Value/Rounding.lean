import RuleAggregate.Proofs.Value.Integers
import RuleAggregate.Value.Order

/-!
# Widening keeps the order of integers

Floating-point numbers stand in a line, from negative to positive infinity.  Widening an integer may
round digits off, so that integers next to each other can become the same number, but a larger one
never becomes a smaller number.

## What is here

* `rank` — where a floating-point number stands in the line.
* `compareFloat?_of_numbers` — **numbers are compared by their ranks**; NaN is compared with nothing.
* `weight` — what a mantissa counts for with the digits that were shifted out of it.
* `roundedDigits_mono` — rounding keeps the order of mantissas of the same length.
* `rank_widen_mono` — **widening keeps the order of integers.**
-/

set_option autoImplicit false

namespace RuleAggregate

open Float.Model Float.Model.UnpackedFloat

/-! ## The line of numbers -/

/-- Where an unpacked number stands: numbers are told apart by their signs and whether they are
finite, then by their exponents, then by their mantissas.  The two zeros stand at the same place. -/
def unpackedRank : UnpackedFloat → Int ×ₗ Int ×ₗ Int
  | .infinity .negative => toLex (-2, toLex (0, 0))
  | .finite .negative m e _ => toLex (-1, toLex (-e, -(m : Int)))
  | .zero _ | .notANumber => toLex (0, toLex (0, 0))
  | .finite .positive m e _ => toLex (1, toLex (e, (m : Int)))
  | .infinity .positive => toLex (2, toLex (0, 0))

theorem compare_iff_unpackedRank {a b : UnpackedFloat} (ha : a ≠ .notANumber)
    (hb : b ≠ .notANumber) :
    (a.compare b = some .lt ↔ unpackedRank a < unpackedRank b) ∧
      (a.compare b = some .eq ↔ unpackedRank a = unpackedRank b) := by
  rcases a with (_ | _) | _ | _ | ⟨(_ | _), m, e, hm⟩ <;>
  rcases b with (_ | _) | _ | _ | ⟨(_ | _), m', e', hm'⟩ <;>
  simp_all [UnpackedFloat.compare, unpackedRank, Prod.Lex.toLex_lt_toLex, Ordering.then_eq_lt,
    Ordering.then_eq_gt, Ordering.then_eq_eq, compare_lt_iff_lt, compare_gt_iff_gt]
  -- what is left are signs of infinities
  all_goals decide

/-- Where a floating-point number stands among the others. -/
def rank (x : Float) : Int ×ₗ Int ×ₗ Int := unpackedRank x.toModel.unpack

theorem float_lt_iff_compare {x y : Float} :
    x < y ↔ x.toModel.unpack.compare y.toModel.unpack = some .lt :=
  Iff.trans (decide_eq_true_iff (p := x.toModel.unpack.lt y.toModel.unpack = true)) beq_iff_eq

theorem float_beq_iff_compare {x y : Float} :
    (x == y) = true ↔ x.toModel.unpack.compare y.toModel.unpack = some .eq := by
  show x.toModel.unpack.beq y.toModel.unpack = true ↔ _
  rw [UnpackedFloat.beq, beq_iff_eq]

theorem isNaN_iff_unpack {x : Float} : x.isNaN = true ↔ x.toModel.unpack = .notANumber := by
  show x.toModel.unpack.isNaN = true ↔ _
  cases x.toModel.unpack <;> simp [UnpackedFloat.isNaN]

theorem unpack_ne_notANumber {x : Float} (hx : x.isNaN = false) :
    x.toModel.unpack ≠ .notANumber := fun h =>
  Bool.false_ne_true (hx.symm.trans (isNaN_iff_unpack.2 h))

theorem compare_eq_none {a b : UnpackedFloat} (h : a = .notANumber ∨ b = .notANumber) :
    a.compare b = none := by
  rcases h with rfl | rfl
  · rfl
  · cases a <;> rfl

namespace Value

variable {x y : Float}

/-- **Numbers are compared by where they stand.** -/
theorem compareFloat?_of_numbers (hx : x.isNaN = false) (hy : y.isNaN = false) :
    compareFloat? x y = some (compare (rank x) (rank y)) := by
  have hxy := compare_iff_unpackedRank (unpack_ne_notANumber hx) (unpack_ne_notANumber hy)
  have hyx := compare_iff_unpackedRank (unpack_ne_notANumber hy) (unpack_ne_notANumber hx)
  simp only [compareFloat?, float_lt_iff_compare, float_beq_iff_compare, hxy, hyx, rank]
  generalize unpackedRank x.toModel.unpack = a, unpackedRank y.toModel.unpack = b
  rcases lt_trichotomy a b with h | h | h
  · rw [if_pos h, compare_lt_iff_lt.2 h]
  · rw [if_neg h.not_lt, if_pos h, compare_eq_iff_eq.2 h]
  · rw [if_neg h.not_gt, if_neg h.ne', if_pos h, compare_gt_iff_gt.2 h]

/-- NaN is compared with nothing. -/
theorem compareFloat?_of_isNaN (h : x.isNaN = true ∨ y.isNaN = true) :
    compareFloat? x y = none := by
  rw [isNaN_iff_unpack, isNaN_iff_unpack] at h
  simp [compareFloat?, float_lt_iff_compare, float_beq_iff_compare, compare_eq_none h,
    compare_eq_none h.symm]

end Value

/-! ## Rounding -/

/-- What an extended mantissa counts for, in quarters: the round bit for a half, the sticky bit for
something less. -/
def weight (em : ExtendedMantissa) : Nat :=
  4 * em.mantissa + 2 * em.roundBit.toNat + em.stickyBit.toNat

/-- The round bit and the sticky bit count for less than one. -/
theorem weight_div_four (em : ExtendedMantissa) : weight em / 4 = em.mantissa := by
  have hr := em.roundBit.toNat_le
  have hs := em.stickyBit.toNat_le
  simp only [weight]
  omega

theorem weight_shiftRightOne (em : ExtendedMantissa) :
    weight em.shiftRightOne = 2 * (weight em / 4) + min 1 (weight em % 4) := by
  obtain ⟨m, r, s⟩ := em
  have hbit : (m % 2 != 0).toNat = m % 2 := by
    rcases Nat.mod_two_eq_zero_or_one m with h | h <;> rw [h] <;> rfl
  simp only [weight, ExtendedMantissa.shiftRightOne, hbit]
  cases r <;> cases s <;>
    simp only [Bool.or_false, Bool.or_true, Bool.toNat_false, Bool.toNat_true] <;> omega

theorem roundedMantissa_eq (em : ExtendedMantissa) :
    em.roundedMantissa = weight em / 4 +
      if weight em % 4 = 3 then 1 else if weight em % 4 = 2 then weight em / 4 % 2 else 0 := by
  obtain ⟨m, r, s⟩ := em
  have hr := r.toNat_le
  have hs := s.toNat_le
  have hmod : weight ⟨m, r, s⟩ % 4 = 2 * r.toNat + s.toNat := by
    simp only [weight]
    omega
  rw [weight_div_four, hmod]
  cases r <;> cases s <;> rfl

theorem roundedMantissa_mono {em em' : ExtendedMantissa} (h : weight em ≤ weight em') :
    em.roundedMantissa ≤ em'.roundedMantissa := by
  rw [roundedMantissa_eq, roundedMantissa_eq]
  split_ifs <;> omega

theorem weight_shiftRight_mono {em em' : ExtendedMantissa} (h : weight em ≤ weight em') (j : Nat) :
    weight (em >>> j) ≤ weight (em' >>> j) := by
  induction j with
  | zero => exact h
  | succ j ih =>
    show weight (em >>> j).shiftRightOne ≤ weight (em' >>> j).shiftRightOne
    rw [weight_shiftRightOne, weight_shiftRightOne]
    omega

theorem mantissa_shiftRight (em : ExtendedMantissa) (j : Nat) :
    (em >>> j).mantissa = em.mantissa / 2 ^ j := by
  induction j with
  | zero => exact (Nat.div_one _).symm
  | succ j ih =>
    show (em >>> j).mantissa / 2 = _
    rw [ih, Nat.div_div_eq_div_mul, Nat.pow_succ]

/-- The mantissa of an integer before it is rounded: its digits, shifted to the left until there are
53 of them, or those after the 53rd shifted out. -/
def extendedDigits (n : Nat) : ExtendedMantissa :=
  (⟨n * 2 ^ (52 - n.log2), false, false⟩ : ExtendedMantissa) >>> (n.log2 - 52)

/-- The integer rounded to 53 digits; there may be one more if the last one is carried over. -/
def roundedDigits (n : Nat) : Nat := (extendedDigits n).roundedMantissa

theorem roundedDigits_mono {m n : Nat} (h : m ≤ n) (hlog : m.log2 = n.log2) :
    roundedDigits m ≤ roundedDigits n := by
  rw [roundedDigits, roundedDigits, extendedDigits, extendedDigits, hlog]
  refine roundedMantissa_mono (weight_shiftRight_mono ?_ _)
  simp only [weight]
  have := Nat.mul_le_mul_right (2 ^ (52 - n.log2)) h
  omega

theorem extendedDigits_bounds {n : Nat} (hn : n ≠ 0) :
    2 ^ 52 ≤ (extendedDigits n).mantissa ∧ (extendedDigits n).mantissa < 2 ^ 53 := by
  obtain ⟨hle, hlt⟩ := (Nat.log2_eq_iff hn).1 rfl
  rw [extendedDigits, mantissa_shiftRight]
  show 2 ^ 52 ≤ n * 2 ^ (52 - n.log2) / 2 ^ (n.log2 - 52) ∧ _
  rw [Nat.le_div_iff_mul_le (Nat.two_pow_pos _), Nat.div_lt_iff_lt_mul (Nat.two_pow_pos _),
    ← Nat.pow_add, ← Nat.pow_add]
  have hlo : 52 + (n.log2 - 52) = n.log2 + (52 - n.log2) := by omega
  have hhi : 53 + (n.log2 - 52) = n.log2 + 1 + (52 - n.log2) := by omega
  rw [hlo, hhi, Nat.pow_add, Nat.pow_add]
  exact ⟨Nat.mul_le_mul_right _ hle, Nat.mul_lt_mul_of_pos_right hlt (Nat.two_pow_pos _)⟩

theorem roundedDigits_bounds {n : Nat} (hn : n ≠ 0) :
    2 ^ 52 ≤ roundedDigits n ∧ roundedDigits n ≤ 2 ^ 53 := by
  have hbounds := extendedDigits_bounds hn
  rw [roundedDigits, roundedMantissa_eq, weight_div_four]
  split_ifs <;> omega

/-- The mantissa of the number that an integer is rounded to. -/
def nearestMantissa (n : Nat) : Nat :=
  if roundedDigits n = 2 ^ 53 then 2 ^ 52 else roundedDigits n

/-- The exponent of the number that an integer is rounded to. -/
def nearestExponent (n : Nat) : Int :=
  if roundedDigits n = 2 ^ 53 then n.log2 - 51 else n.log2 - 52

theorem log2_nearestMantissa {n : Nat} (hn : n ≠ 0) : (nearestMantissa n).log2 = 52 := by
  have hbounds := roundedDigits_bounds hn
  have hne : nearestMantissa n ≠ 0 := by
    rw [nearestMantissa]
    split_ifs <;> omega
  rw [Nat.log2_eq_iff hne, nearestMantissa]
  split_ifs <;> omega

/-- **A larger integer is never rounded to a smaller number.** -/
theorem nearest_mono {m n : Nat} (hm : m ≠ 0) (h : m ≤ n) :
    nearestExponent m < nearestExponent n ∨
      nearestExponent m = nearestExponent n ∧ nearestMantissa m ≤ nearestMantissa n := by
  have hbounds := roundedDigits_bounds hm
  have hbounds' := roundedDigits_bounds (n := n) (by omega)
  rw [nearestExponent, nearestExponent, nearestMantissa, nearestMantissa]
  have hlog : m.log2 ≤ n.log2 := (Nat.le_log2 (by omega)).2 ((Nat.log2_self_le hm).trans h)
  rcases Nat.lt_or_eq_of_le hlog with hlog | hlog
  · split_ifs <;> omega
  · have hdigits := roundedDigits_mono h hlog
    split_ifs <;> omega

/-- Digits after the 53rd are shifted out. -/
theorem shiftToTargetExponent_eq (m : Nat) {e : Int} (he : -1074 ≤ e) :
    shiftToTargetExponent .binary64 m e .exact =
      ((⟨m, false, false⟩ : ExtendedMantissa) >>> (m.log2 - 52), e + (m.log2 - 52 : Nat)) := by
  have hshift : (Format.binary64.targetExponent (totalExponent m e) - e).toNat = m.log2 - 52 := by
    rw [targetExponent_eq]
    omega
  simp only [shiftToTargetExponent, shiftToExponent, hshift,
    ExtendedMantissa.ofMantissaAndAccuracy]

theorem decreaseExponent_target {n : Nat} :
    decreaseExponent n 0 (Format.binary64.targetExponent (totalExponent n 0)) =
      (n * 2 ^ (52 - n.log2), -((52 - n.log2 : Nat) : Int)) := by
  have hshift : (0 - Format.binary64.targetExponent (totalExponent n 0)).toNat = 52 - n.log2 := by
    rw [targetExponent_eq]
    omega
  rw [decreaseExponent, hshift, Nat.shiftLeft_eq, Int.zero_sub]

/-- The digit that is carried over is shifted out again. -/
theorem shiftToTargetExponent_roundedDigits {n : Nat} (hn : n ≠ 0) :
    shiftToTargetExponent .binary64 (roundedDigits n) (n.log2 - 52) .exact =
      (⟨nearestMantissa n, false, false⟩, nearestExponent n) := by
  have hbounds := roundedDigits_bounds hn
  rw [shiftToTargetExponent_eq _ (by omega), nearestMantissa, nearestExponent]
  by_cases hcarry : roundedDigits n = 2 ^ 53
  · rw [if_pos hcarry, if_pos hcarry, hcarry, Nat.log2_two_pow]
    refine Prod.ext rfl ?_
    show (n.log2 : Int) - 52 + 1 = n.log2 - 51
    omega
  · have hlog : (roundedDigits n).log2 = 52 := by
      rw [Nat.log2_eq_iff] <;> omega
    rw [if_neg hcarry, if_neg hcarry, hlog]
    refine Prod.ext rfl ?_
    show (n.log2 : Int) - 52 + 0 = n.log2 - 52
    omega

/-- **What rounding an integer gives.** -/
theorem round_eq {n : Nat} (hn : n ≠ 0) (s : Sign) (h : 0 < nearestMantissa n) :
    UnpackedFloat.round .binary64 s n 0 =
      .finite s (nearestMantissa n) (nearestExponent n) h := by
  have hshifted : shiftToTargetExponent .binary64 (n * 2 ^ (52 - n.log2))
      (-((52 - n.log2 : Nat) : Int)) .exact = (extendedDigits n, (n.log2 : Int) - 52) := by
    rw [shiftToTargetExponent_eq _ (by omega), log2_mul_two_pow hn,
      show n.log2 + (52 - n.log2) - 52 = n.log2 - 52 by omega]
    refine Prod.ext rfl ?_
    show -((52 - n.log2 : Nat) : Int) + (n.log2 - 52 : Nat) = n.log2 - 52
    omega
  have hrounded := shiftToTargetExponent_roundedDigits hn
  rw [roundedDigits] at hrounded
  rw [UnpackedFloat.round, decreaseExponent_target]
  simp only [roundWithAccuracy, hshifted, hrounded]
  rw [dif_neg h.ne']

/-! ## Widening -/

theorem nearestMantissa_pos {n : Nat} (hn : n ≠ 0) : 0 < nearestMantissa n :=
  Nat.pos_of_ne_zero fun h => by
    have := log2_nearestMantissa hn
    rw [h] at this
    exact absurd this (by decide)

/-- The number that an integer is widened to. -/
def unpackedNearest (n : Int) : UnpackedFloat :=
  if h : n = 0 then .zero .positive
  else .finite (signOf n) (nearestMantissa n.natAbs) (nearestExponent n.natAbs)
    (nearestMantissa_pos (Int.natAbs_ne_zero.2 h))

theorem unpackedNearest_zero : unpackedNearest 0 = .zero .positive := dif_pos rfl

theorem unpackedNearest_of_ne_zero {n : Int} (hn : n ≠ 0) :
    unpackedNearest n = .finite (signOf n) (nearestMantissa n.natAbs) (nearestExponent n.natAbs)
      (nearestMantissa_pos (Int.natAbs_ne_zero.2 hn)) := dif_neg hn

theorem ofInt_eq_unpackedNearest (n : Int) :
    UnpackedFloat.ofInt .binary64 n = unpackedNearest n := by
  by_cases hn : n = 0
  · rw [hn, unpackedNearest_zero]
    rfl
  · have happly := signOf_apply n 1
    rw [Nat.mul_one, Int.natCast_one, Int.mul_one] at happly
    rw [unpackedNearest_of_ne_zero hn, ← round_eq (Int.natAbs_ne_zero.2 hn),
      ← normalize_apply _ _ .positive (Int.natAbs_pos.2 hn), happly]
    rfl

theorem neg_unpackedNearest {n : Int} (hn : n ≠ 0) :
    (unpackedNearest n).neg = unpackedNearest (-n) := by
  rw [unpackedNearest_of_ne_zero hn, unpackedNearest_of_ne_zero (Int.neg_ne_zero.2 hn)]
  simp only [UnpackedFloat.neg, neg_signOf hn, Int.natAbs_neg]

/-- What an integer of 64 digits is rounded to is packed without loss. -/
theorem unpack_pack_unpackedNearest {n : Int} (h : n.natAbs < 2 ^ 64) :
    (Float.Model.pack (unpackedNearest n)).unpack = unpackedNearest n := by
  by_cases hn : n = 0
  · rw [hn, unpackedNearest_zero]
    rfl
  · have hlog := (Nat.log2_lt (Int.natAbs_ne_zero.2 hn)).2 h
    rw [unpackedNearest_of_ne_zero hn]
    refine unpack_pack_of_log2 _ (log2_nearestMantissa (Int.natAbs_ne_zero.2 hn)) ?_ ?_ <;>
      rw [nearestExponent] <;> split_ifs <;> omega

theorem natAbs_lt_two_pow (n : Int64) : n.toInt.natAbs < 2 ^ 64 := by
  have := n.le_toInt
  have := n.toInt_lt
  omega

/-- **An integer is widened to the number that it is rounded to.** -/
theorem unpack_widen (n : Int64) : (widen n).toModel.unpack = unpackedNearest n.toInt := by
  have hwide : (UInt64.ofNat n.toInt.natAbs).toFloat.toModel.unpack =
      unpackedNearest n.toInt.natAbs := by
    show (Float.Model.pack (UnpackedFloat.ofInt _ (UInt64.ofNat n.toInt.natAbs).toNat)).unpack = _
    rw [ofInt_eq_unpackedNearest, unpack_pack_unpackedNearest, UInt64.toNat_ofNat_of_lt']
    · exact natAbs_lt_two_pow n
    · exact UInt64.toNat_lt _
  rw [widen]
  split
  · next hn =>
    show (Float.Model.pack (UnpackedFloat.neg _)).unpack = _
    rw [hwide, neg_unpackedNearest (by omega), show -(n.toInt.natAbs : Int) = n.toInt by omega,
      unpack_pack_unpackedNearest (natAbs_lt_two_pow n)]
  · next hn => rw [hwide, show (n.toInt.natAbs : Int) = n.toInt by omega]

theorem isNaN_widen (n : Int64) : (widen n).isNaN = false := by
  rw [Bool.eq_false_iff, ne_eq, isNaN_iff_unpack, unpack_widen, unpackedNearest]
  split <;> simp

theorem unpackedRank_nearest_of_neg {n : Int} (hn : n < 0) :
    unpackedRank (unpackedNearest n) = toLex (-1, toLex
      (-nearestExponent n.natAbs, -(nearestMantissa n.natAbs : Int))) := by
  rw [unpackedNearest_of_ne_zero hn.ne, signOf, if_pos hn]
  rfl

theorem unpackedRank_nearest_of_pos {n : Int} (hn : 0 < n) :
    unpackedRank (unpackedNearest n) = toLex (1, toLex
      (nearestExponent n.natAbs, (nearestMantissa n.natAbs : Int))) := by
  rw [unpackedNearest_of_ne_zero hn.ne', signOf, if_neg hn.not_gt]
  rfl

/-- **Widening keeps the order of integers.** -/
theorem rank_widen_mono {m n : Int64} (h : m.toInt ≤ n.toInt) : rank (widen m) ≤ rank (widen n) := by
  have hzero : unpackedRank (unpackedNearest 0) = toLex (0, toLex (0, 0)) := rfl
  rw [rank, rank, unpack_widen, unpack_widen]
  generalize m.toInt = a at h
  generalize n.toInt = b at h
  rcases lt_trichotomy a 0 with ha | rfl | ha
  · rcases lt_trichotomy b 0 with hb | rfl | hb
    · have hmono := nearest_mono (Int.natAbs_ne_zero.2 hb.ne) (show b.natAbs ≤ a.natAbs by omega)
      rw [unpackedRank_nearest_of_neg ha, unpackedRank_nearest_of_neg hb]
      refine Prod.Lex.toLex_le_toLex.2 (.inr ⟨rfl, Prod.Lex.toLex_le_toLex.2 ?_⟩)
      simp only [neg_lt_neg_iff, neg_inj, neg_le_neg_iff, Nat.cast_le]
      exact hmono.imp_right (And.imp_left Eq.symm)
    · rw [unpackedRank_nearest_of_neg ha, hzero]
      exact Prod.Lex.toLex_le_toLex.2 (.inl neg_one_lt_zero)
    · rw [unpackedRank_nearest_of_neg ha, unpackedRank_nearest_of_pos hb]
      exact Prod.Lex.toLex_le_toLex.2 (.inl (by norm_num))
  · rcases Int.lt_or_eq_of_le h with hb | rfl
    · rw [hzero, unpackedRank_nearest_of_pos hb]
      exact Prod.Lex.toLex_le_toLex.2 (.inl zero_lt_one)
    · exact le_rfl
  · have hmono := nearest_mono (Int.natAbs_ne_zero.2 ha.ne') (show a.natAbs ≤ b.natAbs by omega)
    rw [unpackedRank_nearest_of_pos ha, unpackedRank_nearest_of_pos (by omega)]
    refine Prod.Lex.toLex_le_toLex.2 (.inr ⟨rfl, Prod.Lex.toLex_le_toLex.2 ?_⟩)
    simpa only [Nat.cast_le] using hmono

end RuleAggregate
