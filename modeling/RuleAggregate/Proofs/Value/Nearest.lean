import RuleAggregate.Proofs.Value.ExactValue

/-!
# Rounding stops at floating-point numbers

An integer is rounded to one of the two numbers with 53 digits around it.  There is no
floating-point number between these two, so the integer is never moved past one: a floating-point
number that is not less than the integer is not less than what it is rounded to, and likewise on the
other side.

## What is here

* `extendedDigits_floor` — the first 53 digits of an integer are the integer rounded down.
* `le_or_add_one_le` — **there is no floating-point number between two numbers of 53 digits.**
* `nearestRat_le`, `le_nearestRat` — an integer is not moved past a number of 53 digits.
* `compare_nearest` — **rounding an integer changes no comparison except to equality.**
-/

set_option autoImplicit false

namespace RuleAggregate

open Float.Model Float.Model.UnpackedFloat ExtendedRat

/-! ## The two numbers around an integer -/

/-- The digits are rounded down, or up to the next number. -/
theorem roundedDigits_between (n : Nat) : (extendedDigits n).mantissa ≤ roundedDigits n ∧
    roundedDigits n ≤ (extendedDigits n).mantissa + 1 := by
  rw [roundedDigits, roundedMantissa_eq, weight_div_four]
  split_ifs <;> omega

/-- What the last of 53 digits counts for, by the digits that are shifted out or in. -/
theorem two_pow_log2_sub (n : Nat) :
    (2 : ℚ) ^ ((n.log2 : ℤ) - 52) = 2 ^ (n.log2 - 52) / 2 ^ (52 - n.log2) := by
  rw [eq_div_iff (pow_ne_zero _ two_ne_zero), ← zpow_natCast, ← zpow_natCast,
    ← zpow_add₀ two_ne_zero]
  congr 1
  omega

theorem mantissa_extendedDigits (n : Nat) :
    (extendedDigits n).mantissa = n * 2 ^ (52 - n.log2) / 2 ^ (n.log2 - 52) := by
  rw [extendedDigits, mantissa_shiftRight]

/-- **The first 53 digits of an integer are the integer rounded down.** -/
theorem extendedDigits_floor (n : Nat) :
    ((extendedDigits n).mantissa : ℚ) * 2 ^ ((n.log2 : ℤ) - 52) ≤ n ∧
      (n : ℚ) < ((extendedDigits n).mantissa + 1) * 2 ^ ((n.log2 : ℤ) - 52) := by
  rw [two_pow_log2_sub, mantissa_extendedDigits, ← mul_div_assoc, ← mul_div_assoc,
    div_le_iff₀ (by positivity), lt_div_iff₀ (by positivity)]
  constructor
  · exact_mod_cast Nat.div_mul_le_self _ _
  · exact_mod_cast Nat.lt_mul_of_div_lt (Nat.lt_succ_self _) (Nat.two_pow_pos _)

/-- An integer of which only zeros are shifted out is not rounded. -/
theorem roundedDigits_of_exact {n : Nat}
    (h : (n : ℚ) = (extendedDigits n).mantissa * 2 ^ ((n.log2 : ℤ) - 52)) :
    roundedDigits n = (extendedDigits n).mantissa := by
  rw [two_pow_log2_sub, ← mul_div_assoc, eq_div_iff (pow_ne_zero _ two_ne_zero)] at h
  have hdigits : n * 2 ^ (52 - n.log2) = (extendedDigits n).mantissa * 2 ^ (n.log2 - 52) := by
    exact_mod_cast h
  have hshift : extendedDigits n = ⟨(extendedDigits n).mantissa, false, false⟩ := by
    conv_lhs => rw [extendedDigits, hdigits, shiftRight_shifted]
  rw [roundedDigits, hshift]
  rfl

/-- **There is no floating-point number between two numbers of 53 digits** that are next to each
other. -/
theorem le_or_add_one_le {m d : Nat} {e k : Int} (hm : m < 2 ^ 53) (hd : 2 ^ 52 ≤ d) :
    (m : ℚ) * 2 ^ e ≤ d * 2 ^ k ∨ ((d : ℚ) + 1) * 2 ^ k ≤ m * 2 ^ e := by
  rcases lt_or_ge e k with he | he
  · exact .inl (mantissa_mul_lt hm (.inl hd) (.inl he)).le
  -- otherwise the number is a multiple of `2 ^ k`, too
  · obtain ⟨i, rfl⟩ : ∃ i : Nat, e = k + i := ⟨(e - k).toNat, by omega⟩
    have hmultiple : (m : ℚ) * 2 ^ (k + (i : Int)) = ((m * 2 ^ i : Nat) : ℚ) * 2 ^ k := by
      rw [zpow_add₀ two_ne_zero, zpow_natCast]
      push_cast
      ring
    rw [hmultiple]
    rcases Nat.lt_or_ge d (m * 2 ^ i) with h | h
    · right
      gcongr
      exact_mod_cast h
    · left
      gcongr

/-! ## Natural numbers -/

/-- The number that a natural number is rounded to. -/
def nearestMagnitude (n : Nat) : ℚ := nearestMantissa n * 2 ^ nearestExponent n

theorem nearestMagnitude_eq (n : Nat) :
    nearestMagnitude n = roundedDigits n * 2 ^ ((n.log2 : ℤ) - 52) := by
  rw [nearestMagnitude, nearestMantissa, nearestExponent]
  split_ifs with h
  · have hexponent : (n.log2 : ℤ) - 51 = (n.log2 - 52) + 1 := by omega
    rw [h, hexponent, zpow_add₀ two_ne_zero]
    push_cast
    ring
  · rfl

theorem nearestMagnitude_nonneg (n : Nat) : 0 ≤ nearestMagnitude n := by
  rw [nearestMagnitude]
  positivity

section Natural

variable {n m : Nat} {e : Int}

/-- A natural number is not moved up past a floating-point number. -/
theorem nearestMagnitude_le (hn : n ≠ 0) (hm : m < 2 ^ 53) (h : (n : ℚ) ≤ m * 2 ^ e) :
    nearestMagnitude n ≤ m * 2 ^ e := by
  obtain ⟨hfloor, hlt⟩ := extendedDigits_floor n
  rw [nearestMagnitude_eq]
  rcases le_or_add_one_le (e := e) (k := n.log2 - 52) hm (extendedDigits_bounds hn).1 with
    hle | hle
  · -- the three numbers are the same, so nothing is rounded
    rw [roundedDigits_of_exact (le_antisymm (h.trans hle) hfloor)]
    exact hfloor.trans h
  · refine le_trans ?_ hle
    gcongr
    exact_mod_cast (roundedDigits_between n).2

/-- A natural number is not moved down past a floating-point number. -/
theorem le_nearestMagnitude (hn : n ≠ 0) (hm : m < 2 ^ 53) (h : (m : ℚ) * 2 ^ e ≤ n) :
    m * 2 ^ e ≤ nearestMagnitude n := by
  obtain ⟨-, hlt⟩ := extendedDigits_floor n
  rw [nearestMagnitude_eq]
  rcases le_or_add_one_le (e := e) (k := n.log2 - 52) hm (extendedDigits_bounds hn).1 with
    hle | hle
  · refine hle.trans ?_
    gcongr
    exact (roundedDigits_between n).1
  · exact absurd (hle.trans h) hlt.not_ge

end Natural

/-! ## Integers -/

/-- The number that an integer is rounded to. -/
def nearestRat (n : Int) : ℚ := n.sign * nearestMagnitude n.natAbs

theorem nearestRat_neg (n : Int) : nearestRat (-n) = -nearestRat n := by
  rw [nearestRat, nearestRat, Int.sign_neg, Int.natAbs_neg, Int.cast_neg, neg_mul]

theorem nearestRat_natCast {n : Nat} (hn : n ≠ 0) : nearestRat n = nearestMagnitude n := by
  rw [nearestRat, Int.sign_natCast_of_ne_zero hn, Int.natAbs_natCast, Int.cast_one, one_mul]

theorem exactValue_unpackedNearest (n : Int) :
    exactValue (unpackedNearest n) = ofRat (nearestRat n) := by
  rcases lt_trichotomy n 0 with hn | rfl | hn
  · rw [unpackedNearest_of_ne_zero hn.ne, signOf, if_pos hn, exactValue, scaled_negative,
      nearestRat, Int.sign_eq_neg_one_of_neg hn, Int.cast_neg, Int.cast_one, neg_one_mul]
    rfl
  · rw [unpackedNearest_zero, nearestRat, Int.sign_zero, Int.cast_zero, zero_mul]
    rfl
  · rw [unpackedNearest_of_ne_zero hn.ne', signOf, if_neg hn.not_gt, exactValue, scaled_positive,
      nearestRat, Int.sign_eq_one_of_pos hn, Int.cast_one, one_mul]
    rfl

/-- The number has at most 53 digits, wherever they stand. -/
def Short (q : ℚ) : Prop := ∃ m : Nat, ∃ e : Int, m < 2 ^ 53 ∧ (q = m * 2 ^ e ∨ q = -(m * 2 ^ e))

theorem Short.neg {q : ℚ} (hq : Short q) : Short (-q) := by
  obtain ⟨m, e, hm, hq⟩ := hq
  exact ⟨m, e, hm, hq.symm.imp (fun h => by rw [h, neg_neg]) (fun h => by rw [h])⟩

/-- Floating-point numbers that are finite have at most 53 digits. -/
theorem exactValue_cases {u : UnpackedFloat} (hu : Canonical u) :
    exactValue u = ⊥ ∨ exactValue u = ⊤ ∨ ∃ q, exactValue u = ofRat q ∧ Short q := by
  have hzero : Short 0 := ⟨0, 0, by norm_num, .inl (by norm_num)⟩
  rcases u with (_ | _) | _ | _ | ⟨(_ | _), m, e, hm⟩
  · exact .inl rfl
  · exact .inr (.inl rfl)
  · exact .inr (.inr ⟨0, rfl, hzero⟩)
  · exact .inr (.inr ⟨0, rfl, hzero⟩)
  · exact .inr (.inr ⟨_, rfl, m, e, hu.1, .inr (scaled_negative m e)⟩)
  · exact .inr (.inr ⟨_, rfl, m, e, hu.1, .inl (scaled_positive m e)⟩)

theorem nearestRat_le_of_nonneg {n : Nat} {q : ℚ} (hq : Short q) (h : (n : ℚ) ≤ q) :
    nearestRat n ≤ q := by
  rcases Nat.eq_zero_or_pos n with rfl | hn
  · simpa [nearestRat] using h
  obtain ⟨m, e, hm, rfl | rfl⟩ := hq
  · rw [nearestRat_natCast hn.ne']
    exact nearestMagnitude_le hn.ne' hm h
  · have hpos : (0 : ℚ) < n := Nat.cast_pos.2 hn
    have hnonneg : (0 : ℚ) ≤ m * 2 ^ e := by positivity
    linarith

theorem le_nearestRat_of_nonneg {n : Nat} {q : ℚ} (hq : Short q) (h : q ≤ n) :
    q ≤ nearestRat n := by
  rcases Nat.eq_zero_or_pos n with rfl | hn
  · simpa [nearestRat] using h
  rw [nearestRat_natCast hn.ne']
  obtain ⟨m, e, hm, rfl | rfl⟩ := hq
  · exact le_nearestMagnitude hn.ne' hm h
  · have hnonneg : (0 : ℚ) ≤ m * 2 ^ e := by positivity
    linarith [nearestMagnitude_nonneg n]

/-- **An integer is not moved up past a number of 53 digits.** -/
theorem nearestRat_le {n : Int} {q : ℚ} (hq : Short q) (h : (n : ℚ) ≤ q) : nearestRat n ≤ q := by
  obtain ⟨k, rfl | rfl⟩ := n.eq_nat_or_neg
  · exact nearestRat_le_of_nonneg hq (by exact_mod_cast h)
  · rw [nearestRat_neg, neg_le]
    refine le_nearestRat_of_nonneg hq.neg ?_
    rw [neg_le]
    exact_mod_cast h

/-- **An integer is not moved down past a number of 53 digits.** -/
theorem le_nearestRat {n : Int} {q : ℚ} (hq : Short q) (h : q ≤ n) : q ≤ nearestRat n := by
  have hneg := nearestRat_le (n := -n) hq.neg (by rw [Int.cast_neg]; exact neg_le_neg h)
  rwa [nearestRat_neg, neg_le_neg_iff] at hneg

/-- **Rounding an integer changes no comparison with a floating-point number**, unless it is rounded
to this number. -/
theorem compare_nearest (n : Int) {u : UnpackedFloat} (hu : Canonical u)
    (hne : exactValue (unpackedNearest n) ≠ exactValue u) :
    compare (exactValue (unpackedNearest n)) (exactValue u) = compare (ofRat n) (exactValue u) := by
  rw [exactValue_unpackedNearest] at hne ⊢
  rcases exactValue_cases hu with h | h | ⟨q, h, hq⟩
  · rw [h, compare_gt_iff_gt.2 (bot_lt_ofRat _), compare_gt_iff_gt.2 (bot_lt_ofRat _)]
  · rw [h, compare_lt_iff_lt.2 (ofRat_lt_top _), compare_lt_iff_lt.2 (ofRat_lt_top _)]
  · rw [h] at hne ⊢
    rw [compare_ofRat, compare_ofRat]
    have hne : nearestRat n ≠ q := fun heq => hne (congrArg ofRat heq)
    rcases lt_trichotomy (n : ℚ) q with hlt | heq | hgt
    · rw [compare_lt_iff_lt.2 hlt, compare_lt_iff_lt.2 ((nearestRat_le hq hlt.le).lt_of_ne hne)]
    · exact absurd (le_antisymm (nearestRat_le hq heq.le) (le_nearestRat hq heq.ge)) hne
    · rw [compare_gt_iff_gt.2 hgt,
        compare_gt_iff_gt.2 ((le_nearestRat hq hgt.le).lt_of_ne hne.symm)]

end RuleAggregate
