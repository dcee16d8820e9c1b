import Mathlib
import RuleAggregate.Value.Basic

/-!
# Integers as floating-point numbers

An integer of at most 53 binary digits is a floating-point number, and as long as sums and
differences are such integers too, nothing is rounded off.

## What is here

* `unpackedInteger` — the integer with its mantissa shifted until it fills the 53 digits.
* `normalize_shifted` — rounding an integer gives just that, however far it was shifted before.
* `integer` — the number that an integer is.
* `integer_add`, `integer_sub` — **sums and differences of integers are exact.**
* `widen_eq_integer` — an integer is widened to the number that it is.
-/

set_option autoImplicit false

namespace RuleAggregate

open Float.Model Float.Model.UnpackedFloat

/-! ## Rounding integers -/

theorem log2_mul_two_pow {m : Nat} (hm : m ≠ 0) (j : Nat) : (m * 2 ^ j).log2 = m.log2 + j := by
  induction j with
  | zero => rw [Nat.pow_zero, Nat.mul_one, Nat.add_zero]
  | succ j ih =>
    have hne : m * 2 ^ j ≠ 0 := Nat.mul_ne_zero hm (Nat.two_pow_pos j).ne'
    rw [Nat.pow_succ, ← Nat.mul_assoc, Nat.mul_comm _ 2, Nat.log2_two_mul hne, ih, Nat.add_assoc]

/-- Shifting zeros out loses nothing. -/
theorem shiftRight_shifted (m j : Nat) :
    (⟨m * 2 ^ j, false, false⟩ : ExtendedMantissa) >>> j = ⟨m, false, false⟩ := by
  induction j generalizing m with
  | zero => rw [Nat.pow_zero, Nat.mul_one]; rfl
  | succ j ih =>
    have hstep : (⟨m * 2 ^ (j + 1), false, false⟩ : ExtendedMantissa) >>> (j + 1) =
        ((⟨m * 2 * 2 ^ j, false, false⟩ : ExtendedMantissa) >>> j).shiftRightOne := by
      rw [Nat.mul_assoc, ← Nat.pow_succ']
      rfl
    rw [hstep, ih, ExtendedMantissa.shiftRightOne]
    simp

/-- The exponent at which the mantissa fills the 53 digits, if it is not too small. -/
theorem targetExponent_eq (m : Nat) (e : Int) :
    Format.binary64.targetExponent (totalExponent m e) = max (m.log2 + e - 52) (-1074) := by
  simp only [totalExponent, Format.targetExponent, Format.minExponent, Format.mantissaBits]
  omega

theorem targetExponent_shifted {m k : Nat} (hm : m ≠ 0) (hk : m.log2 + k = 52) (j : Nat) :
    Format.binary64.targetExponent (totalExponent (m * 2 ^ j) (-j)) = -k := by
  rw [targetExponent_eq, log2_mul_two_pow hm]
  omega

theorem shiftToTargetExponent_shifted {m k : Nat} (hm : m ≠ 0) (hk : m.log2 + k = 52) (i : Nat) :
    shiftToTargetExponent .binary64 (m * 2 ^ (k + i)) (-(k + i : Nat)) .exact =
      (⟨m * 2 ^ k, false, false⟩, -(k : Int)) := by
  have hi : (-(k : Int) - -(k + i : Nat)).toNat = i := by omega
  rw [shiftToTargetExponent, targetExponent_shifted hm hk, shiftToExponent, hi,
    ExtendedMantissa.ofMantissaAndAccuracy, Nat.pow_add, ← Nat.mul_assoc]
  refine Prod.ext (shiftRight_shifted _ _) ?_
  show -((k + i : Nat) : Int) + i = -k
  omega

/-- Rounding keeps a natural number, whatever zeros were shifted in before. -/
theorem round_shifted {m k : Nat} (hm : m ≠ 0) (hk : m.log2 + k = 52) (s : Sign) (j : Nat) :
    UnpackedFloat.round .binary64 s (m * 2 ^ j) (-j) =
      .finite s (m * 2 ^ k) (-k) (Nat.mul_pos (Nat.pos_of_ne_zero hm) (Nat.two_pow_pos k)) := by
  have hdecrease : decreaseExponent (m * 2 ^ j) (-j) (-k) =
      (m * 2 ^ (k + (j - k)), -((k + (j - k) : Nat) : Int)) := by
    have hshift : (-(j : Int) - -k).toNat = k - j := by omega
    rw [decreaseExponent, hshift, Nat.shiftLeft_eq, Nat.mul_assoc, ← Nat.pow_add]
    refine Prod.ext ?_ ?_
    · show m * 2 ^ (j + (k - j)) = m * 2 ^ (k + (j - k))
      congr 2
      omega
    · show -(j : Int) - (k - j : Nat) = -((k + (j - k) : Nat) : Int)
      omega
  have hlast := shiftToTargetExponent_shifted hm hk 0
  rw [Nat.add_zero] at hlast
  rw [UnpackedFloat.round, targetExponent_shifted hm hk, hdecrease]
  simp only [roundWithAccuracy, shiftToTargetExponent_shifted hm hk, hlast,
    ExtendedMantissa.roundedMantissa, ExtendedMantissa.accuracy, Accuracy.roundToNearestEven]
  rw [dif_neg (Nat.mul_ne_zero hm (Nat.two_pow_pos k).ne')]

/-! ## Integers of 53 digits -/

/-- How far the mantissa of an integer is shifted. -/
def digitsLeft (n : Int) : Nat := 52 - n.natAbs.log2

/-- The sign of an integer; zero is positive. -/
def signOf (n : Int) : Sign := if n < 0 then .negative else .positive

/-- The integer with its mantissa shifted until it fills the 53 digits. -/
def unpackedInteger (n : Int) : UnpackedFloat :=
  if h : n = 0 then .zero .positive
  else .finite (signOf n) (n.natAbs * 2 ^ digitsLeft n) (-digitsLeft n)
    (Nat.mul_pos (Int.natAbs_pos.2 h) (Nat.two_pow_pos _))

theorem unpackedInteger_zero : unpackedInteger 0 = .zero .positive := dif_pos rfl

theorem unpackedInteger_of_ne_zero {n : Int} (hn : n ≠ 0) :
    unpackedInteger n = .finite (signOf n) (n.natAbs * 2 ^ digitsLeft n) (-digitsLeft n)
      (Nat.mul_pos (Int.natAbs_pos.2 hn) (Nat.two_pow_pos _)) := dif_neg hn

theorem log2_add_digitsLeft {n : Int} (hn : n ≠ 0) (h : n.natAbs < 2 ^ 53) :
    n.natAbs.log2 + digitsLeft n = 52 := by
  have hlog := (Nat.log2_lt (Int.natAbs_ne_zero.2 hn)).2 h
  rw [digitsLeft]
  omega

theorem signOf_apply (n : Int) (k : Nat) : (signOf n).apply (n.natAbs * k : Nat) = n * k := by
  rw [signOf, Int.natCast_mul]
  split
  · next hn =>
    show -((n.natAbs : Int) * k) = n * k
    rw [← Int.neg_mul, show -(n.natAbs : Int) = n by omega]
  · next hn =>
    show (n.natAbs : Int) * k = n * k
    rw [show (n.natAbs : Int) = n by omega]

/-- A mantissa that is not zero is rounded apart from its sign. -/
theorem normalize_apply (spec : Format) (s zero : Sign) {m : Nat} (hm : 0 < m) (e : Int) :
    UnpackedFloat.normalize spec (s.apply m) e zero = UnpackedFloat.round spec s m e := by
  cases s with
  | negative =>
    have hcompare : compare (-(m : Int)) 0 = .lt := compare_lt_iff_lt.2 (by omega)
    have habs : (- -(m : Int)).toNat = m := by omega
    simp only [UnpackedFloat.normalize, Sign.apply, hcompare, habs]
  | positive =>
    have hcompare : compare (m : Int) 0 = .gt := compare_gt_iff_gt.2 (by omega)
    simp only [UnpackedFloat.normalize, Sign.apply, hcompare, Int.toNat_natCast]

/-- Rounding an integer keeps it, whatever zeros were shifted in before. -/
theorem normalize_shifted {n : Int} (h : n.natAbs < 2 ^ 53) (j : Nat) :
    UnpackedFloat.normalize .binary64 (n * (2 ^ j : Nat)) (-j) .positive = unpackedInteger n := by
  by_cases hn : n = 0
  · rw [hn, Int.zero_mul, unpackedInteger_zero]
    rfl
  · have hpos : 0 < n.natAbs * 2 ^ j := Nat.mul_pos (Int.natAbs_pos.2 hn) (Nat.two_pow_pos j)
    rw [← signOf_apply, normalize_apply _ _ _ hpos, unpackedInteger_of_ne_zero hn,
      round_shifted (Int.natAbs_ne_zero.2 hn) (log2_add_digitsLeft hn h)]

theorem ofInt_eq_unpackedInteger {n : Int} (h : n.natAbs < 2 ^ 53) :
    UnpackedFloat.ofInt .binary64 n = unpackedInteger n := by
  have hround := normalize_shifted h 0
  rw [Nat.pow_zero, Int.natCast_one, Int.mul_one] at hround
  exact hround

/-! ## Packing -/

/-- Mantissas of 53 digits are packed without loss. -/
theorem unpack_pack_of_log2 {s : Sign} {m : Nat} {e : Int} (hm : 0 < m) (hlog : m.log2 = 52)
    (hlo : -1074 ≤ e) (hhi : e ≤ 971) :
    UnpackedFloat.unpack .binary64 (UnpackedFloat.pack .binary64 (.finite s m e hm)) =
      .finite s m e hm := by
  obtain ⟨b, hb⟩ := Int.eq_ofNat_of_zero_le (show 0 ≤ e + 1075 by omega)
  have hbiased : (e + Format.binary64.exponentBias +
      Format.binary64.mantissaBitsWithoutImplicit).toNat = b := by
    simp only [Format.exponentBias]
    omega
  have hexponent : (BitVec.ofNat 11 b).toNat = b := by
    rw [BitVec.toNat_ofNat, Nat.mod_eq_of_lt (by omega)]
  have hmantissa : (1#1 ++ BitVec.ofNat 52 m).toNat = m := by
    obtain ⟨hle, hlt⟩ := (Nat.log2_eq_iff hm.ne').1 hlog
    rw [BitVec.toNat_append, ← Nat.shiftLeft_add_eq_or_of_lt (BitVec.isLt _), Nat.shiftLeft_eq,
      BitVec.toNat_ofNat, BitVec.toNat_ofNat]
    omega
  have hne : BitVec.ofNat 11 b ≠ -1#11 := fun h => by
    have := congrArg BitVec.toNat h
    rw [hexponent, show (-1#11).toNat = 2047 from rfl] at this
    omega
  have hne' : BitVec.ofNat 11 b ≠ 0#11 := fun h => by
    have := congrArg BitVec.toNat h
    rw [hexponent, show (0#11).toNat = 0 from rfl] at this
    omega
  rw [UnpackedFloat.pack, hbiased, if_neg (show ¬2 ^ 11 ≤ b + 1 by omega),
    if_pos (by rw [hlog]; rfl)]
  simp only [UnpackedFloat.unpack, unpackMantissa_packComponents, unpackExponent_packComponents,
    unpackSign_packComponents, Sign.ofBitVec_toBitVec, if_neg hne, if_neg hne', hexponent,
    hmantissa]
  congr 1
  simp only [Format.exponentBias]
  omega

/-- Integers are packed without loss. -/
theorem unpack_pack_unpackedInteger {n : Int} (h : n.natAbs < 2 ^ 53) :
    (Float.Model.pack (unpackedInteger n)).unpack = unpackedInteger n := by
  rw [unpackedInteger]
  split
  · rfl
  · next hn =>
    have hlog := log2_add_digitsLeft hn h
    refine unpack_pack_of_log2 _ ?_ ?_ ?_
    · rw [log2_mul_two_pow (Int.natAbs_ne_zero.2 hn), hlog]
    · rw [digitsLeft]
      omega
    · rw [digitsLeft]
      omega

/-! ## Sums and differences -/

/-- Integers are brought to a smaller exponent by shifting zeros in. -/
theorem apply_decreaseExponent {n : Int} {j : Nat} (hj : digitsLeft n ≤ j) :
    (signOf n).apply
      (decreaseExponent (n.natAbs * 2 ^ digitsLeft n) (-digitsLeft n) (-j)).1 =
        n * (2 ^ j : Nat) := by
  have hshift : (-(digitsLeft n : Int) - -j).toNat = j - digitsLeft n := by omega
  rw [decreaseExponent, hshift, Nat.shiftLeft_eq, Nat.mul_assoc, ← Nat.pow_add,
    Nat.add_sub_cancel' hj, signOf_apply]

theorem min_neg_digitsLeft (a b : Int) : min (-(digitsLeft a : Int)) (-digitsLeft b) =
    -((max (digitsLeft a) (digitsLeft b) : Nat) : Int) := by
  omega

theorem add_unpackedInteger {a b : Int} (h : (a + b).natAbs < 2 ^ 53) :
    UnpackedFloat.add .binary64 (unpackedInteger a) (unpackedInteger b) =
      unpackedInteger (a + b) := by
  by_cases ha : a = 0
  · rw [ha, Int.zero_add, unpackedInteger_zero, unpackedInteger]
    split <;> rfl
  by_cases hb : b = 0
  · rw [hb, Int.add_zero, unpackedInteger_zero, unpackedInteger_of_ne_zero ha]
    rfl
  rw [unpackedInteger_of_ne_zero ha, unpackedInteger_of_ne_zero hb, UnpackedFloat.add]
  simp only [min_neg_digitsLeft, apply_decreaseExponent (Nat.le_max_left _ _),
    apply_decreaseExponent (Nat.le_max_right _ _)]
  rw [← Int.add_mul, normalize_shifted h]

theorem neg_signOf {n : Int} (hn : n ≠ 0) : -signOf n = signOf (-n) := by
  rw [signOf, signOf]
  rcases lt_or_gt_of_ne hn with h | h
  · rw [if_pos h, if_neg (by omega)]
    rfl
  · rw [if_neg (by omega), if_pos (by omega)]
    rfl

theorem neg_unpackedInteger {n : Int} (hn : n ≠ 0) :
    (unpackedInteger n).neg = unpackedInteger (-n) := by
  have hdigits : digitsLeft (-n) = digitsLeft n := by rw [digitsLeft, digitsLeft, Int.natAbs_neg]
  rw [unpackedInteger_of_ne_zero hn, unpackedInteger_of_ne_zero (Int.neg_ne_zero.2 hn)]
  simp only [UnpackedFloat.neg, neg_signOf hn, hdigits, Int.natAbs_neg]

theorem sub_unpackedInteger {a b : Int} (h : (a - b).natAbs < 2 ^ 53) :
    UnpackedFloat.sub .binary64 (unpackedInteger a) (unpackedInteger b) =
      unpackedInteger (a - b) := by
  by_cases hb : b = 0
  · rw [hb, Int.sub_zero, unpackedInteger_zero, unpackedInteger]
    split <;> rfl
  by_cases ha : a = 0
  · rw [ha, Int.zero_sub, ← neg_unpackedInteger hb, unpackedInteger_zero,
      unpackedInteger_of_ne_zero hb]
    rfl
  rw [unpackedInteger_of_ne_zero ha, unpackedInteger_of_ne_zero hb, UnpackedFloat.sub]
  simp only [min_neg_digitsLeft, apply_decreaseExponent (Nat.le_max_left _ _),
    apply_decreaseExponent (Nat.le_max_right _ _)]
  rw [← Int.sub_mul, normalize_shifted h]

/-! ## Numbers -/

/-- The number that an integer is. -/
def integer (n : Int) : Float := .ofModel (.pack (unpackedInteger n))

theorem integer_zero : integer 0 = 0.0 := by decide +kernel

/-- **Sums of integers are exact.** -/
theorem integer_add {a b : Int} (ha : a.natAbs < 2 ^ 53) (hb : b.natAbs < 2 ^ 53)
    (h : (a + b).natAbs < 2 ^ 53) : integer a + integer b = integer (a + b) := by
  rw [integer, integer, integer, ← add_unpackedInteger h]
  show Float.ofModel (.pack (UnpackedFloat.add _ _ _)) = _
  rw [unpack_pack_unpackedInteger ha, unpack_pack_unpackedInteger hb]

/-- **Differences of integers are exact.** -/
theorem integer_sub {a b : Int} (ha : a.natAbs < 2 ^ 53) (hb : b.natAbs < 2 ^ 53)
    (h : (a - b).natAbs < 2 ^ 53) : integer a - integer b = integer (a - b) := by
  rw [integer, integer, integer, ← sub_unpackedInteger h]
  show Float.ofModel (.pack (UnpackedFloat.sub _ _ _)) = _
  rw [unpack_pack_unpackedInteger ha, unpack_pack_unpackedInteger hb]

/-- An integer of 53 digits is widened to the number that it is. -/
theorem widen_eq_integer {n : Int64} (h : n.toInt.natAbs < 2 ^ 53) :
    widen n = integer n.toInt := by
  have hmodulus : (UInt64.ofNat n.toInt.natAbs).toNat = n.toInt.natAbs :=
    Nat.mod_eq_of_lt (Nat.lt_trans h (by decide))
  have hwide : (UInt64.ofNat n.toInt.natAbs).toFloat = integer n.toInt.natAbs := by
    rw [integer, ← ofInt_eq_unpackedInteger (by rwa [Int.natAbs_natCast])]
    show Float.ofModel (.pack (UnpackedFloat.ofInt _ (UInt64.toNat _))) = _
    rw [hmodulus]
  rw [widen, hwide]
  split
  · next hn =>
    have hne : (n.toInt.natAbs : Int) ≠ 0 := by omega
    show Float.ofModel (.pack (UnpackedFloat.neg _)) = _
    rw [integer, unpack_pack_unpackedInteger (by rwa [Int.natAbs_natCast]), neg_unpackedInteger hne,
      integer, show -(n.toInt.natAbs : Int) = n.toInt by omega]
  · next hn => rw [show (n.toInt.natAbs : Int) = n.toInt by omega]

end RuleAggregate
