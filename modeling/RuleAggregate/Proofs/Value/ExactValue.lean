import RuleAggregate.Proofs.Value.Rounding

/-!
# The numbers that floating-point numbers stand for

A floating-point number is a multiple of a power of two, or an infinity.  Where it stands in the
line of floating-point numbers is where the number that it is stands among all numbers, because a
mantissa has fewer than 53 digits only at the smallest exponent.

## What is here

* `ExtendedRat` — rational numbers and two infinities.
* `exactValue` — the number that a floating-point number stands for.
* `canonical_unpack` — mantissas are as long as they can be.
* `compare_rank` — **floating-point numbers are ordered as numbers.**
-/

set_option autoImplicit false

namespace RuleAggregate

open Float.Model Float.Model.UnpackedFloat

/-! ## Numbers with infinities -/

/-- The rational numbers with a negative and a positive infinity. -/
abbrev ExtendedRat := WithBot (WithTop ℚ)

namespace ExtendedRat

/-- A rational number among them. -/
def ofRat (q : ℚ) : ExtendedRat := ((q : WithTop ℚ) : WithBot (WithTop ℚ))

@[simp] theorem ofRat_lt_ofRat {p q : ℚ} : ofRat p < ofRat q ↔ p < q := by
  rw [ofRat, ofRat, WithBot.coe_lt_coe, WithTop.coe_lt_coe]

@[simp] theorem bot_lt_ofRat (q : ℚ) : ⊥ < ofRat q := WithBot.bot_lt_coe _

@[simp] theorem ofRat_lt_top (q : ℚ) : ofRat q < ⊤ := WithBot.coe_lt_coe.2 (WithTop.coe_lt_top q)

theorem strictMono_ofRat : StrictMono ofRat := fun _ _ => ofRat_lt_ofRat.2

theorem compare_ofRat (p q : ℚ) : compare (ofRat p) (ofRat q) = compare p q := by
  rw [← cmp_eq_compare, ← cmp_eq_compare, strictMono_ofRat.cmp_map_eq]

end ExtendedRat

open ExtendedRat

/-- The number `m · 2 ^ e` with a sign. -/
def scaled (s : Sign) (m : Nat) (e : Int) : ℚ := (s.apply m : ℚ) * 2 ^ e

theorem scaled_positive (m : Nat) (e : Int) : scaled .positive m e = m * 2 ^ e := by
  rw [scaled, Sign.apply, Int.cast_natCast]

theorem scaled_negative (m : Nat) (e : Int) : scaled .negative m e = -(m * 2 ^ e) := by
  rw [scaled, Sign.apply, Int.cast_neg, Int.cast_natCast, neg_mul]

/-- The number that an unpacked number stands for.  NaN stands for nothing; zero takes its place. -/
def exactValue : UnpackedFloat → ExtendedRat
  | .infinity .negative => ⊥
  | .infinity .positive => ⊤
  | .finite s m e _ => ofRat (scaled s m e)
  | .zero _ | .notANumber => ofRat 0

/-! ## Mantissas -/

/-- The mantissa has at most 53 digits, and fewer only at the smallest exponent. -/
def Canonical : UnpackedFloat → Prop
  | .finite _ m e _ => m < 2 ^ 53 ∧ -1074 ≤ e ∧ (2 ^ 52 ≤ m ∨ e = -1074)
  | _ => True

/-- **The mantissa of every floating-point number is as long as it can be.** -/
theorem canonical_unpack (b : BitVec Format.binary64.numBits) :
    Canonical (UnpackedFloat.unpack .binary64 b) := by
  rw [UnpackedFloat.unpack]
  have hmantissa : (unpackMantissa b).toNat < 2 ^ 52 := (unpackMantissa b).isLt
  split
  · split <;> trivial
  · split
    · next hzero =>
      split
      · trivial
      · refine ⟨hmantissa.trans (by norm_num), ?_⟩
        rw [hzero]
        exact ⟨by decide, .inr (by decide)⟩
    · next hne =>
      have happend : (1#1 ++ unpackMantissa b).toNat = 2 ^ 52 + (unpackMantissa b).toNat := by
        rw [BitVec.toNat_append, ← Nat.shiftLeft_add_eq_or_of_lt (unpackMantissa b).isLt,
          Nat.shiftLeft_eq]
        rfl
      have hexponent : (unpackExponent b).toNat ≠ 0 := fun h => hne (BitVec.eq_of_toNat_eq h)
      refine ⟨?_, ?_, .inl ?_⟩
      · rw [happend]
        omega
      · show -1074 ≤ ((unpackExponent b).toNat : Int) - (1023 + 52)
        omega
      · rw [happend]
        omega

theorem canonical_toModel (x : Float) : Canonical x.toModel.unpack := canonical_unpack _

/-- Of two numbers without signs the one with the larger exponent is larger, and with the same
exponent the one with the larger mantissa. -/
theorem mantissa_mul_lt {m m' : Nat} {e e' : Int} (hm : m < 2 ^ 53)
    (hm' : 2 ^ 52 ≤ m' ∨ e' ≤ e) (h : e < e' ∨ e = e' ∧ m < m') :
    (m : ℚ) * 2 ^ e < m' * 2 ^ e' := by
  rcases h with he | ⟨rfl, h⟩
  · have hdigits : 2 ^ 52 ≤ m' := hm'.resolve_right he.not_ge
    calc (m : ℚ) * 2 ^ e < 2 ^ 53 * 2 ^ e := by
          gcongr
          exact_mod_cast hm
      _ = 2 ^ 52 * 2 ^ (e + 1) := by
          rw [zpow_add₀ two_ne_zero]
          ring
      _ ≤ m' * 2 ^ e' := by
          gcongr
          · exact_mod_cast hdigits
          · norm_num
          · omega
  · gcongr

theorem Canonical.mul_lt {s s' : Sign} {m m' : Nat} {e e' : Int} {h : 0 < m} {h' : 0 < m'}
    (hc : Canonical (.finite s m e h)) (hc' : Canonical (.finite s' m' e' h'))
    (hlt : e < e' ∨ e = e' ∧ m < m') : (m : ℚ) * 2 ^ e < m' * 2 ^ e' :=
  mantissa_mul_lt hc.1 (hc'.2.2.imp_right fun he => he.trans_le hc.2.1) hlt

/-! ## Order -/

theorem exactValue_lt_of_unpackedRank {a b : UnpackedFloat} (ha : Canonical a) (hb : Canonical b)
    (h : unpackedRank a < unpackedRank b) : exactValue a < exactValue b := by
  have hpos : ∀ {m : Nat} {e : Int}, 0 < m → (0 : ℚ) < m * 2 ^ e := fun hm => by positivity
  rcases a with (_ | _) | _ | _ | ⟨(_ | _), m, e, hm⟩ <;>
  rcases b with (_ | _) | _ | _ | ⟨(_ | _), m', e', hm'⟩ <;>
  simp [unpackedRank, Prod.Lex.toLex_lt_toLex, exactValue, scaled_positive, scaled_negative]
    at h ⊢
  -- the signs differ, or one of the two numbers is zero
  case notANumber.finite.positive | zero.finite.positive => exact hpos hm'
  case finite.negative.notANumber | finite.negative.zero => exact hpos hm
  case finite.negative.finite.positive => exact (neg_lt_zero.2 (hpos hm)).trans (hpos hm')
  -- the signs are the same
  case finite.negative.finite.negative => exact hb.mul_lt ha (h.imp_right (And.imp_left Eq.symm))
  case finite.positive.finite.positive => exact ha.mul_lt hb h

theorem exactValue_eq_of_unpackedRank {a b : UnpackedFloat}
    (h : unpackedRank a = unpackedRank b) : exactValue a = exactValue b := by
  rcases a with (_ | _) | _ | _ | ⟨(_ | _), m, e, hm⟩ <;>
  rcases b with (_ | _) | _ | _ | ⟨(_ | _), m', e', hm'⟩ <;>
  simp_all [unpackedRank, exactValue]

/-- **Floating-point numbers are ordered as the numbers that they stand for.** -/
theorem compare_rank (x y : Float) :
    compare (rank x) (rank y) =
      compare (exactValue x.toModel.unpack) (exactValue y.toModel.unpack) := by
  have hx := canonical_toModel x
  have hy := canonical_toModel y
  rcases lt_trichotomy (rank x) (rank y) with h | h | h
  · rw [compare_lt_iff_lt.2 h, compare_lt_iff_lt.2 (exactValue_lt_of_unpackedRank hx hy h)]
  · rw [compare_eq_iff_eq.2 h, compare_eq_iff_eq.2 (exactValue_eq_of_unpackedRank h)]
  · rw [compare_gt_iff_gt.2 h, compare_gt_iff_gt.2 (exactValue_lt_of_unpackedRank hy hx h)]

end RuleAggregate
