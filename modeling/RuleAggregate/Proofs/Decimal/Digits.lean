import RuleAggregate.Proofs.Decimal.Numerals

/-!
# Integers in decimal

## What is here

* `Decimal.isDigits_digits` — a number is written in digits only.
* `Decimal.eq_zero_of_digits` — only zero is written with a zero in front.
* `Decimal.exists_writeInt_eq_cons` — what an integer starts with.
* `Decimal.readInt64?_writeInt` — **an integer of 64 bits is read as it was written.**
-/

set_option autoImplicit false

namespace RuleAggregate
namespace Decimal

theorem isDigits_digits (n : Nat) : IsDigits (digits n) :=
  ⟨digits_ne_nil n, fun _ => isDigit_of_mem_digits⟩

theorem exists_digits_eq_cons (n : Nat) :
    ∃ c ds, digits n = c :: ds ∧ isDigit c = true ∧ ∀ d ∈ ds, isDigit d = true := by
  obtain ⟨c, ds, h⟩ := List.exists_cons_of_ne_nil (digits_ne_nil n)
  have hdigit := (isDigits_digits n).2
  rw [h, List.forall_mem_cons] at hdigit
  exact ⟨c, ds, h, hdigit⟩

/-- Only zero is written with a zero in front. -/
theorem eq_zero_of_digits {n : Nat} {ds : List Char} (h : digits n = '0' :: ds) :
    n = 0 ∧ ds = [] := by
  induction n using Nat.strongRecOn generalizing ds with
  | ind n ih =>
    rw [digits] at h
    split at h
    · next hn =>
      have hdigit : ∀ k, k < 10 → digit k = '0' → k = 0 := by decide
      rw [List.cons.injEq] at h
      exact ⟨hdigit n hn h.1, h.2.symm⟩
    · next hn =>
      obtain ⟨c, cs, hcs, -⟩ := exists_digits_eq_cons (n / 10)
      rw [hcs, List.cons_append, List.cons.injEq] at h
      have hzero := (ih (n / 10) (by omega) (hcs.trans (by rw [h.1]))).1
      omega

/-- An integer is written with a digit or a minus sign in front. -/
theorem exists_writeInt_eq_cons (n : Int) :
    ∃ c s, writeInt n = c :: s ∧ (isDigit c = true ∨ c = '-') := by
  obtain ⟨c, ds, hds, hc, -⟩ := exists_digits_eq_cons n.natAbs
  rw [writeInt]
  split
  · exact ⟨'-', _, rfl, .inr rfl⟩
  · exact ⟨c, ds, hds, .inl hc⟩

/-- The front of an integer is no character of another kind. -/
theorem ne_of_isDigit_or_minus {c d : Char} (hc : isDigit c = true ∨ c = '-')
    (hd : isDigit d = false) (hne : d ≠ '-') : c ≠ d := by
  rintro rfl
  rcases hc with hc | hc
  · exact Bool.false_ne_true (hd.symm.trans hc)
  · exact hne hc

/-- The sign and the digits together are the integer. -/
theorem signed_natAbs (n : Int) :
    (if decide (n < 0) = true then -(n.natAbs : Int) else n.natAbs) = n := by
  simp only [decide_eq_true_eq]
  split <;> omega

/-- A minus sign is split off. -/
theorem splitSign_minus (s : List Char) : splitSign ('-' :: s) = (true, s) := rfl

/-- Digits have no sign. -/
theorem splitSign_digits (n : Nat) : splitSign (digits n) = (false, digits n) := by
  obtain ⟨c, ds, h, hc, -⟩ := exists_digits_eq_cons n
  rw [h, splitSign.eq_def]
  split
  · next heq =>
    cases heq
    cases hc
  · next heq =>
    cases heq
    cases hc
  · rfl

theorem splitSign_writeInt (n : Int) :
    splitSign (writeInt n) = (decide (n < 0), digits n.natAbs) := by
  rw [writeInt]
  split
  · next h => rw [splitSign_minus, decide_eq_true h]
  · next h => rw [splitSign_digits, decide_eq_false h]

/-- **An integer of 64 bits is read as it was written.** -/
theorem readInt64?_writeInt (n : Int64) : readInt64? (writeInt n.toInt) = some n := by
  have hdigits := isDigits_digits n.toInt.natAbs
  have hall : (digits n.toInt.natAbs).all isDigit = true := List.all_eq_true.2 hdigits.2
  have hempty : (digits n.toInt.natAbs).isEmpty = false := List.isEmpty_eq_false_iff.2 hdigits.1
  rw [readInt64?, splitSign_writeInt]
  simp only [hempty, hall, value_digits, signed_natAbs, Bool.not_true, Bool.or_false,
    Bool.false_eq_true, if_false]
  rw [if_pos ⟨n.minValue_le_toInt, n.toInt_le⟩, Int64.ofInt_toInt]

end Decimal
end RuleAggregate
