import RuleAggregate.Json.Reader
import RuleAggregate.Json.Writer
import RuleAggregate.Proofs.Decimal.Digits

/-!
# Strings and integers in JSON

A string ends at the first quote that is not escaped, so it is read back whatever follows it.  An
integer goes on as long as it can, so what follows must not look like more of it.

## What is here

* `Json.takeString?_written` — **a string is read back as it was written.**
* `Json.Ends` — what may follow an integer.
* `Json.takeNumeral?_writeInt`, `Json.value?_writeInt` — **an integer of 64 bits is read back as it
  was written.**
-/

set_option autoImplicit false

namespace RuleAggregate
namespace Json

/-! ## Strings -/

theorem hexValue?_hexDigit : ∀ n, n < 16 → hexValue? (hexDigit n) = some n := by decide

/-- Controls are escaped by their numbers. -/
theorem hexWord?_control {n : Nat} (h : n < 32) :
    hexWord? '0' '0' (hexDigit (n / 16)) (hexDigit (n % 16)) = some n := by
  have hzero : hexValue? '0' = some 0 := rfl
  rw [hexWord?, hzero, hexValue?_hexDigit _ (by omega), hexValue?_hexDigit _ (by omega)]
  simp only [Option.some_inj]
  omega

/-- What is neither a quote nor a backslash nor a control stands for itself. -/
theorem takeString?_cons {c : Char} (hquote : c ≠ '"') (hbackslash : c ≠ '\\')
    (hcontrol : ¬ c.toNat < 32) (r : List Char) :
    takeString? (c :: r) = (takeString? r).map fun (s, r) => (c :: s, r) := by
  rw [takeString?.eq_def]
  split
  · next heq => cases heq
  · next heq => exact absurd (List.cons.inj heq).1 hquote
  · next heq => exact absurd (List.cons.inj heq).1 hbackslash
  · next heq => exact absurd (List.cons.inj heq).1 hbackslash
  · next heq =>
    cases heq
    exact if_neg (not_or.2 ⟨hcontrol, hbackslash⟩)

/-- An escaped character is read as the character. -/
theorem takeString?_escape (c : Char) (r : List Char) :
    takeString? (escape c ++ r) = (takeString? r).map fun (s, r) => (c :: s, r) := by
  rw [escape]
  -- seven characters have an escape of their own
  iterate 7
    split
    · next h =>
      rw [h]
      rfl
  split
  · next h =>
    simp only [List.cons_append, List.nil_append]
    rw [takeString?, hexWord?_control h]
    simp only
    rw [if_neg (by omega), if_neg (by omega), Char.ofNat_toNat]
  · next hquote hbackslash _ _ _ _ _ hcontrol =>
    exact takeString?_cons hquote hbackslash hcontrol r

/-- **A string is read back as it was written.** -/
theorem takeString?_written (s r : List Char) :
    takeString? (s.flatMap escape ++ '"' :: r) = some (s, r) := by
  induction s with
  | nil => rfl
  | cons c s ih =>
    rw [List.flatMap_cons, List.append_assoc, takeString?_escape, ih]
    rfl

/-! ## Integers -/

/-- The text does not go on with anything that could be part of a number. -/
def Ends (r : List Char) : Prop := ∀ c ∈ r.head?, c = ',' ∨ c = ']' ∨ c = '\x7d'

variable {r : List Char}

theorem ends_nil : Ends [] := nofun

theorem ends_cons {c : Char} (hc : c = ',' ∨ c = ']' ∨ c = '\x7d') : Ends (c :: r) := by
  rintro d ⟨⟩
  exact hc

theorem Ends.span_digits (hr : Ends r) {ds : List Char} (hds : ∀ c ∈ ds, Decimal.isDigit c = true) :
    (ds ++ r).takeWhile Decimal.isDigit = ds ∧ (ds ++ r).dropWhile Decimal.isDigit = r := by
  have hfirst : r.takeWhile Decimal.isDigit = [] ∧ r.dropWhile Decimal.isDigit = r := by
    cases r with
    | nil => exact ⟨rfl, rfl⟩
    | cons c r =>
      have hc : ¬ Decimal.isDigit c = true := by
        rcases hr c rfl with rfl | rfl | rfl <;> decide
      exact ⟨List.takeWhile_cons_of_neg hc, List.dropWhile_cons_of_neg hc⟩
  rw [List.takeWhile_append_of_pos hds, List.dropWhile_append_of_pos hds, hfirst.1, hfirst.2,
    List.append_nil]
  exact ⟨rfl, rfl⟩

theorem takeWhole?_digits (n : Nat) (hr : Ends r) :
    takeWhole? (Decimal.digits n ++ r) = some (Decimal.digits n, r) := by
  obtain ⟨htake, hdrop⟩ := hr.span_digits (Decimal.isDigits_digits n).2
  rw [takeWhole?, htake, hdrop]
  split
  · next h => exact absurd h (Decimal.digits_ne_nil n)
  · next h => rw [h]
  · next hne h => exact absurd (Decimal.eq_zero_of_digits h).2 hne
  · rfl

/-- **An integer is cut off as it was written.** -/
theorem takeNumeral?_writeInt (n : Int) (hr : Ends r) :
    takeNumeral? (Decimal.writeInt n ++ r) =
      some (⟨decide (n < 0), Decimal.digits n.natAbs, none, none⟩, r) := by
  have hfraction : takeFraction? r = some (none, r) := by
    rw [takeFraction?.eq_def]
    split
    · rcases hr _ rfl with h | h | h <;> cases h
    · rfl
  have hexponent : takeExponent? r = some (none, r) := by
    cases r with
    | nil => rfl
    | cons c r =>
      refine if_neg ?_
      rcases hr c rfl with rfl | rfl | rfl <;> decide
  rw [Decimal.writeInt]
  by_cases hn : n < 0
  · rw [if_pos hn, List.cons_append, takeNumeral?]
    simp only [takeWhole?_digits _ hr, hfraction, hexponent, hn, Option.bind_some, Option.map_some,
      decide_true]
  · have hsign : ∀ t, Decimal.digits n.natAbs ++ r = '-' :: t → False := by
      intro t heq
      obtain ⟨c, ds, hds, hc, -⟩ := Decimal.exists_digits_eq_cons n.natAbs
      rw [hds] at heq
      cases heq
      cases hc
    rw [if_neg hn, takeNumeral?]
    · simp only [takeWhole?_digits _ hr, hfraction, hexponent, hn, Option.bind_some,
        Option.map_some, decide_false]
    · exact hsign

/-- **An integer of 64 bits is what its digits stand for.**  Zero is written without a sign. -/
theorem value?_writeInt (n : Int64) :
    (⟨decide (n.toInt < 0), Decimal.digits n.toInt.natAbs, none, none⟩ : Numeral).value? =
      some (.int n) := by
  have hzero : ¬ (decide (n.toInt < 0) = true ∧ n.toInt.natAbs = 0) := by
    rw [decide_eq_true_eq]
    omega
  rw [Numeral.value?]
  simp only [Decimal.value_digits, Decimal.signed_natAbs]
  rw [if_pos ⟨rfl, rfl, n.minValue_le_toInt, n.toInt_le, hzero⟩, Int64.ofInt_toInt]

end Json
end RuleAggregate
