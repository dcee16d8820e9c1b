/-!
# Decimal integers

## What is here

* `Decimal.digits`, `Decimal.writeInt` — the digits of a number, with a minus sign if it is
  negative.
* `Decimal.value` — the number that a run of digits stands for.
* `Decimal.twoTo`, `Decimal.tenTo` — the powers of the two bases.
* `Decimal.readInt64?` — signed integers of 64 bits.
* `value_digits`, `isDigit_of_mem_digits`, `digits_ne_nil` — reading the digits of a number gives
  the number back.
-/

set_option autoImplicit false

namespace RuleAggregate
namespace Decimal

/-- Whether the character is one of the ten ASCII digits. -/
def isDigit (c : Char) : Bool := '0' ≤ c && c ≤ '9'

/-- The number that a digit stands for. -/
def digitValue (c : Char) : Nat := c.toNat - 48

/-- The digit that stands for a number below ten. -/
def digit (n : Nat) : Char := Char.ofNat (48 + n)

/-- The digits of a number, without leading zeros. -/
def digits (n : Nat) : List Char :=
  if n < 10 then [digit n] else digits (n / 10) ++ [digit (n % 10)]
termination_by n
decreasing_by omega

/-- The number `2 ^ n`. -/
def twoTo (n : Nat) : Nat := Nat.pow 2 n

/-- The number `10 ^ n`. -/
def tenTo (n : Nat) : Nat := Nat.pow 10 n

/-- The number that a run of digits stands for, after the digits of `n`. -/
def valueFrom (n : Nat) (ds : List Char) : Nat := ds.foldl (fun n c => 10 * n + digitValue c) n

/-- The number that a run of digits stands for. -/
def value (ds : List Char) : Nat := valueFrom 0 ds

/-- An integer in decimal. -/
def writeInt (n : Int) : List Char := if n < 0 then '-' :: digits n.natAbs else digits n.natAbs

/-- Splits a sign off the front; a text without a sign is positive. -/
def splitSign : List Char → Bool × List Char
  | '-' :: r => (true, r)
  | '+' :: r => (false, r)
  | r => (false, r)

/-- Reads an integer of 64 bits: an optional sign and digits, within the bounds. -/
def readInt64? (s : List Char) : Option Int64 :=
  let (negative, ds) := splitSign s
  if ds.isEmpty || !ds.all isDigit then none
  else
    let n : Int := if negative then -(value ds : Int) else value ds
    if Int64.minValue.toInt ≤ n ∧ n ≤ Int64.maxValue.toInt then some (Int64.ofInt n) else none

/-! ## Reading the digits of a number -/

theorem digitValue_digit {n : Nat} (h : n < 10) : digitValue (digit n) = n := by
  have : ∀ n, n < 10 → digitValue (digit n) = n := by decide
  exact this n h

theorem isDigit_digit {n : Nat} (h : n < 10) : isDigit (digit n) = true := by
  have : ∀ n, n < 10 → isDigit (digit n) = true := by decide
  exact this n h

theorem valueFrom_append (n : Nat) (ds es : List Char) :
    valueFrom n (ds ++ es) = valueFrom (valueFrom n ds) es := by
  simp [valueFrom]

theorem value_digits (n : Nat) : value (digits n) = n := by
  induction n using Nat.strongRecOn with
  | ind n ih =>
    rw [digits]
    split
    · next h => simp [value, valueFrom, digitValue_digit h]
    · next h =>
      have hq := ih (n / 10) (by omega)
      unfold value at hq ⊢
      rw [valueFrom_append, hq]
      simp only [valueFrom, List.foldl_cons, List.foldl_nil]
      rw [digitValue_digit (Nat.mod_lt _ (by omega))]
      omega

theorem isDigit_of_mem_digits {n : Nat} {c : Char} (h : c ∈ digits n) : isDigit c = true := by
  induction n using Nat.strongRecOn with
  | ind n ih =>
    rw [digits] at h
    split at h
    · next hn =>
      simp only [List.mem_singleton] at h
      exact h ▸ isDigit_digit hn
    · next hn =>
      rcases List.mem_append.1 h with h | h
      · exact ih (n / 10) (by omega) h
      · simp only [List.mem_singleton] at h
        exact h ▸ isDigit_digit (Nat.mod_lt _ (by omega))

theorem digits_ne_nil (n : Nat) : digits n ≠ [] := by
  rw [digits]
  split <;> simp

end Decimal
end RuleAggregate
