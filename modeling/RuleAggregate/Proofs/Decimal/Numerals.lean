import RuleAggregate.Decimal.Reading
import Mathlib.Data.List.TakeWhile

/-!
# How numbers are spelled

A text that is read as a number is a sign, if there is one, and then digits, among which a point may
stand, and an exponent; or it is the sign and one of three words.

## What is here

* `Decimal.Exponent`, `Decimal.Numeral` — how numbers without a sign are spelled by digits.
* `Decimal.IsNumberWord` — the words that stand for numbers.
* `Decimal.numeral_of_readInt64?`, `Decimal.numeral_or_word_of_readFloat?` — **what is read as a
  number is spelled like one.**
-/

set_option autoImplicit false

namespace RuleAggregate
namespace Decimal

/-- One or more digits. -/
def IsDigits (ds : List Char) : Prop := ds ≠ [] ∧ ∀ c ∈ ds, isDigit c = true

/-- Nothing, or the power of ten that a number is multiplied with. -/
inductive Exponent : List Char → Prop
  | none : Exponent []
  | plain {e : Char} {ds : List Char} (he : e = 'e' ∨ e = 'E') (hds : IsDigits ds) :
      Exponent (e :: ds)
  | signed {e sign : Char} {ds : List Char} (he : e = 'e' ∨ e = 'E')
      (hsign : sign = '+' ∨ sign = '-') (hds : IsDigits ds) : Exponent (e :: sign :: ds)

/-- A number without a sign. -/
inductive Numeral : List Char → Prop
  | whole {ds e : List Char} (hds : IsDigits ds) (he : Exponent e) : Numeral (ds ++ e)
  /-- Digits follow the point. -/
  | pointed {ds fs e : List Char} (hds : ∀ c ∈ ds, isDigit c = true) (hfs : IsDigits fs)
      (he : Exponent e) : Numeral (ds ++ '.' :: (fs ++ e))
  /-- No digits follow the point. -/
  | trailing {ds e : List Char} (hds : IsDigits ds) (he : Exponent e) : Numeral (ds ++ '.' :: e)

theorem Numeral.exists_cons {s : List Char} (h : Numeral s) :
    ∃ c t, s = c :: t ∧ (isDigit c = true ∨ c = '.') := by
  have hdigits : ∀ {ds : List Char}, IsDigits ds → ∃ c t, ds = c :: t ∧ isDigit c = true := by
    intro ds hds
    obtain ⟨c, t, rfl⟩ := List.exists_cons_of_ne_nil hds.1
    exact ⟨c, t, rfl, hds.2 c List.mem_cons_self⟩
  cases h with
  | whole hds | trailing hds =>
    obtain ⟨c, t, rfl, hc⟩ := hdigits hds
    exact ⟨c, _, rfl, .inl hc⟩
  | @pointed ds fs e hds =>
    cases ds with
    | nil => exact ⟨'.', _, rfl, .inr rfl⟩
    | cons c ds => exact ⟨c, _, rfl, .inl (hds c List.mem_cons_self)⟩

/-- The text is one of the words for numbers, in any mixture of capitals. -/
def IsNumberWord (s : List Char) : Prop :=
  s.map Char.toLower ∈ ["inf".toList, "infinity".toList, "nan".toList]

instance : DecidablePred IsNumberWord := fun _ => inferInstanceAs (Decidable (_ ∈ _))

/-- The sign that is split off. -/
theorem splitSign_eq (s : List Char) : (splitSign s).2 = s ∨
    ∃ sign, (sign = '+' ∨ sign = '-') ∧ s = sign :: (splitSign s).2 := by
  unfold splitSign
  split
  · exact .inr ⟨'-', .inr rfl, rfl⟩
  · exact .inr ⟨'+', .inl rfl, rfl⟩
  · exact .inl rfl

theorem digits_of_not_isEmpty {ds : List Char} (h : ¬ (ds.isEmpty || !ds.all isDigit) = true) :
    IsDigits ds := by
  rw [Bool.not_eq_true, Bool.or_eq_false_iff, Bool.not_eq_false', List.all_eq_true] at h
  refine ⟨?_, h.2⟩
  rintro rfl
  cases h.1

theorem numeral_of_readInt64? {s : List Char} {n : Int64} (h : readInt64? s = some n) :
    Numeral (splitSign s).2 := by
  rw [readInt64?] at h
  generalize splitSign s = signed at h ⊢
  obtain ⟨negative, ds⟩ := signed
  simp only at h
  split at h
  · cases h
  · next hds =>
    rw [← List.append_nil ds]
    exact .whole (digits_of_not_isEmpty hds) .none

theorem exponent_of_readExponent? {s : List Char} {n : Int} (h : readExponent? s = some n) :
    Exponent s := by
  cases s with
  | nil => exact .none
  | cons e s =>
    have hs := splitSign_eq s
    rw [readExponent?] at h
    generalize splitSign s = signed at h hs
    obtain ⟨negative, ds⟩ := signed
    split at h
    · next he =>
      simp only at h
      split at h
      · cases h
      · next hds =>
        have hds := digits_of_not_isEmpty hds
        rcases hs with rfl | ⟨sign, hsign, rfl⟩
        · exact .plain he hds
        · exact .signed he hsign hds
    · cases h

/-- **What is read without its sign is a numeral.** -/
theorem numeral_of_readUnsigned? {s : List Char} {x : Float} (h : readUnsigned? s = some x) :
    Numeral s := by
  have hwhole : ∀ c ∈ s.takeWhile isDigit, isDigit c = true := fun c => List.mem_takeWhile_imp
  rw [← List.takeWhile_append_dropWhile (p := isDigit) (l := s)]
  rw [readUnsigned?] at h
  generalize s.takeWhile isDigit = ds at h hwhole ⊢
  have hds : ds.isEmpty = false → IsDigits ds := by
    intro h
    exact ⟨List.isEmpty_eq_false_iff.1 h, hwhole⟩
  simp only at h
  split at h
  · next r hr =>
    rw [hr]
    have hfraction : ∀ c ∈ r.takeWhile isDigit, isDigit c = true :=
      fun c => List.mem_takeWhile_imp
    rw [← List.takeWhile_append_dropWhile (p := isDigit) (l := r)]
    generalize r.takeWhile isDigit = fs at h hfraction ⊢
    split at h
    · cases h
    · next hne =>
      obtain ⟨n, hn, -⟩ := Option.map_eq_some_iff.1 h
      have he := exponent_of_readExponent? hn
      cases fs with
      | nil => exact .trailing (hds (by simpa using hne)) he
      | cons f fs => exact .pointed hwhole ⟨List.cons_ne_nil f fs, hfraction⟩ he
  · split at h
    · cases h
    · next hne =>
      obtain ⟨n, hn, -⟩ := Option.map_eq_some_iff.1 h
      exact .whole (hds (by simpa using hne)) (exponent_of_readExponent? hn)

theorem numeral_or_word_of_readFloat? {s : List Char} {x : Float} (h : readFloat? s = some x) :
    Numeral (splitSign s).2 ∨ IsNumberWord (splitSign s).2 := by
  rw [readFloat?] at h
  generalize splitSign s = signed at h ⊢
  obtain ⟨negative, r⟩ := signed
  obtain ⟨y, hy, -⟩ := Option.map_eq_some_iff.1 h
  split at hy
  · next hname =>
    rcases hname with hname | hname
    · exact .inr (List.mem_cons.2 (.inl hname))
    · exact .inr (List.mem_cons.2 (.inr (List.mem_cons.2 (.inl hname))))
  · split at hy
    · next hname => exact .inr (by rw [IsNumberWord, hname]; decide)
    · exact .inl (numeral_of_readUnsigned? hy)

end Decimal
end RuleAggregate
