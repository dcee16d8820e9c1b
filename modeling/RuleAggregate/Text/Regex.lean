/-!
# Regular expressions

Regular expressions over characters, matched by taking derivatives: the derivative of an
expression by a character matches what may follow that character.

## What is here

* `CharClass`, `Regex` — classes of characters, and expressions over them.
* `Regex.Matches` — which texts an expression matches, as a relation.
* `Regex.derivative`, `Regex.nullable` — the two functions that matching is built from.
* `Regex.longest?` — the length of the longest prefix of a text that an expression matches.
* `Regex.reach` — how far a text can be read before no continuation could match any more.
* `nullable_iff`, `matches_derivative_iff` — what the two functions say about `Matches`.
-/

set_option autoImplicit false

namespace RuleAggregate

/-- A class of characters: those in one of the ranges, or those in none of them. -/
structure CharClass where
  negated : Bool
  ranges : List (Char × Char)
  deriving DecidableEq, Repr

namespace CharClass

/-- Whether a character belongs to the class. -/
def contains (k : CharClass) (c : Char) : Bool :=
  k.ranges.any (fun r => r.1 ≤ c && c ≤ r.2) != k.negated

/-- The class of a single character. -/
def single (c : Char) : CharClass := ⟨false, [(c, c)]⟩

/-- The class of the characters of a text. -/
def ofString (s : String) : CharClass := ⟨false, s.toList.map fun c => (c, c)⟩

/-- The class of all characters that are not in a text. -/
def except (s : String) : CharClass := ⟨true, s.toList.map fun c => (c, c)⟩

end CharClass

/-- A regular expression. -/
inductive Regex where
  /-- Matches no text. -/
  | never
  /-- Matches the empty text. -/
  | empty
  /-- Matches one character of a class. -/
  | char (k : CharClass)
  /-- Matches a text of the first expression followed by one of the second. -/
  | seq (r s : Regex)
  /-- Matches the texts of either expression. -/
  | alt (r s : Regex)
  /-- Matches any number of texts of the expression, one after the other. -/
  | star (r : Regex)
  deriving DecidableEq, Repr

namespace Regex

/-! ## Which texts match -/

/-- The texts that an expression matches. -/
inductive Matches : Regex → List Char → Prop where
  | empty : Matches .empty []
  | char {k : CharClass} {c : Char} (h : k.contains c = true) : Matches (.char k) [c]
  | seq {r s : Regex} {t u : List Char} (ht : Matches r t) (hu : Matches s u) :
      Matches (.seq r s) (t ++ u)
  | altLeft {r s : Regex} {t : List Char} (h : Matches r t) : Matches (.alt r s) t
  | altRight {r s : Regex} {t : List Char} (h : Matches s t) : Matches (.alt r s) t
  | starNil {r : Regex} : Matches (.star r) []
  | starCons {r : Regex} {t u : List Char} (ht : Matches r t) (hu : Matches (.star r) u) :
      Matches (.star r) (t ++ u)

/-! ## Building expressions -/

/-- One after the other, simplified when one of the two is trivial. -/
def andThen (r s : Regex) : Regex :=
  if r = never ∨ s = never then never
  else if r = empty then s
  else if s = empty then r
  else seq r s

/-- Either of two expressions, simplified when one matches nothing or both are the same. -/
def orElse (r s : Regex) : Regex :=
  if r = never then s
  else if s = never then r
  else if r = s then r
  else alt r s

/-- The text itself. -/
def literal (s : String) : Regex :=
  s.toList.foldr (fun c r => andThen (char (.single c)) r) empty

/-- One or more times. -/
def plus (r : Regex) : Regex := andThen r (star r)

/-- Once or not at all. -/
def optional (r : Regex) : Regex := orElse r empty

/-- All expressions of a list, one after the other. -/
def sequence (rs : List Regex) : Regex := rs.foldr andThen empty

/-- Any expression of a list. -/
def choice (rs : List Regex) : Regex := rs.foldr orElse never

/-! ## Matching -/

/-- Whether the empty text matches. -/
def nullable : Regex → Bool
  | never => false
  | empty => true
  | char _ => false
  | seq r s => r.nullable && s.nullable
  | alt r s => r.nullable || s.nullable
  | star _ => true

/-- What may follow a character. -/
def derivative (c : Char) : Regex → Regex
  | never => never
  | empty => never
  | char k => if k.contains c then empty else never
  | seq r s =>
    if r.nullable then orElse (andThen (derivative c r) s) (derivative c s)
    else andThen (derivative c r) s
  | alt r s => orElse (derivative c r) (derivative c s)
  | star r => andThen (derivative c r) (star r)

/-- The length of the longest prefix of the text that matches. -/
def longest? (r : Regex) : List Char → Option Nat
  | [] => if r.nullable then some 0 else none
  | c :: s =>
    if r = never then none
    else
      match longest? (r.derivative c) s with
      | some n => some (n + 1)
      | none => if r.nullable then some 0 else none

/-- How many characters of the text can be read while some continuation could still match. -/
def reach (r : Regex) : List Char → Nat
  | [] => 0
  | c :: s => if r.derivative c = never then 0 else reach (r.derivative c) s + 1

/-! ## Laws of matching -/

theorem not_matches_never {t : List Char} : ¬ Matches never t := nofun

theorem matches_empty_iff {t : List Char} : Matches empty t ↔ t = [] :=
  ⟨fun h => by cases h; rfl, fun h => h ▸ .empty⟩

theorem matches_char_iff {k : CharClass} {t : List Char} :
    Matches (char k) t ↔ ∃ c, k.contains c = true ∧ t = [c] :=
  ⟨fun h => by cases h with | char h => exact ⟨_, h, rfl⟩, fun ⟨_, h, e⟩ => e ▸ .char h⟩

theorem matches_seq_iff {r s : Regex} {t : List Char} :
    Matches (seq r s) t ↔ ∃ u v, t = u ++ v ∧ Matches r u ∧ Matches s v :=
  ⟨fun h => by cases h with | seq hu hv => exact ⟨_, _, rfl, hu, hv⟩,
    fun ⟨_, _, e, hu, hv⟩ => e ▸ .seq hu hv⟩

theorem matches_alt_iff {r s : Regex} {t : List Char} :
    Matches (alt r s) t ↔ Matches r t ∨ Matches s t :=
  ⟨fun h => by cases h with | altLeft h => exact .inl h | altRight h => exact .inr h,
    fun h => h.elim .altLeft .altRight⟩

theorem matches_andThen_iff {r s : Regex} {t : List Char} :
    Matches (andThen r s) t ↔ Matches (seq r s) t := by
  unfold andThen
  split
  · next h =>
    rw [matches_seq_iff]
    refine ⟨fun h => absurd h not_matches_never, fun ⟨u, v, _, hu, hv⟩ => ?_⟩
    rcases h with rfl | rfl
    · exact absurd hu not_matches_never
    · exact absurd hv not_matches_never
  · split
    · next h =>
      subst h
      rw [matches_seq_iff]
      refine ⟨fun h => ⟨[], t, rfl, .empty, h⟩, fun ⟨u, v, e, hu, hv⟩ => ?_⟩
      cases matches_empty_iff.1 hu
      exact e ▸ hv
    · split
      · next h =>
        subst h
        rw [matches_seq_iff]
        refine ⟨fun h => ⟨t, [], by simp, h, .empty⟩, fun ⟨u, v, e, hu, hv⟩ => ?_⟩
        cases matches_empty_iff.1 hv
        subst e
        simpa using hu
      · exact Iff.rfl

theorem matches_orElse_iff {r s : Regex} {t : List Char} :
    Matches (orElse r s) t ↔ Matches r t ∨ Matches s t := by
  unfold orElse
  split
  · next h => subst h; simp [not_matches_never]
  · split
    · next h => subst h; simp [not_matches_never]
    · split
      · next h => subst h; simp
      · exact matches_alt_iff

theorem nullable_iff {r : Regex} : r.nullable = true ↔ Matches r [] := by
  induction r with
  | never => simp [nullable, not_matches_never]
  | empty => simp [nullable, matches_empty_iff]
  | char k => simp [nullable, matches_char_iff]
  | seq r s ihr ihs =>
    simp only [nullable, Bool.and_eq_true, ihr, ihs, matches_seq_iff]
    refine ⟨fun h => ⟨[], [], rfl, h⟩, fun ⟨u, v, e, hu, hv⟩ => ?_⟩
    obtain ⟨rfl, rfl⟩ := List.append_eq_nil_iff.1 e.symm
    exact ⟨hu, hv⟩
  | alt r s ihr ihs => simp [nullable, matches_alt_iff, ihr, ihs]
  | star r _ => simp [nullable, Matches.starNil]

theorem matches_star_cons_iff {r : Regex} {c : Char} {t : List Char} :
    Matches (star r) (c :: t) ↔
      ∃ u v, t = u ++ v ∧ Matches r (c :: u) ∧ Matches (star r) v := by
  constructor
  · intro h
    generalize hs : star r = s at h
    generalize ht : c :: t = w at h
    induction h with
    | empty => cases hs
    | char => cases hs
    | seq => cases hs
    | altLeft => cases hs
    | altRight => cases hs
    | starNil => cases ht
    | @starCons r' u v hu hv _ ih =>
      cases hs
      cases u with
      | nil => exact ih rfl (by simpa using ht)
      | cons d u =>
        simp only [List.cons_append, List.cons.injEq] at ht
        obtain ⟨rfl, rfl⟩ := ht
        exact ⟨u, v, rfl, hu, hv⟩
  · rintro ⟨u, v, rfl, hu, hv⟩
    exact .starCons hu hv

/-- **The derivative by a character matches exactly what may follow the character.** -/
theorem matches_derivative_iff {r : Regex} {c : Char} {t : List Char} :
    Matches (r.derivative c) t ↔ Matches r (c :: t) := by
  induction r generalizing t with
  | never => simp [derivative, not_matches_never]
  | empty => simp [derivative, not_matches_never, matches_empty_iff]
  | char k =>
    simp only [derivative, matches_char_iff]
    split
    · next h =>
      rw [matches_empty_iff]
      exact ⟨fun e => ⟨c, h, by rw [e]⟩, fun ⟨_, _, e⟩ => (List.cons.inj e).2⟩
    · next h =>
      simp only [not_matches_never, false_iff]
      rintro ⟨d, hd, e⟩
      cases e
      exact h hd
  | seq r s ihr ihs =>
    have first : Matches (andThen (derivative c r) s) t ↔
        ∃ u v, t = u ++ v ∧ Matches r (c :: u) ∧ Matches s v := by
      rw [matches_andThen_iff, matches_seq_iff]
      simp only [ihr]
    rw [matches_seq_iff]
    simp only [derivative]
    split
    · next hn =>
      rw [matches_orElse_iff, first, ihs]
      constructor
      · rintro (⟨u, v, rfl, hu, hv⟩ | h)
        · exact ⟨c :: u, v, rfl, hu, hv⟩
        · exact ⟨[], c :: t, rfl, nullable_iff.1 hn, h⟩
      · rintro ⟨u, v, e, hu, hv⟩
        cases u with
        | nil => exact .inr (by simpa using e ▸ hv)
        | cons d u =>
          simp only [List.cons_append, List.cons.injEq] at e
          obtain ⟨rfl, rfl⟩ := e
          exact .inl ⟨u, v, rfl, hu, hv⟩
    · next hn =>
      rw [first]
      constructor
      · rintro ⟨u, v, rfl, hu, hv⟩
        exact ⟨c :: u, v, rfl, hu, hv⟩
      · rintro ⟨u, v, e, hu, hv⟩
        cases u with
        | nil => exact absurd (nullable_iff.2 hu) hn
        | cons d u =>
          simp only [List.cons_append, List.cons.injEq] at e
          obtain ⟨rfl, rfl⟩ := e
          exact ⟨u, v, rfl, hu, hv⟩
  | alt r s ihr ihs => simp [derivative, matches_orElse_iff, matches_alt_iff, ihr, ihs]
  | star r ih =>
    simp only [derivative]
    rw [matches_andThen_iff, matches_seq_iff, matches_star_cons_iff]
    simp only [ih]

end Regex
end RuleAggregate
