import RuleAggregate.Path.Basic
import RuleAggregate.Proofs.Decimal.Numerals
import RuleAggregate.Proofs.Text.Blanks

/-!
# How path expressions are spelled

An expression is read from a text without the blanks at its ends.  Quotes, a sign or a digit tell
the literals apart, three words are literals, and everything else has to be a name with fields,
around which blanks may stand.

## What is here

* `PathExpr.Spells` — names, separated by dots, with blanks around each of them.
* `PathExpr.Spelling` — how expressions are spelled, case by case.
* `PathExpr.spelling_of_read` — **what is read is spelled so.**
-/

set_option autoImplicit false

namespace RuleAggregate

/-! ## Words that stand for numbers -/

theorem toLower_eq_or (c : Char) : c.toLower = c ∨ isIdentifierStart c = true := by
  by_cases hupper : 'A' ≤ c ∧ c ≤ 'Z'
  · exact .inr (by simp [isIdentifierStart, hupper])
  · exact .inl (dif_neg hupper)

theorem not_isIdentifierStart_of_isDigit {c : Char} (h : Decimal.isDigit c = true) :
    isIdentifierStart c = false := by
  rw [Decimal.isDigit, Bool.and_eq_true, decide_eq_true_eq, decide_eq_true_eq] at h
  rw [← Bool.not_eq_true]
  intro hstart
  simp only [isIdentifierStart, Bool.or_eq_true, Bool.and_eq_true, decide_eq_true_eq] at hstart
  rcases hstart with ((⟨hc, -⟩ | ⟨hc, -⟩) | rfl) | rfl
  · exact absurd (Char.le_trans hc h.2) (by decide)
  · exact absurd (Char.le_trans hc h.2) (by decide)
  · exact absurd h.2 (by decide)
  · exact absurd h.1 (by decide)

theorem isIdentifierStart_of_toLower {c : Char} (h : isIdentifierStart c.toLower = true) :
    isIdentifierStart c = true := by
  rcases toLower_eq_or c with hc | hc
  · rwa [hc] at h
  · exact hc

theorem isIdentifierPart_of_toLower {c : Char} (h : isIdentifierPart c.toLower = true) :
    isIdentifierPart c = true := by
  rcases toLower_eq_or c with hc | hc
  · rwa [hc] at h
  · rw [isIdentifierPart, hc, Bool.true_or]

theorem isIdentifier_of_map_toLower {s : List Char}
    (h : isIdentifier (s.map Char.toLower) = true) : isIdentifier s = true := by
  cases s with
  | nil => cases h
  | cons c s =>
    rw [List.map_cons, isIdentifier, Bool.and_eq_true, List.all_map, List.all_eq_true] at h
    rw [isIdentifier, Bool.and_eq_true, List.all_eq_true]
    exact ⟨isIdentifierStart_of_toLower h.1, fun d hd => isIdentifierPart_of_toLower (h.2 d hd)⟩

/-- The words for numbers are identifiers. -/
theorem isIdentifier_of_isNumberWord {s : List Char} (h : Decimal.IsNumberWord s) :
    isIdentifier s = true := by
  have hwords : ∀ w ∈ ["inf".toList, "infinity".toList, "nan".toList], isIdentifier w = true := by
    decide
  exact isIdentifier_of_map_toLower (hwords _ h)

/-- Numerals are no identifiers. -/
theorem not_isIdentifier_of_numeral {s : List Char} (hs : Decimal.Numeral s) :
    isIdentifier s = false := by
  obtain ⟨c, t, rfl, hc⟩ := hs.exists_cons
  rw [isIdentifier]
  rcases hc with hc | rfl
  · rw [not_isIdentifierStart_of_isDigit hc, Bool.false_and]
  · rfl

namespace PathExpr

/-- The text spells names, separated by dots and with blanks around each of them. -/
inductive Spells : List (List Char) → List Char → Prop
  | last {x b b' : List Char} (hb : Text.AllBlank b) (hb' : Text.AllBlank b') :
      Spells [x] (b ++ x ++ b')
  | cons {x b b' s : List Char} {xs : List (List Char)} (hb : Text.AllBlank b)
      (hb' : Text.AllBlank b') (h : Spells xs s) : Spells (x :: xs) (b ++ x ++ b' ++ '.' :: s)

namespace Spells

variable {xs : List (List Char)} {s b : List Char}

theorem prepend (hb : Text.AllBlank b) (h : Spells xs s) : Spells xs (b ++ s) := by
  cases h with
  | last hfront hback =>
    simp only [← List.append_assoc]
    exact .last (hb.append hfront) hback
  | cons hfront hback h =>
    simp only [← List.append_assoc]
    exact .cons (hb.append hfront) hback h

theorem append (hb : Text.AllBlank b) (h : Spells xs s) : Spells xs (s ++ b) := by
  induction h with
  | last hfront hback =>
    rw [List.append_assoc]
    exact .last hfront (hback.append hb)
  | cons hfront hback h ih =>
    rw [List.append_assoc]
    exact .cons hfront hback ih

/-- Parts with dots between them spell what they are without blanks. -/
theorem of_join (first : List Char) (rest : List (List Char)) :
    Spells (Text.trim first :: rest.map Text.trim) (first ++ rest.flatMap ('.' :: ·)) := by
  induction rest generalizing first with
  | nil =>
    obtain ⟨b, b', hfirst, hb, hb'⟩ := Text.exists_eq_append_trim first
    have hlast : Spells [Text.trim first] (b ++ Text.trim first ++ b') := .last hb hb'
    rw [← hfirst] at hlast
    rwa [List.flatMap_nil, List.append_nil]
  | cons part rest ih =>
    obtain ⟨b, b', hfirst, hb, hb'⟩ := Text.exists_eq_append_trim first
    have hcons := Spells.cons (x := Text.trim first) hb hb' (ih part)
    rwa [← hfirst] at hcons

end Spells

theorem splitDots_join (s : List Char) :
    (splitDots s).1 ++ (splitDots s).2.flatMap ('.' :: ·) = s := by
  induction s with
  | nil => rfl
  | cons c s ih =>
    rw [splitDots]
    generalize splitDots s = parts at ih ⊢
    obtain ⟨first, rest⟩ := parts
    simp only
    split
    · next hc =>
      rw [List.nil_append, List.flatMap_cons, List.cons_append, ih, hc]
    · rw [List.cons_append, ih]

/-- The words that are literals. -/
def literalWords : List (List Char) := ["null".toList, "true".toList, "false".toList]

theorem isIdentifier_of_mem_literalWords : ∀ s ∈ literalWords, isIdentifier s = true := by decide

/-- How an expression is spelled that has no blanks at its ends. -/
inductive Spelling : List Char → PathExpr → Prop
  | quoted (v : Value) {s : List Char} (hs : '"' ∉ s) :
      Spelling ('"' :: s ++ ['"']) (.literal v)
  | word (v : Value) {s : List Char} (hs : s ∈ literalWords) : Spelling s (.literal v)
  | number (v : Value) {s : List Char} (hs : Decimal.Numeral s) : Spelling s (.literal v)
  | negative (v : Value) {s : List Char} (hs : Decimal.Numeral s) :
      Spelling ('-' :: s) (.literal v)
  | numberWord (v : Value) {s : List Char} (hs : Decimal.IsNumberWord s) :
      Spelling ('-' :: s) (.literal v)
  | path {root : List Char} {fields : List (List Char)} {s : List Char}
      (hroot : isIdentifier root = true) (hfields : ∀ x ∈ fields, isIdentifier x = true)
      (hs : Spells (root :: fields) s) :
      Spelling s (.path (String.ofList root) (fields.map String.ofList))

theorem spelling_of_readPath {s : List Char} {p : PathExpr} (h : readPath s = .ok p) :
    Spelling s p := by
  have hspells := Spells.of_join (splitDots s).1 (splitDots s).2
  rw [splitDots_join] at hspells
  rw [readPath] at h
  generalize splitDots s = parts at h hspells
  obtain ⟨first, rest⟩ := parts
  simp only at h
  split at h
  · next hid =>
    rw [Bool.and_eq_true, List.all_eq_true] at hid
    cases h
    exact .path hid.1 hid.2 hspells
  · cases h

theorem eq_of_unquote? {s inner : List Char} (h : unquote? s = some inner) :
    s = '"' :: inner ++ ['"'] := by
  rw [unquote?.eq_def] at h
  split at h
  · next t =>
    split at h
    · next hlast =>
      cases h
      obtain ⟨inner, rfl⟩ := List.getLast?_eq_some_iff.1 hlast
      rw [List.dropLast_concat, List.cons_append]
    · cases h
  · cases h

/-- A text that starts like a number and is spelled like one is no word. -/
theorem spelling_of_signed {s : List Char} (v : Value) (hs : startsLikeNumber s = true)
    (h : Decimal.Numeral (Decimal.splitSign s).2 ∨
      Decimal.IsNumberWord (Decimal.splitSign s).2) : Spelling s (.literal v) := by
  obtain ⟨c, t, rfl⟩ : ∃ c t, s = c :: t := by
    cases s with
    | nil => cases hs
    | cons c t => exact ⟨c, t, rfl⟩
  rw [startsLikeNumber, Bool.or_eq_true, decide_eq_true_eq] at hs
  rcases Decimal.splitSign_eq (c :: t) with hsign | ⟨sign, hsign, ht⟩
  · rw [hsign] at h
    refine .number v (h.resolve_right fun hword => ?_)
    have hstart := isIdentifier_of_isNumberWord hword
    rw [isIdentifier, Bool.and_eq_true] at hstart
    rcases hs with hdigit | rfl
    · rw [not_isIdentifierStart_of_isDigit hdigit] at hstart
      exact Bool.false_ne_true hstart.1
    · exact absurd hstart.1 (by decide)
  · generalize (Decimal.splitSign (c :: t)).2 = u at h ht
    cases ht
    obtain rfl : c = '-' := by
      rcases hsign with rfl | rfl
      · revert hs
        decide
      · rfl
    rcases h with h | h
    · exact .negative v h
    · exact .numberWord v h

theorem spelling_of_readNumber {s : List Char} {p : PathExpr} (hs : startsLikeNumber s = true)
    (h : readNumber s = .ok p) : Spelling s p := by
  rw [readNumber] at h
  split at h
  · next n hn =>
    cases h
    exact spelling_of_signed _ hs (.inl (Decimal.numeral_of_readInt64? hn))
  · split at h
    · next x hx =>
      cases h
      exact spelling_of_signed _ hs (Decimal.numeral_or_word_of_readFloat? hx)
    · cases h

/-- **What is read is spelled so.** -/
theorem spelling_of_read {e : String} {p : PathExpr} (h : read e = .ok p) :
    Spelling (Text.trim e.toList) p := by
  rw [read] at h
  split at h
  · cases h
  · split at h
    · next inner hinner =>
      split at h
      · cases h
      · next hquote =>
        cases h
        rw [eq_of_unquote? hinner]
        exact .quoted _ (by simpa using hquote)
    · split at h
      · next hword =>
        cases h
        exact .word _ (by rw [hword]; decide)
      · split at h
        · next hword =>
          cases h
          exact .word _ (by rw [hword]; decide)
        · split at h
          · next hword =>
            cases h
            exact .word _ (by rw [hword]; decide)
          · split at h
            · next hstarts => exact spelling_of_readNumber hstarts h
            · exact spelling_of_readPath h

end PathExpr
end RuleAggregate
