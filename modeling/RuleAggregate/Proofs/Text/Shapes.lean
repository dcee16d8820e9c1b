import RuleAggregate.Text.Regex

/-!
# What the texts of an expression look like

Some facts about all texts that an expression matches can be read off the expression: which
characters they hold, and that none of them goes on to another one.

## What is here

* `CharClass.contains_single_iff`, `CharClass.contains_ofString`, `CharClass.contains_except` —
  the characters of a class.
* `Regex.matches_literal_iff`, `Regex.matches_choice_iff`, `Regex.matches_star_char_iff` — the
  texts of the simplest expressions.
* `Regex.holds`, `Regex.listed?` — the characters that a text may hold, and a list of them.
* `Regex.eq_nil_of_matches_append` — **no text goes on to another one**, if the states that an
  expression runs through end together with it.
-/

set_option autoImplicit false

namespace RuleAggregate

namespace CharClass

theorem contains_range (c d : Char) :
    (decide (d ≤ c) && decide (c ≤ d)) = decide (c = d) := by
  rw [Bool.eq_iff_iff, Bool.and_eq_true, decide_eq_true_eq, decide_eq_true_eq, decide_eq_true_eq]
  exact ⟨fun h => Char.le_antisymm h.2 h.1, fun h => h ▸ ⟨Char.le_refl _, Char.le_refl _⟩⟩

theorem contains_single_iff {c d : Char} : (single d).contains c = true ↔ c = d := by
  simp [single, contains, contains_range]

theorem contains_ofString (s : String) (c : Char) :
    (ofString s).contains c = decide (c ∈ s.toList) := by
  rw [Bool.eq_iff_iff]
  simp [ofString, contains, contains_range]

theorem contains_except (s : String) (c : Char) :
    (except s).contains c = decide (c ∉ s.toList) := by
  have hnot : (except s).contains c = !(ofString s).contains c := by
    simp [except, ofString, contains]
  rw [hnot, contains_ofString, decide_not]

end CharClass

namespace Regex

variable {r : Regex} {c : Char} {t v : List Char}

theorem matches_literal_iff {s : String} : Matches (literal s) t ↔ t = s.toList := by
  rw [literal]
  generalize s.toList = l
  induction l generalizing t with
  | nil => exact matches_empty_iff
  | cons c l ih =>
    rw [List.foldr_cons, matches_andThen_iff, matches_seq_iff]
    constructor
    · rintro ⟨u, w, rfl, hu, hw⟩
      obtain ⟨d, hd, rfl⟩ := matches_char_iff.1 hu
      rw [CharClass.contains_single_iff.1 hd, ih.1 hw]
      rfl
    · rintro rfl
      exact ⟨[c], l, rfl, .char (CharClass.contains_single_iff.2 rfl), ih.2 rfl⟩

theorem matches_choice_iff {rs : List Regex} : Matches (choice rs) t ↔ ∃ r ∈ rs, Matches r t := by
  induction rs with
  | nil => exact iff_of_false not_matches_never (by simp)
  | cons r rs ih =>
    rw [choice, List.foldr_cons, matches_orElse_iff, ← choice, ih]
    simp only [List.mem_cons, exists_eq_or_imp]

theorem matches_star_char_iff {k : CharClass} :
    Matches (star (char k)) t ↔ ∀ c ∈ t, k.contains c = true := by
  induction t with
  | nil => exact ⟨fun _ => nofun, fun _ => .starNil⟩
  | cons c t ih =>
    rw [matches_star_cons_iff, List.forall_mem_cons, ← ih]
    constructor
    · rintro ⟨u, w, rfl, hu, hw⟩
      obtain ⟨d, hd, heq⟩ := matches_char_iff.1 hu
      cases heq
      exact ⟨hd, hw⟩
    · rintro ⟨hc, ht⟩
      exact ⟨[], t, rfl, .char hc, ht⟩

/-- Whether a text that matches may hold the character. -/
def holds (c : Char) : Regex → Bool
  | never => false
  | empty => false
  | char k => k.contains c
  | seq r s => holds c r || holds c s
  | alt r s => holds c r || holds c s
  | star r => holds c r

theorem holds_of_mem (h : Matches r t) (hc : c ∈ t) : r.holds c = true := by
  induction h with
  | empty => cases hc
  | char h =>
    obtain rfl := List.mem_singleton.1 hc
    exact h
  | seq ht hu iht ihu =>
    rw [holds, Bool.or_eq_true]
    exact (List.mem_append.1 hc).imp iht ihu
  | altLeft h ih => rw [holds, ih hc, Bool.true_or]
  | altRight h ih => rw [holds, ih hc, Bool.or_true]
  | starNil => cases hc
  | starCons ht hu iht ihu => exact (List.mem_append.1 hc).elim iht ihu

/-- The characters that a text may hold, if no class of the expression has to be asked. -/
def listed? : Regex → Option (List Char)
  | never => some []
  | empty => some []
  | char k =>
    if !k.negated && k.ranges.all fun p => p.1 == p.2 then some (k.ranges.map Prod.fst) else none
  | seq r s => do return (← listed? r) ++ (← listed? s)
  | alt r s => do return (← listed? r) ++ (← listed? s)
  | star r => listed? r

theorem mem_of_holds {l : List Char} (h : r.listed? = some l) (hc : r.holds c = true) : c ∈ l := by
  induction r generalizing l with
  | never => cases hc
  | empty => cases hc
  | char k =>
    rw [listed?, Option.ite_none_right_eq_some, Bool.and_eq_true, Bool.not_eq_true',
      List.all_eq_true] at h
    obtain ⟨⟨hnegated, hpairs⟩, heq⟩ := h
    cases heq
    rw [holds, CharClass.contains, hnegated, Bool.bne_false, List.any_eq_true] at hc
    obtain ⟨p, hp, hbounds⟩ := hc
    rw [← beq_iff_eq.1 (hpairs p hp), CharClass.contains_range, decide_eq_true_eq] at hbounds
    exact List.mem_map.2 ⟨p, hp, hbounds.symm⟩
  | seq r s ihr ihs | alt r s ihr ihs =>
    obtain ⟨l₁, h₁, h⟩ := Option.bind_eq_some_iff.1 h
    obtain ⟨l₂, h₂, h⟩ := Option.bind_eq_some_iff.1 h
    cases h
    rw [holds, Bool.or_eq_true] at hc
    exact List.mem_append.2 (hc.imp (ihr h₁) (ihs h₂))
  | star r ih => exact ih h hc

/-- **No text goes on to another one** if every state is over once it may be. -/
theorem eq_nil_of_matches_append {S : Regex → Prop} (hS : ∀ r, S r → ∀ c, S (r.derivative c))
    (hover : ∀ r, S r → r.nullable = true → r = empty) (hr : S r) (ht : Matches r t)
    (htv : Matches r (t ++ v)) : v = [] := by
  induction t generalizing r with
  | nil =>
    obtain rfl := hover r hr (nullable_iff.2 ht)
    exact matches_empty_iff.1 htv
  | cons c t ih =>
    exact ih (hS r hr c) (matches_derivative_iff.2 ht) (matches_derivative_iff.2 htv)

end Regex
end RuleAggregate
