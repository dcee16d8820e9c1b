import RuleAggregate.Proofs.Code.Mentions
import RuleAggregate.Proofs.Code.Splitting
import RuleAggregate.Proofs.Path.Spelling

/-!
# What path expressions mention

An argument is read twice: by the analyzer, which splits it into tokens, and by the compiler of
paths, which looks for dots and blanks.  They agree on paths, whose root is the only name that is
mentioned.  A literal mentions nothing, unless it is spelled by a word: the analyzer knows no words
of its own, so it takes `true` for a name, and in `-inf` it finds a name after a sign.

## What is here

* `PathExpr.literalWord?` — the word that a literal is spelled by.
* `PathExpr.mentioned?`, `PathExpr.names_of_read` — **the name that an expression mentions.**
* `References.IsOf` — what is reported of a single name.
* `PathExpr.isOf_of_path`, `PathExpr.isOf_of_literal`, `PathExpr.references_of_literal` — the
  reports of paths and of literals.
-/

set_option autoImplicit false

namespace RuleAggregate

open Fragment

namespace PathExpr

/-- The word that a literal is spelled by, blanks at its ends apart: the name of a number comes
after a minus sign. -/
def literalWord? : List Char → Option String
  | '-' :: s => if Decimal.IsNumberWord s then some (String.ofList s) else none
  | s => if s ∈ literalWords then some (String.ofList s) else none

/-- The name that an expression mentions. -/
def mentioned? (e : String) : PathExpr → Option String
  | path root _ => some root
  | literal _ => literalWord? (Text.trim e.toList)

/-! ## Paths -/

/-- The names after a dot are members. -/
theorem mentionsExactly_members {xs : List (List Char)} {s : List Char} (h : Spells xs s)
    (hxs : ∀ x ∈ xs, isIdentifier x = true) : MentionsExactly true s [] := by
  induction h with
  | @last x b b' hb hb' =>
    rw [List.append_assoc]
    exact .blanks hb (.member (hxs x List.mem_cons_self) (endsName_of_allBlank hb')
      (mentionsExactly_blanks hb'))
  | @cons x b b' s xs hb hb' _ ih =>
    obtain ⟨hx, hxs⟩ := List.forall_mem_cons.1 hxs
    rw [List.append_assoc, List.append_assoc]
    exact .blanks hb (.member hx (endsName_before_dot hb' s) (.blanks hb' (.dot (ih hxs))))

/-- **A path mentions its root**, and nothing else. -/
theorem mentionsExactly_path {root : List Char} {fields : List (List Char)} {s : List Char}
    (h : Spells (root :: fields) s) (hroot : isIdentifier root = true)
    (hfields : ∀ x ∈ fields, isIdentifier x = true) :
    MentionsExactly false s [String.ofList root] := by
  cases h with
  | @last _ b b' hb hb' =>
    rw [List.append_assoc]
    exact .blanks hb
      (.identifier hroot (endsName_of_allBlank hb') (mentionsExactly_blanks hb'))
  | @cons _ b b' s _ hb hb' h =>
    rw [List.append_assoc, List.append_assoc]
    exact .blanks hb (.identifier hroot (endsName_before_dot hb' s)
      (.blanks hb' (.dot (mentionsExactly_members h hfields))))

/-! ## Literals -/

/-- A word mentions itself. -/
theorem mentionsExactly_word {s b : List Char} (hs : isIdentifier s = true)
    (hb : Text.AllBlank b) : MentionsExactly false (s ++ b) [String.ofList s] :=
  .identifier hs (endsName_of_allBlank hb) (mentionsExactly_blanks hb)

theorem literalWord?_of_mem {s : List Char} (hs : s ∈ literalWords) :
    literalWord? s = some (String.ofList s) := by
  have hall : ∀ s ∈ literalWords, literalWord? s = some (String.ofList s) := by decide
  exact hall s hs

theorem literalWord?_of_numeral {s : List Char} (hs : Decimal.Numeral s) :
    literalWord? s = none := by
  have hid := not_isIdentifier_of_numeral hs
  rw [literalWord?.eq_def]
  split
  · obtain ⟨c, t, hc, hstart⟩ := hs.exists_cons
    cases hc
    exact absurd hstart (by decide)
  · refine if_neg fun hmem => ?_
    rw [isIdentifier_of_mem_literalWords s hmem] at hid
    cases hid

theorem literalWord?_of_negative {s : List Char} (hs : Decimal.Numeral s) :
    literalWord? ('-' :: s) = none := by
  refine if_neg fun hword => ?_
  have hid := isIdentifier_of_isNumberWord hword
  rw [not_isIdentifier_of_numeral hs] at hid
  cases hid

/-- **What an expression mentions**, read off how it is spelled. -/
theorem mentionsExactly_of_spelling {e : String} {p : PathExpr}
    (h : Spelling (Text.trim e.toList) p) :
    MentionsExactly false e.toList (mentioned? e p).toList := by
  obtain ⟨b, b', he, hb, hb'⟩ := Text.exists_eq_append_trim e.toList
  have hquote : '"' ∉ b' := fun hmem => absurd (hb' _ hmem) (by decide)
  rw [he, List.append_assoc]
  refine .blanks hb ?_
  rw [mentioned?.eq_def]
  generalize Text.trim e.toList = s at h
  cases h with
  | quoted v hs => exact .quoted hs hquote (mentionsExactly_blanks hb')
  | word v hs =>
    rw [literalWord?_of_mem hs]
    exact mentionsExactly_word (isIdentifier_of_mem_literalWords s hs) hb'
  | number v hs =>
    rw [literalWord?_of_numeral hs]
    exact mentionsExactly_numeral hs hb'
  | negative v hs =>
    rw [literalWord?_of_negative hs]
    exact mentionsExactly_negative hs hb'
  | @numberWord v s hs =>
    rw [literalWord?, if_pos hs]
    have hid := isIdentifier_of_isNumberWord hs
    have hword := mentionsExactly_word hid hb'
    cases s with
    | nil => cases hid
    | cons d s =>
      rw [isIdentifier, Bool.and_eq_true] at hid
      exact .sign (.inr rfl) (.inl (isIdentifierPart_of_isIdentifierStart hid.1)) hword
  | path hroot hfields hs => exact mentionsExactly_path (hs.append hb') hroot hfields

/-- **What an expression mentions.** -/
theorem names_of_read {e : String} {p : PathExpr} (h : read e = .ok p) {ts : List Token}
    (hts : tokens e.toList = .ok ts) :
    Fragment.names (e, .expression) = (mentioned? e p).toList := by
  rw [Fragment.names, hts]
  exact mentionsExactly_of_spelling (spelling_of_read h) 0 ts hts

end PathExpr

/-! ## Reports -/

/-- What is reported if a single name is mentioned: a declaration if there is one, else a global if
there is one, and else nothing. -/
structure References.IsOf (r : References) (available : Available) (name : String) : Prop where
  names : r.names = if available.declarations.contains name then [name] else []
  globals : r.globals.entries =
    if available.declarations.contains name then []
    else ((available.globals.get? name).map (name, ·)).toList

theorem References.Report.isOf {r : References} {available : Available} {name : String}
    (h : r.Report available [name]) : r.IsOf available name := by
  constructor
  · rw [References.names, h.declarations.keys_eq, eraseDups_singleton, List.filter_singleton,
      Available.declaration?]
    split <;> rfl
  · rw [h.globals, eraseDups_singleton, List.filterMap_cons, List.filterMap_nil, Available.global?]
    by_cases hd : available.declarations.contains name = true
    · simp only [if_pos hd, Option.map_none]
    · simp only [if_neg hd]
      cases available.globals.get? name <;> rfl

theorem References.Report.eq_empty_of_nil {r : References} {available : Available}
    (h : r.Report available []) : r = .empty := by
  obtain ⟨declarations, globals⟩ := r
  exact congr (congrArg References.mk (OrderedMap.ext_entries h.declarations))
    (OrderedMap.ext_entries h.globals)

namespace PathExpr

variable {e : String} {available : Available} {a : Analysis}

/-- **The analyzer reports the name that the expression mentions.** -/
theorem report_of_read {p : PathExpr} (ha : Analyzer.lexical e .expression available = .ok a)
    (hp : read e = .ok p) : a.references.Report available (mentioned? e p).toList := by
  obtain ⟨hreport, ts, hts, -⟩ := Analyzer.report_of_lexical (f := (e, .expression)) ha
  rwa [names_of_read hp hts] at hreport

/-- Of a path, the root is reported. -/
theorem isOf_of_path {root : String} {fields : List String}
    (ha : Analyzer.lexical e .expression available = .ok a)
    (hp : read e = .ok (.path root fields)) : a.references.IsOf available root :=
  (report_of_read ha hp).isOf

/-- Of a literal, the word that spells it is reported. -/
theorem isOf_of_literal {v : Value} {word : String}
    (ha : Analyzer.lexical e .expression available = .ok a) (hp : read e = .ok (.literal v))
    (hword : literalWord? (Text.trim e.toList) = some word) :
    a.references.IsOf available word := by
  have hreport := report_of_read ha hp
  rw [mentioned?, hword] at hreport
  exact hreport.isOf

/-- Of a literal that no word spells, nothing is reported. -/
theorem references_of_literal {v : Value} (ha : Analyzer.lexical e .expression available = .ok a)
    (hp : read e = .ok (.literal v)) (hword : literalWord? (Text.trim e.toList) = none) :
    a.references = .empty := by
  have hreport := report_of_read ha hp
  rw [mentioned?, hword] at hreport
  exact hreport.eq_empty_of_nil

end PathExpr
end RuleAggregate
