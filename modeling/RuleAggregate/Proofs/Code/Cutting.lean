import RuleAggregate.Proofs.Code.Comments

/-!
# Where texts can be joined

When something else comes to stand behind a text, its tokens stay as they are unless one of them
goes on with it.  Hoisting puts a semicolon behind a token, or a name where a statement starts, and
the only tokens that hold such a character along with what precedes it are strings and comments.
Strings and comments that were closed before stay so.  What is left is a slash that stands before a
star and opened no comment because the comment would not have ended: nothing that comes to stand
behind it may end it.

## What is here

* `Fragment.Ends`, `Fragment.EndsToo` — texts in which a comment ends, and in which it ends if it
  ends in another one.
* `Fragment.matches_identifier_iff`, `Fragment.matches_lineComment_iff`,
  `Fragment.matches_blockComment_iff`, `Fragment.matches_quoted_iff` — the texts of some kinds of
  token.
* `Fragment.exists_delimiter`, `Fragment.eq_of_holds_delimiter` — the characters that keep names
  apart.
* `Fragment.Joint` — a semicolon, or a name in place of a name.
* `Fragment.Reads.of_joint` — **tokens stay as they are before a joint.**
-/

set_option autoImplicit false

namespace RuleAggregate
namespace Fragment

variable {k : TokenKind} {t u v w s s' : List Char} {c d q : Char} {x : Lexeme} {xs : List Lexeme}
  {starred : Bool}

/-! ## Comments that end -/

/-- A comment that is open before the text ends in it. -/
def Ends (starred : Bool) (s : List Char) : Prop := (closing? starred s).isSome = true

theorem not_ends_nil : ¬ Ends starred [] := nofun

theorem ends_cons_iff :
    Ends starred (c :: s) ↔ (starred = true ∧ c = '/') ∨ Ends (!starred && c == '*') s := by
  rw [Ends, Ends, closing?]
  split
  · next h => simp [h]
  · next h => simp [h]

/-- After a character other than a star and a slash it does not matter what was before. -/
theorem ends_cons_iff_of_ne (hstar : c ≠ '*') (hslash : c ≠ '/') :
    Ends starred (c :: s) ↔ Ends false s := by
  rw [ends_cons_iff, beq_false_of_ne hstar, Bool.and_false]
  exact or_iff_right fun h => hslash h.2

/-- It does not matter what was before either if the text does not start with a star. -/
theorem ends_of_ends_false (hs : s.head? ≠ some '*') (h : Ends false s) : Ends starred s := by
  rcases s with - | ⟨c, s⟩
  · exact absurd h not_ends_nil
  · by_cases hslash : c = '/'
    · cases starred with
      | false => exact h
      | true => exact ends_cons_iff.2 (.inl ⟨rfl, hslash⟩)
    · have hstar : c ≠ '*' := fun hc => hs (congrArg some hc)
      rw [ends_cons_iff_of_ne hstar hslash] at h ⊢
      exact h

theorem ends_append (h : ∀ starred, Ends starred s) (t : List Char) : Ends starred (t ++ s) := by
  induction t generalizing starred with
  | nil => exact h starred
  | cons c t ih => exact ends_cons_iff.2 (.inr ih)

theorem ends_false_iff : Ends false s ↔ ∃ u, u <+: s ∧ insideComment.Matches u := by
  rw [Ends, ← (longest?_comment s).1]
  constructor
  · intro h
    obtain ⟨n, hn⟩ := Option.isSome_iff_exists.1 h
    exact ⟨s.take n, List.take_prefix n s, (Regex.matches_of_longest? hn).2⟩
  · rintro ⟨u, hu, hmatches⟩
    rw [List.prefix_iff_eq_take.1 hu] at hmatches
    obtain ⟨n, hn, -⟩ := Regex.le_longest?_of_matches hu.length_le hmatches
    rw [hn]
    rfl

/-- A comment that is open before the texts ends in the first one if it ends in the second one. -/
def EndsToo (s s' : List Char) : Prop := ∀ starred, Ends starred s' → Ends starred s

namespace EndsToo

theorem refl (s : List Char) : EndsToo s s := fun _ h => h

theorem append (h : EndsToo s s') (t : List Char) : EndsToo (t ++ s) (t ++ s') := by
  induction t with
  | nil => exact h
  | cons c t ih =>
    intro starred hc
    exact ends_cons_iff.2 ((ends_cons_iff.1 hc).imp_right (ih _))

/-- A semicolon can take the place of a text. -/
theorem semicolon (h : EndsToo s s') (ht : (∃ u c, t = u ++ [c] ∧ c ≠ '*' ∧ c ≠ '/') ∨
    s.head? ≠ some '*') : EndsToo (t ++ s) (';' :: s') := by
  intro starred hs'
  have hends := h false ((ends_cons_iff_of_ne (by decide) (by decide)).1 hs')
  rcases ht with ⟨u, c, rfl, hstar, hslash⟩ | hs
  · rw [List.append_assoc]
    exact ends_append (fun _ => (ends_cons_iff_of_ne hstar hslash).2 hends) u
  · exact ends_append (fun _ => ends_of_ends_false hs hends) t

end EndsToo

/-! ## Kinds of token -/

theorem matches_identifier_iff :
    TokenKind.identifier.shape.Matches t ↔ isIdentifier t = true := by
  have hfirst : ∀ c,
      CharClass.contains ⟨false, [('A', 'Z'), ('a', 'z'), ('_', '_'), ('$', '$')]⟩ c =
        isIdentifierStart c := by
    intro c
    simp only [CharClass.contains, List.any_cons, List.any_nil, CharClass.contains_range,
      isIdentifierStart, Bool.or_false, Bool.bne_false]
    ac_rfl
  rw [TokenKind.shape, Regex.matches_andThen_iff, Regex.matches_seq_iff]
  simp only [Regex.matches_char_iff, Regex.matches_star_char_iff, hfirst,
    CharClass.contains_identifierRest]
  constructor
  · rintro ⟨_, u, rfl, ⟨c, hc, rfl⟩, hu⟩
    rw [List.singleton_append, isIdentifier, hc, Bool.true_and, List.all_eq_true]
    exact hu
  · intro h
    rcases t with - | ⟨c, u⟩
    · cases h
    · rw [isIdentifier, Bool.and_eq_true, List.all_eq_true] at h
      exact ⟨[c], u, rfl, ⟨c, h.1, rfl⟩, h.2⟩

theorem Takes.identifierStart (h : Takes .identifier t s) :
    ∃ c u, t = c :: u ∧ isIdentifierStart c = true := by
  have ht := matches_identifier_iff.1 h.shape_matches
  rcases t with - | ⟨c, u⟩
  · cases ht
  · rw [isIdentifier, Bool.and_eq_true] at ht
    exact ⟨c, u, rfl, ht.1⟩

/-- No name follows another one at once. -/
theorem Takes.not_identifierStart (h : Takes .identifier t (c :: s)) :
    isIdentifierStart c = false := by
  rw [← Bool.not_eq_true]
  intro hc
  refine h.noLonger .identifier [c] (by simp) ⟨s, rfl⟩ (matches_identifier_iff.2 ?_)
  obtain ⟨b, u, rfl, -⟩ := h.identifierStart
  have ht := matches_identifier_iff.1 h.shape_matches
  rw [isIdentifier, Bool.and_eq_true] at ht
  simp [isIdentifier, ht.1, ht.2, isIdentifierPart_of_isIdentifierStart hc]

theorem matches_lineComment_iff :
    TokenKind.lineComment.shape.Matches t ↔ ∃ u, t = '/' :: '/' :: u ∧ '\n' ∉ u := by
  have hclass : ∀ u : List Char,
      (∀ c ∈ u, (CharClass.except "\n").contains c = true) ↔ '\n' ∉ u := by
    intro u
    simp only [CharClass.contains_except, decide_eq_true_iff]
    exact ⟨fun h hu => h _ hu (by decide), fun h c hc hn => h (by simp at hn; exact hn ▸ hc)⟩
  rw [TokenKind.shape, Regex.matches_andThen_iff, Regex.matches_seq_iff]
  simp only [Regex.matches_literal_iff, Regex.matches_star_char_iff, hclass]
  constructor
  · rintro ⟨_, u, rfl, rfl, hu⟩
    exact ⟨u, rfl, hu⟩
  · rintro ⟨u, rfl, hu⟩
    exact ⟨['/', '/'], u, rfl, rfl, hu⟩

theorem matches_blockComment_iff :
    TokenKind.blockComment.shape.Matches t ↔
      ∃ u, t = '/' :: '*' :: u ∧ insideComment.Matches u := by
  have hinside : ∀ u, TokenKind.blockComment.shape.Matches ('/' :: '*' :: u) ↔
      insideComment.Matches u := by
    intro u
    rw [← derivative_blockComment, Regex.matches_derivative_iff, Regex.matches_derivative_iff]
  constructor
  · intro h
    obtain ⟨u, rfl⟩ : ∃ u, t = '/' :: '*' :: u := by
      rw [TokenKind.shape, Regex.sequence, List.foldr_cons, Regex.matches_andThen_iff,
        Regex.matches_seq_iff] at h
      obtain ⟨_, u, rfl, hmark, -⟩ := h
      rw [Regex.matches_literal_iff.1 hmark]
      exact ⟨u, rfl⟩
    exact ⟨u, rfl, (hinside u).1 h⟩
  · rintro ⟨u, rfl, hu⟩
    exact (hinside u).2 hu

/-- What follows the opening mark of a comment ends with the first text that closes it. -/
theorem eq_nil_of_matches_insideComment (hu : insideComment.Matches u)
    (huv : insideComment.Matches (u ++ v)) : v = [] := by
  refine Regex.eq_nil_of_matches_append
    (S := fun r => r ∈ [insideComment, afterStar, .empty, .never]) ?_ ?_ ?_ hu huv
  · intro r hr c
    simp only [List.mem_cons, List.not_mem_nil, or_false] at hr
    rcases hr with rfl | rfl | rfl | rfl
    · rw [derivative_insideComment]
      split <;> simp
    · rw [derivative_afterStar]
      split <;> simp
    · simp [Regex.derivative]
    · simp [Regex.derivative]
  · decide
  · simp

/-- A character between quotes, or a backslash with the character after it. -/
def quotedPiece (q : Char) : Regex :=
  .alt (.char ⟨true, [(q, q), ('\\', '\\')]⟩) (.seq (.char (.single '\\')) (.char (.except "\n")))

/-- What may follow the first quote. -/
def insideQuotes (q : Char) : Regex := .seq (.star (quotedPiece q)) (.char (.single q))

/-- What may follow a backslash between quotes. -/
def afterBackslash (q : Char) : Regex :=
  .seq (.seq (.char (.except "\n")) (.star (quotedPiece q))) (.char (.single q))

/-- The states that a quoted text runs through. -/
def quotedStates (q : Char) : List Regex := [insideQuotes q, afterBackslash q, .empty, .never]

theorem derivative_insideQuotes (hq : q = '"' ∨ q = '\'') (c : Char) :
    (insideQuotes q).derivative c ∈ quotedStates q := by
  by_cases hquote : c = q
  · rcases hq with rfl | rfl
    all_goals
      rw [hquote]
      decide
  · by_cases hbackslash : c = '\\'
    · rcases hq with rfl | rfl
      all_goals
        rw [hbackslash]
        decide
    · have hclass : CharClass.contains ⟨true, [(q, q), ('\\', '\\')]⟩ c = true := by
        simp [CharClass.contains, CharClass.contains_range, hquote, hbackslash]
      have hsingle : (CharClass.single '\\').contains c = false := by
        rw [← Bool.not_eq_true, CharClass.contains_single_iff]
        exact hbackslash
      have hend : (CharClass.single q).contains c = false := by
        rw [← Bool.not_eq_true, CharClass.contains_single_iff]
        exact hquote
      rw [insideQuotes, quotedPiece]
      simp only [Regex.derivative, Regex.nullable, hclass, hsingle, hend, if_true, if_false,
        Bool.false_eq_true]
      rcases hq with rfl | rfl
      all_goals decide

theorem derivative_afterBackslash (hq : q = '"' ∨ q = '\'') (c : Char) :
    (afterBackslash q).derivative c ∈ quotedStates q := by
  have hclass : (CharClass.except "\n").contains c = decide (c ≠ '\n') := by
    rw [CharClass.contains_except]
    simp
  rw [afterBackslash]
  simp only [Regex.derivative, Regex.nullable, hclass, Bool.false_and, if_false,
    Bool.false_eq_true]
  by_cases h : c = '\n'
  · simp only [h, ne_eq, not_true, decide_false, if_false, Bool.false_eq_true]
    rcases hq with rfl | rfl
    all_goals decide
  · simp only [h, ne_eq, not_false_eq_true, decide_true, if_true]
    rcases hq with rfl | rfl
    all_goals decide

/-- What follows the first quote ends with the first text that closes it. -/
theorem eq_nil_of_matches_insideQuotes (hq : q = '"' ∨ q = '\'') (hu : (insideQuotes q).Matches u)
    (huv : (insideQuotes q).Matches (u ++ v)) : v = [] := by
  refine Regex.eq_nil_of_matches_append (S := fun r => r ∈ quotedStates q) ?_ ?_ ?_ hu huv
  · intro r hr c
    simp only [quotedStates, List.mem_cons, List.not_mem_nil, or_false] at hr
    rcases hr with rfl | rfl | rfl | rfl
    · exact derivative_insideQuotes hq c
    · exact derivative_afterBackslash hq c
    · simp [Regex.derivative, quotedStates]
    · simp [Regex.derivative, quotedStates]
  · rcases hq with rfl | rfl
    all_goals decide
  · simp [quotedStates]

theorem matches_quoted (h : TokenKind.quoted.shape.Matches t) :
    ∃ q u, (q = '"' ∨ q = '\'') ∧ t = q :: u := by
  rw [TokenKind.shape, Regex.matches_orElse_iff] at h
  rcases h with h | h
  · obtain ⟨u, rfl⟩ := eq_of_matches_quotedBy h
    exact ⟨_, _, .inl rfl, rfl⟩
  · obtain ⟨u, rfl⟩ := eq_of_matches_quotedBy h
    exact ⟨_, _, .inr rfl, rfl⟩

theorem matches_quoted_iff (hq : q = '"' ∨ q = '\'') :
    TokenKind.quoted.shape.Matches (q :: u) ↔ (insideQuotes q).Matches u := by
  have hderivative : TokenKind.quoted.shape.derivative q = insideQuotes q := by
    rcases hq with rfl | rfl
    all_goals decide
  rw [← hderivative, Regex.matches_derivative_iff]

/-- The characters that neither names nor numbers hold, and that blanks, comments and the tokens
after which statements start hold. -/
def delimiters : List Char := skippedChars ++ [';', '{', '}', '/']

theorem exists_delimiter (h : k.shape.Matches t)
    (hk : k.isTrivia = true ∨ k.opensStatement = true) : ∃ e ∈ t, e ∈ delimiters := by
  have hchar : ∀ {b : Char}, (Regex.char (.single b)).Matches t → b ∈ delimiters →
      ∃ e ∈ t, e ∈ delimiters := by
    intro b h hb
    obtain ⟨e, he, rfl⟩ := Regex.matches_char_iff.1 h
    rw [CharClass.contains_single_iff.1 he]
    exact ⟨b, List.mem_singleton_self b, hb⟩
  rcases k with _ | _ | _ | _ | _ | _ | _ | _ | _ | _ | b | b | _ | _ | _ | _
  case blank =>
    rw [TokenKind.shape, Regex.plus, Regex.matches_andThen_iff, Regex.matches_seq_iff] at h
    obtain ⟨u, w, rfl, hu, -⟩ := h
    obtain ⟨e, he, rfl⟩ := Regex.matches_char_iff.1 hu
    rw [CharClass.contains_ofString, decide_eq_true_iff] at he
    exact ⟨e, List.mem_cons_self, List.mem_append_left _ he⟩
  case lineComment =>
    obtain ⟨u, rfl, -⟩ := matches_lineComment_iff.1 h
    exact ⟨'/', by simp, by decide⟩
  case blockComment =>
    obtain ⟨u, rfl, -⟩ := matches_blockComment_iff.1 h
    exact ⟨'/', by simp, by decide⟩
  case semicolon => exact hchar h (by decide)
  case opener =>
    cases b with
    | curly => exact hchar h (by decide)
    | round | square => simp [TokenKind.isTrivia, TokenKind.opensStatement] at hk
  case closer =>
    cases b with
    | curly => exact hchar h (by decide)
    | round | square => simp [TokenKind.isTrivia, TokenKind.opensStatement] at hk
  all_goals simp [TokenKind.isTrivia, TokenKind.opensStatement] at hk

/-- Apart from semicolons, only strings and comments hold semicolons. -/
theorem eq_of_holds_semicolon (h : k.shape.holds ';' = true) :
    k = .semicolon ∨ k = .quoted ∨ k = .lineComment ∨ k = .blockComment := by
  have hall : ∀ k ∈ TokenKind.all, k.shape.holds ';' = true →
      k = .semicolon ∨ k = .quoted ∨ k = .lineComment ∨ k = .blockComment := by
    decide
  exact hall k k.mem_all h

/-- Only strings and comments hold characters of names and delimiters. -/
theorem eq_of_holds_delimiter (hd : isIdentifierStart d = true) (hc : c ∈ delimiters)
    (h : k.shape.holds d = true) (h' : k.shape.holds c = true) :
    k = .quoted ∨ k = .lineComment ∨ k = .blockComment := by
  have hall : ∀ k ∈ TokenKind.all, (k = .quoted ∨ k = .lineComment ∨ k = .blockComment) ∨
      (k.shape.listed?.any fun l => l.all fun c => !isIdentifierPart c) = true ∨
        (delimiters.all fun c => !k.shape.holds c) = true := by
    decide
  rcases hall k k.mem_all with hk | hlisted | hnone
  · exact hk
  · rcases hl : k.shape.listed? with - | l
    · rw [hl] at hlisted
      cases hlisted
    · rw [hl] at hlisted
      have hno := List.all_eq_true.1 hlisted d (Regex.mem_of_holds hl h)
      rw [isIdentifierPart_of_isIdentifierStart hd] at hno
      cases hno
  · have hno := List.all_eq_true.1 hnone c hc
    rw [h'] at hno
    cases hno

/-! ## Joints -/

/-- A text that starts with a name. -/
def StartsName (s : List Char) : Prop := ∃ c u, s = c :: u ∧ isIdentifierStart c = true

theorem StartsName.start (h : StartsName (c :: s)) : isIdentifierStart c = true := by
  obtain ⟨d, u, heq, hd⟩ := h
  cases heq
  exact hd

theorem StartsName.append (h : StartsName s) (t : List Char) : StartsName (s ++ t) := by
  obtain ⟨c, u, rfl, hc⟩ := h
  exact ⟨c, u ++ t, rfl, hc⟩

theorem StartsName.ne (h : StartsName (c :: s)) : c ≠ '/' ∧ c ≠ '*' := by
  have hall : ∀ c, isIdentifierPart c = true → c ≠ '/' ∧ c ≠ '*' :=
    of_isIdentifierPart (by decide)
  exact hall c (isIdentifierPart_of_isIdentifierStart h.start)

theorem StartsName.head?_ne (h : StartsName s) : s.head? ≠ some '*' := by
  rcases s with - | ⟨c, s⟩
  · nofun
  · exact fun heq => h.ne.2 (Option.some.inj heq)

/-- A text can be left out before a name. -/
theorem EndsToo.drop (h : EndsToo s s') (hs : StartsName s) (t : List Char) :
    EndsToo (t ++ s) s' := by
  have hne := hs
  obtain ⟨c, u, rfl, -⟩ := hs
  obtain ⟨hslash, hstar⟩ := hne.ne
  intro starred hs'
  have hends := (ends_cons_iff_of_ne hstar hslash).1 (h starred hs')
  exact ends_append (fun _ => (ends_cons_iff_of_ne hstar hslash).2 hends) t

/-- Tokens after which the first text can be replaced by the second one: a semicolon replaces what
follows them, or a name replaces a name where a statement may start. -/
inductive Joint (xs : List Lexeme) : List Char → List Char → Prop
  | semicolon {s w : List Char} (hlast : ∀ x, xs.getLast? = some x → x.1 ≠ .lineComment) :
      Joint xs s (';' :: w)
  | name {s w : List Char} (hs : StartsName s) (hw : StartsName w)
      (hlast : ∀ x, xs.getLast? = some x → x.1.isTrivia = true ∨ x.1.opensStatement = true) :
      Joint xs s w

theorem Joint.tail (h : Joint (x :: xs) s s') : Joint xs s s' := by
  have hlast : ∀ y, xs.getLast? = some y → (x :: xs).getLast? = some y := by
    intro y hy
    rw [List.getLast?_cons, hy]
    rfl
  cases h with
  | semicolon h => exact .semicolon fun y hy => h y (hlast y hy)
  | name hs hw h => exact .name hs hw fun y hy => h y (hlast y hy)

/-- A token that crosses a joint is a string or a comment. -/
theorem eq_of_crosses (h : Reads (x :: xs) s) (hjoint : Joint (x :: xs) s (d :: w))
    (hmatches : k.shape.Matches (x.2 ++ (textOf xs ++ d :: v))) :
    k = .quoted ∨ k = .lineComment ∨ k = .blockComment := by
  have hd := Regex.holds_of_mem (c := d) hmatches (by simp)
  cases hjoint with
  | semicolon hlast =>
    rcases eq_of_holds_semicolon hd with rfl | hk
    · -- a semicolon is alone
      have hone := congrArg List.length (Regex.matches_literal_iff.1 hmatches)
      have hpos := List.length_pos_iff.2 h.1.ne_nil
      simp at hone
      omega
    · exact hk
  | name hs hw hlast =>
    obtain ⟨y, hy⟩ : ∃ y, (x :: xs).getLast? = some y :=
      ⟨_, List.getLast?_eq_getLast_of_ne_nil (by simp)⟩
    obtain ⟨e, he, hdelimiter⟩ := exists_delimiter
      (h.takes_of_mem (List.mem_of_getLast? hy)).shape_matches (hlast y hy)
    have hmem : e ∈ textOf (x :: xs) := List.mem_flatMap.2 ⟨y, List.mem_of_getLast? hy, he⟩
    refine eq_of_holds_delimiter hw.start hdelimiter hd (Regex.holds_of_mem hmatches ?_)
    rw [← List.append_assoc]
    exact List.mem_append_left _ hmem

theorem not_quoted_of_crosses (h : Takes x.1 x.2 []) (hv : v ≠ []) :
    ¬ TokenKind.quoted.shape.Matches (x.2 ++ v) := by
  intro hmatches
  obtain ⟨q, u, hq, hu⟩ := matches_quoted hmatches
  obtain ⟨t, ht, rfl⟩ : ∃ t, x.2 = q :: t ∧ u = t ++ v := by
    rcases List.cons_eq_append_iff.1 hu.symm with ⟨hnil, -⟩ | hcons
    · exact absurd hnil h.ne_nil
    · exact hcons
  have hkind : x.1 = .quoted := by
    refine eq_of_startingWith h ⟨t, ht⟩ ?_
    rcases hq with rfl | rfl
    all_goals decide
  have hshape := h.shape_matches
  rw [hkind, ht, matches_quoted_iff hq] at hshape
  rw [hu, matches_quoted_iff hq] at hmatches
  exact hv (eq_nil_of_matches_insideQuotes hq hshape hmatches)

/-- The kind of a token that starts with the opening mark of a comment. -/
theorem eq_of_slash (h : Takes k ('/' :: c :: t) []) (hc : c = '/' ∨ c = '*') :
    k = if c = '/' then .lineComment else .blockComment := by
  have hall : ∀ c ∈ ['/', '*'], ∀ k ∈ TokenKind.all,
      (k.shape.derivative '/').derivative c ≠ .never →
        k = if c = '/' then .lineComment else .blockComment :=
    List.all_iff_forall_prop.1 (by decide)
  refine hall c (by simpa using hc) k k.mem_all fun hnever => ?_
  have hmatches := h.shape_matches
  rw [← Regex.matches_derivative_iff, ← Regex.matches_derivative_iff, hnever] at hmatches
  exact Regex.not_matches_never hmatches

/-- The character behind a joint starts no mark of a comment. -/
theorem Joint.ne (h : Joint xs s (d :: w)) : d ≠ '/' ∧ d ≠ '*' := by
  cases h with
  | semicolon => decide
  | name hs hw hlast => exact hw.ne

/-- A mark that does not end with the character behind a joint stands before the joint. -/
theorem exists_of_append_eq {l : List Char} {b e : Char} (hl : l ≠ []) (hd : d ≠ e)
    (h : l ++ d :: v = b :: e :: u) : ∃ t, l = b :: e :: t ∧ u = t ++ d :: v := by
  rcases l with - | ⟨b', - | ⟨e', t⟩⟩
  · exact absurd rfl hl
  · exact absurd (List.cons.inj (List.cons.inj h).2).1 hd
  · cases h
    exact ⟨t, rfl, rfl⟩

theorem not_lineComment_of_crosses (h : Reads (x :: xs) s) (hjoint : Joint (x :: xs) s (d :: w)) :
    ¬ TokenKind.lineComment.shape.Matches (x.2 ++ (textOf xs ++ d :: v)) := by
  intro hmatches
  obtain ⟨u, hu, hline⟩ := matches_lineComment_iff.1 hmatches
  rw [← List.append_assoc] at hu
  obtain ⟨t, ht, rfl⟩ := exists_of_append_eq (by simp [h.1.ne_nil]) hjoint.ne.1 hu
  have hcomment : TokenKind.lineComment.shape.Matches (x.2 ++ textOf xs) :=
    matches_lineComment_iff.2 ⟨t, ht, fun hn => hline (List.mem_append_left _ hn)⟩
  rcases xs with - | ⟨y, xs⟩
  · rw [textOf_nil, List.append_nil] at ht hcomment
    have hkind : x.1 = .lineComment := eq_of_slash (ht ▸ (takes_iff.1 h.1).1) (.inl rfl)
    cases hjoint with
    | semicolon hlast => exact hlast x rfl hkind
    | name hs hw hlast =>
      obtain ⟨c, u, rfl, hc⟩ := hs
      -- the line comment would have gone on with the name that followed it
      refine h.1.noLonger .lineComment [c] (by simp) ⟨u, rfl⟩ ?_
      refine matches_lineComment_iff.2 ⟨t ++ [c], by simp [ht], fun hn => ?_⟩
      rcases List.mem_append.1 hn with hn | hn
      · exact hline (List.mem_append_left _ hn)
      · rw [← List.mem_singleton.1 hn] at hc
        cases hc
  · exact h.1.noLonger .lineComment (textOf (y :: xs)) (by simp [h.2.1.ne_nil])
      (List.prefix_append _ s) hcomment

theorem not_blockComment_of_crosses (h : Reads (x :: xs) s) (hends : EndsToo s (d :: w))
    (hjoint : Joint (x :: xs) s (d :: w)) (hv : v <+: w) :
    ¬ TokenKind.blockComment.shape.Matches (x.2 ++ (textOf xs ++ d :: v)) := by
  intro hmatches
  obtain ⟨u, hu, hinside⟩ := matches_blockComment_iff.1 hmatches
  rw [← List.append_assoc] at hu
  obtain ⟨t, ht, rfl⟩ := exists_of_append_eq (by simp [h.1.ne_nil]) hjoint.ne.2 hu
  rcases hx : x.2 with - | ⟨b, - | ⟨e, t'⟩⟩
  · exact h.1.ne_nil hx
  · -- the slash stood for itself because no comment ended
    obtain ⟨rfl, htext⟩ : b = '/' ∧ textOf xs = '*' :: t := by simpa [hx] using ht
    have hends' : Ends false (t ++ d :: w) :=
      ends_false_iff.2 ⟨t ++ d :: v, by simpa using hv, hinside⟩
    obtain ⟨r, hr, hmatches⟩ := ends_false_iff.1 (hends.append t false hends')
    refine h.1.noLonger .blockComment ('*' :: r) (by simp) ?_ ?_
    · rw [htext]
      simpa using hr
    · exact matches_blockComment_iff.2 ⟨r, by rw [hx]; rfl, hmatches⟩
  · -- the comment has ended before
    obtain ⟨rfl, rfl, rfl⟩ : b = '/' ∧ e = '*' ∧ t' ++ textOf xs = t := by simpa [hx] using ht
    have hshape := (takes_iff.1 h.1).1
    have hkind : x.1 = .blockComment := eq_of_slash (hx ▸ hshape) (.inr rfl)
    obtain ⟨r, hr, hmatches⟩ := matches_blockComment_iff.1 (hkind ▸ hshape.shape_matches)
    rw [hx] at hr
    cases hr
    rw [List.append_assoc] at hinside
    exact absurd (eq_nil_of_matches_insideComment hmatches hinside) (by simp)

/-- **Tokens stay as they are before a joint.** -/
theorem Reads.of_joint (h : Reads xs s) (hends : EndsToo s s') (hjoint : Joint xs s s') :
    Reads xs s' := by
  induction xs with
  | nil => trivial
  | cons x xs ih =>
    refine ⟨takes_iff.2 ⟨(takes_iff.1 h.1).1, ?_⟩, ih h.2 hjoint.tail⟩
    rintro k v hv hprefix hmatches
    rcases List.prefix_or_prefix_of_prefix hprefix (List.prefix_append (textOf xs) s') with
      hin | ⟨v', rfl⟩
    · exact h.1.noLonger k v hv (hin.trans (List.prefix_append _ _)) hmatches
    · rw [List.prefix_append_right_inj] at hprefix
      rcases v' with - | ⟨d, v'⟩
      · rw [List.append_nil] at hv hmatches
        exact h.1.noLonger k _ hv (List.prefix_append _ _) hmatches
      · obtain ⟨w, rfl, hw⟩ : ∃ w, s' = d :: w ∧ v' <+: w := by
          obtain ⟨r, rfl⟩ := hprefix
          exact ⟨v' ++ r, rfl, List.prefix_append _ _⟩
        rcases eq_of_crosses h hjoint hmatches with rfl | rfl | rfl
        · exact not_quoted_of_crosses (takes_iff.1 h.1).1 hv hmatches
        · exact not_lineComment_of_crosses h hjoint hmatches
        · exact not_blockComment_of_crosses h hends hjoint hw hmatches

end Fragment
end RuleAggregate
