import RuleAggregate.Code.Analysis
import RuleAggregate.Proofs.Code.Munching

/-!
# What the parts of an expression mention

A text is split into tokens from its front.  So what an expression mentions can be told part by
part: a name is mentioned unless it follows a dot, blanks between the parts do not matter, and
numbers and quoted texts mention nothing.

## What is here

* `Fragment.tokensFrom` — the tokens of a text that starts at an offset.
* `Fragment.tokensFrom_of_takes` — **the token at the front, and then the others.**
* `Fragment.MentionsExactly` — the names that a text mentions, if it can be split into tokens.
* `MentionsExactly.identifier`, `.member`, `.dot`, `.blanks`, `.quoted`, `.other` — one more part at
  the front.
* `mentionsExactly_numeral` — **numbers mention nothing.**
-/

set_option autoImplicit false

namespace RuleAggregate
namespace Fragment

variable {k : TokenKind} {t s : List Char} {offset : Nat}

/-! ## Tokens -/

/-- The tokens of a text that starts at a byte offset, without blanks and comments. -/
def tokensFrom (offset : Nat) (s : List Char) : Except AnalyzeError (List Token) :=
  (lexemes offset s).map fun ts => ts.filter fun t => !t.kind.isTrivia

theorem lexemes_nil (offset : Nat) : lexemes offset [] = .ok [] := by
  rw [lexemes.eq_def]

/-- The token at the front comes first, and then the lexemes of the rest. -/
theorem lexemes_of_takes (h : Takes k t s) (offset : Nat) :
    lexemes offset (t ++ s) =
      (lexemes (offset + Text.byteLength t) s).map (⟨k, offset, t⟩ :: ·) := by
  obtain ⟨c, u, rfl, hmunch⟩ := h
  rw [List.cons_append, lexemes.eq_def offset (c :: (u ++ s))]
  simp only [hmunch, List.take_left', List.drop_left']

/-- Where no token starts, the text cannot be split. -/
theorem lexemes_of_munch?_eq_none {c : Char} (h : munch? c s = none) (offset : Nat) :
    ∃ e, lexemes offset (c :: s) = .error e := by
  rw [lexemes.eq_def]
  simp only [h]
  exact ⟨_, rfl⟩

/-- **The token at the front comes first, and then those of the rest.** -/
theorem tokensFrom_of_takes (h : Takes k t s) (hk : k.isTrivia = false) (offset : Nat) :
    tokensFrom offset (t ++ s) =
      (tokensFrom (offset + Text.byteLength t) s).map (⟨k, offset, t⟩ :: ·) := by
  rw [tokensFrom, tokensFrom, lexemes_of_takes h]
  cases lexemes (offset + Text.byteLength t) s with
  | error e => rfl
  | ok ts => simp [Except.map, hk]

theorem tokensFrom_of_takes_trivia (h : Takes k t s) (hk : k.isTrivia = true) (offset : Nat) :
    tokensFrom offset (t ++ s) = tokensFrom (offset + Text.byteLength t) s := by
  rw [tokensFrom, tokensFrom, lexemes_of_takes h]
  cases lexemes (offset + Text.byteLength t) s with
  | error e => rfl
  | ok ts => simp [Except.map, hk]

/-- Blanks are skipped one by one. -/
theorem tokensFrom_skipped {c : Char} (hc : c ∈ skippedChars) (offset : Nat) (s : List Char) :
    tokensFrom offset (c :: s) = tokensFrom (offset + Text.byteLength [c]) s := by
  have hu : ∀ d ∈ s.takeWhile (· ∈ skippedChars), d ∈ skippedChars := by
    intro d hd
    simpa using List.mem_takeWhile_imp hd
  have hs : ∀ d, (s.dropWhile (· ∈ skippedChars)).head? = some d → d ∉ skippedChars := by
    intro d hd
    have := List.head?_dropWhile_not (· ∈ skippedChars) s
    rw [hd] at this
    simpa using this
  rw [← List.takeWhile_append_dropWhile (p := (· ∈ skippedChars)) (l := s)]
  generalize s.takeWhile (· ∈ skippedChars) = u at hu ⊢
  generalize s.dropWhile (· ∈ skippedChars) = rest at hs ⊢
  rw [← List.cons_append, tokensFrom_of_takes_trivia (takes_blank hc hu hs) rfl]
  cases u with
  | nil => rfl
  | cons d u =>
    obtain ⟨hd, hu⟩ := List.forall_mem_cons.1 hu
    rw [tokensFrom_of_takes_trivia (takes_blank hd hu hs) rfl]
    simp [Nat.add_assoc]

/-! ## Mentioned names -/

/-- If the text can be split into tokens, then they mention exactly the names.  `afterDot` says
whether a dot precedes the text. -/
def MentionsExactly (afterDot : Bool) (s : List Char) (names : List String) : Prop :=
  ∀ offset ts, tokensFrom offset s = .ok ts →
    (mentionsFrom [] afterDot ts).map Token.name = names

namespace MentionsExactly

variable {afterDot : Bool} {names : List String}

theorem nil (afterDot : Bool) : MentionsExactly afterDot [] [] := by
  intro offset ts h
  rw [tokensFrom, lexemes_nil] at h
  cases h
  rfl

/-- One more token at the front. -/
theorem exists_of_takes (h : Takes k t s) (hk : k.isTrivia = false) {ts : List Token}
    (hts : tokensFrom offset (t ++ s) = .ok ts) :
    ∃ rest, tokensFrom (offset + Text.byteLength t) s = .ok rest ∧
      ts = ⟨k, offset, t⟩ :: rest := by
  rw [tokensFrom_of_takes h hk] at hts
  cases hrest : tokensFrom (offset + Text.byteLength t) s with
  | error e =>
    rw [hrest] at hts
    cases hts
  | ok rest =>
    rw [hrest] at hts
    cases hts
    exact ⟨rest, rfl, rfl⟩

/-- A name that does not follow a dot is mentioned. -/
theorem identifier (ht : isIdentifier t = true) (hs : EndsName s)
    (h : MentionsExactly false s names) :
    MentionsExactly false (t ++ s) (String.ofList t :: names) := by
  intro offset ts hts
  obtain ⟨rest, hrest, rfl⟩ := exists_of_takes (takes_identifier ht hs) rfl hts
  rw [← h _ _ hrest]
  rfl

/-- A name after a dot is not mentioned. -/
theorem member (ht : isIdentifier t = true) (hs : EndsName s)
    (h : MentionsExactly false s names) :
    MentionsExactly true (t ++ s) names := by
  intro offset ts hts
  obtain ⟨rest, hrest, rfl⟩ := exists_of_takes (takes_identifier ht hs) rfl hts
  rw [← h _ _ hrest]
  rfl

theorem dot (h : MentionsExactly true s names) : MentionsExactly afterDot ('.' :: s) names := by
  intro offset ts hts
  obtain ⟨rest, hrest, rfl⟩ := exists_of_takes (takes_dot s) rfl hts
  rw [← h _ _ hrest]
  rfl

/-- Tokens that are neither names nor dots mention nothing. -/
theorem other (ht : Takes k t s) (htrivia : k.isTrivia = false) (hidentifier : k ≠ .identifier)
    (hdot : k ≠ .dot) (h : MentionsExactly false s names) :
    MentionsExactly afterDot (t ++ s) names := by
  intro offset ts hts
  obtain ⟨rest, hrest, rfl⟩ := exists_of_takes ht htrivia hts
  rw [← h _ _ hrest]
  simp [mentionsFrom, hidentifier, hdot]

/-- Blanks do not matter.  There are blanks at which no token starts, but then the text cannot be
split. -/
theorem blanks {b : List Char} (hb : Text.AllBlank b)
    (h : MentionsExactly afterDot s names) : MentionsExactly afterDot (b ++ s) names := by
  induction b with
  | nil => exact h
  | cons c b ih =>
    obtain ⟨hc, hb⟩ := List.forall_mem_cons.1 hb
    have hstart := startingWith_blank c hc
    intro offset ts hts
    rw [List.cons_append] at hts
    by_cases hskipped : c ∈ skippedChars
    · rw [tokensFrom_skipped hskipped] at hts
      exact ih hb _ _ hts
    · rw [if_neg hskipped] at hstart
      obtain ⟨e, he⟩ := lexemes_of_munch?_eq_none
        (munch?_eq_foldl c (b ++ s) |>.trans (by rw [hstart]; rfl)) offset
      rw [tokensFrom, he] at hts
      cases hts

/-- A quoted text mentions nothing.  It need not be one token, but then no token starts at its
quote. -/
theorem quoted {u : List Char} (hu : '"' ∉ u) (hs : '"' ∉ s) (h : MentionsExactly false s names) :
    MentionsExactly afterDot ('"' :: u ++ ['"'] ++ s) names := by
  by_cases hmunch : munch? '"' (u ++ '"' :: s) = none
  · intro offset ts hts
    obtain ⟨e, he⟩ := lexemes_of_munch?_eq_none hmunch offset
    have hsame : '"' :: u ++ ['"'] ++ s = '"' :: (u ++ '"' :: s) := by simp
    rw [hsame, tokensFrom, he] at hts
    cases hts
  · exact other (takes_quoted hu hs hmunch) rfl nofun nofun h

/-- A sign before a name, a digit or a point mentions nothing. -/
theorem sign {c d : Char} (hc : c = '+' ∨ c = '-') (hd : isIdentifierPart d = true ∨ d = '.')
    (h : MentionsExactly false (d :: s) names) : MentionsExactly afterDot (c :: d :: s) names :=
  other (takes_sign hc hd) rfl nofun nofun h

end MentionsExactly

/-! ## Ends of names -/

theorem isIdentifierPart_of_isBlank : ∀ c, Text.isBlank c = true → isIdentifierPart c = false :=
  Text.of_isBlank (by decide +kernel)

theorem endsName_of_allBlank {b : List Char} (hb : Text.AllBlank b) : EndsName b :=
  fun c hc => isIdentifierPart_of_isBlank c (hb.startsBlank c hc)

/-- Blanks may stand between a name and the dot after it. -/
theorem endsName_before_dot {b : List Char} (hb : Text.AllBlank b) (s : List Char) :
    EndsName (b ++ '.' :: s) := by
  cases b with
  | nil =>
    rintro c ⟨⟩
    rfl
  | cons c b =>
    rintro c ⟨⟩
    exact isIdentifierPart_of_isBlank c (hb c List.mem_cons_self)

/-! ## Numbers -/

theorem mentionsExactly_blanks {afterDot : Bool} {b : List Char}
    (hb : Text.AllBlank b) : MentionsExactly afterDot b [] := by
  rw [← List.append_nil b]
  exact .blanks hb (.nil afterDot)

theorem mentionsExactly_whole {afterDot : Bool} {ds e b : List Char} (hds : Decimal.IsDigits ds)
    (he : Decimal.Exponent e) (hb : Text.AllBlank b) :
    MentionsExactly afterDot (ds ++ e ++ b) [] :=
  .other (takes_whole hds he hb.startsBlank) rfl nofun nofun
    (mentionsExactly_blanks hb)

/-- An exponent that follows a point reads as the name of a member. -/
theorem mentionsExactly_exponent {e b : List Char} (he : Decimal.Exponent e)
    (hb : Text.AllBlank b) : MentionsExactly true (e ++ b) [] := by
  have hstart : ∀ {c : Char}, c = 'e' ∨ c = 'E' → isIdentifierStart c = true := by
    rintro c (rfl | rfl) <;> rfl
  cases he with
  | none => exact mentionsExactly_blanks hb
  | plain he hds =>
    refine .member ?_ (endsName_of_allBlank hb) (mentionsExactly_blanks hb)
    rw [isIdentifier, hstart he, Bool.true_and, List.all_eq_true]
    exact fun c hc => isIdentifierPart_of_isDigit (hds.2 c hc)
  | @signed e sign ds he hsign hds =>
    obtain ⟨d, ds, rfl⟩ := List.exists_cons_of_ne_nil hds.1
    have hd : isIdentifierPart d = true :=
      isIdentifierPart_of_isDigit (hds.2 d List.mem_cons_self)
    have hnumber : MentionsExactly false (d :: ds ++ [] ++ b) [] :=
      mentionsExactly_whole hds .none hb
    rw [List.append_nil] at hnumber
    refine .member (t := [e]) (by simp [isIdentifier, hstart he]) (fun c hc => ?_)
      (.sign hsign (.inl hd) hnumber)
    cases hc
    rcases hsign with rfl | rfl <;> rfl

/-- **Numbers mention nothing.** -/
theorem mentionsExactly_numeral {n b : List Char} (hn : Decimal.Numeral n)
    (hb : Text.AllBlank b) : MentionsExactly false (n ++ b) [] := by
  have hstarts := hb.startsBlank
  cases hn with
  | whole hds he => exact mentionsExactly_whole hds he hb
  | @pointed ds fs e hds hfs he =>
    by_cases hne : ds = []
    · subst hne
      exact .dot (mentionsExactly_whole hfs he hb)
    · exact .other (takes_pointed ⟨hne, hds⟩ hfs he hstarts) rfl nofun nofun
        (mentionsExactly_blanks hb)
  | @trailing ds e hds he =>
    rw [List.append_assoc]
    exact .other (takes_before_point hds he hstarts) rfl nofun nofun
      (.dot (mentionsExactly_exponent he hb))

/-- A number with a sign starts with a sign that stands for itself. -/
theorem mentionsExactly_negative {n b : List Char} (hn : Decimal.Numeral n)
    (hb : Text.AllBlank b) : MentionsExactly false ('-' :: (n ++ b)) [] := by
  obtain ⟨d, u, rfl, hd⟩ := hn.exists_cons
  exact .sign (.inr rfl) (hd.imp_left isIdentifierPart_of_isDigit) (mentionsExactly_numeral hn hb)

end Fragment
end RuleAggregate
