import RuleAggregate.Code.Lexer
import RuleAggregate.Path.Basic
import RuleAggregate.Proofs.Decimal.Numerals
import RuleAggregate.Proofs.Text.Blanks
import RuleAggregate.Proofs.Text.Longest
import RuleAggregate.Proofs.Text.Shapes

/-!
# The token at the front of a text

Few kinds of token start with a given character, so only these have to be asked for the longest
token at the front of a text: names, numbers and blanks each start with characters of their own.

## What is here

* `identifierChars`, `of_isIdentifierPart` — the characters of identifiers as a list, and what can
  be checked for each of them.
* `TokenKind.startingWith`, `munch?_eq_foldl` — the kinds that a character leaves.
* `Fragment.Takes` — the token at the front of a text.
* `takes_identifier`, `takes_blank`, `takes_dot`, `takes_sign`, `takes_quoted` — what is taken off
  the front.
* `ReadsOn`, `EndsNumber` — the characters that a number goes on with, and those that end it.
* `takes_whole`, `takes_pointed` — **a number is taken as far as it goes**, its exponent included.
-/

set_option autoImplicit false

namespace RuleAggregate

/-! ## Characters -/

/-- The characters of identifiers.  All of them are ASCII characters. -/
def identifierChars : List Char := ((List.range 128).map Char.ofNat).filter isIdentifierPart

theorem mem_identifierChars {c : Char} (h : isIdentifierPart c = true) : c ∈ identifierChars := by
  have hz : c ≤ 'z' := by
    simp only [isIdentifierPart, isIdentifierStart, Decimal.isDigit, Bool.or_eq_true,
      Bool.and_eq_true, decide_eq_true_eq] at h
    rcases h with (((⟨-, h⟩ | ⟨-, h⟩) | rfl) | rfl) | ⟨-, h⟩
    · exact Char.le_trans h (by decide)
    · exact h
    · decide
    · decide
    · exact Char.le_trans h (by decide)
  have hlt : c.toNat < 128 := Nat.lt_of_le_of_lt hz (by decide)
  exact List.mem_filter.2 ⟨List.mem_map.2 ⟨c.toNat, List.mem_range.2 hlt, Char.ofNat_toNat c⟩, h⟩

/-- What has been checked for every character of identifiers. -/
theorem of_isIdentifierPart {p : Char → Prop} [DecidablePred p]
    (h : (identifierChars.all fun c => decide (p c)) = true) :
    ∀ c, isIdentifierPart c = true → p c :=
  fun c hc => List.all_iff_forall_prop.1 h c (mem_identifierChars hc)

theorem isIdentifierPart_of_isIdentifierStart {c : Char} (h : isIdentifierStart c = true) :
    isIdentifierPart c = true := by
  rw [isIdentifierPart, h, Bool.true_or]

theorem isIdentifierPart_of_isDigit {c : Char} (h : Decimal.isDigit c = true) :
    isIdentifierPart c = true := by
  rw [isIdentifierPart, h, Bool.or_true]

/-- The characters that blank tokens consist of. -/
def skippedChars : List Char := " \t\n\r\x0c".toList

namespace CharClass

theorem contains_identifierRest (c : Char) :
    contains ⟨false, [('A', 'Z'), ('a', 'z'), ('0', '9'), ('_', '_'), ('$', '$')]⟩ c =
      isIdentifierPart c := by
  simp only [contains, List.any_cons, List.any_nil, contains_range, isIdentifierPart,
    isIdentifierStart, Decimal.isDigit, Bool.or_false, Bool.bne_false]
  ac_rfl

end CharClass

/-! ## Kinds that start with a character -/

/-- The kinds of token that may start with a character. -/
def TokenKind.startingWith (c : Char) : List TokenKind :=
  all.filter fun k => decide (k.shape.derivative c ≠ .never)

theorem startingWith_identifierStart {c : Char} (h : isIdentifierStart c = true) :
    TokenKind.startingWith c = [.identifier] := by
  have hall : ∀ c, isIdentifierPart c = true → isIdentifierStart c = true →
      TokenKind.startingWith c = [.identifier] := of_isIdentifierPart (by decide +kernel)
  exact hall c (isIdentifierPart_of_isIdentifierStart h) h

theorem startingWith_digit {c : Char} (h : Decimal.isDigit c = true) :
    TokenKind.startingWith c = [.number] := by
  have hall : ∀ c, isIdentifierPart c = true → Decimal.isDigit c = true →
      TokenKind.startingWith c = [.number] := of_isIdentifierPart (by decide +kernel)
  exact hall c (isIdentifierPart_of_isDigit h) h

theorem startingWith_blank : ∀ c, Text.isBlank c = true →
    TokenKind.startingWith c = if c ∈ skippedChars then [.blank] else [] :=
  Text.of_isBlank (by decide +kernel)

namespace Fragment

variable {k : TokenKind} {t s u : List Char} {c d : Char}

/-! ## The longest token -/

theorem longer_none (a : Option (TokenKind × Nat)) : longer a none = a := by
  cases a <;> rfl

/-- Only the kinds that start with the first character have to be asked. -/
theorem munch?_eq_foldl (c : Char) (rest : List Char) :
    munch? c rest = (TokenKind.startingWith c).foldl
      (fun best k => longer best (((k.shape.derivative c).longest? rest).map (k, ·))) none := by
  rw [munch?, TokenKind.startingWith, List.foldl_filter]
  congr 1
  funext best k
  split
  · rfl
  · next h =>
    have hnever : k.shape.derivative c = .never := by simpa using h
    rw [hnever, Regex.longest?_never, Option.map_none, longer_none]

theorem munch?_of_single (h : TokenKind.startingWith c = [k]) (rest : List Char) :
    munch? c rest = ((k.shape.derivative c).longest? rest).map (k, ·) := by
  rw [munch?_eq_foldl, h]
  rfl

/-- The longest token at the front of `t ++ s` is `t`. -/
def Takes (k : TokenKind) (t s : List Char) : Prop :=
  ∃ c u, t = c :: u ∧ munch? c (u ++ s) = some (k, u.length)

theorem takes_of_single (h : TokenKind.startingWith c = [k])
    (hlongest : (k.shape.derivative c).longest? (u ++ s) = some u.length) :
    Takes k (c :: u) s :=
  ⟨c, u, rfl, by rw [munch?_of_single h, hlongest]; rfl⟩

/-- No name goes on with the text. -/
def EndsName (s : List Char) : Prop := ∀ c, s.head? = some c → isIdentifierPart c = false

theorem takes_identifier (ht : isIdentifier t = true) (hs : EndsName s) :
    Takes .identifier t s := by
  cases t with
  | nil => cases ht
  | cons c u =>
    rw [isIdentifier, Bool.and_eq_true, List.all_eq_true] at ht
    refine takes_of_single (startingWith_identifierStart ht.1) ?_
    have hall : ∀ c, isIdentifierPart c = true → isIdentifierStart c = true →
        TokenKind.identifier.shape.derivative c = .star (.char
          ⟨false, [('A', 'Z'), ('a', 'z'), ('0', '9'), ('_', '_'), ('$', '$')]⟩) :=
      of_isIdentifierPart (by decide +kernel)
    rw [hall c (isIdentifierPart_of_isIdentifierStart ht.1) ht.1]
    refine Regex.longest?_star_char (fun d hd => ?_) fun d hd => ?_
    · rw [CharClass.contains_identifierRest, ht.2 d hd]
    · rw [CharClass.contains_identifierRest, hs d hd]

theorem takes_blank (hc : c ∈ skippedChars) (hu : ∀ d ∈ u, d ∈ skippedChars)
    (hs : ∀ d, s.head? = some d → d ∉ skippedChars) : Takes .blank (c :: u) s := by
  have hstart : ∀ c ∈ skippedChars, TokenKind.startingWith c = [.blank] ∧
      TokenKind.blank.shape.derivative c = .star (.char (.ofString " \t\n\r\x0c")) :=
    List.all_iff_forall_prop.1 (by decide +kernel)
  refine takes_of_single (hstart c hc).1 ?_
  rw [(hstart c hc).2]
  refine Regex.longest?_star_char (fun d hd => ?_) fun d hd => ?_
  · rw [CharClass.contains_ofString]
    exact decide_eq_true (hu d hd)
  · rw [CharClass.contains_ofString]
    exact decide_eq_false (hs d hd)

theorem takes_dot (s : List Char) : Takes .dot ['.'] s := by
  have hstart : TokenKind.startingWith '.' = [.dot] := rfl
  have hderivative : TokenKind.dot.shape.derivative '.' = .empty := rfl
  refine takes_of_single hstart ?_
  rw [hderivative]
  exact Regex.longest?_empty s

/-- No operator is a sign and then the character of a name. -/
theorem derivative_operator (hc : c = '+' ∨ c = '-') : ∀ d, isIdentifierPart d = true →
    (TokenKind.operator.shape.derivative c).derivative d = .never := by
  rcases hc with rfl | rfl
  all_goals exact of_isIdentifierPart (by decide +kernel)

/-- A sign stands for itself before a name, a digit or a point. -/
theorem takes_sign (hc : c = '+' ∨ c = '-') (hd : isIdentifierPart d = true ∨ d = '.') :
    Takes .punctuation [c] (d :: s) := by
  have hstart : TokenKind.startingWith c = [.operator, .punctuation] ∧
      (TokenKind.operator.shape.derivative c).nullable = false ∧
      TokenKind.punctuation.shape.derivative c = .empty := by
    rcases hc with rfl | rfl <;> exact ⟨rfl, rfl, rfl⟩
  obtain ⟨hsign, hnullable, hpunctuation⟩ := hstart
  have hnever : (TokenKind.operator.shape.derivative c).derivative d = .never := by
    rcases hd with hd | rfl
    · exact derivative_operator hc d hd
    · rcases hc with rfl | rfl <;> rfl
  refine ⟨c, [], rfl, ?_⟩
  rw [munch?_eq_foldl, hsign]
  simp only [List.foldl_cons, List.foldl_nil, List.nil_append, hpunctuation,
    Regex.longest?_eq_none hnullable hnever, Regex.longest?_empty]
  rfl

/-! ## Quoted texts -/

theorem eq_of_matches_quotedBy {q : Char} (h : (TokenKind.quotedBy q).Matches t) :
    ∃ u, t = q :: u ++ [q] := by
  rw [TokenKind.quotedBy, Regex.sequence] at h
  simp only [List.foldr_cons, List.foldr_nil, Regex.matches_andThen_iff, Regex.matches_seq_iff,
    Regex.matches_char_iff, CharClass.contains_single_iff, Regex.matches_empty_iff] at h
  obtain ⟨_, _, rfl, ⟨_, rfl, rfl⟩, u, _, rfl, -, _, _, rfl, ⟨_, rfl, rfl⟩, rfl⟩ := h
  exact ⟨u, rfl⟩

/-- A prefix that ends with a character ends at a place where the character stands. -/
theorem eq_of_take_eq_concat {n : Nat} (hu : c ∉ u) (hs : c ∉ s)
    (hn : n ≤ (u ++ c :: s).length) (h : (u ++ c :: s).take n = t ++ [c]) :
    n = u.length + 1 := by
  rcases Nat.lt_or_ge u.length n with hlt | hge
  · obtain ⟨m, rfl⟩ := Nat.exists_eq_add_of_lt hlt
    rw [Nat.add_assoc, List.take_length_add_append, List.take_succ_cons] at h
    rw [List.length_append, List.length_cons] at hn
    rcases List.eq_nil_or_concat (s.take m) with hm | ⟨r, d, hm⟩
    · have hzero : min m s.length = 0 := by rw [← List.length_take, hm, List.length_nil]
      omega
    · rw [hm, List.concat_eq_append, ← List.cons_append, ← List.append_assoc] at h
      obtain rfl := List.singleton_inj.1 (List.append_inj_right' h rfl)
      have hd : d ∈ s.take m := by rw [hm]; simp
      exact absurd (List.mem_of_mem_take hd) hs
  · rw [List.take_append_of_le_length hge] at h
    have hc : c ∈ u.take n := by rw [h]; simp
    exact absurd (List.mem_of_mem_take hc) hu

/-- A text between quotes is taken up to the second quote, if anything is. -/
theorem takes_quoted (hu : '"' ∉ u) (hs : '"' ∉ s) (h : munch? '"' (u ++ '"' :: s) ≠ none) :
    Takes .quoted ('"' :: u ++ ['"']) s := by
  have hstart : TokenKind.startingWith '"' = [.quoted] := rfl
  refine ⟨'"', u ++ ['"'], rfl, ?_⟩
  rw [munch?_of_single hstart, ne_eq, Option.map_eq_none_iff] at h
  obtain ⟨n, hn⟩ := Option.ne_none_iff_exists'.1 h
  obtain ⟨hle, hmatches⟩ := Regex.matches_of_longest? hn
  rw [Regex.matches_derivative_iff, TokenKind.shape, Regex.matches_orElse_iff] at hmatches
  have htake : ∃ v, (u ++ '"' :: s).take n = v ++ ['"'] := by
    rcases hmatches with hmatches | hmatches
    · obtain ⟨v, hv⟩ := eq_of_matches_quotedBy hmatches
      exact ⟨v, (List.cons.inj hv).2⟩
    · obtain ⟨v, hv⟩ := eq_of_matches_quotedBy hmatches
      cases hv
  obtain ⟨v, hv⟩ := htake
  obtain rfl := eq_of_take_eq_concat hu hs hle hv
  rw [List.append_assoc, munch?_of_single hstart]
  simp [hn]

/-! ## Numbers -/

/-- What may follow the digits of a number. -/
def afterWhole : Regex := TokenKind.number.shape.derivative '0'

/-- What may follow the point of a number. -/
def afterPoint : Regex := afterWhole.derivative '.'

/-- What may follow the digits after the point. -/
def afterFraction : Regex := afterPoint.derivative '0'

/-- What may follow the letter before an exponent. -/
def afterLetter : Regex := afterWhole.derivative 'e'

/-- What may follow the sign of an exponent. -/
def afterSign : Regex := afterLetter.derivative '+'

/-- What may follow the digits of an exponent. -/
def afterExponent : Regex := afterLetter.derivative '0'

/-- **How a number is read**, digit by digit. -/
structure ReadsOn (c : Char) : Prop where
  start : TokenKind.number.shape.derivative c = afterWhole
  whole : afterWhole.derivative c = afterWhole
  point : afterPoint.derivative c = afterFraction
  fraction : afterFraction.derivative c = afterFraction
  letter : afterLetter.derivative c = afterExponent
  sign : afterSign.derivative c = afterExponent
  exponent : afterExponent.derivative c = afterExponent

theorem readsOn_of_isDigit {c : Char} (h : Decimal.isDigit c = true) : ReadsOn c := by
  have hall : ∀ c, isIdentifierPart c = true → Decimal.isDigit c = true →
      TokenKind.number.shape.derivative c = afterWhole ∧ afterWhole.derivative c = afterWhole ∧
        afterPoint.derivative c = afterFraction ∧ afterFraction.derivative c = afterFraction ∧
        afterLetter.derivative c = afterExponent ∧ afterSign.derivative c = afterExponent ∧
        afterExponent.derivative c = afterExponent := of_isIdentifierPart (by decide +kernel)
  obtain ⟨hstart, hwhole, hpoint, hfraction, hletter, hsign, hexponent⟩ :=
    hall c (isIdentifierPart_of_isDigit h) h
  exact ⟨hstart, hwhole, hpoint, hfraction, hletter, hsign, hexponent⟩

/-- **Where a number ends**: no number goes on with the character. -/
structure EndsNumber (c : Char) : Prop where
  whole : afterWhole.derivative c = .never
  fraction : afterFraction.derivative c = .never
  exponent : afterExponent.derivative c = .never
  point : afterPoint.derivative c = .never

theorem endsNumber_of_isBlank {c : Char} (h : Text.isBlank c = true) : EndsNumber c := by
  have hall : ∀ c, Text.isBlank c = true → afterWhole.derivative c = .never ∧
      afterFraction.derivative c = .never ∧ afterExponent.derivative c = .never ∧
      afterPoint.derivative c = .never := Text.of_isBlank (by decide +kernel)
  obtain ⟨hwhole, hfraction, hexponent, hpoint⟩ := hall c h
  exact ⟨hwhole, hfraction, hexponent, hpoint⟩

theorem longest?_digits {r state : Regex} {ds : List Char} {n : Nat} (hds : Decimal.IsDigits ds)
    (hfirst : ∀ c, Decimal.isDigit c = true → r.derivative c = state)
    (hmore : ∀ c, Decimal.isDigit c = true → state.derivative c = state)
    (hs : state.longest? s = some n) : r.longest? (ds ++ s) = some (ds.length + n) := by
  obtain ⟨hne, hall⟩ := hds
  obtain ⟨c, ds, rfl⟩ := List.exists_cons_of_ne_nil hne
  obtain ⟨hc, hall⟩ := List.forall_mem_cons.1 hall
  rw [List.cons_append, List.length_cons, Nat.add_right_comm]
  refine Regex.longest?_cons ?_
  rw [hfirst c hc]
  exact Regex.longest?_append (fun d hd => hmore d (hall d hd)) hs

/-- The exponent of a number is taken, and the blank after it is not. -/
theorem longest?_exponent {r : Regex} (hr : r = afterWhole ∨ r = afterFraction) {e : List Char}
    (he : Decimal.Exponent e) (hs : Text.StartsBlank s) : r.longest? (e ++ s) = some e.length := by
  have hletter : ∀ c, c = 'e' ∨ c = 'E' → r.derivative c = afterLetter := by
    rcases hr with rfl | rfl <;> rintro c (rfl | rfl) <;> rfl
  have hexponent : ∀ {r : Regex} {ds : List Char}, Decimal.IsDigits ds →
      (∀ c, Decimal.isDigit c = true → r.derivative c = afterExponent) →
      r.longest? (ds ++ s) = some ds.length := by
    intro r ds hds hfirst
    exact longest?_digits hds hfirst (fun c hc => (readsOn_of_isDigit hc).exponent)
      (Regex.longest?_stop rfl fun c hc => (endsNumber_of_isBlank (hs c hc)).exponent)
  cases he with
  | none =>
    rcases hr with rfl | rfl
    · exact Regex.longest?_stop rfl fun c hc => (endsNumber_of_isBlank (hs c hc)).whole
    · exact Regex.longest?_stop rfl fun c hc => (endsNumber_of_isBlank (hs c hc)).fraction
  | plain he hds =>
    refine Regex.longest?_cons ?_
    rw [hletter _ he]
    exact hexponent hds fun c hc => (readsOn_of_isDigit hc).letter
  | @signed _ sign _ he hsign hds =>
    refine Regex.longest?_cons ?_
    rw [hletter _ he]
    refine Regex.longest?_cons ?_
    have hafter : afterLetter.derivative sign = afterSign := by
      rcases hsign with rfl | rfl <;> rfl
    rw [hafter]
    exact hexponent hds fun c hc => (readsOn_of_isDigit hc).sign

theorem takes_digits {ds e : List Char} (hds : Decimal.IsDigits ds)
    (he : afterWhole.longest? (e ++ s) = some e.length) : Takes .number (ds ++ e) s := by
  obtain ⟨hne, hall⟩ := hds
  obtain ⟨c, ds, rfl⟩ := List.exists_cons_of_ne_nil hne
  obtain ⟨hc, hall⟩ := List.forall_mem_cons.1 hall
  refine takes_of_single (u := ds ++ e) (startingWith_digit hc) ?_
  rw [(readsOn_of_isDigit hc).start, List.append_assoc, List.length_append]
  exact Regex.longest?_append (fun d hd => (readsOn_of_isDigit (hall d hd)).whole) he

/-- **A number without a point is taken as a whole.** -/
theorem takes_whole {ds e : List Char} (hds : Decimal.IsDigits ds) (he : Decimal.Exponent e)
    (hs : Text.StartsBlank s) : Takes .number (ds ++ e) s :=
  takes_digits hds (longest?_exponent (.inl rfl) he hs)

/-- **A number with digits after the point is taken as a whole.** -/
theorem takes_pointed {ds fs e : List Char} (hds : Decimal.IsDigits ds) (hfs : Decimal.IsDigits fs)
    (he : Decimal.Exponent e) (hs : Text.StartsBlank s) :
    Takes .number (ds ++ '.' :: (fs ++ e)) s := by
  refine takes_digits hds (Regex.longest?_cons ?_)
  show afterPoint.longest? (fs ++ e ++ s) = some (fs ++ e).length
  rw [List.append_assoc, List.length_append]
  exact longest?_digits hfs (fun c hc => (readsOn_of_isDigit hc).point)
    (fun c hc => (readsOn_of_isDigit hc).fraction) (longest?_exponent (.inr rfl) he hs)

/-- A number ends before a point that no digit follows. -/
theorem takes_before_point {ds e : List Char} (hds : Decimal.IsDigits ds) (he : Decimal.Exponent e)
    (hs : Text.StartsBlank s) : Takes .number ds ('.' :: (e ++ s)) := by
  have hnullable : afterPoint.nullable = false := rfl
  have hnone : afterPoint.longest? (e ++ s) = none := by
    have hstop : ∀ c, (e ++ s).head? = some c → afterPoint.derivative c = .never := by
      intro c hc
      cases he with
      | none => exact (endsNumber_of_isBlank (hs c hc)).point
      | plain he | signed he =>
        cases hc
        rcases he with rfl | rfl <;> rfl
    cases hes : e ++ s with
    | nil => rw [Regex.longest?, hnullable]; rfl
    | cons c t => exact Regex.longest?_eq_none hnullable (hstop c (by rw [hes]; rfl)) t
  rw [← List.append_nil ds]
  exact takes_digits hds (Regex.longest?_eq_zero rfl hnone)

end Fragment
end RuleAggregate
