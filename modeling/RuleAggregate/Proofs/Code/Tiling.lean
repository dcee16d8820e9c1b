import RuleAggregate.Proofs.Code.Cutting
import RuleAggregate.Proofs.Path.Spelling

/-!
# Tokens tile the text

What the lexer does can be told without derivatives and without its loop.  A token is the longest
text at its place that has the shape of any kind of token, and its kind is the only one whose shape
it has.  So there is at most one way to tile a text with such tokens, and the lexer finds it; where
it stops, a character stands at which no token starts.

## What is here

* `TokenKind.ofFront?`, `TokenKind.eq_of_matches` — the first two characters of a token tell its
  kind, so **no text is a token of two kinds.**
* `Fragment.takes_iff_matches`, `Fragment.munch?_eq_none_iff` — what is taken off the front of a
  text, and when nothing is, in terms of shapes.
* `Fragment.IsLongest`, `Fragment.Tiles`, `Fragment.IsStuck` — a token that is as long as possible,
  tokens one right behind the other, and a place where no token starts.
* `Fragment.tiles_iff` — **tilings are what the lexer takes off the front.**
* `Fragment.tokens_tile` — **the lexer finds the tiling or the place where it cannot go on.**
-/

set_option autoImplicit false

namespace RuleAggregate

/-! ## The kind of a text -/

namespace TokenKind

variable {k j : TokenKind} {t u : List Char} {c : Char}

/-- The kind of the tokens that start with a character, if there is only one of them and it has
texts of any length. -/
def ofFirst? (c : Char) : Option TokenKind :=
  if isIdentifierStart c then some identifier
  else if Decimal.isDigit c then some number
  else if c ∈ skippedChars then some blank
  else if c = '"' ∨ c = '\'' then some quoted
  else none

/-- The kind of the tokens that are a single character other than a name or a digit. -/
def ofSymbol : Char → TokenKind
  | '.' => dot
  | ',' => comma
  | ';' => semicolon
  | '=' => assign
  | '(' => opener .round
  | ')' => closer .round
  | '[' => opener .square
  | ']' => closer .square
  | '{' => opener .curly
  | '}' => closer .curly
  | '<' => less
  | '>' => greater
  | _ => punctuation

/-- The kind of a token by its first two characters. -/
def ofFront? : List Char → Option TokenKind
  | [] => none
  | c :: rest =>
    match ofFirst? c, rest with
    | some k, _ => some k
    | none, [] => some (ofSymbol c)
    | none, d :: _ =>
      if c = '/' ∧ d = '/' then some lineComment
      else if c = '/' ∧ d = '*' then some blockComment
      else some operator

theorem ofFront?_of_ofFirst? (h : ofFirst? c = some k) (rest : List Char) :
    ofFront? (c :: rest) = some k := by
  simp only [ofFront?, h]

/-- No kind of token has the empty text. -/
theorem ne_nil_of_matches (h : k.shape.Matches t) : t ≠ [] := by
  rintro rfl
  have hall : ∀ k ∈ all, k.shape.nullable = false := by decide
  rw [← Regex.nullable_iff, hall k k.mem_all] at h
  cases h

theorem matches_blank (h : blank.shape.Matches t) : ∃ c u, t = c :: u ∧ c ∈ skippedChars := by
  rw [shape, Regex.plus, Regex.matches_andThen_iff, Regex.matches_seq_iff] at h
  obtain ⟨_, u, rfl, hfirst, -⟩ := h
  obtain ⟨c, hc, rfl⟩ := Regex.matches_char_iff.1 hfirst
  rw [CharClass.contains_ofString, decide_eq_true_iff] at hc
  exact ⟨c, u, rfl, hc⟩

theorem matches_number (h : number.shape.Matches t) :
    ∃ c u, t = c :: u ∧ Decimal.isDigit c = true := by
  rw [shape, Regex.sequence, List.foldr_cons, Regex.matches_andThen_iff,
    Regex.matches_seq_iff] at h
  obtain ⟨_, u, rfl, hfirst, -⟩ := h
  obtain ⟨c, hc, rfl⟩ := Regex.matches_char_iff.1 hfirst
  refine ⟨c, u, rfl, ?_⟩
  simpa [CharClass.contains, Decimal.isDigit] using hc

/-- The texts of operators. -/
def operators : List String :=
  ["==", "!=", "<=", ">=", "+=", "-=", "*=", "/=", "&&", "||", "++", "--", "->"]

theorem matches_operator (h : operator.shape.Matches t) : ∃ s ∈ operators, t = s.toList := by
  obtain ⟨r, hr, hmatches⟩ := Regex.matches_choice_iff.1 h
  obtain ⟨s, hs, rfl⟩ := List.mem_map.1 hr
  exact ⟨s, hs, Regex.matches_literal_iff.1 hmatches⟩

theorem matches_punctuation (h : punctuation.shape.Matches t) :
    ∃ c ∈ "-+*/%!&|^?:~@#".toList, t = [c] := by
  obtain ⟨c, hc, rfl⟩ := Regex.matches_char_iff.1 h
  rw [CharClass.contains_ofString, decide_eq_true_iff] at hc
  exact ⟨c, hc, rfl⟩

/-- **The first two characters of a token tell its kind.** -/
theorem ofFront?_of_matches (h : k.shape.Matches t) : ofFront? t = some k := by
  rcases k with _ | _ | _ | _ | _ | _ | _ | _ | _ | _ | b | b | _ | _ | _ | _
  case blank =>
    obtain ⟨c, u, rfl, hc⟩ := matches_blank h
    have hall : ∀ c ∈ skippedChars, ofFirst? c = some blank :=
      List.all_iff_forall_prop.1 (by decide)
    exact ofFront?_of_ofFirst? (hall c hc) u
  case identifier =>
    have hname := Fragment.matches_identifier_iff.1 h
    rcases t with - | ⟨c, u⟩
    · cases hname
    · rw [isIdentifier, Bool.and_eq_true] at hname
      exact ofFront?_of_ofFirst? (if_pos hname.1) u
  case number =>
    obtain ⟨c, u, rfl, hc⟩ := matches_number h
    refine ofFront?_of_ofFirst? ?_ u
    rw [ofFirst?, not_isIdentifierStart_of_isDigit hc, hc]
    rfl
  case quoted =>
    obtain ⟨q, u, rfl | rfl, rfl⟩ := Fragment.matches_quoted h
    · rfl
    · rfl
  case lineComment =>
    obtain ⟨u, rfl, -⟩ := Fragment.matches_lineComment_iff.1 h
    rfl
  case blockComment =>
    obtain ⟨u, rfl, -⟩ := Fragment.matches_blockComment_iff.1 h
    rfl
  case operator =>
    obtain ⟨s, hs, rfl⟩ := matches_operator h
    have hall : ∀ s ∈ operators, ofFront? s.toList = some operator := by decide
    exact hall s hs
  case punctuation =>
    obtain ⟨c, hc, rfl⟩ := matches_punctuation h
    have hall : ∀ c ∈ "-+*/%!&|^?:~@#".toList, ofFront? [c] = some punctuation :=
      List.all_iff_forall_prop.1 (by decide)
    exact hall c hc
  case opener =>
    obtain ⟨c, hc, rfl⟩ := Regex.matches_char_iff.1 h
    rw [CharClass.contains_single_iff.1 hc]
    cases b <;> rfl
  case closer =>
    obtain ⟨c, hc, rfl⟩ := Regex.matches_char_iff.1 h
    rw [CharClass.contains_single_iff.1 hc]
    cases b <;> rfl
  all_goals
    rw [Regex.matches_literal_iff.1 h]
    rfl

/-- **No text is a token of two kinds.** -/
theorem eq_of_matches (hk : k.shape.Matches t) (hj : j.shape.Matches t) : k = j :=
  Option.some.inj ((ofFront?_of_matches hk).symm.trans (ofFront?_of_matches hj))

end TokenKind

namespace Fragment

variable {k : TokenKind} {t s u : List Char} {c : Char} {offset start stop : Nat} {p : Token}
  {ps : List Token}

/-! ## What is taken off the front -/

theorem foldl_longer_eq_none_iff {f : TokenKind → Option Nat} {ks : List TokenKind} :
    ∀ {best : Option (TokenKind × Nat)},
      ks.foldl (fun best k => longer best ((f k).map (k, ·))) best = none ↔
        best = none ∧ ∀ k ∈ ks, f k = none := by
  induction ks with
  | nil => simp
  | cons k ks ih =>
    intro best
    rw [List.foldl_cons, ih, List.forall_mem_cons, ← and_assoc]
    refine and_congr_left fun _ => ?_
    rcases best with - | ⟨i, m⟩
    · cases f k <;> simp [longer]
    · rcases f k with - | n
      · simp [longer]
      · simp only [longer, Option.map_some]
        split <;> simp

/-- **No token starts where no kind of token has a text at the front.** -/
theorem munch?_eq_none_iff : munch? c s = none ↔
    ∀ (k : TokenKind) (u : List Char), u <+: c :: s → ¬ k.shape.Matches u := by
  rw [munch?, foldl_longer_eq_none_iff]
  constructor
  · rintro ⟨-, hnone⟩ k u hu hmatches
    rcases u with - | ⟨d, u⟩
    · exact TokenKind.ne_nil_of_matches hmatches rfl
    · obtain ⟨rfl, hus⟩ := List.cons_prefix_cons.1 hu
      rw [← Regex.matches_derivative_iff, List.prefix_iff_eq_take.1 hus] at hmatches
      obtain ⟨n, hn, -⟩ := Regex.le_longest?_of_matches hus.length_le hmatches
      rw [hnone k k.mem_all] at hn
      cases hn
  · intro hnone
    refine ⟨rfl, fun k _ => ?_⟩
    rw [← Option.not_isSome_iff_eq_none]
    intro hsome
    obtain ⟨n, hn⟩ := Option.isSome_iff_exists.1 hsome
    have hmatches := (Regex.matches_of_longest? hn).2
    rw [Regex.matches_derivative_iff] at hmatches
    exact hnone k _ (List.cons_prefix_cons.2 ⟨rfl, List.take_prefix n s⟩) hmatches

theorem takes_of_munch? {n : Nat} (h : munch? c s = some (k, n)) :
    Takes k (c :: s.take n) (s.drop n) := by
  have hn : n ≤ s.length := (Regex.matches_of_longest? (munch?_eq_some h).1).1
  exact ⟨c, s.take n, rfl, by rw [List.take_append_drop, h, List.length_take_of_le hn]⟩

theorem NoLonger.eq_nil {v : List Char} (h : NoLonger t s) (hv : v <+: s)
    (hmatches : k.shape.Matches (t ++ v)) : v = [] := by
  by_contra hne
  exact h k v hne hv hmatches

/-- There is one longest token at the front of a text. -/
theorem eq_of_noLonger {j : TokenKind} {t' s' : List Char} (ht : k.shape.Matches t)
    (ht' : j.shape.Matches t') (hs : NoLonger t s) (hs' : NoLonger t' s')
    (h : t ++ s = t' ++ s') : t = t' ∧ s = s' := by
  rcases List.append_eq_append_iff.1 h with ⟨v, rfl, rfl⟩ | ⟨v, rfl, rfl⟩
  · rw [hs.eq_nil (List.prefix_append v s') ht', List.append_nil, List.nil_append]
    exact ⟨rfl, rfl⟩
  · rw [hs'.eq_nil (List.prefix_append v s) ht, List.append_nil, List.nil_append]
    exact ⟨rfl, rfl⟩

/-- **A token is taken if it has the shape of its kind and nothing longer has any.** -/
theorem takes_iff_matches : Takes k t s ↔ k.shape.Matches t ∧ NoLonger t s := by
  constructor
  · intro h
    exact ⟨h.shape_matches, h.noLonger⟩
  · rintro ⟨hmatches, hnone⟩
    obtain ⟨c, u, rfl⟩ := List.exists_cons_of_ne_nil (TokenKind.ne_nil_of_matches hmatches)
    -- Some token is taken here.  It is this one: both are longest, and kinds share no texts.
    have hsome : munch? c (u ++ s) ≠ none := fun h =>
      munch?_eq_none_iff.1 h k (c :: u) (List.prefix_append (c :: u) s) hmatches
    obtain ⟨⟨j, n⟩, hmunch⟩ := Option.ne_none_iff_exists'.1 hsome
    have htakes := takes_of_munch? hmunch
    have hsplit : c :: u ++ s = c :: (u ++ s).take n ++ (u ++ s).drop n := by
      rw [List.cons_append, List.cons_append, List.take_append_drop]
    obtain ⟨ht, hs⟩ :=
      eq_of_noLonger hmatches htakes.shape_matches hnone htakes.noLonger hsplit
    rw [← ht, ← hs] at htakes
    rwa [TokenKind.eq_of_matches hmatches htakes.shape_matches]

/-! ## Tilings -/

/-- The token is cut out of the text between two characters, has the shape of its kind, and nothing
longer that starts there has the shape of any kind. -/
structure IsLongest (code : List Char) (p : Token) : Prop where
  cut : Text.slice? code p.start p.stop = some p.text
  shaped : p.kind.shape.Matches p.text
  longest : ∀ rest, Text.dropBytes? p.start code = some rest → ∀ (k : TokenKind) (u : List Char),
    u <+: rest → k.shape.Matches u → u.length ≤ p.text.length

/-- The tokens stand one right behind the other from one offset to another, and each of them is as
long as possible. -/
def Tiles (code : List Char) (start : Nat) : List Token → Nat → Prop
  | [], stop => start = stop
  | p :: ps, stop => p.start = start ∧ IsLongest code p ∧ Tiles code p.stop ps stop

/-- The text can be tiled up to the offset, and there a character other than a blank stands with
which no token starts. -/
def IsStuck (code : List Char) (offset : Nat) : Prop :=
  ∃ ps c rest, Tiles code 0 ps offset ∧ Text.dropBytes? offset code = some (c :: rest) ∧
    c ∉ skippedChars ∧ ∀ (k : TokenKind) (u : List Char), u <+: c :: rest → ¬ k.shape.Matches u

/-- The longest token at a place is the one that is taken there. -/
theorem isLongest_iff (hp : p.start = Text.byteLength u) :
    IsLongest (u ++ s) p ↔ ∃ rest, s = p.text ++ rest ∧ Takes p.kind p.text rest := by
  have hdrop : Text.dropBytes? p.start (u ++ s) = some s := by rw [hp, Text.dropBytes?_append]
  constructor
  · rintro ⟨hcut, hshaped, hlongest⟩
    obtain ⟨v, rest, hsplit, hstart, -⟩ := Text.slice?_eq_some_iff.1 hcut
    have hs : s = p.text ++ rest := by
      rw [hsplit, hstart, List.append_assoc, Text.dropBytes?_append] at hdrop
      exact (Option.some_inj.1 hdrop).symm
    refine ⟨rest, hs, takes_iff_matches.2 ⟨hshaped, fun j v hv hprefix hmatches => ?_⟩⟩
    have hle := hlongest s hdrop j (p.text ++ v)
      (by rw [hs]; exact (List.prefix_append_right_inj _).2 hprefix) hmatches
    rw [List.length_append] at hle
    have := List.length_pos_iff.2 hv
    omega
  · rintro ⟨rest, rfl, htakes⟩
    obtain ⟨hshaped, hnone⟩ := takes_iff_matches.1 htakes
    refine ⟨?_, hshaped, fun w hw j v hprefix hmatches => ?_⟩
    · rw [← List.append_assoc, Token.stop, hp]
      exact Text.slice?_append u p.text rest
    · rw [hdrop] at hw
      cases hw
      by_contra hlt
      obtain ⟨v, rfl⟩ := List.prefix_of_prefix_length_le (List.prefix_append p.text rest) hprefix
        (Nat.le_of_not_le hlt)
      rw [hnone.eq_nil ((List.prefix_append_right_inj _).1 hprefix) hmatches,
        List.append_nil] at hlt
      exact hlt (Nat.le_refl _)

/-- **Tilings are what the lexer takes off the front**, token by token. -/
theorem tiles_iff : Tiles (u ++ s) (Text.byteLength u) ps stop ↔
    ∃ xs rest, s = textOf xs ++ rest ∧ Reads xs rest ∧ ps = place (Text.byteLength u) xs ∧
      stop = Text.byteLength (u ++ textOf xs) := by
  induction ps generalizing u s stop with
  | nil =>
    constructor
    · intro h
      exact ⟨[], s, rfl, trivial, rfl, by rw [← h, textOf_nil, List.append_nil]⟩
    · rintro ⟨xs, rest, -, -, hps, rfl⟩
      cases xs with
      | nil => rw [textOf_nil, List.append_nil]; rfl
      | cons x xs => cases hps
  | cons p ps ih =>
    constructor
    · rintro ⟨hstart, hlongest, hps⟩
      obtain ⟨rest, rfl, htakes⟩ := (isLongest_iff hstart).1 hlongest
      rw [Token.stop, hstart, ← Text.byteLength_append, ← List.append_assoc, ih] at hps
      obtain ⟨xs, rest, rfl, hreads, rfl, rfl⟩ := hps
      refine ⟨p.lexeme :: xs, rest, ?_, ⟨htakes, hreads⟩, ?_, ?_⟩
      · rw [textOf_cons, List.append_assoc]
        rfl
      · rw [place, ← Text.byteLength_append, Token.lexeme, ← hstart]
      · rw [textOf_cons, List.append_assoc]
        rfl
    · rintro ⟨_ | ⟨x, xs⟩, rest, rfl, hreads, hps, rfl⟩
      · cases hps
      · rw [place, List.cons.injEq] at hps
        obtain ⟨rfl, rfl⟩ := hps
        have hrest := (ih (u := u ++ x.2)).2
          ⟨xs, rest, rfl, hreads.2, by rw [Text.byteLength_append], rfl⟩
        rw [Text.byteLength_append, List.append_assoc, List.append_assoc] at hrest
        rw [textOf_cons, List.append_assoc]
        exact ⟨rfl, (isLongest_iff rfl).2 ⟨_, rfl, hreads.1⟩, hrest⟩

/-- Tokens of a tiling stand one behind the other, and none is empty. -/
theorem Tiles.spans {code : List Char} (h : Tiles code start ps stop) :
    (∀ p ∈ ps, start ≤ p.start ∧ p.start < p.stop ∧ Text.Span.IsRange code ⟨p.start, p.stop⟩) ∧
      ps.Pairwise fun p q => p.stop ≤ q.start := by
  induction ps generalizing start with
  | nil => exact ⟨nofun, .nil⟩
  | cons p ps ih =>
    obtain ⟨rfl, hp, hps⟩ := h
    obtain ⟨hall, hpairwise⟩ := ih hps
    have hlt : p.start < p.stop :=
      Nat.lt_add_of_pos_right (Text.byteLength_pos (TokenKind.ne_nil_of_matches hp.shaped))
    refine ⟨List.forall_mem_cons.2 ⟨⟨Nat.le_refl _, hlt, Text.isRange_of_slice? hp.cut⟩,
      fun q hq => ?_⟩, .cons (fun q hq => (hall q hq).1) hpairwise⟩
    obtain ⟨hle, hrest⟩ := hall q hq
    exact ⟨hlt.le.trans hle, hrest⟩

theorem Tiles.isLongest_of_mem {code : List Char} (h : Tiles code start ps stop) (hp : p ∈ ps) :
    IsLongest code p := by
  induction ps generalizing start with
  | nil => cases hp
  | cons q ps ih =>
    rcases List.mem_cons.1 hp with rfl | hp
    · exact h.2.1
    · exact ih h.2.2 hp

/-- **The lexer finds the tiling of the whole text**, if there is one. -/
theorem tiles_iff_lexemes {code : List Char} :
    Tiles code 0 ps (Text.byteLength code) ↔ lexemes 0 code = .ok ps := by
  have htiles : Tiles code 0 ps (Text.byteLength code) ↔ ∃ xs rest, code = textOf xs ++ rest ∧
      Reads xs rest ∧ ps = place 0 xs ∧ Text.byteLength code = Text.byteLength (textOf xs) :=
    tiles_iff (u := [])
  rw [htiles, lexemes_eq_ok_iff]
  constructor
  · rintro ⟨xs, rest, hcode, hreads, rfl, hsize⟩
    obtain rfl : rest = [] := by
      by_contra hrest
      have hpos := Text.byteLength_pos hrest
      rw [hcode, Text.byteLength_append] at hsize
      omega
    exact ⟨xs, hreads, by rw [hcode, List.append_nil], rfl⟩
  · rintro ⟨xs, hreads, rfl, rfl⟩
    exact ⟨xs, [], (List.append_nil _).symm, hreads, rfl, rfl⟩

theorem tokens_eq_ok_iff {code : List Char} {ts : List Token} : tokens code = .ok ts ↔
    ∃ ps, Tiles code 0 ps (Text.byteLength code) ∧ ts = ps.filter fun p => !p.kind.isTrivia := by
  rw [tokens]
  simp only [tiles_iff_lexemes]
  cases lexemes 0 code with
  | error e => exact ⟨nofun, nofun⟩
  | ok ps =>
    constructor
    · intro h
      exact ⟨ps, rfl, (Except.ok.inj h).symm⟩
    · rintro ⟨_, hps, rfl⟩
      cases hps
      rfl

theorem isLongest_of_mem_tokens {code : List Char} {ts : List Token} (h : tokens code = .ok ts)
    (hp : p ∈ ts) : IsLongest code p := by
  obtain ⟨ps, htiles, rfl⟩ := tokens_eq_ok_iff.1 h
  exact htiles.isLongest_of_mem (List.mem_of_mem_filter hp)

/-! ## Where the lexer stops -/

theorem tokens_eq_error_iff {code : List Char} {e : AnalyzeError} :
    tokens code = .error e ↔ lexemes 0 code = .error e := by
  rw [tokens]
  cases lexemes 0 code with
  | error => exact Iff.rfl
  | ok ps => exact iff_of_false nofun nofun

/-- **Where no token starts**, the lexer stops. -/
theorem exists_lexemes_eq_error (h : munch? c s = none) (offset : Nat) :
    ∃ message, lexemes offset (c :: s) = .error (.unexpected offset.toUInt32 message) := by
  rw [lexemes.eq_def]
  simp only [h]
  exact ⟨_, rfl⟩

/-- **Where the lexer stops**, no token starts, and it has taken all that comes before. -/
theorem exists_of_lexemes_eq_error {e : AnalyzeError} (h : lexemes offset s = .error e) :
    ∃ xs c rest message, Reads xs (c :: rest) ∧ s = textOf xs ++ c :: rest ∧
      munch? c rest = none ∧
      e = .unexpected (offset + Text.byteLength (textOf xs)).toUInt32 message := by
  fun_induction lexemes offset s with
  | case1 => cases h
  | case2 offset c rest hmunch =>
    cases h
    exact ⟨[], c, rest, _, trivial, rfl, hmunch, rfl⟩
  | case3 offset c rest k n hmunch =>
    rename_i text ih
    rcases hrest : lexemes (offset + Text.byteLength (c :: rest.take n)) (rest.drop n) with e' | us
    · rw [hrest] at h
      cases h
      obtain ⟨xs, d, rest', message, hreads, htext, hnone, rfl⟩ := ih hrest
      refine ⟨(k, c :: rest.take n) :: xs, d, rest', message, ⟨?_, hreads⟩, ?_, hnone, ?_⟩
      · rw [← htext]
        exact takes_of_munch? hmunch
      · rw [textOf_cons, List.append_assoc, ← htext, List.cons_append, List.take_append_drop]
      · rw [textOf_cons, Text.byteLength_append, Nat.add_assoc]
    · rw [hrest] at h
      cases h

/-- Blanks are tokens of their own, so the lexer does not stop at them. -/
theorem munch?_ne_none_of_mem_skippedChars (hc : c ∈ skippedChars) (s : List Char) :
    munch? c s ≠ none := by
  intro hnone
  have hall : ∀ c ∈ skippedChars, (TokenKind.blank.shape.derivative c).nullable = true :=
    List.all_iff_forall_prop.1 (by decide)
  have hblank := Regex.matches_derivative_iff.1 (Regex.nullable_iff.1 (hall c hc))
  exact munch?_eq_none_iff.1 hnone .blank [c] (by simp) hblank

/-- The lexer is stuck at a place that it reaches and where no token starts. -/
theorem isStuck_iff {code : List Char} : IsStuck code offset ↔
    ∃ xs c rest, Reads xs (c :: rest) ∧ code = textOf xs ++ c :: rest ∧
      munch? c rest = none ∧ offset = Text.byteLength (textOf xs) := by
  constructor
  · -- A character with which no token starts is no blank, so nothing is lost here.
    rintro ⟨ps, c, rest, htiles, hdrop, -, hnone⟩
    obtain ⟨xs, s, hcode, hreads, -, hoffset⟩ := (tiles_iff (u := []) (s := code)).1 htiles
    rw [List.nil_append] at hoffset
    rw [hcode, hoffset, Text.dropBytes?_append] at hdrop
    cases hdrop
    exact ⟨xs, c, rest, hreads, hcode, munch?_eq_none_iff.2 hnone, hoffset⟩
  · rintro ⟨xs, c, rest, hreads, rfl, hmunch, rfl⟩
    have htiles : Tiles (textOf xs ++ c :: rest) 0 (place 0 xs) (Text.byteLength (textOf xs)) :=
      (tiles_iff (u := [])).2 ⟨xs, c :: rest, rfl, hreads, rfl, rfl⟩
    exact ⟨_, c, rest, htiles, Text.dropBytes?_append _ _,
      fun hblank => munch?_ne_none_of_mem_skippedChars hblank rest hmunch,
      munch?_eq_none_iff.1 hmunch⟩

/-- Where a token is taken, the lexer does not stop. -/
theorem munch?_ne_none_of_takes {rest : List Char} (h : Takes k t s) (hs : c :: rest = t ++ s) :
    munch? c rest ≠ none := by
  obtain ⟨d, u, rfl, hmunch⟩ := h
  rw [List.cons_append, List.cons.injEq] at hs
  rw [hs.1, hs.2, hmunch]
  exact Option.some_ne_none _

/-- Two ways to take tokens off the front until none starts are the same. -/
theorem textOf_eq_of_reads {xs ys : List Lexeme} {d : Char} {rest : List Char}
    (hxs : Reads xs (c :: s)) (hys : Reads ys (d :: rest)) (hc : munch? c s = none)
    (hd : munch? d rest = none) (h : textOf xs ++ c :: s = textOf ys ++ d :: rest) :
    textOf xs = textOf ys := by
  induction xs generalizing ys with
  | nil =>
    rcases ys with - | ⟨y, ys⟩
    · rfl
    · rw [textOf_nil, List.nil_append, textOf_cons, List.append_assoc] at h
      exact absurd hc (munch?_ne_none_of_takes hys.1 h)
  | cons x xs ih =>
    rw [textOf_cons, List.append_assoc] at h
    rcases ys with - | ⟨y, ys⟩
    · exact absurd hd (munch?_ne_none_of_takes hxs.1 h.symm)
    · rw [textOf_cons, List.append_assoc] at h
      obtain ⟨hx, hrest⟩ := eq_of_noLonger hxs.1.shape_matches hys.1.shape_matches hxs.1.noLonger
        hys.1.noLonger h
      rw [textOf_cons, textOf_cons, hx, ih hxs.2 hys.2 hrest]

/-- **The lexer is stuck at one place at most.** -/
theorem IsStuck.eq {code : List Char} {other : Nat} (h : IsStuck code offset)
    (h' : IsStuck code other) : offset = other := by
  obtain ⟨xs, c, s, hxs, rfl, hc, rfl⟩ := isStuck_iff.1 h
  obtain ⟨ys, d, rest, hys, hsplit, hd, rfl⟩ := isStuck_iff.1 h'
  rw [textOf_eq_of_reads hxs hys hc hd hsplit]

theorem IsStuck.isBoundary {code : List Char} (h : IsStuck code offset) :
    Text.IsBoundary code offset := by
  obtain ⟨xs, c, s, -, rfl, -, rfl⟩ := isStuck_iff.1 h
  exact Text.isBoundary_append _ _

/-- The place where the lexer is stuck is the one that is reported. -/
theorem IsStuck.exists_error {code : List Char} (h : IsStuck code offset) :
    ∃ message, tokens code = .error (.unexpected offset.toUInt32 message) := by
  obtain ⟨xs, c, s, hreads, rfl, hmunch, rfl⟩ := isStuck_iff.1 h
  obtain ⟨message, hmessage⟩ := exists_lexemes_eq_error hmunch (0 + Text.byteLength (textOf xs))
  refine ⟨message, tokens_eq_error_iff.2 ?_⟩
  rw [lexemes_textOf_append hreads, hmessage, Nat.zero_add]
  rfl

/-- **What is reported is the place where the lexer is stuck.** -/
theorem exists_isStuck_of_error {code : List Char} {e : AnalyzeError} (h : tokens code = .error e) :
    ∃ offset message, e = .unexpected offset.toUInt32 message ∧ IsStuck code offset := by
  obtain ⟨xs, c, s, message, hreads, hcode, hmunch, rfl⟩ :=
    exists_of_lexemes_eq_error (tokens_eq_error_iff.1 h)
  exact ⟨_, message, rfl, isStuck_iff.2 ⟨xs, c, s, hreads, hcode, hmunch, Nat.zero_add _⟩⟩

/-- **The lexer finds the longest tokens.**  It succeeds exactly if the whole text can be tiled with
tokens that are as long as possible, and answers those that are neither blanks nor comments.  Tiles
stand one behind the other between characters.  It fails exactly if such tiles reach a character
other than a blank with which no token starts, and reports the first place where this is so.  The
report keeps the offset of this place in 32 bits, which is the offset itself in a text of less than
2³² bytes. -/
theorem tokens_tile (code : String) :
    (∀ ts, tokens code.toList = .ok ts ↔ ∃ ps, Tiles code.toList 0 ps code.utf8ByteSize ∧
      ts = ps.filter fun p => !p.kind.isTrivia) ∧
    (∀ ps stop, Tiles code.toList 0 ps stop →
      (∀ p ∈ ps, p.start < p.stop ∧ Text.Span.IsRange code.toList ⟨p.start, p.stop⟩) ∧
        ps.Pairwise fun p q => p.stop ≤ q.start) ∧
    (∀ e, tokens code.toList = .error e → ∃ offset message,
      e = .unexpected offset.toUInt32 message ∧ IsStuck code.toList offset ∧
      (∀ other, IsStuck code.toList other → offset ≤ other) ∧
      (code.utf8ByteSize < 2 ^ 32 → offset.toUInt32.toNat = offset)) ∧
    (∀ offset, IsStuck code.toList offset → ∃ e, tokens code.toList = .error e) := by
  refine ⟨fun ts => ?_, fun ps stop h => ⟨fun p hp => (h.spans.1 p hp).2, h.spans.2⟩,
    fun e he => ?_, fun offset h => ?_⟩
  · rw [tokens_eq_ok_iff, Text.byteLength_toList]
  · obtain ⟨offset, message, heq, hstuck⟩ := exists_isStuck_of_error he
    refine ⟨offset, message, heq, hstuck, fun other h => (hstuck.eq h).le, fun hsize => ?_⟩
    exact hstuck.isBoundary.toNat_toUInt32 (by rwa [Text.byteLength_toList])
  · obtain ⟨message, h⟩ := h.exists_error
    exact ⟨_, h⟩

/-- A number whose exponent has no digits and a comment that is never closed fall apart into shorter
tokens, and a string that is never closed is an error. -/
theorem tokens_tile_of_unfinished :
    let code := "1.5e+/* x"
    let unclosed := "/*é*/ 'x"
    (∃ ps, Tiles code.toList 0 ps 9 ∧
      [⟨.number, 0, ['1', '.', '5']⟩, ⟨.identifier, 3, ['e']⟩, ⟨.punctuation, 4, ['+']⟩,
        ⟨.punctuation, 5, ['/']⟩, ⟨.punctuation, 6, ['*']⟩, ⟨.identifier, 8, ['x']⟩] =
          ps.filter fun p => !p.kind.isTrivia) ∧
      IsStuck unclosed.toList 7 ∧ ∀ other, IsStuck unclosed.toList other → 7 ≤ other := by
  intro code unclosed
  have hok : tokens code.toList = .ok
      [⟨.number, 0, ['1', '.', '5']⟩, ⟨.identifier, 3, ['e']⟩, ⟨.punctuation, 4, ['+']⟩,
        ⟨.punctuation, 5, ['/']⟩, ⟨.punctuation, 6, ['*']⟩, ⟨.identifier, 8, ['x']⟩] := by
    decide +kernel
  have herror : tokens unclosed.toList = .error (.unexpected 7 "unrecognized input `'x`") := by
    decide +kernel
  obtain ⟨offset, message, heq, hstuck, hfirst, hexact⟩ := (tokens_tile unclosed).2.2.1 _ herror
  obtain ⟨hoffset, -⟩ := AnalyzeError.unexpected.inj heq
  obtain rfl : 7 = offset := by
    rw [← hexact (by decide), ← hoffset]
    rfl
  exact ⟨((tokens_tile code).1 _).1 hok, hstuck, hfirst⟩

end Fragment
end RuleAggregate
