import Mathlib.Algebra.Group.Nat.Even
import Mathlib.Data.List.Induction
import RuleAggregate.Proofs.Code.Declarations
import RuleAggregate.Proofs.Code.Reports

/-!
# Where comments end

The shape of a comment lets a star stand inside it together with the character after it.  So of
several stars before a slash every other one takes its neighbour along, and the slash closes the
comment only if the stars come out even.  Where a comment ends is therefore not told by its first
closing mark alone.

## What is here

* `Fragment.closing?`, `Fragment.munch?_comment` — the end of a comment as a walk along the text,
  and what is taken off the front where a comment opens.
* `Fragment.starsAtEnd`, `Fragment.closing?_append` — the stars before the mark decide.
* `Fragment.takes_comment_iff`, `Fragment.takes_of_not_even` — which comments end at their first
  closing mark, and what becomes of the others.
* `Fragment.tokens_around` — the tokens before a comment and after it.
* `Analyzer.comment_ends_iff` — **what is analyzed around a comment.**
-/

set_option autoImplicit false

namespace RuleAggregate
namespace Fragment

variable {s body post : List Char} {c : Char} {n : Nat}

/-! ## The closing mark -/

/-- How far the comment goes on whose opening mark is right before the text; none if it does not
end.  `starred` says whether the character before the text is a star that a slash may follow: of
several stars in a row only every other one is. -/
def closing? (starred : Bool) : List Char → Option Nat
  | [] => none
  | c :: s => if starred = true ∧ c = '/' then some 1 else
      (closing? (!starred && c == '*') s).map (· + 1)

/-- A star with the character after it, or another character. -/
def commentPiece : Regex :=
  .alt (.char (.except "*")) (.seq (.char (.single '*')) (.char (.except "/")))

/-- What may follow the opening mark of a comment. -/
def insideComment : Regex := .seq (.star commentPiece) (.literal "*/")

/-- What may follow a star inside a comment. -/
def afterStar : Regex :=
  .alt (.seq (.seq (.char (.except "/")) (.star commentPiece)) (.literal "*/"))
    (.char (.single '/'))

theorem derivative_blockComment :
    (TokenKind.blockComment.shape.derivative '/').derivative '*' = insideComment := by
  rfl

theorem derivative_insideComment (c : Char) :
    insideComment.derivative c = if c = '*' then afterStar else insideComment := by
  split
  · next h =>
    rw [h]
    rfl
  · next h =>
    have hexcept : (CharClass.except "*").contains c = true := by
      rw [CharClass.contains_except]
      simp [h]
    have hsingle : (CharClass.single '*').contains c = false := by
      rw [← Bool.not_eq_true, CharClass.contains_single_iff]
      exact h
    have hliteral : Regex.literal "*/" = .seq (.char (.single '*')) (.char (.single '/')) := rfl
    rw [insideComment, commentPiece, hliteral]
    simp only [Regex.derivative, Regex.nullable, hexcept, hsingle, if_true, if_false,
      Bool.false_eq_true]
    rfl

theorem derivative_afterStar (c : Char) :
    afterStar.derivative c = if c = '/' then .empty else insideComment := by
  have hexcept : (CharClass.except "/").contains c = decide (c ≠ '/') := by
    rw [CharClass.contains_except]
    simp
  have hsingle : (CharClass.single '/').contains c = decide (c = '/') := by
    rw [Bool.eq_iff_iff, CharClass.contains_single_iff, decide_eq_true_iff]
  rw [afterStar]
  simp only [Regex.derivative, Regex.nullable, hexcept, hsingle, Bool.false_and]
  by_cases h : c = '/'
  · simp only [h, if_true, if_false, Bool.false_eq_true, ne_eq, not_true, decide_false,
      decide_true]
    rfl
  · simp only [h, if_true, if_false, Bool.false_eq_true, ne_eq, not_false_eq_true, decide_false,
      decide_true]
    rfl

theorem longest?_comment (s : List Char) :
    insideComment.longest? s = closing? false s ∧ afterStar.longest? s = closing? true s := by
  induction s with
  | nil => exact ⟨rfl, rfl⟩
  | cons c s ih =>
    rw [Regex.longest?_cons_eq rfl, Regex.longest?_cons_eq rfl, derivative_insideComment,
      derivative_afterStar, closing?, closing?]
    constructor
    · split
      · next h => simp [h, ih.2]
      · next h => simp [beq_false_of_ne h, ih.1]
    · split
      · next h => simp [h, Regex.longest?_empty]
      · next h => simp [h, ih.1]

/-- A slash and a star open a comment, if it ends; if not, the slash stands for itself. -/
theorem munch?_comment (s : List Char) :
    munch? '/' ('*' :: s) = match closing? false s with
      | some n => some (.blockComment, n + 1)
      | none => some (.punctuation, 0) := by
  have hstart : TokenKind.startingWith '/' =
      [.lineComment, .blockComment, .operator, .punctuation] := by decide
  have hpunctuation : TokenKind.punctuation.shape.derivative '/' = .empty := by decide
  have hblock : (TokenKind.blockComment.shape.derivative '/').longest? ('*' :: s) =
      (closing? false s).map (· + 1) := by
    rw [Regex.longest?_cons_eq (by decide), derivative_blockComment, (longest?_comment s).1]
  rw [munch?_eq_foldl, hstart]
  simp only [List.foldl_cons, List.foldl_nil, hpunctuation, hblock, Regex.longest?_empty,
    Regex.longest?_eq_none (r := TokenKind.lineComment.shape.derivative '/') (c := '*')
      (by decide) (by decide),
    Regex.longest?_eq_none (r := TokenKind.operator.shape.derivative '/') (c := '*')
      (by decide) (by decide)]
  cases closing? false s <;> rfl

/-! ## Stars before the closing mark -/

/-- How many stars the text ends with. -/
def starsAtEnd (s : List Char) : Nat := (s.reverse.takeWhile (· == '*')).length

theorem starsAtEnd_concat (s : List Char) (c : Char) :
    starsAtEnd (s ++ [c]) = if c = '*' then starsAtEnd s + 1 else 0 := by
  rw [starsAtEnd, List.reverse_concat, List.takeWhile_cons]
  by_cases h : c = '*'
  · simp [h, starsAtEnd]
  · simp [h]

theorem exists_concat_of_odd (h : ¬ Even (starsAtEnd s)) : ∃ t, s = t ++ ['*'] := by
  rcases List.eq_nil_or_concat s with rfl | ⟨t, c, rfl⟩
  · exact absurd (by decide) h
  · rw [List.concat_eq_append, starsAtEnd_concat] at h
    split at h
    · next hc => exact ⟨t, by rw [hc, List.concat_eq_append]⟩
    · exact absurd (by decide) h

/-- Reading goes on after a text in which no closing mark stands, and whether a slash may close the
comment there depends on how many stars the text ends with. -/
theorem closing?_append (h : ¬ ['*', '/'] <:+: body) (s : List Char) :
    closing? false (body ++ s) =
      (closing? (decide (¬ Even (starsAtEnd body))) s).map (· + body.length) := by
  induction body using List.reverseRecOn generalizing s with
  | nil =>
    show closing? false s = (closing? false s).map fun n => n
    rw [Option.map_id']
  | append_singleton body c ih =>
    have hbody : ¬ ['*', '/'] <:+: body := fun hmark =>
      h (hmark.trans (List.prefix_append body [c]).isInfix)
    have hopen : ¬ (decide (¬ Even (starsAtEnd body)) = true ∧ c = '/') := by
      rintro ⟨hodd, rfl⟩
      obtain ⟨t, rfl⟩ := exists_concat_of_odd (of_decide_eq_true hodd)
      exact h ⟨t, [], by simp⟩
    have hstar : (!decide (¬ Even (starsAtEnd body)) && c == '*') =
        decide (¬ Even (starsAtEnd (body ++ [c]))) := by
      rw [starsAtEnd_concat]
      by_cases hc : c = '*'
      · rw [if_pos hc, hc]
        simp only [Nat.even_add_one, decide_not, Bool.not_not, beq_self_eq_true, Bool.and_true]
      · simp [hc]
    rw [List.append_assoc, ih hbody, List.singleton_append, closing?, if_neg hopen, hstar,
      List.length_append, List.length_singleton, Option.map_map]
    congr 1
    funext n
    exact Nat.add_right_comm n 1 body.length

theorem closing?_closing (starred : Bool) (s : List Char) :
    closing? starred ('*' :: '/' :: s) =
      if starred = true then (closing? false s).map (· + 2) else some 2 := by
  cases starred
  · rfl
  · simp [closing?]

theorem pos_of_closing? {starred : Bool} (h : closing? starred s = some n) : 0 < n := by
  rcases s with - | ⟨c, s⟩
  · cases h
  · rw [closing?] at h
    split at h
    · cases h
      exact Nat.one_pos
    · obtain ⟨m, -, rfl⟩ := Option.map_eq_some_iff.1 h
      exact m.succ_pos

theorem le_length_of_closing? (h : closing? false s = some n) : n ≤ s.length := by
  rw [← (longest?_comment s).1] at h
  exact (Regex.matches_of_longest? h).1

/-- The comment with the given text up to its first closing mark. -/
def comment (body : List Char) : List Char := '/' :: '*' :: (body ++ ['*', '/'])

/-- What is taken off the front where a comment starts whose first closing mark is known. -/
theorem munch?_body (h : ¬ ['*', '/'] <:+: body) (post : List Char) :
    munch? '/' ('*' :: (body ++ ['*', '/']) ++ post) =
      if Even (starsAtEnd body) then some (.blockComment, body.length + 3)
      else match closing? false post with
        | some n => some (.blockComment, n + (body.length + 3))
        | none => some (.punctuation, 0) := by
  have hmark : ['*', '/'] ++ post = '*' :: '/' :: post := rfl
  rw [List.cons_append, List.append_assoc, munch?_comment, closing?_append h, hmark,
    closing?_closing]
  by_cases heven : Even (starsAtEnd body)
  · simp [heven]
    omega
  · simp only [heven, not_false_eq_true, decide_true, if_true, if_false]
    rcases closing? false post with - | n
    · rfl
    · simp only [Option.map_some]
      congr 2
      omega

/-- **A comment ends at its first closing mark if an even number of stars precede the mark.** -/
theorem takes_comment_iff (h : ¬ ['*', '/'] <:+: body) :
    Takes .blockComment (comment body) post ↔ Even (starsAtEnd body) := by
  have htakes : Takes .blockComment (comment body) post ↔
      munch? '/' ('*' :: (body ++ ['*', '/']) ++ post) =
        some (.blockComment, body.length + 3) := by
    constructor
    · rintro ⟨c, u, hu, hmunch⟩
      cases hu
      simpa using hmunch
    · intro hmunch
      exact ⟨'/', _, rfl, by simpa using hmunch⟩
  rw [htakes, munch?_body h]
  by_cases heven : Even (starsAtEnd body)
  · simp [heven]
  · rcases hpost : closing? false post with - | n
    · simp [heven]
    · have hpos := pos_of_closing? hpost
      simp only [heven, if_false, Option.some.injEq, Prod.mk.injEq, true_and, iff_false]
      omega

/-- Otherwise the comment goes on up to a later mark, or there is no comment at all. -/
theorem takes_of_not_even (h : ¬ ['*', '/'] <:+: body) (hodd : ¬ Even (starsAtEnd body))
    (post : List Char) :
    (∃ more rest, more ≠ [] ∧ post = more ++ rest ∧
        Takes .blockComment (comment body ++ more) rest) ∨
      Takes .punctuation ['/'] ('*' :: (body ++ ['*', '/']) ++ post) := by
  have hmunch := munch?_body h post
  rw [if_neg hodd] at hmunch
  rcases hpost : closing? false post with - | n
  · rw [hpost] at hmunch
    exact .inr ⟨'/', [], rfl, hmunch⟩
  · rw [hpost] at hmunch
    have hn : (post.take n).length = n := List.length_take_of_le (le_length_of_closing? hpost)
    refine .inl ⟨post.take n, post.drop n, fun hnil => ?_, (List.take_append_drop n post).symm,
      '/', '*' :: (body ++ ['*', '/']) ++ post.take n, rfl, ?_⟩
    · rw [hnil] at hn
      exact Nat.ne_of_lt (pos_of_closing? hpost) hn
    · rw [List.append_assoc, List.take_append_drop, hmunch]
      simp [hn]
      omega

/-- The tokens around a blank or a comment. -/
theorem tokens_around {code t : List Char} {k : TokenKind} {xs : List Lexeme} {ts : List Token}
    (hts : tokens code = .ok ts) (hcode : code = textOf xs ++ (t ++ post))
    (hxs : Reads xs (t ++ post)) (htakes : Takes k t post) (hk : k.isTrivia = true) :
    let start := Text.byteLength (textOf xs)
    let stop := start + Text.byteLength t
    (∀ u ∈ ts, u.stop ≤ start ∨ stop ≤ u.start) ∧
      ∃ later, tokensFrom stop post = .ok later ∧ ts = meaningful 0 xs ++ later := by
  intro start stop
  have hall : tokensFrom 0 code = (tokensFrom stop post).map (meaningful 0 xs ++ ·) := by
    rw [hcode, tokensFrom_textOf_append hxs, Nat.zero_add, tokensFrom_of_takes_trivia htakes hk]
  rcases hpost : tokensFrom stop post with e | later
  · rw [hpost] at hall
    exact nomatch hts.symm.trans hall
  · rw [hpost] at hall
    obtain rfl : ts = meaningful 0 xs ++ later := Except.ok.inj (hts.symm.trans hall)
    obtain ⟨ys, -, -, rfl⟩ := tokensFrom_eq_ok_iff.1 hpost
    refine ⟨fun u hu => ?_, _, rfl, rfl⟩
    rcases List.mem_append.1 hu with hu | hu
    · have hplace := (start_of_mem_place (List.mem_of_mem_filter hu)).2
      exact .inl (by rwa [Nat.zero_add] at hplace)
    · exact .inr (start_of_mem_place (List.mem_of_mem_filter hu)).1

end Fragment

/-! ## Analysis -/

namespace Analyzer

open Fragment

/-- **Where comments end.**  Let a comment start at a token of its own, and take the text up to its
first closing mark.  If the text between the marks ends with an even number of stars, the comment
ends there: no token lies inside, so nothing in it is reported or declares a variable, and the
tokens of all that follows are analyzed.  If the number of stars is odd, the first mark is passed
over: the comment goes on, or it falls apart into its characters.  Declared names are recorded with
the places of their tokens, in 32 bits. -/
theorem comment_ends_iff {code : String} {kind : FragmentKind} {available : Available}
    {a : Analysis} (h : lexical code kind available = .ok a) {xs : List Lexeme}
    {body post : List Char} (hcode : code.toList = textOf xs ++ (comment body ++ post))
    (hxs : Reads xs (comment body ++ post)) (hbody : ¬ ['*', '/'] <:+: body) :
    let start := Text.byteLength (textOf xs)
    let stop := start + Text.byteLength (comment body)
    ∃ ts, Fragment.tokens code.toList = .ok ts ∧
      (∀ name, name ∈ a.references.names ∨ name ∈ a.references.globals.keys →
        ∃ t ∈ ts, IsMention a.locals ts t ∧ t.name = name) ∧
      (∀ l ∈ a.locals, ∀ n ∈ l.names, ∃ t ∈ ts, t.name = n.name ∧
        n.span.start = t.start.toUInt32.toNat ∧
        (code.utf8ByteSize < 2 ^ 32 → t.start = n.span.start)) ∧
      (Takes .blockComment (comment body) post ↔ Even (starsAtEnd body)) ∧
      (Even (starsAtEnd body) →
        (∀ t ∈ ts, t.stop ≤ start ∨ stop ≤ t.start) ∧
          ∃ later, tokensFrom stop post = .ok later ∧ ts = meaningful 0 xs ++ later) ∧
      (¬ Even (starsAtEnd body) →
        (∃ more rest, more ≠ [] ∧ post = more ++ rest ∧
          Takes .blockComment (comment body ++ more) rest) ∨
        ∃ rest, comment body ++ post = '/' :: rest ∧ Takes .punctuation ['/'] rest) := by
  intro start stop
  obtain ⟨ts, hts, hlocals, hreport⟩ := report_mentions h
  refine ⟨ts, hts, fun name hname => ?_, fun l hl n hn => ?_, takes_comment_iff hbody,
    fun heven => ?_, fun hodd => ?_⟩
  · obtain ⟨t, ht, rfl⟩ := mem_map_mentions_iff.1 (hreport.mem_of_mem_keys hname)
    obtain ⟨pre, rest, hmem, -⟩ := ht.1.2
    exact ⟨t, by simp [hmem], ht, rfl⟩
  · rw [hlocals] at hl
    cases kind with
    | expression => cases hl
    | block =>
      obtain ⟨t, ht, -, hname, hstart⟩ := exists_token_of_mem_names hl hn
      refine ⟨t, ht, hname.symm, hstart, fun hsize => ?_⟩
      rw [hstart]
      exact (UInt32.toNat_ofNat_of_lt'
        ((Nat.le_add_right _ _).trans_lt (stop_lt_of_mem_tokens hts hsize ht))).symm
  · exact tokens_around hts hcode hxs ((takes_comment_iff hbody).2 heven) rfl
  · rcases takes_of_not_even hbody hodd post with hmore | hslash
    · exact .inl hmore
    · exact .inr ⟨_, rfl, hslash⟩

/-- A name before a comment and one after it are reported, and the name inside is not. -/
theorem comment_ends_iff_of_stars :
    let code := "x /** a ***/ b"
    let available : Available :=
      ⟨.ofList [("a", .any), ("b", .any), ("x", .any)], .empty⟩
    let body := "* a **".toList
    ∃ a ts later, lexical code .expression available = .ok a ∧
      a.references.names = ["x", "b"] ∧ Fragment.tokens code.toList = .ok ts ∧
      Takes .blockComment (comment body) " b".toList ∧
      (∀ t ∈ ts, t.stop ≤ 2 ∨ 12 ≤ t.start) ∧
      tokensFrom 12 " b".toList = .ok later ∧ ts = ⟨.identifier, 0, ['x']⟩ :: later := by
  intro code available body
  obtain ⟨a, ha, hnames⟩ : ∃ a, lexical code .expression available = .ok a ∧
      a.references.names = ["x", "b"] := exists_of_any (by decide +kernel)
  have hcode : code.toList = textOf [(.identifier, ['x']), (.blank, [' '])] ++
      (comment body ++ " b".toList) := by
    decide +kernel
  have hreads : Reads [(.identifier, ['x']), (.blank, [' '])] (comment body ++ " b".toList) :=
    ⟨⟨'x', [], rfl, by decide +kernel⟩, ⟨' ', [], rfl, by decide +kernel⟩, trivial⟩
  have heven : Even (starsAtEnd body) := by decide +kernel
  obtain ⟨ts, hts, -, -, hcomment, hall, -⟩ :=
    comment_ends_iff ha hcode hreads (by decide +kernel)
  obtain ⟨hout, later, hlater, hsplit⟩ := hall heven
  exact ⟨a, ts, later, ha, hnames, hts, hcomment.2 heven, hout, hlater, hsplit⟩

/-- One star before the closing mark, and the comment goes on to the end of the next one: the name
between them is not reported. -/
theorem comment_passes_mark :
    let code := "/** a **/ b /* c */"
    let available : Available := ⟨.ofList [("b", .any)], .empty⟩
    let body := "* a *".toList
    let post := " b /* c */".toList
    code.toList = comment body ++ post ∧ ¬ ['*', '/'] <:+: body ∧
      (∃ a, lexical code .expression available = .ok a ∧ a.references.names = []) ∧
      ¬ Takes .blockComment (comment body) post ∧
      Takes .blockComment (comment body ++ post) [] := by
  intro code available body post
  have hbody : ¬ ['*', '/'] <:+: body := by decide +kernel
  refine ⟨by decide +kernel, hbody, exists_of_any (by decide +kernel), ?_,
    ⟨'/', _, rfl, by decide +kernel⟩⟩
  rw [takes_comment_iff hbody]
  decide +kernel

end Analyzer
end RuleAggregate
