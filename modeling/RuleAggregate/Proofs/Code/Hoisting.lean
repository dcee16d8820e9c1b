import RuleAggregate.Code.Analysis
import RuleAggregate.Proofs.Code.Cutting
import RuleAggregate.Proofs.Code.Stretches

/-!
# What hoisting changes

Hoisting copies the code up to the type of a declaration, then the names with their values, each
with a semicolon behind it, and goes on behind the blanks and semicolons that follow.  Along the
parts of a block this is a walk in two kinds of step: a token is kept, or assignments take the place
of a declaration.  Every step keeps what is needed to know the tokens of the result, among it that
a comment that ends in the result has ended before.

## What is here

* `LocalTokens.kept`, `Fragment.Part.kept` — the tokens that are left.
* `Fragment.Stretch`, `Fragment.TakesPlace` — names with their values in the code, and the
  assignments that can take their place.
* `Fragment.exists_takesPlace_of_declaration` — a declaration can be replaced.
* `Fragment.Stands`, `Fragment.Yields` — where hoisting stands, and what it makes of the code from
  there on.
* `Fragment.Stands.token`, `Fragment.Stands.declaration` — the two kinds of step.
* `Fragment.Stands.exists_yields` — **what hoisting makes of a block.**
-/

set_option autoImplicit false

namespace RuleAggregate

namespace LocalTokens

/-- What is left of a declaration: the names with their values, and the word `final`. -/
def kept (d : LocalTokens) : List Token := d.final.toList ++ d.names.flatMap NameTokens.tokens

end LocalTokens

namespace Fragment

variable {code pre s s' : List Char} {x : Lexeme} {xs rest : List Lexeme} {t : Token}
  {after : List Token} {first n : NameTokens} {others : List NextTokens}

/-- The tokens that are left of a part. -/
def Part.kept : Part → List Token
  | token t => [t]
  | declaration d => d.kept

theorem Part.flatMap_kept_declaration (d : LocalTokens) (ps : List Part) :
    (declaration d :: ps).flatMap kept = d.kept ++ ps.flatMap kept := rfl

theorem Part.filterMap_declared?_declaration (code : List Char) (d : LocalTokens)
    (ps : List Part) : (declaration d :: ps).filterMap (declared? code) =
      d.declared code :: ps.filterMap (declared? code) := rfl

/-! ## Names -/

/-- A semicolon in place of what follows the tokens. -/
theorem reads_semicolon (h : Reads xs s) (hlast : ∀ x, xs.getLast? = some x → x.1.isTrivia = false)
    (hends : EndsToo s (';' :: s')) : Reads (xs ++ [(.semicolon, [';'])]) s' := by
  have hstart : TokenKind.startingWith ';' = [.semicolon] := by decide
  have hderivative : TokenKind.semicolon.shape.derivative ';' = .empty := by decide
  have hsemicolon : Takes .semicolon [';'] s' := by
    refine takes_of_single (u := []) hstart ?_
    rw [hderivative]
    exact Regex.longest?_empty s'
  rw [reads_append]
  refine ⟨h.of_joint hends (.semicolon fun x hx hkind => ?_), hsemicolon, trivial⟩
  have hnot := hlast x hx
  rw [hkind] at hnot
  cases hnot

/-- The tokens `ys`, which stand behind `pre`, are those of a name and its value. -/
structure Stretch (code pre : List Char) (n : NameTokens) (ys : List Lexeme) : Prop where
  span : n.localName.span = ⟨Text.byteLength pre, Text.byteLength (pre ++ textOf ys)⟩
  slice : Text.slice? code (Text.byteLength pre) (Text.byteLength (pre ++ textOf ys)) =
    some (textOf ys)
  starts : StartsName (textOf ys)
  last : ∀ y, ys.getLast? = some y → y.1.isTrivia = false
  words : words ys = words (n.tokens.map Token.lexeme)

theorem startsName_of_takes {offset : Nat} (h : Takes x.1 x.2 s) (ht : t = ⟨x.1, offset, x.2⟩)
    (hkind : t.kind = .identifier) (u : List Char) : StartsName (x.2 ++ u) := by
  have hx : x.1 = .identifier := (congrArg Token.kind ht).symm.trans hkind
  rw [hx] at h
  obtain ⟨c, v, hc, hstart⟩ := h.identifierStart
  exact ⟨c, v ++ u, by rw [hc, List.cons_append], hstart⟩

theorem exists_stretch_of_name (hcode : code = pre ++ textOf (x :: xs))
    (hreads : Reads (x :: xs) []) (hname : n.name = ⟨x.1, Text.byteLength pre, x.2⟩)
    (hts : meaningful (Text.byteLength pre + Text.byteLength x.2) xs = n.value ++ after) :
    ∃ ys rest, x :: xs = ys ++ rest ∧
      meaningful (Text.byteLength (pre ++ textOf ys)) rest = after ∧ Stretch code pre n ys := by
  obtain ⟨value, rest, rfl, hvalue, hrest, hend, hlast⟩ := meaningful_eq_append hts
  have hlength : Text.byteLength pre + Text.byteLength x.2 + Text.byteLength (textOf value) =
      Text.byteLength (pre ++ textOf (x :: value)) := by
    simp [Nat.add_assoc]
  have hx : x.1.isTrivia = false := by
    have hkind : x.1 = .identifier := (congrArg Token.kind hname).symm.trans n.isName
    rw [hkind]
    rfl
  refine ⟨x :: value, rest, rfl, hlength ▸ hrest, ?_, ?_, ?_, of_getLast?_cons hx hlast, ?_⟩
  · rw [NameTokens.localName, hname, ← hlength, ← hend]
    rfl
  · rw [hcode, ← List.cons_append, textOf_append, ← List.append_assoc, Text.byteLength_append]
    exact Text.slice?_append _ _ _
  · exact startsName_of_takes hreads.1 hname n.isName _
  · rw [← words_meaningful (Text.byteLength pre), meaningful_cons, hx, hvalue, NameTokens.tokens,
      hname]
    rfl

/-- The assignments `out` can take the place of `stretch`, which stands behind `pre` and in front of
`rest`. -/
structure TakesPlace (code pre : List Char) (ns : List NameTokens)
    (stretch rest out : List Lexeme) : Prop where
  hoist : ∀ next, hoistNames? code next (ns.map NameTokens.localName) =
    some (textOf out, resume code (Text.byteLength (pre ++ textOf stretch)))
  before : StartsName (textOf (stretch ++ rest))
  after : StartsName (textOf out)
  reads : ∀ s, EndsToo (textOf rest) (';' :: s) → Reads out s
  ends : ∀ s, EndsToo (textOf rest) (';' :: s) →
    EndsToo (textOf (stretch ++ rest)) (textOf out ++ s)
  words : words out = words ((ns.flatMap NameTokens.tokens).map Token.lexeme)

namespace TakesPlace

variable {ys between listed out : List Lexeme} {ns : List NameTokens}

/-- One name is left. -/
theorem of_name (h : Stretch code pre n ys) (hreads : Reads ys (textOf rest)) :
    TakesPlace code pre [n] ys rest (ys ++ [(.semicolon, [';'])]) := by
  refine ⟨fun next => ?_, ?_, ?_, fun s hs => reads_semicolon hreads h.last hs, fun s hs => ?_, ?_⟩
  · rw [List.map_singleton, hoistNames?, h.span, h.slice]
    simp [hoistNames?]
  · rw [textOf_append]
    exact h.starts.append _
  · rw [textOf_append]
    exact h.starts.append _
  · simpa using hs.append (textOf ys)
  · rw [words_append, h.words]
    simp [Fragment.words, TokenKind.isTrivia]

/-- More names follow. -/
theorem cons (h : Stretch code pre n ys) (hreads : Reads ys (textOf (between ++ (listed ++ rest))))
    (hnames : TakesPlace code (pre ++ textOf (ys ++ between)) ns listed rest out) :
    TakesPlace code pre (n :: ns) (ys ++ (between ++ listed)) rest
      (ys ++ [(.semicolon, [';'])] ++ out) := by
  have hall : ys ++ (between ++ listed) ++ rest = ys ++ (between ++ (listed ++ rest)) := by simp
  -- the semicolon takes the place of the comma
  have hcomma : ∀ s, EndsToo (textOf rest) (';' :: s) →
      EndsToo (textOf (between ++ (listed ++ rest))) (';' :: (textOf out ++ s)) := by
    intro s hs
    rw [textOf_append]
    exact (hnames.ends s hs).semicolon (.inr hnames.before.head?_ne)
  refine ⟨fun next => ?_, ?_, ?_, fun s hs => ?_, fun s hs => ?_, ?_⟩
  · rw [List.map_cons, hoistNames?, h.span, h.slice]
    simp [hnames.hoist]
  · rw [hall, textOf_append]
    exact h.starts.append _
  · rw [textOf_append, textOf_append, List.append_assoc]
    exact h.starts.append _
  · exact reads_append.2 ⟨reads_semicolon hreads h.last (hcomma s hs), hnames.reads s hs⟩
  · rw [hall, textOf_append]
    simpa using (hcomma s hs).append (textOf ys)
  · rw [words_append, words_append, h.words, hnames.words]
    simp [Fragment.words, TokenKind.isTrivia]

/-- What stands before the names is left out. -/
theorem drop (h : TakesPlace code (pre ++ textOf between) ns listed rest out)
    (hstarts : StartsName (textOf (between ++ listed ++ rest))) :
    TakesPlace code pre ns (between ++ listed) rest out := by
  refine ⟨fun next => ?_, hstarts, h.after, h.reads, fun s hs => ?_, h.words⟩
  · rw [h.hoist, textOf_append, List.append_assoc]
  · rw [List.append_assoc, textOf_append]
    exact (h.ends s hs).drop h.before _

end TakesPlace

/-- The names of a declaration with their values, each with a semicolon behind it. -/
theorem exists_takesPlace_of_names (hcode : code = pre ++ textOf (x :: xs))
    (hreads : Reads (x :: xs) []) (hname : first.name = ⟨x.1, Text.byteLength pre, x.2⟩)
    (hts : meaningful (Text.byteLength pre + Text.byteLength x.2) xs =
      first.value ++ (others.flatMap NextTokens.tokens ++ after)) :
    ∃ listed rest out, x :: xs = listed ++ rest ∧
      meaningful (Text.byteLength (pre ++ textOf listed)) rest = after ∧
      TakesPlace code pre (first :: others.map NextTokens.declared) listed rest out := by
  induction others generalizing pre first x xs with
  | nil =>
    obtain ⟨ys, rest, hsplit, hrest, hstretch⟩ := exists_stretch_of_name hcode hreads hname hts
    rw [hsplit, reads_append, List.append_nil] at hreads
    exact ⟨ys, rest, _, hsplit, hrest, .of_name hstretch hreads.1⟩
  | cons o others ih =>
    have htokens : (o :: others).flatMap NextTokens.tokens ++ after =
        (o.loose ++ [o.comma]) ++ o.declared.name ::
          (o.declared.value ++ (others.flatMap NextTokens.tokens ++ after)) := by
      simp [NextTokens.tokens, NameTokens.tokens]
    rw [htokens] at hts
    obtain ⟨ys, rest, hsplit, hrest, hstretch⟩ := exists_stretch_of_name hcode hreads hname hts
    -- the tokens between the names, and the blanks before the next one
    obtain ⟨between, rest, rfl, -, hrest, -⟩ := meaningful_eq_append hrest
    obtain ⟨gap, y, rest, rfl, -, -, hnext, hrest⟩ := meaningful_eq_cons hrest
    have hpre : Text.byteLength (pre ++ textOf ys) + Text.byteLength (textOf between) +
          Text.byteLength (textOf gap) =
        Text.byteLength (pre ++ textOf (ys ++ (between ++ gap))) := by
      simp [Nat.add_assoc]
    rw [hpre] at hnext hrest
    rw [hsplit, ← List.append_assoc between] at hreads hcode
    obtain ⟨hfirst, hnames⟩ := reads_append.1 hreads
    rw [List.append_nil] at hfirst
    obtain ⟨listed, rest', out, hlisted, hafter, hplace⟩ :=
      ih (by simp [hcode]) (reads_append.1 hnames).2 hnext hrest
    rw [hlisted] at hfirst
    refine ⟨ys ++ (between ++ gap ++ listed), rest', _, ?_, ?_, hplace.cons hstretch hfirst⟩
    · rw [hsplit, hlisted]
      simp
    · rw [← hafter]
      simp

/-! ## Declarations -/

theorem IsTrivia.of_getLast? {gap : List Lexeme} (h : IsTrivia gap) :
    ∀ x, gap.getLast? = some x → x.1.isTrivia = true :=
  fun x hx => h x (List.mem_of_getLast? hx)

/-- Two names have something between them. -/
theorem not_reads_identifiers {y : Lexeme} (hx : x.1 = .identifier) (hy : y.1 = .identifier) :
    ¬ Reads (x :: y :: xs) s := by
  rintro ⟨hfirst, hsecond, -⟩
  rw [hy] at hsecond
  obtain ⟨c, v, hc, hstart⟩ := hsecond.identifierStart
  rw [hx, textOf_cons, hc] at hfirst
  exact Bool.false_ne_true (hfirst.not_identifierStart.symm.trans hstart)

/-- What precedes the type of a declaration ends with a blank or a comment, if it is not empty. -/
theorem exists_stretch_of_type {d : LocalTokens} {offset : Nat} (hreads : Reads xs s)
    (hts : meaningful offset xs = d.final.toList ++ d.type :: after) :
    ∃ lead x rest, xs = lead ++ x :: rest ∧
      d.type = ⟨x.1, offset + Text.byteLength (textOf lead), x.2⟩ ∧
      meaningful (offset + Text.byteLength (textOf lead) + Text.byteLength x.2) rest = after ∧
      words lead = words (d.final.toList.map Token.lexeme) ∧
      ∀ z, lead.getLast? = some z → z.1.isTrivia = true := by
  rcases hfinal : d.final with - | f
  · rw [hfinal] at hts
    obtain ⟨gap, x, rest, rfl, hgap, -, htype, hrest⟩ := meaningful_eq_cons hts
    exact ⟨gap, x, rest, rfl, htype, hrest, words_of_isTrivia hgap, hgap.of_getLast?⟩
  · rw [hfinal] at hts
    obtain ⟨gap₁, x, rest, rfl, hgap₁, hx, hword, hrest⟩ := meaningful_eq_cons hts
    obtain ⟨gap₂, y, rest, rfl, hgap₂, -, htype, hrest⟩ := meaningful_eq_cons hrest
    have hlength : offset + Text.byteLength (textOf (gap₁ ++ x :: gap₂)) =
        offset + Text.byteLength (textOf gap₁) + Text.byteLength x.2 +
          Text.byteLength (textOf gap₂) := by
      simp [Nat.add_assoc]
    have hne : gap₂ ≠ [] := by
      rintro rfl
      refine not_reads_identifiers ?_ ?_ (reads_append.1 hreads).2
      · exact (congrArg Token.kind hword).symm.trans (d.isFinal f hfinal).1
      · exact (congrArg Token.kind htype).symm.trans d.isType
    refine ⟨gap₁ ++ x :: gap₂, y, rest, by simp, hlength ▸ htype, hlength ▸ hrest, ?_, ?_⟩
    · rw [List.append_cons, words_append, words_append, words_of_isTrivia hgap₁,
        words_of_isTrivia hgap₂, hword]
      simp [Token.lexeme]
    · intro z hz
      rw [List.append_cons, List.getLast?_append_of_ne_nil _ hne] at hz
      exact hgap₂.of_getLast? z hz

/-- A declaration is a stretch of the code, and the assignments can take its place. -/
theorem exists_takesPlace_of_declaration {d : LocalTokens} (hcode : code = pre ++ textOf xs)
    (hreads : Reads xs []) (hts : meaningful (Text.byteLength pre) xs = d.tokens ++ after) :
    ∃ lead stretch rest out, xs = lead ++ (stretch ++ rest) ∧
      d.type.start = Text.byteLength (pre ++ textOf lead) ∧
      meaningful (Text.byteLength (pre ++ textOf (lead ++ stretch))) rest = after ∧
      words lead = words (d.final.toList.map Token.lexeme) ∧
      (∀ z, lead.getLast? = some z → z.1.isTrivia = true) ∧
      TakesPlace code (pre ++ textOf lead) d.names stretch rest out := by
  have htokens : d.tokens ++ after = d.final.toList ++ d.type :: (d.typeRest ++ d.first.name ::
      (d.first.value ++ (d.others.flatMap NextTokens.tokens ++ after))) := by
    simp [LocalTokens.tokens, LocalTokens.listed, NameTokens.tokens]
  rw [htokens] at hts
  obtain ⟨lead, x, rest, rfl, htype, hrest, hlead, hlast⟩ := exists_stretch_of_type hreads hts
  obtain ⟨typeRest, rest, rfl, -, hrest, -⟩ := meaningful_eq_append hrest
  obtain ⟨gap, y, rest, rfl, -, -, hname, hrest⟩ := meaningful_eq_cons hrest
  have hall : x :: (typeRest ++ (gap ++ y :: rest)) = (x :: typeRest ++ gap) ++ y :: rest := by
    simp
  have hpre : Text.byteLength pre + Text.byteLength (textOf lead) + Text.byteLength x.2 +
        Text.byteLength (textOf typeRest) + Text.byteLength (textOf gap) =
      Text.byteLength (pre ++ textOf lead ++ textOf (x :: typeRest ++ gap)) := by
    simp [Nat.add_assoc]
  rw [hpre] at hname hrest
  rw [hall] at hreads hcode
  have hdeclaration := (reads_append.1 hreads).2
  obtain ⟨listed, rest', out, hlisted, hafter, hplace⟩ := exists_takesPlace_of_names
    (by simpa using hcode) (reads_append.1 hdeclaration).2 hname hrest
  refine ⟨lead, x :: typeRest ++ gap ++ listed, rest', out, ?_, ?_, ?_, hlead, hlast,
    hplace.drop ?_⟩
  · rw [hall, hlisted]
    simp
  · rw [htype, Text.byteLength_append]
  · rw [← hafter]
    simp
  · have hstarts := startsName_of_takes hdeclaration.1 htype d.isType
      (textOf (typeRest ++ gap ++ listed ++ rest'))
    simpa using hstarts

/-! ## What follows a declaration -/

/-- A semicolon can take the place of the blanks and semicolons after a declaration. -/
theorem endsToo_skipped {offset : Nat} (hreads : Reads xs [])
    (hhead : ∀ t, (meaningful offset xs).head? = some t → t.kind = .assign ∨ t.kind = .semicolon)
    (h : EndsToo (textOf (xs.dropWhile isSkipped)) s) : EndsToo (textOf xs) (';' :: s) := by
  rw [textOf_eq_append isSkipped xs]
  refine h.semicolon ?_
  rcases List.eq_nil_or_concat (textOf (xs.takeWhile isSkipped)) with hnil | ⟨u, c, hc⟩
  · right
    have hnone : xs.takeWhile isSkipped = [] := by
      rcases htake : xs.takeWhile isSkipped with - | ⟨y, ys⟩
      · rfl
      · have hy : y ∈ xs := List.takeWhile_subset _ (by
          rw [htake]
          exact List.mem_cons_self)
        rw [htake, textOf_cons, List.append_eq_nil_iff] at hnil
        exact absurd hnil.1 (hreads.ne_nil_of_mem hy)
    rw [← List.takeWhile_append_dropWhile (p := isSkipped) (l := xs), hnone, List.nil_append]
      at hreads hhead
    generalize xs.dropWhile isSkipped = rest at hreads hhead ⊢
    rcases rest with - | ⟨y, ys⟩
    · simp
    · obtain ⟨c, u, hc⟩ := List.exists_cons_of_ne_nil hreads.1.ne_nil
      rw [textOf_cons, hc]
      rintro heq
      obtain rfl : c = '*' := Option.some.inj heq
      have hall : ∀ k ∈ TokenKind.startingWith '*',
          k.isTrivia = false ∧ k ≠ .assign ∧ k ≠ .semicolon := by decide
      obtain ⟨htrivia, hassign, hsemicolon⟩ :=
        hall y.1 (mem_startingWith_of_matches (hc ▸ hreads.1.shape_matches))
      rw [meaningful_cons, htrivia] at hhead
      exact (hhead _ rfl).elim hassign hsemicolon
  · left
    have hchars : ∀ c ∈ trailingChars, c ≠ '*' ∧ c ≠ '/' :=
      List.all_iff_forall_prop.1 (by decide)
    rw [List.concat_eq_append] at hc
    exact ⟨u, c, hc, hchars c (mem_trailingChars_of_mem_takeWhile hreads (by simp [hc]))⟩

/-- The skipped tokens are parts of their own, and nothing is declared by them. -/
theorem exists_parts_of_skipped (code : List Char) {offset : Nat} {skipped : List Lexeme}
    {ps : List Part}
    (hskipped : ∀ x ∈ skipped, isSkipped x = true) (hplaced : Part.WellPlaced true ps)
    (hts : meaningful offset (skipped ++ xs) = ps.flatMap Part.tokens) :
    ∃ qs, Part.WellPlaced true qs ∧ qs.length ≤ ps.length ∧
      meaningful (offset + Text.byteLength (textOf skipped)) xs = qs.flatMap Part.tokens ∧
      ps.filterMap (Part.declared? code) = qs.filterMap (Part.declared? code) ∧
      words ((ps.flatMap Part.kept).map Token.lexeme) =
        words ((qs.flatMap Part.kept).map Token.lexeme) := by
  induction skipped generalizing offset ps with
  | nil => exact ⟨ps, hplaced, Nat.le_refl _, hts, rfl, rfl⟩
  | cons x skipped ih =>
    obtain ⟨hx, hskipped⟩ := List.forall_mem_cons.1 hskipped
    rw [isSkipped, Bool.or_eq_true, beq_iff_eq, beq_iff_eq] at hx
    rw [List.cons_append, meaningful_cons] at hts
    have hlength : offset + Text.byteLength (textOf (x :: skipped)) =
        offset + Text.byteLength x.2 + Text.byteLength (textOf skipped) := by
      simp [Nat.add_assoc]
    rw [hlength]
    rcases hx with hx | hx
    · rw [hx] at hts
      exact ih hskipped hplaced hts
    · rw [hx] at hts
      rcases ps with - | ⟨t | d, ps⟩
      · cases hts
      · rw [Part.flatMap_tokens_token] at hts
        obtain ⟨rfl, htail⟩ := List.cons.inj hts
        have hps : Part.WellPlaced true ps := hplaced
        obtain ⟨qs, hqs, hle, hrest, hdeclared, hwords⟩ := ih hskipped hps htail
        exact ⟨qs, hqs, Nat.le_succ_of_le hle, hrest, hdeclared, hwords⟩
      · obtain ⟨t, ts, hd, hkind⟩ := d.exists_tokens_eq_cons
        rw [Part.flatMap_tokens_declaration, hd] at hts
        rw [← (List.cons.inj hts).1] at hkind
        cases hkind

/-! ## Blocks -/

/-- Tokens behind which a statement may start. -/
def OpensStatement (xs : List Lexeme) : Prop :=
  ∀ x, xs.getLast? = some x → x.1.isTrivia = true ∨ x.1.opensStatement = true

theorem OpensStatement.append {lead : List Lexeme} (h : OpensStatement xs)
    (hlead : ∀ z, lead.getLast? = some z → z.1.isTrivia = true) :
    OpensStatement (xs ++ lead) := by
  intro x hx
  rw [List.getLast?_append] at hx
  rcases hlast : lead.getLast? with - | z
  · rw [hlast] at hx
    exact h x hx
  · rw [hlast] at hx
    cases hx
    exact .inl (hlead _ hlast)

/-- Where hoisting stands: the code up to `pre` is done with, the tokens `before` are kept, and
the tokens `xs` are those of the parts that are left. -/
structure Stands (code pre : List Char) (before xs : List Lexeme) (fresh : Bool)
    (ps : List Part) : Prop where
  code_eq : code = pre ++ textOf (before ++ xs)
  reads : Reads (before ++ xs) []
  tokens : meaningful (Text.byteLength (pre ++ textOf before)) xs = ps.flatMap Part.tokens
  placed : Part.WellPlaced fresh ps
  opens : fresh = true → OpensStatement before

/-- What hoisting makes of the code from there on. -/
structure Yields (code pre : List Char) (before xs : List Lexeme) (ps : List Part)
    (out : List Lexeme) : Prop where
  hoist : hoistFrom? code (Text.byteLength pre) (ps.filterMap (Part.declared? code)) =
    some (textOf out)
  reads : Reads out []
  ends : EndsToo (textOf (before ++ xs)) (textOf out)
  words : words out = words before ++ words ((ps.flatMap Part.kept).map Token.lexeme)

namespace Stands

variable {before : List Lexeme} {fresh : Bool} {ps : List Part}

/-- No part is left. -/
theorem yields_nil (h : Stands code pre before xs fresh []) :
    Yields code pre before xs [] (before ++ xs) := by
  refine ⟨?_, h.reads, .refl _, ?_⟩
  · have hslice := Text.slice?_append pre (textOf (before ++ xs)) []
    rw [List.append_nil, ← h.code_eq, ← Text.byteLength_append, ← h.code_eq] at hslice
    exact hslice
  · rw [words_append, words_of_isTrivia (meaningful_eq_nil_iff.1 h.tokens)]
    rfl

/-- A token that is no part of a declaration is kept. -/
theorem token {t : Token} (h : Stands code pre before xs fresh (.token t :: ps)) :
    ∃ kept rest, Stands code pre kept rest t.kind.opensStatement ps ∧
      ∀ out, Yields code pre kept rest ps out → Yields code pre before xs (.token t :: ps) out := by
  have htokens := h.tokens
  rw [Part.flatMap_tokens_token] at htokens
  obtain ⟨gap, x, rest, rfl, hgap, hx, rfl, hrest⟩ := meaningful_eq_cons htokens
  have hall : before ++ (gap ++ x :: rest) = (before ++ gap ++ [x]) ++ rest := by simp
  refine ⟨before ++ gap ++ [x], rest, ⟨?_, ?_, ?_, h.placed, fun hopens z hz => ?_⟩,
    fun out hout => ⟨hout.hoist, hout.reads, ?_, hout.words.trans ?_⟩⟩
  · rw [h.code_eq, hall]
  · rw [← hall]
    exact h.reads
  · rw [← hrest]
    simp [Nat.add_assoc]
  · rw [List.getLast?_concat] at hz
    cases hz
    exact .inr hopens
  · rw [hall]
    exact hout.ends
  · rw [words_append, words_append, words_of_isTrivia hgap, List.append_nil, List.append_assoc,
      ← words_append]
    rfl

/-- The blanks and semicolons behind a declaration are left out. -/
theorem skip {rest : List Lexeme} (hcode : code = pre ++ textOf rest) (hreads : Reads rest [])
    (hplaced : Part.WellPlaced true ps)
    (htokens : meaningful (Text.byteLength pre) rest = ps.flatMap Part.tokens)
    (hhead : ∀ t, (ps.flatMap Part.tokens).head? = some t →
      t.kind = .assign ∨ t.kind = .semicolon) :
    ∃ next remaining qs, Stands code next [] remaining true qs ∧ qs.length ≤ ps.length ∧
      resume code (Text.byteLength pre) = Text.byteLength next ∧
      ps.filterMap (Part.declared? code) = qs.filterMap (Part.declared? code) ∧
      words ((ps.flatMap Part.kept).map Token.lexeme) =
        words ((qs.flatMap Part.kept).map Token.lexeme) ∧
      ∀ s, EndsToo (textOf remaining) s → EndsToo (textOf rest) (';' :: s) := by
  have hsplit := List.takeWhile_append_dropWhile (p := isSkipped) (l := rest)
  have hresume := resume_eq hreads pre
  rw [← hcode, ← Text.byteLength_append] at hresume
  have htokens' := htokens
  rw [← hsplit] at htokens'
  obtain ⟨qs, hqs, hle, hremaining, hdeclared, hkept⟩ :=
    exists_parts_of_skipped code (fun x hx => List.mem_takeWhile_imp hx) hplaced htokens'
  refine ⟨pre ++ textOf (rest.takeWhile isSkipped), rest.dropWhile isSkipped, qs,
    ⟨?_, ?_, ?_, hqs, fun _ => nofun⟩, hle, hresume, hdeclared, hkept, fun s hs =>
      endsToo_skipped hreads (htokens ▸ hhead) hs⟩
  · rw [List.append_assoc, List.nil_append, ← textOf_append, hsplit, hcode]
  · rw [← hsplit, reads_append] at hreads
    exact hreads.2
  · rw [textOf_nil, List.append_nil, ← hremaining, Text.byteLength_append]

/-- One declaration is rewritten, and then those after it. -/
theorem hoistFrom?_cons {kept rest assignments out : List Char} {l : Local} {ls : List Local}
    {next : Nat} (hcode : code = pre ++ kept ++ rest)
    (hstart : l.span.start = Text.byteLength (pre ++ kept))
    (hnames : ∀ next', hoistNames? code next' l.names = some (assignments, next))
    (hout : hoistFrom? code next ls = some out) :
    hoistFrom? code (Text.byteLength pre) (l :: ls) = some (kept ++ assignments ++ out) := by
  rw [Text.byteLength_append] at hstart
  have hforward : Text.byteLength pre ≤ l.span.start := hstart ▸ Nat.le_add_right _ _
  have hslice : Text.slice? code (Text.byteLength pre) l.span.start = some kept := by
    rw [hcode, hstart]
    exact Text.slice?_append _ _ _
  rw [hoistFrom?, if_pos hforward, hslice, hnames]
  simp [hout]

/-- The assignments take the place of a declaration. -/
theorem declaration {d : LocalTokens} (h : Stands code pre before xs fresh (.declaration d :: ps)) :
    ∃ next remaining qs, Stands code next [] remaining true qs ∧ qs.length ≤ ps.length ∧
      ∀ out, Yields code next [] remaining qs out →
        ∃ out, Yields code pre before xs (.declaration d :: ps) out := by
  obtain ⟨hfresh, hplaced, hhead⟩ := h.placed
  have htokens := h.tokens
  rw [Part.flatMap_tokens_declaration] at htokens
  have hcode := h.code_eq
  rw [textOf_append, ← List.append_assoc] at hcode
  obtain ⟨lead, stretch, rest, assignments, rfl, hstart, hrest, hfinal, hlead, hplace⟩ :=
    exists_takesPlace_of_declaration hcode (reads_append.1 h.reads).2 htokens
  have hall : before ++ (lead ++ (stretch ++ rest)) = (before ++ lead) ++ (stretch ++ rest) := by
    simp
  have hreads := h.reads
  rw [hall] at hreads
  obtain ⟨hkept, hdropped⟩ := reads_append.1 hreads
  rw [List.append_nil] at hkept
  have hrests : code = pre ++ textOf before ++ textOf (lead ++ stretch) ++ textOf rest := by
    rw [hcode]
    simp
  obtain ⟨next, remaining, qs, hstands, hle, hresume, hdeclared, hwords, hends⟩ :=
    skip hrests (reads_append.1 hdropped).2 hplaced hrest hhead
  refine ⟨next, remaining, qs, hstands, hle, fun out hyields => ?_⟩
  have hsemicolon : EndsToo (textOf rest) (';' :: textOf out) := hends _ hyields.ends
  have hjunction : EndsToo (textOf (stretch ++ rest)) (textOf (assignments ++ out)) := by
    rw [textOf_append assignments]
    exact hplace.ends _ hsemicolon
  have hjoint :
      Joint (before ++ lead) (textOf (stretch ++ rest)) (textOf (assignments ++ out)) := by
    rw [textOf_append assignments]
    exact .name hplace.before (hplace.after.append _) ((h.opens hfresh).append hlead)
  refine ⟨(before ++ lead) ++ (assignments ++ out), ?_, ?_, ?_, ?_⟩
  · have hsplit : code = pre ++ textOf (before ++ lead) ++ textOf (stretch ++ rest) := by
      rw [hcode]
      simp
    have hspan :
        (d.declared code).span.start = Text.byteLength (pre ++ textOf (before ++ lead)) := by
      rw [LocalTokens.declared, hstart, textOf_append, List.append_assoc]
    have hnames : ∀ next', hoistNames? code next' (d.declared code).names =
        some (textOf assignments, Text.byteLength next) := by
      rw [← hresume, textOf_append, ← List.append_assoc]
      exact hplace.hoist
    rw [Part.filterMap_declared?_declaration, hdeclared,
      hoistFrom?_cons hsplit hspan hnames hyields.hoist]
    simp
  · exact reads_append.2 ⟨by rw [List.append_nil]; exact hkept.of_joint hjunction hjoint,
      reads_append.2 ⟨by rw [List.append_nil]; exact hplace.reads _ hsemicolon, hyields.reads⟩⟩
  · rw [hall, textOf_append, textOf_append (before ++ lead)]
    exact hjunction.append _
  · rw [Part.flatMap_kept_declaration, LocalTokens.kept, List.map_append, List.map_append]
    simp only [words_append, ← hfinal, ← hplace.words, hwords, hyields.words, List.append_assoc]
    rfl

/-- **What hoisting makes of a block.** -/
theorem exists_yields {code pre : List Char} {before xs : List Lexeme} {fresh : Bool} :
    ∀ {ps : List Part}, Stands code pre before xs fresh ps →
      ∃ out, Yields code pre before xs ps out
  | [], h => ⟨_, h.yields_nil⟩
  | .token t :: ps, h => by
    obtain ⟨kept, rest, hstands, hyields⟩ := h.token
    obtain ⟨out, hout⟩ := exists_yields hstands
    exact ⟨out, hyields out hout⟩
  | .declaration d :: ps, h => by
    obtain ⟨next, remaining, qs, hstands, hle, hyields⟩ := h.declaration
    obtain ⟨out, hout⟩ := exists_yields hstands
    exact hyields out hout
termination_by ps => ps.length
decreasing_by
  · exact Nat.lt_succ_self _
  · exact Nat.lt_succ_of_le hle

end Stands

end Fragment
end RuleAggregate
