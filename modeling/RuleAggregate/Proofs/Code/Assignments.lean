import Mathlib.Data.List.Perm.Basic
import RuleAggregate.Proofs.Code.Hoisting
import RuleAggregate.Proofs.Code.Reports

/-!
# Declarations become assignments

What is left of a declaration `Type a = x, b` are the tokens of the assignments `a = x` and `b`, but
not quite.  The word `final` before the type is not part of what is replaced and stays in front of
the first assignment, and an equals sign with no value before a comma is lost along with the comma.

## What is here

* `Fragment.mergeSort_declared`, `Fragment.all_isForward` — declarations stand in order, one behind
  the other.
* `LocalTokens.assigned`, `LocalTokens.IsPlain` — the tokens that are to be left, and the
  declarations of which no others are.
* `Fragment.texts_kept_eq_iff` — **when nothing is lost or left over.**
* `Analyzer.hoist_tokens` — **what becomes of the tokens of a block.**
-/

set_option autoImplicit false

namespace RuleAggregate

namespace Fragment

/-! ## The order of declarations -/

variable {n : NameTokens}

/-- Tokens start one after the other. -/
def InOrder (ts : List Token) : Prop := ts.Pairwise fun t u => t.start < u.start

theorem InOrder.le_endOf {t : Token} {ts : List Token} (h : InOrder (t :: ts)) :
    t.start ≤ endOf t.stop ts := by
  induction ts generalizing t with
  | nil => exact Nat.le_add_right _ _
  | cons u ts ih =>
    obtain ⟨ht, hts⟩ := List.pairwise_cons.1 h
    exact (Nat.le_of_lt (ht u List.mem_cons_self)).trans (ih hts)

theorem isForward_localName (h : InOrder n.tokens) : isForward n.localName.span = true :=
  decide_eq_true h.le_endOf

theorem isForward_declared (code : List Char) {d : LocalTokens} (h : InOrder d.tokens) :
    (isForward (d.declared code).span &&
      (d.declared code).names.all fun n => isForward n.span) = true := by
  rw [Bool.and_eq_true, List.all_eq_true]
  constructor
  · have htype : InOrder (d.type :: (d.typeRest ++ d.listed)) := by
      refine h.sublist ?_
      rw [LocalTokens.tokens, List.append_assoc]
      exact List.sublist_append_right _ _
    have hle := htype.le_endOf
    rw [endOf_append] at hle
    exact decide_eq_true hle
  · intro l hl
    obtain ⟨n, hn, rfl⟩ := List.mem_map.1 hl
    exact isForward_localName
      (h.sublist ((LocalTokens.sublist_listed hn).trans (List.sublist_append_right _ _)))

/-- Declarations stand in the order of their types. -/
theorem sublist_starts (code : List Char) (ps : List Part) :
    ((ps.filterMap (Part.declared? code)).map (·.span.start)).Sublist
      ((ps.flatMap Part.tokens).map Token.start) := by
  induction ps with
  | nil => exact .slnil
  | cons p ps ih =>
    rw [List.flatMap_cons, List.map_append]
    rcases p with t | d
    · exact ih.cons _
    · have htype : [d.type.start].Sublist (d.tokens.map Token.start) := by
        rw [List.singleton_sublist, LocalTokens.tokens]
        simp
      exact htype.append ih

theorem all_isForward (code : List Char) {ps : List Part} (h : InOrder (ps.flatMap Part.tokens)) :
    ((ps.filterMap (Part.declared? code)).all fun l =>
      isForward l.span && l.names.all fun n => isForward n.span) = true := by
  rw [List.all_eq_true]
  intro l hl
  obtain ⟨t | d, hp, hdeclared⟩ := List.mem_filterMap.1 hl
  · cases hdeclared
  · cases hdeclared
    exact isForward_declared code (h.sublist (infix_flatMap_of_mem Part.tokens hp).sublist)

theorem mergeSort_declared (code : List Char) {ps : List Part}
    (h : InOrder (ps.flatMap Part.tokens)) :
    (ps.filterMap (Part.declared? code)).mergeSort
        (fun l m => decide (l.span.start ≤ m.span.start)) =
      ps.filterMap (Part.declared? code) := by
  have hstarts := (List.pairwise_map.2 h).sublist (sublist_starts code ps)
  refine List.mergeSort_of_pairwise ((List.pairwise_map.1 hstarts).imp fun hlt => ?_)
  exact decide_eq_true (Nat.le_of_lt hlt)

end Fragment

/-! ## What is lost and what is left over -/

namespace LocalTokens

/-- The assignments that a declaration stands for: its names with their values, and with the equals
signs that have none. -/
def assigned (d : LocalTokens) : List Token :=
  d.first.tokens ++ d.others.flatMap fun o => o.loose ++ o.declared.tokens

/-- The declaration does not start with `final`, and no equals sign without a value stands before a
comma. -/
def IsPlain (d : LocalTokens) : Prop := d.final = none ∧ ∀ o ∈ d.others, o.loose = []

/-- The equals signs without a value that a comma follows. -/
def loose (d : LocalTokens) : List Token := d.others.flatMap NextTokens.loose

/-- What is kept lacks the loose equals signs, and has the word `final` too many. -/
theorem perm_kept_assigned (d : LocalTokens) :
    (d.kept ++ d.loose).Perm (d.final.toList ++ d.assigned) := by
  have hothers : (d.others.flatMap (fun o => o.declared.tokens) ++ d.loose).Perm
      (d.others.flatMap fun o => o.loose ++ o.declared.tokens) :=
    List.perm_append_comm.trans (List.flatMap_append_perm _ _ _)
  rw [kept, names, List.flatMap_cons, List.flatMap_map, assigned, List.append_assoc,
    List.append_assoc]
  exact (hothers.append_left _).append_left _

theorem kept_subset (d : LocalTokens) : d.kept ⊆ d.tokens := by
  intro t ht
  rw [kept, List.mem_append, List.mem_flatMap] at ht
  rcases ht with ht | ⟨n, hn, ht⟩
  · exact List.mem_append_left _ (List.mem_append_left _ ht)
  · exact List.mem_append_right _ ((sublist_listed hn).subset ht)

theorem loose_subset (d : LocalTokens) : d.loose ⊆ d.tokens := by
  intro t ht
  obtain ⟨o, ho, ht⟩ := List.mem_flatMap.1 ht
  refine List.mem_append_right _ (List.mem_append_right _ (List.mem_flatMap.2 ⟨o, ho, ?_⟩))
  exact List.mem_append_left _ ht

theorem kind_of_mem_loose {d : LocalTokens} {t : Token} (h : t ∈ d.loose) : t.kind = .assign := by
  obtain ⟨o, ho, ht⟩ := List.mem_flatMap.1 h
  rcases o.isLoose with hnil | ⟨u, hu, hkind⟩
  · rw [hnil] at ht
    cases ht
  · rw [hu, List.mem_singleton] at ht
    exact ht ▸ hkind

theorem kept_eq_assigned {d : LocalTokens} (h : d.IsPlain) : d.kept = d.assigned := by
  have hothers : (d.others.flatMap fun o => o.loose ++ o.declared.tokens) =
      d.others.flatMap fun o => o.declared.tokens :=
    List.flatMap_congr fun o ho => by rw [h.2 o ho, List.nil_append]
  rw [kept, h.1, names, List.flatMap_cons, List.flatMap_map, assigned, hothers]
  rfl

theorem isPlain_iff {d : LocalTokens} : d.IsPlain ↔ d.final.toList = [] ∧ d.loose = [] := by
  rw [IsPlain, loose, List.flatMap_eq_nil_iff, Option.toList_eq_nil_iff]

end LocalTokens

namespace Fragment

namespace Part

/-- The tokens that are to be left of a part. -/
def assigned : Part → List Token
  | token t => [t]
  | declaration d => d.assigned

/-- The word `final` at the front of a declaration. -/
def finals : Part → List Token
  | token _ => []
  | declaration d => d.final.toList

/-- The equals signs without a value that a comma follows. -/
def loose : Part → List Token
  | token _ => []
  | declaration d => d.loose

/-- The part is a token or a declaration that keeps to the grammar. -/
def IsPlain : Part → Prop
  | token _ => True
  | declaration d => d.IsPlain

theorem isPlain_iff {p : Part} : p.IsPlain ↔ p.finals = [] ∧ p.loose = [] := by
  rcases p with t | d
  · exact iff_of_true trivial ⟨rfl, rfl⟩
  · exact LocalTokens.isPlain_iff

theorem perm_kept_assigned (p : Part) : (p.kept ++ p.loose).Perm (p.finals ++ p.assigned) := by
  rcases p with t | d
  · exact .refl _
  · exact d.perm_kept_assigned

theorem kept_eq_assigned {p : Part} (h : p.IsPlain) : p.kept = p.assigned := by
  rcases p with t | d
  · rfl
  · exact d.kept_eq_assigned h

theorem kept_subset (p : Part) : p.kept ⊆ p.tokens := by
  rcases p with t | d
  · exact List.Subset.refl _
  · exact d.kept_subset

theorem loose_subset (p : Part) : p.loose ⊆ p.tokens := by
  rcases p with t | d
  · exact List.nil_subset _
  · exact d.loose_subset

theorem kind_of_mem_loose {p : Part} {t : Token} (h : t ∈ p.loose) : t.kind = .assign := by
  rcases p with u | d
  · cases h
  · exact LocalTokens.kind_of_mem_loose h

theorem of_mem_finals {p : Part} {t : Token} (h : t ∈ p.finals) :
    t.kind = .identifier ∧ t.name = "final" := by
  rcases p with u | d
  · cases h
  · exact d.isFinal t (Option.mem_toList.1 h)

end Part

/-! ## Texts -/

variable {xs : List Lexeme} {ts : List Token} {t : Token} {ps : List Part}

/-- The texts of the tokens that are no semicolons. -/
def texts (ts : List Token) : List String :=
  (ts.filter fun t => !(t.kind == .semicolon)).map Token.name

theorem texts_append (ts us : List Token) : texts (ts ++ us) = texts ts ++ texts us := by
  rw [texts, List.filter_append, List.map_append, texts, texts]

theorem mem_texts_iff {text : String} :
    text ∈ texts ts ↔ ∃ t ∈ ts, t.kind ≠ .semicolon ∧ t.name = text := by
  simp [texts, and_assoc]

theorem texts_perm {us : List Token} (h : ts.Perm us) : (texts ts).Perm (texts us) :=
  (h.filter _).map _

/-- Among tokens that carry meaning, the words are those that are no semicolons. -/
theorem texts_eq_map_words (h : ∀ t ∈ ts, t.kind.isTrivia = false) :
    texts ts = (words (ts.map Token.lexeme)).map fun x => String.ofList x.2 := by
  have hfilter : words (ts.map Token.lexeme) =
      (ts.filter fun t => !(t.kind == .semicolon)).map Token.lexeme := by
    rw [words, List.filter_map]
    refine congrArg _ (List.filter_congr fun t ht => ?_)
    rw [Function.comp_apply, Token.lexeme, h t ht]
    rfl
  rw [hfilter, List.map_map]
  rfl

theorem mem_of_mem_meaningful {offset : Nat} (h : t ∈ meaningful offset xs) :
    t.lexeme ∈ xs ∧ t.kind.isTrivia = false := by
  obtain ⟨hmem, htrivia⟩ := List.mem_filter.1 h
  refine ⟨?_, by simpa using htrivia⟩
  rw [← map_lexeme_place offset xs]
  exact List.mem_map_of_mem hmem

/-- An equals sign is not a word. -/
theorem name_ne_final {s : List Char} (h : Takes t.kind t.text s) (ht : t.kind = .assign) :
    t.name ≠ "final" := by
  intro heq
  have htext : t.text = "final".toList := by rw [← heq, Token.name, String.toList_ofList]
  have hmem : t.kind ∈ TokenKind.startingWith 'f' :=
    mem_startingWith_of_matches (htext ▸ h.shape_matches)
  rw [ht] at hmem
  exact absurd hmem (by decide)

/-- **When nothing is lost or left over.** -/
theorem texts_kept_eq_iff
    (h : ∀ t ∈ ps.flatMap Part.tokens, t.kind = .assign → t.name ≠ "final") :
    texts (ps.flatMap Part.kept) = texts (ps.flatMap Part.assigned) ↔ ∀ p ∈ ps, p.IsPlain := by
  constructor
  · intro heq
    have hperm : (ps.flatMap Part.kept ++ ps.flatMap Part.loose).Perm
        (ps.flatMap Part.finals ++ ps.flatMap Part.assigned) :=
      (List.flatMap_append_perm _ _ _).trans
        ((List.Perm.flatMap_left _ fun p _ => p.perm_kept_assigned).trans
          (List.flatMap_append_perm _ _ _).symm)
    have htexts := (texts_perm hperm).trans (texts_perm List.perm_append_comm)
    rw [texts_append, texts_append, heq, List.perm_append_left_iff] at htexts
    have hloose : ps.flatMap Part.loose = [] := by
      refine List.eq_nil_iff_forall_not_mem.2 fun t ht => ?_
      obtain ⟨p, hp, htp⟩ := List.mem_flatMap.1 ht
      have hkind := Part.kind_of_mem_loose htp
      have hmem : t.name ∈ texts (ps.flatMap Part.loose) :=
        mem_texts_iff.2 ⟨t, ht, by rw [hkind]; decide, rfl⟩
      obtain ⟨u, hu, -, hname⟩ := mem_texts_iff.1 (htexts.subset hmem)
      obtain ⟨q, -, huq⟩ := List.mem_flatMap.1 hu
      exact h t (List.mem_flatMap.2 ⟨p, hp, p.loose_subset htp⟩) hkind
        (hname.symm.trans (Part.of_mem_finals huq).2)
    have hfinals : ps.flatMap Part.finals = [] := by
      refine List.eq_nil_iff_forall_not_mem.2 fun t ht => ?_
      obtain ⟨p, -, htp⟩ := List.mem_flatMap.1 ht
      have hmem : t.name ∈ texts (ps.flatMap Part.finals) :=
        mem_texts_iff.2 ⟨t, ht, by rw [(Part.of_mem_finals htp).1]; decide, rfl⟩
      rw [hloose] at htexts
      exact absurd (htexts.symm.subset hmem) List.not_mem_nil
    intro p hp
    exact Part.isPlain_iff.2 ⟨List.flatMap_eq_nil_iff.1 hfinals p hp,
      List.flatMap_eq_nil_iff.1 hloose p hp⟩
  · intro hplain
    rw [List.flatMap_congr fun p hp => Part.kept_eq_assigned (hplain p hp)]

/-! ## Blocks -/

/-- The type of a declaration is a stretch of the code. -/
theorem typeName_declared {d : LocalTokens}
    (hts : meaningful 0 xs = ps.flatMap Part.tokens) (hd : .declaration d ∈ ps) :
    Text.slice? (textOf xs) d.type.start d.typeStop =
      some (d.declared (textOf xs)).typeName.toList := by
  have hinfix : d.tokens <:+: meaningful 0 xs := hts ▸ infix_flatMap_of_mem Part.tokens hd
  obtain ⟨text, htext⟩ := exists_slice (d.infix_type.trans hinfix)
  rw [LocalTokens.typeStop, LocalTokens.declared, LocalTokens.typeStop, htext]
  simp

/-- **What hoisting makes of the declarations of a block.** -/
theorem hoist?_declared (hreads : Reads xs []) (hplaced : Part.WellPlaced true ps)
    (hts : meaningful 0 xs = ps.flatMap Part.tokens) :
    ∃ out, hoist? (String.ofList (textOf xs)) (ps.filterMap (Part.declared? (textOf xs))) =
        some ⟨String.ofList (textOf out), (ps.filterMap (Part.declared? (textOf xs))).flatMap
          fun l => l.names.map fun n => ⟨n.name, l.typeName⟩⟩ ∧
      Reads out [] ∧ words out = words ((ps.flatMap Part.kept).map Token.lexeme) := by
  have hstands : Stands (textOf xs) [] [] xs true ps :=
    ⟨rfl, hreads, hts, hplaced, fun _ => nofun⟩
  obtain ⟨out, hyields⟩ := hstands.exists_yields
  have horder : InOrder (ps.flatMap Part.tokens) :=
    hts ▸ (pairwise_place fun x => hreads.ne_nil_of_mem).filter _
  refine ⟨out, ?_, hyields.reads, hyields.words⟩
  rw [hoist?, if_pos (all_isForward _ horder), mergeSort_declared _ horder, String.toList_ofList]
  exact congrArg (Option.map _) hyields.hoist

end Fragment

/-! ## Analysis -/

namespace Analyzer

open Fragment

/-- **What becomes of the tokens of a block.**  The declarations that are found are those of its
parts, with their offsets in 32 bits.  The offsets into a code of less than 2³² bytes are kept as
they are, and then the hoisted code can be split into tokens.  Apart from semicolons they are those
of the block, where every declaration has lost its type and its commas, and along with a comma the
equals sign before it if that has no value; the word `final` stays.  They are what they are to be
exactly if all declarations are plain.  The attributes are the declared names, in the order of the
block and with the texts of their types. -/
theorem hoist_tokens {code : String} {available : Available} {a : Analysis}
    (h : lexical code .block available = .ok a) :
    ∃ ps, tokens code.toList = .ok (ps.flatMap Part.tokens) ∧ Part.WellPlaced true ps ∧
      a.locals = (ps.filterMap (Part.declared? code.toList)).map Local.truncate ∧
      (∀ d, .declaration d ∈ ps → Text.slice? code.toList d.type.start d.typeStop =
        some (d.declared code.toList).typeName.toList) ∧
      (code.utf8ByteSize < 2 ^ 32 → ∃ hoisted ts,
        a.locals = ps.filterMap (Part.declared? code.toList) ∧
        hoist? code a.locals = some hoisted ∧
        hoisted.attributes =
          a.locals.flatMap (fun l => l.names.map fun n => ⟨n.name, l.typeName⟩) ∧
        tokens hoisted.code.toList = .ok ts ∧
        texts ts = texts (ps.flatMap Part.kept) ∧
        (texts ts = texts (ps.flatMap Part.assigned) ↔ ∀ p ∈ ps, p.IsPlain)) := by
  obtain ⟨ts, hts, hlocals, -⟩ := report_mentions h
  obtain ⟨xs, hreads, hcode, rfl⟩ := tokensFrom_eq_ok_iff.1 hts
  obtain rfl : code = String.ofList (textOf xs) := by rw [hcode, String.ofList_toList]
  have hsmall := fun hsize (t : Token) => stop_lt_of_mem_tokens (t := t) hts hsize
  rw [String.toList_ofList] at hlocals hts ⊢
  obtain ⟨ps, hplaced, hparts, hdeclared⟩ := localsFrom_eq (textOf xs) true (meaningful 0 xs)
  refine ⟨ps, hts.trans (congrArg _ hparts), hplaced, ?_, fun d => typeName_declared hparts,
    fun hsize => ?_⟩
  · rw [← hdeclared]
    exact hlocals
  obtain ⟨out, hhoist, hout, hwords⟩ := hoist?_declared hreads hplaced hparts
  have hlocals : a.locals = ps.filterMap (Part.declared? (textOf xs)) :=
    hlocals.trans ((locals_eq_localsFrom _ (hsmall hsize)).trans hdeclared)
  have hmeaning : ∀ t ∈ ps.flatMap Part.tokens, t.lexeme ∈ xs ∧ t.kind.isTrivia = false :=
    fun t ht => mem_of_mem_meaningful (hparts ▸ ht)
  have hkept : texts (meaningful 0 out) = texts (ps.flatMap Part.kept) := by
    rw [texts_eq_map_words fun t ht => (mem_of_mem_meaningful ht).2, words_meaningful, hwords,
      texts_eq_map_words]
    intro t ht
    obtain ⟨p, hp, htp⟩ := List.mem_flatMap.1 ht
    exact (hmeaning t (List.mem_flatMap.2 ⟨p, hp, p.kept_subset htp⟩)).2
  refine ⟨_, meaningful 0 out, hlocals, hlocals ▸ hhoist, hlocals ▸ rfl, ?_, hkept, ?_⟩
  · exact tokensFrom_eq_ok_iff.2 ⟨out, hout, (String.toList_ofList).symm, rfl⟩
  · rw [hkept]
    exact texts_kept_eq_iff fun t ht hkind =>
      name_ne_final (hreads.takes_of_mem (hmeaning t ht).1) hkind

/-- A comma in a comment, a comma in a call and a comment that a line ends. -/
theorem hoist_tokens_of_comments :
    let code := "int a = f(1, 2) /* , c */, b // d\n; log(a)"
    ∃ a, ∃ ps : List Part, ∃ ts, lexical code .block ⟨.empty, .empty⟩ = .ok a ∧
      tokens code.toList = .ok (ps.flatMap Part.tokens) ∧ code.utf8ByteSize < 2 ^ 32 ∧
      a.locals = ps.filterMap (Part.declared? code.toList) ∧
      hoist? code a.locals =
        some ⟨"a = f(1, 2);b;// d\n; log(a)", [⟨"a", "int"⟩, ⟨"b", "int"⟩]⟩ ∧
      tokens "a = f(1, 2);b;// d\n; log(a)".toList = .ok ts ∧
      texts ts = texts (ps.flatMap Part.kept) ∧
      texts ts = ["a", "=", "f", "(", "1", ",", "2", ")", "b", "log", "(", "a", ")"] := by
  intro code
  obtain ⟨a, ha, hhoist⟩ : ∃ a, lexical code .block ⟨.empty, .empty⟩ = .ok a ∧
      hoist? code a.locals =
        some ⟨"a = f(1, 2);b;// d\n; log(a)", [⟨"a", "int"⟩, ⟨"b", "int"⟩]⟩ :=
    exists_of_any (by decide +kernel)
  have hsize : code.utf8ByteSize < 2 ^ 32 := by decide +kernel
  obtain ⟨ps, hparts, -, -, -, hsmall⟩ := hoist_tokens ha
  obtain ⟨hoisted, ts, hlocals, hhoisted, -, hts, htexts, -⟩ := hsmall hsize
  obtain rfl := Option.some.inj (hhoist.symm.trans hhoisted)
  refine ⟨a, ps, ts, ha, hparts, hsize, hlocals, hhoist, hts, htexts, ?_⟩
  have hall : (tokens "a = f(1, 2);b;// d\n; log(a)".toList).map texts =
      .ok ["a", "=", "f", "(", "1", ",", "2", ")", "b", "log", "(", "a", ")"] := by
    decide +kernel
  rw [hts] at hall
  exact Except.ok.inj hall

/-- The word `final` stays where it is, although the declaration starts with it. -/
theorem hoist_keeps_final :
    let code := "final int x = 0;"
    ∃ a, lexical code .block ⟨.empty, .empty⟩ = .ok a ∧
      a.locals = [⟨"int", ⟨6, 15⟩, [⟨"x", ⟨10, 15⟩⟩]⟩] ∧
      (tokens code.toList).map texts = .ok ["final", "int", "x", "=", "0"] ∧
      hoist? code a.locals = some ⟨"final x = 0;", [⟨"x", "int"⟩]⟩ ∧
      (tokens "final x = 0;".toList).map texts = .ok ["final", "x", "=", "0"] := by
  intro code
  obtain ⟨a, ha, hlocals, hhoist⟩ : ∃ a, lexical code .block ⟨.empty, .empty⟩ = .ok a ∧
      a.locals = [⟨"int", ⟨6, 15⟩, [⟨"x", ⟨10, 15⟩⟩]⟩] ∧
      hoist? code a.locals = some ⟨"final x = 0;", [⟨"x", "int"⟩]⟩ :=
    exists_of_any (by decide +kernel)
  exact ⟨a, ha, hlocals, by decide +kernel, hhoist, by decide +kernel⟩

end Analyzer
end RuleAggregate
