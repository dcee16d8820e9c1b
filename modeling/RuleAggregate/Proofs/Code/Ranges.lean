import RuleAggregate.Proofs.Code.Assignments

/-!
# Where declarations stand

The offsets of a declaration are those of tokens, and tokens stand one behind the other between
characters.  So no slice that hoisting takes can run backwards, leave the code or cut a character.

## What is here

* `Local.WellFormed` — where a declaration stands in the code, and its names in it.
* `Fragment.Consecutive` — tokens stand one behind the other.
* `Fragment.wellFormed_declared` — **the declarations of a block are well formed.**
* `Fragment.exists_hoist?` — **spans that cut no character can be hoisted**, whatever their order.
* `Analyzer.locals_wellFormed` — what this says of the declarations that the analyzer reports.
-/

set_option autoImplicit false

namespace RuleAggregate

namespace Local

/-- The span of a declaration and those of its names. -/
def spans (l : Local) : List Text.Span := l.span :: l.names.map LocalName.span

/-- The declaration stands in the code: first its type, then its names, each with its value.  The
names stand one behind the other, and the last one ends the declaration. -/
structure WellFormed (code : List Char) (l : Local) : Prop where
  ranges : ∀ r ∈ l.spans, r.IsRange code
  names_ne_nil : l.names ≠ []
  typed : ∃ stop, Text.slice? code l.span.start stop = some l.typeName.toList ∧
    ∀ n ∈ l.names, stop ≤ n.span.start
  named : ∀ n ∈ l.names, n.name ≠ "" ∧ ∃ value,
    Text.slice? code n.span.start n.span.stop = some (n.name.toList ++ value)
  disjoint : l.names.Pairwise fun m n => m.span.stop ≤ n.span.start
  inside : ∀ n ∈ l.names, n.span.stop ≤ l.span.stop
  last : l.names.getLast?.map (·.span.stop) = some l.span.stop

end Local

namespace Fragment

variable {xs : List Lexeme} {t : Token} {ts us : List Token} {offset : Nat}

/-! ## Tokens one behind the other -/

/-- Every token ends before the next one starts, or where it starts. -/
def Consecutive (ts : List Token) : Prop := ts.Pairwise fun t u => t.stop ≤ u.start

theorem consecutive_meaningful (offset : Nat) (xs : List Lexeme) :
    Consecutive (meaningful offset xs) := by
  refine List.Pairwise.filter _ ?_
  induction xs generalizing offset with
  | nil => exact .nil
  | cons x xs ih => exact .cons (fun u hu => (start_of_mem_place hu).1) (ih _)

/-- A run of tokens ends where the last of them ends. -/
theorem Consecutive.stop_le_endOf (h : Consecutive (t :: ts)) :
    ∀ u ∈ t :: ts, u.stop ≤ endOf t.stop ts := by
  induction ts generalizing t with
  | nil => simp [endOf]
  | cons v ts ih =>
    obtain ⟨ht, hts⟩ := List.pairwise_cons.1 h
    have hv := ih hts
    refine List.forall_mem_cons.2 ⟨?_, hv⟩
    have hle : t.stop ≤ v.stop := (ht v List.mem_cons_self).trans (Nat.le_add_right _ _)
    exact hle.trans (hv v List.mem_cons_self)

/-! ## Declarations -/

section Declarations

variable {code : List Char} {d : LocalTokens} {n : NameTokens} {ps : List Part}

theorem sublist_names (d : LocalTokens) : (d.names.flatMap NameTokens.tokens).Sublist d.listed := by
  rw [LocalTokens.names, List.flatMap_cons, List.flatMap_map]
  refine List.Sublist.append (.refl _) ?_
  induction d.others with
  | nil => exact .slnil
  | cons o others ih =>
    have hdeclared : o.declared.tokens.Sublist o.tokens :=
      (List.sublist_cons_self _ _).trans (List.sublist_append_right _ _)
    exact hdeclared.append ih

/-- The names of a declaration stand one behind the other. -/
theorem disjoint_names (h : Consecutive d.tokens) :
    d.names.Pairwise fun m n => m.localName.span.stop ≤ n.localName.span.start := by
  have hnames := h.sublist ((sublist_names d).trans (List.sublist_append_right _ _))
  refine (List.pairwise_flatMap.1 hnames).2.imp fun {m n} hmn => ?_
  obtain ⟨u, hu, heq⟩ := exists_stop_localName m
  exact heq.trans_le (hmn u hu n.name List.mem_cons_self)

/-- The type of a declaration stands in front of its names. -/
theorem typeStop_le (h : Consecutive d.tokens) (hn : n ∈ d.names) :
    d.typeStop ≤ n.localName.span.start := by
  rw [Consecutive, LocalTokens.tokens, List.append_assoc] at h
  obtain ⟨-, hbehind⟩ := List.pairwise_append.1 (List.pairwise_append.1 h).2.1
  obtain ⟨u, hu, heq⟩ := exists_endOf_eq d.type d.typeRest
  rw [LocalTokens.typeStop, heq]
  exact hbehind.2 u hu n.name ((LocalTokens.sublist_listed hn).subset List.mem_cons_self)

theorem stop_localName_le (code : List Char) (h : Consecutive d.tokens) (hn : n ∈ d.names) :
    n.localName.span.stop ≤ (d.declared code).span.stop := by
  obtain ⟨u, hu, heq⟩ := exists_stop_localName n
  rw [heq, stop_declared]
  have htyped : Consecutive (d.type :: (d.typeRest ++ d.listed)) :=
    h.sublist (suffix_typed d).sublist
  exact htyped.stop_le_endOf u (List.mem_cons_of_mem _ (List.mem_append_right _
    ((LocalTokens.sublist_listed hn).subset hu)))

/-- **The declarations of a block are well formed.** -/
theorem wellFormed_declared (hreads : Reads xs [])
    (hts : meaningful 0 xs = ps.flatMap Part.tokens) (hd : .declaration d ∈ ps) :
    (d.declared (textOf xs)).WellFormed (textOf xs) := by
  have hinfix : d.tokens <:+: meaningful 0 xs := hts ▸ infix_flatMap_of_mem Part.tokens hd
  have hconsecutive : Consecutive d.tokens := (consecutive_meaningful 0 xs).sublist hinfix.sublist
  have hnames : ∀ n ∈ d.names, n.tokens <:+: meaningful 0 xs := fun n hn =>
    ((LocalTokens.infix_listed hn).trans (List.suffix_append _ _).isInfix).trans hinfix
  obtain ⟨whole, hwhole⟩ := exists_slice ((suffix_typed d).isInfix.trans hinfix)
  rw [← stop_declared (textOf xs)] at hwhole
  refine ⟨?_, List.cons_ne_nil _ _, ⟨d.typeStop, typeName_declared hts hd, ?_⟩, ?_, ?_, ?_, ?_⟩
  · rw [Local.spans, List.forall_mem_cons]
    refine ⟨Text.isRange_of_slice? hwhole, ?_⟩
    simp only [LocalTokens.declared, List.forall_mem_map]
    intro n hn
    obtain ⟨value, hvalue⟩ := exists_slice (hnames n hn)
    exact Text.isRange_of_slice? hvalue
  all_goals simp only [LocalTokens.declared, List.forall_mem_map, List.pairwise_map]
  · exact fun n hn => typeStop_le hconsecutive hn
  · intro n hn
    have hname := (mem_of_mem_meaningful ((hnames n hn).subset List.mem_cons_self)).1
    refine ⟨fun hempty => hreads.ne_nil_of_mem hname ?_, ?_⟩
    · exact (String.toList_ofList).symm.trans (congrArg String.toList hempty)
    · obtain ⟨value, hvalue⟩ := exists_slice (hnames n hn)
      refine ⟨value, ?_⟩
      rw [NameTokens.localName, Token.name, String.toList_ofList]
      exact hvalue
  · exact disjoint_names hconsecutive
  · exact fun n hn => stop_localName_le (textOf xs) hconsecutive hn
  · exact getLast?_localNames d.typeStop d.first d.others

/-- Declarations stand one behind the other. -/
theorem disjoint_declared (code : List Char) (h : Consecutive (ps.flatMap Part.tokens)) :
    (ps.filterMap (Part.declared? code)).Pairwise fun l m => l.span.stop ≤ m.span.start := by
  rw [List.pairwise_filterMap]
  refine (List.pairwise_flatMap.1 h).2.imp fun {p q} hpq l hl m hm => ?_
  rcases p with t | d
  · cases hl
  rcases q with t | e
  · cases hm
  cases hl
  cases hm
  obtain ⟨u, hu, heq⟩ := exists_stop_declared code d
  exact heq.trans_le (hpq u hu e.type ((suffix_typed e).subset List.mem_cons_self))

/-- A declaration takes two tokens at least. -/
theorem two_mul_length_declared_le (code : List Char) (ps : List Part) :
    2 * (ps.filterMap (Part.declared? code)).length ≤ (ps.flatMap Part.tokens).length := by
  induction ps with
  | nil => exact Nat.le_refl 0
  | cons p ps ih =>
    rw [List.flatMap_cons, List.length_append]
    rcases p with - | d
    · exact ih.trans (Nat.le_add_left _ _)
    · have htokens : 2 ≤ d.tokens.length := by
        simp [LocalTokens.tokens, LocalTokens.listed, NameTokens.tokens]
        omega
      rw [Part.filterMap_declared?_declaration, List.length_cons, Part.tokens]
      omega

end Declarations

/-! ## Hoisting -/

section Hoisting

variable {code : List Char} {next : Nat}

/-- The code goes on between characters. -/
theorem isBoundary_resume {stop : Nat} (h : Text.IsBoundary code stop) :
    Text.IsBoundary code (resume code stop) := by
  obtain ⟨before, after, rfl, rfl⟩ := h
  rw [resume, Text.dropBytes?_append]
  simp only [trailingBlanks_eq]
  rw [← Text.byteLength_append]
  refine ⟨_, after.dropWhile (trailingChars.contains ·), ?_, rfl⟩
  rw [List.append_assoc, List.takeWhile_append_dropWhile]

/-- The names of a declaration can be sliced, and the code goes on between characters. -/
theorem exists_hoistNames? {ns : List LocalName} (hnext : Text.IsBoundary code next)
    (hns : ∀ n ∈ ns, n.span.IsRange code) :
    ∃ out last, hoistNames? code next ns = some (out, last) ∧ Text.IsBoundary code last := by
  induction ns generalizing next with
  | nil => exact ⟨[], next, rfl, hnext⟩
  | cons n ns ih =>
    obtain ⟨hn, hns⟩ := List.forall_mem_cons.1 hns
    obtain ⟨text, htext⟩ := Text.exists_slice?_iff.2 hn
    obtain ⟨out, last, hout, hlast⟩ := ih (isBoundary_resume hn.stop) hns
    refine ⟨text ++ ';' :: out, last, ?_, hlast⟩
    rw [hoistNames?, htext, hout]
    rfl

theorem exists_hoistFrom? {ls : List Local} (hnext : Text.IsBoundary code next)
    (hls : ∀ l ∈ ls, ∀ r ∈ l.spans, r.IsRange code) :
    ∃ out, hoistFrom? code next ls = some out := by
  induction ls generalizing next with
  | nil =>
    exact Text.exists_slice?_iff (r := ⟨next, Text.byteLength code⟩).2
      ⟨hnext, Text.isBoundary_byteLength code, hnext.le_byteLength⟩
  | cons l ls ih =>
    obtain ⟨hl, hls⟩ := List.forall_mem_cons.1 hls
    rw [Local.spans, List.forall_mem_cons, List.forall_mem_map] at hl
    have hmax : Text.IsBoundary code (max next l.span.stop) := by
      rcases Nat.le_total next l.span.stop with h | h
      · rw [Nat.max_eq_right h]
        exact hl.1.stop
      · rw [Nat.max_eq_left h]
        exact hnext
    obtain ⟨assignments, last, hnames, hlast⟩ := exists_hoistNames? hmax hl.2
    obtain ⟨out, hout⟩ := ih hlast hls
    by_cases hle : next ≤ l.span.start
    · obtain ⟨between, hbetween⟩ := Text.exists_slice?_iff (r := ⟨next, l.span.start⟩).2
        ⟨hnext, hl.1.start, hle⟩
      refine ⟨between ++ assignments ++ out, ?_⟩
      rw [hoistFrom?, if_pos hle, hbetween, hnames]
      simp [hout]
    · refine ⟨assignments ++ out, ?_⟩
      rw [hoistFrom?, if_neg hle, hnames]
      simp [hout]

/-- **Spans that cut no character can be hoisted**, in whatever order they stand and even if they
overlap. -/
theorem exists_hoist? {code : String} {ls : List Local}
    (hls : ∀ l ∈ ls, ∀ r ∈ l.spans, r.IsRange code.toList) :
    ∃ hoisted, hoist? code ls = some hoisted := by
  have hforward : (ls.all fun l =>
      isForward l.span && l.names.all fun n => isForward n.span) = true := by
    rw [List.all_eq_true]
    intro l hl
    have hspans := hls l hl
    rw [Local.spans, List.forall_mem_cons, List.forall_mem_map] at hspans
    rw [Bool.and_eq_true, List.all_eq_true]
    exact ⟨decide_eq_true hspans.1.le, fun n hn => decide_eq_true (hspans.2 n hn).le⟩
  have hsorted : ∀ l ∈ ls.mergeSort fun l m => decide (l.span.start ≤ m.span.start),
      ∀ r ∈ l.spans, r.IsRange code.toList := fun l hl => hls l (List.mem_mergeSort.1 hl)
  obtain ⟨out, hout⟩ := exists_hoistFrom? (Text.isBoundary_zero code.toList) hsorted
  rw [hoist?, if_pos hforward]
  simp only [hout]
  exact ⟨_, rfl⟩

end Hoisting

end Fragment

/-! ## Analysis -/

namespace Analyzer

open Fragment

/-- **Where the declarations of a block stand**, if the block has less than 2³² bytes, so that all
offsets fit into 32 bits.  The declarations are well formed and stand one behind the other, two
tokens at least for each of them, and so they can be hoisted: no slice that this takes runs
backwards, leaves the code or cuts a character. -/
theorem locals_wellFormed {code : String} {available : Available} {a : Analysis}
    (h : lexical code .block available = .ok a) (hsize : code.utf8ByteSize < 2 ^ 32) :
    (∃ ts, tokens code.toList = .ok ts ∧ a.locals = localsFrom code.toList true ts ∧
      2 * a.locals.length ≤ ts.length) ∧
      (∀ l ∈ a.locals, l.WellFormed code.toList) ∧
      a.locals.Pairwise (fun l m => l.span.stop ≤ m.span.start) ∧
      (∀ l ∈ a.locals, ∀ r ∈ l.spans, r.stop < 2 ^ 32) ∧
      ∃ hoisted, hoist? code a.locals = some hoisted := by
  obtain ⟨ts, hts, hlocals, -⟩ := report_mentions h
  obtain ⟨xs, hreads, hcode, rfl⟩ := tokensFrom_eq_ok_iff.1 hts
  obtain ⟨ps, -, hparts, hdeclared⟩ := localsFrom_eq code.toList true (meaningful 0 xs)
  have hfound : a.locals = localsFrom code.toList true (meaningful 0 xs) :=
    hlocals.trans (locals_eq_localsFrom _ fun t => stop_lt_of_mem_tokens hts hsize)
  have hlocals : a.locals = ps.filterMap (Part.declared? code.toList) := hfound.trans hdeclared
  have hwellFormed : ∀ l ∈ a.locals, l.WellFormed code.toList := by
    rw [hlocals, ← hcode]
    intro l hl
    obtain ⟨t | d, hd, hl⟩ := List.mem_filterMap.1 hl
    · cases hl
    · cases hl
      exact wellFormed_declared hreads hparts hd
  refine ⟨⟨_, hts, hfound, ?_⟩, hwellFormed, ?_, fun l hl r hr => ?_,
    exists_hoist? fun l hl => (hwellFormed l hl).ranges⟩
  · rw [hlocals, hparts]
    exact two_mul_length_declared_le _ ps
  · rw [hlocals]
    exact disjoint_declared _ (hparts ▸ consecutive_meaningful 0 xs)
  · have hle := ((hwellFormed l hl).ranges r hr).stop.le_byteLength
    rw [Text.byteLength_toList] at hle
    exact hle.trans_lt hsize

/-- Characters of two and three bytes in a comment and in a string, and a comma in a call. -/
theorem locals_wellFormed_of_umlauts :
    let code := "/* €; */ a.Map<K, List<V>>[] m = f(\"é, ü\", [1]) , n ; final int k"
    let l : Local := ⟨"a.Map<K, List<V>>[]", ⟨11, 55⟩, [⟨"m", ⟨31, 51⟩⟩, ⟨"n", ⟨54, 55⟩⟩]⟩
    let m : Local := ⟨"int", ⟨64, 69⟩, [⟨"k", ⟨68, 69⟩⟩]⟩
    ∃ a, lexical code .block ⟨.empty, .empty⟩ = .ok a ∧ code.utf8ByteSize < 2 ^ 32 ∧
      a.locals = [l, m] ∧ l.WellFormed code.toList ∧ m.WellFormed code.toList ∧
      l.span.stop ≤ m.span.start ∧ (∀ r ∈ l.spans, r.stop < 2 ^ 32) ∧ hoist? code a.locals =
        some ⟨"/* €; */ m = f(\"é, ü\", [1]);n;final k;", [⟨"m", "a.Map<K, List<V>>[]"⟩,
          ⟨"n", "a.Map<K, List<V>>[]"⟩, ⟨"k", "int"⟩]⟩ := by
  intro code l m
  obtain ⟨a, ha, hlocals⟩ : ∃ a, lexical code .block ⟨.empty, .empty⟩ = .ok a ∧
      a.locals = [l, m] := exists_of_any (by decide +kernel)
  have hhoist : hoist? code [l, m] =
      some ⟨"/* €; */ m = f(\"é, ü\", [1]);n;final k;", [⟨"m", "a.Map<K, List<V>>[]"⟩,
        ⟨"n", "a.Map<K, List<V>>[]"⟩, ⟨"k", "int"⟩]⟩ := by
    rw [hoist?, if_pos (by decide), List.mergeSort_of_pairwise (by decide)]
    decide +kernel
  have hsize : code.utf8ByteSize < 2 ^ 32 := by decide +kernel
  obtain ⟨-, hwellFormed, hdisjoint, hsmall, -⟩ := locals_wellFormed ha hsize
  rw [hlocals] at hwellFormed hdisjoint hsmall
  rw [List.forall_mem_cons, List.forall_mem_singleton] at hwellFormed
  exact ⟨a, ha, hsize, hlocals, hwellFormed.1, hwellFormed.2,
    List.rel_of_pairwise_cons hdisjoint List.mem_cons_self,
    hsmall l List.mem_cons_self, hlocals ▸ hhoist⟩

end Analyzer
end RuleAggregate
