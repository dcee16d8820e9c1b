import RuleAggregate.Code.Locals

/-!
# What declarations consist of

The declarations of a block are found by skipping over tokens, and of the tokens only offsets are
kept.  Here the tokens are kept as well: a block is a list of parts, each of them a single token or
a declaration with the tokens of its type, its names and their values, and the tokens of the block
are those of its parts, one after the other.

## What is here

* `Fragment.endOf`, `Fragment.Skips` — where a run of tokens ends, and functions that skip one.
* `NameTokens`, `NextTokens`, `LocalTokens`, `Fragment.Part` — declared names, declarations and
  parts of a block, as tokens.
* `Fragment.Part.WellPlaced` — declarations stand only where statements start.
* `Fragment.takeNames?_eq_some`, `Fragment.takeLocal?_eq_some` — what is split off the front.
* `Fragment.localsFrom_eq` — **the parts of a block.**
* `Fragment.locals_eq_localsFrom` — small offsets are kept as they are.
-/

set_option autoImplicit false

namespace RuleAggregate

namespace Fragment

variable {stop depth : Nat} {t : Token} {ts rest : List Token} {p : Nat × List Token}

/-! ## Skipping tokens -/

/-- Where a run of tokens ends, if what is before it ends at `stop`. -/
def endOf (stop : Nat) : List Token → Nat
  | [] => stop
  | t :: ts => endOf t.stop ts

theorem endOf_append (stop : Nat) (ts us : List Token) :
    endOf stop (ts ++ us) = endOf (endOf stop ts) us := by
  induction ts generalizing stop with
  | nil => rfl
  | cons t ts ih => exact ih t.stop

/-- A run of tokens ends where one of them ends. -/
theorem exists_endOf_eq (t : Token) (ts : List Token) :
    ∃ u ∈ t :: ts, endOf t.stop ts = u.stop := by
  induction ts generalizing t with
  | nil => exact ⟨t, List.mem_singleton_self t, rfl⟩
  | cons v ts ih =>
    obtain ⟨u, hu, heq⟩ := ih v
    exact ⟨u, List.mem_cons_of_mem t hu, heq⟩

/-- What is left is a rest of the tokens, and where it starts is told by the tokens before it. -/
def Skips (stop : Nat) (ts : List Token) (p : Nat × List Token) : Prop :=
  ∃ skipped, ts = skipped ++ p.2 ∧ p.1 = endOf stop skipped

namespace Skips

theorem refl (stop : Nat) (ts : List Token) : Skips stop ts (stop, ts) := ⟨[], rfl, rfl⟩

theorem cons (h : Skips t.stop ts p) : Skips stop (t :: ts) p := by
  obtain ⟨skipped, rfl, hstop⟩ := h
  exact ⟨t :: skipped, rfl, hstop⟩

theorem trans {q : Nat × List Token} (h : Skips stop ts p) (hq : Skips p.1 p.2 q) :
    Skips stop ts q := by
  obtain ⟨skipped, rfl, hstop⟩ := h
  obtain ⟨more, hrest, hmore⟩ := hq
  exact ⟨skipped ++ more, by rw [hrest, List.append_assoc], by rw [hmore, hstop, endOf_append]⟩

end Skips

theorem skips_skipQualifiers (stop : Nat) (ts : List Token) :
    Skips stop ts (skipQualifiers stop ts) := by
  fun_induction skipQualifiers stop ts with
  | case1 stop t u ts h ih => exact ih.cons.cons
  | case2 stop t u ts h => exact .refl _ _
  | case3 stop ts h => exact .refl _ _

theorem skips_of_skipArguments? (stop : Nat) (h : skipArguments? depth ts = some p) :
    Skips stop ts p := by
  fun_induction skipArguments? depth ts generalizing stop with
  | case1 => cases h
  | case3 depth t ts hk hd =>
    cases h
    exact (Skips.refl _ _).cons
  | case2 depth t ts hk ih | case4 depth t ts hk hd ih | case5 depth t ts hk ih
  | case6 depth t ts hk ih | case7 depth t ts hk ih | case8 depth t ts hk ih =>
    exact (ih _ h).cons
  | case9 => cases h

theorem skips_of_skipGeneric? (h : skipGeneric? stop ts = some p) : Skips stop ts p := by
  rcases ts with - | ⟨t, ts⟩
  · cases h
    exact .refl _ _
  · rw [skipGeneric?] at h
    split at h
    · exact (skips_of_skipArguments? _ h).cons
    · cases h
      exact .refl _ _

theorem skips_skipDimensions (stop : Nat) (ts : List Token) :
    Skips stop ts (skipDimensions stop ts) := by
  fun_induction skipDimensions stop ts with
  | case1 stop t u ts h ih => exact ih.cons.cons
  | case2 stop t u ts h => exact .refl _ _
  | case3 stop ts h => exact .refl _ _

/-- The tokens are at an end, or go on with a comma or a semicolon. -/
def EndsValue (ts : List Token) : Prop :=
  ∀ t, ts.head? = some t → t.kind = .comma ∨ t.kind = .semicolon

theorem skips_skipValue (stop depth : Nat) (ts : List Token) :
    Skips stop ts (skipValue stop depth ts) ∧ EndsValue (skipValue stop depth ts).2 := by
  fun_induction skipValue stop depth ts with
  | case1 stop depth => exact ⟨.refl _ _, nofun⟩
  | case4 stop t ts hk =>
    exact ⟨.refl _ _, fun u hu => by cases hu; exact .inl hk⟩
  | case6 stop t ts hk =>
    exact ⟨.refl _ _, fun u hu => by cases hu; exact .inr hk⟩
  | case2 stop depth t ts b hk ih | case3 stop depth t ts b hk ih | case5 stop depth t ts hk hd ih
  | case7 stop depth t ts hk hd ih => exact ⟨ih.1.cons, ih.2⟩
  | case8 stop depth t ts hopener hcloser hcomma hsemicolon ih => exact ⟨ih.1.cons, ih.2⟩

/-! ## Names and values -/

theorem infix_flatMap_of_mem {α β : Type} {l : List α} {a : α} (f : α → List β) (h : a ∈ l) :
    f a <:+: l.flatMap f :=
  List.infix_of_mem_flatten (List.mem_map_of_mem h)

/-- No value, or an equals sign and the tokens of a value. -/
def IsValue (value : List Token) : Prop :=
  value = [] ∨ ∃ t v, value = t :: v ∧ t.kind = .assign ∧ v ≠ []

/-- No equals sign, or one that no value follows. -/
def IsLoose (loose : List Token) : Prop :=
  loose = [] ∨ ∃ t, loose = [t] ∧ t.kind = .assign

theorem IsLoose.kind_of_head? {loose : List Token} (h : IsLoose loose)
    (ht : loose.head? = some t) : t.kind = .assign := by
  rcases h with rfl | ⟨u, rfl, hu⟩
  · cases ht
  · cases ht
    exact hu

theorem endOf_eq_of_ne_nil {us : List Token} (h : us ≠ []) (m n : Nat) :
    endOf m us = endOf n us := by
  obtain ⟨u, us, rfl⟩ := List.exists_cons_of_ne_nil h
  rfl

/-- An equals sign that no value follows is skipped, but does not count for where the name ends. -/
theorem takeValue?_eq_some (h : takeValue? stop ts = some p) :
    ∃ value loose, ts = value ++ loose ++ p.2 ∧ p.1 = endOf stop value ∧
      IsValue value ∧ IsLoose loose ∧ EndsValue p.2 := by
  rcases ts with - | ⟨t, ts⟩
  · cases h
    exact ⟨[], [], rfl, rfl, .inl rfl, .inl rfl, nofun⟩
  · rw [takeValue?] at h
    split at h
    · next hk =>
      cases h
      obtain ⟨⟨v, hv, hstop⟩, hends⟩ := skips_skipValue stop 0 ts
      rcases List.eq_nil_or_concat v with rfl | ⟨w, u, rfl⟩
      · exact ⟨[], [t], congrArg (t :: ·) hv, hstop, .inl rfl, .inr ⟨t, rfl, hk⟩, hends⟩
      · have hne : w.concat u ≠ [] := by simp
        refine ⟨t :: w.concat u, [], ?_, hstop.trans (endOf_eq_of_ne_nil hne _ _),
          .inr ⟨t, _, rfl, hk, hne⟩, .inl rfl, hends⟩
        rw [List.append_nil, List.cons_append, ← hv]
    · next hk =>
      cases h
      exact ⟨[], [], rfl, rfl, .inl rfl, .inl rfl, fun u hu => by cases hu; exact .inl hk⟩
    · next hk =>
      cases h
      exact ⟨[], [], rfl, rfl, .inl rfl, .inl rfl, fun u hu => by cases hu; exact .inr hk⟩
    · cases h

end Fragment

open Fragment

/-- The tokens of a declared name with its value. -/
structure NameTokens where
  name : Token
  value : List Token
  isName : name.kind = .identifier
  isValue : IsValue value

namespace NameTokens

def tokens (n : NameTokens) : List Token := n.name :: n.value

/-- The name that is declared. -/
def localName (n : NameTokens) : LocalName :=
  ⟨n.name.name, ⟨n.name.start, endOf n.name.stop n.value⟩⟩

end NameTokens

/-- The tokens of a declared name that is not the first one. -/
structure NextTokens where
  /-- What stands in place of the value of the name before. -/
  loose : List Token
  comma : Token
  declared : NameTokens
  isLoose : IsLoose loose
  isComma : comma.kind = .comma

namespace NextTokens

def tokens (n : NextTokens) : List Token := n.loose ++ n.comma :: n.declared.tokens

end NextTokens

/-- The tokens of a declaration of local variables, without its semicolon. -/
structure LocalTokens where
  /-- The word `final`, if it is there. -/
  final : Option Token
  /-- The first token of the type. -/
  type : Token
  /-- The other tokens of the type: qualifiers, arguments and dimensions. -/
  typeRest : List Token
  first : NameTokens
  others : List NextTokens
  isFinal : ∀ t ∈ final, t.kind = .identifier ∧ t.name = "final"
  isType : type.kind = .identifier

namespace LocalTokens

/-- The declared names. -/
def names (d : LocalTokens) : List NameTokens := d.first :: d.others.map NextTokens.declared

/-- The tokens after the type. -/
def listed (d : LocalTokens) : List Token := d.first.tokens ++ d.others.flatMap NextTokens.tokens

def tokens (d : LocalTokens) : List Token :=
  d.final.toList ++ (d.type :: d.typeRest) ++ d.listed

theorem infix_listed {d : LocalTokens} {n : NameTokens} (hn : n ∈ d.names) :
    n.tokens <:+: d.listed := by
  rcases List.mem_cons.1 hn with rfl | hn
  · exact (List.prefix_append _ _).isInfix
  · obtain ⟨o, ho, rfl⟩ := List.mem_map.1 hn
    have htokens : o.declared.tokens <:+ o.tokens :=
      (List.suffix_cons _ _).trans (List.suffix_append _ _)
    exact (htokens.isInfix.trans (infix_flatMap_of_mem _ ho)).trans
      (List.suffix_append _ _).isInfix

theorem sublist_listed {d : LocalTokens} {n : NameTokens} (hn : n ∈ d.names) :
    n.tokens.Sublist d.listed :=
  (infix_listed hn).sublist

theorem infix_type (d : LocalTokens) : d.type :: d.typeRest <:+: d.tokens :=
  (List.suffix_append _ _).isInfix.trans (List.prefix_append _ _).isInfix

/-- A declaration starts with a name. -/
theorem exists_tokens_eq_cons (d : LocalTokens) :
    ∃ t ts, d.tokens = t :: ts ∧ t.kind = .identifier := by
  rcases hfinal : d.final with - | t
  · exact ⟨d.type, d.typeRest ++ d.listed, by simp [tokens, hfinal], d.isType⟩
  · exact ⟨t, d.type :: d.typeRest ++ d.listed, by simp [tokens, hfinal],
      (d.isFinal t hfinal).1⟩

/-- Where the type ends. -/
def typeStop (d : LocalTokens) : Nat := endOf d.type.stop d.typeRest

/-- The declaration that is found. -/
def declared (code : List Char) (d : LocalTokens) : Local :=
  ⟨String.ofList ((Text.slice? code d.type.start d.typeStop).getD []),
    ⟨d.type.start, endOf d.typeStop d.listed⟩, d.names.map NameTokens.localName⟩

end LocalTokens

namespace Fragment

/-- A part of a block: a token, or a declaration without its semicolon. -/
inductive Part where
  | token (t : Token)
  | declaration (d : LocalTokens)

namespace Part

def tokens : Part → List Token
  | token t => [t]
  | declaration d => d.tokens

theorem flatMap_tokens_token (t : Token) (ps : List Part) :
    (token t :: ps).flatMap tokens = t :: ps.flatMap tokens := rfl

theorem flatMap_tokens_declaration (d : LocalTokens) (ps : List Part) :
    (declaration d :: ps).flatMap tokens = d.tokens ++ ps.flatMap tokens := rfl

/-- The declaration that is found there. -/
def declared? (code : List Char) : Part → Option Local
  | token _ => none
  | declaration d => some (d.declared code)

/-- Declarations stand only where statements start, and nothing but a semicolon or an equals sign
without a value follows them.  `fresh` says whether a statement starts at the first part. -/
def WellPlaced : Bool → List Part → Prop
  | _, [] => True
  | _, token t :: ps => WellPlaced t.kind.opensStatement ps
  | fresh, declaration _ :: ps => fresh = true ∧ WellPlaced true ps ∧
      ∀ t, (ps.flatMap tokens).head? = some t → t.kind = .assign ∨ t.kind = .semicolon

@[simp] theorem flatMap_tokens_map (ts : List Token) : (ts.map token).flatMap tokens = ts := by
  rw [List.flatMap_map]
  exact List.flatMap_singleton' ts

@[simp] theorem filterMap_declared?_map (code : List Char) (ts : List Token) :
    (ts.map token).filterMap (declared? code) = [] := by
  rw [List.filterMap_map, List.filterMap_eq_nil_iff]
  exact fun _ _ => rfl

theorem wellPlaced_map (fresh : Bool) (ts : List Token) : WellPlaced fresh (ts.map token) := by
  induction ts generalizing fresh with
  | nil => trivial
  | cons t ts ih => exact ih _

theorem wellPlaced_map_append {t : Token} {ps : List Part} (fresh : Bool) (ts : List Token) :
    WellPlaced fresh (ts.map token ++ token t :: ps) ↔ WellPlaced t.kind.opensStatement ps := by
  induction ts generalizing fresh with
  | nil => rfl
  | cons u ts ih => exact ih _

end Part

variable {stop : Nat} {t : Token} {ts rest : List Token} {ns : List LocalName} {l : Local}

/-! ## What is split off the front -/

/-- The tokens before `rest` end a declaration. -/
def EndsDeclaration (ts rest : List Token) : Prop :=
  ∃ loose, IsLoose loose ∧
    ((ts = loose ∧ rest = []) ∨ ∃ t, t.kind = .semicolon ∧ ts = loose ++ t :: rest)

theorem takeNames?_eq_some (h : takeNames? ts = some (ns, rest)) :
    ∃ (first : NameTokens) (others : List NextTokens) (after : List Token),
      ts = first.tokens ++ others.flatMap NextTokens.tokens ++ after ∧
      ns = (first :: others.map NextTokens.declared).map NameTokens.localName ∧
      EndsDeclaration after rest := by
  fun_induction takeNames? ts generalizing ns rest with
  | case1 => cases h
  | case2 t ts ht hv => cases h
  | case3 t ts ht stop n hv =>
    cases h
    obtain ⟨value, loose, hts, hstop, hvalue, hloose, -⟩ := takeValue?_eq_some hv
    obtain rfl : ts = value ++ loose := by rw [hts, List.append_nil]
    obtain rfl : stop = endOf t.stop value := hstop
    exact ⟨⟨t, value, ht, hvalue⟩, [], loose, by simp [NameTokens.tokens], rfl, loose, hloose,
      .inl ⟨rfl, rfl⟩⟩
  | case4 t ts ht stop n u us hv hu =>
    rename_i ih
    obtain ⟨⟨ms, r⟩, hms, hpair⟩ := Option.map_eq_some_iff.1 h
    cases hpair
    obtain ⟨value, loose, hts, hstop, hvalue, hloose, -⟩ := takeValue?_eq_some hv
    obtain rfl : ts = value ++ loose ++ u :: us := hts
    obtain rfl : stop = endOf t.stop value := hstop
    obtain ⟨first, others, after, rfl, rfl, hafter⟩ := ih hms
    refine ⟨⟨t, value, ht, hvalue⟩, ⟨loose, u, first, hloose, hu⟩ :: others, after, ?_, rfl,
      hafter⟩
    simp [NameTokens.tokens, NextTokens.tokens]
  | case5 t ts ht stop n u us hv hu =>
    cases h
    obtain ⟨value, loose, hts, hstop, hvalue, hloose, hends⟩ := takeValue?_eq_some hv
    obtain rfl : ts = value ++ loose ++ u :: us := hts
    obtain rfl : stop = endOf t.stop value := hstop
    have hsemicolon : u.kind = .semicolon := (hends u rfl).resolve_left hu
    refine ⟨⟨t, value, ht, hvalue⟩, [], loose ++ u :: us, by simp [NameTokens.tokens], rfl, loose,
      hloose, .inr ⟨u, hsemicolon, ?_⟩⟩
    rw [if_pos hsemicolon]
  | case6 t ts ht => cases h

theorem skipFinal_eq (ts : List Token) :
    ∃ final : Option Token, (∀ t ∈ final, t.kind = .identifier ∧ t.name = "final") ∧
      ts = final.toList ++ skipFinal ts := by
  rcases ts with - | ⟨t, ts⟩
  · exact ⟨none, nofun, rfl⟩
  · rw [skipFinal]
    split
    · next h => exact ⟨some t, fun u hu => by cases hu; exact h, rfl⟩
    · exact ⟨none, nofun, rfl⟩

theorem getLast?_localNames (stop : Nat) (first : NameTokens) (others : List NextTokens) :
    ((first :: others.map NextTokens.declared).map NameTokens.localName).getLast?.map
        (fun n => n.span.stop) =
      some (endOf stop (first.tokens ++ others.flatMap NextTokens.tokens)) := by
  induction others generalizing stop first with
  | nil => simp [NameTokens.tokens, NameTokens.localName, endOf]
  | cons n others ih =>
    rw [List.flatMap_cons, ← List.append_assoc, NextTokens.tokens, List.append_cons,
      ← List.append_assoc, List.append_assoc, endOf_append, ← ih]
    simp

theorem takeLocal?_eq_some {code : List Char} (h : takeLocal? code ts = some (l, rest)) :
    ∃ (d : LocalTokens) (after : List Token), ts = d.tokens ++ after ∧ l = d.declared code ∧
      EndsDeclaration after rest := by
  obtain ⟨final, hfinal, hts⟩ := skipFinal_eq ts
  rw [takeLocal?] at h
  split at h
  · cases h
  · next t us heq =>
    split at h
    · next ht =>
      obtain ⟨p, hgeneric, h⟩ := Option.bind_eq_some_iff.1 h
      obtain ⟨⟨ns, r⟩, hnames, hpair⟩ := Option.map_eq_some_iff.1 h
      cases hpair
      obtain ⟨typeRest, hus, hstop⟩ := (skips_skipQualifiers t.stop us).trans
        ((skips_of_skipGeneric? hgeneric).trans (skips_skipDimensions p.1 p.2))
      obtain ⟨first, others, after, hlisted, rfl, hafter⟩ := takeNames?_eq_some hnames
      refine ⟨⟨final, t, typeRest, first, others, hfinal, ht.1⟩, after, ?_, ?_, hafter⟩
      · rw [hts, heq, hus, hlisted]
        simp [LocalTokens.tokens, LocalTokens.listed]
      · simp only [getLast?_localNames (endOf t.stop typeRest), hstop]
        rfl
    · cases h

/-! ## Blocks -/

/-- **The parts of a block**: its tokens are theirs, and so are its declarations. -/
theorem localsFrom_eq (code : List Char) (fresh : Bool) (ts : List Token) :
    ∃ ps, Part.WellPlaced fresh ps ∧ ts = ps.flatMap Part.tokens ∧
      localsFrom code fresh ts = ps.filterMap (Part.declared? code) := by
  fun_induction localsFrom code fresh ts with
  | case1 fresh => exact ⟨[], trivial, rfl, rfl⟩
  | case2 fresh t ts l rest htake ih =>
    obtain ⟨ps, hplaced, hrest, hlocals⟩ := ih
    split at htake
    · obtain ⟨d, after, hts, rfl, loose, hloose, hafter⟩ := takeLocal?_eq_some htake
      rw [hts, hlocals]
      rcases hafter with ⟨rfl, rfl⟩ | ⟨u, hu, rfl⟩
      · rw [localsFrom] at hlocals
        refine ⟨.declaration d :: after.map .token, ⟨‹_›, Part.wellPlaced_map _ _, ?_⟩,
          by simp [Part.tokens], by simp [Part.declared?, ← hlocals]⟩
        rw [Part.flatMap_tokens_map]
        exact fun u hu => .inl (hloose.kind_of_head? hu)
      · refine ⟨.declaration d :: (loose.map .token ++ .token u :: ps), ⟨‹_›, ?_, ?_⟩,
          by simp [Part.tokens, ← hrest], ?_⟩
        · rw [Part.wellPlaced_map_append, hu]
          exact hplaced
        · rw [List.flatMap_append, Part.flatMap_tokens_map]
          intro v hv
          rcases hloose with rfl | hloose
          · cases hv
            exact .inr hu
          · obtain ⟨w, rfl, hw⟩ := hloose
            cases hv
            exact .inl hw
        · simp only [List.filterMap_cons, List.filterMap_append, Part.filterMap_declared?_map,
            Part.declared?, List.nil_append]
    · cases htake
  | case3 fresh t ts htake ih =>
    obtain ⟨ps, hplaced, hts, hlocals⟩ := ih
    exact ⟨.token t :: ps, hplaced, congrArg (t :: ·) hts, hlocals⟩

/-! ## Where declarations end -/

theorem exists_stop_localName (n : NameTokens) : ∃ u ∈ n.tokens, n.localName.span.stop = u.stop :=
  exists_endOf_eq n.name n.value

theorem stop_declared (code : List Char) (d : LocalTokens) :
    (d.declared code).span.stop = endOf d.type.stop (d.typeRest ++ d.listed) :=
  (endOf_append _ _ _).symm

theorem suffix_typed (d : LocalTokens) : d.type :: (d.typeRest ++ d.listed) <:+ d.tokens := by
  rw [LocalTokens.tokens, List.append_assoc]
  exact List.suffix_append _ _

theorem exists_stop_declared (code : List Char) (d : LocalTokens) :
    ∃ u ∈ d.tokens, (d.declared code).span.stop = u.stop := by
  obtain ⟨u, hu, heq⟩ := exists_endOf_eq d.type (d.typeRest ++ d.listed)
  exact ⟨u, (suffix_typed d).subset hu, (stop_declared code d).trans heq⟩

/-! ## Offsets in 32 bits -/

theorem truncate_localName {n : NameTokens} (h : ∀ t ∈ n.tokens, t.stop < UInt32.size) :
    n.localName.truncate = n.localName := by
  obtain ⟨u, hu, hstop⟩ := exists_stop_localName n
  have hstart : n.localName.span.start < UInt32.size :=
    Nat.lt_of_le_of_lt (Nat.le_add_right _ _) (h n.name List.mem_cons_self)
  rw [LocalName.truncate, Text.Span.truncate_eq hstart (hstop ▸ h u hu)]

theorem truncate_declared (code : List Char) {d : LocalTokens}
    (h : ∀ t ∈ d.tokens, t.stop < UInt32.size) : (d.declared code).truncate = d.declared code := by
  obtain ⟨u, hu, hstop⟩ := exists_stop_declared code d
  have hstart : (d.declared code).span.start < UInt32.size :=
    Nat.lt_of_le_of_lt (Nat.le_add_right _ _)
      (h d.type ((suffix_typed d).subset List.mem_cons_self))
  have hnames : (d.declared code).names.map LocalName.truncate = (d.declared code).names := by
    rw [LocalTokens.declared, List.map_map]
    refine List.map_congr_left fun n hn => truncate_localName fun t ht => h t ?_
    exact List.mem_append_right _ ((LocalTokens.sublist_listed hn).subset ht)
  rw [Local.truncate, Text.Span.truncate_eq hstart (hstop ▸ h u hu), hnames]

/-- Where all tokens end below 2³², the offsets are kept as they are. -/
theorem locals_eq_localsFrom (code : List Char) (h : ∀ t ∈ ts, t.stop < UInt32.size) :
    locals code ts = localsFrom code true ts := by
  obtain ⟨ps, -, rfl, hlocals⟩ := localsFrom_eq code true ts
  have hsame : ∀ l ∈ localsFrom code true (ps.flatMap Part.tokens), l.truncate = l := by
    rw [hlocals]
    intro l hl
    obtain ⟨t | d, hp, hdeclared⟩ := List.mem_filterMap.1 hl
    · cases hdeclared
    · cases hdeclared
      exact truncate_declared code fun t ht => h t (List.mem_flatMap.2 ⟨_, hp, ht⟩)
  exact (List.map_congr_left hsame).trans (List.map_id _)

/-- Every declared name is an identifier of the block. -/
theorem exists_token_of_mem_names {code : List Char} {n : LocalName} (hl : l ∈ locals code ts)
    (hn : n ∈ l.names) :
    ∃ t ∈ ts, t.kind = .identifier ∧ n.name = t.name ∧
      n.span.start = t.start.toUInt32.toNat := by
  obtain ⟨ps, -, rfl, hlocals⟩ := localsFrom_eq code true ts
  rw [locals, hlocals, List.mem_map] at hl
  obtain ⟨l, hl, rfl⟩ := hl
  obtain ⟨p | d, hp, hdeclared⟩ := List.mem_filterMap.1 hl
  · cases hdeclared
  · cases hdeclared
    obtain ⟨_, hname, rfl⟩ := List.mem_map.1 hn
    obtain ⟨m, hm, rfl⟩ := List.mem_map.1 hname
    refine ⟨m.name, List.mem_flatMap.2 ⟨_, hp, ?_⟩, m.isName, rfl, rfl⟩
    exact List.mem_append_right _
      ((LocalTokens.sublist_listed hm).subset List.mem_cons_self)

end Fragment
end RuleAggregate
