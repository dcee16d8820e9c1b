import RuleAggregate.Proofs.Code.Tiling

/-!
# Nested delimiters

The check of the delimiters keeps a stack of those that are open.  What it accepts can be told
without the stack: the delimiters of the fragment are a word of the grammar of balanced sequences.
What it reports can be told without the stack as well, because the delimiter that is innermost at a
place is the one that only a balanced sequence separates from this place.

## What is here

* `Balanced` — the grammar of balanced sequences of delimiters.
* `Fragment.IsInnermost` — the innermost delimiter that tokens leave open.
* `Fragment.ClosersMatch`, `Fragment.FirstMismatch` — every closing delimiter matches the innermost
  open one, and which one is the first that does not.
* `Fragment.IsUnmatched` — the delimiter that counts as the one without a partner.
* `Fragment.openAfter?` — the stack, token by token, and `Fragment.LeavesOpen`, the invariant that
  tells what lies between the delimiters on it.
* `Fragment.openAfter?_of_balanced` — **balanced sequences leave the stack as it is.**
* `Fragment.balanced_iff`, `Fragment.isInnermost_iff`, `Fragment.closersMatch_iff` — what the stack
  says.
* `Fragment.unmatched?_eq_some_iff` — **which delimiter is reported.**
* `Analyzer.unbalanced_reported` — what this says of the analyzer.
-/

set_option autoImplicit false

namespace RuleAggregate

/-! ## Balanced sequences -/

/-- Whether the kind is one of delimiters. -/
def TokenKind.isDelimiter : TokenKind → Bool
  | opener _ | closer _ => true
  | _ => false

theorem TokenKind.delimiter_cases (k : TokenKind) :
    (∃ b, k = opener b) ∨ (∃ b, k = closer b) ∨ k.isDelimiter = false := by
  cases k with
  | opener b => exact .inl ⟨b, rfl⟩
  | closer b => exact .inr (.inl ⟨b, rfl⟩)
  | _ => exact .inr (.inr rfl)

/-- **The grammar of balanced sequences**: nothing, or a balanced sequence between two delimiters
that belong together, and another one after it. -/
inductive Balanced : List TokenKind → Prop
  | empty : Balanced []
  | pair (b : Bracket) {u v : List TokenKind} (hu : Balanced u) (hv : Balanced v) :
      Balanced (.opener b :: (u ++ .closer b :: v))

theorem Balanced.append {u v : List TokenKind} (hu : Balanced u) (hv : Balanced v) :
    Balanced (u ++ v) := by
  induction hu with
  | empty => exact hv
  | pair b hw _ _ ih =>
    rw [List.cons_append, List.append_assoc, List.cons_append]
    exact .pair b hw ih

namespace Fragment

variable {ts us : List Token} {t : Token} {b : Bracket} {offset : Nat}
  {stack stack' : List (Bracket × Nat)}

/-! ## The delimiters of a fragment -/

/-- The delimiters among the tokens, one after the other. -/
def delimiterKinds (ts : List Token) : List TokenKind :=
  (ts.filter fun t => t.kind.isDelimiter).map Token.kind

theorem delimiterKinds_append (ts us : List Token) :
    delimiterKinds (ts ++ us) = delimiterKinds ts ++ delimiterKinds us := by
  rw [delimiterKinds, List.filter_append, List.map_append, delimiterKinds, delimiterKinds]

theorem delimiterKinds_cons (t : Token) (ts : List Token) :
    delimiterKinds (t :: ts) =
      if t.kind.isDelimiter then t.kind :: delimiterKinds ts else delimiterKinds ts := by
  rw [delimiterKinds, List.filter_cons]
  split <;> rfl

/-- The innermost delimiter that the tokens leave open: what follows it is balanced. -/
def IsInnermost (ts : List Token) (b : Bracket) (offset : Nat) : Prop :=
  ∃ before t after, ts = before ++ t :: after ∧ t.kind = .opener b ∧ t.start = offset ∧
    Balanced (delimiterKinds after)

/-- Every closing delimiter matches the innermost one that is open before it. -/
def ClosersMatch (ts : List Token) : Prop :=
  ∀ before t after b, ts = before ++ t :: after → t.kind = .closer b →
    ∃ offset, IsInnermost before b offset

/-- The first closing delimiter that does not match the innermost one that is open before it. -/
def FirstMismatch (ts : List Token) (b : Bracket) (offset : Nat) : Prop :=
  ∃ before t after, ts = before ++ t :: after ∧ t.kind = .closer b ∧ t.start = offset ∧
    ClosersMatch before ∧ ¬ ∃ o, IsInnermost before b o

/-- The delimiter that counts as the one without a partner: the first closing one that does not
match, or, if all closing ones match, the innermost one that is left open. -/
def IsUnmatched (ts : List Token) (delimiter : Char) (offset : Nat) : Prop :=
  (∃ b, FirstMismatch ts b offset ∧ delimiter = b.closing) ∨
    ClosersMatch ts ∧ ∃ b, IsInnermost ts b offset ∧ delimiter = b.opening

theorem closersMatch_nil : ClosersMatch [] := by
  intro before t after b h
  exact absurd h.symm (by simp)

/-- One more token. -/
theorem closersMatch_concat : ClosersMatch (ts ++ [t]) ↔
    ClosersMatch ts ∧ ∀ b, t.kind = .closer b → ∃ offset, IsInnermost ts b offset := by
  constructor
  · intro h
    refine ⟨fun before u after b hts hu => ?_, fun b ht => h ts t [] b rfl ht⟩
    exact h before u (after ++ [t]) b (by rw [hts, List.append_assoc, List.cons_append]) hu
  · rintro ⟨hts, ht⟩ before u after b hsplit hu
    rcases List.eq_nil_or_concat after with rfl | ⟨after, v, rfl⟩
    · obtain ⟨rfl, hlast⟩ := List.append_inj' hsplit rfl
      cases hlast
      exact ht b hu
    · rw [List.concat_eq_append, ← List.cons_append, ← List.append_assoc] at hsplit
      exact hts before u after b (List.append_inj' hsplit rfl).1 hu

/-! ## The stack -/

/-- The delimiters that are open after one more token, the innermost first; none if the token closes
something that is not open. -/
def step? (stack : List (Bracket × Nat)) (t : Token) : Option (List (Bracket × Nat)) :=
  match t.kind with
  | .opener b => some ((b, t.start) :: stack)
  | .closer b =>
    match stack with
    | (b', _) :: stack => if b' = b then some stack else none
    | [] => none
  | _ => some stack

/-- The delimiters that are open after the tokens. -/
def openAfter? (stack : List (Bracket × Nat)) (ts : List Token) : Option (List (Bracket × Nat)) :=
  ts.foldlM step? stack

theorem step?_opener (h : t.kind = .opener b) (stack : List (Bracket × Nat)) :
    step? stack t = some ((b, t.start) :: stack) := by
  rw [step?, h]

theorem step?_closer_iff (h : t.kind = .closer b) :
    step? stack t = some stack' ↔ ∃ offset, stack = (b, offset) :: stack' := by
  rw [step?, h]
  rcases stack with - | ⟨⟨b', offset⟩, stack⟩
  · simp
  · simp [and_comm]

theorem step?_other (h : t.kind.isDelimiter = false) (stack : List (Bracket × Nat)) :
    step? stack t = some stack := by
  rw [step?]
  split
  · next hkind => rw [hkind] at h; cases h
  · next hkind => rw [hkind] at h; cases h
  · rfl

/-- Only closing delimiters are refused. -/
theorem step?_eq_none (h : step? stack t = none) :
    ∃ b, t.kind = .closer b ∧ ∀ offset, stack.head? ≠ some (b, offset) := by
  rcases t.kind.delimiter_cases with ⟨b, hkind⟩ | ⟨b, hkind⟩ | hother
  · rw [step?_opener hkind] at h
    cases h
  · refine ⟨b, hkind, fun offset hhead => ?_⟩
    obtain ⟨rest, rfl⟩ := List.head?_eq_some_iff.1 hhead
    rw [(step?_closer_iff hkind).2 ⟨offset, rfl⟩] at h
    cases h
  · rw [step?_other hother] at h
    cases h

theorem openAfter?_cons (stack : List (Bracket × Nat)) (t : Token) (ts : List Token) :
    openAfter? stack (t :: ts) = (step? stack t).bind fun stack => openAfter? stack ts := by
  rw [openAfter?, List.foldlM_cons]
  rfl

theorem openAfter?_append (stack : List (Bracket × Nat)) (ts us : List Token) :
    openAfter? stack (ts ++ us) =
      (openAfter? stack ts).bind fun stack => openAfter? stack us := by
  rw [openAfter?, List.foldlM_append]
  rfl

theorem openAfter?_concat (stack : List (Bracket × Nat)) (ts : List Token) (t : Token) :
    openAfter? stack (ts ++ [t]) = (openAfter? stack ts).bind fun stack => step? stack t := by
  rw [openAfter?_append]
  congr
  funext stack
  rw [openAfter?_cons]
  cases step? stack t <;> rfl

/-- Tokens that are no delimiters do not matter. -/
theorem openAfter?_filter (stack : List (Bracket × Nat)) (ts : List Token) :
    openAfter? stack (ts.filter fun t => t.kind.isDelimiter) = openAfter? stack ts := by
  induction ts generalizing stack with
  | nil => rfl
  | cons t ts ih =>
    rw [List.filter_cons]
    split
    · rw [openAfter?_cons, openAfter?_cons]
      simp only [ih]
    · next h =>
      rw [ih, openAfter?_cons, step?_other (by simpa using h)]
      rfl

/-! ## Balanced sequences and the stack -/

/-- If there are only delimiters, the tokens split where the grammar splits their kinds. -/
theorem openAfter?_of_map_kind {ks : List TokenKind} (h : Balanced ks) :
    ∀ {ts : List Token}, ts.map Token.kind = ks → ∀ stack, openAfter? stack ts = some stack := by
  induction h with
  | empty =>
    intro ts hts stack
    rw [List.map_eq_nil_iff.1 hts]
    rfl
  | pair b _ _ ihu ihv =>
    intro ts hts stack
    obtain ⟨o, ts, rfl, ho, hts⟩ := List.map_eq_cons_iff.1 hts
    obtain ⟨us, vs, rfl, hus, hvs⟩ := List.map_eq_append_iff.1 hts
    obtain ⟨c, vs, rfl, hc, hvs⟩ := List.map_eq_cons_iff.1 hvs
    rw [openAfter?_cons, step?_opener ho, Option.bind_some, openAfter?_append, ihu hus,
      Option.bind_some, openAfter?_cons, (step?_closer_iff hc).2 ⟨o.start, rfl⟩, Option.bind_some,
      ihv hvs]

/-- **Balanced sequences leave the stack as it is.** -/
theorem openAfter?_of_balanced (h : Balanced (delimiterKinds ts)) (stack : List (Bracket × Nat)) :
    openAfter? stack ts = some stack := by
  rw [← openAfter?_filter]
  exact openAfter?_of_map_kind h rfl stack

/-- **What lies between the open delimiters**: balanced sequences.  The innermost delimiter comes
first. -/
inductive LeavesOpen : List Token → List (Bracket × Nat) → Prop
  | balanced {ts : List Token} (h : Balanced (delimiterKinds ts)) : LeavesOpen ts []
  | opener {before after : List Token} {t : Token} {b : Bracket} {stack : List (Bracket × Nat)}
      (hbefore : LeavesOpen before stack) (ht : t.kind = .opener b)
      (hafter : Balanced (delimiterKinds after)) :
      LeavesOpen (before ++ t :: after) ((b, t.start) :: stack)

namespace LeavesOpen

/-- A balanced sequence goes on. -/
theorem append (h : LeavesOpen ts stack) (hus : Balanced (delimiterKinds us)) :
    LeavesOpen (ts ++ us) stack := by
  cases h with
  | balanced h =>
    refine .balanced ?_
    rw [delimiterKinds_append]
    exact h.append hus
  | opener hbefore ht hafter =>
    rw [List.append_assoc, List.cons_append]
    refine .opener hbefore ht ?_
    rw [delimiterKinds_append]
    exact hafter.append hus

/-- **One more token.**  An opening delimiter is left open, and a closing one completes a pair. -/
theorem step (h : LeavesOpen ts stack) (ht : step? stack t = some stack') :
    LeavesOpen (ts ++ [t]) stack' := by
  rcases t.kind.delimiter_cases with ⟨b, hkind⟩ | ⟨b, hkind⟩ | hother
  · rw [step?_opener hkind] at ht
    cases ht
    exact .opener h hkind .empty
  · obtain ⟨offset, rfl⟩ := (step?_closer_iff hkind).1 ht
    cases h with
    | @opener before after o _ _ hbefore ho hafter =>
      -- The pair and what lies between belong to the sequence after the next open delimiter.
      rw [List.append_assoc]
      refine hbefore.append ?_
      rw [List.cons_append, delimiterKinds_cons, delimiterKinds_append, delimiterKinds_cons, ho,
        hkind]
      exact .pair b hafter .empty
  · rw [step?_other hother] at ht
    cases ht
    refine h.append ?_
    rw [delimiterKinds_cons, hother]
    exact .empty

end LeavesOpen

/-- **All tokens.** -/
theorem leavesOpen_of_openAfter? (h : openAfter? [] ts = some stack) : LeavesOpen ts stack := by
  induction ts using List.reverseRecOn generalizing stack with
  | nil =>
    cases h
    exact .balanced .empty
  | append_singleton ts t ih =>
    rw [openAfter?_concat] at h
    obtain ⟨before, hbefore, ht⟩ := Option.bind_eq_some_iff.1 h
    exact (ih hbefore).step ht

/-! ## What the stack says -/

/-- **The stack is empty in the end exactly if the delimiters are balanced.** -/
theorem balanced_iff : Balanced (delimiterKinds ts) ↔ openAfter? [] ts = some [] := by
  constructor
  · intro h
    exact openAfter?_of_balanced h []
  · intro h
    cases leavesOpen_of_openAfter? h with
    | balanced h => exact h

/-- **The innermost delimiter that is left open** is the one on top of the stack. -/
theorem isInnermost_iff (h : openAfter? [] ts = some stack) :
    IsInnermost ts b offset ↔ stack.head? = some (b, offset) := by
  constructor
  · rintro ⟨before, t, after, rfl, ht, rfl, hafter⟩
    rw [openAfter?_append] at h
    obtain ⟨below, -, h⟩ := Option.bind_eq_some_iff.1 h
    rw [openAfter?_cons, step?_opener ht, Option.bind_some, openAfter?_of_balanced hafter] at h
    cases h
    rfl
  · intro hhead
    obtain ⟨below, rfl⟩ := List.head?_eq_some_iff.1 hhead
    cases leavesOpen_of_openAfter? h with
    | opener _ ht hafter => exact ⟨_, _, _, rfl, ht, rfl, hafter⟩

/-- **Every closing delimiter matches** exactly if none is refused. -/
theorem closersMatch_iff : ClosersMatch ts ↔ ∃ stack, openAfter? [] ts = some stack := by
  induction ts using List.reverseRecOn with
  | nil => exact iff_of_true closersMatch_nil ⟨[], rfl⟩
  | append_singleton ts t ih =>
    rw [closersMatch_concat, ih, openAfter?_concat]
    constructor
    · rintro ⟨⟨stack, hstack⟩, ht⟩
      rw [hstack, Option.bind_some, ← Option.isSome_iff_exists, Option.isSome_iff_ne_none]
      intro hnone
      obtain ⟨b, hkind, hhead⟩ := step?_eq_none hnone
      obtain ⟨offset, hinnermost⟩ := ht b hkind
      exact hhead offset ((isInnermost_iff hstack).1 hinnermost)
    · rintro ⟨stack', h⟩
      obtain ⟨stack, hstack, hstep⟩ := Option.bind_eq_some_iff.1 h
      refine ⟨⟨stack, hstack⟩, fun b hkind => ?_⟩
      obtain ⟨offset, rfl⟩ := (step?_closer_iff hkind).1 hstep
      exact ⟨offset, (isInnermost_iff hstack).2 rfl⟩

/-- Where the stack gives out, the first closing delimiter stands that does not match. -/
theorem exists_firstMismatch (h : openAfter? [] ts = none) :
    ∃ b offset, FirstMismatch ts b offset := by
  induction ts using List.reverseRecOn with
  | nil => cases h
  | append_singleton ts t ih =>
    cases hts : openAfter? [] ts with
    | none =>
      obtain ⟨b, offset, before, u, after, rfl, hrest⟩ := ih hts
      exact ⟨b, offset, before, u, after ++ [t], by simp, hrest⟩
    | some stack =>
      -- All tokens before the last one went well, so the last one is the first that does not match.
      rw [openAfter?_concat, hts, Option.bind_some] at h
      obtain ⟨b, hkind, hhead⟩ := step?_eq_none h
      refine ⟨b, t.start, ts, t, [], rfl, hkind, rfl, closersMatch_iff.2 ⟨stack, hts⟩, ?_⟩
      rintro ⟨offset, hinnermost⟩
      exact hhead offset ((isInnermost_iff hts).1 hinnermost)

/-! ## What is reported -/

/-- The check goes on with the stack after the token. -/
theorem unmatched?_of_step? (h : step? stack t = some stack') (ts : List Token) :
    unmatched? stack (t :: ts) = unmatched? stack' ts := by
  rcases t.kind.delimiter_cases with ⟨b, hkind⟩ | ⟨b, hkind⟩ | hother
  · rw [step?_opener hkind] at h
    cases h
    rw [unmatched?, hkind]
  · obtain ⟨offset, rfl⟩ := (step?_closer_iff hkind).1 h
    rw [unmatched?, hkind]
    exact if_pos rfl
  · rw [step?_other hother] at h
    cases h
    rw [unmatched?]
    split
    · next hkind => rw [hkind] at hother; cases hother
    · next hkind => rw [hkind] at hother; cases hother
    · rfl

theorem unmatched?_append (h : openAfter? stack ts = some stack') (us : List Token) :
    unmatched? stack (ts ++ us) = unmatched? stack' us := by
  induction ts generalizing stack with
  | nil =>
    cases h
    rfl
  | cons t ts ih =>
    rw [openAfter?_cons] at h
    obtain ⟨next, hstep, hrest⟩ := Option.bind_eq_some_iff.1 h
    rw [List.cons_append, unmatched?_of_step? hstep, ih hrest]

/-- A closing delimiter that does not match is reported. -/
theorem unmatched?_of_firstMismatch (h : FirstMismatch ts b offset) :
    unmatched? [] ts = some (b.closing, offset) := by
  obtain ⟨before, t, after, rfl, hkind, rfl, hbefore, hinnermost⟩ := h
  obtain ⟨stack, hstack⟩ := closersMatch_iff.1 hbefore
  rw [unmatched?_append hstack, unmatched?, hkind]
  rcases stack with - | ⟨⟨b', o⟩, stack⟩
  · rfl
  · refine if_neg fun hb => hinnermost ⟨o, (isInnermost_iff hstack).2 ?_⟩
    rw [hb]
    rfl

/-- If all closing delimiters match, the innermost open one is reported. -/
theorem unmatched?_of_openAfter? (h : openAfter? [] ts = some stack) :
    unmatched? [] ts = stack.head?.map fun (b, offset) => (b.opening, offset) := by
  have hall := unmatched?_append h []
  rwa [List.append_nil, unmatched?] at hall

/-- **Which delimiter is reported.** -/
theorem unmatched?_eq_some_iff {delimiter : Char} :
    unmatched? [] ts = some (delimiter, offset) ↔ IsUnmatched ts delimiter offset := by
  constructor
  · intro h
    cases hts : openAfter? [] ts with
    | none =>
      obtain ⟨b, o, hfirst⟩ := exists_firstMismatch hts
      rw [unmatched?_of_firstMismatch hfirst] at h
      cases h
      exact .inl ⟨b, hfirst, rfl⟩
    | some stack =>
      rw [unmatched?_of_openAfter? hts, Option.map_eq_some_iff] at h
      obtain ⟨⟨b, o⟩, hhead, heq⟩ := h
      cases heq
      exact .inr ⟨closersMatch_iff.2 ⟨stack, hts⟩, b, (isInnermost_iff hts).2 hhead, rfl⟩
  · rintro (⟨b, hfirst, rfl⟩ | ⟨hmatch, b, hinnermost, rfl⟩)
    · exact unmatched?_of_firstMismatch hfirst
    · obtain ⟨stack, hts⟩ := closersMatch_iff.1 hmatch
      rw [unmatched?_of_openAfter? hts, (isInnermost_iff hts).1 hinnermost]
      rfl

/-- Nothing is reported exactly if the delimiters are balanced. -/
theorem unmatched?_eq_none_iff : unmatched? [] ts = none ↔ Balanced (delimiterKinds ts) := by
  rw [balanced_iff]
  cases hts : openAfter? [] ts with
  | none =>
    obtain ⟨b, offset, hfirst⟩ := exists_firstMismatch hts
    rw [unmatched?_of_firstMismatch hfirst]
    simp
  | some stack =>
    rw [unmatched?_of_openAfter? hts]
    cases stack <;> simp

/-! ## Where delimiters stand -/

/-- A token of one character stands where this character does. -/
theorem exists_of_isLongest {code : List Char} {d : Char} (h : IsLongest code t)
    (hd : t.kind.shape = .char (.single d)) :
    ∃ before after, code = before ++ d :: after ∧ t.start = Text.byteLength before := by
  obtain ⟨before, after, hcode, hstart, -⟩ := Text.slice?_eq_some_iff.1 h.cut
  have hshaped := h.shaped
  rw [hd, Regex.matches_char_iff] at hshaped
  obtain ⟨c, hc, htext⟩ := hshaped
  rw [CharClass.contains_single_iff.1 hc] at htext
  exact ⟨before, after, by rw [hcode, htext, List.append_assoc]; rfl, hstart⟩

/-- **The delimiter without a partner stands at its offset.** -/
theorem IsUnmatched.exists_split {code : List Char} {d : Char} (h : IsUnmatched ts d offset)
    (hts : tokens code = .ok ts) :
    ∃ before after, code = before ++ d :: after ∧ offset = Text.byteLength before := by
  rcases h with ⟨b, hfirst, rfl⟩ | ⟨-, b, hinnermost, rfl⟩
  · obtain ⟨before, t, after, rfl, hkind, rfl, -⟩ := hfirst
    exact exists_of_isLongest (isLongest_of_mem_tokens hts (by simp)) (by rw [hkind]; rfl)
  · obtain ⟨before, t, after, rfl, hkind, rfl, -⟩ := hinnermost
    exact exists_of_isLongest (isLongest_of_mem_tokens hts (by simp)) (by rw [hkind]; rfl)

end Fragment

/-! ## Analysis -/

namespace Analyzer

open Fragment

variable {code : String} {ts : List Token}

/-- The analyzer reports what the check of the delimiters finds, with the offset in 32 bits. -/
theorem lexical_eq_unbalanced_iff (h : tokens code.toList = .ok ts) (kind : FragmentKind)
    (available : Available) {delimiter : Char} {stored : UInt32} :
    lexical code kind available = .error (.unbalanced delimiter stored) ↔
      ∃ offset, unmatched? [] ts = some (delimiter, offset) ∧ stored = offset.toUInt32 := by
  rw [lexical, h]
  simp only [checkBalance]
  rcases unmatched? [] ts with - | ⟨d, o⟩
  · simp
  · simp only [Except.error.injEq, AnalyzeError.unbalanced.injEq, Option.some.injEq,
      Prod.mk.injEq]
    constructor
    · rintro ⟨rfl, rfl⟩
      exact ⟨o, ⟨rfl, rfl⟩, rfl⟩
    · rintro ⟨_, ⟨rfl, rfl⟩, rfl⟩
      exact ⟨rfl, rfl⟩

/-- **What is balanced, and what is reported otherwise.**  The delimiters of a fragment that can be
split into tokens are found to be balanced exactly if they are a word of the grammar.  Otherwise
the report names the first closing delimiter that does not match the innermost one that is open
before it, or, if all closing delimiters match, the innermost one that is left open, with the place
where it stands.  The report keeps the offset of this place in 32 bits, which is the offset itself
in a code of less than 2³² bytes. -/
theorem unbalanced_reported (h : tokens code.toList = .ok ts) (kind : FragmentKind)
    (available : Available) :
    ((∀ delimiter stored,
      lexical code kind available ≠ .error (.unbalanced delimiter stored)) ↔
        Balanced (delimiterKinds ts)) ∧
    (∀ delimiter stored, lexical code kind available = .error (.unbalanced delimiter stored) ↔
      ∃ offset, IsUnmatched ts delimiter offset ∧ stored = offset.toUInt32) ∧
    (∀ delimiter offset, IsUnmatched ts delimiter offset →
      (∃ before after, code.toList = before ++ delimiter :: after ∧
        offset = Text.byteLength before) ∧
      (code.utf8ByteSize < 2 ^ 32 → offset.toUInt32.toNat = offset)) := by
  refine ⟨?_, fun delimiter stored => ?_, fun delimiter offset hoffset => ?_⟩
  · rw [← unmatched?_eq_none_iff, Option.eq_none_iff_forall_ne_some]
    constructor
    · intro hnone p hp
      exact hnone p.1 p.2.toUInt32 ((lexical_eq_unbalanced_iff h kind available).2 ⟨p.2, hp, rfl⟩)
    · intro hnone delimiter stored hreport
      obtain ⟨offset, hoffset, -⟩ := (lexical_eq_unbalanced_iff h kind available).1 hreport
      exact hnone (delimiter, offset) hoffset
  · simp only [lexical_eq_unbalanced_iff h kind available, unmatched?_eq_some_iff]
  · obtain ⟨before, after, hcode, rfl⟩ := hoffset.exists_split h
    refine ⟨⟨before, after, hcode, rfl⟩, fun hsize => ?_⟩
    have hplace : Text.IsBoundary code.toList (Text.byteLength before) :=
      ⟨before, delimiter :: after, hcode, rfl⟩
    exact hplace.toNat_toUInt32 (by rwa [Text.byteLength_toList])

/-- A bracket is closed in place of another one, after a string with a bracket in it; and the inner
one of two brackets that are left open. -/
theorem unbalanced_reported_of_brackets :
    let crossed := "f(\"é)\", a[0) /* ] */"
    let unfinished := "g[(x) + (y"
    let available : Available := ⟨.empty, .empty⟩
    (∃ ts, tokens crossed.toList = .ok ts ∧ ¬ Balanced (delimiterKinds ts) ∧
      lexical crossed .expression available = .error (.unbalanced ')' 12) ∧
      ∃ b, FirstMismatch ts b 12 ∧ ')' = b.closing) ∧
    ∃ ts, tokens unfinished.toList = .ok ts ∧ ¬ Balanced (delimiterKinds ts) ∧
      lexical unfinished .block available = .error (.unbalanced '(' 8) ∧
      ClosersMatch ts ∧ ∃ b, IsInnermost ts b 8 ∧ '(' = b.opening := by
  intro crossed unfinished available
  have hchecked : ∀ (code : String) (kind : FragmentKind) (delimiter : Char) (offset : Nat),
      (tokens code.toList).toOption.bind (unmatched? []) = some (delimiter, offset) →
        ∃ ts, tokens code.toList = .ok ts ∧ ¬ Balanced (delimiterKinds ts) ∧
          lexical code kind available = .error (.unbalanced delimiter offset.toUInt32) ∧
          IsUnmatched ts delimiter offset := by
    intro code kind delimiter offset h
    rcases hts : tokens code.toList with e | ts
    · rw [hts] at h
      cases h
    · rw [hts] at h
      obtain ⟨hbalanced, hreport, -⟩ := unbalanced_reported hts kind available
      have hunmatched : IsUnmatched ts delimiter offset := unmatched?_eq_some_iff.1 h
      have herror := (hreport delimiter offset.toUInt32).2 ⟨offset, hunmatched, rfl⟩
      exact ⟨ts, rfl, fun hword => hbalanced.2 hword _ _ herror, herror, hunmatched⟩
  constructor
  · obtain ⟨ts, hts, hbalanced, herror, hfirst | ⟨-, b, -, hb⟩⟩ :=
      hchecked crossed .expression ')' 12 (by decide +kernel)
    · exact ⟨ts, hts, hbalanced, herror, hfirst⟩
    · cases b <;> cases hb
  · obtain ⟨ts, hts, hbalanced, herror, ⟨b, -, hb⟩ | hopen⟩ :=
      hchecked unfinished .block '(' 8 (by decide +kernel)
    · cases b <;> cases hb
    · exact ⟨ts, hts, hbalanced, herror, hopen⟩

end Analyzer
end RuleAggregate
