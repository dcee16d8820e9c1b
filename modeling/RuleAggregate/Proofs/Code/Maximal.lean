import RuleAggregate.Proofs.Code.Splitting
import RuleAggregate.Proofs.Text.Boundaries

/-!
# Tokens are as long as possible

A token is taken off the front of a text if it is a token on its own and no kind of token goes on
with what follows.  So whether the tokens of a text are also those of another text is a question of
what follows them, and nothing else.

## What is here

* `Fragment.NoLonger` — no token goes on.
* `Fragment.takes_iff` — **a token on its own, and nothing longer.**
* `Lexeme`, `Fragment.textOf`, `Fragment.Reads` — tokens without their places, the text that they
  make up, and that they are taken off its front one after the other.
* `Fragment.place` — tokens at their places.
* `Fragment.lexemes_eq_ok_iff` — **how a text is split into tokens.**
* `Fragment.meaningful`, `Fragment.tokensFrom_eq_ok_iff` — the same for tokens that carry meaning.
-/

set_option autoImplicit false

namespace RuleAggregate

theorem TokenKind.mem_all (k : TokenKind) : k ∈ all := by
  rcases k with _ | _ | _ | _ | _ | _ | _ | _ | _ | _ | b | b | _ | _ | _ | _
  case opener => cases b <;> decide
  case closer => cases b <;> decide
  all_goals decide

namespace Fragment

variable {k : TokenKind} {t s : List Char} {c : Char} {n : Nat}

/-! ## The longest candidate -/

theorem longer_eq_some {a b : Option (TokenKind × Nat)} (h : longer a b = some (k, n)) :
    (a = some (k, n) ∨ b = some (k, n)) ∧ (∀ j m, a = some (j, m) → m ≤ n) ∧
      ∀ j m, b = some (j, m) → m ≤ n := by
  rcases a with - | ⟨i, l⟩
  · exact ⟨.inr h, nofun, fun j m hb => by rw [longer, hb] at h; cases h; exact Nat.le_refl _⟩
  · rcases b with - | ⟨j, m⟩
    · cases h
      exact ⟨.inl rfl, fun _ _ h => by cases h; exact Nat.le_refl _, nofun⟩
    · simp only [longer] at h
      split at h
      · next hlt =>
        cases h
        exact ⟨.inr rfl, fun _ _ h => by cases h; exact Nat.le_of_lt hlt,
          fun _ _ h => by cases h; exact Nat.le_refl _⟩
      · next hle =>
        cases h
        exact ⟨.inl rfl, fun _ _ h => by cases h; exact Nat.le_refl _,
          fun _ _ h => by cases h; exact Nat.not_lt.1 hle⟩

/-- The longest of several candidates is one of them, and no candidate is longer. -/
theorem foldl_longer_eq_some {f : TokenKind → Option Nat} {ks : List TokenKind} :
    ∀ {best : Option (TokenKind × Nat)},
      ks.foldl (fun best k => longer best ((f k).map (k, ·))) best = some (k, n) →
        (best = some (k, n) ∨ f k = some n) ∧ (∀ j m, best = some (j, m) → m ≤ n) ∧
          ∀ j ∈ ks, ∀ m, f j = some m → m ≤ n := by
  induction ks with
  | nil =>
    intro best h
    obtain rfl : best = some (k, n) := h
    exact ⟨.inl rfl, fun j m h => by cases h; exact Nat.le_refl _, nofun⟩
  | cons i ks ih =>
    intro best h
    obtain ⟨hsource, hlonger, hall⟩ := ih h
    have hbest : ∀ j m, best = some (j, m) → m ≤ n := by
      rintro j m rfl
      rcases hi : longer (some (j, m)) ((f i).map (i, ·)) with - | ⟨k', n'⟩
      · rcases hf : f i with - | p
        · rw [hf] at hi
          cases hi
        · simp only [hf, Option.map_some, longer] at hi
          split at hi <;> cases hi
      · exact ((longer_eq_some hi).2.1 j m rfl).trans (hlonger k' n' hi)
    have hfirst : ∀ m, f i = some m → m ≤ n := by
      intro m hm
      rcases hi : longer best ((f i).map (i, ·)) with - | ⟨k', n'⟩
      · rw [hm] at hi
        rcases best with - | ⟨j, p⟩
        · cases hi
        · simp only [Option.map_some, longer] at hi
          split at hi <;> cases hi
      · refine ((longer_eq_some hi).2.2 i m ?_).trans (hlonger k' n' hi)
        rw [hm]
        rfl
    refine ⟨?_, hbest, List.forall_mem_cons.2 ⟨hfirst, hall⟩⟩
    rcases hsource with hsource | hsource
    · rcases (longer_eq_some hsource).1 with hbest | hi
      · exact .inl hbest
      · obtain ⟨m, hm, hpair⟩ := Option.map_eq_some_iff.1 hi
        cases hpair
        exact .inr hm
    · exact .inr hsource

/-- What is found is a token, and no kind of token is longer. -/
theorem munch?_eq_some (h : munch? c s = some (k, n)) :
    (k.shape.derivative c).longest? s = some n ∧
      ∀ (j : TokenKind) (m : Nat), (j.shape.derivative c).longest? s = some m → m ≤ n := by
  rw [munch?] at h
  obtain ⟨hsource, -, hall⟩ := foldl_longer_eq_some h
  exact ⟨hsource.resolve_left (Option.some_ne_none _).symm, fun j m => hall j j.mem_all m⟩

/-! ## A token on its own, and nothing longer -/

/-- No token starts with `t` and goes on in `s`. -/
def NoLonger (t s : List Char) : Prop :=
  ∀ (j : TokenKind) (v : List Char), v ≠ [] → v <+: s → ¬ j.shape.Matches (t ++ v)

theorem munch?_append (h : NoLonger (c :: t) s) : munch? c (t ++ s) = munch? c t := by
  have hsame : ∀ j : TokenKind,
      (j.shape.derivative c).longest? (t ++ s) = (j.shape.derivative c).longest? t :=
    fun j => Regex.longest?_append_eq fun v hv hprefix hmatches =>
      h j v hv hprefix (Regex.matches_derivative_iff.1 hmatches)
  simp only [munch?, hsame]

namespace Takes

theorem ne_nil (h : Takes k t s) : t ≠ [] := by
  obtain ⟨c, u, rfl, -⟩ := h
  exact List.cons_ne_nil c u

theorem shape_matches (h : Takes k t s) : k.shape.Matches t := by
  obtain ⟨c, u, rfl, hmunch⟩ := h
  have hmatches := (Regex.matches_of_longest? (munch?_eq_some hmunch).1).2
  rw [List.take_left'] at hmatches
  · exact Regex.matches_derivative_iff.1 hmatches
  · rfl

theorem noLonger (h : Takes k t s) : NoLonger t s := by
  obtain ⟨c, u, rfl, hmunch⟩ := h
  rintro j v hv ⟨w, rfl⟩ hmatches
  have htake : (j.shape.derivative c).Matches ((u ++ (v ++ w)).take (u ++ v).length) := by
    rw [← List.append_assoc, List.take_left']
    · exact Regex.matches_derivative_iff.2 hmatches
    · rfl
  obtain ⟨m, hm, hle⟩ := Regex.le_longest?_of_matches (by simp) htake
  have hmn := (munch?_eq_some hmunch).2 j m hm
  have hpos := List.length_pos_iff.2 hv
  rw [List.length_append] at hle
  omega

end Takes

theorem mem_startingWith_of_matches (h : k.shape.Matches (c :: t)) :
    k ∈ TokenKind.startingWith c := by
  refine List.mem_filter.2 ⟨k.mem_all, decide_eq_true fun hnever => ?_⟩
  rw [← Regex.matches_derivative_iff, hnever] at h
  exact Regex.not_matches_never h

/-- The kind of a token whose first character leaves only one kind. -/
theorem eq_of_startingWith {j : TokenKind} (h : Takes k t s) (ht : ∃ u, t = c :: u)
    (hj : TokenKind.startingWith c = [j]) : k = j := by
  obtain ⟨u, rfl⟩ := ht
  have hmem := mem_startingWith_of_matches h.shape_matches
  rw [hj] at hmem
  exact List.mem_singleton.1 hmem

/-- **A token is taken if it is a token on its own and nothing longer is one.** -/
theorem takes_iff : Takes k t s ↔ Takes k t [] ∧ NoLonger t s := by
  constructor
  · intro h
    refine ⟨?_, h.noLonger⟩
    have hnone := h.noLonger
    obtain ⟨c, u, rfl, hmunch⟩ := h
    rw [munch?_append hnone] at hmunch
    exact ⟨c, u, rfl, by rwa [List.append_nil]⟩
  · rintro ⟨⟨c, u, rfl, hmunch⟩, hnone⟩
    rw [List.append_nil] at hmunch
    exact ⟨c, u, rfl, by rwa [munch?_append hnone]⟩

end Fragment

/-! ## Texts as tokens one after the other -/

/-- A token without its place. -/
abbrev Lexeme := TokenKind × List Char

/-- The token without its place. -/
def Token.lexeme (t : Token) : Lexeme := (t.kind, t.text)

namespace Fragment

variable {s : List Char} {offset : Nat} {x : Lexeme} {xs ys : List Lexeme}

/-- The text that tokens make up. -/
def textOf (xs : List Lexeme) : List Char := xs.flatMap Prod.snd

@[simp] theorem textOf_nil : textOf [] = [] := rfl

@[simp] theorem textOf_cons (x : Lexeme) (xs : List Lexeme) :
    textOf (x :: xs) = x.2 ++ textOf xs := rfl

@[simp] theorem textOf_append (xs ys : List Lexeme) : textOf (xs ++ ys) = textOf xs ++ textOf ys :=
  List.flatMap_append

/-- If `s` follows their text, the tokens are taken off its front one after the other. -/
def Reads : List Lexeme → List Char → Prop
  | [], _ => True
  | x :: xs, s => Takes x.1 x.2 (textOf xs ++ s) ∧ Reads xs s

theorem reads_append : Reads (xs ++ ys) s ↔ Reads xs (textOf ys ++ s) ∧ Reads ys s := by
  induction xs with
  | nil => exact (and_iff_right trivial).symm
  | cons x xs ih => rw [List.cons_append, Reads, Reads, ih, textOf_append, List.append_assoc,
      and_assoc]

theorem Reads.takes_of_mem (h : Reads xs s) (hx : x ∈ xs) : Takes x.1 x.2 [] := by
  induction xs with
  | nil => cases hx
  | cons y xs ih =>
    rcases List.mem_cons.1 hx with rfl | hx
    · exact (takes_iff.1 h.1).1
    · exact ih h.2 hx

/-- Tokens at their places, if the first one stands at the offset. -/
def place (offset : Nat) : List Lexeme → List Token
  | [] => []
  | x :: xs => ⟨x.1, offset, x.2⟩ :: place (offset + Text.byteLength x.2) xs

theorem place_append (offset : Nat) (xs ys : List Lexeme) :
    place offset (xs ++ ys) =
      place offset xs ++ place (offset + Text.byteLength (textOf xs)) ys := by
  induction xs generalizing offset with
  | nil => rfl
  | cons x xs ih => simp [place, ih, Nat.add_assoc]

@[simp] theorem map_lexeme_place (offset : Nat) (xs : List Lexeme) :
    (place offset xs).map Token.lexeme = xs := by
  induction xs generalizing offset with
  | nil => rfl
  | cons x xs ih => rw [place, List.map_cons, ih, Token.lexeme]

/-- Tokens stand one after the other. -/
theorem start_of_mem_place {t : Token} (ht : t ∈ place offset xs) :
    offset ≤ t.start ∧ t.stop ≤ offset + Text.byteLength (textOf xs) := by
  induction xs generalizing offset with
  | nil => cases ht
  | cons x xs ih =>
    rw [textOf_cons, Text.byteLength_append]
    rcases List.mem_cons.1 ht with rfl | ht
    · refine ⟨Nat.le_refl _, ?_⟩
      show offset + Text.byteLength x.2 ≤ _
      omega
    · have hrest := ih ht
      omega

theorem pairwise_place (hxs : ∀ x ∈ xs, x.2 ≠ []) :
    (place offset xs).Pairwise fun t u => t.start < u.start := by
  induction xs generalizing offset with
  | nil => exact .nil
  | cons x xs ih =>
    obtain ⟨hx, hxs⟩ := List.forall_mem_cons.1 hxs
    refine .cons (fun u hu => ?_) (ih hxs)
    exact Nat.lt_of_lt_of_le (Nat.lt_add_of_pos_right (Text.byteLength_pos hx))
      (start_of_mem_place hu).1

theorem Reads.ne_nil_of_mem (h : Reads xs s) (hx : x ∈ xs) : x.2 ≠ [] := (h.takes_of_mem hx).ne_nil

/-- The tokens that are taken off the front come first, and then those of the rest. -/
theorem lexemes_textOf_append (h : Reads xs s) (offset : Nat) :
    lexemes offset (textOf xs ++ s) =
      (lexemes (offset + Text.byteLength (textOf xs)) s).map (place offset xs ++ ·) := by
  induction xs generalizing offset with
  | nil =>
    show lexemes offset s = (lexemes offset s).map fun ts => ts
    cases lexemes offset s <;> rfl
  | cons x xs ih =>
    rw [textOf_cons, List.append_assoc, lexemes_of_takes h.1, ih h.2, Text.byteLength_append,
      Nat.add_assoc]
    cases lexemes (offset + (Text.byteLength x.2 + Text.byteLength (textOf xs))) s <;> rfl

theorem lexemes_textOf (h : Reads xs []) (offset : Nat) :
    lexemes offset (textOf xs) = .ok (place offset xs) := by
  have hall := lexemes_textOf_append h offset
  rw [List.append_nil, lexemes_nil] at hall
  rw [hall]
  exact congrArg Except.ok (List.append_nil _)

/-- **How a text is split into tokens**: they make it up, and each is as long as possible. -/
theorem lexemes_eq_ok_iff {ts : List Token} :
    lexemes offset s = .ok ts ↔ ∃ xs, Reads xs [] ∧ textOf xs = s ∧ ts = place offset xs := by
  constructor
  · intro h
    fun_induction lexemes offset s generalizing ts with
    | case1 offset =>
      cases h
      exact ⟨[], trivial, rfl, rfl⟩
    | case2 offset c rest hmunch => cases h
    | case3 offset c rest k n hmunch =>
      rename_i text ih
      rcases hrest : lexemes (offset + Text.byteLength (c :: rest.take n)) (rest.drop n) with e | us
      · rw [hrest] at h
        cases h
      · rw [hrest] at h
        cases h
        obtain ⟨xs, hreads, htext, rfl⟩ := ih hrest
        have hn : n ≤ rest.length :=
          (Regex.matches_of_longest? (munch?_eq_some hmunch).1).1
        refine ⟨(k, c :: rest.take n) :: xs, ⟨⟨c, rest.take n, rfl, ?_⟩, hreads⟩, ?_, rfl⟩
        · rw [List.append_nil, htext, List.take_append_drop, hmunch, List.length_take_of_le hn]
        · rw [textOf_cons, htext, List.cons_append, List.take_append_drop]
  · rintro ⟨xs, hreads, rfl, rfl⟩
    exact lexemes_textOf hreads offset

/-! ## Tokens that carry meaning -/

/-- The tokens that are neither blanks nor comments, at their places. -/
def meaningful (offset : Nat) (xs : List Lexeme) : List Token :=
  (place offset xs).filter fun t => !t.kind.isTrivia

theorem meaningful_append (offset : Nat) (xs ys : List Lexeme) :
    meaningful offset (xs ++ ys) =
      meaningful offset xs ++ meaningful (offset + Text.byteLength (textOf xs)) ys := by
  rw [meaningful, place_append, List.filter_append, meaningful, meaningful]

theorem tokensFrom_textOf_append (h : Reads xs s) (offset : Nat) :
    tokensFrom offset (textOf xs ++ s) =
      (tokensFrom (offset + Text.byteLength (textOf xs)) s).map (meaningful offset xs ++ ·) := by
  rw [tokensFrom, tokensFrom, lexemes_textOf_append h]
  cases lexemes (offset + Text.byteLength (textOf xs)) s with
  | error e => rfl
  | ok ts => exact congrArg Except.ok (List.filter_append _ _)

theorem tokensFrom_eq_ok_iff {ts : List Token} :
    tokensFrom offset s = .ok ts ↔
      ∃ xs, Reads xs [] ∧ textOf xs = s ∧ ts = meaningful offset xs := by
  rw [tokensFrom]
  constructor
  · intro h
    rcases hs : lexemes offset s with e | us
    · rw [hs] at h
      cases h
    · rw [hs] at h
      cases h
      obtain ⟨xs, hreads, htext, rfl⟩ := lexemes_eq_ok_iff.1 hs
      exact ⟨xs, hreads, htext, rfl⟩
  · rintro ⟨xs, hreads, rfl, rfl⟩
    rw [lexemes_textOf hreads]
    rfl

/-- Tokens that carry meaning start one after the other. -/
theorem pairwise_tokensFrom {ts : List Token} (h : tokensFrom offset s = .ok ts) :
    ts.Pairwise fun t u => t.start < u.start := by
  obtain ⟨xs, hreads, -, rfl⟩ := tokensFrom_eq_ok_iff.1 h
  exact (pairwise_place fun x => hreads.ne_nil_of_mem).filter _

/-- Tokens of a text of less than 2³² bytes end below 2³². -/
theorem stop_lt_of_mem_tokens {code : String} {ts : List Token} {t : Token}
    (h : tokens code.toList = .ok ts) (hsize : code.utf8ByteSize < UInt32.size) (ht : t ∈ ts) :
    t.stop < UInt32.size := by
  obtain ⟨xs, -, hcode, rfl⟩ := tokensFrom_eq_ok_iff.1 h
  have hle := (start_of_mem_place (List.mem_of_mem_filter ht)).2
  rw [hcode, Nat.zero_add, Text.byteLength_toList] at hle
  exact Nat.lt_of_le_of_lt hle hsize

end Fragment
end RuleAggregate
