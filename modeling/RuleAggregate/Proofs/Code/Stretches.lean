import Mathlib.Data.List.Basic
import RuleAggregate.Code.Hoist
import RuleAggregate.Proofs.Code.Declarations
import RuleAggregate.Proofs.Code.Maximal

/-!
# Stretches of a text that hold given tokens

Tokens that carry meaning do not tell the text that they come from, because blanks and comments are
not among them.  But every way to cut the list of them comes from a way to cut the text.

## What is here

* `Fragment.meaningful_eq_cons`, `Fragment.meaningful_eq_append` — **a text is cut where its tokens
  are.**
* `Fragment.exists_slice` — the text from one token to another one.
* `Fragment.words` — tokens other than blanks, comments and semicolons.
* `Fragment.resume_eq` — how far blanks and semicolons are skipped, in tokens.
-/

set_option autoImplicit false

namespace RuleAggregate
namespace Fragment

variable {offset : Nat} {t : Token} {ts us rest : List Token} {x : Lexeme} {xs ys : List Lexeme}

theorem meaningful_cons (offset : Nat) (x : Lexeme) (xs : List Lexeme) :
    meaningful offset (x :: xs) =
      if x.1.isTrivia = true then meaningful (offset + Text.byteLength x.2) xs
      else ⟨x.1, offset, x.2⟩ :: meaningful (offset + Text.byteLength x.2) xs := by
  rw [meaningful, place, List.filter_cons]
  cases x.1.isTrivia <;> rfl

/-- Blanks and comments. -/
def IsTrivia (xs : List Lexeme) : Prop := ∀ x ∈ xs, x.1.isTrivia = true

theorem meaningful_eq_nil_iff : meaningful offset xs = [] ↔ IsTrivia xs := by
  induction xs generalizing offset with
  | nil => exact iff_of_true rfl nofun
  | cons x xs ih =>
    rw [meaningful_cons, IsTrivia, List.forall_mem_cons]
    cases hx : x.1.isTrivia with
    | true => rw [if_pos rfl, ih, IsTrivia, and_iff_right rfl]
    | false => simp

/-- **The stretch up to the first token.** -/
theorem meaningful_eq_cons (h : meaningful offset xs = t :: ts) :
    ∃ gap x rest, xs = gap ++ x :: rest ∧ IsTrivia gap ∧ x.1.isTrivia = false ∧
      t = ⟨x.1, offset + Text.byteLength (textOf gap), x.2⟩ ∧
      meaningful (offset + Text.byteLength (textOf gap) + Text.byteLength x.2) rest = ts := by
  induction xs generalizing offset with
  | nil => cases h
  | cons x xs ih =>
    rw [meaningful_cons] at h
    split at h
    · next hx =>
      obtain ⟨gap, y, rest, rfl, hgap, hy, rfl, rfl⟩ := ih h
      refine ⟨x :: gap, y, rest, rfl, List.forall_mem_cons.2 ⟨hx, hgap⟩, hy, ?_, ?_⟩
      · simp only [textOf_cons, Text.byteLength_append, Nat.add_assoc]
      · simp only [textOf_cons, Text.byteLength_append, Nat.add_assoc]
    · next hx =>
      cases h
      exact ⟨[], x, xs, rfl, nofun, by simpa using hx, rfl, rfl⟩

/-- What is the case with a token and with the last one behind it is the case with the last of them
all. -/
theorem of_getLast?_cons {P : Lexeme → Prop} (hx : P x)
    (hxs : ∀ y, xs.getLast? = some y → P y) : ∀ y, (x :: xs).getLast? = some y → P y := by
  intro y hy
  rw [List.getLast?_cons] at hy
  rcases hlast : xs.getLast? with - | z
  · rw [hlast] at hy
    cases hy
    exact hx
  · rw [hlast] at hy
    cases hy
    exact hxs _ hlast

/-- **The stretch that ends with the last of the first tokens.** -/
theorem meaningful_eq_append (h : meaningful offset xs = ts ++ us) :
    ∃ stretch rest, xs = stretch ++ rest ∧ meaningful offset stretch = ts ∧
      meaningful (offset + Text.byteLength (textOf stretch)) rest = us ∧
      endOf offset ts = offset + Text.byteLength (textOf stretch) ∧
      ∀ x, stretch.getLast? = some x → x.1.isTrivia = false := by
  induction ts generalizing offset xs with
  | nil => exact ⟨[], xs, rfl, rfl, h, rfl, nofun⟩
  | cons t ts ih =>
    obtain ⟨gap, x, rest, rfl, hgap, hx, rfl, hrest⟩ := meaningful_eq_cons h
    obtain ⟨stretch, rest, rfl, rfl, hrest, hend, hlast⟩ := ih hrest
    have hlength : offset + Text.byteLength (textOf gap) + Text.byteLength x.2 +
          Text.byteLength (textOf stretch) =
        offset + Text.byteLength (textOf (gap ++ x :: stretch)) := by
      simp [Nat.add_assoc]
    refine ⟨gap ++ x :: stretch, rest, by simp, ?_, ?_, hend.trans hlength, ?_⟩
    · rw [meaningful_append, meaningful_eq_nil_iff.2 hgap, meaningful_cons, hx]
      rfl
    · rw [← hlength, hrest]
    · intro y hy
      rw [List.getLast?_append_of_ne_nil _ (List.cons_ne_nil _ _)] at hy
      exact of_getLast?_cons hx hlast y hy

/-- From the start of a token to the end of a later one the text can be sliced.  The slice starts
with the token. -/
theorem exists_slice (h : t :: ts <:+: meaningful 0 xs) :
    ∃ text, Text.slice? (textOf xs) t.start (endOf t.stop ts) = some (t.text ++ text) := by
  obtain ⟨us, rest, hsplit⟩ := h
  rw [List.append_assoc, List.cons_append] at hsplit
  obtain ⟨before, xs, rfl, -, hfirst, -⟩ := meaningful_eq_append hsplit.symm
  obtain ⟨gap, x, xs, rfl, -, -, rfl, hrest⟩ := meaningful_eq_cons hfirst
  obtain ⟨stretch, xs, rfl, -, -, hend, -⟩ := meaningful_eq_append hrest
  have hstart : 0 + Text.byteLength (textOf before) + Text.byteLength (textOf gap) =
      Text.byteLength (textOf (before ++ gap)) := by
    simp
  have hstop : Text.byteLength (textOf (before ++ gap)) + Text.byteLength x.2 +
        Text.byteLength (textOf stretch) =
      Text.byteLength (textOf (before ++ gap)) + Text.byteLength (textOf (x :: stretch)) := by
    simp [Nat.add_assoc]
  refine ⟨textOf stretch, ?_⟩
  rw [hstart] at hend ⊢
  rw [Token.stop, hend, hstop]
  have hslice := Text.slice?_append (textOf (before ++ gap)) (textOf (x :: stretch)) (textOf xs)
  simpa using hslice

/-! ## Words -/

/-- Tokens other than blanks, comments and semicolons. -/
def words (xs : List Lexeme) : List Lexeme :=
  xs.filter fun x => !x.1.isTrivia && !(x.1 == .semicolon)

@[simp] theorem words_append (xs ys : List Lexeme) : words (xs ++ ys) = words xs ++ words ys :=
  List.filter_append _ _

theorem words_meaningful (offset : Nat) (xs : List Lexeme) :
    words ((meaningful offset xs).map Token.lexeme) = words xs := by
  induction xs generalizing offset with
  | nil => rfl
  | cons x xs ih =>
    rw [meaningful_cons]
    cases hx : x.1.isTrivia with
    | true =>
      rw [if_pos rfl, ih, words, words, List.filter_cons_of_neg (by simp [hx])]
    | false =>
      rw [if_neg (by simp), List.map_cons, words, List.filter_cons, words, List.filter_cons,
        ← words, ← words, ih]
      rfl

theorem words_of_isTrivia (h : IsTrivia xs) : words xs = [] :=
  List.filter_eq_nil_iff.2 fun x hx => by simp [h x hx]

/-! ## Where the code goes on -/

/-- Blanks and semicolons. -/
def isSkipped (x : Lexeme) : Bool := x.1 == .blank || x.1 == .semicolon

/-- The characters that are skipped after a declared name. -/
def trailingChars : List Char := " \t\n\x0c\r;".toList

theorem byteLength_eq_length {s : List Char} (h : ∀ c ∈ s, c.utf8Size = 1) :
    Text.byteLength s = s.length := by
  induction s with
  | nil => rfl
  | cons c s ih =>
    obtain ⟨hc, hs⟩ := List.forall_mem_cons.1 h
    rw [Text.byteLength_cons, hc, ih hs, List.length_cons, Nat.add_comm]

/-- Blanks and semicolons take one byte each. -/
theorem trailingBlanks_eq (s : List Char) :
    trailingBlanks s = Text.byteLength (s.takeWhile (trailingChars.contains ·)) := by
  have hsize : ∀ c ∈ trailingChars, c.utf8Size = 1 := List.all_iff_forall_prop.1 (by decide)
  rw [byteLength_eq_length fun c hc => hsize c (by simpa using List.mem_takeWhile_imp hc)]
  rfl

theorem mem_trailingChars {c : Char} (h : Takes x.1 x.2 []) (hx : isSkipped x = true)
    (hc : c ∈ x.2) : c ∈ trailingChars := by
  rw [isSkipped, Bool.or_eq_true, beq_iff_eq, beq_iff_eq] at hx
  have hmatches := h.shape_matches
  rcases hx with hx | hx
  · have hshape : TokenKind.blank.shape = .seq (.char (.ofString " \t\n\r\x0c"))
        (.star (.char (.ofString " \t\n\r\x0c"))) := by decide
    rw [hx, hshape] at hmatches
    have hholds := Regex.holds_of_mem hmatches hc
    simp only [Regex.holds, CharClass.contains_ofString, Bool.or_self, decide_eq_true_eq] at hholds
    have hall : ∀ c ∈ " \t\n\r\x0c".toList, c ∈ trailingChars :=
      List.all_iff_forall_prop.1 (by decide)
    exact hall c hholds
  · rw [hx] at hmatches
    rw [Regex.matches_literal_iff.1 hmatches] at hc
    rw [List.mem_singleton.1 hc]
    decide

theorem not_mem_trailingChars {c : Char} {u : List Char} (h : Takes x.1 x.2 [])
    (hx : isSkipped x = false) (hc : x.2 = c :: u) : c ∉ trailingChars := by
  intro hmem
  have hall : ∀ c ∈ trailingChars, TokenKind.startingWith c = [.blank] ∨
      TokenKind.startingWith c = [.semicolon] :=
    List.all_iff_forall_prop.1 (by decide)
  rcases hall c hmem with hstart | hstart
  all_goals
    rw [isSkipped, eq_of_startingWith h ⟨u, hc⟩ hstart] at hx
    cases hx

theorem mem_trailingChars_of_mem_takeWhile {c : Char} (h : Reads xs [])
    (hc : c ∈ textOf (xs.takeWhile isSkipped)) : c ∈ trailingChars := by
  obtain ⟨x, hx, hc⟩ := List.mem_flatMap.1 hc
  exact mem_trailingChars (h.takes_of_mem (List.takeWhile_subset _ hx))
    (List.mem_takeWhile_imp hx) hc

theorem textOf_eq_append (p : Lexeme → Bool) (xs : List Lexeme) :
    textOf xs = textOf (xs.takeWhile p) ++ textOf (xs.dropWhile p) := by
  rw [← textOf_append, List.takeWhile_append_dropWhile]

/-- **The code goes on after the blanks and semicolons.** -/
theorem resume_eq (h : Reads xs []) (pre : List Char) :
    resume (pre ++ textOf xs) (Text.byteLength pre) =
      Text.byteLength pre + Text.byteLength (textOf (xs.takeWhile isSkipped)) := by
  have hskipped : ∀ c ∈ textOf (xs.takeWhile isSkipped), c ∈ trailingChars :=
    fun c => mem_trailingChars_of_mem_takeWhile h
  have hrest : (textOf (xs.dropWhile isSkipped)).takeWhile (trailingChars.contains ·) = [] := by
    rcases hdrop : xs.dropWhile isSkipped with - | ⟨y, ys⟩
    · rfl
    · have hmem : y ∈ xs := (List.dropWhile_sublist _).subset (by
        rw [hdrop]
        exact List.mem_cons_self)
      have htakes : Takes y.1 y.2 [] := h.takes_of_mem hmem
      have hy : isSkipped y = false := by
        have := List.head?_dropWhile_not isSkipped xs
        rw [hdrop] at this
        simpa using this
      obtain ⟨c, u, hu⟩ := List.exists_cons_of_ne_nil htakes.ne_nil
      rw [textOf_cons, hu, List.cons_append, List.takeWhile_cons_of_neg]
      simpa using not_mem_trailingChars htakes hy hu
  have htake : (textOf xs).takeWhile (trailingChars.contains ·) =
      textOf (xs.takeWhile isSkipped) := by
    rw [textOf_eq_append isSkipped xs,
      List.takeWhile_append_of_pos fun c hc => by simpa using hskipped c hc, hrest,
      List.append_nil]
  rw [resume, Text.dropBytes?_append]
  simp only [trailingBlanks_eq, htake]

end Fragment
end RuleAggregate
